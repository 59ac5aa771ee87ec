import NestServer.Mongo.Bson

/-! # The query language

    A query object is a `Bson` document.  `parseQuery` reads it as the store
    does, and refuses what the store refuses: an empty or misplaced operator
    list, an unknown operator, an operand of the wrong kind.  A field test is
    asked of the values found under its path, and of the elements of the arrays
    among them.

    How a regular expression is searched for is a parameter, except for patterns
    that are a literal text, possibly anchored. -/

namespace Mongo

/-! ## Paths -/

/-- Does a key name an operator? -/
def isOperator (key : String) : Bool := key.toList.head? = some '$'

def splitPath (path : String) : List String := (path.toList.splitOn '.').map String.ofList

/-- A path component that is an array index. -/
def arrayIndex? (part : String) : Option Nat :=
  if part.toList ≠ [] ∧ part.toList.all Char.isDigit then
    some (part.toList.foldl (fun n c => 10 * n + (c.toNat - '0'.toNat)) 0)
  else none

namespace Bson

/- The values under a path; `none` is a missing field.  A component goes into
   the documents of an array, or picks one of its elements. -/
mutual

def valuesAt : List String → Bson → List (Option Bson)
  | [],      v           => [some v]
  | p :: ps, .doc fields => valuesAtField p ps fields
  | p :: ps, .list vs    => valuesAtElements (arrayIndex? p) p ps vs
  | _ :: _,  _           => [none]

def valuesAtField (p : String) (ps : List String) : List (String × Bson) → List (Option Bson)
  | []             => [none]
  | (k, v) :: rest => if k = p then valuesAt ps v else valuesAtField p ps rest

def valuesAtElements : Option Nat → String → List String → List Bson → List (Option Bson)
  | _, _, _, [] => []
  | i, p, ps, v :: rest =>
      (if i = some 0 then valuesAt ps v else []) ++
        (match v with
          | .doc fields => valuesAtField p ps fields
          | _           => []) ++
        valuesAtElements (i.bind fun n => if n = 0 then none else some (n - 1)) p ps rest

end

/-- The values that a test of a field is asked of. -/
def candidates (found : List (Option Bson)) : List (Option Bson) :=
  found.flatMap fun v =>
    match v with
    | some (.list ws) => v :: ws.map some
    | _               => [v]

/-- A missing value counts as `null`. -/
def orNull (v : Option Bson) : Bson := v.getD .null

end Bson

/-! ## Regular expressions -/

def isMeta (c : Char) : Bool :=
  c ∈ ['.', '*', '+', '?', '^', '$', '{', '}', '(', ')', '|', '[', ']', '\\']

/-- How the store searches a text for a pattern, and which characters it takes
    for the same under the option `i`. -/
structure RegexEngine where
  search : String → String → String → Bool
  fold   : Char → Char

/-- A pattern that is a literal text, and whether it is anchored at the end. -/
def literalText? : List Char → Option (List Char × Bool)
  | []        => some ([], false)
  | ['$']     => some ([], true)
  | c :: rest =>
      if c = '\\' then
        match rest with
        | []      => none
        | d :: rest =>
            if isMeta d then (literalText? rest).map fun p => (d :: p.1, p.2) else none
      else if isMeta c then none
      else (literalText? rest).map fun p => (c :: p.1, p.2)

/-- What follows `text` at the start of `subject`. -/
def afterText (fold : Char → Char) : List Char → List Char → Option (List Char)
  | [],      subject => some subject
  | c :: cs, d :: ds => if fold c = fold d then afterText fold cs ds else none
  | _ :: _,  []      => none

/-- The end anchor also matches before a final line break. -/
def literalAt (fold : Char → Char) (text : List Char) (anchored : Bool) (subject : List Char) :
    Bool :=
  (afterText fold text subject).any fun rest => !anchored || rest = [] || rest = ['\n']

def searchLiteral (fold : Char → Char) (pattern subject : List Char) : Option Bool :=
  match pattern with
  | '^' :: pattern =>
      (literalText? pattern).map fun p => literalAt fold p.1 p.2 subject
  | pattern        =>
      (literalText? pattern).map fun p => subject.tails.any (literalAt fold p.1 p.2)

def RegexEngine.matches (e : RegexEngine) (source options subject : String) : Bool :=
  if options = "i" then
    (searchLiteral e.fold source.toList subject.toList).getD (e.search source options subject)
  else e.search source options subject

/-! ## Queries and their meaning -/

inductive CompareOp where
  | gt
  | gte
  | lt
  | lte
deriving DecidableEq

def CompareOp.accepts : CompareOp → Ordering → Bool
  | .gt,  o => o = .gt
  | .gte, o => o ≠ .lt
  | .lt,  o => o = .lt
  | .lte, o => o ≠ .gt

mutual

/-- `every`, `some` and `none` are the logical operators; a query object is the
    conjunction of its entries. -/
inductive Query where
  | every (qs : List Query)
  | some (qs : List Query)
  | none (qs : List Query)
  | field (path : String) (tests : List Test)

inductive Test where
  | eq (v : Bson)
  | compare (op : CompareOp) (v : Bson)
  | within (vs : List Bson)
  | present (b : Bool)
  | regex (source options : String)
  | elemMatch (q : Query)
  | not (tests : List Test)

end

/-- Values of different types are not ordered by a test. -/
def CompareOp.holds (op : CompareOp) (operand value : Bson) : Bool :=
  value.rank = operand.rank && op.accepts (value.compare operand)

section Meaning

variable (e : RegexEngine)

mutual

def Query.holds (d : Bson) : Query → Bool
  | .every qs      => Query.holdsAll d qs
  | .some qs       => Query.holdsAny d qs
  | .none qs       => !Query.holdsAny d qs
  | .field path ts => testsHold (d.valuesAt (splitPath path)) ts

def Query.holdsAll (d : Bson) : List Query → Bool
  | []      => true
  | q :: qs => q.holds d && Query.holdsAll d qs

def Query.holdsAny (d : Bson) : List Query → Bool
  | []      => false
  | q :: qs => q.holds d || Query.holdsAny d qs

def Test.holds (found : List (Option Bson)) : Test → Bool
  | .eq v             => (Bson.candidates found).any fun w => Bson.orNull w = v
  | .compare op v     => (Bson.candidates found).any fun w => op.holds v (Bson.orNull w)
  | .within vs        => (Bson.candidates found).any fun w => vs.contains (Bson.orNull w)
  | .present b        => found.any Option.isSome = b
  | .regex src opts   => (Bson.candidates found).any fun w =>
      match w with
      | some (.str s) => e.matches src opts s
      | _             => false
  | .elemMatch q      => found.any fun v =>
      match v with
      | some (.list ws) => ws.any fun w =>
          match w with
          | .doc _  => q.holds w
          | .list _ => q.holds w
          | _       => false
      | _ => false
  | .not ts           => !testsHold found ts

def testsHold (found : List (Option Bson)) : List Test → Bool
  | []      => true
  | t :: ts => t.holds found && testsHold found ts

end

end Meaning

/-! ## Reading a query object -/

/-- `{ $gt: … }` and not a document to be equal to -/
def isOperatorDoc : Bson → Bool
  | .doc ((k, _) :: _) => isOperator k
  | _                  => false

/-- The value of `$options` in a group of tests. -/
def optionsOf (tests : List (String × Bson)) : Option Bson := tests.lookup "$options"

/-- The option letters that the store knows. -/
def validOptions (options : String) : Bool :=
  options.toList.all fun c => c ∈ ['i', 'm', 's', 'u', 'x']

/-- Options are given once: in `$options`, or with the expression. -/
def parseRegex (options : Option Bson) : Bson → Option Test
  | .str source         =>
      match options with
      | none             => some (.regex source "")
      | some (.str opts) => if validOptions opts then some (.regex source opts) else none
      | _                => none
  | .regex source flags =>
      match options with
      | none             => some (.regex source flags)
      | some (.str opts) =>
          if flags = "" && validOptions opts then some (.regex source opts) else none
      | _                => none
  | _                   => none

/-- The tests that are neither `$not` nor `$elemMatch`. -/
def parsePlainTest (op : String) (v : Bson) : Option Test :=
  match op with
  | "$eq"     => some (.eq v)
  | "$ne"     => match v with
      | .regex _ _ => none
      | v          => some (.not [.eq v])
  | "$gt"     => some (.compare .gt v)
  | "$gte"    => some (.compare .gte v)
  | "$lt"     => some (.compare .lt v)
  | "$lte"    => some (.compare .lte v)
  | "$in"     => match v with
      | .list vs => if vs.any isOperatorDoc then none else some (.within vs)
      | _        => none
  | "$nin"    => match v with
      | .list vs => if vs.any isOperatorDoc then none else some (.not [.within vs])
      | _        => none
  | "$exists" => match v with
      | .bool b => some (.present b)
      | _       => none
  | _         => none

mutual

/-- The entries of a query object. -/
def parseEntries : List (String × Bson) → Option (List Query)
  | []             => some []
  | (k, v) :: rest => do
      let q ← parseEntry k v
      let qs ← parseEntries rest
      return q :: qs

def parseEntry (k : String) : Bson → Option Query
  | .list vs      =>
      if isOperator k then
        match k, vs with
        | _,      []     => none
        | "$and", _ :: _ => (parseList vs).map .every
        | "$or",  _ :: _ => (parseList vs).map .some
        | "$nor", _ :: _ => (parseList vs).map .none
        | _,      _ :: _ => none
      else some (.field k [.eq (.list vs)])
  | .doc fields   =>
      if isOperator k then none
      else if isOperatorDoc (.doc fields) then (parseTests fields fields).map (.field k)
      else some (.field k [.eq (.doc fields)])
  | .regex src fs => if isOperator k then none else some (.field k [.regex src fs])
  | v             => if isOperator k then none else some (.field k [.eq v])

/-- The operand of a logical operator. -/
def parseList : List Bson → Option (List Query)
  | []                  => some []
  | .doc fields :: rest => do
      let q ← parseEntries fields
      let qs ← parseList rest
      return .every q :: qs
  | _ :: _              => none

/-- The tests of one field; `group` is the object they stand in. -/
def parseTests (group : List (String × Bson)) : List (String × Bson) → Option (List Test)
  | []              => some []
  | (op, v) :: rest => do
      let t ← parseTest group op v
      let ts ← parseTests group rest
      return t ++ ts

def parseTest (group : List (String × Bson)) (op : String) : Bson → Option (List Test)
  | .doc fields =>
      if op = "$not" then
        if isOperatorDoc (.doc fields) then (parseTests fields fields).map fun ts => [.not ts]
        else none
      else if op = "$elemMatch" then
        (parseEntries fields).map fun qs => [.elemMatch (.every qs)]
      else (parsePlainTest op (.doc fields)).map fun t => [t]
  | v           =>
      if op = "$regex" then (parseRegex (optionsOf group) v).map fun t => [t]
      else if op = "$options" then
        if (group.lookup "$regex").isSome then some [] else none
      else (parsePlainTest op v).map fun t => [t]

end

/-- How the store reads a query object. -/
def parseQuery : Bson → Option Query
  | .doc fields => (parseEntries fields).map .every
  | _           => none

/-- Does a document match a query object?  `none` is an error of the store. -/
def matchesQuery (e : RegexEngine) (query d : Bson) : Option Bool :=
  (parseQuery query).map (Query.holds e d)

/-! ## Small facts -/

@[simp] theorem holdsAll_iff (e : RegexEngine) (d : Bson) (qs : List Query) :
    Query.holdsAll e d qs = true ↔ ∀ q ∈ qs, q.holds e d = true := by
  induction qs with
  | nil => simp [Query.holdsAll]
  | cons q qs ih => simp [Query.holdsAll, ih]

@[simp] theorem holdsAny_iff (e : RegexEngine) (d : Bson) (qs : List Query) :
    Query.holdsAny e d qs = true ↔ ∃ q ∈ qs, q.holds e d = true := by
  induction qs with
  | nil => simp [Query.holdsAny]
  | cons q qs ih => simp [Query.holdsAny, ih]

theorem holdsAll_append (e : RegexEngine) (d : Bson) (qs rs : List Query) :
    Query.holdsAll e d (qs ++ rs) = (Query.holdsAll e d qs && Query.holdsAll e d rs) := by
  induction qs with
  | nil => rfl
  | cons q qs ih => rw [List.cons_append, Query.holdsAll, Query.holdsAll, ih, Bool.and_assoc]

theorem holdsAny_append (e : RegexEngine) (d : Bson) (qs rs : List Query) :
    Query.holdsAny e d (qs ++ rs) = (Query.holdsAny e d qs || Query.holdsAny e d rs) := by
  induction qs with
  | nil => rfl
  | cons q qs ih => rw [List.cons_append, Query.holdsAny, Query.holdsAny, ih, Bool.or_assoc]

theorem parseList_append {cs ds : List Bson} {qs rs : List Query} (hcs : parseList cs = some qs)
    (hds : parseList ds = some rs) : parseList (cs ++ ds) = some (qs ++ rs) := by
  induction cs generalizing qs with
  | nil =>
      cases hcs
      exact hds
  | cons c cs ih =>
      cases c with
      | doc fields =>
          rw [parseList] at hcs
          obtain ⟨q, hq, hcs⟩ := Option.bind_eq_some_iff.mp hcs
          obtain ⟨qs', hqs', hcs⟩ := Option.bind_eq_some_iff.mp hcs
          cases hcs
          rw [List.cons_append, parseList, hq, ih hqs']
          rfl
      | _ => cases hcs

/-- A query object of one entry. -/
theorem parse_single {path : String} {v : Bson} {q : Query} (h : parseEntry path v = some q) :
    parseEntries [(path, v)] = some [q] := by
  rw [parseEntries, h, parseEntries]
  rfl

/-- A value that a field is compared with, and not an object. -/
def Bson.IsFlat (v : Bson) : Prop := ∀ fields, v ≠ .doc fields

theorem parseTests_plain {group : List (String × Bson)} {op : String} {v : Bson} {t : Test}
    (hv : v.IsFlat) (hregex : op ≠ "$regex") (hoptions : op ≠ "$options")
    (h : parsePlainTest op v = some t) : parseTests group [(op, v)] = some [t] := by
  have htest : parseTest group op v = some [t] := by
    rw [parseTest]
    · rw [if_neg hregex, if_neg hoptions, h]
      rfl
    · exact hv
  rw [parseTests, htest]
  rfl

/-- A field with one test. -/
theorem parse_test {path op : String} {v : Bson} {ts : List Test}
    (hpath : isOperator path = false) (hop : isOperator op = true)
    (h : parseTests [(op, v)] [(op, v)] = some ts) :
    parseEntry path (.doc [(op, v)]) = some (.field path ts) := by
  rw [parseEntry, if_neg (by simp [hpath]),
    if_pos (show isOperatorDoc (.doc [(op, v)]) = true from hop), h]
  rfl

/-- A negated group of tests. -/
theorem parse_not {path : String} {fields : List (String × Bson)} {ts : List Test}
    (hpath : isOperator path = false) (hop : isOperatorDoc (.doc fields) = true)
    (h : parseTests fields fields = some ts) :
    parseEntry path (.doc [("$not", .doc fields)]) = some (.field path [.not ts]) := by
  refine parse_test hpath (by decide) ?_
  rw [parseTests, parseTest, if_pos rfl, if_pos hop, h]
  rfl

/-- A field that is equal to a value. -/
theorem parse_equal {path : String} {v : Bson} (hpath : isOperator path = false) (hv : v.IsFlat)
    (hr : ∀ source flags, v ≠ .regex source flags) :
    parseEntry path v = some (.field path [.eq v]) := by
  have hnot : ¬ isOperator path = true := by simp [hpath]
  cases v with
  | doc fields => exact absurd rfl (hv fields)
  | regex source flags => exact absurd rfl (hr source flags)
  | _ => exact if_neg hnot

/-! ## Documents with one value under a path -/

def nested : List String → Bson → Bson
  | [],      v => v
  | p :: ps, v => .doc [(p, nested ps v)]

theorem valuesAt_nested (ps : List String) (v : Bson) : (nested ps v).valuesAt ps = [some v] := by
  induction ps with
  | nil => cases v <;> rfl
  | cons p ps ih => rw [nested, Bson.valuesAt, Bson.valuesAtField, if_pos rfl, ih]

theorem exists_found (path : String) (v : Bson) :
    ∃ fields, (Bson.doc fields).valuesAt (splitPath path) = [some v] := by
  cases h : splitPath path with
  | nil => exact absurd (List.map_eq_nil_iff.mp h) (List.splitOn_ne_nil _ _)
  | cons p ps => exact ⟨[(p, nested ps v)], valuesAt_nested (p :: ps) v⟩

end Mongo
