import NestServer.FilterMeaning
import Mathlib.Data.List.Perm.Subperm

/-! # Operators in the query of a filter input

    A client chooses operators by two enums, and fields and values freely.  The
    keys of a query that begin with a dollar sign are those of the enums, one for
    one, and the store compares whole values with fields, exactly if no field and
    no object in a value begins a key with a dollar sign:
    `operatorsSelected_iff`.  Nothing in the translation checks that. -/

namespace FilterHelper

open Mongo

/-! ## The operators that are selected -/

/-- The keys at any depth that begin with a dollar sign. -/
def dollarKeys (v : Bson) : List String := (v.entries.map Prod.fst).filter isOperator

/-- The operators of a comparison, with `not` or without it. -/
def ComparisonOperatorEnum.keys : ComparisonOperatorEnum → Bool → List String
  | .EQ,    not => if not then ["$ne"] else []
  | .GT,    not => if not then ["$not", "$gt"] else ["$gt"]
  | .GTE,   not => if not then ["$not", "$gte"] else ["$gte"]
  | .IN,    not => if not then ["$nin"] else ["$in"]
  | .LT,    not => if not then ["$not", "$lt"] else ["$lt"]
  | .LTE,   not => if not then ["$not", "$lte"] else ["$lte"]
  | .NE,    not => if not then [] else ["$ne"]
  | .NIN,   not => if not then ["$in"] else ["$nin"]
  | .REGEX, not => if not then ["$not", "$options", "$regex"] else ["$options", "$regex"]

def LogicalOperatorEnum.query : LogicalOperatorEnum → List Query → Query
  | .AND => .every
  | .NOR => .none
  | .OR  => .some

namespace SingleFilterInput

variable (rt : Runtime) (automatic : Bool) (s : SingleFilterInput)

/-- The fields and the values that they are compared with. -/
def compared : List (String × Bson) :=
  if s.asksIds then
    match getObjectIds rt s.value with
    | .ok value => [(s.field, value)]
    | .error _  => []
  else (s.forms automatic).map fun value => (s.comparedField automatic, value)

/-- The comparison of a field with a whole value. -/
def test (value : Bson) : Test :=
  match s.operator with
  | .EQ | .NE  => .eq value
  | .IN | .NIN =>
      match value with
      | .list vs => .within vs
      | v        => .within [v]
  | .GT        => .compare .gt value
  | .GTE       => .compare .gte value
  | .LT        => .compare .lt value
  | .LTE       => .compare .lte value
  | .REGEX     => .regex ((rt.regExp value).getD "") (s.options.getD "")

/-- What one comparison is to be read as; `__proto__` is never compared. -/
def readingOf (c : String × Bson) : List Query :=
  if c.1 = "__proto__" then []
  else [.field c.1 [if s.negated then .not [s.test rt c.2] else s.test rt c.2]]

def operatorsOf (c : String × Bson) : List String :=
  if c.1 = "__proto__" then [] else s.operator.keys s.not

/-- The operators that the enums stand for; a widened value is compared twice. -/
def operators : List String :=
  (if s.widened automatic then ["$or"] else []) ++ (s.compared rt automatic).flatMap s.operatorsOf

def reading : List Query :=
  if s.widened automatic then
    [.some ((s.compared rt automatic).map fun c => .every (s.readingOf rt c))]
  else (s.compared rt automatic).flatMap (s.readingOf rt)

/-- No key of the client is an operator.  What becomes of a value as an ObjectId
    or as a regular expression has no keys. -/
structure NoOperator : Prop where
  field : isOperator s.field = false
  value : s.asksIds = false → s.operator ≠ .REGEX → s.field ≠ "__proto__" →
    dollarKeys s.value = []

end SingleFilterInput

section Selection

variable (rt : Runtime) (automatic : Bool)

mutual

def FilterInput.operators : FilterInput → List String
  | .combined op filters => op.key :: FilterInput.operatorsAll filters
  | .unlisted _          => []
  | .single s            => s.operators rt automatic
  | .empty               => []

def FilterInput.operatorsAll : List FilterInput → List String
  | []           => []
  | f :: filters => f.operators ++ FilterInput.operatorsAll filters

end

mutual

/-- The conditions that the enums stand for. -/
def FilterInput.reading : FilterInput → List Query
  | .combined op filters => [op.query (FilterInput.readingAll filters)]
  | .unlisted _          => []
  | .single s            => s.reading rt automatic
  | .empty               => []

def FilterInput.readingAll : List FilterInput → List Query
  | []           => []
  | f :: filters => .every f.reading :: FilterInput.readingAll filters

end

/-- **No operator but those selected.** Each key with a dollar sign is one of the
    operators that the enums stand for, and a query that the store takes is read
    as the comparisons that the enums stand for. -/
def OperatorsSelected (f : FilterInput) (q : Bson) : Prop :=
  (dollarKeys q).Subperm (f.operators rt automatic) ∧
    ∀ Q, parseQuery q = some Q → Q = .every (f.reading rt automatic)

end Selection

def FilterInput.NoOperator (f : FilterInput) : Prop := ∀ s, .single s ∈ f.parts → s.NoOperator

/-- There are no regular expressions in JSON. -/
def FilterInput.HasJson (f : FilterInput) : Prop :=
  ∀ s, .single s ∈ f.parts → ∀ source flags, s.value ≠ .regex source flags

/-! ## Keys -/

@[simp] theorem dollarKeys_doc_nil : dollarKeys (.doc []) = [] := rfl

@[simp] theorem dollarKeys_list_nil : dollarKeys (.list []) = [] := rfl

theorem dollarKeys_doc_cons (k : String) (v : Bson) (rest : List (String × Bson)) :
    dollarKeys (.doc ((k, v) :: rest)) =
      [k].filter isOperator ++ (dollarKeys v ++ dollarKeys (.doc rest)) := by
  show ((Bson.doc ((k, v) :: rest)).entries.map Prod.fst).filter isOperator =
    _ ++ (_ ++ ((Bson.doc rest).entries.map Prod.fst).filter isOperator)
  rw [Bson.entries_doc, Bson.entries_doc, List.flatMap_cons, List.map_append, List.map_cons,
    List.filter_append, ← List.singleton_append, List.filter_append, List.append_assoc]
  rfl

theorem dollarKeys_single (k : String) (v : Bson) :
    dollarKeys (.doc [(k, v)]) = [k].filter isOperator ++ dollarKeys v := by
  rw [dollarKeys_doc_cons, dollarKeys_doc_nil, List.append_nil]

theorem dollarKeys_operator {k : String} (hk : isOperator k = true) (v : Bson) :
    dollarKeys (.doc [(k, v)]) = k :: dollarKeys v := by
  rw [dollarKeys_single, List.filter_cons_of_pos hk]
  rfl

theorem dollarKeys_cons (v : Bson) (vs : List Bson) :
    dollarKeys (.list (v :: vs)) = dollarKeys v ++ dollarKeys (.list vs) := by
  show ((Bson.list (v :: vs)).entries.map Prod.fst).filter isOperator =
    _ ++ ((Bson.list vs).entries.map Prod.fst).filter isOperator
  rw [Bson.entries_list, Bson.entries_list, List.flatMap_cons, List.map_append, List.filter_append]
  rfl

theorem dollarKeys_regex (source options : String) :
    dollarKeys (.doc [("$options", .str options), ("$regex", .regex source "")]) =
      ["$options", "$regex"] := by
  rw [dollarKeys_doc_cons, dollarKeys_single, List.filter_cons_of_pos (by decide),
    List.filter_cons_of_pos (by decide)]
  rfl

/-- An object without such keys is no object of operators. -/
theorem not_operatorDoc {v : Bson} (h : dollarKeys v = []) : isOperatorDoc v = false := by
  cases v with
  | doc fields =>
      cases fields with
      | nil => rfl
      | cons e rest =>
          obtain ⟨k, v⟩ := e
          cases hk : isOperator k with
          | false => exact hk
          | true =>
              have hmem : k ∈ dollarKeys (.doc ((k, v) :: rest)) := by
                rw [dollarKeys, Bson.entries_doc, List.flatMap_cons]
                exact List.mem_filter.mpr ⟨List.mem_cons_self, hk⟩
              rw [h] at hmem
              cases hmem
  | _ => rfl

/-! ## ObjectIds -/

section Ids

variable (rt : Runtime)

mutual

/-- Whatever is converted becomes an ObjectId. -/
theorem newObjectId_isId : ∀ {v w : Bson}, newObjectId rt v = .ok w → ∃ hex, w = .objectId hex
  | .null, w, h => by
      cases h
      exact ⟨_, rfl⟩
  | .num q, w, h => by
      rw [newObjectId] at h
      split at h <;> cases h
      exact ⟨_, rfl⟩
  | .str s, w, h => by
      rw [newObjectId] at h
      split at h <;> cases h
      exact ⟨_, rfl⟩
  | .objectId s, w, h => by
      cases h
      exact ⟨_, rfl⟩
  | .list vs, w, h => by
      rw [newObjectId] at h
      split at h
      · split at h <;> cases h
        exact ⟨_, rfl⟩
      · cases h
  | .doc fields, w, h => by
      rw [newObjectId] at h
      split at h
      · next r hr =>
          subst h
          exact idIn_isId "id" hr
      · split at h
        · next r hr =>
            subst h
            exact idIn_isId "_id" hr
        · split at h <;> cases h
          exact ⟨_, rfl⟩
  | .bool b, w, h => by cases h
  | .date ms, w, h => by cases h
  | .regex source flags, w, h => by cases h

theorem idIn_isId (key : String) : ∀ {fields : List (String × Bson)} {w : Bson},
    idIn rt key fields = some (.ok w) → ∃ hex, w = .objectId hex
  | [], w, h => by cases h
  | (k, v) :: rest, w, h => by
      rw [idIn] at h
      split at h
      · split at h
        · exact newObjectId_isId (Option.some.inj h)
        · cases h
      · exact idIn_isId key h

end

/-- There are no keys in what is converted. -/
theorem getObjectIds_keys {v w : Bson} (h : getObjectIds rt v = .ok w) :
    dollarKeys w = [] ∧ ∀ source flags, w ≠ .regex source flags := by
  have hone : ∀ {v w : Bson}, newObjectId rt v = .ok w →
      dollarKeys w = [] ∧ ∀ source flags, w ≠ .regex source flags := by
    intro v w hw
    obtain ⟨hex, rfl⟩ := newObjectId_isId rt hw
    exact ⟨rfl, fun source flags heq => by cases heq⟩
  cases v with
  | list vs =>
      obtain ⟨ids, hids, heq⟩ := Fallible.bind_eq_ok.mp h
      cases heq
      refine ⟨?_, by rintro source flags ⟨⟩⟩
      have hall := Fallible.mapM_eq_ok.mp hids
      clear hids h
      induction hall with
      | nil => rfl
      | cons hv _ ih => rw [dollarKeys_cons, (hone hv).1, ih, List.append_nil]
  | _ => exact hone (show newObjectId rt _ = .ok w from h)

end Ids

/-! ## One comparison -/

/-- The keys of a test: the operators, and the keys of the value. -/
theorem comparison_keys {rt : Runtime} {s : SingleFilterInput} {value test : Bson}
    (h : comparison rt s value = .ok test) :
    dollarKeys test =
      s.operator.keys s.not ++ (if s.operator = .REGEX then [] else dollarKeys value) := by
  have hone : ∀ {op : String}, isOperator op = true →
      dollarKeys (.doc [(op, value)]) = [op] ++ dollarKeys value := fun hop =>
    dollarKeys_operator hop value
  have htwo : ∀ {op : String}, isOperator op = true →
      dollarKeys (.doc [("$not", .doc [(op, value)])]) = ["$not", op] ++ dollarKeys value := by
    intro op hop
    rw [dollarKeys_operator (by decide), hone hop]
    rfl
  rw [comparison] at h
  cases hop : s.operator with
  | REGEX =>
      simp only [hop] at h
      cases hsource : rt.regExp value with
      | none =>
          rw [hsource] at h
          cases h
      | some source =>
          rw [hsource] at h
          cases hs : s.not with
          | false =>
              rw [hs] at h
              cases h
              exact dollarKeys_regex source _
          | true =>
              rw [hs] at h
              cases h
              refine (dollarKeys_operator (by decide) _).trans ?_
              rw [dollarKeys_regex]
              rfl
  | EQ | NE | IN | NIN =>
      cases hs : s.not <;> rw [hop, hs] at h <;> cases h <;> first | rfl | exact hone (by decide)
  | GT | GTE | LT | LTE =>
      cases hs : s.not <;> rw [hop, hs] at h <;> cases h
      · exact hone (by decide)
      · exact htwo (by decide)

/-- An object of operators is read as the tests of the field. -/
theorem parse_operatorDoc {field : String} {fields : List (String × Bson)}
    (hfield : isOperator field = false) (hdoc : isOperatorDoc (.doc fields) = true) :
    parseEntry field (.doc fields) = (parseTests fields fields).map (.field field) := by
  rw [parseEntry, if_neg (by simp [hfield]), if_pos hdoc]

theorem parseTests_not {fields : List (String × Bson)} (hdoc : isOperatorDoc (.doc fields) = true) :
    parseTests [("$not", .doc fields)] [("$not", .doc fields)] =
      (parseTests fields fields).map fun ts => [.not ts] := by
  rw [parseTests, parseTest, if_pos rfl, if_pos hdoc]
  cases parseTests fields fields <;> rfl

/-- The operators whose operand is a value. -/
def isPlain (op : String) : Bool :=
  isOperator op && op ≠ "$not" && op ≠ "$elemMatch" && op ≠ "$regex" && op ≠ "$options"

theorem parseTests_operator {op : String} (v : Bson) (hop : isPlain op = true) :
    parseTests [(op, v)] [(op, v)] = (parsePlainTest op v).map fun t => [t] := by
  obtain ⟨-, hnot, helem, hregex, hoptions⟩ :
      isOperator op = true ∧ op ≠ "$not" ∧ op ≠ "$elemMatch" ∧ op ≠ "$regex" ∧ op ≠ "$options" := by
    simpa [isPlain, and_assoc] using hop
  have htest : parseTest [(op, v)] op v = (parsePlainTest op v).map fun t => [t] := by
    cases v with
    | doc fields => rw [parseTest, if_neg hnot, if_neg helem]
    | _ =>
        rw [parseTest]
        · rw [if_neg hregex, if_neg hoptions]
        · rintro fields ⟨⟩
  rw [parseTests, htest]
  cases parsePlainTest op v <;> rfl

/-- How a field with one operator is read, by itself and under `$not`. -/
theorem read_operator {field op : String} {value : Bson} {t : Test} {q : Query}
    (hfield : isOperator field = false) (hop : isPlain op = true)
    (ht : ∀ t', parsePlainTest op value = some t' → t' = t) :
    (parseEntry field (.doc [(op, value)]) = some q → q = .field field [t]) ∧
      (parseEntry field (.doc [("$not", .doc [(op, value)])]) = some q →
        q = .field field [.not [t]]) := by
  have hdoc : isOperatorDoc (.doc [(op, value)]) = true := by
    have hsplit := hop
    simp only [isPlain, Bool.and_eq_true] at hsplit
    exact hsplit.1.1.1.1
  rw [parse_operatorDoc hfield hdoc,
    parse_operatorDoc hfield (show isOperatorDoc (.doc [("$not", _)]) = true by rfl),
    parseTests_not hdoc, parseTests_operator value hop]
  cases hparse : parsePlainTest op value with
  | none => exact ⟨fun h => (by cases h), fun h => (by cases h)⟩
  | some t' =>
      rw [← ht t' hparse]
      exact ⟨fun h => (Option.some.inj h).symm, fun h => (Option.some.inj h).symm⟩

/-- A value without operators is what the field is equal to. -/
theorem read_value {field : String} {value : Bson} {q : Query} (hfield : isOperator field = false)
    (hkeys : dollarKeys value = []) (hjson : ∀ source flags, value ≠ .regex source flags)
    (h : parseEntry field value = some q) : q = .field field [.eq value] := by
  by_cases hflat : value.IsFlat
  · rw [parse_equal hfield hflat hjson] at h
    exact (Option.some.inj h).symm
  · cases value with
    | doc fields =>
        rw [parseEntry, if_neg (by simp [hfield]), if_neg (by simp [not_operatorDoc hkeys])] at h
        exact (Option.some.inj h).symm
    | _ => exact absurd (by rintro fields ⟨⟩) hflat

/-- The test that an operator makes of a value. -/
theorem parsePlain_within {value : Bson} {t : Test} :
    (parsePlainTest "$in" value = some t → ∃ vs, value = .list vs ∧ t = .within vs) ∧
      (parsePlainTest "$nin" value = some t →
        ∃ vs, value = .list vs ∧ t = .not [.within vs]) := by
  cases value with
  | list vs =>
      have hin : parsePlainTest "$in" (.list vs) =
          if vs.any isOperatorDoc then none else some (.within vs) := rfl
      have hnin : parsePlainTest "$nin" (.list vs) =
          if vs.any isOperatorDoc then none else some (.not [.within vs]) := rfl
      rw [hin, hnin]
      split
      · exact ⟨fun h => (by cases h), fun h => (by cases h)⟩
      · exact ⟨fun h => ⟨vs, rfl, (Option.some.inj h).symm⟩,
          fun h => ⟨vs, rfl, (Option.some.inj h).symm⟩⟩
  | _ => exact ⟨fun h => (by cases h), fun h => (by cases h)⟩

/-- A regular expression has no further operators. -/
theorem parseTests_regex {source options : String} {ts : List Test}
    (h : parseTests [("$options", .str options), ("$regex", .regex source "")]
      [("$options", .str options), ("$regex", .regex source "")] = some ts) :
    ts = [.regex source options] := by
  cases hvalid : validOptions options with
  | true => simpa [parseTests, parseTest, parseRegex, optionsOf, hvalid] using h.symm
  | false => simp [parseTests, parseTest, parseRegex, optionsOf, hvalid] at h

/-- A comparison is read as its test, or as the negation of it. -/
theorem read_signed {rt : Runtime} {s : SingleFilterInput} {field : String}
    {value test p n : Bson} {q : Query} (htest : comparison rt s value = .ok test)
    (hq : parseEntry field test = some q)
    (hsigned : comparison rt s value = .ok (if s.negated then n else p))
    (hp : parseEntry field p = some q → q = .field field [s.test rt value])
    (hn : parseEntry field n = some q → q = .field field [.not [s.test rt value]]) :
    q = .field field [if s.negated then .not [s.test rt value] else s.test rt value] := by
  rw [hsigned] at htest
  cases hs : s.negated with
  | false =>
      rw [hs] at htest
      cases htest
      exact hp hq
  | true =>
      rw [hs] at htest
      cases htest
      exact hn hq

/-- A comparison that is read compares the field with the whole value. -/
theorem reading_of_comparison {rt : Runtime} {s : SingleFilterInput} {field : String}
    {value test : Bson} {q : Query} (hfield : isOperator field = false)
    (hkeys : s.operator ≠ .REGEX → dollarKeys value = [])
    (hjson : ∀ source flags, value ≠ .regex source flags)
    (htest : comparison rt s value = .ok test) (hq : parseEntry field test = some q) :
    q = .field field [if s.negated then .not [s.test rt value] else s.test rt value] := by
  -- a value, by itself and under `$ne`
  have hequal : s.operator ≠ .REGEX → s.test rt value = .eq value →
      (parseEntry field value = some q → q = .field field [s.test rt value]) ∧
      (parseEntry field (.doc [("$ne", value)]) = some q →
        q = .field field [.not [s.test rt value]]) := by
    intro hop ht
    rw [ht]
    refine ⟨read_value hfield (hkeys hop) hjson, (read_operator hfield (by decide) ?_).1⟩
    intro t ht'
    cases value with
    | regex source flags => exact absurd rfl (hjson source flags)
    | _ => exact (Option.some.inj ht').symm
  have hwithin : (∀ vs, value = .list vs → s.test rt value = .within vs) →
      (parseEntry field (.doc [("$in", value)]) = some q →
        q = .field field [s.test rt value]) ∧
      (parseEntry field (.doc [("$nin", value)]) = some q →
        q = .field field [.not [s.test rt value]]) := by
    intro ht
    refine ⟨(read_operator hfield (by decide) ?_).1, (read_operator hfield (by decide) ?_).1⟩
    · intro t ht'
      obtain ⟨vs, hvs, rfl⟩ := parsePlain_within.1 ht'
      exact (ht vs hvs).symm
    · intro t ht'
      obtain ⟨vs, hvs, rfl⟩ := parsePlain_within.2 ht'
      rw [ht vs hvs]
  have horder : ∀ op : String, isPlain op = true →
      parsePlainTest op value = some (s.test rt value) →
      (parseEntry field (.doc [(op, value)]) = some q → q = .field field [s.test rt value]) ∧
      (parseEntry field (.doc [("$not", .doc [(op, value)])]) = some q →
        q = .field field [.not [s.test rt value]]) := by
    intro op hplain ht
    refine read_operator hfield hplain ?_
    intro t ht'
    rw [ht] at ht'
    exact (Option.some.inj ht').symm
  cases hop : s.operator with
  | EQ | NE =>
      obtain ⟨hp, hn⟩ := hequal (by simp [hop]) (by simp only [SingleFilterInput.test, hop])
      exact read_signed htest hq (comparison_equal (by simp [hop])) hp hn
  | IN | NIN =>
      obtain ⟨hp, hn⟩ := hwithin fun vs hvs => by simp only [SingleFilterInput.test, hop, hvs]
      exact read_signed htest hq (comparison_within (by simp [hop])) hp hn
  | GT =>
      obtain ⟨hp, hn⟩ := horder "$gt" (by decide) (by simp only [SingleFilterInput.test, hop]; rfl)
      exact read_signed htest hq (comparison_order (by simp [hop, orderings])) hp hn
  | GTE =>
      obtain ⟨hp, hn⟩ := horder "$gte" (by decide) (by simp only [SingleFilterInput.test, hop]; rfl)
      exact read_signed htest hq (comparison_order (by simp [hop, orderings])) hp hn
  | LT =>
      obtain ⟨hp, hn⟩ := horder "$lt" (by decide) (by simp only [SingleFilterInput.test, hop]; rfl)
      exact read_signed htest hq (comparison_order (by simp [hop, orderings])) hp hn
  | LTE =>
      obtain ⟨hp, hn⟩ := horder "$lte" (by decide) (by simp only [SingleFilterInput.test, hop]; rfl)
      exact read_signed htest hq (comparison_order (by simp [hop, orderings])) hp hn
  | REGEX =>
      cases hsource : rt.regExp value with
      | none =>
          rw [comparison, hop] at htest
          simp only [hsource] at htest
          cases htest
      | some source =>
          have hdoc : isOperatorDoc (.doc [("$options", .str (s.options.getD "")),
              ("$regex", .regex source "")]) = true := by rfl
          have ht : s.test rt value = .regex source (s.options.getD "") := by
            simp [SingleFilterInput.test, hop, hsource]
          refine read_signed (p := .doc [("$options", .str (s.options.getD "")),
            ("$regex", .regex source "")]) (n := .doc [("$not", .doc [("$options",
              .str (s.options.getD "")), ("$regex", .regex source "")])]) htest hq ?_ ?_ ?_
          · cases hs : s.not <;>
              simp [comparison, SingleFilterInput.negated, hop, hs, hsource]
          · intro h
            rw [parse_operatorDoc hfield hdoc] at h
            obtain ⟨ts, hts, rfl⟩ := Option.map_eq_some_iff.mp h
            rw [parseTests_regex hts, ht]
          · intro h
            rw [parse_operatorDoc hfield (by rfl), parseTests_not hdoc] at h
            obtain ⟨ts, hts, rfl⟩ := Option.map_eq_some_iff.mp h
            obtain ⟨us, hus, rfl⟩ := Option.map_eq_some_iff.mp hts
            rw [parseTests_regex hus, ht]

/-! ## Single filters -/

/-- A comparison adds the operators of the enums and the keys of the client. -/
theorem convertFilter_keys {rt : Runtime} {s : SingleFilterInput} {c : String × Bson} {q : Bson}
    (h : convertFilter rt s c.1 c.2 = .ok q) :
    ∃ extra, (dollarKeys q).Perm (s.operatorsOf c ++ extra) ∧
      (extra = [] ↔ isOperator c.1 = false ∧
        (s.operator ≠ .REGEX → c.1 ≠ "__proto__" → dollarKeys c.2 = [])) := by
  obtain ⟨test, htest, rfl⟩ := convertFilter_eq_resultWith h
  by_cases hproto : c.1 = "__proto__"
  · rw [resultWith, if_pos hproto, SingleFilterInput.operatorsOf, if_pos hproto, hproto]
    exact ⟨[], List.Perm.refl _, fun _ => ⟨by decide, fun _ hne => absurd rfl hne⟩, fun _ => rfl⟩
  · rw [resultWith, if_neg hproto, dollarKeys_single, comparison_keys htest,
      SingleFilterInput.operatorsOf, if_neg hproto]
    refine ⟨[c.1].filter isOperator ++ (if s.operator = .REGEX then [] else dollarKeys c.2),
      ?_, ?_⟩
    · rw [← List.append_assoc, ← List.append_assoc]
      exact List.Perm.append_right _ List.perm_append_comm
    · rw [List.append_eq_nil_iff, List.filter_eq_nil_iff]
      by_cases hop : s.operator = .REGEX <;> simp [hop, hproto]

/-- Without operators of the client, it is read as one comparison. -/
theorem convertFilter_reading {rt : Runtime} {s : SingleFilterInput} {c : String × Bson} {q : Bson}
    (hfield : isOperator c.1 = false)
    (hkeys : s.operator ≠ .REGEX → c.1 ≠ "__proto__" → dollarKeys c.2 = [])
    (hjson : ∀ source flags, c.2 ≠ .regex source flags)
    (h : convertFilter rt s c.1 c.2 = .ok q) :
    ∃ fields, q = .doc fields ∧ ∀ qs, parseEntries fields = some qs → qs = s.readingOf rt c := by
  obtain ⟨test, htest, rfl⟩ := convertFilter_eq_resultWith h
  by_cases hproto : c.1 = "__proto__"
  · rw [resultWith, if_pos hproto, SingleFilterInput.readingOf, if_pos hproto]
    exact ⟨[], rfl, fun qs hqs => (Option.some.inj hqs).symm⟩
  · rw [resultWith, if_neg hproto, SingleFilterInput.readingOf, if_neg hproto]
    refine ⟨[(c.1, test)], rfl, ?_⟩
    intro qs hqs
    obtain ⟨r, hr⟩ := parseEntries_single hqs
    rw [parse_single hr] at hqs
    rw [← Option.some.inj hqs,
      reading_of_comparison hfield (fun hop => hkeys hop hproto) hjson htest hr]

/-- What a comparison takes over from the filter. -/
structure TakenFrom (s : SingleFilterInput) (c : String × Bson) : Prop where
  field : isOperator c.1 = isOperator s.field
  proto : c.1 = "__proto__" ↔ s.field = "__proto__"
  keys  : dollarKeys c.2 = [] ↔ (s.asksIds = false → dollarKeys s.value = [])
  json  : (∀ source flags, s.value ≠ .regex source flags) →
    ∀ source flags, c.2 ≠ .regex source flags

theorem TakenFrom.noOperator {s : SingleFilterInput} {c : String × Bson} (h : TakenFrom s c) :
    (isOperator c.1 = false ∧ (s.operator ≠ .REGEX → c.1 ≠ "__proto__" → dollarKeys c.2 = [])) ↔
      s.NoOperator := by
  rw [h.field, ne_eq, ne_eq, h.proto, h.keys]
  exact ⟨fun ⟨hf, hv⟩ => ⟨hf, fun ha hop hp => hv hop hp ha⟩,
    fun hno => ⟨hno.field, fun hop hp ha => hno.value ha hop hp⟩⟩

/-- There are no keys in ids. -/
theorem dollarKeys_ids {v : Bson} (h : isIds v = true) : dollarKeys v = [] := by
  have hone : ∀ {v : Bson}, isId v = true → dollarKeys v = [] := by
    intro v hv
    cases v with
    | str s => rfl
    | objectId s => rfl
    | _ => cases hv
  cases v with
  | list vs =>
      have hall : vs.all isId = true := h
      clear h
      induction vs with
      | nil => rfl
      | cons v vs ih =>
          rw [List.all_cons, Bool.and_eq_true] at hall
          rw [dollarKeys_cons, hone hall.1, ih hall.2, List.append_nil]
  | _ => exact hone h

theorem isIds_toObjectIds {v : Bson} (h : checkStringIds v = true) :
    isIds (toObjectIds v) = true := by
  cases v with
  | list vs => exact all_isId_toObjectId h
  | str s => rfl
  | _ => cases h

section Single

variable {rt : Runtime} {automatic : Bool} {s : SingleFilterInput} {q : Bson}

/-- The forms of a value that the client wants no ObjectIds for. -/
theorem takenFrom_form (hasks : s.asksIds = false) {v : Bson} (hv : v ∈ s.forms automatic) :
    TakenFrom s (s.comparedField automatic, v) := by
  have hvalue : v = s.value ∨ checkStringIds s.value = true ∧ v = toObjectIds s.value := by
    rcases of_mem_forms hv with hv' | hv'
    · exact Or.inl hv'
    · cases hid : s.identified automatic with
      | true =>
          have hsplit : (s.asksIds = false ∧ automatic = true) ∧ checkStringIds s.value = true := by
            simpa [SingleFilterInput.identified] using hid
          exact Or.inr ⟨hsplit.2, hv'⟩
      | false =>
          rw [SingleFilterInput.forms, if_neg (by simp [hasks]), if_neg (by simp [hid])] at hv
          exact Or.inl (List.mem_singleton.mp hv)
  have hfield : isOperator (s.comparedField automatic) = isOperator s.field ∧
      (s.comparedField automatic = "__proto__" ↔ s.field = "__proto__") := by
    rcases comparedField_cases automatic s with hf | ⟨hf, hid⟩
    · rw [hf]
      exact ⟨rfl, Iff.rfl⟩
    · rw [hf, hid]
      decide
  refine ⟨hfield.1, hfield.2, ?_, ?_⟩
  · rcases hvalue with rfl | ⟨hids, rfl⟩
    · exact ⟨fun h _ => h, fun h => h hasks⟩
    · exact ⟨fun _ _ => dollarKeys_ids (isIds_of_checkStringIds hids),
        fun _ => dollarKeys_ids (isIds_toObjectIds hids)⟩
  · intro hjson source flags heq
    rcases hvalue with rfl | ⟨hids, rfl⟩
    · exact hjson source flags heq
    · have h := isIds_toObjectIds hids
      rw [show toObjectIds s.value = .regex source flags from heq] at h
      cases h

/-- A single filter makes the query object of one comparison, or the disjunction
    of two. -/
theorem generateSingle_shape (h : generateSingle rt automatic s = .ok q) :
    (∀ c ∈ s.compared rt automatic, TakenFrom s c) ∧
      (s.widened automatic = false ∧ (∃ c, s.compared rt automatic = [c] ∧
          convertFilter rt s c.1 c.2 = .ok q) ∨
        s.widened automatic = true ∧ ∃ c c' r r', s.compared rt automatic = [c, c'] ∧
          convertFilter rt s c.1 c.2 = .ok r ∧ convertFilter rt s c'.1 c'.2 = .ok r' ∧
          q = .doc [("$or", .list [r, r'])]) := by
  cases hasks : s.asksIds with
  | true =>
      obtain ⟨ids, hids⟩ := getObjectIds_of_asks hasks h
      have hcompared : s.compared rt automatic = [(s.field, ids)] := by
        rw [SingleFilterInput.compared, if_pos hasks, hids]
      have hwidened : s.widened automatic = false := by
        simp [SingleFilterInput.widened, SingleFilterInput.identified, hasks]
      rw [generateSingle, show (s.convertToObjectId || s.isReference) = true from hasks,
        if_pos rfl, hids] at h
      obtain ⟨hkeys, hjson⟩ := getObjectIds_keys rt hids
      rw [hcompared]
      refine ⟨?_, Or.inl ⟨hwidened, _, rfl, h⟩⟩
      intro c hc
      rw [List.mem_singleton.mp hc]
      exact ⟨rfl, Iff.rfl, ⟨fun _ ha => absurd ha (by simp [hasks]), fun _ => hkeys⟩,
        fun _ => hjson⟩
  | false =>
      have hcompared : s.compared rt automatic =
          (s.forms automatic).map fun value => (s.comparedField automatic, value) := by
        rw [SingleFilterInput.compared, if_neg (by simp [hasks])]
      have htaken : ∀ c ∈ s.compared rt automatic, TakenFrom s c := by
        intro c hc
        rw [hcompared] at hc
        obtain ⟨v, hv, rfl⟩ := List.mem_map.mp hc
        exact takenFrom_form hasks hv
      refine ⟨htaken, ?_⟩
      cases hwidened : s.widened automatic with
      | false =>
          obtain ⟨v, hforms, -, -, hgen⟩ :=
            generateSingle_narrow rt (fun ha => absurd ha (by simp [hasks])) hwidened
          rw [hcompared, hforms]
          exact Or.inl ⟨rfl, _, rfl, hgen.symm.trans h⟩
      | true =>
          obtain ⟨hforms, hfield, -, hgen⟩ := generateSingle_widened rt hwidened
          rw [hgen] at h
          obtain ⟨r, hr, h⟩ := Fallible.bind_eq_ok.mp h
          obtain ⟨r', hr', h⟩ := Fallible.bind_eq_ok.mp h
          rw [hcompared, hforms, hfield]
          exact Or.inr ⟨rfl, _, _, r, r', rfl, hr, hr', (Except.ok.inj h).symm⟩

theorem perm_extra {as bs os us es fs : List String} (h : as.Perm (os ++ es))
    (h' : bs.Perm (us ++ fs)) : (as ++ bs).Perm ((os ++ us) ++ (es ++ fs)) := by
  refine (h.append h').trans ?_
  rw [List.append_assoc, List.append_assoc]
  refine List.Perm.append_left os ?_
  rw [← List.append_assoc, ← List.append_assoc]
  exact List.Perm.append_right fs List.perm_append_comm

/-- The keys of a single filter. -/
theorem single_keys (h : generateSingle rt automatic s = .ok q) :
    ∃ extra, (dollarKeys q).Perm (s.operators rt automatic ++ extra) ∧
      (extra = [] ↔ s.NoOperator) := by
  obtain ⟨htaken, ⟨hwidened, c, hc, hq⟩ | ⟨hwidened, c, c', r, r', hc, hr, hr', rfl⟩⟩ :=
    generateSingle_shape h
  · obtain ⟨extra, hperm, hextra⟩ := convertFilter_keys hq
    rw [SingleFilterInput.operators, hwidened, hc, List.flatMap_singleton]
    exact ⟨extra, hperm, hextra.trans (htaken c (by simp [hc])).noOperator⟩
  · obtain ⟨extra, hperm, hextra⟩ := convertFilter_keys hr
    obtain ⟨extra', hperm', hextra'⟩ := convertFilter_keys hr'
    refine ⟨extra ++ extra', ?_, ?_⟩
    · rw [SingleFilterInput.operators, hwidened, hc, if_pos rfl, dollarKeys_operator (by decide),
        dollarKeys_cons, dollarKeys_cons, dollarKeys_list_nil, List.append_nil,
        List.flatMap_cons, List.flatMap_singleton]
      have hboth := perm_extra hperm hperm'
      exact List.Perm.cons "$or" hboth
    · rw [List.append_eq_nil_iff, hextra.trans (htaken c (by simp [hc])).noOperator,
        hextra'.trans (htaken c' (by simp [hc])).noOperator, and_self]

end Single

/-! ## Trees -/

theorem isOperator_key (op : LogicalOperatorEnum) : isOperator op.key = true := by
  cases op <;> decide

/-- The operand of a logical operator is a list of query objects. -/
theorem read_logical {op : LogicalOperatorEnum} {cs : List Bson} {qs : List Query}
    (h : parseEntries [(op.key, .list cs)] = some qs) :
    ∃ rs, parseList cs = some rs ∧ qs = [op.query rs] := by
  obtain ⟨r, hr⟩ := parseEntries_single h
  rw [parse_single hr] at h
  cases h
  simp only [parseEntry, isOperator_key, if_true] at hr
  cases cs with
  | nil => cases op <;> cases hr
  | cons c cs =>
      have hmap : (parseList (c :: cs)).map op.query = some r := by
        cases op <;> exact hr
      obtain ⟨rs, hrs, rfl⟩ := Option.map_eq_some_iff.mp hmap
      exact ⟨rs, hrs, rfl⟩

theorem read_cons {fields : List (String × Bson)} {cs : List Bson} {rs : List Query}
    (h : parseList (.doc fields :: cs) = some rs) :
    ∃ qs rs', parseEntries fields = some qs ∧ parseList cs = some rs' ∧ rs = .every qs :: rs' := by
  rw [parseList] at h
  obtain ⟨qs, hqs, h⟩ := Option.bind_eq_some_iff.mp h
  obtain ⟨rs', hrs', h⟩ := Option.bind_eq_some_iff.mp h
  exact ⟨qs, rs', hqs, hrs', (Option.some.inj h).symm⟩

/-- A single filter without operators of the client is read as its comparisons. -/
theorem single_reading {rt : Runtime} {automatic : Bool} {s : SingleFilterInput} {q : Bson}
    (hno : s.NoOperator) (hjson : ∀ source flags, s.value ≠ .regex source flags)
    (h : generateSingle rt automatic s = .ok q) :
    ∃ fields, q = .doc fields ∧
      ∀ qs, parseEntries fields = some qs → qs = s.reading rt automatic := by
  obtain ⟨htaken, hshape⟩ := generateSingle_shape h
  have hconvert : ∀ c ∈ s.compared rt automatic, ∀ {r : Bson}, convertFilter rt s c.1 c.2 = .ok r →
      ∃ fields, r = .doc fields ∧
        ∀ qs, parseEntries fields = some qs → qs = s.readingOf rt c := by
    intro c hc r hr
    obtain ⟨hfield, hkeys⟩ := (htaken c hc).noOperator.mpr hno
    exact convertFilter_reading hfield hkeys ((htaken c hc).json hjson) hr
  rcases hshape with ⟨hwidened, c, hc, hq⟩ | ⟨hwidened, c, c', r, r', hc, hr, hr', rfl⟩
  · rw [SingleFilterInput.reading, hwidened, hc, if_neg (by simp), List.flatMap_singleton]
    exact hconvert c (by simp [hc]) hq
  · obtain ⟨fields, rfl, hread⟩ := hconvert c (by simp [hc]) hr
    obtain ⟨fields', rfl, hread'⟩ := hconvert c' (by simp [hc]) hr'
    refine ⟨_, rfl, ?_⟩
    intro qs hqs
    have hor : parseEntries [(LogicalOperatorEnum.OR.key, .list [.doc fields, .doc fields'])] =
        some qs := hqs
    obtain ⟨rs, hrs, rfl⟩ := read_logical hor
    obtain ⟨ps, rs', hps, hrs', rfl⟩ := read_cons hrs
    obtain ⟨ps', rs'', hps', hrs'', rfl⟩ := read_cons hrs'
    cases hrs''
    rw [hread ps hps, hread' ps' hps', SingleFilterInput.reading, hwidened, hc]
    rfl

section Main

variable (rt : Runtime) (options : Option Bool)

mutual

/-- The keys of the query: the selected operators, and those of the client. -/
theorem query_keys : ∀ (f : FilterInput) {q : Bson}, generateFilterQuery rt options f = .ok q →
    ∃ extra, (dollarKeys q).Perm (f.operators rt (automatic rt options) ++ extra) ∧
      (extra = [] ↔ f.NoOperator)
  | .combined op filters, q, h => by
      rw [generateFilterQuery] at h
      obtain ⟨qs, hqs, h⟩ := Fallible.bind_eq_ok.mp h
      cases h
      obtain ⟨extra, hperm, hextra⟩ := queries_keys filters hqs
      refine ⟨extra, ?_, hextra.trans ?_⟩
      · rw [dollarKeys_operator (isOperator_key op), FilterInput.operators]
        exact List.Perm.cons op.key hperm
      · rw [FilterInput.NoOperator, FilterInput.parts]
        simp
  | .unlisted op, q, h => by cases h
  | .single s, q, h => by
      obtain ⟨extra, hperm, hextra⟩ := single_keys (show generateSingle rt _ s = .ok q from h)
      refine ⟨extra, hperm, hextra.trans ?_⟩
      rw [FilterInput.NoOperator, FilterInput.parts]
      simp
  | .empty, q, h => by
      cases h
      refine ⟨[], List.Perm.refl _, fun _ => ?_, fun _ => rfl⟩
      rw [FilterInput.NoOperator, FilterInput.parts]
      simp

theorem queries_keys : ∀ (filters : List FilterInput) {qs : List Bson},
    generateAll rt options filters = .ok qs →
    ∃ extra,
      (dollarKeys (.list qs)).Perm
        (FilterInput.operatorsAll rt (automatic rt options) filters ++ extra) ∧
      (extra = [] ↔ ∀ s, .single s ∈ FilterInput.partsOf filters → s.NoOperator)
  | [], qs, h => by
      cases h
      refine ⟨[], List.Perm.refl _, fun _ => ?_, fun _ => rfl⟩
      rw [FilterInput.partsOf]
      simp
  | f :: filters, qs, h => by
      rw [generateAll] at h
      obtain ⟨q, hq, h⟩ := Fallible.bind_eq_ok.mp h
      obtain ⟨qs', hqs, h⟩ := Fallible.bind_eq_ok.mp h
      cases h
      obtain ⟨extra, hperm, hextra⟩ := query_keys f hq
      obtain ⟨extra', hperm', hextra'⟩ := queries_keys filters hqs
      refine ⟨extra ++ extra', ?_, ?_⟩
      · rw [dollarKeys_cons, FilterInput.operatorsAll]
        exact perm_extra hperm hperm'
      · rw [List.append_eq_nil_iff, hextra, hextra', FilterInput.partsOf, FilterInput.NoOperator]
        simp only [List.mem_append, or_imp, forall_and]

end

mutual

/-- Without operators of the client, the query is read as the enums say. -/
theorem query_reading : ∀ (f : FilterInput) {q : Bson}, f.NoOperator → f.HasJson →
    generateFilterQuery rt options f = .ok q →
    ∃ fields, q = .doc fields ∧
      ∀ qs, parseEntries fields = some qs → qs = f.reading rt (automatic rt options)
  | .combined op filters, q, hno, hjson, h => by
      rw [generateFilterQuery] at h
      obtain ⟨cs, hcs, h⟩ := Fallible.bind_eq_ok.mp h
      cases h
      refine ⟨_, rfl, ?_⟩
      intro qs hqs
      obtain ⟨rs, hrs, rfl⟩ := read_logical hqs
      rw [FilterInput.reading, queries_reading filters (fun s hs => hno s ?_)
        (fun s hs => hjson s ?_) hcs hrs]
      · rw [FilterInput.parts]
        exact List.mem_cons_of_mem _ hs
      · rw [FilterInput.parts]
        exact List.mem_cons_of_mem _ hs
  | .unlisted op, q, hno, hjson, h => by cases h
  | .single s, q, hno, hjson, h => by
      have hs : FilterInput.single s ∈ (FilterInput.single s).parts := by
        rw [FilterInput.parts]
        exact List.mem_singleton_self _
      exact single_reading (hno s hs) (hjson s hs) h
  | .empty, q, hno, hjson, h => by
      cases h
      exact ⟨[], rfl, fun qs hqs => (Option.some.inj hqs).symm⟩

theorem queries_reading : ∀ (filters : List FilterInput) {cs : List Bson} {rs : List Query},
    (∀ s, .single s ∈ FilterInput.partsOf filters → s.NoOperator) →
    (∀ s, .single s ∈ FilterInput.partsOf filters →
      ∀ source flags, s.value ≠ .regex source flags) →
    generateAll rt options filters = .ok cs → parseList cs = some rs →
    rs = FilterInput.readingAll rt (automatic rt options) filters
  | [], cs, rs, hno, hjson, h, hrs => by
      cases h
      cases hrs
      rfl
  | f :: filters, cs, rs, hno, hjson, h, hrs => by
      rw [FilterInput.partsOf] at hno hjson
      rw [generateAll] at h
      obtain ⟨q, hq, h⟩ := Fallible.bind_eq_ok.mp h
      obtain ⟨cs', hcs, h⟩ := Fallible.bind_eq_ok.mp h
      cases h
      obtain ⟨fields, rfl, hread⟩ := query_reading f
        (fun s hs => hno s (List.mem_append_left _ hs))
        (fun s hs => hjson s (List.mem_append_left _ hs)) hq
      obtain ⟨qs, rs', hqs, hrs', rfl⟩ := read_cons hrs
      rw [FilterInput.readingAll, hread qs hqs, queries_reading filters
        (fun s hs => hno s (List.mem_append_right _ hs))
        (fun s hs => hjson s (List.mem_append_right _ hs)) hcs hrs']

end

/-- **Operator-injection safety.** The query of a filter in JSON has only the
    selected operators, and is read as the selected comparisons, exactly if no key
    of the client is an operator. -/
theorem operatorsSelected_iff (f : FilterInput) (q : Bson) (hjson : f.HasJson)
    (h : generateFilterQuery rt options f = .ok q) :
    OperatorsSelected rt (automatic rt options) f q ↔ f.NoOperator := by
  obtain ⟨extra, hperm, hextra⟩ := query_keys rt options f h
  constructor
  · rintro ⟨hsub, -⟩
    -- there is no room for a further key
    have hlen := hsub.length_le
    rw [hperm.length_eq, List.length_append] at hlen
    exact hextra.mp (List.length_eq_zero_iff.mp (by omega))
  · intro hno
    obtain ⟨fields, rfl, hread⟩ := query_reading rt options f hno hjson h
    refine ⟨?_, ?_⟩
    · rw [hextra.mpr hno, List.append_nil] at hperm
      exact hperm.subperm
    · intro Q hQ
      obtain ⟨qs, hqs, rfl⟩ := Option.map_eq_some_iff.mp hQ
      rw [hread qs hqs]

end Main

/-- Tagged with one of the two and owned by another. -/
def taggedAndOwned : FilterInput :=
  .combined .NOR [
    .single { field := "owner", operator := .EQ, value := .str "0123456789abcdef01234567" },
    .single { field := "tags", operator := .IN, not := true,
              value := .list [.str "new", .str "$old"] }]

theorem operatorsSelected_iff_taggedAndOwned :
    OperatorsSelected ⟨true, fun _ => none, ""⟩ true taggedAndOwned
      (.doc [("$nor", .list [
        .doc [("$or", .list [.doc [("owner", .str "0123456789abcdef01234567")],
          .doc [("owner", .objectId "0123456789abcdef01234567")]])],
        .doc [("tags", .doc [("$nin", .list [.str "new", .str "$old"])])]])]) := by
  have hparts : ∀ s, FilterInput.single s ∈ taggedAndOwned.parts →
      s = { field := "owner", operator := .EQ, value := .str "0123456789abcdef01234567" } ∨
      s = { field := "tags", operator := .IN, not := true,
            value := .list [.str "new", .str "$old"] } := by
    intro s hs
    simpa [taggedAndOwned, FilterInput.parts, FilterInput.partsOf] using hs
  refine (operatorsSelected_iff ⟨true, fun _ => none, ""⟩ none taggedAndOwned _ ?_ (by rfl)).mpr ?_
  · intro s hs source flags heq
    rcases hparts s hs with rfl | rfl <;> cases heq
  · intro s hs
    rcases hparts s hs with rfl | rfl <;> exact ⟨by decide, fun _ _ _ => by decide⟩

/-- The object of a client is an operator: any other password passes. -/
theorem not_operatorsSelected_password :
    ∃ q, generateFilterQuery ⟨true, fun _ => none, ""⟩ none
        (.single { field := "password", operator := .EQ, value := .doc [("$ne", .null)] }) = .ok q ∧
      ¬ OperatorsSelected ⟨true, fun _ => none, ""⟩ true
        (.single { field := "password", operator := .EQ, value := .doc [("$ne", .null)] }) q ∧
      matchesQuery ⟨fun _ _ _ => false, Char.toLower⟩ q (.doc [("password", .str "secret")]) =
        some true := by
  refine ⟨.doc [("password", .doc [("$ne", .null)])], rfl, ?_, by decide⟩
  rintro ⟨hsub, -⟩
  exact absurd hsub.length_le (by decide)

end FilterHelper
