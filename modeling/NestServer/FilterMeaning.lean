import NestServer.Fallible
import NestServer.FilterHelper

/-! # What a filter input means, and what its query selects

    `holds` says directly which documents a filter is satisfied by.  The query
    object selects these documents for every faithful filter, and of the filters
    with ordinary ids and fields for no others: `parts_preserve_iff`.  The one
    defect of the translation is the negated comparison of a widened value: a
    document need not differ from both forms of an id, but from one of them. -/

namespace FilterHelper

open Mongo

/-! ## The meaning -/

def isScalar : Bson → Bool
  | .doc _     => false
  | .list _    => false
  | .regex _ _ => false
  | _          => true

/-- A scalar or a list of scalars. -/
def isOperand : Bson → Bool
  | .list vs => vs.all isScalar
  | v        => isScalar v

/-- The ObjectId of the same digits. -/
def toObjectId : Bson → Bson
  | .str s => .objectId (lowerHex s)
  | v      => v

def toObjectIds : Bson → Bson
  | .list vs => .list (vs.map toObjectId)
  | v        => toObjectId v

namespace SingleFilterInput

variable (rt : Runtime) (e : RegexEngine) (automatic : Bool) (s : SingleFilterInput)

/-- The client asks for ObjectIds. -/
def asksIds : Bool := s.convertToObjectId || s.isReference

/-- A value of ids in string form, which automatic filtering identifies with the
    ObjectIds of the same digits. -/
def identified : Bool := !s.asksIds && automatic && checkStringIds s.value

/-- The forms of the value; `id` only has the second one. -/
def forms : List Bson :=
  if s.asksIds then [toObjectIds s.value]
  else if s.identified automatic then
    if s.field = "id" then [toObjectIds s.value] else [s.value, toObjectIds s.value]
  else [s.value]

/-- The field that is compared: `id` stands for `_id`. -/
def comparedField : String :=
  if s.identified automatic && s.field = "id" then "_id" else s.field

/-- Both forms are compared. -/
def widened : Bool := s.identified automatic && s.field ≠ "id"

def negated : Bool := xor (s.operator = .NE || s.operator = .NIN) s.not

/-- The comparison without its negation, with one form of the value. -/
def compares (value : Bson) (found : List (Option Bson)) : Bool :=
  match s.operator with
  | .EQ | .NE  => (Bson.candidates found).any fun w => Bson.orNull w = value
  | .IN | .NIN =>
      (Bson.candidates found).any fun w =>
        match value with
        | .list vs => vs.contains (Bson.orNull w)
        | v        => Bson.orNull w = v
  | .GT        => (Bson.candidates found).any fun w => CompareOp.gt.holds value (Bson.orNull w)
  | .GTE       => (Bson.candidates found).any fun w => CompareOp.gte.holds value (Bson.orNull w)
  | .LT        => (Bson.candidates found).any fun w => CompareOp.lt.holds value (Bson.orNull w)
  | .LTE       => (Bson.candidates found).any fun w => CompareOp.lte.holds value (Bson.orNull w)
  | .REGEX     =>
      match rt.regExp value with
      | some source => (Bson.candidates found).any fun w =>
          match w with
          | some (.str text) => e.matches source (s.options.getD "") text
          | _                => false
      | none        => false

/-- Does a document satisfy the filter?  A negation negates all of it. -/
def holds (d : Bson) : Bool :=
  xor s.negated
    ((s.forms automatic).any fun v =>
      s.compares rt e v (d.valuesAt (splitPath (s.comparedField automatic))))

end SingleFilterInput

section Meaning

variable (rt : Runtime) (e : RegexEngine) (options : Option Bool)

mutual

def FilterInput.holds (d : Bson) : FilterInput → Bool
  | .combined .AND filters => FilterInput.allHold d filters
  | .combined .NOR filters => !FilterInput.anyHolds d filters
  | .combined .OR filters  => FilterInput.anyHolds d filters
  | .unlisted .OR          => false
  | .unlisted _            => true
  | .single s              => s.holds rt e (automatic rt options) d
  | .empty                 => true

def FilterInput.allHold (d : Bson) : List FilterInput → Bool
  | []           => true
  | f :: filters => f.holds d && FilterInput.allHold d filters

def FilterInput.anyHolds (d : Bson) : List FilterInput → Bool
  | []           => false
  | f :: filters => f.holds d || FilterInput.anyHolds d filters

end

/-- **The translation preserves the meaning** of a filter. -/
def Preserves (f : FilterInput) : Prop :=
  ∃ q, generateFilterQuery rt options f = .ok q ∧
    ∀ fields, matchesQuery e q (.doc fields) = some (f.holds rt e options (.doc fields))

end Meaning

/-! ## Faithful filters -/

/- A filter with all filters inside of it. -/
mutual

def FilterInput.parts : FilterInput → List FilterInput
  | .combined op filters => .combined op filters :: FilterInput.partsOf filters
  | .unlisted op         => [.unlisted op]
  | .single s            => [.single s]
  | .empty               => [.empty]

def FilterInput.partsOf : List FilterInput → List FilterInput
  | []           => []
  | f :: filters => f.parts ++ FilterInput.partsOf filters

end

/-- Both forms of the value compare alike: there are no ids in it, or as regular
    expressions they match the same texts. -/
def SingleFilterInput.SameForms (rt : Runtime) (e : RegexEngine) (s : SingleFilterInput) : Prop :=
  s.value = .list [] ∨ s.operator = .REGEX ∧
    ∀ p q, rt.regExp s.value = some p → rt.regExp (toObjectIds s.value) = some q →
      ∀ text, e.matches p (s.options.getD "") text = e.matches q (s.options.getD "") text

/-- An id, as a string or as an ObjectId. -/
def isId : Bson → Bool
  | .str s      => isHexId s
  | .objectId _ => true
  | _           => false

def isIds : Bson → Bool
  | .list vs => vs.all isId
  | v        => isId v

/-- A single filter that is translated faithfully. -/
structure SingleFilterInput.Faithful (rt : Runtime) (e : RegexEngine) (automatic : Bool)
    (s : SingleFilterInput) : Prop where
  field    : isOperator s.field = false
  ids      : s.asksIds = true → isIds s.value = true
  list     : s.operator = .IN ∨ s.operator = .NIN → ∃ vs, s.value = .list vs
  regExp   : s.operator = .REGEX → validOptions (s.options.getD "") = true ∧
    ∀ v ∈ s.forms automatic, (rt.regExp v).isSome = true
  /-- a negated comparison is not made with two forms -/
  positive : s.widened automatic = true → s.negated = true → s.SameForms rt e

/-- What is asked of a part by itself. -/
def FilterInput.FaithfulPart (rt : Runtime) (e : RegexEngine) (options : Option Bool) :
    FilterInput → Prop
  | .combined _ filters => filters ≠ []
  | .unlisted _         => False
  | .single s           => s.Faithful rt e (automatic rt options)
  | .empty              => True

def FilterInput.Faithful (rt : Runtime) (e : RegexEngine) (options : Option Bool)
    (f : FilterInput) : Prop :=
  ∀ g ∈ f.parts, g.FaithfulPart rt e options

/-- For `null` and 0 the driver makes up an ObjectId. -/
def isMadeUp : Bson → Bool
  | .null  => true
  | .num q => q = 0
  | _      => false

def makesUp : Bson → Bool
  | .list vs => vs.any isMadeUp
  | v        => isMadeUp v

/-- No ObjectId is made up, and the field is not the one key that cannot be
    assigned. -/
structure SingleFilterInput.Usual (s : SingleFilterInput) : Prop where
  given : s.asksIds = true → makesUp s.value = false
  field : s.field ≠ "__proto__"

/-- The values are scalars or lists of scalars. -/
def FilterInput.HasOperands (f : FilterInput) : Prop :=
  ∀ s, .single s ∈ f.parts → isOperand s.value = true

def FilterInput.Usual (f : FilterInput) : Prop :=
  ∀ s, .single s ∈ f.parts → s.Usual

/-! ## Ids -/

theorem isId_of_isStringId {v : Bson} (h : isStringId v = true) : isId v = true := by
  cases v <;> first | exact h | cases h

theorem isIds_of_checkStringIds {v : Bson} (h : checkStringIds v = true) : isIds v = true := by
  cases v with
  | list vs =>
      refine List.all_eq_true.mpr ?_
      intro w hw
      exact isId_of_isStringId (List.all_eq_true.mp h w hw)
  | str s => exact h
  | _ => cases h

theorem newObjectId_id (rt : Runtime) {v : Bson} (h : isId v = true) :
    newObjectId rt v = .ok (toObjectId v) := by
  cases v with
  | str s => exact if_pos h
  | objectId h => rfl
  | _ => cases h

/-- Ids are converted to the ObjectIds of the same digits. -/
theorem getObjectIds_ids (rt : Runtime) {v : Bson} (h : isIds v = true) :
    getObjectIds rt v = .ok (toObjectIds v) := by
  cases v with
  | list vs =>
      have hids : vs.mapM (newObjectId rt) = .ok (vs.map toObjectId) := by
        refine Fallible.mapM_eq_ok.mpr ?_
        rw [List.forall₂_map_right_iff, List.forall₂_same]
        exact fun v hv => newObjectId_id rt (List.all_eq_true.mp h v hv)
      rw [getObjectIds, hids]
      rfl
  | str s => exact newObjectId_id rt h
  | objectId s => rfl
  | _ => cases h

theorem isScalar_toObjectId {v : Bson} (h : isScalar v = true) :
    isScalar (toObjectId v) = true := by
  cases v <;> first | rfl | exact h

theorem isOperand_toObjectIds {v : Bson} (h : isOperand v = true) :
    isOperand (toObjectIds v) = true := by
  cases v with
  | list vs =>
      refine List.all_eq_true.mpr ?_
      intro w hw
      obtain ⟨u, hu, rfl⟩ := List.mem_map.mp hw
      exact isScalar_toObjectId (List.all_eq_true.mp h u hu)
  | _ => first | rfl | exact h

/-! ## One comparison -/

theorem flat_of_operand {v : Bson} (h : isOperand v = true) :
    v.IsFlat ∧ ∀ source flags, v ≠ .regex source flags := by
  constructor
  · rintro fields rfl
    cases h
  · rintro source flags rfl
    cases h

theorem not_operatorDoc_of_scalars {vs : List Bson} (h : isOperand (.list vs) = true) :
    vs.any isOperatorDoc = false := by
  rw [List.any_eq_false]
  intro v hv hdoc
  have hscalar := List.all_eq_true.mp h v hv
  cases v with
  | doc fields => cases hscalar
  | _ => cases hdoc

/-! ### The query of an operator -/

section

variable {rt : Runtime} {s : SingleFilterInput} {value : Bson}

theorem comparison_equal (hop : s.operator = .EQ ∨ s.operator = .NE) :
    comparison rt s value = .ok (if s.negated then .doc [("$ne", value)] else value) := by
  rcases hop with hop | hop <;>
    cases hs : s.not <;> simp [comparison, SingleFilterInput.negated, hop, hs]

theorem comparison_within (hop : s.operator = .IN ∨ s.operator = .NIN) :
    comparison rt s value
      = .ok (if s.negated then .doc [("$nin", value)] else .doc [("$in", value)]) := by
  rcases hop with hop | hop <;>
    cases hs : s.not <;> simp [comparison, SingleFilterInput.negated, hop, hs]

/-- The operators that compare by the order, and their names. -/
def orderings : List (ComparisonOperatorEnum × String) :=
  [(.GT, "$gt"), (.GTE, "$gte"), (.LT, "$lt"), (.LTE, "$lte")]

theorem comparison_order {name : String} (hop : (s.operator, name) ∈ orderings) :
    comparison rt s value = .ok (if s.negated then .doc [("$not", .doc [(name, value)])]
      else .doc [(name, value)]) := by
  simp only [orderings, List.mem_cons, List.not_mem_nil, or_false, Prod.mk.injEq] at hop
  rcases hop with ⟨hop, rfl⟩ | ⟨hop, rfl⟩ | ⟨hop, rfl⟩ | ⟨hop, rfl⟩ <;>
    cases hs : s.not <;> simp [comparison, SingleFilterInput.negated, hop, hs]

end

/-- A comparison is the test of its operator, or the negation of it. -/
theorem parse_signed {rt : Runtime} {e : RegexEngine} {s : SingleFilterInput} {value p n : Bson}
    {field : String} (t : Test) (hp : parseEntry field p = some (.field field [t]))
    (hn : parseEntry field n = some (.field field [.not [t]]))
    (htest : comparison rt s value = .ok (if s.negated then n else p))
    (hholds : ∀ found, t.holds e found = s.compares rt e value found) :
    ∃ test tests, comparison rt s value = .ok test ∧
      parseEntry field test = some (.field field tests) ∧
      ∀ found, testsHold e found tests = xor s.negated (s.compares rt e value found) := by
  cases hs : s.negated with
  | false =>
      rw [hs, if_neg (by simp)] at htest
      refine ⟨p, [t], htest, hp, ?_⟩
      intro found
      rw [testsHold, testsHold, Bool.and_true, hholds, Bool.false_xor]
  | true =>
      rw [hs, if_pos rfl] at htest
      refine ⟨n, [.not [t]], htest, hn, ?_⟩
      intro found
      rw [testsHold, testsHold, Bool.and_true, Test.holds, testsHold, testsHold, Bool.and_true,
        hholds, Bool.true_xor]

/-- **The query of a comparison** with one form of the value. -/
theorem parse_comparison (rt : Runtime) (e : RegexEngine) (s : SingleFilterInput) {value : Bson}
    {field : String} (hfield : isOperator field = false) (hvalue : isOperand value = true)
    (hlist : s.operator = .IN ∨ s.operator = .NIN → ∃ vs, value = .list vs)
    (hregex : s.operator = .REGEX → validOptions (s.options.getD "") = true ∧
      (rt.regExp value).isSome = true) :
    ∃ test tests, comparison rt s value = .ok test ∧
      parseEntry field test = some (.field field tests) ∧
      ∀ found, testsHold e found tests = xor s.negated (s.compares rt e value found) := by
  obtain ⟨hflat, hnoregex⟩ := flat_of_operand hvalue
  -- a plain test, by itself or under `$not`
  have hplain : ∀ (op : String) (t : Test), isOperator op = true → op ≠ "$regex" →
      op ≠ "$options" → parsePlainTest op value = some t →
      parseEntry field (.doc [(op, value)]) = some (.field field [t]) ∧
      parseEntry field (.doc [("$not", .doc [(op, value)])]) = some (.field field [.not [t]]) := by
    intro op t hop h1 h2 hparse
    have htests : parseTests [(op, value)] [(op, value)] = some [t] :=
      parseTests_plain hflat h1 h2 hparse
    exact ⟨parse_test hfield hop htests, parse_not hfield hop htests⟩
  have heq : parseEntry field value = some (.field field [.eq value]) :=
    parse_equal hfield hflat hnoregex
  have hne : parseEntry field (.doc [("$ne", value)]) = some (.field field [.not [.eq value]]) := by
    refine (hplain "$ne" (.not [.eq value]) (by decide) (by decide) (by decide) ?_).1
    cases value with
    | regex source flags => exact absurd rfl (hnoregex source flags)
    | _ => rfl
  have hin : ∀ vs, value = .list vs →
      parseEntry field (.doc [("$in", value)]) = some (.field field [.within vs]) ∧
      parseEntry field (.doc [("$nin", value)]) = some (.field field [.not [.within vs]]) := by
    rintro vs rfl
    have hscalars := not_operatorDoc_of_scalars hvalue
    refine ⟨(hplain "$in" (.within vs) (by decide) (by decide) (by decide) ?_).1,
      (hplain "$nin" (.not [.within vs]) (by decide) (by decide) (by decide) ?_).1⟩
    · exact if_neg (by simp [hscalars])
    · exact if_neg (by simp [hscalars])
  have horder : ∀ (name : String) (op : CompareOp), (s.operator, name) ∈ orderings →
      isOperator name = true ∧ name ≠ "$regex" ∧ name ≠ "$options" →
      parsePlainTest name value = some (.compare op value) →
      (∀ found, (Test.compare op value).holds e found = s.compares rt e value found) →
      ∃ test tests, comparison rt s value = .ok test ∧
        parseEntry field test = some (.field field tests) ∧
        ∀ found, testsHold e found tests = xor s.negated (s.compares rt e value found) := by
    intro name op hop hname hparse hholds
    obtain ⟨hpos, hneg⟩ := hplain name (.compare op value) hname.1 hname.2.1 hname.2.2 hparse
    exact parse_signed _ hpos hneg (comparison_order hop) hholds
  cases hop : s.operator with
  | EQ | NE =>
      refine parse_signed (.eq value) heq hne (comparison_equal (by simp [hop])) ?_
      intro found
      simp [Test.holds, SingleFilterInput.compares, hop]
  | IN | NIN =>
      obtain ⟨vs, rfl⟩ := hlist (by simp [hop])
      obtain ⟨hpos, hneg⟩ := hin vs rfl
      refine parse_signed (.within vs) hpos hneg (comparison_within (by simp [hop])) ?_
      intro found
      simp [Test.holds, SingleFilterInput.compares, hop]
  | GT =>
      refine horder "$gt" .gt (by simp [hop, orderings]) (by decide) rfl ?_
      intro found
      simp [Test.holds, SingleFilterInput.compares, hop]
  | GTE =>
      refine horder "$gte" .gte (by simp [hop, orderings]) (by decide) rfl ?_
      intro found
      simp [Test.holds, SingleFilterInput.compares, hop]
  | LT =>
      refine horder "$lt" .lt (by simp [hop, orderings]) (by decide) rfl ?_
      intro found
      simp [Test.holds, SingleFilterInput.compares, hop]
  | LTE =>
      refine horder "$lte" .lte (by simp [hop, orderings]) (by decide) rfl ?_
      intro found
      simp [Test.holds, SingleFilterInput.compares, hop]
  | REGEX =>
      obtain ⟨hoptions, hsome⟩ := hregex hop
      obtain ⟨source, hsource⟩ := Option.isSome_iff_exists.mp hsome
      have htests : parseTests [("$options", .str (s.options.getD "")),
          ("$regex", .regex source "")]
          [("$options", .str (s.options.getD "")), ("$regex", .regex source "")] =
            some [.regex source (s.options.getD "")] := by
        simp [parseTests, parseTest, parseRegex, optionsOf, hoptions]
      have hpos : parseEntry field (.doc [("$options", .str (s.options.getD "")),
          ("$regex", .regex source "")]) =
            some (.field field [.regex source (s.options.getD "")]) := by
        rw [parseEntry, if_neg (by simp [hfield]), if_pos (by rfl), htests]
        rfl
      refine parse_signed (.regex source (s.options.getD "")) hpos
        (parse_not hfield (by rfl) htests) ?_ ?_
      · cases hs : s.not <;> simp [comparison, SingleFilterInput.negated, hop, hs, hsource]
      · intro found
        simp only [Test.holds, SingleFilterInput.compares, hop, hsource] <;> rfl

/-! ## Single filters -/

/-- The query object that compares a field with one form of the value. -/
theorem convertFilter_means (rt : Runtime) (e : RegexEngine) (s : SingleFilterInput)
    {value : Bson} {field : String} (hfield : isOperator field = false)
    (hproto : field ≠ "__proto__") (hvalue : isOperand value = true)
    (hlist : s.operator = .IN ∨ s.operator = .NIN → ∃ vs, value = .list vs)
    (hregex : s.operator = .REGEX → validOptions (s.options.getD "") = true ∧
      (rt.regExp value).isSome = true) :
    ∃ fields q, convertFilter rt s field value = .ok (.doc fields) ∧
      parseEntries fields = some [q] ∧
      ∀ d, q.holds e d = xor s.negated (s.compares rt e value (d.valuesAt (splitPath field))) := by
  obtain ⟨test, tests, htest, hparse, hholds⟩ :=
    parse_comparison rt e s hfield hvalue hlist hregex
  refine ⟨[(field, test)], .field field tests, ?_, parse_single hparse, ?_⟩
  · rw [convertFilter, htest]
    show Except.ok (resultWith field test) = _
    rw [resultWith, if_neg hproto]
  · intro d
    rw [Query.holds, hholds]

theorem list_toObjectIds {v : Bson} (h : ∃ vs, v = .list vs) : ∃ vs, toObjectIds v = .list vs := by
  obtain ⟨vs, rfl⟩ := h
  exact ⟨_, rfl⟩

/-- Forms that compare alike give one answer. -/
theorem SingleFilterInput.SameForms.compares {rt : Runtime} {e : RegexEngine}
    {s : SingleFilterInput} (h : s.SameForms rt e) (hp : (rt.regExp s.value).isSome = true ∨
      s.operator ≠ .REGEX) (hq : (rt.regExp (toObjectIds s.value)).isSome = true ∨
      s.operator ≠ .REGEX) (found : List (Option Bson)) :
    s.compares rt e s.value found = s.compares rt e (toObjectIds s.value) found := by
  rcases h with hnil | ⟨hop, hsame⟩
  · rw [hnil]
    rfl
  · rcases hp with hp | hp
    · rcases hq with hq | hq
      · obtain ⟨p, hp⟩ := Option.isSome_iff_exists.mp hp
        obtain ⟨q, hq⟩ := Option.isSome_iff_exists.mp hq
        rw [SingleFilterInput.compares, SingleFilterInput.compares]
        simp only [hop, hp, hq]
        congr 1
        funext w
        cases w with
        | none => rfl
        | some w =>
            cases w with
            | str text => exact hsame p q hp hq text
            | _ => rfl
      · exact absurd hop hq
    · exact absurd hop hp

/-- A value that is not widened is compared in one form. -/
theorem generateSingle_narrow (rt : Runtime) {automatic : Bool} {s : SingleFilterInput}
    (ids : s.asksIds = true → isIds s.value = true) (h : s.widened automatic = false) :
    ∃ v, s.forms automatic = [v] ∧ (v = s.value ∨ v = toObjectIds s.value) ∧
      (s.comparedField automatic = s.field ∨ s.comparedField automatic = "_id") ∧
      generateSingle rt automatic s = convertFilter rt s (s.comparedField automatic) v := by
  have hgen : generateSingle rt automatic s =
      if s.asksIds then getObjectIds rt s.value >>= convertFilter rt s s.field
      else if automatic && checkStringIds s.value then
        if s.field = "id" then getObjectIds rt s.value >>= convertFilter rt s "_id"
        else getObjectIds rt s.value >>= fun value =>
          convertFilter rt s s.field s.value >>= fun query =>
            convertFilter rt s s.field value >>= fun alternative =>
              return .doc [("$or", .list [query, alternative])]
      else convertFilter rt s s.field s.value := rfl
  rw [hgen]
  by_cases hasks : s.asksIds = true
  · refine ⟨toObjectIds s.value, if_pos hasks, Or.inr rfl, ?_⟩
    have hfield : s.comparedField automatic = s.field := by
      simp [SingleFilterInput.comparedField, SingleFilterInput.identified, hasks]
    rw [hfield, if_pos hasks, getObjectIds_ids rt (ids hasks)]
    exact ⟨Or.inl rfl, rfl⟩
  · rw [if_neg hasks]
    by_cases hid : (automatic && checkStringIds s.value) = true
    · have hidentified : s.identified automatic = true := by
        rw [SingleFilterInput.identified, Bool.and_assoc, hid]
        simpa using hasks
      have hname : s.field = "id" := by
        simpa [SingleFilterInput.widened, hidentified] using h
      have hfield : s.comparedField automatic = "_id" := by
        simp [SingleFilterInput.comparedField, hidentified, hname]
      refine ⟨toObjectIds s.value, ?_, Or.inr rfl, Or.inr hfield, ?_⟩
      · rw [SingleFilterInput.forms, if_neg hasks, if_pos hidentified, if_pos hname]
      · rw [Bool.and_eq_true] at hid
        rw [if_pos (by simpa using hid), if_pos hname, hfield,
          getObjectIds_ids rt (isIds_of_checkStringIds hid.2)]
        rfl
    · have hidentified : s.identified automatic = false := by
        have hid' : (automatic && checkStringIds s.value) = false := by simpa using hid
        rw [SingleFilterInput.identified, Bool.and_assoc, hid', Bool.and_false]
      have hfield : s.comparedField automatic = s.field := by
        simp [SingleFilterInput.comparedField, hidentified]
      refine ⟨s.value, ?_, Or.inl rfl, Or.inl hfield, ?_⟩
      · rw [SingleFilterInput.forms, if_neg hasks, hidentified]
        rfl
      · rw [if_neg hid, hfield]

/-- A widened value is compared in both forms. -/
theorem generateSingle_widened (rt : Runtime) {automatic : Bool} {s : SingleFilterInput}
    (h : s.widened automatic = true) :
    s.forms automatic = [s.value, toObjectIds s.value] ∧ s.comparedField automatic = s.field ∧
      checkStringIds s.value = true ∧
      generateSingle rt automatic s =
        (convertFilter rt s s.field s.value >>= fun query =>
          convertFilter rt s s.field (toObjectIds s.value) >>= fun alternative =>
            .ok (.doc [("$or", .list [query, alternative])])) := by
  have hsplit : (s.asksIds = false ∧ automatic = true ∧ checkStringIds s.value = true) ∧
      s.field ≠ "id" := by
    simpa [SingleFilterInput.widened, SingleFilterInput.identified, and_assoc] using h
  obtain ⟨⟨hasks, hauto, hids⟩, hname⟩ := hsplit
  have hidentified : s.identified automatic = true := by
    simp [SingleFilterInput.identified, hasks, hauto, hids]
  refine ⟨?_, by simp [SingleFilterInput.comparedField, hname], hids, ?_⟩
  · rw [SingleFilterInput.forms, hasks, if_neg (by simp), if_pos hidentified, if_neg hname]
  · rw [generateSingle, show (s.convertToObjectId || s.isReference) = false from hasks,
      if_neg (by simp), hauto, hids, if_pos (show (true && true) = true from rfl), if_neg hname,
      getObjectIds_ids rt (isIds_of_checkStringIds hids)]
    rfl

/-- The query object of a disjunction. -/
theorem parse_or {fs fs' : List (String × Bson)} {q q' : Query} (h : parseEntries fs = some [q])
    (h' : parseEntries fs' = some [q']) :
    parseEntries [("$or", .list [.doc fs, .doc fs'])] =
      some [.some [.every [q], .every [q']]] := by
  refine parse_single ?_
  rw [parseEntry, if_pos (by decide)]
  simp [parseList, h, h']

/-- **A faithful single filter** selects what it means. -/
theorem single_means (rt : Runtime) (e : RegexEngine) (automatic : Bool) {s : SingleFilterInput}
    (hoperand : isOperand s.value = true) (hproto : s.field ≠ "__proto__")
    (h : s.Faithful rt e automatic) :
    ∃ fields qs, generateSingle rt automatic s = .ok (.doc fields) ∧
      parseEntries fields = some qs ∧ ∀ d, Query.holdsAll e d qs = s.holds rt e automatic d := by
  have hlist' := fun hop => list_toObjectIds (h.list hop)
  have hoperand' := isOperand_toObjectIds hoperand
  have hregex : ∀ v ∈ s.forms automatic, s.operator = .REGEX →
      validOptions (s.options.getD "") = true ∧ (rt.regExp v).isSome = true :=
    fun v hv hop => ⟨(h.regExp hop).1, (h.regExp hop).2 v hv⟩
  cases hwidened : s.widened automatic with
  | false =>
      obtain ⟨v, hforms, hv, hfield, hgen⟩ := generateSingle_narrow rt h.ids hwidened
      have hoperator : isOperator (s.comparedField automatic) = false := by
        rcases hfield with hf | hf <;> rw [hf]
        · exact h.field
        · decide
      have hcompared : s.comparedField automatic ≠ "__proto__" := by
        rcases hfield with hf | hf <;> rw [hf]
        · exact hproto
        · decide
      have hform : isOperand v = true := by
        rcases hv with rfl | rfl
        · exact hoperand
        · exact hoperand'
      have hlist : s.operator = .IN ∨ s.operator = .NIN → ∃ vs, v = .list vs := by
        rcases hv with rfl | rfl
        · exact h.list
        · exact hlist'
      obtain ⟨fields, q, hconvert, hparse, hholds⟩ := convertFilter_means rt e s hoperator hcompared
        hform hlist (hregex v (by rw [hforms]; exact List.mem_singleton.mpr rfl))
      refine ⟨fields, [q], hgen.trans hconvert, hparse, ?_⟩
      intro d
      rw [Query.holdsAll, Query.holdsAll, Bool.and_true, hholds, SingleFilterInput.holds, hforms,
        List.any_cons, List.any_nil, Bool.or_false]
  | true =>
      obtain ⟨hforms, hfield, -, hgen⟩ := generateSingle_widened rt hwidened
      obtain ⟨fs, q, hconvert, hparse, hholds⟩ := convertFilter_means rt e s h.field hproto
        hoperand h.list (hregex _ (by rw [hforms]; exact List.mem_cons_self))
      obtain ⟨fs', q', hconvert', hparse', hholds'⟩ := convertFilter_means rt e s h.field hproto
        hoperand' hlist' (hregex _ (by rw [hforms]; simp))
      refine ⟨_, _, ?_, parse_or hparse hparse', ?_⟩
      · rw [hgen, hconvert, hconvert']
        rfl
      · intro d
        rw [SingleFilterInput.holds, hforms, hfield]
        simp only [Query.holdsAll, Query.holds, Query.holdsAny, Bool.and_true, Bool.or_false,
          hholds, hholds', List.any_cons, List.any_nil]
        cases hneg : s.negated with
        | false => simp
        | true =>
            -- only forms that compare alike may be negated one by one
            have hsome : ∀ v ∈ s.forms automatic,
                (rt.regExp v).isSome = true ∨ s.operator ≠ .REGEX := by
              intro v hv
              by_cases hop : s.operator = .REGEX
              · exact Or.inl (hregex v hv hop).2
              · exact Or.inr hop
            rw [(h.positive hwidened hneg).compares (hsome _ (by simp [hforms]))
              (hsome _ (by simp [hforms]))]
            simp

/-! ## Trees -/

theorem self_mem_parts (f : FilterInput) : f ∈ f.parts := by
  cases f <;> rw [FilterInput.parts] <;> exact List.mem_cons_self

section Trees

variable (rt : Runtime) (e : RegexEngine) (options : Option Bool)

/-- A query object that is read, and selects what the filter means. -/
def Selects (f : FilterInput) : Prop :=
  ∃ fields qs, generateFilterQuery rt options f = .ok (.doc fields) ∧
    parseEntries fields = some qs ∧ ∀ d, Query.holdsAll e d qs = f.holds rt e options d

theorem Selects.preserves {f : FilterInput} (h : Selects rt e options f) :
    Preserves rt e options f := by
  obtain ⟨fields, qs, hgen, hparse, hholds⟩ := h
  refine ⟨_, hgen, ?_⟩
  intro d
  rw [matchesQuery, parseQuery, hparse, ← hholds]
  rfl

mutual

/-- **A faithful filter** selects what it means. -/
theorem selects : ∀ f : FilterInput, f.HasOperands → f.Usual → f.Faithful rt e options →
    Selects rt e options f
  | .combined op filters, ho, hu, hf => by
      have hmem : ∀ g ∈ FilterInput.partsOf filters,
          g ∈ (FilterInput.combined op filters).parts := by
        intro g hg
        rw [FilterInput.parts]
        exact List.mem_cons_of_mem _ hg
      obtain ⟨cs, qs, hgen, hparse, hlen, hholds⟩ := selectsAll filters
        (fun s hs => ho s (hmem _ hs)) (fun s hs => hu s (hmem _ hs)) fun g hg => hf g (hmem g hg)
      have hfilters : filters ≠ [] := hf _ (self_mem_parts _)
      have hcs : cs ≠ [] := by
        rintro rfl
        exact hfilters (List.eq_nil_of_length_eq_zero hlen)
      obtain ⟨q, hq, hmeans⟩ := parse_operator e op hcs hparse
      refine ⟨_, [q], by rw [generateFilterQuery, hgen]; rfl, hq, ?_⟩
      intro d
      rw [Query.holdsAll, Query.holdsAll, Bool.and_true, hmeans]
      cases op with
      | AND => exact (hholds d).1
      | NOR => exact congrArg not (hholds d).2
      | OR => exact (hholds d).2
  | .unlisted _, _, _, hf => (hf _ (self_mem_parts _)).elim
  | .single s, ho, hu, hf => by
      obtain ⟨fields, qs, hgen, hparse, hholds⟩ := single_means rt e (automatic rt options)
        (ho s (self_mem_parts _)) (hu s (self_mem_parts _)).field (hf _ (self_mem_parts _))
      exact ⟨fields, qs, hgen, hparse, hholds⟩
  | .empty, _, _, _ => ⟨[], [], rfl, rfl, fun _ => rfl⟩

theorem selectsAll : ∀ filters : List FilterInput,
    (∀ s, .single s ∈ FilterInput.partsOf filters → isOperand s.value = true) →
    (∀ s, .single s ∈ FilterInput.partsOf filters → s.Usual) →
    (∀ g ∈ FilterInput.partsOf filters, g.FaithfulPart rt e options) →
    ∃ cs qs, generateAll rt options filters = .ok cs ∧ parseList cs = some qs ∧
      filters.length = cs.length ∧ ∀ d,
        Query.holdsAll e d qs = FilterInput.allHold rt e options d filters ∧
        Query.holdsAny e d qs = FilterInput.anyHolds rt e options d filters
  | [], _, _, _ => ⟨[], [], rfl, rfl, rfl, fun _ => ⟨rfl, rfl⟩⟩
  | f :: filters, ho, hu, hf => by
      have hhead : ∀ g ∈ f.parts, g ∈ FilterInput.partsOf (f :: filters) := by
        intro g hg
        rw [FilterInput.partsOf]
        exact List.mem_append_left _ hg
      have htail : ∀ g ∈ FilterInput.partsOf filters, g ∈ FilterInput.partsOf (f :: filters) := by
        intro g hg
        rw [FilterInput.partsOf]
        exact List.mem_append_right _ hg
      obtain ⟨fields, qs, hgen, hparse, hholds⟩ := selects f (fun s hs => ho s (hhead _ hs))
        (fun s hs => hu s (hhead _ hs)) fun g hg => hf g (hhead g hg)
      obtain ⟨cs, rs, hgens, hparses, hlen, hrest⟩ := selectsAll filters
        (fun s hs => ho s (htail _ hs)) (fun s hs => hu s (htail _ hs))
        fun g hg => hf g (htail g hg)
      refine ⟨.doc fields :: cs, .every qs :: rs, ?_, ?_, by simp [hlen], ?_⟩
      · rw [generateAll, hgen, hgens]
        rfl
      · rw [parseList, hparse, hparses]
        rfl
      · intro d
        have hfirst : (Query.every qs).holds e d = f.holds rt e options d := hholds d
        rw [Query.holdsAll, Query.holdsAny, hfirst, (hrest d).1, (hrest d).2]
        exact ⟨rfl, rfl⟩

end

end Trees

/-! ## What the store accepts -/

/-- A field that begins with a dollar sign is refused with every comparison. -/
theorem parseEntry_operator {k : String} {v : Bson} (hk : isOperator k = true)
    (hv : isOperand v = true ∨ ∃ fields, v = .doc fields) : parseEntry k v = none := by
  rcases hv with hv | ⟨fields, rfl⟩
  · cases v with
    | list vs =>
        cases vs with
        | nil => simp [parseEntry, hk]
        | cons v vs =>
            have hlist : parseList (v :: vs) = none := by
              have hscalar := List.all_eq_true.mp hv v List.mem_cons_self
              cases v with
              | doc fields => cases hscalar
              | _ => rfl
            simp only [parseEntry, hk, if_true, hlist, Option.map_none]
            split <;> rfl
    | doc fields => cases hv
    | regex source flags => cases hv
    | _ => exact if_pos hk
  · exact if_pos hk

theorem comparison_shape {rt : Runtime} {s : SingleFilterInput} {value test : Bson}
    (hvalue : isOperand value = true) (h : comparison rt s value = .ok test) :
    isOperand test = true ∨ ∃ fields, test = .doc fields := by
  rw [comparison] at h
  split at h <;> first
    | (cases h; split <;> first | exact Or.inl hvalue | exact Or.inr ⟨_, rfl⟩)
    | skip
  split at h
  · cases h
  · cases h
    split <;> exact Or.inr ⟨_, rfl⟩

/-- A comparison that is read is well formed. -/
theorem of_parse_comparison {rt : Runtime} {s : SingleFilterInput} {value test : Bson}
    {field : String} {q : Query} (hvalue : isOperand value = true)
    (htest : comparison rt s value = .ok test) (hq : parseEntry field test = some q) :
    isOperator field = false ∧
      (s.operator = .IN ∨ s.operator = .NIN → ∃ vs, value = .list vs) ∧
      (s.operator = .REGEX → validOptions (s.options.getD "") = true ∧
        (rt.regExp value).isSome = true) := by
  have hfield : isOperator field = false := by
    cases hf : isOperator field with
    | false => rfl
    | true =>
        rw [parseEntry_operator hf (comparison_shape hvalue htest)] at hq
        cases hq
  have hnot : ¬ isOperator field = true := by simp [hfield]
  refine ⟨hfield, ?_, ?_⟩
  · intro hop
    -- either way the test is `$in` or `$nin`
    obtain ⟨op, hop', rfl⟩ : ∃ op, (op = "$in" ∨ op = "$nin") ∧ test = .doc [(op, value)] := by
      rcases hop with hop | hop <;> rw [comparison, hop] at htest <;> cases hs : s.not <;>
        rw [hs] at htest <;> cases htest <;> simp
    cases value with
    | list vs => exact ⟨vs, rfl⟩
    | doc fields => cases hvalue
    | _ =>
        rw [parseEntry, if_neg hnot] at hq
        rcases hop' with rfl | rfl <;> cases hq
  · intro hop
    rw [comparison, hop] at htest
    cases hsource : rt.regExp value with
    | none =>
        simp only [hsource] at htest
        cases htest
    | some source =>
        refine ⟨?_, rfl⟩
        simp only [hsource] at htest
        cases hvalid : validOptions (s.options.getD "") with
        | true => rfl
        | false =>
            have htests : parseTests [("$options", .str (s.options.getD "")),
                ("$regex", .regex source "")] [("$options", .str (s.options.getD "")),
                ("$regex", .regex source "")] = none := by
              simp [parseTests, parseTest, parseRegex, optionsOf, hvalid]
            cases hs : s.not with
            | false =>
                rw [hs, if_neg (by simp)] at htest
                cases htest
                rw [parseEntry, if_neg hnot, if_pos (by rfl), htests] at hq
                cases hq
            | true =>
                rw [hs, if_pos rfl] at htest
                cases htest
                rw [parseEntry, if_neg hnot, if_pos (by rfl), parseTests, parseTest, if_pos rfl,
                  if_pos (by rfl), htests] at hq
                cases hq

/-! ## Documents that tell the forms of a value apart -/

@[simp] theorem compareText_self (a : String) : Bson.compareText a a = .eq := by
  simp [Bson.compareText]

/-- A list of ids comes before the list of its ObjectIds. -/
theorem compareList_toObjectId {vs : List Bson} (hne : vs ≠ []) (h : vs.all isStringId = true) :
    Bson.compareList vs (vs.map toObjectId) = .lt ∧
      Bson.compareList (vs.map toObjectId) vs = .gt := by
  cases vs with
  | nil => exact absurd rfl hne
  | cons v vs =>
      rw [List.all_cons, Bool.and_eq_true] at h
      cases v with
      | str s => exact ⟨rfl, rfl⟩
      | _ => cases h.1

theorem compareList_self {vs : List Bson} (h : vs.all isId = true) :
    Bson.compareList vs vs = .eq := by
  induction vs with
  | nil => rfl
  | cons v vs ih =>
      rw [List.all_cons, Bool.and_eq_true] at h
      have hself : Bson.compare v v = .eq := by
        cases v with
        | str s => exact compareText_self s
        | objectId s => exact compareText_self s
        | _ => cases h.1
      rw [Bson.compareList, hself, ih h.2]
      rfl

theorem all_isId_toObjectId {vs : List Bson} (h : vs.all isStringId = true) :
    (vs.map toObjectId).all isId = true := by
  refine List.all_eq_true.mpr ?_
  intro w hw
  obtain ⟨v, hv, rfl⟩ := List.mem_map.mp hw
  have hid := List.all_eq_true.mp h v hv
  cases v with
  | str s => rfl
  | _ => cases hid

theorem hexDigit_lt {c : Char} (h : isHexDigit c = true) : c < 'z' := by
  have hle : c.toNat ≤ 102 := by
    have h' : (((decide (c.val ≥ 48) && decide (c.val ≤ 57)) ||
        (decide (97 ≤ c.toNat) && decide (c.toNat ≤ 102))) ||
        (decide (65 ≤ c.toNat) && decide (c.toNat ≤ 70))) = true := h
    simp only [Bool.or_eq_true, Bool.and_eq_true, decide_eq_true_eq] at h'
    rcases h' with (⟨-, hd⟩ | ⟨-, hl⟩) | ⟨-, hu⟩
    · have hnat := UInt32.le_iff_toNat_le.mp hd
      show c.val.toNat ≤ 102
      exact Nat.le_trans hnat (by decide)
    · exact hl
    · omega
  show c.val.toNat < 122
  have hval : c.val.toNat ≤ 102 := hle
  omega

/-- An id lies strictly between these two texts. -/
theorem between_hexId {s : String} (h : isHexId s = true) : "" < s ∧ s < "z" := by
  obtain ⟨hlen, hdigits⟩ : s.toList.length = 24 ∧ s.toList.all isHexDigit = true := by
    simpa [isHexId] using h
  rw [String.lt_iff, String.lt_iff]
  cases hs : s.toList with
  | nil =>
      rw [hs] at hlen
      cases hlen
  | cons c cs =>
      rw [hs, List.all_cons, Bool.and_eq_true] at hdigits
      exact ⟨List.nil_lt_cons c cs, List.cons_lt_cons_iff.mpr (Or.inl (hexDigit_lt hdigits.1))⟩

theorem compareText_of_lt {a b : String} (h : a < b) :
    Bson.compareText a b = .lt ∧ Bson.compareText b a = .gt := by
  have hne : a ≠ b := fun heq => String.lt_irrefl b (heq ▸ h)
  have hnot : ¬ b < a := fun h' => String.lt_irrefl a (String.lt_trans h h')
  constructor
  · rw [Bson.compareText, if_pos h]
  · rw [Bson.compareText, if_neg hnot, if_neg (Ne.symm hne)]

/-- A test that no id passes is a test of the whole list. -/
theorem any_candidates_list {us : List Bson} (hus : us.all isId = true) {P : Bson → Bool}
    (hP : ∀ u, isId u = true → P u = false) :
    ((Bson.candidates [some (.list us)]).any fun w => P (Bson.orNull w)) = P (.list us) := by
  have hrest : (us.map some).any (fun w => P (Bson.orNull w)) = false := by
    rw [List.any_eq_false]
    intro w hw
    obtain ⟨u, hu, rfl⟩ := List.mem_map.mp hw
    simp [Bson.orNull, hP u (List.all_eq_true.mp hus u hu)]
  have hcandidates : Bson.candidates [some (.list us)] = some (.list us) :: us.map some := by
    simp [Bson.candidates]
  rw [hcandidates, List.any_cons, hrest, Bool.or_false]
  rfl

/-- A list is ordered against a list of ids as a whole. -/
theorem any_order_list (o : CompareOp) (xs : List Bson) {us : List Bson}
    (hus : us.all isId = true) :
    ((Bson.candidates [some (.list us)]).any fun w => o.holds (.list xs) (Bson.orNull w)) =
      o.accepts (Bson.compareList us xs) := by
  refine (any_candidates_list hus (P := o.holds (.list xs)) ?_).trans ?_
  · intro u hu
    cases u <;> first | rfl | cases hu
  · simp [CompareOp.holds, Bson.rank, Bson.compare]

theorem any_equal_list (xs : List Bson) {us : List Bson} (hus : us.all isId = true) :
    ((Bson.candidates [some (.list us)]).any fun w => decide (Bson.orNull w = .list xs)) =
      decide (us = xs) := by
  refine (any_candidates_list hus (P := fun u => decide (u = .list xs)) ?_).trans ?_
  · intro u hu
    cases u <;> first | rfl | cases hu
  · simp

theorem map_toObjectId_ne {vs : List Bson} (hne : vs ≠ []) (h : vs.all isStringId = true) :
    vs ≠ vs.map toObjectId := by
  cases vs with
  | nil => exact absurd rfl hne
  | cons v vs =>
      rw [List.all_cons, Bool.and_eq_true] at h
      cases v with
      | str s => simp [toObjectId]
      | _ => cases h.1

/-- A text is ordered against an id, and against its ObjectId it is not. -/
theorem any_order_text (o : CompareOp) (a b : String) :
    ((Bson.candidates [some (.str b)]).any fun w => o.holds (.str a) (Bson.orNull w)) =
        o.accepts (Bson.compareText b a) ∧
      ((Bson.candidates [some (.str b)]).any fun w =>
        o.holds (.objectId (lowerHex a)) (Bson.orNull w)) = false := by
  simp [Bson.candidates, Bson.orNull, CompareOp.holds, Bson.rank, Bson.compare]

/-- The two forms of an id are told apart by every comparison. -/
theorem exists_distinguished_text (rt : Runtime) (e : RegexEngine) {s : SingleFilterInput}
    {a : String} (ha : isHexId a = true) (hop : s.operator ≠ .REGEX)
    (hlist : s.operator ≠ .IN ∧ s.operator ≠ .NIN) :
    ∃ w, s.compares rt e (.str a) [some w] ≠ s.compares rt e (.objectId (lowerHex a)) [some w] := by
  obtain ⟨hlow, hhigh⟩ := between_hexId ha
  -- a text that the order accepts
  have horder : ∀ (o : CompareOp) (b : String), o.accepts (Bson.compareText b a) = true →
      (∀ value found, s.compares rt e value found =
        (Bson.candidates found).any fun w => o.holds value (Bson.orNull w)) →
      s.compares rt e (.str a) [some (.str b)] ≠
        s.compares rt e (.objectId (lowerHex a)) [some (.str b)] := by
    intro o b hb hcompares
    obtain ⟨htext, hid⟩ := any_order_text o a b
    rw [hcompares, hcompares, htext, hid, hb]
    simp
  have hequal : (∀ value found, s.compares rt e value found =
        (Bson.candidates found).any fun w => decide (Bson.orNull w = value)) →
      s.compares rt e (.str a) [some (.str a)] ≠
        s.compares rt e (.objectId (lowerHex a)) [some (.str a)] := by
    intro hcompares
    rw [hcompares, hcompares]
    simp [Bson.candidates, Bson.orNull]
  cases ho : s.operator with
  | EQ => exact ⟨.str a, hequal fun _ _ => by rw [SingleFilterInput.compares, ho]⟩
  | NE => exact ⟨.str a, hequal fun _ _ => by rw [SingleFilterInput.compares, ho]⟩
  | GT =>
      refine ⟨.str "z", horder .gt "z" ?_ fun _ _ => by rw [SingleFilterInput.compares, ho]⟩
      rw [(compareText_of_lt hhigh).2]
      rfl
  | GTE =>
      refine ⟨.str a, horder .gte a ?_ fun _ _ => by rw [SingleFilterInput.compares, ho]⟩
      rw [compareText_self]
      rfl
  | LT =>
      refine ⟨.str "", horder .lt "" ?_ fun _ _ => by rw [SingleFilterInput.compares, ho]⟩
      rw [(compareText_of_lt hlow).1]
      rfl
  | LTE =>
      refine ⟨.str a, horder .lte a ?_ fun _ _ => by rw [SingleFilterInput.compares, ho]⟩
      rw [compareText_self]
      rfl
  | IN => exact absurd ho hlist.1
  | NIN => exact absurd ho hlist.2
  | REGEX => exact absurd ho hop

/-- The two forms of a list of ids are told apart by every comparison. -/
theorem exists_distinguished_list (rt : Runtime) (e : RegexEngine) {s : SingleFilterInput}
    {vs : List Bson} (hne : vs ≠ []) (hvs : vs.all isStringId = true)
    (hop : s.operator ≠ .REGEX) :
    ∃ w, s.compares rt e (.list vs) [some w] ≠
      s.compares rt e (.list (vs.map toObjectId)) [some w] := by
  have hids : vs.all isId = true := List.all_eq_true.mpr fun v hv =>
    isId_of_isStringId (List.all_eq_true.mp hvs v hv)
  have hids' := all_isId_toObjectId hvs
  obtain ⟨hlt, hgt⟩ := compareList_toObjectId hne hvs
  have hself := compareList_self hids
  have hself' := compareList_self hids'
  -- a list that the order accepts against one form only
  have horder : ∀ (o : CompareOp) (us : List Bson), us.all isId = true →
      o.accepts (Bson.compareList us vs) ≠ o.accepts (Bson.compareList us (vs.map toObjectId)) →
      (∀ value found, s.compares rt e value found =
        (Bson.candidates found).any fun w => o.holds value (Bson.orNull w)) →
      s.compares rt e (.list vs) [some (.list us)] ≠
        s.compares rt e (.list (vs.map toObjectId)) [some (.list us)] := by
    intro o us hus hdiffer hcompares
    rw [hcompares, hcompares, any_order_list o vs hus, any_order_list o _ hus]
    exact hdiffer
  have hequal : (∀ value found, s.compares rt e value found =
        (Bson.candidates found).any fun w => decide (Bson.orNull w = value)) →
      s.compares rt e (.list vs) [some (.list vs)] ≠
        s.compares rt e (.list (vs.map toObjectId)) [some (.list vs)] := by
    intro hcompares
    rw [hcompares, hcompares, any_equal_list vs hids, any_equal_list _ hids]
    simp [map_toObjectId_ne hne hvs]
  -- an element is in one list only
  have hwithin : (∀ xs found, s.compares rt e (.list xs) found =
        (Bson.candidates found).any fun w => xs.contains (Bson.orNull w)) →
      ∃ w, s.compares rt e (.list vs) [some w] ≠
        s.compares rt e (.list (vs.map toObjectId)) [some w] := by
    intro hcompares
    cases vs with
    | nil => exact absurd rfl hne
    | cons v rest =>
        have hv := List.all_eq_true.mp hvs v List.mem_cons_self
        cases v with
        | str a =>
            refine ⟨.str a, ?_⟩
            have hnot : Bson.str a ∉ (Bson.str a :: rest).map toObjectId := by
              intro hmem
              obtain ⟨u, hu, heq⟩ := List.mem_map.mp hmem
              have hu' := List.all_eq_true.mp hvs u hu
              cases u with
              | str b => cases heq
              | _ => cases hu'
            rw [hcompares, hcompares]
            simpa [Bson.candidates, Bson.orNull] using hnot
        | _ => cases hv
  cases ho : s.operator with
  | EQ => exact ⟨_, hequal fun _ _ => by rw [SingleFilterInput.compares, ho]⟩
  | NE => exact ⟨_, hequal fun _ _ => by rw [SingleFilterInput.compares, ho]⟩
  | GT =>
      refine ⟨_, horder .gt (vs.map toObjectId) hids' ?_ fun _ _ => by
        rw [SingleFilterInput.compares, ho]⟩
      rw [hgt, hself']
      decide
  | GTE =>
      refine ⟨_, horder .gte vs hids ?_ fun _ _ => by rw [SingleFilterInput.compares, ho]⟩
      rw [hlt, hself]
      decide
  | LT =>
      refine ⟨_, horder .lt vs hids ?_ fun _ _ => by rw [SingleFilterInput.compares, ho]⟩
      rw [hlt, hself]
      decide
  | LTE =>
      refine ⟨_, horder .lte (vs.map toObjectId) hids' ?_ fun _ _ => by
        rw [SingleFilterInput.compares, ho]⟩
      rw [hgt, hself']
      decide
  | IN => exact hwithin fun _ _ => by rw [SingleFilterInput.compares, ho]
  | NIN => exact hwithin fun _ _ => by rw [SingleFilterInput.compares, ho]
  | REGEX => exact absurd ho hop

/-! ## What preserves its meaning is faithful -/

theorem parseEntries_single {k : String} {v : Bson} {qs : List Query}
    (h : parseEntries [(k, v)] = some qs) : ∃ q, parseEntry k v = some q := by
  rw [parseEntries] at h
  obtain ⟨q, hq, -⟩ := Option.bind_eq_some_iff.mp h
  exact ⟨q, hq⟩

theorem convertFilter_eq_resultWith {rt : Runtime} {s : SingleFilterInput} {field : String}
    {value q : Bson} (h : convertFilter rt s field value = .ok q) :
    ∃ test, comparison rt s value = .ok test ∧ q = resultWith field test := by
  obtain ⟨test, htest, h⟩ := Fallible.bind_eq_ok.mp h
  exact ⟨test, htest, (Except.ok.inj h).symm⟩

theorem convertFilter_eq_ok {rt : Runtime} {s : SingleFilterInput} {field : String} {value q : Bson}
    (hproto : field ≠ "__proto__") (h : convertFilter rt s field value = .ok q) :
    ∃ test, comparison rt s value = .ok test ∧ q = .doc [(field, test)] := by
  obtain ⟨test, htest, rfl⟩ := convertFilter_eq_resultWith h
  exact ⟨test, htest, if_neg hproto⟩

theorem comparedField_cases (automatic : Bool) (s : SingleFilterInput) :
    s.comparedField automatic = s.field ∨
      s.comparedField automatic = "_id" ∧ s.field = "id" := by
  rw [SingleFilterInput.comparedField]
  split
  · next h =>
      rw [Bool.and_eq_true, decide_eq_true_eq] at h
      exact Or.inr ⟨rfl, h.2⟩
  · exact Or.inl rfl

section Converse

variable {rt : Runtime} {e : RegexEngine} {automatic : Bool} {s : SingleFilterInput}

/-- If the store reads the query object, it reads the comparison with each form. -/
theorem forms_read (hoperand : isOperand s.value = true) (hproto : s.field ≠ "__proto__")
    (ids : s.asksIds = true → isIds s.value = true) {q : Bson}
      (hgen : generateSingle rt automatic s = .ok q)
    (hq : parseQuery q ≠ none) : ∀ v ∈ s.forms automatic, isOperand v = true ∧
      ∃ test r, comparison rt s v = .ok test ∧
        parseEntry (s.comparedField automatic) test = some r := by
  have hread : ∀ {fields : List (String × Bson)}, parseQuery (.doc fields) ≠ none →
      ∃ qs, parseEntries fields = some qs := by
    intro fields h
    cases hqs : parseEntries fields with
    | none => exact absurd (by rw [parseQuery, hqs]; rfl) h
    | some qs => exact ⟨qs, rfl⟩
  cases hwidened : s.widened automatic with
  | false =>
      obtain ⟨v, hforms, hv, hfield, hgen'⟩ := generateSingle_narrow rt ids hwidened
      have hcompared : s.comparedField automatic ≠ "__proto__" := by
        rcases hfield with hf | hf <;> rw [hf]
        · exact hproto
        · decide
      obtain ⟨test, htest, rfl⟩ := convertFilter_eq_ok hcompared (hgen'.symm.trans hgen)
      obtain ⟨qs, hqs⟩ := hread hq
      obtain ⟨r, hr⟩ := parseEntries_single hqs
      intro w hw
      rw [hforms, List.mem_singleton] at hw
      subst hw
      refine ⟨?_, test, r, htest, hr⟩
      rcases hv with rfl | rfl
      · exact hoperand
      · exact isOperand_toObjectIds hoperand
  | true =>
      obtain ⟨hforms, hfield, -, hgen'⟩ := generateSingle_widened rt hwidened
      rw [hgen'] at hgen
      cases hfirst : convertFilter rt s s.field s.value with
      | error x =>
          rw [hfirst] at hgen
          cases hgen
      | ok q₁ =>
          cases hsecond : convertFilter rt s s.field (toObjectIds s.value) with
          | error x =>
              rw [hfirst, hsecond] at hgen
              cases hgen
          | ok q₂ =>
              rw [hfirst, hsecond] at hgen
              obtain ⟨t₁, ht₁, rfl⟩ := convertFilter_eq_ok hproto hfirst
              obtain ⟨t₂, ht₂, rfl⟩ := convertFilter_eq_ok hproto hsecond
              cases hgen
              obtain ⟨qs, hqs⟩ := hread hq
              obtain ⟨r, hr⟩ := parseEntries_single hqs
              have hlist : parseList [.doc [(s.field, t₁)], .doc [(s.field, t₂)]] ≠ none := by
                intro hnone
                rw [parseEntry, if_pos (by decide)] at hr
                simp [hnone] at hr
              obtain ⟨r₁, hr₁⟩ : ∃ r₁, parseEntry s.field t₁ = some r₁ := by
                cases h₁ : parseEntry s.field t₁ with
                | none => exact absurd (by simp [parseList, parseEntries, h₁]) hlist
                | some r₁ => exact ⟨r₁, rfl⟩
              obtain ⟨r₂, hr₂⟩ : ∃ r₂, parseEntry s.field t₂ = some r₂ := by
                cases h₂ : parseEntry s.field t₂ with
                | none => exact absurd (by simp [parseList, parseEntries, hr₁, h₂]) hlist
                | some r₂ => exact ⟨r₂, rfl⟩
              intro w hw
              rw [hforms] at hw
              rw [hfield]
              rcases List.mem_cons.mp hw with rfl | hw
              · exact ⟨hoperand, t₁, r₁, ht₁, hr₁⟩
              · rw [List.mem_singleton.mp hw]
                exact ⟨isOperand_toObjectIds hoperand, t₂, r₂, ht₂, hr₂⟩

theorem forms_ne_nil (automatic : Bool) (s : SingleFilterInput) : s.forms automatic ≠ [] := by
  rw [SingleFilterInput.forms]
  split
  · simp
  · split
    · split <;> simp
    · simp

theorem list_of_toObjectIds {v : Bson} (h : ∃ vs, toObjectIds v = .list vs) :
    ∃ vs, v = .list vs := by
  obtain ⟨vs, h⟩ := h
  cases v with
  | list ws => exact ⟨ws, rfl⟩
  | _ => cases h

theorem of_mem_forms {v : Bson} (h : v ∈ s.forms automatic) :
    v = s.value ∨ v = toObjectIds s.value := by
  rw [SingleFilterInput.forms] at h
  split at h
  · exact Or.inr (List.mem_singleton.mp h)
  · split at h
    · split at h
      · exact Or.inr (List.mem_singleton.mp h)
      · simpa using h
    · exact Or.inl (List.mem_singleton.mp h)

/-- The comparison of every form agrees if both negations do. -/
theorem sameForms_of_agree (hwidened : s.widened automatic = true)
    (hlist : s.operator = .IN ∨ s.operator = .NIN → ∃ vs, s.value = .list vs)
    (hagree : ∀ w, s.compares rt e s.value [some w] =
      s.compares rt e (toObjectIds s.value) [some w]) : s.SameForms rt e := by
  obtain ⟨-, -, hids, -⟩ := generateSingle_widened rt hwidened
  by_cases hop : s.operator = .REGEX
  · refine Or.inr ⟨hop, ?_⟩
    intro p q hp hq text
    have h := hagree (.str text)
    rw [SingleFilterInput.compares, SingleFilterInput.compares] at h
    simpa [hop, hp, hq, Bson.candidates] using h
  · by_cases hnil : s.value = .list []
    · exact Or.inl hnil
    · exfalso
      cases hvalue : s.value with
      | str a =>
          rw [hvalue] at hids hlist hagree
          have hnolist : ¬ ∃ vs, Bson.str a = .list vs := by
            rintro ⟨vs, hv⟩
            cases hv
          obtain ⟨w, hw⟩ := exists_distinguished_text rt e hids hop
            ⟨fun h => hnolist (hlist (Or.inl h)), fun h => hnolist (hlist (Or.inr h))⟩
          exact hw (hagree w)
      | list vs =>
          rw [hvalue] at hids hagree
          obtain ⟨w, hw⟩ := exists_distinguished_list rt e
            (fun h => hnil (by rw [hvalue, h])) hids hop
          exact hw (hagree w)
      | _ =>
          rw [hvalue] at hids
          cases hids

/-- Where nothing is made up, only ids are converted. -/
theorem isId_of_newObjectId {v w : Bson} (hscalar : isScalar v = true) (hgiven : isMadeUp v = false)
    (h : newObjectId rt v = .ok w) : isId v = true := by
  cases v with
  | null => cases hgiven
  | num q =>
      have hq : ¬ q = 0 := by simpa [isMadeUp] using hgiven
      rw [newObjectId, if_neg hq] at h
      cases h
  | str a =>
      rw [newObjectId] at h
      split at h
      · next ha => exact ha
      · cases h
  | objectId a => rfl
  | doc fields => cases hscalar
  | list vs => cases hscalar
  | regex source flags => cases hscalar
  | _ => cases h

theorem isIds_of_getObjectIds {v w : Bson} (hoperand : isOperand v = true)
    (hgiven : makesUp v = false) (h : getObjectIds rt v = .ok w) : isIds v = true := by
  cases v with
  | list vs =>
      obtain ⟨ids, hids, -⟩ := Fallible.bind_eq_ok.mp h
      have hall : ∀ (vs ids : List Bson), vs.all isScalar = true → vs.any isMadeUp = false →
          List.Forall₂ (fun v w => newObjectId rt v = .ok w) vs ids → vs.all isId = true := by
        intro vs ids hscalar hmade hids
        induction hids with
        | nil => rfl
        | cons hv _ ih =>
            rw [List.all_cons, Bool.and_eq_true] at hscalar
            rw [List.any_cons, Bool.or_eq_false_iff] at hmade
            rw [List.all_cons, isId_of_newObjectId hscalar.1 hmade.1 hv, ih hscalar.2 hmade.2]
            rfl
      exact hall vs ids hoperand hgiven (Fallible.mapM_eq_ok.mp hids)
  | doc fields => cases hoperand
  | regex source flags => cases hoperand
  | null => cases hgiven
  | num q => exact isId_of_newObjectId (v := .num q) rfl hgiven (show newObjectId rt _ = .ok w from h)
  | str a => exact isId_of_newObjectId (v := .str a) rfl hgiven (show newObjectId rt _ = .ok w from h)
  | objectId a => rfl
  | bool b => cases h
  | date ms => cases h

theorem getObjectIds_of_asks {q : Bson} (hasks : s.asksIds = true)
    (h : generateSingle rt automatic s = .ok q) : ∃ ids, getObjectIds rt s.value = .ok ids := by
  rw [generateSingle, show (s.convertToObjectId || s.isReference) = true from hasks, if_pos rfl]
    at h
  cases hids : getObjectIds rt s.value with
  | error x =>
      rw [hids] at h
      cases h
  | ok ids => exact ⟨ids, rfl⟩

/-- A single filter that preserves its meaning is faithful. -/
theorem single_faithful {options : Option Bool} (hoperand : isOperand s.value = true)
    (hu : s.Usual)
    (h : Preserves rt e options (.single s)) :
      s.Faithful rt e (FilterHelper.automatic rt options) := by
  obtain ⟨q, hgen, hsame⟩ := h
  have hgen : generateSingle rt (FilterHelper.automatic rt options) s = .ok q := hgen
  have hread : parseQuery q ≠ none := by
    intro hnone
    have hnil := hsame []
    rw [matchesQuery, hnone] at hnil
    cases hnil
  have hids : s.asksIds = true → isIds s.value = true := by
    intro hasks
    obtain ⟨ids, hids⟩ := getObjectIds_of_asks hasks hgen
    exact isIds_of_getObjectIds hoperand (hu.given hasks) hids
  -- what the store reads is well formed
  have hforms := forms_read hoperand hu.field hids hgen hread
  have hwell : ∀ v ∈ s.forms (FilterHelper.automatic rt options),
      isOperator (s.comparedField (FilterHelper.automatic rt options)) = false ∧
        (s.operator = .IN ∨ s.operator = .NIN → ∃ vs, v = .list vs) ∧
        (s.operator = .REGEX → validOptions (s.options.getD "") = true ∧
          (rt.regExp v).isSome = true) := by
    intro v hv
    obtain ⟨hform, test, r, htest, hr⟩ := hforms v hv
    exact of_parse_comparison hform htest hr
  obtain ⟨v, hv⟩ := List.exists_mem_of_ne_nil _
    (forms_ne_nil (FilterHelper.automatic rt options) s)
  have hlist : s.operator = .IN ∨ s.operator = .NIN → ∃ vs, s.value = .list vs := by
    intro hop
    have h := (hwell v hv).2.1 hop
    rcases of_mem_forms hv with rfl | rfl
    · exact h
    · exact list_of_toObjectIds h
  have hfield : isOperator s.field = false := by
    have h := (hwell v hv).1
    rcases comparedField_cases (FilterHelper.automatic rt options) s with hf | ⟨-, hf⟩
    · rwa [hf] at h
    · rw [hf]
      decide
  have hregex : s.operator = .REGEX → validOptions (s.options.getD "") = true ∧
      ∀ w ∈ s.forms (FilterHelper.automatic rt options), (rt.regExp w).isSome = true :=
    fun hop => ⟨((hwell v hv).2.2 hop).1, fun w hw => ((hwell w hw).2.2 hop).2⟩
  refine ⟨hfield, hids, hlist, hregex, ?_⟩
  intro hwidened hneg
  refine sameForms_of_agree hwidened hlist ?_
  intro w
  -- a document with this value under the field
  obtain ⟨fields, hfound⟩ := exists_found s.field w
  obtain ⟨hf, hcompared, -, hgen'⟩ := generateSingle_widened rt hwidened
  obtain ⟨fs₁, q₁, hc₁, hp₁, hq₁⟩ := convertFilter_means rt e s hfield hu.field hoperand hlist
    fun hop => ⟨(hregex hop).1, (hregex hop).2 _ (by simp [hf])⟩
  obtain ⟨fs₂, q₂, hc₂, hp₂, hq₂⟩ := convertFilter_means rt e s hfield hu.field
    (isOperand_toObjectIds hoperand) (fun hop => list_toObjectIds (hlist hop))
    fun hop => ⟨(hregex hop).1, (hregex hop).2 _ (by simp [hf])⟩
  rw [hgen', hc₁, hc₂] at hgen
  cases hgen
  have hmatch := hsame fields
  have hholds : (FilterInput.single s).holds rt e options (.doc fields) =
      s.holds rt e (FilterHelper.automatic rt options) (.doc fields) := rfl
  rw [matchesQuery, parseQuery, parse_or hp₁ hp₂, hholds, SingleFilterInput.holds, hf, hcompared,
    hneg] at hmatch
  simp only [Option.map_some, Option.some.injEq, Query.holds, Query.holdsAll, Query.holdsAny,
    Bool.and_true, Bool.or_false, hq₁, hq₂, hneg, hfound, List.any_cons, List.any_nil,
    Bool.true_xor] at hmatch
  cases h₁ : s.compares rt e s.value [some w] <;>
    cases h₂ : s.compares rt e (toObjectIds s.value) [some w] <;> simp [h₁, h₂] at hmatch ⊢

end Converse

/-! ## The main result -/

section Main

variable (rt : Runtime) (e : RegexEngine) (options : Option Bool)

mutual

theorem parts_subset : ∀ f g : FilterInput, g ∈ f.parts → g.parts ⊆ f.parts
  | .combined op filters, g, hg => by
      rw [FilterInput.parts] at hg ⊢
      rcases List.mem_cons.mp hg with rfl | hg
      · rw [FilterInput.parts]
        exact fun _ h => h
      · exact fun h hh => List.mem_cons_of_mem _ (partsOf_subset filters g hg hh)
  | .unlisted op, g, hg => by
      rw [FilterInput.parts, List.mem_singleton] at hg
      rw [hg]
      exact fun _ h => h
  | .single s, g, hg => by
      rw [FilterInput.parts, List.mem_singleton] at hg
      rw [hg]
      exact fun _ h => h
  | .empty, g, hg => by
      rw [FilterInput.parts, List.mem_singleton] at hg
      rw [hg]
      exact fun _ h => h

theorem partsOf_subset : ∀ (filters : List FilterInput) (g : FilterInput),
    g ∈ FilterInput.partsOf filters → g.parts ⊆ FilterInput.partsOf filters
  | [], g, hg => by cases hg
  | f :: filters, g, hg => by
      rw [FilterInput.partsOf] at hg ⊢
      rcases List.mem_append.mp hg with hg | hg
      · exact fun h hh => List.mem_append_left _ (parts_subset f g hg hh)
      · exact fun h hh => List.mem_append_right _ (partsOf_subset filters g hg hh)

end

/-- **When the meaning is preserved.** A filter and all filters inside of it
    preserve their meaning if they are faithful, and where no id is made up they
    have to be faithful for it. -/
theorem parts_preserve_iff (f : FilterInput) (hf : f.HasOperands) :
    (f.Usual ∧ f.Faithful rt e options → ∀ g ∈ f.parts, Preserves rt e options g) ∧
      (f.Usual → (∀ g ∈ f.parts, Preserves rt e options g) → f.Faithful rt e options) := by
  constructor
  · rintro ⟨hu, h⟩ g hg
    have hsub := parts_subset f g hg
    exact (selects rt e options g (fun s hs => hf s (hsub hs)) (fun s hs => hu s (hsub hs))
      fun p hp => h p (hsub hp)).preserves
  · intro hu h g hg
    cases g with
    | combined op filters =>
        rintro rfl
        obtain ⟨q, hgen, hsame⟩ := h _ hg
        cases hgen
        have hnil := hsame []
        cases op <;> cases hnil
    | unlisted op =>
        obtain ⟨q, hgen, -⟩ := h _ hg
        cases hgen
    | single s => exact single_faithful (hf s hg) (hu s hg) (h _ hg)
    | empty => trivial

end Main

/-- A negated comparison next to a reference. -/
def ownedByOther : FilterInput :=
  .combined .AND [.single { field := "name", operator := .NE, value := .str "joe" },
    .single { field := "owner", isReference := true, operator := .EQ,
              value := .str "0123456789abcdef01234567" }]

theorem parts_ownedByOther {P : FilterInput → Prop} (htree : P ownedByOther)
    (hname : P (.single { field := "name", operator := .NE, value := .str "joe" }))
    (howner : P (.single { field := "owner", isReference := true, operator := .EQ,
                           value := .str "0123456789abcdef01234567" })) :
    ∀ g ∈ ownedByOther.parts, P g := by
  intro g hg
  simp only [ownedByOther, FilterInput.parts, FilterInput.partsOf, List.append_nil,
    List.singleton_append, List.mem_cons, List.not_mem_nil, or_false] at hg
  rcases hg with rfl | rfl | rfl
  · exact htree
  · exact hname
  · exact howner

theorem parts_preserve_iff_ownedByOther :
    Preserves ⟨true, fun _ => none, ""⟩ ⟨fun _ _ _ => false, Char.toLower⟩ none ownedByOther ∧
      Preserves ⟨true, fun _ => none, ""⟩ ⟨fun _ _ _ => false, Char.toLower⟩ none
        (.single { field := "name", operator := .NE, value := .str "joe" }) := by
  have hoperands : ownedByOther.HasOperands := by
    have h := parts_ownedByOther (P := fun g => ∀ s, g = .single s → isOperand s.value = true)
      (fun s hs => by cases hs) (fun s hs => by cases hs; rfl) (fun s hs => by cases hs; rfl)
    exact fun s hs => h _ hs s rfl
  have husual : ownedByOther.Usual := by
    have h := parts_ownedByOther (P := fun g => ∀ s, g = .single s → s.Usual)
      (fun s hs => by cases hs)
      (fun s hs => by cases hs; exact ⟨by decide, by decide⟩)
      (fun s hs => by cases hs; exact ⟨by decide, by decide⟩)
    exact fun s hs => h _ hs s rfl
  have hparts := (parts_preserve_iff ⟨true, fun _ => none, ""⟩ ⟨fun _ _ _ => false, Char.toLower⟩
    none ownedByOther hoperands).1 ⟨husual, ?_⟩
  · refine ⟨hparts _ (self_mem_parts _), hparts _ ?_⟩
    simp [ownedByOther, FilterInput.parts, FilterInput.partsOf]
  · refine parts_ownedByOther (by simp [FilterInput.FaithfulPart, ownedByOther]) ?_ ?_
    · exact ⟨by decide, by decide, by simp, by simp, fun h => by cases h⟩
    · exact ⟨by decide, fun _ => by decide, by simp, by simp, fun _ h => by cases h⟩

/-- `owner` is not this id: the query lets every document pass. -/
theorem not_preserves_negated :
    ¬ Preserves ⟨true, fun _ => none, ""⟩ ⟨fun _ _ _ => false, Char.toLower⟩ none
      (.single { field := "owner", operator := .NE, value := .str "0123456789abcdef01234567" }) := by
  rintro ⟨q, hq, hsame⟩
  cases hq
  exact absurd (hsame [("owner", .str "0123456789abcdef01234567")]) (by decide)

end FilterHelper
