import NestServer.Scim.Lexing
import NestServer.Scim.Meaning

/-! # The SCIM round trip

    The text of a filter is read as the node `read`, which has the names and the
    nesting of the filter but may have other literals, and the query object that
    it compiles to means that node.  So the round trip succeeds exactly if what
    becomes of the literals makes no difference, and a plain literal stays as it
    is: `roundTrip_iff`.  Of `eq` conditions, only those whose literal stays as it
    is succeed: `roundTrip_eq_iff`. -/

namespace Scim

open Mongo

/-! ## What the text is read as -/

theorem comparator?_text (c : Comparator) : comparator? c.text = some c := by
  cases c <;> decide

theorem logicalOperator?_text (op : LogicalOperator) :
    logicalOperator? op.text.toList = some op := by
  cases op <;> decide

theorem name_ne_bracket (name : Name) : name.chars ≠ ['('] := by
  intro h
  have hword := name.word
  rw [h] at hword
  exact absurd hword (by decide)

theorem parseDecimal_unsigned (n : Decimal) : parseDecimal n.unsigned = some n.abs := by
  have hdigits := List.all_eq_true.mp n.digits
  have hwhole : ∀ d ∈ n.whole, d.isDigit = true := fun d hd => hdigits d (List.mem_append_left _ hd)
  have hfraction : n.fraction.all Char.isDigit = true :=
    List.all_eq_true.mpr fun d hd => hdigits d (List.mem_append_right _ hd)
  have hdot : Char.isDigit '.' = false := by decide
  rw [Decimal.unsigned, parseDecimal, List.takeWhile_append_of_pos hwhole,
    List.dropWhile_append_of_pos hwhole]
  by_cases hf : n.fraction = []
  · simp [hf, n.ne, Decimal.abs]
  · simp [hf, n.ne, hdot, hfraction, Decimal.abs]

theorem readValue_token (inside : Bool) (v : Literal) :
    readValue (v.token inside) = v.read inside := by
  cases v with
  | bool b => cases b <;> rfl
  | num n =>
      have hdigit : ∀ c ∈ n.unsigned.head?, c ≠ '"' ∧ c ≠ '-' := by
        intro c hc
        have hword := word_unsigned n c (List.mem_of_mem_head? hc)
        constructor <;> rintro rfl <;> exact absurd hword (by decide)
      have hquote : n.unsigned.head? ≠ some '"' := fun h => (hdigit '"' h).1 rfl
      have hsign : parseNumber n.unsigned = parseDecimal n.unsigned := by
        rw [parseNumber]
        rintro rest heq
        exact (hdigit '-' (by rw [heq]; rfl)).2 rfl
      show readValue n.unsigned = .num n.abs
      rw [readValue, if_neg hquote, parseValue, hsign, parseDecimal_unsigned]
  | str s =>
      show readValue ('"' :: (collapse (spaced inside (escape s)) ++ ['"'])) = _
      rw [readValue, if_pos List.head?_cons, List.drop_one, List.tail_cons, List.dropLast_concat]
      rfl

/-- **The tokens of a filter are read as its node**, with the literals as they
    are read. -/
theorem reads_tokens (f : Filter) : ∀ (inside : Bool) (rest : List Token), Stops rest →
    Reads AnyToken AnyToken .expression (f.tokens inside ++ rest) (f.read inside) rest := by
  have hstops : ∀ (c : Char) (ts : List Token), logicalOperator? [c] = none →
      Stops ([c] :: ts) := by
    rintro c ts h t ⟨⟩
    exact h
  induction f with
  | logical left op right ihl ihr =>
      intro inside rest hrest
      have hright : Reads AnyToken AnyToken .term
          (['('] :: (right.tokens (xor inside left.confuses) ++ [')'] :: rest))
          (right.read (xor inside left.confuses)) rest :=
        .group (ihr _ ([')'] :: rest) (hstops ')' rest (by decide)))
      have hleft := Reads.group (ihl inside ([')'] :: op.text.toList :: ['('] ::
        (right.tokens (xor inside left.confuses) ++ [')'] :: rest)) (hstops ')' _ (by decide)))
      have hexpr := Reads.expression hleft
        (.more (logicalOperator?_text op) hright (.stop hrest))
      simpa [Filter.tokens, Filter.read] using hexpr
  | array path expr ih =>
      intro inside rest hrest
      have hinner := Reads.expression (.group (ih inside ([')'] :: [']'] :: rest)
        (hstops ')' _ (by decide)))) (.stop (hstops ']' rest (by decide)))
      have hexpr := Reads.expression
        (.array (show AnyToken path.chars from trivial) (name_ne_bracket path) hinner) (.stop hrest)
      simpa [Filter.tokens, Filter.read] using hexpr
  | present path =>
      intro inside rest hrest
      exact .expression
        (.present trivial (name_ne_bracket path) (comparator?_text .pr)) (.stop hrest)
  | condition path c ne v =>
      intro inside rest hrest
      rw [Filter.read, ← readValue_token]
      exact .expression
        (.condition trivial (name_ne_bracket path) (comparator?_text c) ne trivial) (.stop hrest)

/-- **What the text compiles to.** -/
theorem scimToMongo_text (f : Filter) :
    scimToMongo f.text = transformAstToMongo (f.read false) := by
  have hne : f.text ≠ [] := by
    cases f with
    | logical left op right => exact List.cons_ne_nil _ _
    | array path expr => simp [Filter.text]
    | present path => simp [Filter.text]
    | condition path c ne v => simp [Filter.text]
  have hreads : Reads AnyToken AnyToken .expression (f.tokens false) (f.read false) [] := by
    simpa using reads_tokens f false [] (by simp [Stops])
  rw [scimToMongo, if_neg hne, tokenize_text, parseTokens_eq_ok.mpr ⟨[], hreads⟩]
  rfl

theorem names_read (f : Filter) : ∀ (inside : Bool), ∀ n ∈ (f.read inside).names,
    isOperator (String.ofList n) = false := by
  have hname : ∀ name : Name, isOperator (String.ofList name.chars) = false := by
    intro name
    rw [isOperator, String.toList_ofList, decide_eq_false_iff_not]
    intro h
    have hword := List.all_eq_true.mp name.word '$' (List.mem_of_mem_head? h)
    exact absurd hword (by decide)
  induction f with
  | logical left op right ihl ihr =>
      intro inside n hn
      rcases List.mem_append.mp hn with hn | hn
      · exact ihl inside n hn
      · exact ihr _ n hn
  | array path expr ih =>
      intro inside n hn
      rcases List.mem_cons.mp hn with rfl | hn
      · exact hname path
      · exact ih inside n hn
  | present path =>
      intro inside n hn
      rw [List.mem_singleton.mp hn]
      exact hname path
  | condition path c ne v =>
      intro inside n hn
      rw [List.mem_singleton.mp hn]
      exact hname path

/-! ## When the round trip succeeds -/

/-- The literals as they are read make no difference: `co`, `ew` and `sw` have
    strings, and the node selects what the filter does, also where a text ends
    in a line break. -/
def NothingLost (e : RegexEngine) (f : Filter) : Prop :=
  Compiles (f.read false) ∧ ∀ fields,
    (f.read false).holds e.fold true (.doc fields) = f.node.holds e.fold false (.doc fields)

/-- The round trip succeeds exactly if nothing is lost. -/
theorem roundTrip_iff_nothingLost (e : RegexEngine) (f : Filter) : RoundTrip e f ↔
    NothingLost e f := by
  rw [RoundTrip, scimToMongo_text, NothingLost, ← (transform_isOk (f.read false)).1]
  have hmatches : ∀ q, transformAstToMongo (f.read false) = .ok q →
      ∀ d, matchesQuery e q d = some ((f.read false).holds e.fold true d) := by
    intro q hq d
    obtain ⟨fields, qs, rfl, hparse, hholds⟩ :=
      (means_transform e (f.read false) (names_read f false)).1 q hq
    rw [matchesQuery, parseQuery, hparse, ← hholds d]
    rfl
  constructor
  · rintro ⟨q, hq, hsame⟩
    refine ⟨⟨q, hq⟩, ?_⟩
    intro fields
    have h := hsame fields
    rw [hmatches q hq] at h
    exact Option.some.inj h
  · rintro ⟨⟨q, hq⟩, hsame⟩
    refine ⟨q, hq, ?_⟩
    intro fields
    rw [hmatches q hq, hsame]

/-! ## Literals that nothing is lost of -/

/-- No sign, no quote, no backslash, and no whitespace but single blanks. -/
def Literal.Plain : Literal → Prop
  | .bool _ => True
  | .num n  => n.negative = true → n.abs = 0
  | .str s  => (∀ c ∈ s, c ≠ '"' ∧ c ≠ '\\') ∧ collapse s = s

/-- Plain literals, text tests only with strings, and no test of an end. -/
def Filter.Plain : Filter → Prop
  | .logical left _ right => left.Plain ∧ right.Plain
  | .array _ expr         => expr.Plain
  | .present _            => True
  | .condition _ c _ v    => v.Plain ∧ c ≠ .ew ∧ (c = .co ∨ c = .sw → ∃ s, v = .str s)

theorem escape_of_plain {s : List Char} (h : ∀ c ∈ s, c ≠ '"' ∧ c ≠ '\\') : escape s = s := by
  induction s with
  | nil => rfl
  | cons c s ih =>
      obtain ⟨hq, hb⟩ := h c List.mem_cons_self
      rw [escape, List.flatMap_cons, if_neg (by simp [hq, hb])]
      exact congrArg (c :: ·) (ih fun d hd => h d (List.mem_cons_of_mem c hd))

theorem Literal.Plain.read {v : Literal} (h : v.Plain) :
    v.read false = v.value ∧ v.confuses = false := by
  cases v with
  | bool b => exact ⟨rfl, rfl⟩
  | num n =>
      refine ⟨?_, rfl⟩
      show Value.num n.abs = Value.num n.value
      rw [Decimal.value]
      split
      · next hneg =>
          rw [h hneg]
          rfl
      · rfl
  | str s =>
      obtain ⟨hplain, hspace⟩ := h
      constructor
      · show Value.str (collapse (escape s)) = Value.str s
        rw [escape_of_plain hplain, hspace]
      · refine decide_eq_false ?_
        intro hlast
        exact (hplain '\\' (List.mem_of_mem_getLast? hlast)).2 rfl

theorem Filter.Plain.read {f : Filter} (h : f.Plain) :
    f.read false = f.node ∧ f.confuses = false := by
  induction f with
  | logical left op right ihl ihr =>
      obtain ⟨hleft, hlc⟩ := ihl h.1
      obtain ⟨hright, hrc⟩ := ihr h.2
      constructor
      · rw [Filter.read, hlc, Bool.xor_false, hleft, hright, Filter.node]
      · rw [Filter.confuses, hlc, hrc]
        rfl
  | array path expr ih =>
      obtain ⟨hexpr, hc⟩ := ih h
      exact ⟨by rw [Filter.read, hexpr, Filter.node], hc⟩
  | present path => exact ⟨rfl, rfl⟩
  | condition path c ne v =>
      obtain ⟨hv, hc⟩ := h.1.read
      exact ⟨by rw [Filter.read, hv, Filter.node], hc⟩

theorem Filter.Plain.compiles {f : Filter} (h : f.Plain) : Compiles f.node := by
  induction f with
  | logical left op right ihl ihr => exact ⟨ihl h.1, ihr h.2⟩
  | array path expr ih => exact ih h
  | present path =>
      rintro (h | h | h) <;> cases h
  | condition path c ne v =>
      obtain ⟨-, hew, htext⟩ := h
      have hstring : (∃ s, v = .str s) → ∃ s, v.value = .str s := by
        rintro ⟨s, rfl⟩
        exact ⟨s, rfl⟩
      rintro (hc | hc | hc)
      · exact hstring (htext (Or.inl hc))
      · exact absurd hc hew
      · exact hstring (htext (Or.inr hc))

/-- Only a test of an end is lenient. -/
theorem Filter.Plain.lenient {f : Filter} (h : f.Plain) (fold : Char → Char) (d : Bson) :
    f.node.holds fold true d = f.node.holds fold false d := by
  induction f generalizing d with
  | logical left op right ihl ihr =>
      cases op <;> rw [Filter.node, ScimNode.holds, ScimNode.holds, ihl h.1, ihr h.2]
  | array path expr ih =>
      rw [Filter.node, ScimNode.holds, ScimNode.holds]
      congr 1
      funext v
      cases v with
      | none => rfl
      | some v =>
          cases v with
          | list ws =>
              show (ws.any _) = (ws.any _)
              congr 1
              funext w
              cases w with
              | doc fs => exact ih h (.doc fs)
              | list us => exact ih h (.list us)
              | _ => rfl
          | _ => rfl
  | present path => rfl
  | condition path c ne v =>
      have hew := h.2.1
      show conditionHolds fold true _ c _ = conditionHolds fold false _ c _
      cases c <;> first | exact absurd rfl hew | rfl

/-- Nothing is lost of plain literals. -/
theorem nothingLost_of_plain (e : RegexEngine) {f : Filter} (h : f.Plain) : NothingLost e f := by
  refine ⟨?_, ?_⟩
  · rw [h.read.1]
    exact h.compiles
  · intro fields
    rw [h.read.1, h.lenient]

theorem toBson_injective {v w : Value} (h : v.toBson = w.toBson) : v = w := by
  cases v with
  | null =>
      cases w with
      | null => rfl
      | _ => cases h
  | bool b =>
      cases w with
      | bool c => exact congrArg Value.bool (Bson.bool.inj h)
      | _ => cases h
  | num q =>
      cases w with
      | num r => exact congrArg Value.num (Bson.num.inj h)
      | _ => cases h
  | str s =>
      cases w with
      | str t => exact congrArg Value.str (String.ofList_injective (Bson.str.inj h))
      | _ => cases h

/-- A condition `eq` fails the round trip as soon as its literal is changed. -/
theorem roundTrip_eq_iff (e : RegexEngine) (path : Name) (v : Literal) :
    RoundTrip e (.condition path .eq (by decide) v) ↔ v.read false = v.value := by
  rw [roundTrip_iff_nothingLost]
  constructor
  · rintro ⟨-, hsame⟩
    -- the document that has exactly the value of the filter
    obtain ⟨fields, hfound⟩ := exists_found (String.ofList path.chars) v.value.toBson
    have h := hsame fields
    have hcandidates : Bson.candidates [some v.value.toBson] = [some v.value.toBson] := by
      cases v <;> rfl
    rw [Filter.read, Filter.node, ScimNode.holds, ScimNode.holds, hfound, conditionHolds,
      conditionHolds, hcandidates] at h
    simp only [List.any_cons, List.any_nil, Bool.or_false, Bson.orNull, Option.getD_some,
      decide_true] at h
    exact (toBson_injective (of_decide_eq_true h)).symm
  · intro hv
    refine ⟨?_, ?_⟩
    · rintro (h | h | h) <;> cases h
    · intro fields
      rw [Filter.read, hv, Filter.node]
      rfl

end Scim
