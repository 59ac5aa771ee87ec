import NestServer.Scim.Grammar
import NestServer.Scim.Transform

/-! # What a SCIM text is read to the end

    The text is lexed and parsed to the end only if it consists of identifiers,
    brackets, whitespace and closed strings, and if its tokens are one filter
    expression.  The tokenizer skips every other character, and the parser stops
    at the first token that it cannot go on with. -/

namespace Scim

open Mongo

/-! ## Characters -/

inductive Mode where
  | outside
  | inside
  /-- after a backslash in a string -/
  | escaped
deriving DecidableEq

/-- The text consists of identifiers, brackets, whitespace and closed strings. -/
def covered : Mode → List Char → Bool
  | .outside, []      => true
  | .inside,  []      => false
  | .escaped, []      => false
  | .outside, c :: cs =>
      if c = '"' then covered .inside cs
      else (isSpace c || isWordChar c || isBracket c) && covered .outside cs
  | .inside,  c :: cs =>
      if c = '"' then covered .outside cs
      else if c = '\\' then covered .escaped cs
      else covered .inside cs
  | .escaped, _ :: cs => covered .inside cs

/-- The characters that are not whitespace. -/
def visible (cs : List Char) : List Char := cs.filter fun c => !isSpace c

theorem visible_cons (c : Char) (cs : List Char) :
    visible (c :: cs) = if isSpace c then visible cs else c :: visible cs := by
  rw [visible, List.filter_cons]
  cases isSpace c <;> rfl

theorem visible_append (cs ds : List Char) : visible (cs ++ ds) = visible cs ++ visible ds :=
  List.filter_append ..

/-- Whitespace is no change in a string or between tokens, and a backslash takes
    it like any character. -/
theorem covered_space {c : Char} (h : isSpace c = true) (cs : List Char) :
    covered .outside (c :: cs) = covered .outside cs ∧
      covered .inside (c :: cs) = covered .inside cs := by
  obtain ⟨hq, hb⟩ := ne_quote_of_isSpace h
  constructor
  · rw [covered, if_neg hq, h]
    rfl
  · rw [covered, if_neg hq, if_neg hb]

/-! ## The preparation of the text -/

theorem visible_spaceBrackets (prev : Option Char) (inside : Bool) (cs : List Char) :
    visible (spaceBrackets prev inside cs) = visible cs := by
  induction cs generalizing prev inside with
  | nil => rfl
  | cons c cs ih =>
      have hspace : isSpace ' ' = true := by decide
      rw [spaceBrackets]
      split
      · rw [visible_cons, visible_cons, ih]
      · split
        · rw [visible_cons, if_pos hspace, visible_cons, visible_cons, visible_cons, if_pos hspace,
            ih]
        · rw [visible_cons, visible_cons, ih]

theorem covered_spaceBrackets (m : Mode) (prev : Option Char) (inside : Bool) (cs : List Char) :
    covered m (spaceBrackets prev inside cs) = covered m cs := by
  induction cs generalizing m prev inside with
  | nil => rfl
  | cons c cs ih =>
      rw [spaceBrackets]
      split
      · cases m <;> simp only [covered, ih]
      · split
        · next hbracket =>
            obtain ⟨-, hb⟩ := Bool.and_eq_true_iff.mp hbracket
            have hspace : isSpace ' ' = true := by decide
            have hc : c ≠ '"' ∧ c ≠ '\\' := by
              rcases isBracket_cases hb with rfl | rfl | rfl | rfl <;> decide
            -- the space before the bracket, the bracket, the space after it
            cases m with
            | outside =>
                rw [(covered_space hspace _).1, covered, if_neg hc.1, (covered_space hspace _).1,
                  ih, covered, if_neg hc.1]
            | inside =>
                rw [(covered_space hspace _).2, covered, if_neg hc.1, if_neg hc.2,
                  (covered_space hspace _).2, ih, covered, if_neg hc.1, if_neg hc.2]
            | escaped =>
                rw [covered, covered, if_neg hc.1, if_neg hc.2, (covered_space hspace _).2, ih,
                  covered]
        · cases m <;> simp only [covered, ih]

theorem visible_collapse (cs : List Char) : visible (collapse cs) = visible cs := by
  induction cs with
  | nil => rfl
  | cons c cs ih =>
      have hspace : isSpace ' ' = true := by decide
      rw [collapse]
      split
      · next hc =>
          rw [visible_cons, if_pos hc]
          split
          · exact ih
          · rw [visible_cons, if_pos hspace, ih]
      · rw [visible_cons, visible_cons, ih]

theorem covered_collapse (m : Mode) (cs : List Char) : covered m (collapse cs) = covered m cs := by
  induction cs generalizing m with
  | nil => rfl
  | cons c cs ih =>
      have hspace : isSpace ' ' = true := by decide
      rw [collapse]
      split
      · next hc =>
          split
          · next hnext =>
              -- the first space of a run goes, and the rest of it takes its place
              cases m with
              | outside => rw [ih, (covered_space hc cs).1]
              | inside => rw [ih, (covered_space hc cs).2]
              | escaped =>
                  cases cs with
                  | nil => cases hnext
                  | cons d ds =>
                      have hd : isSpace d = true := by simpa using hnext
                      rw [ih, covered, covered, (covered_space hd ds).2]
          · cases m with
            | outside => rw [(covered_space hspace _).1, ih, (covered_space hc cs).1]
            | inside => rw [(covered_space hspace _).2, ih, (covered_space hc cs).2]
            | escaped => rw [covered, covered, ih]
      · cases m <;> simp only [covered, ih]

theorem visible_spaces {w : List Char} (hw : ∀ c ∈ w, isSpace c = true) : visible w = [] := by
  rw [visible, List.filter_eq_nil_iff]
  intro c hc
  simp [hw c hc]

theorem covered_append_spaces (m : Mode) (cs : List Char) {w : List Char}
    (hw : ∀ c ∈ w, isSpace c = true) : covered m (cs ++ w) = covered m cs := by
  induction cs generalizing m with
  | nil =>
      rw [List.nil_append]
      induction w generalizing m with
      | nil => rfl
      | cons c w ih =>
          have hc := hw c List.mem_cons_self
          have hrest := ih fun d hd => hw d (List.mem_cons_of_mem c hd)
          cases m with
          | outside => rw [(covered_space hc w).1, hrest]
          | inside => rw [(covered_space hc w).2, hrest]
          | escaped =>
              show covered .inside w = false
              rw [hrest]
              rfl
  | cons c cs ih => cases m <;> simp only [List.cons_append, covered, ih]

theorem spaces_append_covered {w : List Char} (hw : ∀ c ∈ w, isSpace c = true) (cs : List Char) :
    covered .outside (w ++ cs) = covered .outside cs := by
  induction w with
  | nil => rfl
  | cons c w ih =>
      rw [List.cons_append, (covered_space (hw c List.mem_cons_self) _).1,
        ih fun d hd => hw d (List.mem_cons_of_mem c hd)]

/-- The prepared text is as complete as the text. -/
theorem normalize_spec (s : List Char) :
    visible (normalize s) = visible s ∧ covered .outside (normalize s) = covered .outside s := by
  obtain ⟨w, w', hw, hw', heq⟩ := trim_spec (collapse (spaceBrackets none false s))
  constructor
  · have h := congrArg visible heq
    rw [visible_collapse, visible_spaceBrackets, visible_append, visible_append, visible_spaces hw,
      visible_spaces hw', List.nil_append, List.append_nil] at h
    exact h.symm
  · have h := congrArg (covered .outside) heq
    rw [covered_collapse, covered_spaceBrackets, spaces_append_covered hw,
      covered_append_spaces .outside _ hw'] at h
    exact h.symm

/-! ## The tokens -/

/-- A string that is found is a prefix; a string that is not closed is none. -/
theorem matchString_spec (cs : List Char) :
    match matchString cs with
    | some (content, rest) =>
        cs = content ++ rest ∧ covered .inside cs = covered .outside rest
    | none => covered .inside cs = false := by
  fun_induction matchString cs with
  | case1 => rfl
  | case2 => rfl
  | case3 c cs ih =>
      have hne : ('\\' : Char) ≠ '"' := by decide
      rw [covered, if_neg hne, if_pos rfl, covered]
      cases h : matchString cs with
      | none =>
          rw [h] at ih
          exact ih
      | some p =>
          rw [h] at ih
          exact ⟨by rw [List.cons_append, List.cons_append, ← ih.1], ih.2⟩
  | case4 cs => exact ⟨rfl, by rw [covered, if_pos rfl]⟩
  | case5 c cs hnil hcons hq ih =>
      have hb : c ≠ '\\' := by
        rintro rfl
        cases cs with
        | nil => exact hnil rfl rfl
        | cons d ds => exact hcons d ds rfl rfl
      rw [covered, if_neg hq, if_neg hb]
      cases h : matchString cs with
      | none =>
          rw [h] at ih
          exact ih
      | some p =>
          rw [h] at ih
          exact ⟨by rw [List.cons_append, ← ih.1], ih.2⟩

/-- Inside a run of identifier characters nothing is skipped. -/
theorem covered_word (cs : List Char) :
    covered .outside (cs.dropWhile isWordChar) = covered .outside cs := by
  induction cs with
  | nil => rfl
  | cons c cs ih =>
      rw [List.dropWhile_cons]
      split
      · next hw =>
          rw [ih, covered, if_neg (word_ne_quote hw), hw, Bool.or_true, Bool.true_or,
            Bool.true_and]
      · rfl

/-- The tokens hold all that is visible exactly if the text is covered, and
    otherwise less. -/
theorem visible_matchTokens : ∀ (n : Nat) (cs : List Char), cs.length ≤ n →
    (covered .outside cs = true ∧ visible (matchTokens n cs).flatten = visible cs) ∨
    (covered .outside cs = false ∧
      (visible (matchTokens n cs).flatten).length < (visible cs).length) := by
  intro n
  induction n with
  | zero =>
      intro cs hn
      rw [List.length_eq_zero_iff.mp (Nat.le_zero.mp hn)]
      exact Or.inl ⟨rfl, rfl⟩
  | succ n ih =>
      intro cs hn
      cases cs with
      | nil => exact Or.inl ⟨rfl, rfl⟩
      | cons c cs =>
          have hlen : cs.length ≤ n := by simpa using hn
          rw [matchTokens]
          by_cases hb : isBracket c = true
          · -- a bracket
            have hq : c ≠ '"' := by
              rcases isBracket_cases hb with rfl | rfl | rfl | rfl <;> decide
            have hs := isSpace_of_isBracket hb
            rw [if_pos hb, covered, if_neg hq, hb, Bool.or_true, Bool.true_and, List.flatten_cons,
              visible_append, visible_cons c cs, hs, visible_cons c [], hs]
            rcases ih cs hlen with ⟨hc, heq⟩ | ⟨hc, hlt⟩
            · refine Or.inl ⟨hc, ?_⟩
              rw [heq]
              rfl
            · refine Or.inr ⟨hc, ?_⟩
              simpa [visible] using hlt
          · rw [if_neg hb]
            by_cases hw : isWordChar c = true
            · -- an identifier
              have hs := isSpace_of_isWordChar hw
              have hdrop : (cs.dropWhile isWordChar).length ≤ n :=
                Nat.le_trans (List.length_dropWhile_le _ cs) hlen
              have hsplit : visible cs =
                  visible (cs.takeWhile isWordChar) ++ visible (cs.dropWhile isWordChar) := by
                rw [← visible_append, List.takeWhile_append_dropWhile]
              rw [if_pos hw, covered, if_neg (word_ne_quote hw), hw, Bool.or_true, Bool.true_or,
                Bool.true_and, List.flatten_cons, visible_append, visible_cons, hs, visible_cons,
                hs, hsplit, ← covered_word]
              rcases ih _ hdrop with ⟨hc, heq⟩ | ⟨hc, hlt⟩
              · refine Or.inl ⟨hc, ?_⟩
                rw [heq]
                rfl
              · refine Or.inr ⟨hc, ?_⟩
                simp only [Bool.false_eq_true, if_false, List.cons_append, List.length_cons,
                  List.length_append]
                omega
            · rw [if_neg hw]
              by_cases hq : c = '"'
              · -- a string, if it is closed
                subst hq
                have hspec := matchString_spec cs
                rw [if_pos rfl, covered, if_pos rfl, visible_cons, isSpace_quote]
                cases h : matchString cs with
                | none =>
                    rw [h] at hspec
                    refine Or.inr ⟨hspec, ?_⟩
                    simp only [Bool.false_eq_true, if_false, List.length_cons]
                    rcases ih cs hlen with ⟨-, heq⟩ | ⟨-, hlt⟩
                    · rw [heq]
                      exact Nat.lt_succ_self _
                    · omega
                | some p =>
                    obtain ⟨content, rest⟩ := p
                    rw [h] at hspec
                    obtain ⟨heq, hcov⟩ := hspec
                    have hrest : rest.length ≤ n := by
                      rw [heq, List.length_append] at hlen
                      omega
                    dsimp only
                    rw [hcov, List.flatten_cons, visible_append, visible_cons, isSpace_quote, heq,
                      visible_append]
                    rcases ih rest hrest with ⟨hc, heq'⟩ | ⟨hc, hlt⟩
                    · refine Or.inl ⟨hc, ?_⟩
                      rw [heq']
                      rfl
                    · refine Or.inr ⟨hc, ?_⟩
                      simp only [Bool.false_eq_true, if_false, List.cons_append, List.length_cons,
                        List.length_append]
                      omega
              · -- whitespace, or a character that is skipped
                rw [if_neg hq, covered, if_neg hq, visible_cons]
                cases hs : isSpace c with
                | true =>
                    rw [if_pos rfl, Bool.true_or, Bool.true_or, Bool.true_and]
                    exact ih cs hlen
                | false =>
                    refine Or.inr ⟨by simp [hw, hb], ?_⟩
                    simp only [Bool.false_eq_true, if_false, List.length_cons]
                    rcases ih cs hlen with ⟨-, heq⟩ | ⟨-, hlt⟩
                    · rw [heq]
                      exact Nat.lt_succ_self _
                    · omega

/-- **Every visible character is in a token** exactly if the text is covered. -/
theorem visible_tokenize (s : List Char) :
    visible (tokenize s).flatten = visible s ↔ covered .outside s = true := by
  obtain ⟨hvisible, hcovered⟩ := normalize_spec s
  rw [tokenize, ← hvisible, ← hcovered]
  rcases visible_matchTokens _ (normalize s) (Nat.le_refl _) with ⟨hc, heq⟩ | ⟨hc, hlt⟩
  · exact iff_of_true heq hc
  · refine iff_of_false ?_ (by simp [hc])
    intro heq
    rw [heq] at hlt
    exact absurd hlt (Nat.lt_irrefl _)

/-! ## The property -/

/-- `[a-zA-Z0-9_.]+` -/
def IsName (t : Token) : Prop := t ≠ [] ∧ t.all isWordChar = true

/-- An identifier, a number or a string. -/
def IsOperand (t : Token) : Prop := IsName t ∨ t.head? = some '"'

/-- A text that is one filter expression, from its first to its last character. -/
def CompleteFilter (s : List Char) : Prop :=
  covered .outside s = true ∧ ∃ node, Reads IsName IsOperand .expression (tokenize s) node []

/-- A text whose first tokens are a filter expression, whatever follows them and
    whatever stands between them. -/
def BeginsWithFilter (s : List Char) : Prop :=
  ∃ node rest, Reads AnyToken AnyToken .expression (tokenize s) node rest ∧ Compiles node

/-- **A text is not partly ignored.** What is accepted is consumed to its last
    character and its last token, and is a complete filter expression. -/
def NeverPartlyIgnored (s : List Char) : Prop :=
  ∀ q, s ≠ [] → scimToMongo s = .ok q →
    visible (tokenize s).flatten = visible s ∧
    (∃ node, parseExpression (tokenize s).length (2 * (tokenize s).length + 3) (tokenize s) =
      .ok (node, [])) ∧
    CompleteFilter s

/-! ## What is accepted -/

/-- The helper accepts exactly the texts that begin with a filter expression. -/
theorem accepts_iff {s : List Char} (hs : s ≠ []) :
    (∃ q, scimToMongo s = .ok q) ↔ BeginsWithFilter s := by
  rw [scimToMongo, if_neg hs]
  constructor
  · rintro ⟨q, h⟩
    obtain ⟨ast, hast, hq⟩ := Fallible.bind_eq_ok.mp h
    obtain ⟨rest, hreads⟩ := parseTokens_eq_ok.mp hast
    exact ⟨ast, rest, hreads, (transform_isOk ast).1.mp ⟨q, hq⟩⟩
  · rintro ⟨ast, rest, hreads, hcompiles⟩
    obtain ⟨q, hq⟩ := (transform_isOk ast).1.mpr hcompiles
    refine ⟨q, ?_⟩
    rw [parseTokens_eq_ok.mpr ⟨rest, hreads⟩]
    exact hq

/-- **When SCIM input is not partly ignored**: exactly if the text does not even
    begin with a filter expression, or is a complete one. -/
theorem neverPartlyIgnored_iff (s : List Char) :
    NeverPartlyIgnored s ↔ ¬ BeginsWithFilter s ∨ CompleteFilter s := by
  constructor
  · intro h
    by_cases hbegins : BeginsWithFilter s
    · have hs : s ≠ [] := by
        rintro rfl
        obtain ⟨node, rest, hreads, -⟩ := hbegins
        cases hreads with
        | expression term _ => cases term
      obtain ⟨q, hq⟩ := (accepts_iff hs).mpr hbegins
      exact Or.inr (h q hs hq).2.2
    · exact Or.inl hbegins
  · rintro (hnot | ⟨hcovered, node, hreads⟩) q hs hq
    · exact absurd ((accepts_iff hs).mp ⟨q, hq⟩) hnot
    · refine ⟨(visible_tokenize s).mpr hcovered, ⟨node, ?_⟩, hcovered, node, hreads⟩
      exact parse_of_reads _ hreads (2 * (tokenize s).length + 3) (by simp only [fuelFor]; omega)

/-- The second condition is dropped without an error. -/
theorem scimToMongo_ignores :
    scimToMongo "name eq \"joe\" age gt 5".toList =
        .ok (.doc [("name", .doc [("$eq", .str "joe")])]) ∧
      ¬ NeverPartlyIgnored "name eq \"joe\" age gt 5".toList := by
  have h : scimToMongo "name eq \"joe\" age gt 5".toList =
      .ok (.doc [("name", .doc [("$eq", .str "joe")])]) := by rfl
  refine ⟨h, ?_⟩
  intro hnever
  obtain ⟨-, ⟨node, hparse⟩, -⟩ := hnever _ (by decide) h
  have hrest : (parseExpression (tokenize "name eq \"joe\" age gt 5".toList).length
      (2 * (tokenize "name eq \"joe\" age gt 5".toList).length + 3)
      (tokenize "name eq \"joe\" age gt 5".toList)).toOption.map (·.2.length) = some 3 := by decide
  rw [hparse] at hrest
  cases hrest

end Scim
