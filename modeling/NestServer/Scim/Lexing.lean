import NestServer.Scim.Filter
import NestServer.Scim.Grammar

/-! # What the tokenizer makes of the text of a filter

    `Lexes` reads a raw text piece by piece, with the flag `insideQuotes`, and
    gives the tokens that the normalised text has: `tokenize_of_lexes`.  The
    text of a filter is such a text, and `read` is the node its tokens are. -/

namespace Scim

/-! ## Escaped contents -/

/-- The content of a string in which every quote and every backslash is
    escaped. -/
inductive Escaped : List Char → Prop where
  | nil : Escaped []
  | plain {c : Char} {cs : List Char} (hq : c ≠ '"') (hb : c ≠ '\\') (rest : Escaped cs) :
      Escaped (c :: cs)
  | pair {c : Char} {cs : List Char} (hc : c = '"' ∨ c = '\\') (rest : Escaped cs) :
      Escaped ('\\' :: c :: cs)

theorem escaped_escape (s : List Char) : Escaped (escape s) := by
  induction s with
  | nil => exact .nil
  | cons c s ih =>
      rw [escape, List.flatMap_cons]
      by_cases hc : c = '"' ∨ c = '\\'
      · rw [if_pos hc]
        exact .pair hc ih
      · rw [if_neg hc]
        exact .plain (fun h => hc (Or.inl h)) (fun h => hc (Or.inr h)) ih

/-- The closing quote ends the content. -/
theorem Escaped.matchString {content : List Char} (h : Escaped content) (rest : List Char) :
    matchString (content ++ '"' :: rest) = some (content ++ ['"'], rest) := by
  induction h with
  | nil => rfl
  | @plain c cs hq hb _ ih =>
      have hstep : Scim.matchString (c :: (cs ++ '"' :: rest)) =
          (Scim.matchString (cs ++ '"' :: rest)).map fun p => (c :: p.1, p.2) := by
        rw [Scim.matchString.eq_4 _ _ (fun h _ => hb h) (fun _ _ h _ => hb h), if_neg hq]
      rw [List.cons_append, hstep, ih]
      rfl
  | @pair c cs _ _ ih =>
      show (Scim.matchString (cs ++ '"' :: rest)).map (fun p => ('\\' :: c :: p.1, p.2)) = _
      rw [ih]
      rfl

theorem Escaped.append {xs ys : List Char} (hx : Escaped xs) (hy : Escaped ys) :
    Escaped (xs ++ ys) := by
  induction hx with
  | nil => exact hy
  | plain hq hb _ ih => exact .plain hq hb ih
  | pair hc _ ih => exact .pair hc ih

theorem ne_special_of_isBracket {c : Char} (h : isBracket c = true) : c ≠ '"' ∧ c ≠ '\\' := by
  constructor <;> rintro rfl <;> exact absurd h (by decide)

theorem not_isBracket_of_isWordChar {c : Char} (h : isWordChar c = true) : isBracket c = false := by
  refine Bool.eq_false_iff.mpr ?_
  intro hb
  rcases isBracket_cases hb with rfl | rfl | rfl | rfl <;> exact absurd h (by decide)

theorem not_isSpace_of_special {c : Char} (h : c = '"' ∨ c = '\\') : isSpace c = false := by
  rcases h with rfl | rfl <;> decide

theorem escaped_spaced (spaces : Bool) {content : List Char} (h : Escaped content) :
    Escaped (spaced spaces content) := by
  cases spaces with
  | false => exact h
  | true =>
      show Escaped (content.flatMap fun c => if isBracket c then [' ', c, ' '] else [c])
      induction h with
      | nil => exact .nil
      | @plain c cs hq hb _ ih =>
          rw [List.flatMap_cons]
          refine Escaped.append ?_ ih
          split
          · exact .plain (by decide) (by decide)
              (.plain hq hb (.plain (by decide) (by decide) .nil))
          · exact .plain hq hb .nil
      | @pair c cs hc _ ih =>
          have hnot : isBracket c = false := by rcases hc with rfl | rfl <;> decide
          rw [List.flatMap_cons, List.flatMap_cons, hnot]
          exact .pair hc ih

theorem collapse_cons_of_not_space {c : Char} (h : isSpace c = false) (cs : List Char) :
    collapse (c :: cs) = c :: collapse cs := by
  rw [collapse, h]
  rfl

theorem escaped_collapse {content : List Char} (h : Escaped content) :
    Escaped (collapse content) := by
  induction h with
  | nil => exact .nil
  | @plain c cs hq hb _ ih =>
      rw [collapse]
      split
      · split
        · exact ih
        · exact .plain (by decide) (by decide) ih
      · exact .plain hq hb ih
  | @pair c cs hc _ ih =>
      rw [collapse_cons_of_not_space (by decide),
        collapse_cons_of_not_space (not_isSpace_of_special hc)]
      exact .pair hc ih

theorem collapse_cons_of_space {c : Char} (h : isSpace c = true) (cs : List Char) :
    collapse (c :: cs) =
      if cs.head?.any isSpace = true then collapse cs else ' ' :: collapse cs := by
  rw [collapse, if_pos h]

/-- Whitespace is collapsed up to the next quote on its own. -/
theorem collapse_append_quote (xs ys : List Char) :
    collapse (xs ++ '"' :: ys) = collapse xs ++ '"' :: collapse ys := by
  induction xs with
  | nil => exact collapse_cons_of_not_space isSpace_quote ys
  | cons c cs ih =>
      have hhead : (cs ++ '"' :: ys).head?.any isSpace = cs.head?.any isSpace := by
        cases cs <;> rfl
      rw [List.cons_append]
      by_cases hc : isSpace c = true
      · rw [collapse_cons_of_space hc, collapse_cons_of_space hc, hhead, ih]
        split <;> rfl
      · have hc' : isSpace c = false := by simpa using hc
        rw [collapse_cons_of_not_space hc', collapse_cons_of_not_space hc', ih]
        rfl

/-! ## Normalised texts -/

/-- A text and its tokens, piece by piece. -/
inductive Renders : List Char → List Token → Prop where
  | nil : Renders [] []
  | skip {c : Char} {cs : List Char} {ts : List Token} (hq : c ≠ '"') (hb : isBracket c = false)
      (hw : isWordChar c = false) (rest : Renders cs ts) : Renders (c :: cs) ts
  | bracket {c : Char} {cs : List Char} {ts : List Token} (hb : isBracket c = true)
      (rest : Renders cs ts) : Renders (c :: cs) ([c] :: ts)
  | word {c : Char} {w cs : List Char} {ts : List Token} (hw : ∀ d ∈ c :: w, isWordChar d = true)
      (ends : ∀ d ∈ cs.head?, isWordChar d = false) (rest : Renders cs ts) :
      Renders (c :: (w ++ cs)) ((c :: w) :: ts)
  | string {content cs : List Char} {ts : List Token} (esc : Escaped content)
      (rest : Renders cs ts) :
      Renders ('"' :: (content ++ '"' :: cs)) (('"' :: (content ++ ['"'])) :: ts)

theorem renders_space {c : Char} (hc : isSpace c = true) {cs : List Char} {ts : List Token}
    (h : Renders cs ts) : Renders (c :: cs) ts := by
  refine .skip (ne_quote_of_isSpace hc).1 ?_ ?_ h
  · refine Bool.eq_false_iff.mpr ?_
    intro hb
    rw [isSpace_of_isBracket hb] at hc
    cases hc
  · refine Bool.eq_false_iff.mpr ?_
    intro hw
    rw [isSpace_of_isWordChar hw] at hc
    cases hc

theorem span_word {w cs : List Char} (hw : ∀ d ∈ w, isWordChar d = true)
    (ends : ∀ d ∈ cs.head?, isWordChar d = false) :
    (w ++ cs).takeWhile isWordChar = w ∧ (w ++ cs).dropWhile isWordChar = cs := by
  rw [List.takeWhile_append_of_pos hw, List.dropWhile_append_of_pos hw]
  cases cs with
  | nil => simp
  | cons d ds =>
      have hd : isWordChar d = false := ends d rfl
      simp [hd]

/-- The token expression finds these tokens. -/
theorem matchTokens_of_renders {cs : List Char} {ts : List Token} (h : Renders cs ts) :
    ∀ n, cs.length ≤ n → matchTokens n cs = ts := by
  induction h with
  | nil =>
      intro n _
      cases n <;> rfl
  | @skip c cs ts hq hb hw _ ih =>
      intro n hn
      obtain ⟨m, rfl⟩ : ∃ m, n = m + 1 := ⟨n - 1, by simp only [List.length_cons] at hn; omega⟩
      rw [matchTokens, hb, hw]
      simp only [Bool.false_eq_true, if_false, hq]
      exact ih m (by simpa using hn)
  | @bracket c cs ts hb _ ih =>
      intro n hn
      obtain ⟨m, rfl⟩ : ∃ m, n = m + 1 := ⟨n - 1, by simp only [List.length_cons] at hn; omega⟩
      rw [matchTokens, if_pos hb, ih m (by simpa using hn)]
  | @word c w cs ts hw ends _ ih =>
      intro n hn
      simp only [List.length_cons, List.length_append] at hn
      obtain ⟨m, rfl⟩ : ∃ m, n = m + 1 := ⟨n - 1, by omega⟩
      have hc : isWordChar c = true := hw c List.mem_cons_self
      have hnot : isBracket c = false := not_isBracket_of_isWordChar hc
      obtain ⟨htake, hdrop⟩ := span_word (fun d hd => hw d (List.mem_cons_of_mem c hd)) ends
      rw [matchTokens, hnot, if_neg (by simp), if_pos hc, htake, hdrop, ih m (by omega)]
  | @string content cs ts esc _ ih =>
      intro n hn
      simp only [List.length_cons, List.length_append] at hn
      obtain ⟨m, rfl⟩ : ∃ m, n = m + 1 := ⟨n - 1, by omega⟩
      rw [matchTokens, if_neg (by decide), if_neg (by decide), if_pos rfl, esc.matchString]
      dsimp only
      rw [ih m (by omega)]

theorem Renders.of_cons_space {xs : List Char} {ts : List Token} (h : Renders xs ts) {c : Char}
    {cs : List Char} (heq : xs = c :: cs) (hc : isSpace c = true) : Renders cs ts := by
  cases h with
  | nil => cases heq
  | skip _ _ _ rest =>
      cases heq
      exact rest
  | bracket hb _ =>
      cases heq
      rw [isSpace_of_isBracket hb] at hc
      cases hc
  | word hw _ _ =>
      cases heq
      rw [isSpace_of_isWordChar (hw c List.mem_cons_self)] at hc
      cases hc
  | string _ _ =>
      cases heq
      rw [isSpace_quote] at hc
      cases hc

theorem Renders.of_spaces_append {w cs : List Char} {ts : List Token}
    (hw : ∀ c ∈ w, isSpace c = true) (h : Renders (w ++ cs) ts) : Renders cs ts := by
  induction w with
  | nil => exact h
  | cons c w ih =>
      exact ih (fun d hd => hw d (List.mem_cons_of_mem c hd))
        (h.of_cons_space (c := c) rfl (hw c List.mem_cons_self))

/-- A piece that is no whitespace does not reach into the whitespace at the end. -/
theorem piece_of_append_spaces (piece : List Char) {rest cs w : List Char} {c : Char}
    (hlast : piece.getLast? = some c) (hc : isSpace c = false) (hw : ∀ d ∈ w, isSpace d = true)
    (heq : piece ++ rest = cs ++ w) : ∃ cs', cs = piece ++ cs' ∧ rest = cs' ++ w := by
  rcases List.append_eq_append_iff.mp heq with ⟨as, rfl, rfl⟩ | ⟨bs, rfl, rfl⟩
  · exact ⟨as, rfl, rfl⟩
  · cases bs using List.reverseRecOn with
    | nil => exact ⟨[], by simp, by simp⟩
    | append_singleton bs b =>
        have hb : b = c := by simpa using hlast
        have hspace := hw b (by simp)
        rw [hb, hc] at hspace
        cases hspace

theorem Renders.of_append_spaces {xs : List Char} {ts : List Token} (h : Renders xs ts) :
    ∀ cs w : List Char, xs = cs ++ w → (∀ c ∈ w, isSpace c = true) → Renders cs ts := by
  induction h with
  | nil =>
      intro cs w heq _
      rw [(List.append_eq_nil_iff.mp heq.symm).1]
      exact .nil
  | @skip c xs ts hq hb hw rest ih =>
      intro cs w heq hspaces
      cases cs with
      | nil =>
          subst heq
          exact ih [] xs rfl fun d hd => hspaces d (List.mem_cons_of_mem c hd)
      | cons d cs =>
          cases heq
          exact .skip hq hb hw (ih cs w rfl hspaces)
  | @bracket c xs ts hb rest ih =>
      intro cs w heq hspaces
      obtain ⟨cs', rfl, hrest⟩ := piece_of_append_spaces [c] rfl (isSpace_of_isBracket hb)
        hspaces heq
      exact .bracket hb (ih cs' w hrest hspaces)
  | @word c v xs ts hv ends rest ih =>
      intro cs w heq hspaces
      have hlast : (c :: v).getLast? = some ((c :: v).getLast (List.cons_ne_nil c v)) :=
        List.getLast?_eq_getLast_of_ne_nil (List.cons_ne_nil c v)
      obtain ⟨cs', rfl, hrest⟩ := piece_of_append_spaces (c :: v) hlast
        (isSpace_of_isWordChar (hv _ (List.getLast_mem _))) hspaces heq
      refine .word hv ?_ (ih cs' w hrest hspaces)
      intro d hd
      cases cs' with
      | nil => cases hd
      | cons e es => exact ends d (hrest ▸ hd)
  | @string content xs ts esc rest ih =>
      intro cs w heq hspaces
      obtain ⟨cs', rfl, hrest⟩ := piece_of_append_spaces ('"' :: (content ++ ['"']))
        (c := '"') (by rw [← List.cons_append, List.getLast?_append]; rfl) isSpace_quote hspaces
        (by simpa using heq)
      have hshape : ('"' :: (content ++ ['"'])) ++ cs' = '"' :: (content ++ '"' :: cs') := by simp
      rw [hshape]
      exact .string esc (ih cs' w hrest hspaces)

theorem Renders.trim {cs : List Char} {ts : List Token} (h : Renders cs ts) :
    Renders (trim cs) ts := by
  obtain ⟨w, w', hw, hw', heq⟩ := trim_spec cs
  exact (Renders.of_spaces_append hw (heq ▸ h)).of_append_spaces _ w' rfl hw'

/-! ## Raw texts -/

/-- A raw text and the tokens it has once it is normalised.  The flag is the
    `insideQuotes` of the loop, outside of the strings. -/
inductive Lexes : Bool → List Char → List Token → Prop where
  | nil (inside : Bool) : Lexes inside [] []
  | skip {inside : Bool} {c : Char} {cs : List Char} {ts : List Token} (hq : c ≠ '"')
      (hb : isBracket c = false) (hw : isWordChar c = false) (hne : c ≠ '\\')
      (rest : Lexes inside cs ts) : Lexes inside (c :: cs) ts
  | bracket {inside : Bool} {c : Char} {cs : List Char} {ts : List Token}
      (hb : isBracket c = true) (rest : Lexes inside cs ts) : Lexes inside (c :: cs) ([c] :: ts)
  | word {inside : Bool} {c : Char} {w cs : List Char} {ts : List Token}
      (hw : ∀ d ∈ c :: w, isWordChar d = true) (ends : ∀ d ∈ cs.head?, isWordChar d = false)
      (rest : Lexes inside cs ts) : Lexes inside (c :: (w ++ cs)) ((c :: w) :: ts)
  | string {inside : Bool} {content cs : List Char} {ts : List Token} (esc : Escaped content)
      (rest : Lexes (xor inside (content.getLast? = some '\\')) cs ts) :
      Lexes inside ('"' :: (content ++ '"' :: cs))
        (('"' :: (collapse (spaced inside content) ++ ['"'])) :: ts)

theorem spaced_cons (spaces : Bool) (c : Char) (cs : List Char) :
    spaced spaces (c :: cs) =
      (if spaces && isBracket c then [' ', c, ' '] else [c]) ++ spaced spaces cs := by
  cases spaces <;> rfl

/-- The loop over a character that is no quote. -/
theorem spaceBrackets_cons (prev : Option Char) (inside : Bool) {c : Char} (hq : c ≠ '"')
    (cs : List Char) : spaceBrackets prev inside (c :: cs) =
      (if !inside && isBracket c then [' ', c, ' '] else [c]) ++
        spaceBrackets (some c) inside cs := by
  rw [spaceBrackets, if_neg (fun h => hq h.1)]
  split <;> rfl

/-- The loop over an escaped quote leaves the flag, over another toggles it. -/
theorem spaceBrackets_quote (prev : Option Char) (inside : Bool) (cs : List Char) :
    spaceBrackets prev inside ('"' :: cs) =
      '"' :: spaceBrackets (some '"') (if prev = some '\\' then inside else !inside) cs := by
  rw [spaceBrackets]
  by_cases hp : prev = some '\\'
  · have hnot : isBracket '"' = false := by decide
    rw [if_neg (fun h => h.2 hp), if_pos hp, hnot, Bool.and_false, if_neg (by simp)]
  · rw [if_pos ⟨rfl, hp⟩, if_neg hp]

/-- The loop over the content of a string and its closing quote. -/
theorem spaceBrackets_content {content : List Char} (h : Escaped content) (inside : Bool)
    (cs : List Char) : ∀ prev, spaceBrackets prev inside (content ++ '"' :: cs) =
      spaced (!inside) content ++ '"' :: spaceBrackets (some '"')
        (if content.getLast?.or prev = some '\\' then inside else !inside) cs := by
  induction h with
  | nil =>
      intro prev
      have hnil : spaced (!inside) [] = [] := by cases inside <;> rfl
      rw [hnil]
      exact spaceBrackets_quote prev inside cs
  | @plain c content hq hb _ ih =>
      intro prev
      have hlast : (c :: content).getLast?.or prev = content.getLast?.or (some c) := by
        rw [List.getLast?_cons]
        cases content.getLast? <;> rfl
      rw [List.cons_append, spaceBrackets_cons prev inside hq, ih, spaced_cons, hlast,
        List.append_assoc]
  | @pair c content hc _ ih =>
      intro prev
      have hlast : ('\\' :: c :: content).getLast?.or prev = content.getLast?.or (some c) := by
        rw [List.getLast?_cons, List.getLast?_cons]
        cases content.getLast? <;> rfl
      have hnot : isBracket c = false := by rcases hc with rfl | rfl <;> decide
      have hback : isBracket '\\' = false := by decide
      -- a quote after its backslash does not toggle
      have hstep : spaceBrackets (some '\\') inside (c :: (content ++ '"' :: cs)) =
          c :: spaceBrackets (some c) inside (content ++ '"' :: cs) := by
        rcases hc with rfl | rfl
        · rw [spaceBrackets_quote, if_pos rfl]
        · rw [spaceBrackets_cons _ _ (by decide), hback, Bool.and_false]
          rfl
      rw [List.cons_append, List.cons_append, spaceBrackets_cons prev inside (by decide), hstep, ih,
        spaced_cons, spaced_cons, hlast, hnot, hback, Bool.and_false]
      rfl

theorem spaceBrackets_word {w : List Char} (hw : ∀ d ∈ w, isWordChar d = true) (inside : Bool)
    (cs : List Char) : ∀ prev, ∃ prev', (prev ≠ some '\\' → prev' ≠ some '\\') ∧
      spaceBrackets prev inside (w ++ cs) = w ++ spaceBrackets prev' inside cs := by
  induction w with
  | nil => exact fun prev => ⟨prev, id, rfl⟩
  | cons c w ih =>
      intro prev
      have hc : isWordChar c = true := hw c List.mem_cons_self
      have hnot : isBracket c = false := not_isBracket_of_isWordChar hc
      obtain ⟨prev', hprev, heq⟩ := ih (fun d hd => hw d (List.mem_cons_of_mem c hd)) (some c)
      refine ⟨prev', fun _ => hprev ?_, ?_⟩
      · rintro ⟨⟩
        exact absurd hc (by decide)
      · rw [List.cons_append, spaceBrackets_cons prev inside (word_ne_quote hc), heq, hnot,
          Bool.and_false]
        rfl

theorem collapse_word {w : List Char} (hw : ∀ d ∈ w, isWordChar d = true) (cs : List Char) :
    collapse (w ++ cs) = w ++ collapse cs := by
  induction w with
  | nil => rfl
  | cons c w ih =>
      rw [List.cons_append,
        collapse_cons_of_not_space (isSpace_of_isWordChar (hw c List.mem_cons_self)),
        ih fun d hd => hw d (List.mem_cons_of_mem c hd)]
      rfl

/-- Normalising does not join words. -/
theorem head_collapse_not_word {cs : List Char} (h : ∀ d ∈ cs.head?, isWordChar d = false) :
    ∀ d ∈ (collapse cs).head?, isWordChar d = false := by
  induction cs with
  | nil => exact h
  | cons c cs ih =>
      by_cases hc : isSpace c = true
      · rw [collapse_cons_of_space hc]
        split
        · next hnext =>
            refine ih ?_
            intro d hd
            rw [hd] at hnext
            refine Bool.eq_false_iff.mpr ?_
            intro hw
            rw [Option.any_some, isSpace_of_isWordChar hw] at hnext
            cases hnext
        · rintro d ⟨⟩
          decide
      · rw [collapse_cons_of_not_space (by simpa using hc)]
        rintro d ⟨⟩
        exact h c rfl

theorem head_spaceBrackets_not_word {cs : List Char} (h : ∀ d ∈ cs.head?, isWordChar d = false)
    (prev : Option Char) (inside : Bool) :
    ∀ d ∈ (spaceBrackets prev inside cs).head?, isWordChar d = false := by
  cases cs with
  | nil => exact h
  | cons c cs =>
      rw [spaceBrackets]
      split
      · rintro d ⟨⟩
        exact h c rfl
      · split
        · rintro d ⟨⟩
          decide
        · rintro d ⟨⟩
          exact h c rfl

theorem renders_collapse_spaces {c : Char} (hc : isSpace c = true) {cs : List Char}
    {ts : List Token} (h : Renders (collapse cs) ts) : Renders (collapse (c :: cs)) ts := by
  rw [collapse_cons_of_space hc]
  split
  · exact h
  · exact renders_space (by decide) h

/-- **The normalised text of a raw text.** -/
theorem renders_of_lexes {inside : Bool} {cs : List Char} {ts : List Token}
    (h : Lexes inside cs ts) : ∀ prev, prev ≠ some '\\' →
      Renders (collapse (spaceBrackets prev inside cs)) ts := by
  induction h with
  | nil inside => exact fun _ _ => .nil
  | @skip inside c cs ts hq hb hw hne _ ih =>
      intro prev _
      have hrest := ih (some c) (by simpa using hne)
      rw [spaceBrackets_cons prev inside hq, hb, Bool.and_false]
      show Renders (collapse (c :: spaceBrackets (some c) inside cs)) ts
      by_cases hc : isSpace c = true
      · exact renders_collapse_spaces hc hrest
      · rw [collapse_cons_of_not_space (by simpa using hc)]
        exact .skip hq hb hw hrest
  | @bracket inside c cs ts hb _ ih =>
      intro prev _
      obtain ⟨hq, hne⟩ := ne_special_of_isBracket hb
      have hrest := ih (some c) (by simpa using hne)
      have hc := isSpace_of_isBracket hb
      rw [spaceBrackets_cons prev inside hq, hb, Bool.and_true]
      cases inside with
      | true =>
          show Renders (collapse (c :: spaceBrackets (some c) true cs)) ([c] :: ts)
          rw [collapse_cons_of_not_space hc]
          exact .bracket hb hrest
      | false =>
          show Renders (collapse (' ' :: c :: ' ' :: spaceBrackets (some c) false cs)) ([c] :: ts)
          refine renders_collapse_spaces (by decide) ?_
          rw [collapse_cons_of_not_space hc]
          exact .bracket hb (renders_collapse_spaces (by decide) hrest)
  | @word inside c w cs ts hw ends _ ih =>
      intro prev hprev
      obtain ⟨prev', hprev', heq⟩ := spaceBrackets_word hw inside cs prev
      have hrest := ih prev' (hprev' hprev)
      show Renders (collapse (spaceBrackets prev inside ((c :: w) ++ cs))) ((c :: w) :: ts)
      rw [heq, collapse_word hw]
      exact .word hw (head_collapse_not_word (head_spaceBrackets_not_word ends prev' inside)) hrest
  | @string inside content cs ts esc _ ih =>
      intro prev hprev
      have hflag : (if content.getLast?.or (some '"') = some '\\' then !inside else !!inside) =
          xor inside (decide (content.getLast? = some '\\')) := by
        cases hlast : content.getLast? with
        | none => cases inside <;> rfl
        | some c =>
            rw [Option.some_or]
            by_cases hc : c = '\\'
            · cases inside <;> simp [hc]
            · cases inside <;> simp [hc]
      have hrest := ih (some '"') (by decide)
      rw [spaceBrackets_quote, if_neg hprev, spaceBrackets_content esc, hflag, Bool.not_not,
        collapse_cons_of_not_space isSpace_quote, collapse_append_quote]
      exact .string (escaped_collapse (escaped_spaced inside esc)) hrest

/-- **The tokens of a raw text.** -/
theorem tokenize_of_lexes {cs : List Char} {ts : List Token} (h : Lexes false cs ts) :
    tokenize cs = ts :=
  matchTokens_of_renders (renders_of_lexes h none (by simp)).trim _ (Nat.le_refl _)

/-! ## The text of a filter -/

/-- The token of a literal. -/
def Literal.token (inside : Bool) : Literal → Token
  | .bool b => if b then "true".toList else "false".toList
  | .num n  => n.unsigned
  | .str s  => '"' :: (collapse (spaced inside (escape s)) ++ ['"'])

/-- The tokens of a filter. -/
def Filter.tokens (inside : Bool) : Filter → List Token
  | .logical left op right =>
      ['('] :: (left.tokens inside ++ [')'] :: op.text.toList :: ['('] ::
        (right.tokens (xor inside left.confuses) ++ [[')']]))
  | .array path expr       => path.chars :: ['['] :: ['('] :: (expr.tokens inside ++ [[')'], [']']])
  | .present path          => [path.chars, Comparator.pr.text]
  | .condition path c _ v  => [path.chars, c.text, v.token inside]

/-- The text goes on with no identifier. -/
def Ends (cs : List Char) : Prop := ∀ d ∈ cs.head?, isWordChar d = false

theorem ends_cons {c : Char} (hc : isWordChar c = false) (cs : List Char) : Ends (c :: cs) := by
  rintro d ⟨⟩
  exact hc

theorem lexes_word {inside : Bool} {w cs : List Char} {ts : List Token} (hne : w ≠ [])
    (hw : ∀ d ∈ w, isWordChar d = true) (ends : Ends cs) (h : Lexes inside cs ts) :
    Lexes inside (w ++ cs) (w :: ts) := by
  cases w with
  | nil => exact absurd rfl hne
  | cons c w => exact .word hw ends h

theorem lexes_space {inside : Bool} {cs : List Char} {ts : List Token} (h : Lexes inside cs ts) :
    Lexes inside (' ' :: cs) ts :=
  .skip (by decide) (by decide) (by decide) (by decide) h

theorem lexes_name {inside : Bool} (name : Name) {cs : List Char} {ts : List Token}
    (ends : Ends cs) (h : Lexes inside cs ts) :
      Lexes inside (name.chars ++ cs) (name.chars :: ts) :=
  lexes_word name.ne (List.all_eq_true.mp name.word) ends h

theorem word_of_digit {c : Char} (h : c.isDigit = true) : isWordChar c = true := by
  rw [isWordChar, Char.isAlphanum, h, Bool.or_true]
  rfl

theorem word_unsigned (n : Decimal) : ∀ d ∈ n.unsigned, isWordChar d = true := by
  have hdigits := List.all_eq_true.mp n.digits
  intro d hd
  rw [Decimal.unsigned, List.mem_append] at hd
  rcases hd with hd | hd
  · exact word_of_digit (hdigits d (List.mem_append_left _ hd))
  · split at hd
    · cases hd
    · rcases List.mem_cons.mp hd with rfl | hd
      · decide
      · exact word_of_digit (hdigits d (List.mem_append_right _ hd))

theorem unsigned_ne (n : Decimal) : n.unsigned ≠ [] := by
  intro h
  exact n.ne (List.append_eq_nil_iff.mp h).1

theorem getLast?_escape (s : List Char) : (escape s).getLast? = s.getLast? := by
  cases s using List.reverseRecOn with
  | nil => rfl
  | append_singleton s c =>
      rw [escape, List.flatMap_append, List.flatMap_singleton, List.getLast?_append]
      split <;> simp

theorem lexes_literal (inside : Bool) (v : Literal) {cs : List Char} {ts : List Token}
    (ends : Ends cs) (h : Lexes (xor inside v.confuses) cs ts) :
    Lexes inside (v.text ++ cs) (v.token inside :: ts) := by
  cases v with
  | bool b =>
      have hrest : Lexes inside cs ts := by simpa [Literal.confuses] using h
      have hword : ∀ w : List Char, w ≠ [] → w.all isWordChar = true →
          Lexes inside (w ++ cs) (w :: ts) :=
        fun w hne hw => lexes_word hne (List.all_eq_true.mp hw) ends hrest
      cases b with
      | true => exact hword "true".toList (by decide) (by decide)
      | false => exact hword "false".toList (by decide) (by decide)
  | num n =>
      have hrest : Lexes inside cs ts := by simpa [Literal.confuses] using h
      have hword := lexes_word (unsigned_ne n) (word_unsigned n) ends hrest
      show Lexes inside (n.text ++ cs) (n.unsigned :: ts)
      rw [Decimal.text]
      split
      · -- the sign is skipped
        exact .skip (by decide) (by decide) (by decide) (by decide) hword
      · exact hword
  | str s =>
      rw [Literal.confuses, ← getLast?_escape] at h
      have hshape : (Literal.str s).text ++ cs = '"' :: (escape s ++ '"' :: cs) := by
        simp [Literal.text]
      rw [hshape]
      exact .string (escaped_escape s) h

theorem word_comparator (c : Comparator) :
    c.text ≠ [] ∧ ∀ d ∈ c.text, isWordChar d = true := by
  refine ⟨by cases c <;> decide, List.all_eq_true.mp ?_⟩
  cases c <;> decide

theorem word_operator (op : LogicalOperator) :
    op.text.toList ≠ [] ∧ ∀ d ∈ op.text.toList, isWordChar d = true := by
  refine ⟨by cases op <;> decide, List.all_eq_true.mp ?_⟩
  cases op <;> decide

/-- **The text of a filter lexes to its tokens**, whatever follows it. -/
theorem lexes_filter (f : Filter) : ∀ (inside : Bool) (cs : List Char) (ts : List Token), Ends cs →
    Lexes (xor inside f.confuses) cs ts → Lexes inside (f.text ++ cs) (f.tokens inside ++ ts) := by
  induction f with
  | logical left op right ihl ihr =>
      intro inside cs ts _ h
      rw [Filter.confuses, ← Bool.xor_assoc] at h
      have hright : Lexes (xor inside left.confuses) (right.text ++ ')' :: cs)
          (right.tokens (xor inside left.confuses) ++ [')'] :: ts) :=
        ihr _ (')' :: cs) _ (ends_cons (by decide) cs) (.bracket (by decide) h)
      have hop : Lexes (xor inside left.confuses)
          (')' :: ' ' :: (op.text.toList ++ ' ' :: '(' :: (right.text ++ ')' :: cs)))
          ([')'] :: op.text.toList :: ['('] ::
            (right.tokens (xor inside left.confuses) ++ [')'] :: ts)) :=
        .bracket (by decide) (lexes_space (lexes_word (word_operator op).1 (word_operator op).2
          (ends_cons (by decide) _) (lexes_space (.bracket (by decide) hright))))
      have hleft := Lexes.bracket (c := '(') (by decide)
        (ihl inside _ _ (ends_cons (by decide) _) hop)
      simpa [Filter.text, Filter.tokens] using hleft
  | array path expr ih =>
      intro inside cs ts _ h
      have hclose : Lexes (xor inside expr.confuses) (')' :: ']' :: cs) ([')'] :: [']'] :: ts) :=
        .bracket (by decide) (.bracket (by decide) h)
      have hexpr := ih inside _ _ (ends_cons (by decide) _) hclose
      have hopen := lexes_name path (ends_cons (c := '[') (by decide) _)
        (.bracket (by decide) (.bracket (c := '(') (by decide) hexpr))
      simpa [Filter.text, Filter.tokens] using hopen
  | present path =>
      intro inside cs ts ends h
      rw [Filter.confuses, Bool.xor_false] at h
      have hpr := lexes_word (word_comparator .pr).1 (word_comparator .pr).2 ends h
      have hname := lexes_name path (ends_cons (c := ' ') (by decide) _) (lexes_space hpr)
      simpa [Filter.text, Filter.tokens] using hname
  | condition path c ne v =>
      intro inside cs ts ends h
      have hvalue := lexes_literal inside v ends h
      have hcomparator := lexes_word (word_comparator c).1 (word_comparator c).2
        (ends_cons (c := ' ') (by decide) _) (lexes_space hvalue)
      have hname := lexes_name path (ends_cons (c := ' ') (by decide) _) (lexes_space hcomparator)
      simpa [Filter.text, Filter.tokens] using hname

theorem tokenize_text (f : Filter) : tokenize f.text = f.tokens false := by
  have h := lexes_filter f false [] [] (by simp [Ends]) (.nil _)
  rw [List.append_nil, List.append_nil] at h
  exact tokenize_of_lexes h

end Scim
