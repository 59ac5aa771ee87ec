import Mathlib.Data.List.DropRight

/-! # The SCIM tokenizer

    Brackets are spaced out unless they are inside quotes, whitespace is
    normalised, and the tokens are what the token expression then finds: a
    bracket, an identifier or a quoted string.  Characters between two matches
    are skipped. -/

namespace Scim

abbrev Token := List Char

def isBracket (c : Char) : Bool := c = '(' || c = ')' || c = '[' || c = ']'

/-- `[a-zA-Z0-9_.]` -/
def isWordChar (c : Char) : Bool := c.isAlphanum || c = '_' || c = '.'

/-- `\s` -/
def isSpace (c : Char) : Bool :=
  let n := c.toNat
  (9 ≤ n && n ≤ 13) || n = 32 || n = 0xa0 || n = 0x1680 || (0x2000 ≤ n && n ≤ 0x200a) ||
    n = 0x2028 || n = 0x2029 || n = 0x202f || n = 0x205f || n = 0x3000 || n = 0xfeff

/-- The loop of `tokenize`, with the character before and `insideQuotes`. -/
def spaceBrackets : Option Char → Bool → List Char → List Char
  | _,    _,      []      => []
  | prev, inside, c :: cs =>
      if c = '"' ∧ prev ≠ some '\\' then c :: spaceBrackets (some c) (!inside) cs
      else if !inside && isBracket c then
        ' ' :: c :: ' ' :: spaceBrackets (some c) inside cs
      else c :: spaceBrackets (some c) inside cs

/-- `.replace(/\s+/g, ' ')` -/
def collapse : List Char → List Char
  | []      => []
  | c :: cs =>
      if isSpace c then
        if cs.head?.any isSpace then collapse cs else ' ' :: collapse cs
      else c :: collapse cs

/-- `.trim()` -/
def trim (cs : List Char) : List Char := (cs.dropWhile isSpace).rdropWhile isSpace

/-- What a string has after its opening quote, up to the closing one, and the
    text after it.  A backslash takes the next character with it. -/
def matchString : List Char → Option (List Char × List Char)
  | []             => none
  | ['\\']         => none
  | '\\' :: c :: cs => (matchString cs).map fun p => ('\\' :: c :: p.1, p.2)
  | c :: cs        =>
      if c = '"' then some (['"'], cs) else (matchString cs).map fun p => (c :: p.1, p.2)

/-- The successive matches of the token expression; every step shortens the
    text. -/
def matchTokens : Nat → List Char → List Token
  | 0,     _       => []
  | _ + 1, []      => []
  | n + 1, c :: cs =>
      if isBracket c then [c] :: matchTokens n cs
      else if isWordChar c then
        (c :: cs.takeWhile isWordChar) :: matchTokens n (cs.dropWhile isWordChar)
      else if c = '"' then
        match matchString cs with
        | some (content, rest) => ('"' :: content) :: matchTokens n rest
        | none                 => matchTokens n cs
      else matchTokens n cs

def normalize (input : List Char) : List Char := trim (collapse (spaceBrackets none false input))

def tokenize (input : List Char) : List Token :=
  matchTokens (normalize input).length (normalize input)

/-! ## Characters -/

theorem isSpace_quote : isSpace '"' = false := by decide

theorem isSpace_backslash : isSpace '\\' = false := by decide

theorem isBracket_cases {c : Char} (h : isBracket c = true) :
    c = '(' ∨ c = ')' ∨ c = '[' ∨ c = ']' := by
  simpa [isBracket, or_assoc] using h

theorem isSpace_of_isBracket {c : Char} (h : isBracket c = true) : isSpace c = false := by
  rcases isBracket_cases h with rfl | rfl | rfl | rfl <;> decide

theorem isSpace_of_isWordChar {c : Char} (h : isWordChar c = true) : isSpace c = false := by
  have hcode : ∀ n : Nat, n < 128 → isWordChar (Char.ofNat n) = true →
      isSpace (Char.ofNat n) = false := by decide
  have hlt : c.toNat < 128 := by
    have h' : ((((decide (c.val ≥ 65 ∧ c.val ≤ 90)) ||
        (decide (c.val ≥ 97) && decide (c.val ≤ 122))) ||
        (decide (c.val ≥ 48) && decide (c.val ≤ 57))) || decide (c = '_') || decide (c = '.')) =
          true :=
      h
    simp only [Bool.or_eq_true, Bool.and_eq_true, decide_eq_true_eq] at h'
    rcases h' with (((⟨_, h⟩ | ⟨_, h⟩) | ⟨_, h⟩) | rfl) | rfl
    · have := UInt32.le_iff_toNat_le.mp h
      show c.val.toNat < 128
      exact Nat.lt_of_le_of_lt this (by decide)
    · have := UInt32.le_iff_toNat_le.mp h
      show c.val.toNat < 128
      exact Nat.lt_of_le_of_lt this (by decide)
    · have := UInt32.le_iff_toNat_le.mp h
      show c.val.toNat < 128
      exact Nat.lt_of_le_of_lt this (by decide)
    · decide
    · decide
  have hc : Char.ofNat c.toNat = c := Char.ofNat_toNat c
  have hres := hcode c.toNat hlt
  rw [hc] at hres
  exact hres h

theorem ne_quote_of_isSpace {c : Char} (h : isSpace c = true) : c ≠ '"' ∧ c ≠ '\\' := by
  constructor
  · rintro rfl
    rw [isSpace_quote] at h
    cases h
  · rintro rfl
    rw [isSpace_backslash] at h
    cases h

theorem word_ne_quote {c : Char} (h : isWordChar c = true) : c ≠ '"' := by
  rintro rfl
  exact absurd h (by decide)

/-- Trimming takes whitespace away at both ends. -/
theorem trim_spec (cs : List Char) : ∃ w w', (∀ c ∈ w, isSpace c = true) ∧
    (∀ c ∈ w', isSpace c = true) ∧ cs = w ++ (trim cs ++ w') := by
  refine ⟨cs.takeWhile isSpace, (cs.dropWhile isSpace).rtakeWhile isSpace, ?_, ?_, ?_⟩
  · intro c hc
    exact List.mem_takeWhile_imp hc
  · intro c hc
    exact List.mem_rtakeWhile_imp hc
  · rw [trim, List.rdropWhile_append_rtakeWhile, List.takeWhile_append_dropWhile]

end Scim
