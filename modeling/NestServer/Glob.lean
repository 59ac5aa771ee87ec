import Mathlib.Data.List.Infix

/-! # Glob patterns

    The patterns of a key-value store's key search: `*` for any text, `?` for any
    character, `[...]` for one of a set, and a backslash in front of a character
    that stands for itself.  A pattern is read into tokens and the tokens are
    matched.

    The rules at the end are about literals: what is escaped is matched as it is,
    and with a `*` behind it as a prefix (`matchesTokens_literal_star`). -/

namespace Glob

/-- `[...]` and `[^...]`, as ranges of characters. -/
structure CharClass where
  negated : Bool := false
  ranges  : List (Char × Char) := []
deriving DecidableEq, Repr

/-- The ends of a range may be given the wrong way round. -/
def CharClass.add (cls : CharClass) (a b : Char) : CharClass :=
  { cls with ranges := cls.ranges ++ [if b < a then (b, a) else (a, b)] }

def CharClass.accepts (cls : CharClass) (c : Char) : Bool :=
  (cls.ranges.any fun r => r.1 ≤ c && c ≤ r.2) != cls.negated

inductive Token where
  | star
  | any
  | char (c : Char)
  | oneOf (cls : CharClass)
deriving DecidableEq, Repr

def Token.accepts : Token → Char → Bool
  | .star,      _ => false
  | .any,       _ => true
  | .char c,    d => c = d
  | .oneOf cls, d => cls.accepts d

/-- The tokens of a pattern, outside of a class or inside of the one read so far; a class
    that is not closed ends with the pattern. -/
def tokens : Option CharClass → List Char → List Token
  | none, []             => []
  | none, [c]            =>
      if c = '*' then [.star] else if c = '?' then [.any]
        else if c = '[' then [.oneOf {}] else [.char c]
  | none, c :: d :: rest =>
      if c = '*' then .star :: tokens none (d :: rest)
      else if c = '?' then .any :: tokens none (d :: rest)
      else if c = '\\' then .char d :: tokens none rest
      else if c = '[' then
        if d = '^' then tokens (some { negated := true }) rest else tokens (some {}) (d :: rest)
      else .char c :: tokens none (d :: rest)
  | some cls, []         => [.oneOf cls]
  | some cls, [c]        => if c = ']' then [.oneOf cls] else [.oneOf (cls.add c c)]
  | some cls, [c, d]     =>
      if c = '\\' then [.oneOf (cls.add d d)]
      else if c = ']' then .oneOf cls :: tokens none [d]
      else tokens (some (cls.add c c)) [d]
  | some cls, c :: d :: e :: rest =>
      if c = '\\' then tokens (some (cls.add d d)) (e :: rest)
      else if c = ']' then .oneOf cls :: tokens none (d :: e :: rest)
      else if d = '-' then tokens (some (cls.add c e)) rest
      else tokens (some (cls.add c c)) (d :: e :: rest)

def matchesTokens : List Token → List Char → Bool
  | [],            s      => s.isEmpty
  | .star :: ts,   s      => s.tails.any (matchesTokens ts)
  | _ :: _,        []     => false
  | token :: ts,   c :: s => token.accepts c && matchesTokens ts s

/-- Whether a text is one the pattern stands for. -/
def accepts (pattern text : String) : Bool := matchesTokens (tokens none pattern.toList) text.toList

/-! ## Literals -/

/-- The characters that mean something outside of a class. -/
def special : List Char := ['*', '?', '[', '\\']

theorem tokens_escaped (c : Char) (rest : List Char) :
    tokens none ('\\' :: c :: rest) = .char c :: tokens none rest := by
  rw [tokens]
  rfl

theorem tokens_plain {c : Char} (h : c ∉ special) (rest : List Char) :
    tokens none (c :: rest) = .char c :: tokens none rest := by
  simp only [special, List.mem_cons, List.not_mem_nil, or_false, not_or] at h
  obtain ⟨hstar, hany, hclass, hescape⟩ := h
  cases rest with
  | nil => simp [tokens, hstar, hany, hclass]
  | cons d rest => rw [tokens, if_neg hstar, if_neg hany, if_neg hescape, if_neg hclass]

/-- A text in which at least the special characters are escaped stands for itself. -/
theorem tokens_literal {quote : Char → Bool} (hquote : ∀ c ∈ special, quote c = true)
    (s rest : List Char) :
    tokens none ((s.flatMap fun c => if quote c then ['\\', c] else [c]) ++ rest)
      = s.map .char ++ tokens none rest := by
  induction s with
  | nil => rfl
  | cons c s ih =>
      rw [List.flatMap_cons, List.append_assoc]
      by_cases hc : quote c = true
      · rw [if_pos hc, List.cons_append, List.singleton_append, tokens_escaped, ih]
        rfl
      · rw [if_neg hc, List.singleton_append, tokens_plain fun hmem => hc (hquote c hmem), ih]
        rfl

theorem matchesTokens_star (s : List Char) : matchesTokens [.star] s = true := by
  rw [matchesTokens, List.any_eq_true]
  exact ⟨[], List.mem_tails _ _ |>.mpr s.nil_suffix, rfl⟩

/-- **A literal with a star behind it** matches what starts with it. -/
theorem matchesTokens_literal_star (k s : List Char) :
    matchesTokens (k.map .char ++ [.star]) s = true ↔ k <+: s := by
  induction k generalizing s with
  | nil => exact iff_of_true (matchesTokens_star s) s.nil_prefix
  | cons c k ih =>
      cases s with
      | nil =>
          show false = true ↔ _
          simp
      | cons d s =>
          show (decide (c = d) && matchesTokens (k.map .char ++ [.star]) s) = true ↔ _
          rw [Bool.and_eq_true, decide_eq_true_eq, ih, List.cons_prefix_cons]

end Glob
