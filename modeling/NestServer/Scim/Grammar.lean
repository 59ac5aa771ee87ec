import NestServer.Fallible
import NestServer.Scim.Parser

/-! # The grammar of the SCIM parser

    `Reads` derives the node that a token list begins with and the tokens after
    it, for any lexical conditions on names and operands.  The parser does what
    the grammar without such conditions says: `reads_of_parse` and
    `parse_of_reads`. -/

namespace Scim

/-- What is being read: a whole expression, one term, or the rest of an
    expression after the node on the left. -/
inductive Level where
  | expression
  | term
  | loop (left : ScimNode)

/-- The loop goes on only at a logical operator. -/
def Stops (ts : List Token) : Prop := ∀ t ∈ ts.head?, logicalOperator? t = none

inductive Reads (Name Operand : Token → Prop) :
    Level → List Token → ScimNode → List Token → Prop where
  | expression {ts ts' rest : List Token} {left node : ScimNode}
      (term : Reads Name Operand .term ts left ts')
      (loop : Reads Name Operand (.loop left) ts' node rest) :
      Reads Name Operand .expression ts node rest
  | stop {ts : List Token} {left : ScimNode} (stops : Stops ts) :
      Reads Name Operand (.loop left) ts left ts
  | more {t : Token} {ts ts' rest : List Token} {left right node : ScimNode}
      {op : LogicalOperator} (operator : logicalOperator? t = some op)
      (term : Reads Name Operand .term ts right ts')
      (loop : Reads Name Operand (.loop (.logical left op right)) ts' node rest) :
      Reads Name Operand (.loop left) (t :: ts) node rest
  | group {ts rest : List Token} {node : ScimNode}
      (inner : Reads Name Operand .expression ts node ([')'] :: rest)) :
      Reads Name Operand .term (['('] :: ts) node rest
  | array {path : Token} {ts rest : List Token} {expr : ScimNode} (name : Name path)
      (ne : path ≠ ['('])
      (inner : Reads Name Operand .expression ts expr ([']'] :: rest)) :
      Reads Name Operand .term (path :: ['['] :: ts) (.array path expr) rest
  | present {attr op : Token} {rest : List Token} (name : Name attr) (ne : attr ≠ ['('])
      (comparator : comparator? op = some .pr) :
      Reads Name Operand .term (attr :: op :: rest) (.condition attr .pr .null) rest
  | condition {attr op rawValue : Token} {rest : List Token} {c : Comparator} (name : Name attr)
      (ne : attr ≠ ['(']) (comparator : comparator? op = some c) (hc : c ≠ .pr)
      (operand : Operand rawValue) :
      Reads Name Operand .term (attr :: op :: rawValue :: rest)
        (.condition attr c (readValue rawValue)) rest

/-- Any token is taken as a name or an operand. -/
def AnyToken (_ : Token) : Prop := True

namespace Reads

variable {Name Operand : Token → Prop}

theorem mono {Name' Operand' : Token → Prop} (hn : ∀ t, Name t → Name' t)
    (ho : ∀ t, Operand t → Operand' t) {l : Level} {ts rest : List Token} {node : ScimNode}
    (h : Reads Name Operand l ts node rest) : Reads Name' Operand' l ts node rest := by
  induction h with
  | expression _ _ iht ihl => exact .expression iht ihl
  | stop stops => exact .stop stops
  | more operator _ _ iht ihl => exact .more operator iht ihl
  | group _ ih => exact .group ih
  | array name ne _ ih => exact .array (hn _ name) ne ih
  | present name ne comparator => exact .present (hn _ name) ne comparator
  | condition name ne comparator hc operand =>
      exact .condition (hn _ name) ne comparator hc (ho _ operand)

/-- What is left is shorter, except after an empty loop. -/
theorem length_le {l : Level} {ts rest : List Token} {node : ScimNode}
    (h : Reads Name Operand l ts node rest) :
    rest.length ≤ ts.length ∧ (l = .term → rest.length < ts.length) := by
  induction h with
  | expression _ _ iht ihl =>
      have ht := iht.2 rfl
      have hl := ihl.1
      exact ⟨by omega, by simp⟩
  | stop _ => exact ⟨Nat.le_refl _, by simp⟩
  | more _ _ _ iht ihl =>
      have ht := iht.2 rfl
      have hl := ihl.1
      simp only [List.length_cons]
      exact ⟨by omega, by simp⟩
  | group _ ih =>
      have hi := ih.1
      simp only [List.length_cons] at hi ⊢
      exact ⟨by omega, fun _ => by omega⟩
  | array _ _ _ ih =>
      have hi := ih.1
      simp only [List.length_cons] at hi ⊢
      exact ⟨by omega, fun _ => by omega⟩
  | present => simp only [List.length_cons]; exact ⟨by omega, fun _ => by omega⟩
  | condition => simp only [List.length_cons]; exact ⟨by omega, fun _ => by omega⟩

end Reads

/-! ## The parser -/

section Parser

variable (total : Nat)

def parseAt (n : Nat) : Level → List Token → Except ScimError (ScimNode × List Token)
  | .expression, ts => parseExpression total n ts
  | .term,       ts => parseTerm total n ts
  | .loop left,  ts => parseLoop total n left ts

theorem close_eq_ok {c : Char} {node node' : ScimNode} {ts rest : List Token}
    (h : close total c node ts = .ok (node', rest)) : ts = [c] :: rest ∧ node' = node := by
  cases ts with
  | nil => cases h
  | cons t ts =>
      rw [close] at h
      split at h
      · next ht =>
          cases h
          exact ⟨by rw [ht], rfl⟩
      · cases h

theorem reads_of_parseCondition {ts rest : List Token} {node : ScimNode}
    (hhead : ts.head? ≠ some ['(']) (h : parseCondition total ts = .ok (node, rest)) :
    Reads AnyToken AnyToken .term ts node rest := by
  match ts with
  | [] => cases h
  | [_] => cases h
  | attr :: op :: ts =>
      have hne : attr ≠ ['('] := by
        rintro rfl
        exact hhead rfl
      rw [parseCondition] at h
      cases hc : comparator? op with
      | none =>
          rw [hc] at h
          cases h
      | some c =>
          rw [hc] at h
          by_cases hpr : c = .pr
          · subst hpr
            cases h
            exact .present trivial hne hc
          · cases ts with
            | nil => cases c <;> first | exact absurd rfl hpr | cases h
            | cons rawValue ts =>
                have hok : (node, rest) = (.condition attr c (readValue rawValue), ts) := by
                  cases c <;> first | exact absurd rfl hpr | exact (Except.ok.inj h).symm
                cases hok
                exact .condition trivial hne hc hpr trivial

/-- **Soundness.** What the parser returns, the grammar derives. -/
theorem reads_of_parse : ∀ (n : Nat) (l : Level) (ts : List Token) (node : ScimNode)
    (rest : List Token), parseAt total n l ts = .ok (node, rest) →
      Reads AnyToken AnyToken l ts node rest := by
  intro n
  induction n with
  | zero =>
      intro l ts node rest h
      cases l <;> cases h
  | succ n ih =>
      intro l ts node rest h
      cases l with
      | expression =>
          obtain ⟨p, hterm, hloop⟩ := Fallible.bind_eq_ok.mp h
          exact .expression (ih .term ts p.1 p.2 hterm) (ih (.loop p.1) p.2 node rest hloop)
      | term =>
          rw [parseAt, parseTerm] at h
          by_cases hgroup : ts.head? = some ['(']
          · rw [if_pos hgroup] at h
            obtain ⟨p, hexpr, hclose⟩ := Fallible.bind_eq_ok.mp h
            obtain ⟨hrest, rfl⟩ := close_eq_ok total hclose
            cases ts with
            | nil => cases hgroup
            | cons t ts =>
                cases hgroup
                exact .group (hrest ▸ ih .expression ts p.1 p.2 hexpr)
          · rw [if_neg hgroup] at h
            by_cases harray : ts.tail.head? = some ['[']
            · rw [if_pos harray] at h
              obtain ⟨p, hexpr, hclose⟩ := Fallible.bind_eq_ok.mp h
              obtain ⟨hrest, rfl⟩ := close_eq_ok total hclose
              match ts with
              | [] => cases harray
              | [_] => cases harray
              | path :: t :: ts =>
                  cases harray
                  refine .array trivial ?_ (hrest ▸ ih .expression ts p.1 p.2 hexpr)
                  rintro rfl
                  exact hgroup rfl
            · rw [if_neg harray] at h
              exact reads_of_parseCondition total hgroup h
      | loop left =>
          cases ts with
          | nil =>
              cases h
              exact .stop (by simp [Stops])
          | cons t ts =>
              rw [parseAt, parseLoop] at h
              cases hop : logicalOperator? t with
              | none =>
                  rw [hop] at h
                  cases h
                  exact .stop (by simpa [Stops] using hop)
              | some op =>
                  rw [hop] at h
                  obtain ⟨p, hterm, hloop⟩ := Fallible.bind_eq_ok.mp h
                  exact .more hop (ih .term ts p.1 p.2 hterm) (ih (.loop _) p.2 node rest hloop)

/-- The fuel that a token list needs. -/
def fuelFor (l : Level) (ts : List Token) : Nat :=
  match l with
  | .expression => 2 * ts.length + 2
  | _           => 2 * ts.length + 1

theorem comparator_ne_bracket {op : Token} {c : Comparator} (h : comparator? op = some c) :
    op ≠ ['['] := by
  rintro rfl
  have hnone : comparator? ['['] = none := by decide
  rw [hnone] at h
  cases h

/-- **Completeness.** What the grammar derives, the parser returns. -/
theorem parse_of_reads {Name Operand : Token → Prop} {l : Level} {ts rest : List Token}
    {node : ScimNode} (h : Reads Name Operand l ts node rest) :
    ∀ n, fuelFor l ts ≤ n → parseAt total n l ts = .ok (node, rest) := by
  induction h with
  | @expression ts ts' rest left node term loop iht ihl =>
      intro n hn
      have hlen := term.length_le.2 rfl
      simp only [fuelFor] at hn iht ihl
      obtain ⟨m, rfl⟩ : ∃ m, n = m + 1 := ⟨n - 1, by omega⟩
      show (parseTerm total m ts >>= fun p => parseLoop total m p.1 p.2) = _
      rw [show parseTerm total m ts = .ok (left, ts') from iht m (by omega)]
      exact ihl m (by omega)
  | @stop ts left stops =>
      intro n hn
      simp only [fuelFor] at hn
      obtain ⟨m, rfl⟩ : ∃ m, n = m + 1 := ⟨n - 1, by omega⟩
      cases ts with
      | nil => rfl
      | cons t ts =>
          rw [parseAt, parseLoop, stops t rfl]
  | @more t ts ts' rest left right node op operator term loop iht ihl =>
      intro n hn
      have hlen := term.length_le.2 rfl
      simp only [fuelFor, List.length_cons] at hn iht ihl
      obtain ⟨m, rfl⟩ : ∃ m, n = m + 1 := ⟨n - 1, by omega⟩
      rw [parseAt, parseLoop, operator]
      show (parseTerm total m ts >>= fun p =>
        parseLoop total m (.logical left op p.1) p.2) = _
      rw [show parseTerm total m ts = .ok (right, ts') from iht m (by omega)]
      exact ihl m (by omega)
  | @group ts rest node inner ih =>
      intro n hn
      simp only [fuelFor, List.length_cons] at hn ih
      obtain ⟨m, rfl⟩ : ∃ m, n = m + 1 := ⟨n - 1, by omega⟩
      rw [parseAt, parseTerm, if_pos (show (['('] :: ts).head? = some ['('] from rfl)]
      show (parseExpression total m ts >>= fun p => close total ')' p.1 p.2) = _
      rw [show parseExpression total m ts = .ok (node, [')'] :: rest) from ih m (by omega)]
      rfl
  | @array path ts rest expr name ne inner ih =>
      intro n hn
      simp only [fuelFor, List.length_cons] at hn ih
      obtain ⟨m, rfl⟩ : ∃ m, n = m + 1 := ⟨n - 1, by omega⟩
      rw [parseAt, parseTerm, if_neg (by simpa using ne),
        if_pos (show (path :: ['['] :: ts).tail.head? = some ['['] from rfl)]
      show (parseExpression total m ts >>= fun p => close total ']' (.array path p.1) p.2) = _
      rw [show parseExpression total m ts = .ok (expr, [']'] :: rest) from ih m (by omega)]
      rfl
  | @present attr op rest name ne comparator =>
      intro n hn
      obtain ⟨m, rfl⟩ : ∃ m, n = m + 1 := ⟨n - 1, by simp only [fuelFor] at hn; omega⟩
      rw [parseAt, parseTerm, if_neg (by simpa using ne),
        if_neg (by simpa using comparator_ne_bracket comparator), parseCondition, comparator]
  | @condition attr op rawValue rest c name ne comparator hc operand =>
      intro n hn
      obtain ⟨m, rfl⟩ : ∃ m, n = m + 1 := ⟨n - 1, by simp only [fuelFor] at hn; omega⟩
      rw [parseAt, parseTerm, if_neg (by simpa using ne),
        if_neg (by simpa using comparator_ne_bracket comparator), parseCondition, comparator]
      cases c <;> first | exact absurd rfl hc | rfl

theorem parseCondition_ne_outOfFuel (ts : List Token) :
    parseCondition total ts ≠ .error .outOfFuel := by
  intro h
  match ts with
  | [] => cases h
  | [_] => cases h
  | attr :: op :: ts =>
      rw [parseCondition] at h
      cases hc : comparator? op with
      | none =>
          rw [hc] at h
          cases h
      | some c =>
          rw [hc] at h
          cases c <;> cases ts <;> cases h

theorem close_ne_outOfFuel (c : Char) (node : ScimNode) (ts : List Token) :
    close total c node ts ≠ .error .outOfFuel := by
  intro h
  cases ts with
  | nil => cases h
  | cons t ts =>
      rw [close] at h
      split at h <;> cases h

theorem bind_ne_outOfFuel {α β : Type} {x : Except ScimError α} {f : α → Except ScimError β}
    (hx : x ≠ .error .outOfFuel) (hf : ∀ a, x = .ok a → f a ≠ .error .outOfFuel) :
    (x >>= f) ≠ .error .outOfFuel := by
  cases x with
  | error e =>
      intro h
      cases h
      exact hx rfl
  | ok a => exact hf a rfl

theorem parseAt_ne_outOfFuel : ∀ (n : Nat) (l : Level) (ts : List Token), fuelFor l ts ≤ n →
    parseAt total n l ts ≠ .error .outOfFuel := by
  intro n
  induction n with
  | zero =>
      intro l ts hn
      cases l <;> simp [fuelFor] at hn
  | succ n ih =>
      -- what is left after a term needs less fuel than the term itself
      have hafter : ∀ {ts : List Token} {p : ScimNode × List Token},
          parseTerm total n ts = .ok p → p.2.length < ts.length := by
        intro ts p hp
        exact (reads_of_parse total n .term ts p.1 p.2 hp).length_le.2 rfl
      intro l ts hn
      cases l with
      | expression =>
          simp only [fuelFor] at hn ih
          refine bind_ne_outOfFuel (ih .term ts (by dsimp only; omega)) ?_
          intro p hp
          have hlt := hafter hp
          exact ih (.loop p.1) p.2 (by dsimp only; omega)
      | term =>
          simp only [fuelFor] at hn ih
          rw [parseAt, parseTerm]
          have htail : ts.tail.length = ts.length - 1 := List.length_tail
          have htail' : ts.tail.tail.length = ts.length - 1 - 1 := by
            rw [List.length_tail, List.length_tail]
          by_cases hgroup : ts.head? = some ['(']
          · rw [if_pos hgroup]
            have hpos : 0 < ts.length := by cases ts <;> simp at hgroup ⊢
            refine bind_ne_outOfFuel (ih .expression ts.tail (by dsimp only; omega)) ?_
            exact fun p _ => close_ne_outOfFuel total ')' p.1 p.2
          · rw [if_neg hgroup]
            by_cases harray : ts.tail.head? = some ['[']
            · rw [if_pos harray]
              have hpos : 0 < ts.tail.length := by cases h : ts.tail <;> simp [h] at harray ⊢
              refine bind_ne_outOfFuel (ih .expression ts.tail.tail (by dsimp only; omega)) ?_
              exact fun p _ => close_ne_outOfFuel total ']' _ p.2
            · rw [if_neg harray]
              exact parseCondition_ne_outOfFuel total ts
      | loop left =>
          cases ts with
          | nil => simp [parseAt, parseLoop]
          | cons t ts =>
              simp only [fuelFor, List.length_cons] at hn ih
              rw [parseAt, parseLoop]
              cases hop : logicalOperator? t with
              | none => simp
              | some op =>
                  refine bind_ne_outOfFuel (ih .term ts (by dsimp only; omega)) ?_
                  intro p hp
                  have hlt := hafter hp
                  exact ih (.loop _) p.2 (by dsimp only; omega)

/-- A token list is read in one way only. -/
theorem Reads.unique {Name Operand Name' Operand' : Token → Prop} {l : Level}
    {ts rest rest' : List Token} {node node' : ScimNode} (h : Reads Name Operand l ts node rest)
    (h' : Reads Name' Operand' l ts node' rest') : node = node' ∧ rest = rest' := by
  have heq := (parse_of_reads 0 h _ (Nat.le_refl _)).symm.trans
    (parse_of_reads 0 h' _ (Nat.le_refl _))
  cases heq
  exact ⟨rfl, rfl⟩

end Parser

/-- The parser accepts exactly the token lists that begin with an expression. -/
theorem parseTokens_eq_ok {ts : List Token} {node : ScimNode} :
    parseTokens ts = .ok node ↔ ∃ rest, Reads AnyToken AnyToken .expression ts node rest := by
  have hparse : ∀ x : Except ScimError (ScimNode × List Token),
      (do let p ← x; return p.1 : Except ScimError ScimNode) = .ok node ↔
        ∃ rest, x = .ok (node, rest) := by
    intro x
    cases x with
    | error e =>
        constructor
        · intro h
          cases h
        · rintro ⟨_, h⟩
          cases h
    | ok p =>
        obtain ⟨m, r⟩ := p
        constructor
        · intro h
          cases h
          exact ⟨r, rfl⟩
        · rintro ⟨rest, h⟩
          cases h
          rfl
  refine (hparse _).trans ⟨?_, ?_⟩
  · rintro ⟨rest, h⟩
    exact ⟨rest, reads_of_parse ts.length (2 * ts.length + 3) .expression ts node rest h⟩
  · rintro ⟨rest, h⟩
    exact ⟨rest, parse_of_reads ts.length h (2 * ts.length + 3) (by simp only [fuelFor]; omega)⟩

/-- The fuel of `parseTokens` is enough for every token list. -/
theorem parse_ne_outOfFuel (ts : List Token) : parseTokens ts ≠ .error .outOfFuel := by
  refine bind_ne_outOfFuel (parseAt_ne_outOfFuel ts.length (2 * ts.length + 3) .expression ts ?_) ?_
  · simp only [fuelFor]
    omega
  · intro p _ h
    cases h

end Scim
