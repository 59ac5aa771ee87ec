import Mathlib.Logic.Function.Basic

/-! # Memo tables

    A table keeps the first answer given under a slot and repeats it to every
    later request of that slot; a request without a slot is always answered
    afresh.  The table cannot be told from no table exactly when the requests
    that share a slot have one answer (`answers_empty_iff`). -/

namespace Memo

/-- The answer kept under a slot, if there is one. -/
abbrev Table (κ β : Type) := κ → Option β

variable {α κ β : Type} [DecidableEq κ] (slot : α → Option κ) (f : α → β)

/-- One request: its answer, and the table after it. -/
def ask (t : Table κ β) (a : α) : β × Table κ β :=
  match slot a with
  | none   => (f a, t)
  | some k => match t k with
      | some v => (v, t)
      | none   => (f a, Function.update t k (some (f a)))

/-- The answers to one request after the other. -/
def answers : Table κ β → List α → List β
  | _, []      => []
  | t, a :: as => (ask slot f t a).1 :: answers (ask slot f t a).2 as

/-- A table that a request may be put to: what it keeps is the answer. -/
def Agrees (t : Table κ β) (a : α) : Prop := ∀ k, slot a = some k → ∀ v, t k = some v → v = f a

/-- Two requests that share a slot have one answer. -/
def Compatible (a b : α) : Prop := ∀ k, slot a = some k → slot b = some k → f a = f b

variable {slot f} {t : Table κ β} {a b : α} {k : κ} {v : β}

theorem ask_unslotted (hs : slot a = none) : ask slot f t a = (f a, t) := by
  rw [ask, hs]

theorem ask_kept (hs : slot a = some k) (hk : t k = some v) : ask slot f t a = (v, t) := by
  rw [ask, hs]
  show (match t k with
    | some v => (v, t)
    | none   => (f a, Function.update t k (some (f a)))) = _
  rw [hk]

theorem ask_new (hs : slot a = some k) (hk : t k = none) :
    ask slot f t a = (f a, Function.update t k (some (f a))) := by
  rw [ask, hs]
  show (match t k with
    | some v => (v, t)
    | none   => (f a, Function.update t k (some (f a)))) = _
  rw [hk]

/-- A new entry agrees with the requests it is compatible with. -/
theorem agrees_update_iff (hs : slot a = some k) (hk : t k = none) :
    Agrees slot f (Function.update t k (some (f a))) b ↔ Agrees slot f t b ∧
      Compatible slot f a b := by
  constructor
  · intro h
    refine ⟨?_, ?_⟩
    · intro k' hb v hv
      refine h k' hb v ?_
      rw [Function.update_of_ne]
      · exact hv
      · rintro rfl
        rw [hk] at hv
        cases hv
    · intro k' ha hb
      rw [hs] at ha
      cases ha
      exact h k hb (f a) (Function.update_self ..)
  · rintro ⟨hold, hnew⟩ k' hb v hv
    by_cases hk' : k' = k
    · subst hk'
      rw [Function.update_self] at hv
      cases hv
      exact hnew k' hs hb
    · rw [Function.update_of_ne hk'] at hv
      exact hold k' hb v hv

/-- **A table is transparent** to requests exactly when it agrees with each of
    them and they are compatible with one another. -/
theorem answers_iff (t : Table κ β) (as : List α) :
    answers slot f t as = as.map f
      ↔ (∀ a ∈ as, Agrees slot f t a) ∧ as.Pairwise (Compatible slot f) := by
  induction as generalizing t with
  | nil => exact iff_of_true rfl ⟨fun _ h => absurd h List.not_mem_nil, List.Pairwise.nil⟩
  | cons a as ih =>
      rw [answers, List.map_cons, List.cons.injEq, ih, List.forall_mem_cons, List.pairwise_cons]
      cases hs : slot a with
      | none =>
          have hagrees : Agrees slot f t a := by
            intro k hk
            rw [hs] at hk
            cases hk
          have hcompatible : ∀ b ∈ as, Compatible slot f a b := by
            intro b _ k hk
            rw [hs] at hk
            cases hk
          rw [ask_unslotted hs]
          simp only [hagrees, true_and]
          exact and_congr_right fun _ => (and_iff_right hcompatible).symm
      | some k =>
          cases hk : t k with
          | some v =>
              rw [ask_kept hs hk]
              have hself : v = f a ↔ Agrees slot f t a := by
                constructor
                · intro hv k' hk' v' hv'
                  rw [hs] at hk'
                  cases hk'
                  rw [hk] at hv'
                  cases hv'
                  exact hv
                · intro h
                  exact h k hs v hk
              constructor
              · rintro ⟨hv, hrest, hpairs⟩
                refine ⟨⟨hself.mp hv, hrest⟩, ?_, hpairs⟩
                -- the kept answer is that of both requests
                intro b hb k' ha hb'
                rw [hs] at ha
                cases ha
                exact hv.symm.trans (hrest b hb k hb' v hk)
              · rintro ⟨⟨hv, hrest⟩, -, hpairs⟩
                exact ⟨hself.mpr hv, hrest, hpairs⟩
          | none =>
              rw [ask_new hs hk]
              have hagrees : Agrees slot f t a := by
                intro k' hk' v hv
                rw [hs] at hk'
                cases hk'
                rw [hk] at hv
                cases hv
              simp only [agrees_update_iff hs hk, hagrees, true_and]
              constructor
              · rintro ⟨hrest, hpairs⟩
                exact ⟨fun b hb => (hrest b hb).1, fun b hb => (hrest b hb).2, hpairs⟩
              · rintro ⟨hrest, hfirst, hpairs⟩
                exact ⟨fun b hb => ⟨hrest b hb, hfirst b hb⟩, hpairs⟩

/-- From the empty table the requests alone decide. -/
theorem answers_empty_iff (as : List α) :
    answers slot f (fun _ => none) as = as.map f ↔ as.Pairwise (Compatible slot f) := by
  rw [answers_iff]
  exact and_iff_right fun a _ k _ v hv => nomatch hv

end Memo
