import NestServer.Interleaving

/-! # When a thread was told

    What a thread has been told was true when it was told: there is a state of the run in
    which the thread waited for the answer, and in which the store gives this answer. -/

namespace Interleaving

open Dialogue

variable {σ ρ ε ω Q α : Type} {A : Q → Type} {S : System σ ρ ε ω Q A α} {s t : State σ ρ Q A α}

theorem Reachable.refl (s : State σ ρ Q A α) : Reachable S s s := ⟨[], rfl⟩

theorem run_concat {events : List (Event ρ ε ω)} {e : Event ρ ε ω} {u : State σ ρ Q A α}
    (h : Runs.run (step S) s events = some t) (hstep : step S t e = some u) :
    Runs.run (step S) s (events ++ [e]) = some u := by
  induction events generalizing s with
  | nil =>
      obtain rfl := Option.some.inj h
      rw [List.nil_append, Runs.run_cons, hstep]
      rfl
  | cons e' events ih =>
      obtain ⟨s', hfirst, hrest⟩ := Runs.run_cons_some (step S) h
      rw [List.cons_append, Runs.run_cons, hfirst]
      exact ih hrest

/-- Threads that keep to a law of their own keep to it all along a run. -/
theorem allLawful_reachable {L : Law ρ Q A α}
    (hlaw : ∀ r, wp (L.asks r) (L.fails r) (S.program r) (L.result r) []) (hs : AllLawful L s)
    (hreach : Reachable S s t) : AllLawful L t := by
  obtain ⟨events, hrun⟩ := hreach
  exact Runs.run_invariant_all (step S) (fun _ _ _ hs hstep => allLawful_step hlaw hs hstep) hs hrun

/-- One more step. -/
theorem Reachable.step {e : Event ρ ε ω} {u : State σ ρ Q A α} (h : Reachable S s t)
    (hstep : Interleaving.step S t e = some u) : Reachable S s u := by
  obtain ⟨events, hrun⟩ := h
  exact ⟨events ++ [e], run_concat hrun hstep⟩

variable (S) in
/-- A state of the run from `s` to `t` in which the thread at an index waits for an answer. -/
structure Waits (s t : State σ ρ Q A α) (i : Nat) (q : Q) (m : State σ ρ Q A α) : Prop where
  before : Reachable S s m
  after  : Reachable S m t
  thread : ∃ τ next, m.threads[i]? = some τ ∧ τ.program = .ask q next

theorem Waits.step {i : Nat} {q : Q} {m u : State σ ρ Q A α} {e : Event ρ ε ω}
    (h : Waits S s t i q m) (hstep : Interleaving.step S t e = some u) : Waits S s u i q m :=
  ⟨h.before, h.after.step hstep, h.thread⟩

variable (S) in
/-- What the thread has been told was true when it waited for it. -/
def Told (s t : State σ ρ Q A α) (i : Nat) (x : Exchange Q A) : Prop :=
  ∃ m, Waits S s t i x.1 m ∧ ∃ choice store, S.exec m.store choice x.1 = some (x.2, store)

/-- **All that a thread has been told was true when it was told**, if the run begins without
    threads. -/
theorem told_of_said (hs : s.threads = []) (hreach : Reachable S s t) {i : Nat}
    {τ : Thread ρ Q A α} (hτ : t.threads[i]? = some τ) {x : Exchange Q A} (hx : x ∈ τ.said) :
    Told S s t i x := by
  obtain ⟨events, hrun⟩ := hreach
  have h : Reachable S s t ∧ ∀ (i : Nat) (τ : Thread ρ Q A α), t.threads[i]? = some τ →
      ∀ x ∈ τ.said, Told S s t i x := by
    refine Runs.run_invariant_all (Interleaving.step S) (P := fun t => Reachable S s t ∧
      ∀ (i : Nat) (τ : Thread ρ Q A α), t.threads[i]? = some τ → ∀ x ∈ τ.said, Told S s t i x)
      ?_ ⟨.refl s, ?_⟩ hrun
    · rintro t e u ⟨hreach, htold⟩ hstep
      refine ⟨hreach.step hstep, fun i τ hτ x hx => ?_⟩
      -- what was told before stays told
      have hkept : ∀ (τ : Thread ρ Q A α), t.threads[i]? = some τ → x ∈ τ.said →
          Told S s u i x := by
        intro τ hτ hx
        obtain ⟨m, hwaits, hanswer⟩ := htold i τ hτ x hx
        exact ⟨m, hwaits.step hstep, hanswer⟩
      rcases step_cases hstep with ⟨r, rfl, rfl⟩ |
        ⟨j, choice, τ', q, next, a, store, rfl, hτ', hprogram, hexec, rfl⟩ | ⟨_, _, rfl, _, rfl⟩
      · rcases Runs.getElem?_append_cases hτ with hold | ⟨-, rfl⟩
        · exact hkept τ hold hx
        · cases hx
      · rcases Runs.getElem?_set_cases hτ with ⟨rfl, rfl⟩ | ⟨-, hold⟩
        · rcases List.mem_append.mp hx with hx | hx
          · exact hkept τ' hτ' hx
          · rw [List.mem_singleton.mp hx]
            have hlast := (Reachable.refl (S := S) t).step hstep
            exact ⟨t, ⟨hreach, hlast, τ', next, hτ', hprogram⟩, choice, store, hexec⟩
        · exact hkept τ hold hx
      · exact hkept τ hτ hx
    · intro i τ hτ
      rw [hs] at hτ
      cases hτ
  exact h.2 i τ hτ x hx

end Interleaving
