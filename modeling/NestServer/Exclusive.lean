import NestServer.Interleaving

/-! # One thread at a time

    Some requests are exclusive: none of them comes while another one is under way.  The
    other threads go on between any two of its steps, but they keep to a relation between
    the store before and after a step, on which the exclusive thread relies.

    * `Secure` says that a program keeps a property of the store, whatever happens
      between its steps under the relation;
    * `always_alone` is the rule: what the exclusive programs keep if they are alone, and
      the steps of the others, all keep in every run. -/

namespace Interleaving

open Dialogue

variable {σ ρ ε ω Q α β γ : Type} {A : Q → Type}

/-- The thread has more to ask. -/
def Thread.working (τ : Thread ρ Q A α) : Bool :=
  match τ.program with
  | .ask _ _ => true
  | _        => false

def Event.isCallOf (exclusive : ρ → Bool) : Event ρ ε ω → Bool
  | .call r => exclusive r
  | _       => false

section Alone

variable (S : System σ ρ ε ω Q A α) (exclusive : ρ → Bool)

def Thread.inTheWay (τ : Thread ρ Q A α) : Bool := exclusive τ.request && τ.working

def stepAlone (s : State σ ρ Q A α) (e : Event ρ ε ω) : Option (State σ ρ Q A α) :=
  if e.isCallOf exclusive && s.threads.any (Thread.inTheWay exclusive) then none else step S s e

variable {S exclusive}

theorem step_of_stepAlone {s t : State σ ρ Q A α} {e : Event ρ ε ω}
    (h : stepAlone S exclusive s e = some t) :
    step S s e = some t ∧ (e.isCallOf exclusive = true →
      ∀ τ ∈ s.threads, τ.inTheWay exclusive = false) := by
  rw [stepAlone] at h
  split at h
  · cases h
  · rename_i hfree
    refine ⟨h, ?_⟩
    intro hcall τ hτ
    cases hway : τ.inTheWay exclusive with
    | false => rfl
    | true => exact absurd (by rw [hcall, List.any_eq_true.mpr ⟨τ, hτ, hway⟩, Bool.and_self]) hfree

/-! ## What a program keeps -/

variable (S) (R : σ → σ → Prop) (I : σ → Prop)

/-- From here on, with any steps under `R` before each of its own, the store has `I`, and
    `K` when the program has returned. -/
def Secure (K : β → σ → Prop) : Dialogue Q A β → σ → Prop
  | .returned b, s => I s ∧ K b s
  | .failed _,   s => I s
  | .ask q next, s => I s ∧ ∀ s' choice a t, R s s' → S.exec s' choice q = some (a, t) →
      Secure K (next a) t

variable {S R I} {K : β → σ → Prop}

theorem secure_returned_iff {b : β} {s : σ} :
    Secure S R I K (returned b : Dialogue Q A β) s ↔ I s ∧ K b s := Iff.rfl

theorem secure_failed_iff {e : String} {s : σ} : Secure S R I K (failed e : Dialogue Q A β) s ↔
    I s := Iff.rfl

theorem secure_ask_iff {q : Q} {next : A q → Dialogue Q A β} {s : σ} :
    Secure S R I K (ask q next) s ↔
      I s ∧ ∀ s' choice a t, R s s' → S.exec s' choice q = some (a, t) →
      Secure S R I K (next a) t := Iff.rfl

-- from here on by its rules only: to unfold it is to run the program
attribute [irreducible] Secure

theorem Secure.holds {p : Dialogue Q A β} {s : σ} (h : Secure S R I K p s) : I s := by
  cases p with
  | returned a => exact (secure_returned_iff.mp h).1
  | failed e => exact secure_failed_iff.mp h
  | ask q next => exact (secure_ask_iff.mp h).1

/-- The relation that the others keep to. -/
structure Rely (R : σ → σ → Prop) (I : σ → Prop) : Prop where
  refl  : ∀ s, R s s
  trans : ∀ {s s' s''}, R s s' → R s' s'' → R s s''
  keeps : ∀ {s s'}, R s s' → I s → I s'

theorem Secure.rely {p : Dialogue Q A β} {s s' : σ} (hR : Rely R I)
    (hK : ∀ b s s', R s s' → K b s → K b s') (h : Secure S R I K p s) (hs : R s s') :
      Secure S R I K p s' := by
  cases p with
  | returned b =>
      obtain ⟨hI, hb⟩ := secure_returned_iff.mp h
      exact secure_returned_iff.mpr ⟨hR.keeps hs hI, hK b s s' hs hb⟩
  | failed e => exact secure_failed_iff.mpr (hR.keeps hs (secure_failed_iff.mp h))
  | ask q next =>
      obtain ⟨hI, hnext⟩ := secure_ask_iff.mp h
      refine secure_ask_iff.mpr ⟨hR.keeps hs hI, ?_⟩
      intro t choice a u ht
      exact hnext t choice a u (hR.trans hs ht)

/-- The rule of consequence. -/
theorem Secure.mono {K' : β → σ → Prop} {p : Dialogue Q A β} {s : σ} (h : Secure S R I K p s)
    (hK : ∀ b s, I s → K b s → K' b s) : Secure S R I K' p s := by
  induction p generalizing s with
  | returned b =>
      obtain ⟨hI, hb⟩ := secure_returned_iff.mp h
      exact secure_returned_iff.mpr ⟨hI, hK b s hI hb⟩
  | failed e => exact secure_failed_iff.mpr (secure_failed_iff.mp h)
  | ask q next ih =>
      obtain ⟨hI, hnext⟩ := secure_ask_iff.mp h
      exact secure_ask_iff.mpr ⟨hI, fun s' choice a t hs hexec =>
        ih a (hnext s' choice a t hs hexec)⟩

/-- The rule for sequencing. -/
theorem secure_bind {p : Dialogue Q A β} {k : β → Dialogue Q A γ} {K' : γ → σ → Prop} {s : σ}
    (h : Secure S R I (fun b s => Secure S R I K' (k b) s) p s) : Secure S R I K' (p >>= k) s := by
  rw [bind_eq]
  induction p generalizing s with
  | returned b => exact (secure_returned_iff.mp h).2
  | failed e => exact secure_failed_iff.mpr (secure_failed_iff.mp h)
  | ask q next ih =>
      obtain ⟨hI, hnext⟩ := secure_ask_iff.mp h
      exact secure_ask_iff.mpr ⟨hI, fun s' choice a t hs hexec =>
        ih a (hnext s' choice a t hs hexec)⟩

theorem secure_orThrow {r : Except String β} {s : σ} (hs : I s) (hK : ∀ b, r = .ok b → K b s) :
    Secure S R I K (orThrow r) s := by
  cases r with
  | ok b => exact secure_returned_iff.mpr ⟨hs, hK b rfl⟩
  | error e => exact secure_failed_iff.mpr hs

/-! ## The rule -/

variable {P : Q → Prop} {C : State σ ρ Q A α → Event ρ ε ω → Prop}

variable (S exclusive R I P C) in
/-- What is asked of the two kinds of programs. -/
structure Alone : Prop where
  rely      : Rely R I
  secure    : ∀ r s, exclusive r = true → I s → Secure S R I (fun _ _ => True) (S.program r) s
  asks      : ∀ r, exclusive r = false → (S.program r).Asks P True
  /-- a step of another thread, under the condition of the run -/
  guarantee : ∀ s i choice τ q next a t, C s (.resume i choice) → s.threads[i]? = some τ →
    exclusive τ.request = false → τ.program = .ask q next → P q →
    S.exec s.store choice q = some (a, t) → R s.store t
  outside   : ∀ s event t, S.outside s event = some t → R s t

variable (S exclusive R I P) in
/-- All threads are as they should be, and one at most is in the way. -/
structure Secured (s : State σ ρ Q A α) : Prop where
  holds  : I s.store
  secure : ∀ τ ∈ s.threads, exclusive τ.request = true →
    Secure S R I (fun _ _ => True) τ.program s.store
  asks   : ∀ τ ∈ s.threads, exclusive τ.request = false → τ.program.Asks P True
  one    : ∀ (i j : Nat) (τ τ' : Thread ρ Q A α), s.threads[i]? = some τ → s.threads[j]? = some τ' →
    τ.inTheWay exclusive = true →
    τ'.inTheWay exclusive = true → i = j

theorem inTheWay_iff {τ : Thread ρ Q A α} :
    τ.inTheWay exclusive = true ↔ exclusive τ.request = true ∧
      ∃ q next, τ.program = .ask q next := by
  rw [Thread.inTheWay, Bool.and_eq_true, Thread.working]
  refine and_congr_right fun _ => ?_
  cases τ.program with
  | returned a => simp
  | failed e => simp
  | ask q next => simp

/-- A thread that is not in the way has come to its end. -/
theorem secure_of_ended {τ : Thread ρ Q A α} (hexclusive : exclusive τ.request = true)
    (hway : ¬ τ.inTheWay exclusive = true) {s : σ} (hs : I s) :
      Secure S R I (fun _ _ => True) τ.program s := by
  cases hprogram : τ.program with
  | returned a => exact secure_returned_iff.mpr ⟨hs, trivial⟩
  | failed e => exact secure_failed_iff.mpr hs
  | ask q next => exact absurd (inTheWay_iff.mpr ⟨hexclusive, q, next, hprogram⟩) hway

theorem secured_call (halone : Alone S exclusive R I P C) {s : State σ ρ Q A α}
    (hs : Secured S exclusive R I P s) (r : ρ)
    (hfree : exclusive r = true → ∀ τ ∈ s.threads, τ.inTheWay exclusive = false) :
    Secured S exclusive R I P { s with threads := s.threads ++
      [{ request := r, program := S.program r }] } := by
  refine ⟨hs.holds, ?_, ?_, ?_⟩
  · intro τ hτ hexclusive
    rcases List.mem_append.mp hτ with hτ | hτ
    · exact hs.secure τ hτ hexclusive
    · rw [List.mem_singleton.mp hτ] at hexclusive ⊢
      exact halone.secure r s.store hexclusive hs.holds
  · intro τ hτ hother
    rcases List.mem_append.mp hτ with hτ | hτ
    · exact hs.asks τ hτ hother
    · rw [List.mem_singleton.mp hτ] at hother ⊢
      exact halone.asks r hother
  · intro i j τ τ' hi hj hway hway'
    rcases Runs.getElem?_append_cases hi with hi | ⟨rfl, rfl⟩
    · rcases Runs.getElem?_append_cases hj with hj | ⟨rfl, rfl⟩
      · exact hs.one i j τ τ' hi hj hway hway'
      · rw [hfree (inTheWay_iff.mp hway').1 τ (List.mem_of_getElem? hi)] at hway
        cases hway
    · rcases Runs.getElem?_append_cases hj with hj | ⟨rfl, rfl⟩
      · rw [hfree (inTheWay_iff.mp hway).1 τ' (List.mem_of_getElem? hj)] at hway'
        cases hway'
      · rfl

/-- What is true of the threads after one of them has gone on. -/
theorem mem_set_cases {s : State σ ρ Q A α} {i : Nat} {τ' τ'' : Thread ρ Q A α}
    (h : τ'' ∈ s.threads.set i τ') :
    τ'' = τ' ∨ ∃ j, j ≠ i ∧ s.threads[j]? = some τ'' := by
  obtain ⟨j, hj⟩ := List.mem_iff_getElem?.mp h
  rcases Runs.getElem?_set_cases hj with ⟨_, heq⟩ | ⟨hne, hj⟩
  · exact Or.inl heq
  · exact Or.inr ⟨j, hne, hj⟩

theorem secured_resume (halone : Alone S exclusive R I P C) {s : State σ ρ Q A α}
    (hs : Secured S exclusive R I P s)
    {i : Nat} {choice : ω} (hC : C s (.resume i choice)) {τ : Thread ρ Q A α}
      (hτ : s.threads[i]? = some τ) {q : Q}
    {next : A q → Dialogue Q A α} (hprogram : τ.program = .ask q next) {a : A q} {store : σ}
    (hexec : S.exec s.store choice q = some (a, store)) :
    Secured S exclusive R I P { store := store, threads := s.threads.set i (τ.heard q a (next a)) } := by
  have hmem := List.mem_of_getElem? hτ
  have hone : ∀ (j k : Nat) (σ σ' : Thread ρ Q A α), (s.threads.set i (τ.heard q a (next a)))[j]? = some σ →
      (s.threads.set i (τ.heard q a (next a)))[k]? = some σ' → σ.inTheWay exclusive = true →
      σ'.inTheWay exclusive = true → j = k := by
    -- whoever is in the way was so before
    have hbefore : ∀ (j : Nat) (σ : Thread ρ Q A α),
        (s.threads.set i (τ.heard q a (next a)))[j]? = some σ → σ.inTheWay exclusive = true →
        ∃ σ₀, s.threads[j]? = some σ₀ ∧ σ₀.inTheWay exclusive = true := by
      intro j σ hj hway
      rcases Runs.getElem?_set_cases hj with ⟨rfl, rfl⟩ | ⟨_, hj⟩
      · exact ⟨τ, hτ, inTheWay_iff.mpr ⟨(inTheWay_iff.mp hway).1, q, next, hprogram⟩⟩
      · exact ⟨σ, hj, hway⟩
    intro j k σ σ' hj hk hway hway'
    obtain ⟨σ₀, hj, hway⟩ := hbefore j σ hj hway
    obtain ⟨σ₁, hk, hway'⟩ := hbefore k σ' hk hway'
    exact hs.one j k σ₀ σ₁ hj hk hway hway'
  cases hexclusive : exclusive τ.request with
  | true =>
      have hsecure := hs.secure τ hmem hexclusive
      rw [hprogram] at hsecure
      have hnext : Secure S R I (fun _ _ => True) (next a) store :=
        (secure_ask_iff.mp hsecure).2 s.store choice a store (halone.rely.refl _) hexec
      refine ⟨hnext.holds, ?_, ?_, hone⟩
      · intro τ' hτ' hexclusive'
        rcases mem_set_cases hτ' with rfl | ⟨j, hne, hj⟩
        · exact hnext
        · refine secure_of_ended hexclusive' ?_ hnext.holds
          intro hway
          exact hne (hs.one j i τ' τ hj hτ hway (inTheWay_iff.mpr ⟨hexclusive, q, next, hprogram⟩))
      · intro τ' hτ' hother
        rcases mem_set_cases hτ' with rfl | ⟨j, _, hj⟩
        · rw [show (τ.heard q a (next a)).request = τ.request from rfl, hexclusive] at hother
          cases hother
        · exact hs.asks τ' (List.mem_of_getElem? hj) hother
  | false =>
      have hasks := hs.asks τ hmem hexclusive
      rw [hprogram] at hasks
      have hstep : R s.store store :=
        halone.guarantee s i choice τ q next a store hC hτ hexclusive hprogram hasks.1 hexec
      refine ⟨halone.rely.keeps hstep hs.holds, ?_, ?_, hone⟩
      · intro τ' hτ' hexclusive'
        rcases mem_set_cases hτ' with rfl | ⟨j, _, hj⟩
        · rw [show (τ.heard q a (next a)).request = τ.request from rfl, hexclusive] at hexclusive'
          cases hexclusive'
        · exact (hs.secure τ' (List.mem_of_getElem? hj) hexclusive').rely halone.rely
            (fun _ _ _ _ _ => trivial) hstep
      · intro τ' hτ' hother
        rcases mem_set_cases hτ' with rfl | ⟨j, _, hj⟩
        · exact hasks.2 a
        · exact hs.asks τ' (List.mem_of_getElem? hj) hother

theorem secured_step (halone : Alone S exclusive R I P C) {s t : State σ ρ Q A α} {e : Event ρ ε ω}
    (hs : Secured S exclusive R I P s) (hC : C s e) (h : stepAlone S exclusive s e = some t) :
    Secured S exclusive R I P t := by
  obtain ⟨hstep, hfree⟩ := step_of_stepAlone h
  rcases step_cases hstep with ⟨r, rfl, rfl⟩ | ⟨i, choice, τ, q, next, a, store, rfl, hτ, hprogram,
    hexec, rfl⟩ |
    ⟨event, store, rfl, houtside, rfl⟩
  · exact secured_call halone hs r hfree
  · exact secured_resume halone hs hC hτ hprogram hexec
  · have hR := halone.outside s.store event store houtside
    exact ⟨halone.rely.keeps hR hs.holds, fun τ hτ hexclusive =>
      (hs.secure τ hτ hexclusive).rely halone.rely (fun _ _ _ _ _ => trivial) hR, hs.asks, hs.one⟩

theorem secured_start {store : σ} (h : I store) :
    Secured S exclusive R I P ({ store := store } : State σ ρ Q A α) := by
  refine ⟨h, ?_, ?_, ?_⟩
  · rintro τ ⟨⟩
  · rintro τ ⟨⟩
  · intro i j τ τ' hi
    cases hi

/-- **The rule.** -/
theorem always_alone (halone : Alone S exclusive R I P C) {store : σ} (h : I store)
    (events : List (Event ρ ε ω))
    (hmeets : Runs.Meets (stepAlone S exclusive) C { store := store } events) :
    Runs.Always (stepAlone S exclusive) (fun s => I s.store) { store := store } events :=
  Runs.always_of_meets _ (I := Secured S exclusive R I P) (fun _ _ _ hs hC hstep =>
    secured_step halone hs hC hstep)
    (fun _ hs => hs.holds) events _ (secured_start h) hmeets

end Alone

end Interleaving
