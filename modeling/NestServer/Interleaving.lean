import NestServer.Dialogue
import NestServer.Runs

/-! # Threads on one store

    Requests run as threads.  A thread asks one thing after the other of a store that
    all of them share; what it asks is done in one step, and between two of its steps
    the others take any number of theirs.

    * `step` is one event: a new request, one question of a thread, or something that
      happens to the store from outside;
    * `lawful_run` says of the threads what the weakest precondition says of each of
      them alone;
    * `run_invariant` is the rule for what all of them keep. -/

namespace Interleaving

open Dialogue

variable {σ ρ ε ω Q α : Type} {A : Q → Type}

/-- The programs of the requests, and the store.  An event chooses, in `ω`, what the
    store leaves open in its answer; what cannot be has no answer. -/
structure System (σ ρ ε ω Q : Type) (A : Q → Type) (α : Type) where
  program : ρ → Dialogue Q A α
  exec    : σ → ω → (q : Q) → Option (A q × σ)
  outside : σ → ε → Option σ

structure Thread (ρ Q : Type) (A : Q → Type) (α : Type) where
  request : ρ
  /-- what it has asked, with the answers -/
  said    : History Q A := []
  /-- what it goes on with -/
  program : Dialogue Q A α

structure State (σ ρ Q : Type) (A : Q → Type) (α : Type) where
  store   : σ
  threads : List (Thread ρ Q A α) := []

inductive Event (ρ ε ω : Type) where
  | call (request : ρ)
  | resume (thread : Nat) (choice : ω)
  | outside (event : ε)

variable (S : System σ ρ ε ω Q A α)

/-- A thread with one more answer. -/
abbrev Thread.heard (τ : Thread ρ Q A α) (q : Q) (a : A q) (next : Dialogue Q A α) :
    Thread ρ Q A α :=
  { τ with said := τ.said ++ [⟨q, a⟩], program := next }

/-- A thread over one question. -/
def Thread.resume (store : σ) (choice : ω) (τ : Thread ρ Q A α) : Option (σ × Thread ρ Q A α) :=
  match τ.program with
  | .returned _ => none
  | .failed _   => none
  | .ask q next =>
      (S.exec store choice q).map fun (a, store') =>
        (store', τ.heard q a (next a))

def step (s : State σ ρ Q A α) : Event ρ ε ω → Option (State σ ρ Q A α)
  | .call request         =>
      some { s with threads := s.threads ++ [{ request := request, program := S.program request }] }
  | .resume thread choice =>
      s.threads[thread]?.bind fun τ =>
        (τ.resume S s.store choice).map fun (store, τ') =>
          { store := store, threads := s.threads.set thread τ' }
  | .outside event        => (S.outside s.store event).map fun store => { s with store := store }

/-- The threads and the store that come out of some events. -/
def Reachable (s t : State σ ρ Q A α) : Prop := ∃ events, Runs.run (step S) s events = some t

variable {S}

/-! ## What one step does -/

theorem resume_cases {store store' : σ} {choice : ω} {τ τ' : Thread ρ Q A α}
    (h : τ.resume S store choice = some (store', τ')) :
    ∃ q next a, τ.program = .ask q next ∧ S.exec store choice q = some (a, store') ∧
      τ' = τ.heard q a (next a) := by
  rw [Thread.resume] at h
  split at h
  · cases h
  · cases h
  · rename_i q next hprogram
    obtain ⟨⟨a, store''⟩, hexec, heq⟩ := Option.map_eq_some_iff.mp h
    obtain ⟨rfl, rfl⟩ := Prod.mk.inj heq
    exact ⟨q, next, a, hprogram, hexec, rfl⟩

/-- The three things that a step can be. -/
theorem step_cases {s t : State σ ρ Q A α} {e : Event ρ ε ω} (h : step S s e = some t) :
    (∃ r, e = .call r ∧
      t = { s with threads := s.threads ++ [{ request := r, program := S.program r }] }) ∨
    (∃ i choice τ q next a store', e = .resume i choice ∧ s.threads[i]? = some τ ∧
      τ.program = .ask q next ∧ S.exec s.store choice q = some (a, store') ∧
      t = { store := store', threads := s.threads.set i (τ.heard q a (next a)) }) ∨
    (∃ event store', e = .outside event ∧ S.outside s.store event = some store' ∧
      t = { s with store := store' }) := by
  cases e with
  | call r => exact Or.inl ⟨r, rfl, (Option.some.inj h).symm⟩
  | resume i choice =>
      obtain ⟨τ, hτ, h⟩ := Option.bind_eq_some_iff.mp h
      obtain ⟨⟨store', τ'⟩, hresume, rfl⟩ := Option.map_eq_some_iff.mp h
      obtain ⟨q, next, a, hprogram, hexec, rfl⟩ := resume_cases hresume
      exact Or.inr (Or.inl ⟨i, choice, τ, q, next, a, store', rfl, hτ, hprogram, hexec, rfl⟩)
  | outside event =>
      obtain ⟨store', hstore, rfl⟩ := Option.map_eq_some_iff.mp h
      exact Or.inr (Or.inr ⟨event, store', rfl, hstore, rfl⟩)

/-! ## What the threads have been told -/

/-- The thread at an index has an exchange of the given kind. -/
def Says (s : State σ ρ Q A α) (i : Nat) (P : Exchange Q A → Prop) : Prop :=
  ∃ τ, s.threads[i]? = some τ ∧ ∃ x ∈ τ.said, P x

theorem says_call {s : State σ ρ Q A α} {r : ρ} {p : Dialogue Q A α} {i : Nat}
    {P : Exchange Q A → Prop} :
    Says { s with threads := s.threads ++ [{ request := r, program := p }] } i P ↔ Says s i P := by
  constructor
  · rintro ⟨τ, hτ, x, hx, hP⟩
    rcases Runs.getElem?_append_cases hτ with hold | ⟨_, rfl⟩
    · exact ⟨τ, hold, x, hx, hP⟩
    · cases hx
  · rintro ⟨τ, hτ, hsays⟩
    exact ⟨τ, (List.getElem?_append_left (List.getElem?_eq_some_iff.mp hτ).1).trans hτ, hsays⟩

theorem says_resume {s : State σ ρ Q A α} {i : Nat} {τ : Thread ρ Q A α}
    (hτ : s.threads[i]? = some τ)
    {store : σ} {q : Q} {a : A q} {next : Dialogue Q A α} {j : Nat} {P : Exchange Q A → Prop} :
    Says { store := store, threads := s.threads.set i (τ.heard q a next) } j P ↔
      Says s j P ∨ (j = i ∧ P ⟨q, a⟩) := by
  constructor
  · rintro ⟨τ', hτ', x, hx, hP⟩
    rcases Runs.getElem?_set_cases hτ' with ⟨rfl, rfl⟩ | ⟨_, hold⟩
    · rcases List.mem_append.mp hx with hx | hx
      · exact Or.inl ⟨τ, hτ, x, hx, hP⟩
      · rw [List.mem_singleton.mp hx] at hP
        exact Or.inr ⟨rfl, hP⟩
    · exact Or.inl ⟨τ', hold, x, hx, hP⟩
  · have hlt := (List.getElem?_eq_some_iff.mp hτ).1
    rintro (⟨τ', hτ', x, hx, hP⟩ | ⟨rfl, hP⟩)
    · by_cases hij : i = j
      · rw [← hij, hτ] at hτ'
        obtain rfl := Option.some.inj hτ'
        rw [← hij]
        exact ⟨_, List.getElem?_set_self hlt, x, List.mem_append_left _ hx, hP⟩
      · exact ⟨τ', (List.getElem?_set_ne hij).trans hτ', x, hx, hP⟩
    · exact ⟨_, List.getElem?_set_self hlt, _, List.mem_append_right _ (List.mem_singleton.mpr rfl),
        hP⟩

/-! ## Laws of a thread alone -/

/-- What each request keeps to: what it asks and when, and how it ends. -/
structure Law (ρ Q : Type) (A : Q → Type) (α : Type) where
  asks   : ρ → History Q A → Q → Prop
  fails  : ρ → History Q A → Prop := fun _ _ => True
  result : ρ → α → History Q A → Prop := fun _ _ _ => True

variable {L : Law ρ Q A α}

/-- A thread that has kept to the law, and that will. -/
structure Lawful (L : Law ρ Q A α) (τ : Thread ρ Q A α) : Prop where
  said : Guarded (L.asks τ.request) [] τ.said
  next : wp (L.asks τ.request) (L.fails τ.request) τ.program (L.result τ.request) τ.said

def AllLawful (L : Law ρ Q A α) (s : State σ ρ Q A α) : Prop := ∀ τ ∈ s.threads, Lawful L τ

/-- What a lawful thread asks, it asks rightly. -/
theorem Lawful.asks {τ : Thread ρ Q A α} (hτ : Lawful L τ) {q : Q} {next : A q → Dialogue Q A α}
    (hprogram : τ.program = .ask q next) : L.asks τ.request τ.said q := by
  have hnext := hτ.next
  rw [hprogram] at hnext
  exact (wp_ask_iff.mp hnext).1

theorem Lawful.result {τ : Thread ρ Q A α} (hτ : Lawful L τ) {a : α}
    (hprogram : τ.program = .returned a) : L.result τ.request a τ.said := by
  have hnext := hτ.next
  rw [hprogram] at hnext
  exact wp_returned_iff.mp hnext

theorem Lawful.resume {τ : Thread ρ Q A α} (hτ : Lawful L τ) {q : Q} {next : A q → Dialogue Q A α}
    (hprogram : τ.program = .ask q next) (a : A q) :
    Lawful L (τ.heard q a (next a)) := by
  have hnext := hτ.next
  rw [hprogram] at hnext
  obtain ⟨hq, hnext⟩ := wp_ask_iff.mp hnext
  exact ⟨guarded_append.mpr ⟨hτ.said, hq⟩, hnext a⟩

theorem allLawful_step (hlaw : ∀ r, wp (L.asks r) (L.fails r) (S.program r) (L.result r) [])
    {s t : State σ ρ Q A α} {e : Event ρ ε ω} (hs : AllLawful L s) (h : step S s e = some t) :
    AllLawful L t := by
  rcases step_cases h with ⟨r, _, rfl⟩ | ⟨i, _, τ, q, next, a, _, _, hτ, hprogram, _, rfl⟩ |
    ⟨_, _, _, _, rfl⟩
  · intro τ hmem
    rcases List.mem_append.mp hmem with hold | hnew
    · exact hs τ hold
    · rw [List.mem_singleton.mp hnew]
      exact ⟨trivial, hlaw r⟩
  · intro τ' hmem
    rcases List.mem_or_eq_of_mem_set hmem with hold | rfl
    · exact hs τ' hold
    · exact (hs τ (List.mem_of_getElem? hτ)).resume hprogram a
  · exact hs

/-! ## What all keep together -/

/-- What an invariant needs: it is kept when a request comes, when a lawful thread goes
    over one question, and by what happens from outside. -/
structure Kept (S : System σ ρ ε ω Q A α) (L : Law ρ Q A α) (I : State σ ρ Q A α → Prop) :
    Prop where
  call    : ∀ s r, I s → AllLawful L s →
    I { s with threads := s.threads ++ [{ request := r, program := S.program r }] }
  resume  : ∀ s i τ q next choice a store', I s → AllLawful L s → s.threads[i]? = some τ →
    τ.program = .ask q next → S.exec s.store choice q = some (a, store') →
    I { store := store', threads := s.threads.set i (τ.heard q a (next a)) }
  outside : ∀ s event store', I s → AllLawful L s → S.outside s.store event = some store' →
    I { s with store := store' }

/-- One step keeps the laws and the invariant. -/
theorem kept_step {I : State σ ρ Q A α → Prop}
    (hlaw : ∀ r, wp (L.asks r) (L.fails r) (S.program r) (L.result r) []) (hkept : Kept S L I)
    {s t : State σ ρ Q A α} {e : Event ρ ε ω} (hs : AllLawful L s ∧ I s) (h : step S s e = some t) :
    AllLawful L t ∧ I t := by
  obtain ⟨hlawful, hI⟩ := hs
  refine ⟨allLawful_step hlaw hlawful h, ?_⟩
  rcases step_cases h with ⟨r, _, rfl⟩ | ⟨i, choice, τ, q, next, a, store', _, hτ, hprogram, hexec,
    rfl⟩ |
    ⟨event, store', _, houtside, rfl⟩
  · exact hkept.call s r hI hlawful
  · exact hkept.resume s i τ q next choice a store' hI hlawful hτ hprogram hexec
  · exact hkept.outside s event store' hI hlawful houtside

/-- **The rule.** -/
theorem run_invariant {I : State σ ρ Q A α → Prop}
    (hlaw : ∀ r, wp (L.asks r) (L.fails r) (S.program r) (L.result r) []) (hkept : Kept S L I)
    {s t : State σ ρ Q A α} (hlawful : AllLawful L s) (hs : I s) (hreach : Reachable S s t) :
    AllLawful L t ∧ I t := by
  obtain ⟨events, hrun⟩ := hreach
  exact Runs.run_invariant_all (step S) (P := fun s => AllLawful L s ∧ I s)
    (fun _ _ _ hs h => kept_step hlaw hkept hs h) ⟨hlawful, hs⟩ hrun

theorem allLawful_nil (store : σ) : AllLawful L ({ store := store } : State σ ρ Q A α) := by
  rintro τ ⟨⟩

/-! ## One thread alone -/

section Solo

variable (exec : σ → ω → (q : Q) → Option (A q × σ)) (choose : Q → ω)

/-- A program that nobody interrupts. -/
def solo : Dialogue Q A α → σ → Option (Except String α × σ)
  | .returned a, s => some (.ok a, s)
  | .failed e, s   => some (.error e, s)
  | .ask q next, s => (exec s (choose q) q).bind fun (a, s') => solo (next a) s'

variable {exec choose} {s t : σ} {β : Type}

theorem solo_bind (p : Dialogue Q A α) (k : α → Dialogue Q A β) :
    solo exec choose (p >>= k) s = (solo exec choose p s).bind fun (r, t) =>
      match r with
      | .ok a    => solo exec choose (k a) t
      | .error e => some (.error e, t) := by
  rw [bind_eq]
  induction p generalizing s with
  | returned a => rfl
  | failed e => rfl
  | ask q next ih =>
      show (exec s (choose q) q).bind _ = ((exec s (choose q) q).bind _).bind _
      rw [Option.bind_assoc]
      exact Option.bind_congr fun x _ => ih x.1

theorem solo_bind_ok {p : Dialogue Q A α} {k : α → Dialogue Q A β} {a : α}
    (h : solo exec choose p s = some (.ok a, t)) :
    solo exec choose (p >>= k) s = solo exec choose (k a) t := by
  rw [solo_bind, h]
  rfl

theorem solo_bind_error {p : Dialogue Q A α} {k : α → Dialogue Q A β} {e : String}
    (h : solo exec choose p s = some (.error e, t)) :
      solo exec choose (p >>= k) s = some (.error e, t) := by
  rw [solo_bind, h]
  rfl

theorem solo_rescue (p : Dialogue Q A α) (handler : String → Dialogue Q A α) :
    solo exec choose (p.rescue handler) s = (solo exec choose p s).bind fun (r, t) =>
      match r with
      | .ok a    => some (.ok a, t)
      | .error e => solo exec choose (handler e) t := by
  induction p generalizing s with
  | returned a => rfl
  | failed e => rfl
  | ask q next ih =>
      show (exec s (choose q) q).bind _ = ((exec s (choose q) q).bind _).bind _
      rw [Option.bind_assoc]
      exact Option.bind_congr fun x _ => ih x.1

theorem solo_rescue_ok {p : Dialogue Q A α} {handler : String → Dialogue Q A α} {a : α}
    (h : solo exec choose p s = some (.ok a, t)) :
      solo exec choose (p.rescue handler) s = some (.ok a, t) := by
  rw [solo_rescue, h]
  rfl

theorem solo_rescue_error {p : Dialogue Q A α} {handler : String → Dialogue Q A α} {e : String}
    (h : solo exec choose p s = some (.error e, t)) :
    solo exec choose (p.rescue handler) s = solo exec choose (handler e) t := by
  rw [solo_rescue, h]
  rfl

/-- What every answer leaves, a program leaves. -/
theorem solo_keeps {P : σ → Prop} (hexec : ∀ s c q a s', P s → exec s c q = some (a, s') → P s')
    {p : Dialogue Q A α}
    {r : Except String α} (hs : P s) (h : solo exec choose p s = some (r, t)) : P t := by
  induction p generalizing s with
  | returned a =>
      obtain ⟨_, rfl⟩ := Prod.mk.inj (Option.some.inj h)
      exact hs
  | failed e =>
      obtain ⟨_, rfl⟩ := Prod.mk.inj (Option.some.inj h)
      exact hs
  | ask q next ih =>
      obtain ⟨⟨a, s'⟩, hq, hnext⟩ := Option.bind_eq_some_iff.mp h
      exact ih a (hexec s (choose q) q a s' hs hq) hnext

/-- A program alone is a thread of a run. -/
theorem reachable_of_solo {S : System σ ρ ε ω Q A α} {τ : Thread ρ Q A α} {r : Except String α}
    (h : solo S.exec choose τ.program s = some (r, t)) :
    ∃ said, Reachable S { store := s, threads := [τ] }
      { store := t, threads :=
        [{ request := τ.request, said := said, program := orThrow r }] } := by
  obtain ⟨request, said, program⟩ := τ
  induction program generalizing s said with
  | returned a =>
      obtain ⟨rfl, rfl⟩ := Prod.mk.inj (Option.some.inj h)
      exact ⟨said, [], rfl⟩
  | failed e =>
      obtain ⟨rfl, rfl⟩ := Prod.mk.inj (Option.some.inj h)
      exact ⟨said, [], rfl⟩
  | ask q next ih =>
      obtain ⟨⟨a, s'⟩, hq, hnext⟩ := Option.bind_eq_some_iff.mp h
      obtain ⟨said', events, hrun⟩ := ih a (said ++ [⟨q, a⟩]) hnext
      refine ⟨said', .resume 0 (choose q) :: events, ?_⟩
      have hstep : step S { store := s, threads := [⟨request, said, .ask q next⟩] }
          (.resume 0 (choose q)) =
          some { store := s', threads := [⟨request, said ++ [⟨q, a⟩], next a⟩] } := by
        show ((S.exec s (choose q) q).map _).map _ = _
        rw [hq]
        rfl
      rw [Runs.run_cons, hstep]
      exact hrun

end Solo

end Interleaving
