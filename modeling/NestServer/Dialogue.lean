import Mathlib.Data.List.Basic

/-! # Programs that ask

    A program asks its environment, one question after the other, and goes on
    with what it is told; what it asks may depend on all it has heard.

    * `run` plays a program against an environment that may answer anything,
      also depending on what has been said before;
    * `Guarded G` says that everything in a history was asked rightly;
    * `wp` is the weakest precondition, with one rule for each way to build a
      program, and `run_of_wp` says that it holds of every run;
    * `Asks P` is for programs of which only matters what they ask;
    * `run_congr` compares the runs of a program in two environments. -/

/-- A program with questions `Q`, which are answered in `A`. -/
inductive Dialogue (Q : Type) (A : Q → Type) (α : Type) where
  | returned (a : α)
  | failed (error : String)
  | ask (q : Q) (next : A q → Dialogue Q A α)

namespace Dialogue

variable {Q : Type} {A : Q → Type} {α β σ : Type}

def bind : Dialogue Q A α → (α → Dialogue Q A β) → Dialogue Q A β
  | returned a, k   => k a
  | failed e, _     => failed e
  | ask q next, k   => ask q fun a => (next a).bind k

instance : Monad (Dialogue Q A) where
  pure := returned
  bind := bind

/-- One question. -/
def query (q : Q) : Dialogue Q A (A q) := ask q returned

/-- An error that nobody catches. -/
def orThrow : Except String α → Dialogue Q A α
  | .ok a    => returned a
  | .error e => failed e

/-- What comes after an error of a part of a program. -/
def rescue (handler : String → Dialogue Q A α) : Dialogue Q A α → Dialogue Q A α
  | returned a => returned a
  | failed e   => handler e
  | ask q next => ask q fun a => (next a).rescue handler

@[simp] theorem pure_eq (a : α) : (pure a : Dialogue Q A α) = returned a := rfl

@[simp] theorem bind_eq (p : Dialogue Q A α) (k : α → Dialogue Q A β) : p >>= k = p.bind k := rfl

/-! ## Runs -/

/-- A question with its answer. -/
abbrev Exchange (Q : Type) (A : Q → Type) := (q : Q) × A q

/-- What has been said, the first exchange first. -/
abbrev History (Q : Type) (A : Q → Type) := List (Exchange Q A)

/-- What the environment answers. -/
abbrev Environment (Q : Type) (A : Q → Type) := History Q A → (q : Q) → A q

def run (env : Environment Q A) : Dialogue Q A α → History Q A → History Q A × Except String α
  | returned a, h => (h, .ok a)
  | failed e, h   => (h, .error e)
  | ask q next, h => run env (next (env h q)) (h ++ [⟨q, env h q⟩])

/-- From `h` on, each question was asked when `G` allowed it. -/
def Guarded (G : History Q A → Q → Prop) : History Q A → List (Exchange Q A) → Prop
  | _, []      => True
  | h, x :: xs => G h x.1 ∧ Guarded G (h ++ [x]) xs

instance decidableGuarded (G : History Q A → Q → Prop) [∀ h q, Decidable (G h q)] :
    (h : History Q A) → (xs : List (Exchange Q A)) → Decidable (Guarded G h xs)
  | _, []      => isTrue trivial
  | h, x :: xs =>
      have := decidableGuarded G (h ++ [x]) xs
      inferInstanceAs (Decidable (G h x.1 ∧ Guarded G (h ++ [x]) xs))

theorem Guarded.mono {G G' : History Q A → Q → Prop} (hG : ∀ h q, G h q → G' h q) {h : History Q A}
    {xs : List (Exchange Q A)} (hx : Guarded G h xs) : Guarded G' h xs := by
  induction xs generalizing h with
  | nil => trivial
  | cons x xs ih => exact ⟨hG _ _ hx.1, ih hx.2⟩

theorem guarded_append {G : History Q A → Q → Prop} {h : History Q A} {xs : List (Exchange Q A)}
    {x : Exchange Q A} : Guarded G h (xs ++ [x]) ↔ Guarded G h xs ∧ G (h ++ xs) x.1 := by
  induction xs generalizing h with
  | nil =>
      rw [List.append_nil, List.nil_append]
      exact and_comm
  | cons y ys ih =>
      rw [List.cons_append, Guarded, Guarded, ih, List.append_assoc, and_assoc]
      rfl

/-- When something was asked, the law allowed it after what had been said before. -/
theorem Guarded.split {G : History Q A → Q → Prop} {h : History Q A} {xs : List (Exchange Q A)}
    (hguard : Guarded G h xs) {x : Exchange Q A} (hx : x ∈ xs) :
    ∃ before after, xs = before ++ x :: after ∧ G (h ++ before) x.1 := by
  induction xs generalizing h with
  | nil => cases hx
  | cons y ys ih =>
      rcases List.mem_cons.mp hx with rfl | hx
      · exact ⟨[], ys, rfl, (List.append_nil h).symm ▸ hguard.1⟩
      · obtain ⟨before, after, rfl, hG⟩ := ih hguard.2 hx
        refine ⟨y :: before, after, rfl, ?_⟩
        rw [List.append_assoc] at hG
        exact hG

/-- A law that does not look at what was said before. -/
theorem guarded_of_forall {P : Q → Prop} {h : History Q A} {xs : List (Exchange Q A)} :
    (∀ x ∈ xs, P x.1) → Guarded (fun _ q => P q) h xs := by
  intro hall
  induction xs generalizing h with
  | nil => trivial
  | cons x xs ih =>
      exact ⟨hall x List.mem_cons_self, ih fun y hy => hall y (List.mem_cons_of_mem x hy)⟩

theorem Guarded.forall {P : Q → Prop} {h : History Q A} {xs : List (Exchange Q A)}
    (hguard : Guarded (fun _ q => P q) h xs) : ∀ x ∈ xs, P x.1 := by
  induction xs generalizing h with
  | nil => rintro x ⟨⟩
  | cons x xs ih =>
      intro y hy
      rcases List.mem_cons.mp hy with rfl | hy
      · exact hguard.1
      · exact ih hguard.2 y hy

/-- Two laws that say the same where a third one holds. -/
theorem Guarded.congr {G G' K : History Q A → Q → Prop} (hK : ∀ h q, K h q → (G h q ↔ G' h q))
    {h : History Q A} {xs : List (Exchange Q A)} (hx : Guarded K h xs) :
    Guarded G h xs ↔ Guarded G' h xs := by
  induction xs generalizing h with
  | nil => exact Iff.rfl
  | cons x xs ih => exact and_congr (hK _ _ hx.1) (ih hx.2)

/-! ## The weakest precondition -/

/-- From `h` on, whatever is answered: all is asked when `G` allows it, and the
    program ends with `R`, or fails with `F`. -/
def wp (G : History Q A → Q → Prop) (F : History Q A → Prop) :
    Dialogue Q A α → (α → History Q A → Prop) → History Q A → Prop
  | returned a, R, h => R a h
  | failed _, _, h   => F h
  | ask q next, R, h => G h q ∧ ∀ a, wp G F (next a) R (h ++ [⟨q, a⟩])

variable {G : History Q A → Q → Prop} {F : History Q A → Prop} {h : History Q A}

theorem wp_returned_iff {a : α} {R : α → History Q A → Prop} :
    wp G F (returned a : Dialogue Q A α) R h ↔ R a h := Iff.rfl

theorem wp_failed_iff {e : String} {R : α → History Q A → Prop} :
    wp G F (failed e : Dialogue Q A α) R h ↔ F h := Iff.rfl

theorem wp_ask_iff {q : Q} {next : A q → Dialogue Q A α} {R : α → History Q A → Prop} :
    wp G F (ask q next) R h ↔ G h q ∧ ∀ a, wp G F (next a) R (h ++ [⟨q, a⟩]) := Iff.rfl

-- from here on by its rules only: to unfold it is to run the program
attribute [irreducible] wp

/-- The rule for a program that ends. -/
theorem wp_pure {a : α} {R : α → History Q A → Prop} (hR : R a h) :
    wp G F (pure a : Dialogue Q A α) R h := wp_returned_iff.mpr hR

theorem wp_query {q : Q} {R : A q → History Q A → Prop} (hG : G h q)
    (hR : ∀ a, R a (h ++ [⟨q, a⟩])) : wp G F (query q : Dialogue Q A (A q)) R h :=
  wp_ask_iff.mpr ⟨hG, fun a => wp_returned_iff.mpr (hR a)⟩

theorem wp_orThrow {r : Except String α} {R : α → History Q A → Prop} (hok : ∀ a, r = .ok a → R a h)
    (herror : ∀ e, r = .error e → F h) : wp G F (orThrow r : Dialogue Q A α) R h := by
  cases r with
  | ok a => exact wp_returned_iff.mpr (hok a rfl)
  | error e => exact wp_failed_iff.mpr (herror e rfl)

/-- The rule of consequence. -/
theorem wp_mono {R R' : α → History Q A → Prop} (hR : ∀ a h', R a h' → R' a h')
    {p : Dialogue Q A α} (hp : wp G F p R h) : wp G F p R' h := by
  induction p generalizing h with
  | returned a => exact wp_returned_iff.mpr (hR a h (wp_returned_iff.mp hp))
  | failed e => exact wp_failed_iff.mpr (wp_failed_iff.mp hp)
  | ask q next ih =>
      obtain ⟨hq, hnext⟩ := wp_ask_iff.mp hp
      exact wp_ask_iff.mpr ⟨hq, fun a => ih a (hnext a)⟩

/-- Consequence in all parts, for the histories that go on from `h`. -/
theorem wp_weaken {G' : History Q A → Q → Prop} {F' : History Q A → Prop}
    {R R' : α → History Q A → Prop} {p : Dialogue Q A α}
    (hG : ∀ h' q, h <+: h' → G h' q → G' h' q) (hF : ∀ h', h <+: h' → F h' → F' h')
    (hR : ∀ a h', h <+: h' → R a h' → R' a h') (hp : wp G F p R h) : wp G' F' p R' h := by
  induction p generalizing h with
  | returned a => exact wp_returned_iff.mpr (hR a h (List.prefix_refl h) (wp_returned_iff.mp hp))
  | failed e => exact wp_failed_iff.mpr (hF h (List.prefix_refl h) (wp_failed_iff.mp hp))
  | ask q next ih =>
      obtain ⟨hq, hnext⟩ := wp_ask_iff.mp hp
      refine wp_ask_iff.mpr ⟨hG h q (List.prefix_refl h) hq, fun a => ih a ?_ ?_ ?_ (hnext a)⟩
      · exact fun h' q' hle => hG h' q' ((List.prefix_append _ _).trans hle)
      · exact fun h' hle => hF h' ((List.prefix_append _ _).trans hle)
      · exact fun b h' hle => hR b h' ((List.prefix_append _ _).trans hle)

/-- Laws that allow everything. -/
theorem wp_of_forall {R : α → History Q A → Prop} (hG : ∀ h q, G h q) (hF : ∀ h, F h)
    (hR : ∀ a h, R a h) {p : Dialogue Q A α} : wp G F p R h := by
  induction p generalizing h with
  | returned a => exact wp_returned_iff.mpr (hR a h)
  | failed e => exact wp_failed_iff.mpr (hF h)
  | ask q next ih => exact wp_ask_iff.mpr ⟨hG h q, fun a => ih a⟩

/-- The rule of conjunction. -/
theorem wp_and {G' : History Q A → Q → Prop} {F' : History Q A → Prop}
    {R R' : α → History Q A → Prop} {p : Dialogue Q A α} (hp : wp G F p R h)
    (hp' : wp G' F' p R' h) :
    wp (fun h' q => G h' q ∧ G' h' q) (fun h' => F h' ∧ F' h') p (fun a h' => R a h' ∧
      R' a h') h := by
  induction p generalizing h with
  | returned a => exact wp_returned_iff.mpr ⟨wp_returned_iff.mp hp, wp_returned_iff.mp hp'⟩
  | failed e => exact wp_failed_iff.mpr ⟨wp_failed_iff.mp hp, wp_failed_iff.mp hp'⟩
  | ask q next ih =>
      obtain ⟨hq, hnext⟩ := wp_ask_iff.mp hp
      obtain ⟨hq', hnext'⟩ := wp_ask_iff.mp hp'
      exact wp_ask_iff.mpr ⟨⟨hq, hq'⟩, fun a => ih a (hnext a) (hnext' a)⟩

/-- The rule for sequencing. -/
theorem wp_bind {p : Dialogue Q A α} {k : α → Dialogue Q A β} {R : α → History Q A → Prop}
    {S : β → History Q A → Prop} (hp : wp G F p R h) (hk : ∀ a h', R a h' → wp G F (k a) S h') :
    wp G F (p >>= k) S h := by
  rw [bind_eq]
  induction p generalizing h with
  | returned a => exact hk a h (wp_returned_iff.mp hp)
  | failed e => exact wp_failed_iff.mpr (wp_failed_iff.mp hp)
  | ask q next ih =>
      obtain ⟨hq, hnext⟩ := wp_ask_iff.mp hp
      exact wp_ask_iff.mpr ⟨hq, fun a => ih a (hnext a)⟩

/-- The rule for a handler: what holds when the part fails is all that it starts from. -/
theorem wp_rescue {E : History Q A → Prop} {handler : String → Dialogue Q A α} {p : Dialogue Q A α}
    {R : α → History Q A → Prop} (hp : wp G E p R h) (hhandler : ∀ e h', E h' →
      wp G F (handler e) R h') :
    wp G F (p.rescue handler) R h := by
  induction p generalizing h with
  | returned a => exact wp_returned_iff.mpr (wp_returned_iff.mp hp)
  | failed e => exact hhandler e h (wp_failed_iff.mp hp)
  | ask q next ih =>
      obtain ⟨hq, hnext⟩ := wp_ask_iff.mp hp
      exact wp_ask_iff.mpr ⟨hq, fun a => ih a (hnext a)⟩

/-- The rule for a loop over a list: an invariant of what is left and what has
    been computed. -/
theorem wp_foldlM {body : σ → β → Dialogue Q A σ} {I : List β → σ → History Q A → Prop}
    (hbody : ∀ b bs s h', I (b :: bs) s h' → wp G F (body s b) (fun s' h'' => I bs s' h'') h') :
    ∀ (bs : List β) (s : σ) (h : History Q A), I bs s h →
      wp G F (bs.foldlM body s) (fun s' h' => I [] s' h') h := by
  intro bs
  induction bs with
  | nil =>
      intro s h hI
      exact wp_pure hI
  | cons b bs ih =>
      intro s h hI
      rw [List.foldlM_cons]
      exact wp_bind (hbody b bs s h hI) ih

/-! ## What a program asks -/

/-- All that the program asks satisfies `P`, and it fails only if `E`. -/
def Asks (P : Q → Prop) (E : Prop) : Dialogue Q A α → Prop
  | returned _ => True
  | failed _   => E
  | ask q next => P q ∧ ∀ a, Asks P E (next a)

variable {P : Q → Prop} {E : Prop}

theorem asks_query {q : Q} (hq : P q) : (query q : Dialogue Q A (A q)).Asks P E :=
  ⟨hq, fun _ => trivial⟩

theorem asks_orThrow (r : Except String α) : (orThrow r : Dialogue Q A α).Asks P True := by
  cases r <;> trivial

theorem asks_bind {p : Dialogue Q A α} {k : α → Dialogue Q A β} (hp : p.Asks P E)
    (hk : ∀ a, (k a).Asks P E) : (p >>= k).Asks P E := by
  rw [bind_eq]
  induction p with
  | returned a => exact hk a
  | failed e => exact hp
  | ask q next ih => exact ⟨hp.1, fun a => ih a (hp.2 a)⟩

theorem asks_rescue {handler : String → Dialogue Q A α} {E' : Prop} {p : Dialogue Q A α}
    (hp : p.Asks P E')
    (hhandler : ∀ e, (handler e).Asks P E) : (p.rescue handler).Asks P E := by
  induction p with
  | returned a => trivial
  | failed e => exact hhandler e
  | ask q next ih => exact ⟨hp.1, fun a => ih a (hp.2 a)⟩

theorem asks_foldlM {body : σ → β → Dialogue Q A σ} (hbody : ∀ s b, (body s b).Asks P E) :
    ∀ (bs : List β) (s : σ), (bs.foldlM body s).Asks P E := by
  intro bs
  induction bs with
  | nil =>
      intro s
      trivial
  | cons b bs ih =>
      intro s
      rw [List.foldlM_cons]
      exact asks_bind (hbody s b) ih

theorem Asks.mono {P' : Q → Prop} {E' : Prop} (hP : ∀ q, P q → P' q) (hE : E → E')
    {p : Dialogue Q A α} (hp : p.Asks P E) : p.Asks P' E' := by
  induction p with
  | returned a => trivial
  | failed e => exact hE hp
  | ask q next ih => exact ⟨hP q hp.1, fun a => ih a (hp.2 a)⟩

/-- The history has grown by exchanges whose questions satisfy `P`. -/
def Adds (P : Q → Prop) (h h' : History Q A) : Prop := ∃ xs, h' = h ++ xs ∧ ∀ x ∈ xs, P x.1

theorem Adds.refl (h : History Q A) : Adds P h h := ⟨[], (List.append_nil h).symm, by rintro x ⟨⟩⟩

theorem Adds.trans {h₁ h₂ h₃ : History Q A} (h : Adds P h₁ h₂) (h' : Adds P h₂ h₃) :
    Adds P h₁ h₃ := by
  obtain ⟨xs, rfl, hxs⟩ := h
  obtain ⟨ys, rfl, hys⟩ := h'
  refine ⟨xs ++ ys, List.append_assoc _ _ _, ?_⟩
  intro x hx
  exact (List.mem_append.mp hx).elim (hxs x) (hys x)

theorem Adds.mono {P' : Q → Prop} (hP : ∀ q, P q → P' q) {h h' : History Q A}
    (hadds : Adds P h h') :
    Adds P' h h' := by
  obtain ⟨xs, rfl, hxs⟩ := hadds
  exact ⟨xs, rfl, fun x hx => hP x.1 (hxs x hx)⟩

theorem adds_one (h : History Q A) {x : Exchange Q A} (hx : P x.1) : Adds P h (h ++ [x]) := by
  refine ⟨[x], rfl, ?_⟩
  intro y hy
  rw [List.mem_singleton.mp hy]
  exact hx

theorem Adds.mem {h h' : History Q A} (hadds : Adds P h h') {x : Exchange Q A} (hx : x ∈ h) :
    x ∈ h' := by
  obtain ⟨xs, rfl, _⟩ := hadds
  exact List.mem_append_left xs hx

/-- What is new in a history satisfies `P`. -/
theorem Adds.mem_or {h h' : History Q A} (hadds : Adds P h h') {x : Exchange Q A} (hx : x ∈ h') :
    x ∈ h ∨ P x.1 := by
  obtain ⟨xs, rfl, hxs⟩ := hadds
  exact (List.mem_append.mp hx).imp_right (hxs x)

/-- The rule for a program of which only matters what it asks. -/
theorem wp_of_asks (hG : ∀ h q, P q → G h q) (hF : E → ∀ h', Adds P h h' → F h')
    {p : Dialogue Q A α} (hp : p.Asks P E) : wp G F p (fun _ h' => Adds P h h') h := by
  induction p generalizing h with
  | returned a => exact wp_returned_iff.mpr (Adds.refl h)
  | failed e => exact wp_failed_iff.mpr (hF hp h (Adds.refl h))
  | ask q next ih =>
      refine wp_ask_iff.mpr ⟨hG h q hp.1, ?_⟩
      intro a
      have hone := adds_one h (x := ⟨q, a⟩) hp.1
      refine wp_mono (fun _ _ hadds => hone.trans hadds) (ih a ?_ (hp.2 a))
      exact fun he h' hadds => hF he h' (hone.trans hadds)

/-! ## Soundness -/

/-- **Soundness**: what the weakest precondition promises, every run keeps. -/
theorem run_of_wp (env : Environment Q A) {p : Dialogue Q A α} {R : α → History Q A → Prop}
    (hp : wp G F p R h) :
    ∃ xs, (run env p h).1 = h ++ xs ∧ Guarded G h xs ∧
      (∀ a, (run env p h).2 = .ok a → R a (h ++ xs)) ∧
      ∀ e, (run env p h).2 = .error e → F (h ++ xs) := by
  induction p generalizing h with
  | returned a =>
      refine ⟨[], (List.append_nil h).symm, trivial, ?_, by rintro e ⟨⟩⟩
      rintro b ⟨⟩
      rw [List.append_nil]
      exact wp_returned_iff.mp hp
  | failed e =>
      refine ⟨[], (List.append_nil h).symm, trivial, by rintro a ⟨⟩, ?_⟩
      intro _ _
      rw [List.append_nil]
      exact wp_failed_iff.mp hp
  | ask q next ih =>
      obtain ⟨hq, hnext⟩ := wp_ask_iff.mp hp
      obtain ⟨xs, hrun, hguard, hok, herror⟩ := ih (env h q) (hnext (env h q))
      rw [List.append_assoc] at hrun hok herror
      exact ⟨⟨q, env h q⟩ :: xs, hrun, ⟨hq, hguard⟩, hok, herror⟩

/-- What a run asks is asked rightly. -/
theorem guarded_of_wp (env : Environment Q A) {p : Dialogue Q A α} {R : α → History Q A → Prop}
    (hp : wp G F p R []) : Guarded G [] (run env p []).1 := by
  obtain ⟨xs, hrun, hguard, _⟩ := run_of_wp env hp
  rw [hrun]
  exact hguard

/-! ## Two environments -/

theorem run_append (env : Environment Q A) (p : Dialogue Q A α) (h : History Q A) :
    ∃ xs, (run env p h).1 = h ++ xs := by
  induction p generalizing h with
  | returned a => exact ⟨[], (List.append_nil h).symm⟩
  | failed e => exact ⟨[], (List.append_nil h).symm⟩
  | ask q next ih =>
      obtain ⟨xs, hxs⟩ := ih (env h q) (h ++ [⟨q, env h q⟩])
      exact ⟨⟨q, env h q⟩ :: xs, by rw [run, hxs, List.append_assoc]; rfl⟩

/-- A program cannot tell two environments apart that answer alike where it asks. -/
theorem run_congr {env env' : Environment Q A} {K : History Q A → Q → Prop}
    (hK : ∀ h q, K h q → env h q = env' h q) (p : Dialogue Q A α) {h : History Q A}
    {xs : List (Exchange Q A)} (hrun : (run env p h).1 = h ++ xs) (hguard : Guarded K h xs) :
    run env' p h = run env p h := by
  induction p generalizing h xs with
  | returned a => rfl
  | failed e => rfl
  | ask q next ih =>
      obtain ⟨ys, hys⟩ := run_append env (next (env h q)) (h ++ [⟨q, env h q⟩])
      -- the first exchange of the run is this question with its answer
      have hxs : xs = ⟨q, env h q⟩ :: ys := by
        rw [run, hys, List.append_assoc] at hrun
        exact (List.append_cancel_left hrun).symm
      rw [hxs] at hguard
      obtain ⟨hq, hrest⟩ := hguard
      rw [run, run, ← hK h q hq]
      exact ih (env h q) hys hrest

end Dialogue
