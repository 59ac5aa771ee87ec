import Mathlib.Logic.Basic

/-! # Steps that may fail

    A program awaits one step after the other.  Which steps fail is decided from outside,
    by an outcome for each; what was done before a failure stays done.

    * `step` is one awaited step, `rescue` a handler around a part of a program;
    * `within` runs a program on a part of the state;
    * the rules say when a program returns, and what it has done by then. -/

namespace Injection

/-- `lost` is a step that has its effect, and fails all the same. -/
inductive Outcome where
  | done
  | fails (error : String)
  | lost (error : String)
deriving DecidableEq

/-- A program over the state `σ`, with steps named in `κ`. -/
structure Program (κ σ α : Type) where
  run : (κ → Outcome) → σ → Except String α × σ

variable {κ σ τ α β ρ : Type}

/-- How to go on after a result, and after an error. -/
def settle (r : Except String α × σ) (ok : α → σ → ρ) (error : String → σ → ρ) : ρ :=
  match r with
  | (.ok a, s)    => ok a s
  | (.error e, s) => error e s

/-- What comes of a step that would answer `r` from the state `s`. -/
def Outcome.decide (o : Outcome) (s : σ) (r : Except String α × σ) : Except String α × σ :=
  match o with
  | .done    => r
  | .fails e => (.error e, s)
  | .lost e  => (.error e, r.2)

namespace Program

protected def pure (a : α) : Program κ σ α := ⟨fun _ s => (.ok a, s)⟩

def throw (error : String) : Program κ σ α := ⟨fun _ s => (.error error, s)⟩

protected def bind (p : Program κ σ α) (k : α → Program κ σ β) : Program κ σ β :=
  ⟨fun faults s => settle (p.run faults s) (fun a t => (k a).run faults t) fun e t => (.error e, t)⟩

instance : Monad (Program κ σ) where
  pure := Program.pure
  bind := Program.bind

def rescue (p : Program κ σ α) (handler : String → Program κ σ α) : Program κ σ α :=
  ⟨fun faults s => settle (p.run faults s) (fun a t => (.ok a, t)) fun e t =>
    (handler e).run faults t⟩

/-- An awaited step, which may also throw by itself. -/
def step (key : κ) (act : σ → Except String α × σ) : Program κ σ α :=
  ⟨fun faults s => (faults key).decide s (act s)⟩

/-- A step that answers nothing. -/
def perform (key : κ) (effect : σ → σ) : Program κ σ Unit := step key fun s => (.ok (), effect s)

/-- A step that changes nothing. -/
def observe (key : κ) (answer : σ → Except String α) : Program κ σ α := step key fun s =>
    (answer s, s)

/-- The state, without a step. -/
def inspect : Program κ σ σ := ⟨fun _ s => (.ok s, s)⟩

/-- A program whose failure nobody hears of. -/
def quietly (p : Program κ σ Unit) : Program κ σ Unit := p.rescue fun _ => Program.pure ()

/-- A program on a part of the state, as a part of a program with more steps. -/
def within {ι : Type} (key : κ → ι) (get : τ → σ) (set : σ → τ → τ) (p : Program κ σ α) :
    Program ι τ α :=
  ⟨fun faults t =>
    ((p.run (fun k => faults (key k)) (get t)).1,
      set (p.run (fun k => faults (key k)) (get t)).2 t)⟩

end Program

open Program

variable {faults : κ → Outcome} {s t : σ} {p : Program κ σ α} {k : α → Program κ σ β}

/-! ## Rules -/

@[simp] theorem run_pure (a : α) : (Pure.pure a : Program κ σ α).run faults s = (.ok a, s) := rfl

@[simp] theorem run_throw (error : String) :
    (Program.throw error : Program κ σ α).run faults s = (.error error, s) := rfl

@[simp] theorem settle_ok (a : α) (s : σ) (ok : α → σ → ρ) (error : String → σ → ρ) :
    settle (.ok a, s) ok error = ok a s := rfl

@[simp] theorem settle_error (e : String) (s : σ) (ok : α → σ → ρ) (error : String → σ → ρ) :
    settle (.error e, s) ok error = error e s := rfl

@[simp] theorem decide_done (s : σ) (r : Except String α × σ) : Outcome.done.decide s r = r := rfl

@[simp] theorem decide_fails (e : String) (s : σ) (r : Except String α × σ) :
    (Outcome.fails e).decide s r = (.error e, s) := rfl

@[simp] theorem run_step (key : κ) (act : σ → Except String α × σ) :
    (step key act).run faults s = (faults key).decide s (act s) := rfl

@[simp] theorem run_perform (key : κ) (effect : σ → σ) :
    (perform key effect).run faults s = (faults key).decide s (.ok (), effect s) := rfl

@[simp] theorem run_observe (key : κ) (answer : σ → Except String α) :
    (observe key answer).run faults s = (faults key).decide s (answer s, s) := rfl

@[simp] theorem run_rescue (handler : String → Program κ σ α) : (p.rescue handler).run faults s =
    settle (p.run faults s) (fun a t => (.ok a, t)) fun e t => (handler e).run faults t := rfl

@[simp] theorem run_inspect : (inspect : Program κ σ σ).run faults s = (.ok s, s) := rfl

@[simp] theorem run_bind : (p >>= k).run faults s =
    settle (p.run faults s) (fun a t => (k a).run faults t) fun e t => (.error e, t) := rfl

theorem run_bind_ok {a : α} (h : p.run faults s = (.ok a, t)) :
    (p >>= k).run faults s = (k a).run faults t := by
  rw [run_bind, h]
  rfl

theorem run_bind_error {e : String} (h : p.run faults s = (.error e, t)) :
    (p >>= k).run faults s = (.error e, t) := by
  rw [run_bind, h]
  rfl

@[simp] theorem run_map {f : α → β} :
    (f <$> p).run faults s = ((p.run faults s).1.map f, (p.run faults s).2) := by
  show settle (p.run faults s) (fun a t => (Except.ok (f a), t)) (fun e t => (Except.error e, t)) =
      _
  rcases p.run faults s with ⟨_ | _, t⟩
  · rfl
  · rfl

/-- A program returns when its first part does, and then its second. -/
theorem bind_eq_ok {b : β} {u : σ} :
    (p >>= k).run faults s = (.ok b, u) ↔
      ∃ a t, p.run faults s = (.ok a, t) ∧ (k a).run faults t = (.ok b, u) := by
  rcases hp : p.run faults s with ⟨_ | a, t⟩
  · rw [run_bind_error hp]
    exact iff_of_false (by rintro ⟨⟩) (by rintro ⟨_, _, ⟨⟩, _⟩)
  · rw [run_bind_ok hp]
    constructor
    · intro h
      exact ⟨a, t, rfl, h⟩
    · rintro ⟨_, _, ⟨⟩, h⟩
      exact h

theorem step_done {key : κ} {act : σ → Except String α × σ} (h : faults key = .done) :
    (step key act).run faults s = act s := by
  show (faults key).decide s (act s) = act s
  rw [h]
  rfl

theorem step_fails {key : κ} {act : σ → Except String α × σ} {e : String}
    (h : faults key = .fails e) :
    (step key act).run faults s = (.error e, s) := by
  show (faults key).decide s (act s) = _
  rw [h]
  rfl

/-- A step answers only when it is done. -/
theorem step_eq_ok {key : κ} {act : σ → Except String α × σ} {a : α} :
    (step key act).run faults s = (.ok a, t) ↔ faults key = .done ∧ act s = (.ok a, t) := by
  show (faults key).decide s (act s) = _ ↔ _
  cases faults key with
  | done => exact (and_iff_right rfl).symm
  | fails e => exact iff_of_false (by rintro ⟨⟩) (by rintro ⟨⟨⟩, _⟩)
  | lost e => exact iff_of_false (by rintro ⟨⟩) (by rintro ⟨⟨⟩, _⟩)

theorem perform_eq_ok {key : κ} {effect : σ → σ} {a : Unit} :
    (perform key effect).run faults s = (.ok a, t) ↔ faults key = .done ∧ effect s = t := by
  refine step_eq_ok.trans (and_congr_right fun _ => ?_)
  rw [Prod.mk.injEq]
  exact and_iff_right rfl

theorem observe_eq_ok {key : κ} {answer : σ → Except String α} {a : α} :
    (observe key answer).run faults s = (.ok a, t) ↔ faults key = .done ∧ answer s = .ok a ∧
      s = t := by
  refine step_eq_ok.trans (and_congr_right fun _ => ?_)
  rw [Prod.mk.injEq]

/-- A program that is quiet always returns. -/
@[simp] theorem run_quietly (p : Program κ σ Unit) :
    (quietly p).run faults s = (.ok (), (p.run faults s).2) := by
  show settle (p.run faults s) (fun a t => (Except.ok a, t)) (fun _ t => (Except.ok (), t)) = _
  rcases p.run faults s with ⟨_ | _, t⟩
  · rfl
  · rfl

theorem run_rescue_ok {handler : String → Program κ σ α} {a : α} (h : p.run faults s = (.ok a, t)) :
    (p.rescue handler).run faults s = (.ok a, t) := by
  show settle (p.run faults s) _ _ = _
  rw [h]
  rfl

theorem run_rescue_error {handler : String → Program κ σ α} {e : String}
    (h : p.run faults s = (.error e, t)) :
    (p.rescue handler).run faults s = (handler e).run faults t := by
  show settle (p.run faults s) _ _ = _
  rw [h]
  rfl

/-- A handler that throws does not turn a failure into a result. -/
theorem rescue_eq_ok {handler : String → Program κ σ α} {a : α}
    (hthrows : ∀ e u, ∃ e' u', (handler e).run faults u = (.error e', u')) :
    (p.rescue handler).run faults s = (.ok a, t) ↔ p.run faults s = (.ok a, t) := by
  rcases hp : p.run faults s with ⟨e | b, u⟩
  · obtain ⟨e', u', h⟩ := hthrows e u
    rw [run_rescue_error hp, h]
    exact iff_of_false (by rintro ⟨⟩) (by rintro ⟨⟩)
  · rw [run_rescue_ok hp]

end Injection
