import Mathlib.Data.List.Basic

/-! # Calls that await

    A call runs to its next `await`, and there reads or updates one document that
    other calls read and update as well.

    * `finish` runs a call to its end with nobody in between;
    * `resume` takes it over one await;
    * `finish_of_resume` says the two agree, and `Local` compares calls by the
      part of the document that they see. -/

/-- A call on documents `δ`, with updates `ω`; what it has computed by an await
    is in what it does next. -/
inductive Promise (δ ω α : Type) where
  | returned (result : Except String α)
  | get (next : δ → Promise δ ω α)
  | update (data : ω) (next : Promise δ ω α)

namespace Promise

variable {δ ω α β : Type}

def bind : Promise δ ω α → (α → Promise δ ω β) → Promise δ ω β
  | returned (.ok a), k    => k a
  | returned (.error e), _ => returned (.error e)
  | get next, k            => get fun d => (next d).bind k
  | update data next, k    => update data (next.bind k)

instance : Monad (Promise δ ω) where
  pure a := returned (.ok a)
  bind   := bind

/-- `await userService.get(..)` and the like. -/
def fetch : Promise δ ω δ := get fun d => returned (.ok d)

def store (data : ω) : Promise δ ω Unit := update data (returned (.ok ()))

def fail (error : String) : Promise δ ω α := returned (.error error)

@[simp] theorem pure_eq (a : α) : (pure a : Promise δ ω α) = returned (.ok a) := rfl

@[simp] theorem bind_eq (t : Promise δ ω α) (k : α → Promise δ ω β) : t >>= k = t.bind k := rfl

@[simp] theorem bind_ok (a : α) (k : α → Promise δ ω β) :
    (returned (.ok a) : Promise δ ω α).bind k = k a := rfl

@[simp] theorem bind_error (e : String) (k : α → Promise δ ω β) :
    (returned (.error e) : Promise δ ω α).bind k = returned (.error e) := rfl

@[simp] theorem bind_get (next : δ → Promise δ ω α) (k : α → Promise δ ω β) :
    (get next).bind k = get fun d => (next d).bind k := rfl

@[simp] theorem bind_update (data : ω) (next : Promise δ ω α) (k : α → Promise δ ω β) :
    (update data next).bind k = update data (next.bind k) := rfl

variable (apply : ω → δ → δ)

/-- To the end, with nobody in between. -/
def finish : Promise δ ω α → δ → δ × Except String α
  | returned result, d  => (d, result)
  | get next, d         => finish (next d) d
  | update data next, d => finish next (apply data d)

/-- Over one await; a call that has returned does not go on. -/
def resume : Promise δ ω α → δ → Option (δ × Promise δ ω α)
  | returned _, _       => none
  | get next, d         => some (d, next d)
  | update data next, d => some (apply data d, next)

@[simp] theorem finish_returned (r : Except String α) (d : δ) :
    finish apply (returned r : Promise δ ω α) d = (d, r) := rfl

@[simp] theorem finish_get (next : δ → Promise δ ω α) (d : δ) :
    finish apply (get next) d = finish apply (next d) d := rfl

@[simp] theorem finish_update (data : ω) (next : Promise δ ω α) (d : δ) :
    finish apply (update data next) d = finish apply next (apply data d) := rfl

/-- The rule for sequencing. -/
theorem finish_bind (t : Promise δ ω α) (k : α → Promise δ ω β) (d : δ) :
    finish apply (t.bind k) d =
      match finish apply t d with
      | (d', .ok a)    => finish apply (k a) d'
      | (d', .error e) => (d', .error e) := by
  induction t generalizing d with
  | returned r =>
      cases r with
      | ok a => rw [bind_ok, finish_returned]
      | error e => rw [bind_error, finish_returned, finish_returned]
  | get next ih =>
      rw [bind_get, finish_get, finish_get]
      exact ih d d
  | update data next ih =>
      rw [bind_update, finish_update, finish_update]
      exact ih (apply data d)

/-- Awaits with nobody in between do not matter. -/
theorem finish_of_resume {t t' : Promise δ ω α} {d d' : δ}
    (h : resume apply t d = some (d', t')) : finish apply t' d' = finish apply t d := by
  cases t with
  | returned r => cases h
  | get next =>
      obtain ⟨rfl, rfl⟩ := Prod.mk.inj (Option.some.inj h)
      rw [finish_get]
  | update data next =>
      obtain ⟨rfl, rfl⟩ := Prod.mk.inj (Option.some.inj h)
      rw [finish_update]

/-- Whatever the call reads, its updates satisfy `P` and its result `Q`. -/
def All (P : ω → Prop) (Q : α → Prop) : Promise δ ω α → Prop
  | returned (.ok a)    => Q a
  | returned (.error _) => True
  | get next            => ∀ d, All P Q (next d)
  | update data next    => P data ∧ All P Q next

theorem all_bind {P : ω → Prop} {Q : α → Prop} {R : β → Prop} {t : Promise δ ω α}
    {k : α → Promise δ ω β} (ht : t.All P Q) (hk : ∀ a, Q a → (k a).All P R) :
    (t.bind k).All P R := by
  induction t with
  | returned r =>
      cases r with
      | ok a => exact hk a ht
      | error e => exact trivial
  | get next ih => exact fun d => ih d (ht d)
  | update data next ih => exact ⟨ht.1, ih ht.2⟩

/-- Two calls that do the same to a part of the document if they find the same
    there, and answer with what `R` relates. -/
inductive Local {ν : Type} (view : δ → ν) (R : α → α → Prop) :
    Promise δ ω α → Promise δ ω α → Prop
  | ok {a a' : α} (h : R a a') : Local view R (returned (.ok a)) (returned (.ok a'))
  | error (e e' : String) : Local view R (returned (.error e)) (returned (.error e'))
  | get {next next' : δ → Promise δ ω α}
      (h : ∀ d d', view d = view d' → Local view R (next d) (next' d')) :
      Local view R (get next) (get next')
  | update {data data' : ω} {next next' : Promise δ ω α}
      (hdata : ∀ d d', view d = view d' → view (apply data d) = view (apply data' d'))
      (h : Local view R next next') : Local view R (update data next) (update data' next')

variable {apply}

theorem Local.bind {ν : Type} {view : δ → ν} {R : α → α → Prop} {S : β → β → Prop}
    {t t' : Promise δ ω α} {k k' : α → Promise δ ω β} (h : Local apply view R t t')
    (hk : ∀ a a', R a a' → Local apply view S (k a) (k' a')) :
    Local apply view S (t.bind k) (t'.bind k') := by
  induction h with
  | ok h =>
      rw [bind_ok, bind_ok]
      exact hk _ _ h
  | error e e' =>
      rw [bind_error, bind_error]
      exact .error e e'
  | get _ ih =>
      rw [bind_get, bind_get]
      exact .get ih
  | update hdata _ ih =>
      rw [bind_update, bind_update]
      exact .update hdata ih

theorem Local.finish {ν : Type} {view : δ → ν} {R : α → α → Prop} {t t' : Promise δ ω α}
    (h : Local apply view R t t') : ∀ {d d' : δ}, view d = view d' →
      view (Promise.finish apply t d).1 = view (Promise.finish apply t' d').1 := by
  induction h with
  | ok _ =>
      intro d d' hd
      rw [finish_returned, finish_returned]
      exact hd
  | error _ _ =>
      intro d d' hd
      rw [finish_returned, finish_returned]
      exact hd
  | get _ ih =>
      intro d d' hd
      rw [finish_get, finish_get]
      exact ih d d' hd hd
  | update hdata _ ih =>
      intro d d' hd
      rw [finish_update, finish_update]
      exact ih (hdata d d' hd)

end Promise
