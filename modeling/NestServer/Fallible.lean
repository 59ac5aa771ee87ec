import Mathlib.Data.List.Forall2

/-! # Computations that may fail

    When a sequence of computations in `Except` returns, and what it returns. -/

namespace Fallible

variable {ε α β : Type}

/-- A sequence of two steps returns when both do. -/
theorem bind_eq_ok {x : Except ε α} {f : α → Except ε β} {b : β} :
    (x >>= f) = .ok b ↔ ∃ a, x = .ok a ∧ f a = .ok b := by
  cases x with
  | error e =>
      constructor
      · intro h
        cases h
      · rintro ⟨_, h, _⟩
        cases h
  | ok a =>
      constructor
      · intro h
        exact ⟨a, rfl, h⟩
      · rintro ⟨_, h, h'⟩
        exact Except.ok.inj h ▸ h'

/-- A list of steps returns the list of what they return. -/
theorem mapM_eq_ok {f : α → Except ε β} {xs : List α} {ys : List β} :
    xs.mapM f = .ok ys ↔ List.Forall₂ (fun x y => f x = .ok y) xs ys := by
  induction xs generalizing ys with
  | nil =>
      rw [List.forall₂_nil_left_iff]
      exact ⟨fun h => (Except.ok.inj h).symm, fun h => h ▸ rfl⟩
  | cons x xs ih =>
      rw [List.mapM_cons, List.forall₂_cons_left_iff, bind_eq_ok]
      constructor
      · rintro ⟨y, hy, h⟩
        obtain ⟨ys', hys, h⟩ := bind_eq_ok.mp h
        exact ⟨y, ys', hy, ih.mp hys, (Except.ok.inj h).symm⟩
      · rintro ⟨y, ys', hy, hys, rfl⟩
        exact ⟨y, hy, bind_eq_ok.mpr ⟨ys', ih.mpr hys, rfl⟩⟩

/-- What a list of steps returns is what one of them returns. -/
theorem exists_of_mem_mapM {f : α → Except ε β} {xs : List α} {ys : List β}
    (h : xs.mapM f = .ok ys) {y : β} (hy : y ∈ ys) : ∃ x ∈ xs, f x = .ok y := by
  induction mapM_eq_ok.mp h with
  | nil => cases hy
  | cons hx hrest ih =>
      rcases List.mem_cons.mp hy with rfl | hy
      · exact ⟨_, List.mem_cons_self, hx⟩
      · obtain ⟨x, hmem, hx⟩ := ih (mapM_eq_ok.mpr hrest) hy
        exact ⟨x, List.mem_cons_of_mem _ hmem, hx⟩

/-- A list of steps returns when each step does. -/
theorem exists_mapM_ok_iff {f : α → Except ε β} {xs : List α} :
    (∃ ys, xs.mapM f = .ok ys) ↔ ∀ x ∈ xs, ∃ y, f x = .ok y := by
  simp only [mapM_eq_ok]
  constructor
  · rintro ⟨ys, hys⟩ x hx
    induction hys with
    | nil => cases hx
    | cons hy _ ih =>
        rcases List.mem_cons.mp hx with rfl | hx
        · exact ⟨_, hy⟩
        · exact ih hx
  · intro h
    induction xs with
    | nil => exact ⟨[], List.Forall₂.nil⟩
    | cons x xs ih =>
        obtain ⟨y, hy⟩ := h x List.mem_cons_self
        obtain ⟨ys, hys⟩ := ih fun x' hx' => h x' (List.mem_cons_of_mem _ hx')
        exact ⟨y :: ys, List.Forall₂.cons hy hys⟩

/-- A list of checks passes when each does. -/
theorem forM_eq_ok {f : α → Except ε Unit} {xs : List α} :
    xs.forM f = .ok () ↔ ∀ x ∈ xs, f x = .ok () := by
  induction xs with
  | nil => exact iff_of_true rfl (by simp)
  | cons x xs ih =>
      show (f x >>= fun _ => xs.forM f) = .ok () ↔ _
      rw [bind_eq_ok, List.forall_mem_cons]
      constructor
      · rintro ⟨_, hx, hxs⟩
        exact ⟨hx, ih.mp hxs⟩
      · rintro ⟨hx, hxs⟩
        exact ⟨(), hx, ih.mpr hxs⟩

/-- A loop that never fails where its invariant holds does not fail, and keeps it. -/
theorem foldlM_total {σ : Type} {f : σ → α → Except ε σ} {I : List α → σ → Prop} {xs : List α}
    (hstep : ∀ done x s, x ∈ xs → (∀ y ∈ done, y ∈ xs) → I done s →
      ∃ s', f s x = .ok s' ∧ I (done ++ [x]) s') {s : σ} (hstart : I [] s) :
    ∃ s', xs.foldlM f s = .ok s' ∧ I xs s' := by
  suffices hrest : ∀ rest done : List α, done ++ rest = xs → ∀ s, I done s →
      ∃ s', rest.foldlM f s = .ok s' ∧ I xs s' from hrest xs [] rfl s hstart
  intro rest
  induction rest with
  | nil =>
      intro done hdone s hs
      rw [List.append_nil] at hdone
      exact ⟨s, rfl, hdone ▸ hs⟩
  | cons x rest ih =>
      intro done hdone s hs
      have hx : x ∈ xs := hdone ▸ List.mem_append_right _ List.mem_cons_self
      obtain ⟨s', hs', hI⟩ := hstep done x s hx
        (fun y hy => hdone ▸ List.mem_append_left _ hy) hs
      obtain ⟨out, hout, hI'⟩ := ih (done ++ [x]) (by rw [← hdone, List.append_assoc]; rfl) s' hI
      refine ⟨out, ?_, hI'⟩
      rw [List.foldlM_cons, bind_eq_ok]
      exact ⟨s', hs', hout⟩

/-- What each round keeps when it returns, the loop keeps when it returns. -/
theorem foldlM_preserves {σ : Type} {f : σ → α → Except ε σ} {I : σ → Prop} {xs : List α}
    (hstep : ∀ x ∈ xs, ∀ s s', I s → f s x = .ok s' → I s') {s s' : σ} (hstart : I s)
    (h : xs.foldlM f s = .ok s') : I s' := by
  induction xs generalizing s with
  | nil =>
      cases h
      exact hstart
  | cons x xs ih =>
      rw [List.foldlM_cons, bind_eq_ok] at h
      obtain ⟨s₁, hs₁, h⟩ := h
      exact ih (fun y hy => hstep y (List.mem_cons_of_mem _ hy))
        (hstep x List.mem_cons_self s s₁ hstart hs₁) h

end Fallible
