import Mathlib.Algebra.GroupWithZero.Nat
import Mathlib.Data.List.Nodup
import Mathlib.Data.List.Perm.Subperm

/-! # Taking out by position

    Positions are found in one list and taken out of it one after the other, each
    counted in what the ones before have left.  What is left is what is not listed
    exactly where every position meets a listed element, or none (`Meets`).  For
    the positions of all listed elements, each once, this is to say that they come
    from the back to the front (`meets_iff_decreasing`): the sum of the positions
    is what it is on entry only if no removal moves a listed element. -/

namespace Splicing

variable {α : Type}

def removeAt (l : List α) (ps : List Nat) : List α := ps.foldl List.eraseIdx l

/-- What is found at each position when its turn comes. -/
def taken : List α → List Nat → List (Option α)
  | _, []      => []
  | l, p :: ps => l[p]? :: taken (l.eraseIdx p) ps

section Listed

variable (listed : α → Bool)

/-- Only listed elements are taken out, until there is none. -/
def Meets : List α → List Nat → Prop
  | l, []      => ∀ x ∈ l, listed x = false
  | l, p :: ps => (∀ x, l[p]? = some x → listed x = true) ∧ Meets (l.eraseIdx p) ps

/-- The positions of the listed elements. -/
def positions : List α → List Nat
  | []      => []
  | x :: xs => (if listed x then [0] else []) ++ (positions xs).map (· + 1)

variable {listed} {l : List α} {p : Nat} {x : α}

/-! ## One removal -/

theorem eq_take_drop (h : l[p]? = some x) : l = l.take p ++ x :: l.drop (p + 1) := by
  obtain ⟨hp, rfl⟩ := List.getElem?_eq_some_iff.mp h
  rw [List.getElem_cons_drop, List.take_append_drop]

theorem perm_eraseIdx (h : l[p]? = some x) : l.Perm (x :: l.eraseIdx p) := by
  conv_lhs => rw [eq_take_drop h]
  rw [List.eraseIdx_eq_take_drop_succ]
  exact List.perm_middle

theorem eraseIdx_of_none (h : l[p]? = none) : l.eraseIdx p = l :=
  List.eraseIdx_of_length_le (List.getElem?_eq_none_iff.mp h)

/-- A listed element is not missed among the others. -/
theorem filter_eraseIdx (h : l[p]? = some x) (hx : listed x = true) :
    (l.eraseIdx p).filter (fun y => !listed y) = l.filter fun y => !listed y := by
  conv_rhs => rw [eq_take_drop h]
  rw [List.eraseIdx_eq_take_drop_succ, List.filter_append, List.filter_append,
    List.filter_cons_of_neg (by simp [hx])]

theorem countP_eraseIdx (h : l[p]? = some x) (q : α → Bool) :
    l.countP q = (l.eraseIdx p).countP q + if q x then 1 else 0 := by
  rw [(perm_eraseIdx h).countP_eq, List.countP_cons]

/-! ## All removals -/

theorem removeAt_sublist (ps : List Nat) : (removeAt l ps).Sublist l := by
  induction ps generalizing l with
  | nil => exact List.Sublist.refl l
  | cons p ps ih => exact (ih (l := l.eraseIdx p)).trans (List.eraseIdx_sublist l p)

theorem length_taken (l : List α) (ps : List Nat) : (taken l ps).length = ps.length := by
  induction ps generalizing l with
  | nil => rfl
  | cons p ps ih => exact congrArg (· + 1) (ih (l.eraseIdx p))

/-- Nothing is taken out where every position is behind the end. -/
theorem removeAt_eq_self_iff (l : List α) (ps : List Nat) : removeAt l ps = l ↔
    ∀ p ∈ ps, l.length ≤ p := by
  induction ps with
  | nil => exact iff_of_true rfl fun _ h => by cases h
  | cons p ps ih =>
      rw [List.forall_mem_cons, ← ih]
      show removeAt (l.eraseIdx p) ps = l ↔ _
      by_cases hp : l.length ≤ p
      · rw [List.eraseIdx_of_length_le hp, and_iff_right hp]
      · refine iff_of_false (fun h => ?_) fun h => hp h.1
        have hlength := (removeAt_sublist (l := l.eraseIdx p) ps).length_le
        rw [h, List.length_eraseIdx_of_lt (Nat.lt_of_not_le hp)] at hlength
        omega

/-- **What is left** is what is not listed, where only listed elements are met. -/
theorem removeAt_eq_filter_iff (l : List α) (ps : List Nat) :
    removeAt l ps = l.filter (fun y => !listed y) ↔ Meets listed l ps := by
  induction ps generalizing l with
  | nil =>
      show l = _ ↔ _
      rw [eq_comm, List.filter_eq_self, Meets]
      simp
  | cons p ps ih =>
      show removeAt (l.eraseIdx p) ps = _ ↔ _
      rw [Meets]
      cases hp : l[p]? with
      | none =>
          rw [eraseIdx_of_none hp, ih]
          simp
      | some x =>
          by_cases hx : listed x = true
          · rw [← filter_eraseIdx hp hx, ih]
            simp [hx]
          · refine iff_of_false ?_ fun h => hx (h.1 x rfl)
            intro h
            -- one unlisted element less than there should be
            have hcount := (removeAt_sublist (l := l.eraseIdx p) ps).countP_le (p := fun y =>
                !listed y)
            have hsame : l.countP (fun y => (!listed y) && !listed y) = l.countP fun y =>
                !listed y :=
              congrArg (l.countP ·) (funext fun y => Bool.and_self (!listed y))
            have hlisted : (!listed x) = true := by rw [Bool.eq_false_iff.mpr hx]; rfl
            rw [h, List.countP_filter, hsame, countP_eraseIdx hp, if_pos hlisted] at hcount
            exact Nat.not_succ_le_self _ hcount

/-- No more is met than there are positions. -/
theorem Meets.countP_le {ps : List Nat} (h : Meets listed l ps) : l.countP listed ≤ ps.length := by
  induction ps generalizing l with
  | nil =>
      rw [Meets] at h
      rw [List.countP_eq_zero.mpr fun x hx => by simp [h x hx]]
      exact Nat.zero_le _
  | cons p ps ih =>
      have hle := ih h.2
      cases hp : l[p]? with
      | none =>
          rw [eraseIdx_of_none hp] at hle
          exact Nat.le_succ_of_le hle
      | some x =>
          rw [countP_eraseIdx hp, if_pos (h.1 x hp)]
          exact Nat.succ_le_succ hle

/-- With as many positions as listed elements, the first one meets a listed element. -/
theorem Meets.first {ps : List Nat} (h : Meets listed l (p :: ps))
    (hlength : l.countP listed = ps.length + 1) :
    ∃ x, l[p]? = some x ∧ listed x = true ∧ (l.eraseIdx p).countP listed = ps.length := by
  cases hp : l[p]? with
  | none =>
      have hle := h.2.countP_le
      rw [eraseIdx_of_none hp, hlength] at hle
      exact absurd hle (Nat.not_succ_le_self _)
  | some x =>
      have hx := h.1 x hp
      rw [countP_eraseIdx hp, if_pos hx] at hlength
      exact ⟨x, rfl, hx, Nat.succ.inj hlength⟩

/-- What is taken then are the listed elements. -/
theorem Meets.taken {ps : List Nat} (h : Meets listed l ps)
    (hlength : l.countP listed = ps.length) :
    ∃ xs : List α, Splicing.taken l ps = xs.map some ∧ xs.Perm (l.filter listed) := by
  induction ps generalizing l with
  | nil =>
      refine ⟨[], rfl, ?_⟩
      rw [List.filter_eq_nil_iff.mpr (List.countP_eq_zero.mp hlength)]
  | cons p ps ih =>
      obtain ⟨x, hp, hx, hlength⟩ := h.first hlength
      obtain ⟨xs, hxs, hperm⟩ := ih h.2 hlength
      refine ⟨x :: xs, ?_, ?_⟩
      · rw [Splicing.taken, hp, hxs]
        rfl
      · have hfilter := (perm_eraseIdx hp).filter listed
        rw [List.filter_cons_of_pos hx] at hfilter
        exact (hperm.cons x).trans hfilter.symm

/-! ## Positions -/

theorem mem_positions : p ∈ positions listed l ↔ ∃ x, l[p]? = some x ∧ listed x = true := by
  induction l generalizing p with
  | nil => simp [positions]
  | cons y ys ih =>
      rw [positions, List.mem_append, List.mem_map]
      cases p with
      | zero => by_cases hy : listed y = true <;> simp [hy]
      | succ p =>
          rw [List.getElem?_cons_succ, ← ih]
          by_cases hy : listed y = true <;> simp [hy]

theorem length_positions : (positions listed l).length = l.countP listed := by
  induction l with
  | nil => rfl
  | cons y ys ih =>
      rw [positions, List.length_append, List.length_map, ih, List.countP_cons, Nat.add_comm]
      by_cases hy : listed y = true <;> simp [hy]

theorem nodup_positions : (positions listed l).Nodup := by
  induction l with
  | nil => exact List.nodup_nil
  | cons y ys ih =>
      have hmap : ((positions listed ys).map (· + 1)).Nodup :=
        List.Nodup.map (fun a b h => Nat.succ.inj h) ih
      rw [positions]
      by_cases hy : listed y = true
      · rw [if_pos hy, List.singleton_append, List.nodup_cons]
        exact ⟨by simp, hmap⟩
      · rw [if_neg hy, List.nil_append]
        exact hmap

theorem map_positions (l : List α) : (positions listed l).map
    (fun p => l[p]?) = (l.filter listed).map some := by
  induction l with
  | nil => rfl
  | cons y ys ih =>
      rw [positions, List.map_append, List.map_map]
      show _ ++ (positions listed ys).map (fun p => ys[p]?) = _
      rw [ih]
      by_cases hy : listed y = true <;> simp [hy]

theorem sum_map_succ (ps : List Nat) : (ps.map (· + 1)).sum = ps.sum + ps.length := by
  induction ps with
  | nil => rfl
  | cons p ps ih =>
      rw [List.map_cons, List.sum_cons, ih, List.sum_cons, List.length_cons]
      omega

theorem sum_positions_cons (y : α) (ys : List α) :
    (positions listed (y :: ys)).sum = (positions listed ys).sum + ys.countP listed := by
  rw [positions, List.sum_append, sum_map_succ, length_positions]
  by_cases hy : listed y = true <;> simp [hy]

/-- A removal moves the listed elements behind it by one. -/
theorem sum_positions (h : l[p]? = some x) (hx : listed x = true) :
    (positions listed l).sum
      = p + (l.drop (p + 1)).countP listed + (positions listed (l.eraseIdx p)).sum := by
  induction l generalizing p with
  | nil => cases h
  | cons y ys ih =>
      rw [sum_positions_cons]
      cases p with
      | zero =>
          show _ = 0 + ys.countP listed + (positions listed ys).sum
          omega
      | succ p =>
          rw [List.getElem?_cons_succ] at h
          have hcount := countP_eraseIdx h listed
          rw [if_pos hx] at hcount
          rw [ih h, List.drop_succ_cons, List.eraseIdx_cons_succ, sum_positions_cons]
          omega

/-! ## From the back to the front -/

/-- Behind the last listed element there is none. -/
theorem lt_of_last (hlast : (l.drop (p + 1)).countP listed = 0) {q : Nat} {y : α}
    (hq : (l.eraseIdx p)[q]? = some y) (hy : listed y = true) : q < p := by
  by_contra hle
  rw [List.getElem?_eraseIdx_of_ge (Nat.le_of_not_lt hle)] at hq
  have hmem : y ∈ l.drop (p + 1) := by
    refine List.mem_iff_getElem?.mpr ⟨q - p, ?_⟩
    rw [List.getElem?_drop, ← hq]
    congr 1
    omega
  exact List.countP_eq_zero.mp hlast y hmem hy

theorem Meets.sum {ps : List Nat} (h : Meets listed l ps) (hlength : l.countP listed = ps.length) :
    ps.sum ≤ (positions listed l).sum ∧
      (ps.sum = (positions listed l).sum → ps.Pairwise (· > ·)) := by
  induction ps generalizing l with
  | nil => exact ⟨Nat.zero_le _, fun _ => List.Pairwise.nil⟩
  | cons p ps ih =>
      obtain ⟨x, hp, hx, hlength⟩ := h.first hlength
      obtain ⟨hle, hsorted⟩ := ih h.2 hlength
      have hsum := sum_positions hp hx
      rw [List.sum_cons]
      refine ⟨by omega, fun heq => ?_⟩
      have hlast : (l.drop (p + 1)).countP listed = 0 := by omega
      have hps := hsorted (by omega)
      refine List.pairwise_cons.mpr ⟨?_, hps⟩
      intro q hq
      cases ps with
      | nil => cases hq
      | cons r ps =>
          obtain ⟨y, hr, hy, -⟩ := h.2.first hlength
          have hr := lt_of_last hlast hr hy
          rcases List.mem_cons.mp hq with rfl | hq
          · exact hr
          · exact Nat.lt_trans ((List.pairwise_cons.mp hps).1 q hq) hr

theorem meets_of_decreasing {ps : List Nat} (hps : ps.Pairwise (· > ·))
    (hmem : ∀ q, q ∈ ps ↔ q ∈ positions listed l) : Meets listed l ps := by
  induction ps generalizing l with
  | nil =>
      intro x hx
      obtain ⟨q, hq⟩ := List.mem_iff_getElem?.mp hx
      by_contra hlisted
      have hpos : q ∈ positions listed l := mem_positions.mpr ⟨x, hq, Bool.not_eq_false _ ▸ hlisted⟩
      cases (hmem q).mpr hpos
  | cons p ps ih =>
      obtain ⟨hlt, hps⟩ := List.pairwise_cons.mp hps
      constructor
      · intro x hp
        obtain ⟨y, hy, hlisted⟩ := mem_positions.mp ((hmem p).mp List.mem_cons_self)
        rw [hp] at hy
        exact Option.some.inj hy ▸ hlisted
      · refine ih hps fun q => ?_
        by_cases hqp : q < p
        · rw [mem_positions, List.getElem?_eraseIdx_of_lt hqp, ← mem_positions, ← hmem,
            List.mem_cons]
          exact (or_iff_right (Nat.ne_of_lt hqp)).symm
        · refine iff_of_false (fun hq => hqp (hlt q hq)) ?_
          rw [mem_positions, List.getElem?_eraseIdx_of_ge (Nat.le_of_not_lt hqp), ← mem_positions,
            ← hmem]
          intro hq
          rcases List.mem_cons.mp hq with hq | hq
          · omega
          · have := hlt _ hq
            omega

/-- **All listed positions, each once**, meet what they were found for exactly in decreasing order.
-/
theorem meets_iff_decreasing {ps : List Nat} (h : ps.Perm (positions listed l)) :
    Meets listed l ps ↔ ps.Pairwise (· > ·) := by
  constructor
  · intro hmeets
    refine (hmeets.sum ?_).2 h.sum_nat
    rw [h.length_eq, length_positions]
  · intro hps
    exact meets_of_decreasing hps fun q => h.mem_iff

end Listed

end Splicing
