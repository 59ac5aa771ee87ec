import Mathlib.Data.List.Sort

/-! # Sorting in parts

    `List.insertionSort` is stable, and lists that have been sorted on their own can be
    sorted together: what comes first is among what comes first in each of them.

    * `sort_append` is a sort of two lists as a merge;
    * `take_sort_flatMap` is a page of many lists, from a page of each;
    * `filter_sort` says that it does not matter what is dropped, and when;
    * `sort_eq_sort_iff` says when two lists are sorted alike. -/

namespace StableSort

variable {α : Type} (r : α → α → Prop) [DecidableRel r]

/-- The left list goes first where both may. -/
def merge (xs ys : List α) : List α := List.merge xs ys fun a b => r a b

@[simp] theorem merge_nil_left (ys : List α) : merge r [] ys = ys := List.nil_merge ys

@[simp] theorem merge_nil_right (xs : List α) : merge r xs [] = xs := List.merge_right xs

theorem merge_cons (a b : α) (xs ys : List α) :
    merge r (a :: xs) (b :: ys) = if r a b then a :: merge r xs (b :: ys) else b ::
      merge r (a :: xs) ys := by
  rw [merge, List.cons_merge_cons]
  simp only [decide_eq_true_eq]
  rfl

/-- A page of a merge is a merge of pages. -/
theorem take_merge (n : Nat) (xs ys : List α) :
    (merge r xs ys).take n = (merge r (xs.take n) (ys.take n)).take n := by
  induction n generalizing xs ys with
  | zero => rfl
  | succ n ih =>
      have hshort : ∀ (z : α) (zs : List α), (z :: zs.take n).take n = (z :: zs).take n := by
        intro z zs
        rw [← List.take_succ_cons, List.take_take, Nat.min_eq_left (Nat.le_succ n)]
      cases xs with
      | nil => simp [List.take_take]
      | cons a xs =>
          cases ys with
          | nil => simp [List.take_take]
          | cons b ys =>
              rw [List.take_succ_cons, List.take_succ_cons, merge_cons, merge_cons]
              split
              · rw [List.take_succ_cons, List.take_succ_cons, ih xs (b :: ys),
                  ih (xs.take n) (b :: ys.take n), hshort, List.take_take, Nat.min_self]
              · rw [List.take_succ_cons, List.take_succ_cons, ih (a :: xs) ys,
                  ih (a :: xs.take n) (ys.take n), hshort, List.take_take, Nat.min_self]

section Order

variable [Std.Total r] [IsTrans α r]

/-- An element of the left list goes before those that are not smaller. -/
theorem orderedInsert_merge (x : α) (xs ys : List α) :
    (merge r xs ys).orderedInsert r x = merge r (xs.orderedInsert r x) ys := by
  induction xs generalizing ys with
  | nil =>
      induction ys with
      | nil => simp
      | cons b ys ih =>
          rw [merge_nil_left, List.orderedInsert_cons, List.orderedInsert_nil, merge_cons,
            merge_nil_left]
          split
          · rfl
          · rw [merge_nil_left, List.orderedInsert_nil] at ih
            rw [ih]
  | cons a xs ihxs =>
      induction ys with
      | nil => simp
      | cons b ys ihys =>
          by_cases hab : r a b
          · rw [merge_cons, if_pos hab, List.orderedInsert_cons, List.orderedInsert_cons]
            by_cases hxa : r x a
            · have hxb : r x b := trans_of r hxa hab
              rw [if_pos hxa, if_pos hxa, merge_cons, if_pos hxb, merge_cons, if_pos hab]
            · rw [if_neg hxa, if_neg hxa, merge_cons, if_pos hab, ihxs]
          · rw [merge_cons, if_neg hab, List.orderedInsert_cons]
            by_cases hxb : r x b
            · have hxa : r x a := by
                by_contra hxa
                exact hab (trans_of r ((Std.Total.total x a).resolve_left hxa) hxb)
              rw [if_pos hxb, List.orderedInsert_cons, if_pos hxa, merge_cons, if_pos hxb,
                merge_cons, if_neg hab]
            · rw [if_neg hxb, ihys, List.orderedInsert_cons]
              by_cases hxa : r x a
              · rw [if_pos hxa, merge_cons, if_neg hxb]
              · rw [if_neg hxa, merge_cons, if_neg hab]

theorem sort_append (xs ys : List α) :
    (xs ++ ys).insertionSort r = merge r (xs.insertionSort r) (ys.insertionSort r) := by
  induction xs with
  | nil => exact (merge_nil_left r _).symm
  | cons x xs ih => rw [List.cons_append, List.insertionSort_cons, ih, orderedInsert_merge,
      List.insertionSort_cons]

/-- What is sorted stays as it is, and so does a page of it. -/
theorem sort_take_sort (n : Nat) (xs : List α) :
    ((xs.insertionSort r).take n).insertionSort r = (xs.insertionSort r).take n :=
  ((List.pairwise_insertionSort r xs).sublist (List.take_sublist n _)).insertionSort_eq

theorem sort_sort (xs : List α) : (xs.insertionSort r).insertionSort r = xs.insertionSort r :=
  (List.pairwise_insertionSort r xs).insertionSort_eq

/-- Lists that have been sorted already are sorted together as they were. -/
theorem sort_flatMap (lists : List (List α)) :
    (lists.flatMap fun xs => xs.insertionSort r).insertionSort r =
      lists.flatten.insertionSort r := by
  induction lists with
  | nil => rfl
  | cons xs lists ih => rw [List.flatMap_cons, sort_append, sort_sort, ih, List.flatten_cons,
      sort_append]

/-- **A page from pages.** Of each list, it is enough to have what comes first. -/
theorem take_sort_flatMap (n : Nat) {page : List α → List α} {lists : List (List α)}
    (h : ∀ xs ∈ lists, ((page xs).insertionSort r).take n = (xs.insertionSort r).take n) :
    ((lists.flatMap page).insertionSort r).take n = (lists.flatten.insertionSort r).take n := by
  induction lists with
  | nil => rfl
  | cons xs lists ih =>
      have hrest := ih fun ys hys => h ys (List.mem_cons_of_mem _ hys)
      rw [List.flatMap_cons, sort_append, take_merge, h xs (List.mem_cons_self ..), hrest,
        ← take_merge, List.flatten_cons, sort_append]

omit [Std.Total r] in
theorem filter_orderedInsert (p : α → Bool) (x : α) {xs : List α} (hxs : xs.Pairwise r) :
    (xs.orderedInsert r x).filter p =
      if p x then (xs.filter p).orderedInsert r x else xs.filter p := by
  induction xs with
  | nil =>
      rw [List.orderedInsert_nil, List.filter_nil, List.orderedInsert_nil]
      cases hx : p x with
      | true => simp [hx]
      | false => simp [hx]
  | cons y xs ih =>
      obtain ⟨hy, hrest⟩ := List.pairwise_cons.mp hxs
      rw [List.orderedInsert_cons]
      by_cases hxy : r x y
      · -- whatever is left is not smaller than what goes before it
        have hfirst : ((y :: xs).filter p).orderedInsert r x = x :: (y :: xs).filter p := by
          have hall : ∀ z ∈ (y :: xs).filter p, r x z := by
            intro z hz
            rcases List.mem_cons.mp (List.mem_filter.mp hz).1 with rfl | hz
            · exact hxy
            · exact trans_of r hxy (hy z hz)
          cases hfilter : (y :: xs).filter p with
          | nil => rfl
          | cons z zs =>
              rw [hfilter] at hall
              exact List.orderedInsert_cons_of_le r zs (hall z (List.mem_cons_self ..))
        rw [if_pos hxy, hfirst]
        cases hx : p x with
        | true => simp [hx]
        | false => simp [hx]
      · rw [if_neg hxy]
        cases hp : p y with
        | true =>
            rw [List.filter_cons_of_pos hp, List.filter_cons_of_pos hp, ih hrest,
              List.orderedInsert_cons, if_neg hxy]
            split
            · rfl
            · rfl
        | false =>
            have hnot : ¬ p y = true := by simp [hp]
            rw [List.filter_cons_of_neg hnot, List.filter_cons_of_neg hnot, ih hrest]

theorem filter_sort (p : α → Bool) (xs : List α) :
    (xs.insertionSort r).filter p = (xs.filter p).insertionSort r := by
  induction xs with
  | nil => rfl
  | cons x xs ih =>
      rw [List.insertionSort_cons, filter_orderedInsert r p x (List.pairwise_insertionSort r xs),
        ih]
      cases hx : p x with
      | true => rw [if_pos rfl, List.filter_cons_of_pos hx, List.insertionSort_cons]
      | false => rw [if_neg Bool.false_ne_true, List.filter_cons_of_neg (by simp [hx])]

/-- What a sort keeps of the order of its input: elements of one rank stay as they were. -/
theorem pairwise_sort_ties {s : α → α → Prop} {xs : List α}
    (h : xs.Pairwise fun a b => r a b → r b a → s a b) :
    (xs.insertionSort r).Pairwise fun a b => r a b ∧ (r b a → s a b) := by
  induction xs with
  | nil => exact List.Pairwise.nil
  | cons x xs ih =>
      obtain ⟨hx, hrest⟩ := List.pairwise_cons.mp h
      have hfirst : ∀ y ∈ xs.insertionSort r, r x y → r y x → s x y := by
        intro y hy
        exact hx y ((List.mem_insertionSort r).mp hy)
      rw [List.insertionSort_cons]
      have hsorted := ih hrest
      clear ih h hx hrest
      generalize xs.insertionSort r = sorted at hfirst hsorted
      induction sorted with
      | nil => exact List.pairwise_singleton _ _
      | cons y ys ih =>
          obtain ⟨hy, hys⟩ := List.pairwise_cons.mp hsorted
          rw [List.orderedInsert_cons]
          split
          · rename_i hxy
            refine List.pairwise_cons.mpr ⟨?_, hsorted⟩
            intro z hz
            refine ⟨?_, hfirst z hz ?_⟩
            all_goals rcases List.mem_cons.mp hz with rfl | hz
            · exact hxy
            · exact trans_of r hxy (hy z hz).1
            · exact hxy
            · exact trans_of r hxy (hy z hz).1
          · rename_i hxy
            have hrest := ih (fun z hz => hfirst z (List.mem_cons_of_mem _ hz)) hys
            refine List.pairwise_cons.mpr ⟨?_, hrest⟩
            intro z hz
            rcases (List.mem_orderedInsert r).mp hz with rfl | hz
            · exact ⟨(Std.Total.total z y).resolve_left hxy, fun h => absurd h hxy⟩
            · exact hy z hz

/-- **Two sorts agree.** Where the elements of the one list stand in the order of their
    places, the sort of the other is the same if it has these elements, and those of one
    rank in the same order. -/
theorem sort_eq_sort_iff {place : α → Nat} {xs ys : List α}
    (hxs : xs.Pairwise fun a b => place a < place b) :
    xs.insertionSort r = ys.insertionSort r ↔
      xs.Perm ys ∧ ys.Pairwise fun a b => r a b → r b a → place a < place b := by
  have hleft := pairwise_sort_ties r (hxs.imp fun hlt _ _ => hlt)
  constructor
  · intro heq
    constructor
    · have hperm := (List.perm_insertionSort r xs).symm
      rw [heq] at hperm
      exact hperm.trans (List.perm_insertionSort r ys)
    · rw [List.pairwise_iff_forall_sublist]
      intro a b hsub hab hba
      have hsorted := List.pair_sublist_insertionSort hab hsub
      rw [← heq] at hsorted
      exact (List.pairwise_iff_forall_sublist.mp hleft hsorted).2 hba
  · rintro ⟨hperm, hys⟩
    refine List.Perm.eq_of_pairwise ?_ hleft (pairwise_sort_ties r hys) ?_
    · intro a b _ _ hab hba
      exact absurd (hab.2 hba.1) (Nat.lt_asymm (hba.2 hab.1))
    · exact ((List.perm_insertionSort r xs).trans hperm).trans (List.perm_insertionSort r ys).symm

end Order

/-- Two relations that say the same of the elements sort them in the same way. -/
theorem sort_congr {s : α → α → Prop} [DecidableRel s] {xs : List α}
    (h : xs.Pairwise fun a b => r a b ↔ s a b) :
    xs.insertionSort r = xs.insertionSort s := by
  induction xs with
  | nil => rfl
  | cons x xs ih =>
      obtain ⟨hx, hrest⟩ := List.pairwise_cons.mp h
      rw [List.insertionSort_cons, List.insertionSort_cons, ih hrest]
      have hinsert : ∀ ys : List α, (∀ y ∈ ys, r x y ↔ s x y) →
          ys.orderedInsert r x = ys.orderedInsert s x := by
        intro ys
        induction ys with
        | nil => exact fun _ => rfl
        | cons y ys ih =>
            intro hys
            rw [List.orderedInsert_cons, List.orderedInsert_cons, ih fun z hz =>
              hys z (List.mem_cons_of_mem _ hz)]
            simp only [hys y (List.mem_cons_self ..)]
      exact hinsert _ fun y hy => hx y ((List.mem_insertionSort s).mp hy)

end StableSort
