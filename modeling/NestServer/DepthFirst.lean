import Mathlib.Data.List.Monad
import Mathlib.Logic.Relation

/-! # Depth-first search

    A search that marks a node before it goes on to the successors, and does nothing at
    a node it has marked.  `search` runs within a call stack of bounded depth and is
    `none` where that overflows.

    `search_total` says which depth is enough, `mem_search_iff` what is marked in the
    end.  `Marks` is the invariant: what is newly marked is reached, and its successors
    are marked as well. -/

namespace DepthFirst

open Relation (ReflTransGen)

variable {ν : Type} (next : ν → List ν)

/-- The marked nodes after a search from a node. -/
def search [DecidableEq ν] : Nat → ν → List ν → Option (List ν)
  | 0, v, marked     => if v ∈ marked then some marked else none
  | n + 1, v, marked =>
      if v ∈ marked then some marked
      else (next v).foldlM (fun marked w => search n w marked) (v :: marked)

/-- Searches from several nodes, one after the other. -/
def searchAll [DecidableEq ν] (n : Nat) (nodes marked : List ν) : Option (List ν) :=
  nodes.foldlM (fun marked w => search next n w marked) marked

/-- There is an edge. -/
def Edge (v w : ν) : Prop := w ∈ next v

/-! ## What is marked -/

/-- What searches from some nodes do to the marked ones. -/
structure Marks (nodes marked marked' : List ν) : Prop where
  kept    : ∀ w ∈ marked, w ∈ marked'
  done    : ∀ w ∈ nodes, w ∈ marked'
  closed  : ∀ w ∈ marked', w ∉ marked → ∀ u ∈ next w, u ∈ marked'
  reached : ∀ w ∈ marked', w ∉ marked → ∃ v ∈ nodes, ReflTransGen (Edge next) v w

variable {next}

theorem Marks.nil (marked : List ν) : Marks next [] marked marked where
  kept _ h := h
  done _ h := absurd h List.not_mem_nil
  closed _ h hnot := absurd h hnot
  reached _ h hnot := absurd h hnot

theorem Marks.cons {v : ν} {nodes marked marked₁ marked₂ : List ν}
    (h₁ : Marks next [v] marked marked₁) (h₂ : Marks next nodes marked₁ marked₂) :
    Marks next (v :: nodes) marked marked₂ where
  kept w hw := h₂.kept w (h₁.kept w hw)
  done w hw := by
    rcases List.mem_cons.mp hw with rfl | hw
    · exact h₂.kept w (h₁.done w List.mem_cons_self)
    · exact h₂.done w hw
  closed w hw hnot u hu := by
    by_cases hw₁ : w ∈ marked₁
    · exact h₂.kept u (h₁.closed w hw₁ hnot u hu)
    · exact h₂.closed w hw hw₁ u hu
  reached w hw hnot := by
    by_cases hw₁ : w ∈ marked₁
    · obtain ⟨x, hx, hreach⟩ := h₁.reached w hw₁ hnot
      rw [List.mem_singleton] at hx
      exact ⟨v, List.mem_cons_self, hx ▸ hreach⟩
    · obtain ⟨x, hx, hreach⟩ := h₂.reached w hw hw₁
      exact ⟨x, List.mem_cons_of_mem _ hx, hreach⟩

/-- A node that was marked already. -/
theorem Marks.visited {v : ν} {marked : List ν} (h : v ∈ marked) :
    Marks next [v] marked marked where
  kept _ h := h
  done w hw := by rwa [List.mem_singleton.mp hw]
  closed _ h hnot := absurd h hnot
  reached _ h hnot := absurd h hnot

/-- A new node, after the searches from its successors. -/
theorem Marks.step {v : ν} {marked marked' : List ν}
    (h : Marks next (next v) (v :: marked) marked') : Marks next [v] marked marked' where
  kept w hw := h.kept w (List.mem_cons_of_mem _ hw)
  done w hw := by
    rw [List.mem_singleton.mp hw]
    exact h.kept v List.mem_cons_self
  closed w hw hnot u hu := by
    by_cases hwv : w = v
    · subst hwv
      exact h.done u hu
    · exact h.closed w hw (fun hmem => (List.mem_cons.mp hmem).elim hwv hnot) u hu
  reached w hw hnot := by
    refine ⟨v, List.mem_cons_self, ?_⟩
    by_cases hwv : w = v
    · exact hwv ▸ ReflTransGen.refl
    · obtain ⟨x, hx, hreach⟩ :=
        h.reached w hw fun hmem => (List.mem_cons.mp hmem).elim hwv hnot
      exact ReflTransGen.head hx hreach

variable [DecidableEq ν]

/-- Searches from several nodes, if each of them marks what it should. -/
theorem searchAll_marks {n : Nat}
    (ih : ∀ v marked marked', search next n v marked = some marked' → Marks next [v] marked marked')
    {nodes marked marked' : List ν} (h : searchAll next n nodes marked = some marked') :
    Marks next nodes marked marked' := by
  induction nodes generalizing marked with
  | nil =>
      obtain rfl := Option.some.inj h
      exact Marks.nil marked
  | cons v nodes ihnodes =>
      rw [searchAll, List.foldlM_cons] at h
      obtain ⟨marked₁, h₁, h₂⟩ := Option.bind_eq_some_iff.mp h
      exact Marks.cons (ih v marked marked₁ h₁) (ihnodes h₂)

/-- **Invariant.** -/
theorem search_marks {n : Nat} {v : ν} {marked marked' : List ν}
    (h : search next n v marked = some marked') : Marks next [v] marked marked' := by
  induction n generalizing v marked marked' with
  | zero =>
      rw [search] at h
      by_cases hv : v ∈ marked
      · rw [if_pos hv] at h
        obtain rfl := Option.some.inj h
        exact Marks.visited hv
      · rw [if_neg hv] at h
        cases h
  | succ n ih =>
      rw [search] at h
      by_cases hv : v ∈ marked
      · rw [if_pos hv] at h
        obtain rfl := Option.some.inj h
        exact Marks.visited hv
      · rw [if_neg hv] at h
        exact Marks.step (searchAll_marks (fun v m m' => ih) h)

/-- Nothing marked before: exactly what can be reached is marked. -/
theorem mem_searchAll_iff {n : Nat} {nodes marked : List ν}
    (h : searchAll next n nodes [] = some marked) (w : ν) :
    w ∈ marked ↔ ∃ v ∈ nodes, ReflTransGen (Edge next) v w := by
  have hmarks := searchAll_marks (fun v m m' => search_marks) h
  constructor
  · exact fun hw => hmarks.reached w hw List.not_mem_nil
  · rintro ⟨v, hv, hreach⟩
    induction hreach with
    | refl           => exact hmarks.done v hv
    | tail _ hedge ih => exact hmarks.closed _ ih List.not_mem_nil _ hedge

/-! ## The search ends -/

/-- How many of the nodes are not marked. -/
def unmarked (nodes marked : List ν) : Nat := (nodes.filter fun w => w ∉ marked).length

theorem unmarked_mono {nodes marked marked' : List ν} (h : ∀ w ∈ marked, w ∈ marked') :
    unmarked nodes marked' ≤ unmarked nodes marked := by
  rw [unmarked, unmarked, ← List.countP_eq_length_filter, ← List.countP_eq_length_filter]
  refine List.countP_mono_left fun w _ hw => ?_
  rw [decide_eq_true_eq] at hw ⊢
  exact fun hmem => hw (h w hmem)

theorem unmarked_cons_lt {nodes marked : List ν} {v : ν} (hv : v ∈ nodes) (hnew : v ∉ marked) :
    unmarked nodes (v :: marked) < unmarked nodes marked := by
  have hsplit : nodes.filter (fun w => w ∉ v :: marked)
      = (nodes.filter fun w => w ∉ marked).filter fun w => w ≠ v := by
    rw [List.filter_filter]
    refine List.filter_congr fun w _ => ?_
    rw [Bool.eq_iff_iff, Bool.and_eq_true, decide_eq_true_eq, decide_eq_true_eq, decide_eq_true_eq,
      List.mem_cons, not_or]
  rw [unmarked, hsplit]
  refine List.length_filter_lt_length_iff_exists.mpr ⟨v, ?_, ?_⟩
  · rw [List.mem_filter, decide_eq_true_eq]
    exact ⟨hv, hnew⟩
  · rw [decide_eq_true_eq]
    exact fun h => h rfl

/-- Searches from several nodes end if each of them does. -/
theorem searchAll_total {n : Nat} {all : List ν}
    (ih : ∀ v ∈ all, ∀ marked, unmarked all marked ≤ n →
      ∃ marked', search next n v marked = some marked')
    {nodes marked : List ν} (hnodes : ∀ w ∈ nodes, w ∈ all) (hn : unmarked all marked ≤ n) :
    ∃ marked', searchAll next n nodes marked = some marked' := by
  induction nodes generalizing marked with
  | nil => exact ⟨marked, rfl⟩
  | cons v nodes ihnodes =>
      obtain ⟨marked₁, h₁⟩ := ih v (hnodes v List.mem_cons_self) marked hn
      have hle : unmarked all marked₁ ≤ unmarked all marked := unmarked_mono (search_marks h₁).kept
      obtain ⟨marked₂, h₂⟩ := ihnodes (fun w hw => hnodes w (List.mem_cons_of_mem _ hw))
        (Nat.le_trans hle hn)
      refine ⟨marked₂, ?_⟩
      rw [searchAll, List.foldlM_cons, h₁]
      exact h₂

/-- **The depth that is enough.**  Every nested search has marked one node more. -/
theorem search_total {n : Nat} {all : List ν} (hclosed : ∀ v ∈ all, ∀ w ∈ next v, w ∈ all)
    {v : ν} (hv : v ∈ all) {marked : List ν} (hn : unmarked all marked ≤ n) :
    ∃ marked', search next n v marked = some marked' := by
  induction n generalizing v marked with
  | zero =>
      have hmarked : v ∈ marked := Decidable.byContradiction fun hnew => by
        have hlt := unmarked_cons_lt hv hnew
        omega
      exact ⟨marked, by rw [search, if_pos hmarked]⟩
  | succ n ih =>
      rw [search]
      by_cases hmarked : v ∈ marked
      · exact ⟨marked, if_pos hmarked⟩
      · rw [if_neg hmarked]
        have hlt := unmarked_cons_lt hv hmarked
        exact searchAll_total (fun w hw m => ih hw) (hclosed v hv) (by omega)

end DepthFirst
