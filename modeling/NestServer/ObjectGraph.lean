import Mathlib.Data.List.Forall2
import NestServer.IdHelper

/-! # Object graphs

    Values as a program holds them: objects and arrays live in a heap and are met
    by reference, so that one of them can be reached over several paths.

    * `view` reads a value off a heap as a tree;
    * `Unfolds S h n v t` says that `v` reads as `t`, with no path over more than
      `n` references, and that it passes only addresses in `S`;
    * `Unfolds.frame` carries a reading from one heap to another in which the cells
      it passes are the same. -/

open JsTree

/-- A value that may be a reference. -/
inductive GVal where
  | prim (p : Prim)
  | oid (hex : String)
  | ref (address : Nat)
deriving DecidableEq, Repr

/-- The functions that an object has from `Object.prototype`. -/
def objectPrototype : List String :=
  ["constructor", "__defineGetter__", "__defineSetter__", "hasOwnProperty", "__lookupGetter__",
    "__lookupSetter__", "isPrototypeOf", "propertyIsEnumerable", "toString", "valueOf",
    "toLocaleString"]

inductive Cell (κ : Type) where
  | obj (proto : List κ) (fields : List (String × GVal))
  | arr (items : List GVal)

abbrev Heap (κ : Type) := List (Cell κ)

namespace GVal

def isNullish : GVal → Bool
  | prim .undefined | prim .null => true
  | _ => false

def isUndefined : GVal → Bool
  | prim .undefined => true
  | _ => false

/-- The addresses a value mentions itself. -/
def address? : GVal → List Nat
  | ref r => [r]
  | _     => []

end GVal

/-- The addresses in a cell. -/
def Cell.refs {κ : Type} : Cell κ → List Nat
  | obj _ fields => fields.flatMap fun e => e.2.address?
  | arr items    => items.flatMap GVal.address?

namespace Heap

variable {κ : Type}

/-- A value as a tree, down to a depth; a reference beyond it reads as an empty
    object. -/
def view (h : Heap κ) : Nat → GVal → JsTree κ
  | _, .prim p     => .prim p
  | _, .oid hex    => .oid hex
  | 0, .ref _      => .obj [] []
  | n + 1, .ref r  => match h[r]? with
      | some (.obj proto fields) => .obj proto (fields.map fun e => (e.1, view h n e.2))
      | some (.arr items)        => .arr (items.map (view h n))
      | none                     => .prim .undefined

def viewFields (h : Heap κ) (n : Nat) (fields : List (String × GVal)) : Fields κ :=
  fields.map fun e => (e.1, h.view n e.2)

/-- The value reads as the tree, over addresses in `S` only. -/
def Unfolds (S : Nat → Prop) (h : Heap κ) : Nat → GVal → JsTree κ → Prop
  | _, .prim p, t    => t = .prim p
  | _, .oid hex, t   => t = .oid hex
  | 0, .ref _, _     => False
  | n + 1, .ref r, t => S r ∧
      ((∃ proto fields fields', h[r]? = some (.obj proto fields) ∧ t = .obj proto fields'
          ∧ List.Forall₂ (fun e e' => e.1 = e'.1 ∧ Unfolds S h n e.2 e'.2) fields fields')
        ∨ ∃ items items', h[r]? = some (.arr items) ∧ t = .arr items'
          ∧ List.Forall₂ (Unfolds S h n) items items')

/-- The own keys of an object read as those of a tree. -/
def UnfoldsFields (S : Nat → Prop) (h : Heap κ) (n : Nat) (fields : List (String × GVal))
    (fields' : Fields κ) : Prop :=
  List.Forall₂ (fun e e' => e.1 = e'.1 ∧ Unfolds S h n e.2 e'.2) fields fields'

variable {S S' : Nat → Prop} {h h' : Heap κ} {n : Nat} {v : GVal} {t : JsTree κ}

theorem unfolds_prim {p : Prim} : Unfolds S h n (.prim p) t ↔ t = .prim p := by
  cases n <;> exact Iff.rfl

theorem unfolds_oid {hex : String} : Unfolds S h n (.oid hex) t ↔ t = .oid hex := by
  cases n <;> exact Iff.rfl

/-- A tree that is read is the view. -/
theorem Unfolds.view_eq (hu : Unfolds S h n v t) : h.view n v = t := by
  induction n generalizing v t with
  | zero =>
      cases v with
      | prim p  => exact (unfolds_prim.mp hu).symm
      | oid hex => exact (unfolds_oid.mp hu).symm
      | ref r   => exact hu.elim
  | succ n ih =>
      cases v with
      | prim p  => exact (unfolds_prim.mp hu).symm
      | oid hex => exact (unfolds_oid.mp hu).symm
      | ref r =>
          rw [Heap.view]
          obtain ⟨-, ⟨proto, fields, fields', hcell, rfl, hall⟩ | ⟨items, items', hcell, rfl, hall⟩⟩
            := hu
          · rw [hcell]
            dsimp only
            clear hcell
            congr 1
            induction hall with
            | nil => rfl
            | cons hhead _ ihall =>
                rw [List.map_cons, ihall, hhead.1, ih hhead.2]
          · rw [hcell]
            dsimp only
            clear hcell
            congr 1
            induction hall with
            | nil => rfl
            | cons hhead _ ihall => rw [List.map_cons, ihall, ih hhead]

theorem UnfoldsFields.view_eq {fields : List (String × GVal)} {fields' : Fields κ}
    (hu : UnfoldsFields S h n fields fields') : h.viewFields n fields = fields' := by
  induction hu with
  | nil => rfl
  | cons hhead _ ih =>
      rw [viewFields, List.map_cons, hhead.1, hhead.2.view_eq]
      exact congrArg _ ih

/-- **Frame.** A reading survives in every heap that has the same cells at the
    addresses it passes. -/
theorem Unfolds.frame (hu : Unfolds S h n v t) (hS : ∀ r, S r → S' r)
    (hkept : ∀ r c, S r → h[r]? = some c → h'[r]? = some c) : Unfolds S' h' n v t := by
  induction n generalizing v t with
  | zero =>
      cases v with
      | ref r => exact hu.elim
      | _     => exact hu
  | succ n ih =>
      cases v with
      | ref r =>
          obtain ⟨hr, ⟨proto, fields, fields', hcell, rfl, hall⟩ | ⟨items, items', hcell, rfl,
            hall⟩⟩
            := hu
          · exact ⟨hS r hr, .inl ⟨proto, fields, fields', hkept r _ hr hcell, rfl,
              hall.imp fun e e' he => ⟨he.1, ih he.2⟩⟩⟩
          · exact ⟨hS r hr, .inr ⟨items, items', hkept r _ hr hcell, rfl,
              hall.imp fun e e' he => ih he⟩⟩
      | _ => exact hu

theorem UnfoldsFields.frame {fields : List (String × GVal)} {fields' : Fields κ}
    (hu : UnfoldsFields S h n fields fields') (hS : ∀ r, S r → S' r)
    (hkept : ∀ r c, S r → h[r]? = some c → h'[r]? = some c) :
    UnfoldsFields S' h' n fields fields' :=
  hu.imp fun _ _ he => ⟨he.1, he.2.frame hS hkept⟩

theorem Unfolds.isUndefined (hu : Unfolds S h n v t) : v.isUndefined = t.isUndefined := by
  cases v with
  | prim p  => rw [unfolds_prim.mp hu]; cases p <;> rfl
  | oid hex => rw [unfolds_oid.mp hu]; rfl
  | ref r =>
      cases n with
      | zero => exact hu.elim
      | succ n => obtain ⟨-, ⟨_, _, _, -, rfl, -⟩ | ⟨_, _, -, rfl, -⟩⟩ := hu <;> rfl

theorem Unfolds.isNullish (hu : Unfolds S h n v t) : v.isNullish = t.isNullish := by
  cases v with
  | prim p  => rw [unfolds_prim.mp hu]; cases p <;> rfl
  | oid hex => rw [unfolds_oid.mp hu]; rfl
  | ref r =>
      cases n with
      | zero => exact hu.elim
      | succ n => obtain ⟨-, ⟨_, _, _, -, rfl, -⟩ | ⟨_, _, -, rfl, -⟩⟩ := hu <;> rfl

/-! ## Readings -/

section

variable {S : Nat → Prop} {h : Heap κ} {v : GVal} {t t' : JsTree κ} {n m : Nat}

/-- A reading may be deeper than it has to be. -/
theorem Unfolds.deeper (hu : Unfolds S h n v t) (hnm : n ≤ m) : Unfolds S h m v t := by
  induction n generalizing v t m with
  | zero =>
      cases v with
      | prim p  => exact unfolds_prim.mpr (unfolds_prim.mp hu)
      | oid hex => exact unfolds_oid.mpr (unfolds_oid.mp hu)
      | ref r   => exact hu.elim
  | succ n ih =>
      cases v with
      | prim p  => exact unfolds_prim.mpr (unfolds_prim.mp hu)
      | oid hex => exact unfolds_oid.mpr (unfolds_oid.mp hu)
      | ref r =>
          match m, hnm with
          | m + 1, hnm =>
              have hle : n ≤ m := Nat.le_of_succ_le_succ hnm
              obtain ⟨hr, ⟨proto, fields, fields', hcell, rfl, hall⟩ | ⟨items, items', hcell, rfl,
                hall⟩⟩ := hu
              · exact ⟨hr, .inl ⟨proto, fields, fields', hcell, rfl,
                  hall.imp fun e e' he => ⟨he.1, ih he.2 hle⟩⟩⟩
              · exact ⟨hr, .inr ⟨items, items', hcell, rfl, hall.imp fun e e' he => ih he hle⟩⟩

/-- A value reads as one tree. -/
theorem Unfolds.unique {S' : Nat → Prop} (hu : Unfolds S h n v t) (hu' : Unfolds S' h m v t') :
    t = t' := by
  have h₁ := (hu.deeper (Nat.le_max_left n m)).view_eq
  have h₂ := (hu'.deeper (Nat.le_max_right n m)).view_eq
  exact h₁.symm.trans h₂

/-- The value reads as the tree, at some depth. -/
def Reads (S : Nat → Prop) (h : Heap κ) (v : GVal) (t : JsTree κ) : Prop :=
  ∃ n, Unfolds S h n v t

theorem Reads.frame {S' : Nat → Prop} {h' : Heap κ} (hu : Reads S h v t) (hS : ∀ r, S r → S' r)
    (hkept : ∀ r c, S r → h[r]? = some c → h'[r]? = some c) : Reads S' h' v t :=
  hu.imp fun _ hu => hu.frame hS hkept

theorem Reads.unique {S' : Nat → Prop} (hu : Reads S h v t) (hu' : Reads S' h v t') : t = t' := by
  obtain ⟨n, hu⟩ := hu
  obtain ⟨m, hu'⟩ := hu'
  exact hu.unique hu'

theorem reads_prim {p : Prim} : Reads S h (.prim p) t ↔ t = .prim p := by
  constructor
  · rintro ⟨n, hu⟩
    exact unfolds_prim.mp hu
  · exact fun ht => ⟨0, unfolds_prim.mpr ht⟩

theorem reads_oid {hex : String} : Reads S h (.oid hex) t ↔ t = .oid hex := by
  constructor
  · rintro ⟨n, hu⟩
    exact unfolds_oid.mp hu
  · exact fun ht => ⟨0, unfolds_oid.mpr ht⟩

/-- Readings of the members of a list have a depth in common. -/
theorem forall₂_exists_depth {α β : Type} {P : Nat → α → β → Prop}
    (hmono : ∀ n m a b, n ≤ m → P n a b → P m a b) {xs : List α} {ys : List β}
    (hall : List.Forall₂ (fun a b => ∃ n, P n a b) xs ys) : ∃ n, List.Forall₂ (P n) xs ys := by
  induction hall with
  | nil => exact ⟨0, .nil⟩
  | cons hhead _ ih =>
      obtain ⟨n, hn⟩ := hhead
      obtain ⟨m, hm⟩ := ih
      refine ⟨max n m, .cons (hmono n _ _ _ (Nat.le_max_left n m) hn) ?_⟩
      exact hm.imp fun a b hab => hmono m _ _ _ (Nat.le_max_right n m) hab

/-- An object reads as its fields do. -/
theorem reads_obj {r : Nat} {proto : List κ} {fields : List (String × GVal)}
    (hcell : h[r]? = some (.obj proto fields)) :
    Reads S h (.ref r) t ↔ S r ∧ ∃ fields', t = .obj proto fields'
      ∧ List.Forall₂ (fun e e' => e.1 = e'.1 ∧ Reads S h e.2 e'.2) fields fields' := by
  constructor
  · rintro ⟨n, hu⟩
    match n, hu with
    | n + 1, ⟨hr, .inl ⟨proto', fields₀, fields', hcell', ht, hall⟩⟩ =>
        rw [hcell] at hcell'
        cases hcell'
        exact ⟨hr, fields', ht, hall.imp fun _ _ he => ⟨he.1, n, he.2⟩⟩
    | n + 1, ⟨_, .inr ⟨items, items', hcell', _, _⟩⟩ =>
        rw [hcell] at hcell'
        cases hcell'
  · rintro ⟨hr, fields', ht, hall⟩
    obtain ⟨n, hall⟩ := forall₂_exists_depth
      (P := fun n (e : String × GVal) (e' : String × JsTree κ) => e.1 = e'.1 ∧
        Unfolds S h n e.2 e'.2)
      (fun n m a b hle hP => ⟨hP.1, hP.2.deeper hle⟩)
      (hall.imp fun _ _ he => he.2.imp fun n hn => ⟨he.1, hn⟩)
    exact ⟨n + 1, hr, .inl ⟨proto, fields, fields', hcell, ht, hall⟩⟩

/-- An array reads as its items do. -/
theorem reads_arr {r : Nat} {items : List GVal} (hcell : h[r]? = some (.arr items)) :
    Reads S h (.ref r) t ↔ S r ∧ ∃ items', t = .arr items'
      ∧ List.Forall₂ (Reads S h) items items' := by
  constructor
  · rintro ⟨n, hu⟩
    match n, hu with
    | n + 1, ⟨hr, .inr ⟨items₀, items', hcell', ht, hall⟩⟩ =>
        rw [hcell] at hcell'
        cases hcell'
        exact ⟨hr, items', ht, hall.imp fun _ _ he => ⟨n, he⟩⟩
    | n + 1, ⟨_, .inl ⟨proto, fields, fields', hcell', _, _⟩⟩ =>
        rw [hcell] at hcell'
        cases hcell'
  · rintro ⟨hr, items', ht, hall⟩
    obtain ⟨n, hall⟩ := forall₂_exists_depth (P := fun n v t => Unfolds S h n v t)
      (fun n m a b hle hP => hP.deeper hle) hall
    exact ⟨n + 1, hr, .inr ⟨items, items', hcell, ht, hall⟩⟩

theorem sizeOf_field_lt {proto : List κ} {fields : Fields κ} {e : String × JsTree κ}
    (he : e ∈ fields) : sizeOf e.2 < sizeOf (JsTree.obj proto fields) := by
  have hmem := List.sizeOf_lt_of_mem he
  have hpair : sizeOf e.2 < sizeOf e := by
    cases e
    simp only [Prod.mk.sizeOf_spec]
    omega
  simp only [JsTree.obj.sizeOf_spec]
  omega

/-- What a value reads as smaller than an object does not pass that object. -/
theorem Reads.avoids {r : Nat} {tr : JsTree κ} (hr : Reads S h (.ref r) tr)
    (hu : Reads S h v t) (hlt : sizeOf t < sizeOf tr) : Reads (fun a => S a ∧ a ≠ r) h v t := by
  obtain ⟨n, hu⟩ := hu
  refine ⟨n, ?_⟩
  induction n generalizing v t with
  | zero =>
      cases v with
      | ref a => exact hu.elim
      | _     => exact hu
  | succ n ih =>
      cases v with
      | prim p  => exact hu
      | oid hex => exact hu
      | ref a =>
          have hne : a ≠ r := by
            rintro rfl
            rw [Reads.unique ⟨n + 1, hu⟩ hr] at hlt
            exact Nat.lt_irrefl _ hlt
          obtain ⟨ha, ⟨proto, fields, fields', hcell, rfl, hall⟩ | ⟨items, items', hcell, rfl,
            hall⟩⟩ := hu
          · refine ⟨⟨ha, hne⟩, .inl ⟨proto, fields, fields', hcell, rfl, ?_⟩⟩
            have hsmaller : ∀ e' ∈ fields', sizeOf e'.2 < sizeOf tr := fun e' he' =>
              Nat.lt_trans (sizeOf_field_lt he') hlt
            clear hcell hlt
            induction hall with
            | nil => exact .nil
            | cons hhead _ ihall =>
                exact .cons ⟨hhead.1, ih (hsmaller _ List.mem_cons_self) hhead.2⟩
                  (ihall fun e' he' => hsmaller e' (List.mem_cons_of_mem _ he'))
          · refine ⟨⟨ha, hne⟩, .inr ⟨items, items', hcell, rfl, ?_⟩⟩
            have hsmaller : ∀ t' ∈ items', sizeOf t' < sizeOf tr := by
              intro t' ht'
              have hmem := List.sizeOf_lt_of_mem ht'
              simp only [JsTree.arr.sizeOf_spec] at hlt
              omega
            clear hcell hlt
            induction hall with
            | nil => exact .nil
            | cons hhead _ ihall =>
                exact .cons (ih (hsmaller _ List.mem_cons_self) hhead)
                  (ihall fun t' ht' => hsmaller t' (List.mem_cons_of_mem _ ht'))

end

/-! ## Acyclic graphs -/

/-- A finite acyclic graph of objects: references point into the heap, and the rank
    falls along every one of them. -/
structure Graph (κ : Type) where
  heap   : Heap κ
  root   : GVal
  rank   : Nat → Nat
  rooted : ∀ r ∈ root.address?, r < heap.length
  falls  : ∀ r cell, heap[r]? = some cell → ∀ c ∈ cell.refs, c < heap.length ∧ rank c < rank r

namespace Graph

variable (g : Graph κ)

/-- A bound for the length of the paths from the root. -/
def depth : Nat := match g.root with
  | .ref r => g.rank r + 1
  | _      => 0

/-- The tree unfolding: what is shared is copied. -/
def unfolding : JsTree κ := g.heap.view g.depth g.root

/-- Every value unfolds within its rank. -/
theorem unfolds_of_rank : ∀ (n : Nat) (v : GVal),
    (∀ r ∈ v.address?, r < g.heap.length ∧ g.rank r < n) →
      Unfolds (fun _ => True) g.heap n v (g.heap.view n v) := by
  intro n
  induction n with
  | zero =>
      intro v hv
      cases v with
      | prim p  => exact unfolds_prim.mpr rfl
      | oid hex => exact unfolds_oid.mpr rfl
      | ref r   => exact absurd (hv r (List.mem_singleton_self r)).2 (Nat.not_lt_zero _)
  | succ n ih =>
      intro v hv
      cases v with
      | prim p  => exact unfolds_prim.mpr rfl
      | oid hex => exact unfolds_oid.mpr rfl
      | ref r =>
          obtain ⟨hr, hrank⟩ := hv r (List.mem_singleton_self r)
          -- what the cell mentions has a smaller rank than the cell
          have hsmaller : ∀ cell, g.heap[r]? = some cell → ∀ c ∈ cell.refs,
              c < g.heap.length ∧ g.rank c < n := by
            intro cell hcell c hc
            obtain ⟨hlt, hfalls⟩ := g.falls r cell hcell c hc
            exact ⟨hlt, by omega⟩
          refine ⟨trivial, ?_⟩
          rw [Heap.view]
          cases hcell : g.heap[r]? with
          | none => exact absurd hr (Nat.not_lt.mpr (List.getElem?_eq_none_iff.mp hcell))
          | some cell =>
              cases cell with
              | obj proto fields =>
                  refine .inl ⟨proto, fields, _, rfl, rfl, ?_⟩
                  rw [List.forall₂_map_right_iff, List.forall₂_same]
                  intro e he
                  refine ⟨rfl, ih e.2 fun c hc => hsmaller _ hcell c ?_⟩
                  exact List.mem_flatMap.mpr ⟨e, he, hc⟩
              | arr items =>
                  refine .inr ⟨items, _, rfl, rfl, ?_⟩
                  rw [List.forall₂_map_right_iff, List.forall₂_same]
                  intro w hw
                  refine ih w fun c hc => hsmaller _ hcell c ?_
                  exact List.mem_flatMap.mpr ⟨w, hw, hc⟩

theorem unfolds : Unfolds (fun _ => True) g.heap g.depth g.root g.unfolding := by
  refine g.unfolds_of_rank g.depth g.root fun r hr => ⟨g.rooted r hr, ?_⟩
  rw [depth]
  cases hroot : g.root with
  | ref s =>
      rw [hroot] at hr
      rw [List.mem_singleton.mp hr]
      exact Nat.lt_succ_self _
  | _ =>
      rw [hroot] at hr
      cases hr

end Graph

end Heap
