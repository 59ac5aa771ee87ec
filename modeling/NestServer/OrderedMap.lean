import Mathlib.Data.List.Basic
import Mathlib.Data.List.Nodup

/-! # Insertion-ordered maps

    The map type of a language whose maps iterate in insertion order: setting
    a present key keeps its place, setting a new key appends it.  The entries
    carry the proof that no key occurs twice, so a lookup has one answer and
    the length of the list is the size of the map. -/

/-- An association list in insertion order, each key once. -/
structure OrderedMap (κ ν : Type) where
  entries : List (κ × ν)
  nodup   : (entries.map Prod.fst).Nodup
deriving DecidableEq

namespace OrderedMap

variable {κ ν : Type}

/-- The map without entries. -/
def empty : OrderedMap κ ν := ⟨[], List.nodup_nil⟩

/-- Number of entries. -/
def size (m : OrderedMap κ ν) : Nat := m.entries.length

/-- Keep the entries whose key passes the test, in their order. -/
def filterKeys (p : κ → Bool) (m : OrderedMap κ ν) : OrderedMap κ ν where
  entries := m.entries.filter fun e => p e.1
  nodup   := (List.filter_sublist.map Prod.fst).nodup m.nodup

/-- Keep the entries whose value passes the test, in their order. -/
def filterValues (p : ν → Bool) (m : OrderedMap κ ν) : OrderedMap κ ν where
  entries := m.entries.filter fun e => p e.2
  nodup   := (List.filter_sublist.map Prod.fst).nodup m.nodup

/-- Drop the `n` oldest entries. -/
def dropOldest (n : Nat) (m : OrderedMap κ ν) : OrderedMap κ ν where
  entries := m.entries.drop n
  nodup   := ((List.drop_sublist n m.entries).map Prod.fst).nodup m.nodup

variable [DecidableEq κ]

/-- Replace the value at a key in place, or append the new entry. -/
def setEntries (k : κ) (v : ν) : List (κ × ν) → List (κ × ν)
  | []      => [(k, v)]
  | e :: es => if e.1 = k then (k, v) :: es else e :: setEntries k v es

theorem fst_mem_setEntries {k x : κ} {v : ν} {es : List (κ × ν)}
    (h : x ∈ (setEntries k v es).map Prod.fst) : x = k ∨ x ∈ es.map Prod.fst := by
  induction es with
  | nil => exact Or.inl (by simpa [setEntries] using h)
  | cons e es ih =>
      rw [setEntries] at h
      by_cases hk : e.1 = k
      · rw [if_pos hk, List.map_cons] at h
        rcases List.mem_cons.mp h with hx | hx
        · exact Or.inl hx
        · exact Or.inr (List.mem_cons_of_mem _ hx)
      · rw [if_neg hk, List.map_cons] at h
        rcases List.mem_cons.mp h with hx | hx
        · exact Or.inr (hx ▸ List.mem_cons_self ..)
        · rcases ih hx with hxk | hxe
          · exact Or.inl hxk
          · exact Or.inr (List.mem_cons_of_mem _ hxe)

theorem nodup_setEntries (k : κ) (v : ν) {es : List (κ × ν)}
    (h : (es.map Prod.fst).Nodup) : ((setEntries k v es).map Prod.fst).Nodup := by
  induction es with
  | nil => simp [setEntries]
  | cons e es ih =>
      rw [List.map_cons, List.nodup_cons] at h
      rw [setEntries]
      by_cases hk : e.1 = k
      · rw [if_pos hk, List.map_cons, List.nodup_cons, ← hk]
        exact h
      · rw [if_neg hk, List.map_cons, List.nodup_cons]
        refine ⟨?_, ih h.2⟩
        intro hm
        rcases fst_mem_setEntries hm with hx | hx
        · exact hk hx
        · exact h.1 hx

/-- The value at a key. -/
def get? (m : OrderedMap κ ν) (k : κ) : Option ν :=
  (m.entries.find? fun e => e.1 = k).map Prod.snd

/-- Set the value at a key. -/
def set (m : OrderedMap κ ν) (k : κ) (v : ν) : OrderedMap κ ν :=
  ⟨setEntries k v m.entries, nodup_setEntries k v m.nodup⟩

/-- Remove a key. -/
def delete (m : OrderedMap κ ν) (k : κ) : OrderedMap κ ν :=
  m.filterKeys fun x => x ≠ k

/-- The entries of `b` over those of `a`: `{ ...a, ...b }`. -/
def spread (a b : OrderedMap κ ν) : OrderedMap κ ν :=
  b.entries.foldl (fun m e => m.set e.1 e.2) a

@[simp] theorem get?_empty (k : κ) : (empty : OrderedMap κ ν).get? k = none := rfl

/-- A key has the value `v` exactly when `(k, v)` is an entry. -/
theorem get?_eq_some_iff {m : OrderedMap κ ν} {k : κ} {v : ν} :
    m.get? k = some v ↔ (k, v) ∈ m.entries := by
  obtain ⟨es, hnd⟩ := m
  show (es.find? fun e => e.1 = k).map Prod.snd = some v ↔ (k, v) ∈ es
  induction es with
  | nil => simp
  | cons e es ih =>
      rw [List.map_cons, List.nodup_cons] at hnd
      by_cases hk : e.1 = k
      · rw [List.find?_cons_of_pos (by simpa using hk)]
        constructor
        · intro h
          have hv : e.2 = v := by simpa using h
          have he : e = (k, v) := Prod.ext hk hv
          exact he ▸ List.mem_cons_self ..
        · intro h
          rcases List.mem_cons.mp h with he | hm
          · rw [← he]; rfl
          · exact absurd (hk ▸ List.mem_map_of_mem (f := Prod.fst) hm) hnd.1
      · rw [List.find?_cons_of_neg (by simpa using hk), ih hnd.2, List.mem_cons]
        constructor
        · exact Or.inr
        · rintro (he | hm)
          · exact absurd (congrArg Prod.fst he).symm hk
          · exact hm

theorem mem_setEntries_iff {k : κ} {v : ν} {es : List (κ × ν)} {x : κ} {w : ν}
    (hx : x ≠ k) : (x, w) ∈ setEntries k v es ↔ (x, w) ∈ es := by
  induction es with
  | nil => simp [setEntries, hx]
  | cons e es ih =>
      rw [setEntries]
      by_cases hk : e.1 = k
      · rw [if_pos hk, List.mem_cons, List.mem_cons]
        have h1 : (x, w) ≠ (k, v) := fun h => hx (congrArg Prod.fst h)
        have h2 : (x, w) ≠ e := fun h => hx ((congrArg Prod.fst h).trans hk)
        simp [h1, h2]
      · rw [if_neg hk, List.mem_cons, List.mem_cons, ih]

theorem self_mem_setEntries (k : κ) (v : ν) (es : List (κ × ν)) :
    (k, v) ∈ setEntries k v es := by
  induction es with
  | nil => simp [setEntries]
  | cons e es ih =>
      rw [setEntries]
      by_cases hk : e.1 = k
      · rw [if_pos hk]; exact List.mem_cons_self ..
      · rw [if_neg hk]; exact List.mem_cons_of_mem _ ih

@[simp] theorem get?_set_self (m : OrderedMap κ ν) (k : κ) (v : ν) :
    (m.set k v).get? k = some v :=
  get?_eq_some_iff.mpr (self_mem_setEntries k v m.entries)

theorem get?_set_of_ne (m : OrderedMap κ ν) {k x : κ} (v : ν) (hx : x ≠ k) :
    (m.set k v).get? x = m.get? x := by
  apply Option.ext
  intro w
  rw [get?_eq_some_iff, get?_eq_some_iff]
  exact mem_setEntries_iff hx

/-- Setting a key to the value it has changes nothing. -/
theorem set_eq_self {m : OrderedMap κ ν} {k : κ} {v : ν} (h : m.get? k = some v) :
    m.set k v = m := by
  obtain ⟨es, hnd⟩ := m
  have hmem : (k, v) ∈ es := get?_eq_some_iff.mp h
  have hes : setEntries k v es = es := by
    clear h
    induction es with
    | nil => cases hmem
    | cons e es ih =>
        rw [List.map_cons, List.nodup_cons] at hnd
        rw [setEntries]
        rcases List.mem_cons.mp hmem with he | hm
        · rw [← he, if_pos rfl]
        · have hk : e.1 ≠ k := fun h => hnd.1 (h ▸ List.mem_map_of_mem (f := Prod.fst) hm)
          rw [if_neg hk, ih hnd.2 hm]
  simp only [set, hes]

/-- Removing a key that is not there changes nothing. -/
theorem delete_eq_self {m : OrderedMap κ ν} {k : κ} (h : m.get? k = none) :
    m.delete k = m := by
  obtain ⟨es, hnd⟩ := m
  have hes : (es.filter fun e => decide (e.1 ≠ k)) = es := by
    refine List.filter_eq_self.mpr ?_
    intro e he
    refine decide_eq_true ?_
    intro hk
    have hsome : get? ⟨es, hnd⟩ k = some e.2 := get?_eq_some_iff.mpr (hk ▸ he)
    rw [h] at hsome
    cases hsome
  simp only [delete, filterKeys, hes]

theorem foldl_set_eq_self {es : List (κ × ν)} {m : OrderedMap κ ν}
    (h : ∀ e ∈ es, m.get? e.1 = some e.2) : es.foldl (fun m e => m.set e.1 e.2) m = m := by
  induction es with
  | nil => rfl
  | cons e es ih =>
      rw [List.foldl_cons, set_eq_self (h e List.mem_cons_self)]
      exact ih fun e' he' => h e' (List.mem_cons_of_mem e he')

theorem foldl_delete_eq_self {ks : List κ} {m : OrderedMap κ ν}
    (h : ∀ k ∈ ks, m.get? k = none) : ks.foldl delete m = m := by
  induction ks with
  | nil => rfl
  | cons k ks ih =>
      rw [List.foldl_cons, delete_eq_self (h k List.mem_cons_self)]
      exact ih fun k' hk' => h k' (List.mem_cons_of_mem k hk')

/-- Setting a list of entries leaves the other keys alone. -/
theorem get?_foldl_set_of_notMem {es : List (κ × ν)} {m : OrderedMap κ ν} {k : κ}
    (hk : k ∉ es.map Prod.fst) : (es.foldl (fun m e => m.set e.1 e.2) m).get? k = m.get? k := by
  induction es generalizing m with
  | nil => rfl
  | cons e es ih =>
      rw [List.map_cons, List.mem_cons, not_or] at hk
      rw [List.foldl_cons, ih hk.2, get?_set_of_ne m e.2 hk.1]

theorem get?_foldl_set_of_mem {es : List (κ × ν)} {m : OrderedMap κ ν} {k : κ} {v : ν}
    (hnd : (es.map Prod.fst).Nodup) (hv : (k, v) ∈ es) :
    (es.foldl (fun m e => m.set e.1 e.2) m).get? k = some v := by
  induction es generalizing m with
  | nil => cases hv
  | cons e es ih =>
      rw [List.map_cons, List.nodup_cons] at hnd
      rw [List.foldl_cons]
      rcases List.mem_cons.mp hv with he | hm
      · rw [← he] at hnd ⊢
        rw [get?_foldl_set_of_notMem hnd.1, get?_set_self]
      · exact ih hnd.2 hm

/-- A spread answers from the right map first. -/
theorem get?_spread (a b : OrderedMap κ ν) (k : κ) :
    (a.spread b).get? k = (b.get? k).or (a.get? k) := by
  cases hb : b.get? k with
  | some v =>
      rw [Option.some_or]
      exact get?_foldl_set_of_mem b.nodup (get?_eq_some_iff.mp hb)
  | none =>
      rw [Option.none_or]
      refine get?_foldl_set_of_notMem ?_
      intro hm
      obtain ⟨e, he, hk⟩ := List.mem_map.mp hm
      have hsome : b.get? k = some e.2 := get?_eq_some_iff.mpr (hk ▸ he)
      rw [hb] at hsome
      cases hsome

/-- Filtering by key hides the keys that fail the test and no others. -/
theorem get?_filterKeys (p : κ → Bool) (m : OrderedMap κ ν) (k : κ) :
    (m.filterKeys p).get? k = if p k then m.get? k else none := by
  apply Option.ext
  intro w
  rw [get?_eq_some_iff]
  show (k, w) ∈ m.entries.filter (fun e => p e.1) ↔ _
  rw [List.mem_filter]
  by_cases hp : p k
  · rw [if_pos hp, get?_eq_some_iff]
    exact and_iff_left hp
  · rw [if_neg hp]
    exact iff_of_false (fun h => hp h.2) (by simp)

@[simp] theorem get?_delete_self (m : OrderedMap κ ν) (k : κ) :
    (m.delete k).get? k = none := by
  rw [delete, get?_filterKeys, if_neg (by simp)]

theorem get?_delete_of_ne (m : OrderedMap κ ν) {k x : κ} (hx : x ≠ k) :
    (m.delete k).get? x = m.get? x := by
  rw [delete, get?_filterKeys, if_pos (by simpa using hx)]

/-! ## Counting entries -/

theorem setEntries_of_notMem {k : κ} {v : ν} {es : List (κ × ν)} (h : k ∉ es.map Prod.fst) :
    setEntries k v es = es ++ [(k, v)] := by
  induction es with
  | nil => rfl
  | cons e es ih =>
      rw [List.map_cons, List.mem_cons, not_or] at h
      rw [setEntries, if_neg (Ne.symm h.1), ih h.2]
      rfl

theorem notMem_of_get?_eq_none {m : OrderedMap κ ν} {k : κ} (h : m.get? k = none) :
    k ∉ m.entries.map Prod.fst := by
  intro hmem
  obtain ⟨e, he, rfl⟩ := List.mem_map.mp hmem
  rw [get?_eq_some_iff.mpr (show (e.1, e.2) ∈ m.entries from he)] at h
  cases h

/-- A new key is the last one. -/
theorem entries_set_of_none {m : OrderedMap κ ν} {k : κ} (v : ν) (h : m.get? k = none) :
    (m.set k v).entries = m.entries ++ [(k, v)] :=
  setEntries_of_notMem (notMem_of_get?_eq_none h)

/-- New keys are appended in their order. -/
theorem entries_foldl_set {es : List (κ × ν)} {m : OrderedMap κ ν}
    (h : ((m.entries ++ es).map Prod.fst).Nodup) :
    (es.foldl (fun m e => m.set e.1 e.2) m).entries = m.entries ++ es := by
  induction es generalizing m with
  | nil => exact (List.append_nil _).symm
  | cons e es ih =>
      have hnone : m.get? e.1 = none := by
        cases hget : m.get? e.1 with
        | none => rfl
        | some v =>
            have hmem := List.mem_map_of_mem (f := Prod.fst) (get?_eq_some_iff.mp hget)
            rw [List.map_append, List.map_cons] at h
            exact absurd List.mem_cons_self
              (List.disjoint_of_nodup_append h hmem)
      have hset := entries_set_of_none e.2 hnone
      rw [List.foldl_cons, ih (by rw [hset, List.append_assoc]; exact h), hset, List.append_assoc]
      rfl

/-- The elements of a list by their keys. -/
theorem entries_foldl_keyed {key : ν → κ} {xs : List ν} (h : (xs.map key).Nodup) :
    (xs.foldl (fun m x => m.set (key x) x) empty).entries = xs.map fun x => (key x, x) := by
  have hnodup : ((xs.map fun x => (key x, x)).map Prod.fst).Nodup := by
    rwa [List.map_map]
  have hset := @entries_foldl_set κ ν _ (xs.map fun x => (key x, x)) empty hnodup
  rwa [List.foldl_map] at hset

theorem get?_foldl_keyed {key : ν → κ} {xs : List ν} (h : (xs.map key).Nodup) {k : κ} {x : ν} :
    (xs.foldl (fun m x => m.set (key x) x) empty).get? k = some x ↔ x ∈ xs ∧ key x = k := by
  rw [get?_eq_some_iff, entries_foldl_keyed h, List.mem_map]
  constructor
  · rintro ⟨y, hy, heq⟩
    cases heq
    exact ⟨hy, rfl⟩
  · rintro ⟨hx, rfl⟩
    exact ⟨x, hx, rfl⟩

/-- A key that is there is replaced at its place. -/
theorem entries_set_of_some {m : OrderedMap κ ν} {k : κ} {w : ν} (v : ν)
    (h : m.get? k = some w) :
    (m.set k v).entries = m.entries.map fun e => if e.1 = k then (k, v) else e := by
  obtain ⟨es, hnd⟩ := m
  have hmem : (k, w) ∈ es := get?_eq_some_iff.mp h
  show setEntries k v es = _
  clear h
  induction es with
  | nil => cases hmem
  | cons e es ih =>
      rw [List.map_cons, List.nodup_cons] at hnd
      rw [setEntries, List.map_cons]
      by_cases hk : e.1 = k
      · have hrest : es.map (fun e => if e.1 = k then (k, v) else e) = es := by
          refine (List.map_congr_left fun x hx => ?_).trans (List.map_id es)
          have hne : x.1 ≠ k := by
            intro hxk
            exact hnd.1 (hk.trans hxk.symm ▸ List.mem_map_of_mem hx)
          exact if_neg hne
        rw [if_pos hk, if_pos hk, hrest]
      · have hmem : (k, w) ∈ es := by
          rcases List.mem_cons.mp hmem with he | hmem
          · exact absurd (congrArg Prod.fst he).symm hk
          · exact hmem
        rw [if_neg hk, if_neg hk, ih hnd.2 hmem]

theorem get?_cons {μ : Type} {e : κ × μ} {es : List (κ × μ)} {h : ((e :: es).map Prod.fst).Nodup}
    (h' : (es.map Prod.fst).Nodup) (k : κ) :
    (⟨e :: es, h⟩ : OrderedMap κ μ).get? k =
      if e.1 = k then some e.2 else (⟨es, h'⟩ : OrderedMap κ μ).get? k := by
  rw [get?, List.find?_cons]
  by_cases hk : e.1 = k
  · simp [hk]
  · simp [hk, get?]

/-- **One map over another.** What is there is updated at its place, what is new goes to the
    end, in the order of the second map. -/
theorem entries_foldl_update {μ : Type} (g : κ → μ → Option ν → ν) (b : OrderedMap κ μ)
    (m : OrderedMap κ ν) :
    (b.entries.foldl (fun m e => m.set e.1 (g e.1 e.2 (m.get? e.1))) m).entries =
      m.entries.map (fun e => (e.1, (b.get? e.1).elim e.2 fun u => g e.1 u (some e.2))) ++
        (b.entries.filter fun e => (m.get? e.1).isNone).map fun e => (e.1, g e.1 e.2 none) := by
  obtain ⟨es, hnd⟩ := b
  induction es generalizing m with
  | nil =>
      show m.entries = m.entries.map (fun e => (e.1, e.2)) ++ []
      rw [List.append_nil]
      exact (List.map_id _).symm
  | cons e es ih =>
      have hnd' := hnd
      rw [List.map_cons, List.nodup_cons] at hnd'
      have hlast : (⟨es, hnd'.2⟩ : OrderedMap κ μ).get? e.1 = none := by
        cases hget : (⟨es, hnd'.2⟩ : OrderedMap κ μ).get? e.1 with
        | none => rfl
        | some u => exact absurd (List.mem_map_of_mem (get?_eq_some_iff.mp hget)) hnd'.1
      have hfilter : es.filter (fun x =>
          ((m.set e.1 (g e.1 e.2 (m.get? e.1))).get? x.1).isNone) =
            es.filter fun x => (m.get? x.1).isNone := by
        refine List.filter_congr fun x hx => ?_
        have hne : x.1 ≠ e.1 := fun h => hnd'.1 (h ▸ List.mem_map_of_mem hx)
        rw [get?_set_of_ne m _ hne]
      rw [List.foldl_cons, ih _ hnd'.2, hfilter]
      simp only [get?_cons hnd'.2]
      cases hget : m.get? e.1 with
      | none =>
          have hmap : m.entries.map (fun x => (x.1,
              ((if e.1 = x.1 then some e.2 else (⟨es, hnd'.2⟩ : OrderedMap κ μ).get? x.1).elim x.2
                fun u => g x.1 u (some x.2)))) =
              m.entries.map fun x => (x.1,
                ((⟨es, hnd'.2⟩ : OrderedMap κ μ).get? x.1).elim x.2 fun u => g x.1 u (some x.2)) := by
            refine List.map_congr_left fun x hx => ?_
            have hne : e.1 ≠ x.1 := fun h =>
              notMem_of_get?_eq_none hget (h ▸ List.mem_map_of_mem hx)
            rw [if_neg hne]
          rw [entries_set_of_none _ hget, List.map_append, hmap, List.map_singleton,
            List.filter_cons_of_pos (by rw [hget]; rfl), List.map_cons, List.append_assoc]
          simp only [hlast]
          rfl
      | some w =>
          have hmap : (m.entries.map fun x => if x.1 = e.1 then (e.1, g e.1 e.2 (some w)) else x).map
              (fun x => (x.1,
                ((⟨es, hnd'.2⟩ : OrderedMap κ μ).get? x.1).elim x.2 fun u => g x.1 u (some x.2))) =
              m.entries.map fun x => (x.1,
                ((if e.1 = x.1 then some e.2 else (⟨es, hnd'.2⟩ : OrderedMap κ μ).get? x.1).elim
                  x.2 fun u => g x.1 u (some x.2))) := by
            rw [List.map_map]
            refine List.map_congr_left fun x hx => ?_
            by_cases hk : x.1 = e.1
            · have hw : m.get? x.1 = some x.2 := get?_eq_some_iff.mpr hx
              rw [hk, hget] at hw
              cases hw
              simp [hk, hlast]
            · simp [hk, Ne.symm hk]
          rw [entries_set_of_some _ hget, hmap,
            List.filter_cons_of_neg (by rw [hget]; exact Bool.false_ne_true)]

/-- Keys that are removed one after the other. -/
theorem entries_foldl_delete (ks : List κ) (m : OrderedMap κ ν) :
    (ks.foldl delete m).entries = m.entries.filter fun e => e.1 ∉ ks := by
  induction ks generalizing m with
  | nil => simp
  | cons k ks ih =>
      rw [List.foldl_cons, ih]
      show (m.entries.filter fun e => e.1 ≠ k).filter _ = _
      rw [List.filter_filter]
      refine List.filter_congr fun e _ => ?_
      by_cases hk : e.1 = k
      · simp [hk]
      · simp [hk]

theorem spread_empty (b : OrderedMap κ ν) : empty.spread b = b := by
  have h : ((empty : OrderedMap κ ν).spread b).entries = b.entries := entries_foldl_set b.nodup
  cases hspread : (empty : OrderedMap κ ν).spread b with
  | mk entries nodup =>
      obtain ⟨entries', nodup'⟩ := b
      rw [hspread] at h
      cases h
      rfl

/-- A removed entry is counted no more. -/
theorem countP_delete {m : OrderedMap κ ν} {k : κ} {v : ν} (h : m.get? k = some v)
    (p : κ × ν → Bool) :
    (m.delete k).entries.countP p + (if p (k, v) then 1 else 0) = m.entries.countP p := by
  obtain ⟨es, hnd⟩ := m
  have hmem : (k, v) ∈ es := get?_eq_some_iff.mp h
  show (es.filter fun e => decide (e.1 ≠ k)).countP p + (if p (k, v) then 1 else 0) = es.countP p
  clear h
  induction es with
  | nil => cases hmem
  | cons e es ih =>
      rw [List.map_cons, List.nodup_cons] at hnd
      rcases List.mem_cons.mp hmem with rfl | hmem
      · have hrest : es.filter (fun e => decide (e.1 ≠ k)) = es := by
          refine List.filter_eq_self.mpr fun e he => decide_eq_true ?_
          intro hk
          exact hnd.1 (List.mem_map.mpr ⟨e, he, hk⟩)
        rw [List.filter_cons_of_neg (by simp), hrest, List.countP_cons]
      · have hne : e.1 ≠ k := fun hk => hnd.1 (hk ▸ List.mem_map_of_mem (f := Prod.fst) hmem)
        rw [List.filter_cons_of_pos (by simpa using hne), List.countP_cons, List.countP_cons,
          ← ih hnd.2 hmem]
        omega

theorem size_delete {m : OrderedMap κ ν} {k : κ} {v : ν} (h : m.get? k = some v) :
    (m.delete k).size + 1 = m.size := by
  have hcount := countP_delete h fun _ => true
  rwa [List.countP_true, if_pos rfl] at hcount

theorem size_set_of_none {m : OrderedMap κ ν} {k : κ} (v : ν) (h : m.get? k = none) :
    (m.set k v).size = m.size + 1 := by
  rw [size, size, entries_set_of_none v h, List.length_append, List.length_singleton]

theorem length_setEntries {k : κ} {v : ν} {es : List (κ × ν)} (h : k ∈ es.map Prod.fst) :
    (setEntries k v es).length = es.length := by
  induction es with
  | nil => cases h
  | cons e es ih =>
      rw [setEntries]
      split
      · rfl
      · rename_i hk
        rcases List.mem_cons.mp h with rfl | h
        · exact absurd rfl hk
        · rw [List.length_cons, List.length_cons, ih h]

/-- A key that is there takes no more room. -/
theorem size_set_of_some {m : OrderedMap κ ν} {k : κ} {w : ν} (v : ν) (h : m.get? k = some w) :
    (m.set k v).size = m.size :=
  length_setEntries (List.mem_map.mpr ⟨(k, w), get?_eq_some_iff.mp h, rfl⟩)

theorem size_set_le (m : OrderedMap κ ν) (k : κ) (v : ν) : (m.set k v).size ≤ m.size + 1 := by
  cases h : m.get? k with
  | none => exact Nat.le_of_eq (size_set_of_none v h)
  | some w =>
      rw [size_set_of_some v h]
      exact Nat.le_succ _

/-- An entry that is set is counted, one that it replaces is not. -/
theorem countP_set (m : OrderedMap κ ν) (k : κ) (v : ν) (p : κ × ν → Bool) :
    (m.set k v).entries.countP p + ((m.get? k).elim 0 fun w => if p (k, w) then 1 else 0) =
      m.entries.countP p + if p (k, v) then 1 else 0 := by
  cases h : m.get? k with
  | none =>
      rw [entries_set_of_none v h, List.countP_append, List.countP_singleton]
      rfl
  | some w =>
      obtain ⟨es, hnd⟩ := m
      have hmem : (k, w) ∈ es := get?_eq_some_iff.mp h
      show (setEntries k v es).countP p + (if p (k, w) then 1 else 0) =
        es.countP p + if p (k, v) then 1 else 0
      clear h
      induction es with
      | nil => cases hmem
      | cons e es ih =>
          rw [List.map_cons, List.nodup_cons] at hnd
          rw [setEntries]
          rcases List.mem_cons.mp hmem with rfl | hmem
          · rw [if_pos rfl, List.countP_cons, List.countP_cons]
            omega
          · have hne : e.1 ≠ k := fun hk => hnd.1 (hk ▸ List.mem_map_of_mem (f := Prod.fst) hmem)
            rw [if_neg hne, List.countP_cons, List.countP_cons]
            have hrest := ih hnd.2 hmem
            omega

theorem setEntries_setEntries (k : κ) (v w : ν) (es : List (κ × ν)) :
    setEntries k w (setEntries k v es) = setEntries k w es := by
  induction es with
  | nil =>
      simp only [setEntries, if_true]
  | cons e es ih =>
      by_cases hk : e.1 = k
      · simp only [setEntries, if_pos hk, if_true]
      · simp only [setEntries, if_neg hk, ih]

/-- The last one to set a key decides. -/
theorem set_set (m : OrderedMap κ ν) (k : κ) (v w : ν) : (m.set k v).set k w = m.set k w := by
  simp only [set, setEntries_setEntries]

theorem get?_filterValues_of_pos {p : ν → Bool} {m : OrderedMap κ ν} {k : κ} {v : ν}
    (h : m.get? k = some v) (hp : p v = true) : (m.filterValues p).get? k = some v :=
  get?_eq_some_iff.mpr (List.mem_filter.mpr ⟨get?_eq_some_iff.mp h, hp⟩)

omit [DecidableEq κ] in
theorem filterValues_eq_self {p : ν → Bool} {m : OrderedMap κ ν}
    (h : ∀ e ∈ m.entries, p e.2 = true) :
    m.filterValues p = m := by
  obtain ⟨es, hnd⟩ := m
  have hes : es.filter (fun e => p e.2) = es := List.filter_eq_self.mpr h
  simp only [filterValues, hes]

/-- Every value changed, the keys and their order kept. -/
def mapValues (f : κ → ν → ν) (m : OrderedMap κ ν) : OrderedMap κ ν where
  entries := m.entries.map fun e => (e.1, f e.1 e.2)
  nodup   := by
    rw [List.map_map]
    exact m.nodup

theorem get?_mapValues (f : κ → ν → ν) (m : OrderedMap κ ν) (k : κ) :
    (m.mapValues f).get? k = (m.get? k).map (f k) := by
  apply Option.ext
  intro w
  rw [get?_eq_some_iff, Option.map_eq_some_iff]
  constructor
  · intro h
    obtain ⟨e, he, heq⟩ := List.mem_map.mp h
    cases heq
    exact ⟨e.2, get?_eq_some_iff.mpr he, rfl⟩
  · rintro ⟨v, hv, rfl⟩
    exact List.mem_map.mpr ⟨(k, v), get?_eq_some_iff.mp hv, rfl⟩

/-- Filtering by value hides entries, it never changes one. -/
theorem get?_of_filterValues {p : ν → Bool} {m : OrderedMap κ ν} {k : κ} {v : ν}
    (h : (m.filterValues p).get? k = some v) : m.get? k = some v :=
  get?_eq_some_iff.mpr (List.mem_filter.mp (get?_eq_some_iff.mp h)).1

/-- Eviction hides entries, it never changes one. -/
theorem get?_of_dropOldest {n : Nat} {m : OrderedMap κ ν} {k : κ} {v : ν}
    (h : (m.dropOldest n).get? k = some v) : m.get? k = some v :=
  get?_eq_some_iff.mpr (List.mem_of_mem_drop (get?_eq_some_iff.mp h))

end OrderedMap
