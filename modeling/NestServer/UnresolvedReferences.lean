import NestServer.DepthFirst
import NestServer.ObjectGraph

/-! # Unresolved references

    `removeUnresolvedReferences` of `db.helper.ts` goes through a populated result along
    the populate options and sets to null what is still an `ObjectId`.  It marks every
    array it walks through, and every object when it follows an option with nested
    options from it; what is marked is not gone through again, whatever the options.

    `walk` says on the result as it was which places that comes to and what is cut off
    (`removeUnresolvedReferences_eq_walk`).  `Named` says which places the options
    name.  `removeUnresolvedReferences_iff` compares the two. -/

namespace UnresolvedReferences

variable {κ : Type}

/-- What `populatedOptions` may be. -/
inductive Populate where
  | undefined
  | name (path : String)
  | option (path : String) (populate : Populate)
  | list (items : List Populate)

namespace Populate

/-- `!populatedOptions` is false -/
def truthy : Populate → Bool
  | undefined => false
  | name path => path ≠ ""
  | _         => true

/-- `ignoreFirst && typeof po === 'object' ? po.populate : po`, for `ignoreFirst` -/
def nestedOfObject : Populate → Populate
  | option _ populate => populate
  | list _            => undefined
  | po                => po

mutual

/-- How many times the options can be taken apart. -/
def depth : Populate → Nat
  | option _ populate => populate.depth + 1
  | list items        => depthAll items + 1
  | _                 => 0

def depthAll : List Populate → Nat
  | []         => 0
  | po :: rest => max po.depth (depthAll rest)

end

end Populate

/-! ## The code -/

/-- The heap, and what is in `visited`. -/
structure Removal (κ : Type) where
  heap    : Heap κ
  visited : List Nat

/-- `['_id', 'id'].includes(key)` -/
def isIdKey (key : String) : Bool := key = "_id" || key = "id"

def isObjectId : GVal → Bool
  | .oid _ => true
  | _      => false

/-- `populated[key]` -/
def valueAt (h : Heap κ) (r : Nat) (key : String) : GVal :=
  match h[r]? with
  | some (.obj _ fields) => (fields.lookup key).getD (.prim .undefined)
  | _                    => .prim .undefined

def nullField (key : String) (fields : List (String × GVal)) : List (String × GVal) :=
  fields.map fun e => if e.1 = key then (key, .prim .null) else e

/-- `populated[key] = null` -/
def setNull (h : Heap κ) (r : Nat) (key : String) : Heap κ :=
  h.modify r fun
    | .obj proto fields => .obj proto (nullField key fields)
    | cell              => cell

/-- The object branch, `r` being the object and `f` the nested call. -/
def removeInObject (f : GVal → Populate → Removal κ → Option (Removal κ)) (r : Nat)
    (ignoreFirst : Bool) (s : Removal κ) : Populate → Option (Removal κ)
  | .undefined => some s
  | .list items => items.foldlM (fun s po =>
      f (.ref r) (if ignoreFirst then po.nestedOfObject else po) s) s
  | .name key =>
      if !isIdKey key && isObjectId (valueAt s.heap r key) then
        some { s with heap := setNull s.heap r key }
      else some s
  | .option key populate =>
      if key = "" then some s
      else if !isIdKey key && isObjectId (valueAt s.heap r key) then
        some { s with heap := setNull s.heap r key }
      else if !populate.truthy then some s
      else if s.visited.contains r then some s
      else f (valueAt s.heap r key) populate { s with visited := r :: s.visited }

/-- `removeUnresolvedReferences(populated, populatedOptions, ignoreFirst, visited)`, within
    a call stack that takes so many nested calls.  An `ObjectId` has no property that the
    options could name. -/
def removeUnresolvedReferences : Nat → GVal → Populate → Bool → Removal κ → Option (Removal κ)
  | 0, _, _, _, _                                    => none
  | _ + 1, .prim _, _, _, s | _ + 1, .oid _, _, _, s => some s
  | n + 1, .ref r, populatedOptions, ignoreFirst, s  =>
      if !populatedOptions.truthy then some s
      else match s.heap[r]? with
        | none              => some s
        | some (.arr items) =>
            if s.visited.contains r then some s
            else items.foldlM (fun s p => removeUnresolvedReferences n p populatedOptions false s)
              { s with visited := r :: s.visited }
        | some (.obj _ _)   =>
            removeInObject (fun p options s => removeUnresolvedReferences n p options false s) r
              ignoreFirst s populatedOptions

/-! ## What the options name -/

/-- A key of an object. -/
abbrev Place := Nat × String

/-- The options name a place, from a value on. -/
inductive Named (h : Heap κ) : GVal → Populate → Place → Prop
  | item {r items v options p} (hcell : h[r]? = some (.arr items)) (hv : v ∈ items)
      (hp : Named h v options p) : Named h (.ref r) options p
  | each {r proto fields items po p} (hcell : h[r]? = some (.obj proto fields)) (hpo : po ∈ items)
      (hp : Named h (.ref r) po p) : Named h (.ref r) (.list items) p
  | name {r proto fields key} (hcell : h[r]? = some (.obj proto fields)) (hkey : key ≠ "") :
      Named h (.ref r) (.name key) (r, key)
  | path {r proto fields key populate} (hcell : h[r]? = some (.obj proto fields))
      (hkey : key ≠ "") : Named h (.ref r) (.option key populate) (r, key)
  | nested {r proto fields key populate p} (hcell : h[r]? = some (.obj proto fields))
      (hkey : key ≠ "") (hp : Named h (valueAt h r key) populate p) :
      Named h (.ref r) (.option key populate) p

/-- A reference that is still an `ObjectId`, and no id. -/
def Unresolved (h : Heap κ) (p : Place) : Prop :=
  isIdKey p.2 = false ∧ isObjectId (valueAt h p.1 p.2) = true

/-- What a reference cannot change: the arrays, the classes and the keys. -/
def shapeOf : Cell κ → List GVal ⊕ (List κ × List String)
  | .arr items        => .inl items
  | .obj proto fields => .inr (proto, fields.map Prod.fst)

/-- Exactly the unresolved references at these places are null in `h'`. -/
structure RemovedAt (h : Heap κ) (places : Place → Prop) (h' : Heap κ) : Prop where
  shape   : ∀ r : Nat, h'[r]?.map shapeOf = h[r]?.map shapeOf
  removed : ∀ p, places p → Unresolved h p → valueAt h' p.1 p.2 = .prim .null
  kept    : ∀ p, ¬ (places p ∧ Unresolved h p) → valueAt h' p.1 p.2 = valueAt h p.1 p.2

/-! ## The walk -/

/-- What is marked, the places it has come to and the parts that were cut off. -/
structure Walk where
  visited : List Nat
  looked  : List Place
  cutOff  : List (GVal × Populate)

namespace Walk

def mark (w : Walk) (r : Nat) : Walk := { w with visited := r :: w.visited }

def look (w : Walk) (p : Place) : Walk := { w with looked := p :: w.looked }

def cut (w : Walk) (v : GVal) (options : Populate) : Walk :=
  { w with cutOff := (v, options) :: w.cutOff }

end Walk

/-- The value is an unresolved reference, and not set to null yet. -/
def isUnresolved (h : Heap κ) (w : Walk) (p : Place) : Bool :=
  !isIdKey p.2 && isObjectId (valueAt h p.1 p.2) && !w.looked.contains p

/-- The way on from the object `r`. -/
def walkObject (h : Heap κ) (f : GVal → Populate → Walk → Option Walk) (r : Nat) (w : Walk) :
    Populate → Option Walk
  | .undefined => some w
  | .list items => items.foldlM (fun w po => f (.ref r) po w) w
  | .name key => some (w.look (r, key))
  | .option key populate =>
      if key = "" then some w
      else if isUnresolved h w (r, key) then some (w.look (r, key))
      else if !populate.truthy then some (w.look (r, key))
      else if w.visited.contains r then
        some ((w.look (r, key)).cut (.ref r) (.option key populate))
      else f (valueAt h r key) populate ((w.look (r, key)).mark r)

/-- The way through a result. -/
def walk (h : Heap κ) : Nat → GVal → Populate → Walk → Option Walk
  | 0, _, _, _                                 => none
  | _ + 1, .prim _, _, w | _ + 1, .oid _, _, w => some w
  | n + 1, .ref r, options, w                  =>
      if !options.truthy then some w
      else match h[r]? with
        | none              => some w
        | some (.arr items) =>
            if w.visited.contains r then some (w.cut (.ref r) options)
            else items.foldlM (fun w v => walk h n v options w) (w.mark r)
        | some (.obj _ _)   => walkObject h (walk h n) r w options

/-- The options in whose place the nested ones stand for a single document. -/
def applied (h : Heap κ) (result : GVal) (items : List Populate) : List Populate :=
  match result with
  | .ref r => match h[r]? with
      | some (.obj _ _) => items.map Populate.nestedOfObject
      | _               => items
  | _ => items

/-- A part that the walk has cut off names the place, and no other part came to it. -/
def Lost (h : Heap κ) (w : Walk) (p : Place) : Prop :=
  p ∉ w.looked ∧ ∃ c ∈ w.cutOff, Named h c.1 c.2 p

/-! ## The code does what the walk looks at -/

/-- The keys with a property are null. -/
def clearCell (cleared : String → Bool) : Cell κ → Cell κ
  | .arr items        => .arr items
  | .obj proto fields =>
      .obj proto (fields.map fun e => (e.1, if cleared e.1 then .prim .null else e.2))

/-- Whether a place is looked at and holds an unresolved reference. -/
def isCleared (h : Heap κ) (looked : List Place) (r : Nat) (key : String) : Bool :=
  !isIdKey key && isObjectId (valueAt h r key) && looked.contains (r, key)

/-- The result after these places have been looked at. -/
def clear (h : Heap κ) (looked : List Place) : Heap κ :=
  h.mapIdx fun r cell => clearCell (isCleared h looked r) cell

def stateOf (h : Heap κ) (w : Walk) : Removal κ where
  heap    := clear h w.looked
  visited := w.visited

section

variable {h : Heap κ} {looked : List Place} {r : Nat} {key : String}

theorem clear_get (r : Nat) :
    (clear h looked)[r]? = h[r]?.map (clearCell (isCleared h looked r)) := by
  rw [clear, List.getElem?_mapIdx]

theorem lookup_clear (cleared : String → Bool) (fields : List (String × GVal)) (key : String) :
    (fields.map fun e => (e.1, if cleared e.1 then GVal.prim .null else e.2)).lookup key
      = (fields.lookup key).map fun v => if cleared key then .prim .null else v := by
  induction fields with
  | nil => rfl
  | cons e fields ih =>
      obtain ⟨k, v⟩ := e
      rw [List.map_cons, List.lookup_cons, List.lookup_cons]
      by_cases hk : key = k
      · subst hk
        rw [beq_self_eq_true]
        rfl
      · rw [beq_false_of_ne hk]
        exact ih

theorem valueAt_clear (r : Nat) (key : String) :
    valueAt (clear h looked) r key
      = if isCleared h looked r key then .prim .null else valueAt h r key := by
  by_cases hcleared : isCleared h looked r key = true
  · rw [if_pos hcleared, valueAt, clear_get]
    rw [isCleared, Bool.and_eq_true, Bool.and_eq_true, valueAt] at hcleared
    cases hcell : h[r]? with
    | none => rw [hcell] at hcleared; exact absurd hcleared.1.2 Bool.false_ne_true
    | some cell =>
        cases cell with
        | arr items => rw [hcell] at hcleared; exact absurd hcleared.1.2 Bool.false_ne_true
        | obj proto fields =>
            rw [hcell] at hcleared
            rw [Option.map_some, clearCell]
            dsimp only at hcleared ⊢
            rw [lookup_clear]
            cases hlookup : fields.lookup key with
            | none =>
                rw [hlookup] at hcleared
                exact absurd hcleared.1.2 Bool.false_ne_true
            | some v =>
                have hagain : isCleared h looked r key = true := by
                  rw [isCleared, Bool.and_eq_true, Bool.and_eq_true, valueAt, hcell]
                  exact hcleared
                rw [Option.map_some, if_pos hagain]
                rfl
  · rw [if_neg hcleared, valueAt, valueAt, clear_get]
    cases h[r]? with
    | none => rfl
    | some cell =>
        cases cell with
        | arr items => rfl
        | obj proto fields =>
            rw [Option.map_some, clearCell]
            dsimp only
            rw [lookup_clear]
            cases fields.lookup key with
            | none   => rfl
            | some v => rw [Option.map_some, if_neg hcleared]

theorem isCleared_look (a : Nat) (k : String) :
    isCleared h ((r, key) :: looked) a k = (isCleared h looked a k
      || !isIdKey k && isObjectId (valueAt h a k) && decide ((a, k) = (r, key))) := by
  have hcontains : ((r, key) :: looked).contains (a, k)
      = (decide ((a, k) = (r, key)) || looked.contains (a, k)) := by
    rw [Bool.eq_iff_iff]
    simp
  rw [isCleared, isCleared, hcontains, Bool.or_comm (decide _), Bool.and_or_distrib_left]

/-- Setting a reference to null that has not been looked at. -/
theorem setNull_clear (hid : isIdKey key = false) (hraw : isObjectId (valueAt h r key) = true) :
    setNull (clear h looked) r key = clear h ((r, key) :: looked) := by
  refine List.ext_getElem? fun a => ?_
  rw [setNull, List.getElem?_modify, clear_get, clear_get]
  cases h[a]? with
  | none => rfl
  | some cell =>
      rw [Option.map_some, Option.map_some]
      refine congrArg some ?_
      dsimp only
      cases cell with
      | arr items => rw [clearCell, clearCell]; split <;> rfl
      | obj proto fields =>
          by_cases ha : r = a
          · subst ha
            rw [if_pos rfl, clearCell, clearCell]
            dsimp only
            rw [nullField, List.map_map]
            congr 1
            refine List.map_congr_left fun e _ => ?_
            rw [Function.comp_apply, isCleared_look]
            dsimp only
            by_cases hkey : e.1 = key
            · rw [if_pos hkey, hkey, hid, hraw, decide_eq_true rfl, Bool.not_false, Bool.and_true,
                Bool.and_true, Bool.or_true, if_pos rfl]
            · have hne : decide ((r, e.1) = (r, key)) = false :=
                decide_eq_false fun h => hkey (Prod.mk.inj h).2
              rw [if_neg hkey, hne, Bool.and_false, Bool.or_false]
          · rw [if_neg ha, clearCell, clearCell]
            congr 1
            refine List.map_congr_left fun e _ => ?_
            have hne : decide ((a, e.1) = (r, key)) = false :=
              decide_eq_false fun h => ha (Prod.mk.inj h).1.symm
            rw [isCleared_look, hne, Bool.and_false, Bool.or_false]

/-- Looking at a place that holds no reference any more. -/
theorem clear_look (hnot : (!isIdKey key && isObjectId (valueAt h r key) &&
    !looked.contains (r, key))
    = false) : clear h ((r, key) :: looked) = clear h looked := by
  refine List.ext_getElem? fun a => ?_
  rw [clear_get, clear_get]
  have hsame : isCleared h ((r, key) :: looked) a = isCleared h looked a := by
    funext k
    rw [isCleared_look]
    by_cases hplace : (a, k) = (r, key)
    · obtain ⟨rfl, rfl⟩ := Prod.mk.inj hplace
      rw [decide_eq_true hplace, Bool.and_true, isCleared]
      revert hnot
      cases !isIdKey k && isObjectId (valueAt h a k) <;> cases looked.contains (a, k) <;> decide
    · rw [decide_eq_false hplace, Bool.and_false, Bool.or_false]
  rw [hsame]

/-- Without a value to go through, nothing is done. -/
theorem removeUnresolvedReferences_of_leaf {v : GVal} (hv : ∀ r, v ≠ .ref r) (n : Nat)
    (options : Populate) (ignoreFirst : Bool) (s : Removal κ) :
    removeUnresolvedReferences n v options ignoreFirst s = if n = 0 then none else some s := by
  cases n with
  | zero => rfl
  | succ n =>
      cases v with
      | prim p  => rfl
      | oid hex => rfl
      | ref r   => exact absurd rfl (hv r)

theorem walk_of_leaf {v : GVal} (hv : ∀ r, v ≠ .ref r) (n : Nat) (options : Populate) (w : Walk) :
    walk h n v options w = if n = 0 then none else some w := by
  cases n with
  | zero => rfl
  | succ n =>
      cases v with
      | prim p  => rfl
      | oid hex => rfl
      | ref r   => exact absurd rfl (hv r)

/-- A loop of calls is a loop of walks. -/
theorem foldlM_stateOf {α : Type} {f : Removal κ → α → Option (Removal κ)}
    {g : Walk → α → Option Walk} {items : List α}
    (hfg : ∀ item w, f (stateOf h w) item = (g w item).map (stateOf h)) (w : Walk) :
    items.foldlM f (stateOf h w) = (items.foldlM g w).map (stateOf h) := by
  induction items generalizing w with
  | nil => rfl
  | cons item items ih =>
      rw [List.foldlM_cons, List.foldlM_cons, hfg]
      cases g w item with
      | none    => rfl
      | some w' => exact ih w'

/-- The test on the result as it is now, by what has been looked at. -/
theorem isUnresolved_eq (w : Walk) (r : Nat) (key : String) :
    (!isIdKey key && isObjectId (valueAt (stateOf h w).heap r key)) =
      isUnresolved h w (r, key) := by
  rw [stateOf, valueAt_clear, isUnresolved, isCleared]
  dsimp only
  cases isIdKey key with
  | true => rfl
  | false =>
      cases hraw : isObjectId (valueAt h r key) with
      | false =>
          rw [Bool.and_false, Bool.false_and, if_neg Bool.false_ne_true, hraw]
          rfl
      | true =>
          cases w.looked.contains (r, key) with
          | false => exact congrArg (true && ·) hraw
          | true  => rfl

/-- Coming to a place: a reference is set to null, anything else left. -/
theorem stateOf_look (w : Walk) (r : Nat) (key : String) :
    stateOf h (w.look (r, key)) = if isUnresolved h w (r, key) then
        { stateOf h w with heap := setNull (stateOf h w).heap r key }
      else stateOf h w := by
  cases hunresolved : isUnresolved h w (r, key) with
  | true =>
      rw [if_pos rfl]
      rw [isUnresolved, Bool.and_eq_true, Bool.and_eq_true, Bool.not_eq_true'] at hunresolved
      have hheap : setNull (clear h w.looked) r key = clear h ((r, key) :: w.looked) :=
        setNull_clear hunresolved.1.1 hunresolved.1.2
      rw [stateOf, stateOf]
      dsimp only
      rw [hheap]
      rfl
  | false =>
      rw [if_neg Bool.false_ne_true]
      have hheap : clear h ((r, key) :: w.looked) = clear h w.looked := clear_look hunresolved
      rw [stateOf, Walk.look, hheap]
      rfl

/-- An option on an object. -/
theorem removeInObject_eq {f : GVal → Populate → Removal κ → Option (Removal κ)}
    {g : GVal → Populate → Walk → Option Walk}
    (hfg : ∀ v options w, f v options (stateOf h w) = (g v options w).map (stateOf h))
    (hleaf : ∀ v options w, (∀ r, v ≠ .ref r) → g v options w = g (.prim .null) options w)
    (r : Nat) (w : Walk) (options : Populate) :
    removeInObject f r false (stateOf h w) options =
      (walkObject h g r w options).map (stateOf h) := by
  cases options with
  | undefined  => rfl
  | list items => exact foldlM_stateOf (fun po w => hfg (.ref r) po w) w
  | name key   =>
      rw [removeInObject, walkObject, Option.map_some, stateOf_look, isUnresolved_eq]
      cases isUnresolved h w (r, key) <;> rfl
  | option key populate =>
      rw [removeInObject, walkObject, isUnresolved_eq]
      by_cases hkey : key = ""
      · rw [if_pos hkey, if_pos hkey]
        rfl
      · rw [if_neg hkey, if_neg hkey]
        have hlook := stateOf_look (h := h) w r key
        cases hunresolved : isUnresolved h w (r, key) with
        | true =>
            rw [hunresolved, if_pos rfl] at hlook
            rw [if_pos rfl, if_pos rfl, Option.map_some, hlook]
        | false =>
            rw [hunresolved, if_neg Bool.false_ne_true] at hlook
            rw [if_neg Bool.false_ne_true, if_neg Bool.false_ne_true]
            by_cases htruthy : (!populate.truthy) = true
            · rw [if_pos htruthy, if_pos htruthy, Option.map_some, hlook]
            · rw [if_neg htruthy, if_neg htruthy]
              by_cases hvisited : w.visited.contains r = true
              · have hsame : (stateOf h w).visited.contains r = true := hvisited
                rw [if_pos hsame, if_pos hvisited, Option.map_some]
                exact congrArg some hlook.symm
              · have hsame : ¬ (stateOf h w).visited.contains r = true := hvisited
                rw [if_neg hsame, if_neg hvisited]
                have hmark :
                    ({ stateOf h w with visited := r :: (stateOf h w).visited } : Removal κ)
                    = stateOf h ((w.look (r, key)).mark r) := by
                  rw [← hlook]
                  rfl
                rw [hmark, hfg, stateOf, valueAt_clear]
                by_cases hcleared : isCleared h w.looked r key = true
                · -- the reference was set to null before
                  rw [if_pos hcleared]
                  rw [isCleared, Bool.and_eq_true, Bool.and_eq_true] at hcleared
                  rw [hleaf (valueAt h r key)]
                  rintro a ha
                  rw [ha] at hcleared
                  exact Bool.false_ne_true hcleared.1.2
                · rw [if_neg hcleared]

/-- **The code does what the walk looks at.** -/
theorem removeUnresolvedReferences_eq_walk (n : Nat) (v : GVal) (options : Populate) (w : Walk) :
    removeUnresolvedReferences n v options false (stateOf h w)
      = (walk h n v options w).map (stateOf h) := by
  induction n generalizing v options w with
  | zero => rfl
  | succ n ih =>
      cases v with
      | prim p  => rfl
      | oid hex => rfl
      | ref r =>
          rw [removeUnresolvedReferences, walk]
          by_cases htruthy : (!options.truthy) = true
          · rw [if_pos htruthy, if_pos htruthy]
            rfl
          · rw [if_neg htruthy, if_neg htruthy]
            have hget : (stateOf h w).heap[r]? = h[r]?.map (clearCell (isCleared h w.looked r)) :=
              clear_get r
            rw [hget]
            cases h[r]? with
            | none => rfl
            | some cell =>
                cases cell with
                | obj proto fields =>
                    exact removeInObject_eq ih (fun v options w hv => by
                      rw [walk_of_leaf hv, walk_of_leaf (v := .prim .null) (by rintro r ⟨⟩)]) r w
                      options
                | arr items =>
                    rw [Option.map_some, clearCell]
                    dsimp only
                    by_cases hvisited : w.visited.contains r = true
                    · have hsame : (stateOf h w).visited.contains r = true := hvisited
                      rw [if_pos hsame, if_pos hvisited]
                      rfl
                    · have hsame : ¬ (stateOf h w).visited.contains r = true := hvisited
                      rw [if_neg hsame, if_neg hvisited]
                      exact foldlM_stateOf (fun v w => ih v options w) (w.mark r)

end

/-! ## What the options name, by the value -/

section

variable {h : Heap κ} {r : Nat} {p : Place}

theorem named_leaf {v : GVal} {options : Populate} (hv : ∀ r, v ≠ .ref r) :
    ¬ Named h v options p := by
  intro hp
  cases hp with
  | item _ _ _   => exact hv _ rfl
  | each _ _ _   => exact hv _ rfl
  | name _ _     => exact hv _ rfl
  | path _ _     => exact hv _ rfl
  | nested _ _ _ => exact hv _ rfl

theorem named_none {options : Populate} (hcell : h[r]? = none) : ¬ Named h (.ref r) options p := by
  intro hp
  cases hp with
  | item hcell' _ _   => rw [hcell] at hcell'; cases hcell'
  | each hcell' _ _   => rw [hcell] at hcell'; cases hcell'
  | name hcell' _     => rw [hcell] at hcell'; cases hcell'
  | path hcell' _     => rw [hcell] at hcell'; cases hcell'
  | nested hcell' _ _ => rw [hcell] at hcell'; cases hcell'

theorem named_arr {items : List GVal} {options : Populate} (hcell : h[r]? = some (.arr items)) :
    Named h (.ref r) options p ↔ ∃ v ∈ items, Named h v options p := by
  constructor
  · intro hp
    cases hp with
    | item hcell' hv hp =>
        rw [hcell] at hcell'
        cases hcell'
        exact ⟨_, hv, hp⟩
    | each hcell' _ _   => rw [hcell] at hcell'; cases hcell'
    | name hcell' _     => rw [hcell] at hcell'; cases hcell'
    | path hcell' _     => rw [hcell] at hcell'; cases hcell'
    | nested hcell' _ _ => rw [hcell] at hcell'; cases hcell'
  · rintro ⟨v, hv, hp⟩
    exact .item hcell hv hp

section

variable {proto : List κ} {fields : List (String × GVal)} (hcell : h[r]? = some (.obj proto fields))
include hcell

theorem named_list {items : List Populate} :
    Named h (.ref r) (.list items) p ↔ ∃ po ∈ items, Named h (.ref r) po p := by
  constructor
  · intro hp
    cases hp with
    | item hcell' _ _  => rw [hcell] at hcell'; cases hcell'
    | each _ hpo hp    => exact ⟨_, hpo, hp⟩
  · rintro ⟨po, hpo, hp⟩
    exact .each hcell hpo hp

theorem named_name {key : String} :
    Named h (.ref r) (.name key) p ↔ key ≠ "" ∧ p = (r, key) := by
  constructor
  · intro hp
    cases hp with
    | item hcell' _ _ => rw [hcell] at hcell'; cases hcell'
    | name _ hkey     => exact ⟨hkey, rfl⟩
  · rintro ⟨hkey, rfl⟩
    exact .name hcell hkey

theorem named_option {key : String} {populate : Populate} :
    Named h (.ref r) (.option key populate) p
      ↔ key ≠ "" ∧ (p = (r, key) ∨ Named h (valueAt h r key) populate p) := by
  constructor
  · intro hp
    cases hp with
    | item hcell' _ _   => rw [hcell] at hcell'; cases hcell'
    | path _ hkey       => exact ⟨hkey, Or.inl rfl⟩
    | nested _ hkey hp  => exact ⟨hkey, Or.inr hp⟩
  · rintro ⟨hkey, rfl | hp⟩
    · exact .path hcell hkey
    · exact .nested hcell hkey hp

end

/-- Options that are not there name nothing. -/
theorem not_named_of_not_truthy {v : GVal} {options : Populate}
    (ht : (!options.truthy) = true) : ¬ Named h v options p := by
  intro hp
  induction hp with
  | item _ _ _ ih      => exact ih ht
  | each _ _ _         => cases ht
  | name _ hkey        =>
      rw [Populate.truthy, decide_eq_true hkey] at ht
      cases ht
  | path _ _           => cases ht
  | nested _ _ _       => cases ht

end

/-! ## What the walk comes to -/

section

variable (h : Heap κ)

/-- What the walk does along some parts: it looks only at what they name, and what they
    name is looked at or cut off. -/
structure Covers (parts : List (GVal × Populate)) (w w' : Walk) : Prop where
  lookedKept : ∀ p ∈ w.looked, p ∈ w'.looked
  cutKept    : ∀ c ∈ w.cutOff, c ∈ w'.cutOff
  sound      : ∀ p ∈ w'.looked, p ∈ w.looked ∨ ∃ c ∈ parts, Named h c.1 c.2 p
  complete   : ∀ c ∈ parts, ∀ p, Named h c.1 c.2 p →
    p ∈ w'.looked ∨ ∃ c' ∈ w'.cutOff, Named h c'.1 c'.2 p

end

section

variable {h : Heap κ} {w w' w'' : Walk}

/-- Parts that name nothing. -/
theorem Covers.nothing {v : GVal} {options : Populate} (hnot : ∀ p, ¬ Named h v options p) :
    Covers h [(v, options)] w w where
  lookedKept _ hp := hp
  cutKept _ hc := hc
  sound _ hp := Or.inl hp
  complete c hc p hp := by
    rw [List.mem_singleton.mp hc] at hp
    exact absurd hp (hnot p)

theorem Covers.nil : Covers h [] w w where
  lookedKept _ hp := hp
  cutKept _ hc := hc
  sound _ hp := Or.inl hp
  complete _ hc := absurd hc List.not_mem_nil

theorem Covers.append {parts parts' : List (GVal × Populate)} (h₁ : Covers h parts w w')
    (h₂ : Covers h parts' w' w'') : Covers h (parts ++ parts') w w'' where
  lookedKept p hp := h₂.lookedKept p (h₁.lookedKept p hp)
  cutKept c hc := h₂.cutKept c (h₁.cutKept c hc)
  sound p hp := by
    rcases h₂.sound p hp with hp | ⟨c, hc, hnamed⟩
    · rcases h₁.sound p hp with hp | ⟨c, hc, hnamed⟩
      · exact Or.inl hp
      · exact Or.inr ⟨c, List.mem_append_left _ hc, hnamed⟩
    · exact Or.inr ⟨c, List.mem_append_right _ hc, hnamed⟩
  complete c hc p hp := by
    rcases List.mem_append.mp hc with hc | hc
    · rcases h₁.complete c hc p hp with hlooked | ⟨c', hc', hnamed⟩
      · exact Or.inl (h₂.lookedKept p hlooked)
      · exact Or.inr ⟨c', h₂.cutKept c' hc', hnamed⟩
    · exact h₂.complete c hc p hp

/-- Parts that name the same. -/
theorem Covers.of_named_iff {parts parts' : List (GVal × Populate)} (hc : Covers h parts w w')
    (hiff : ∀ p, (∃ c ∈ parts', Named h c.1 c.2 p) ↔ ∃ c ∈ parts, Named h c.1 c.2 p) :
    Covers h parts' w w' where
  lookedKept := hc.lookedKept
  cutKept := hc.cutKept
  sound p hp := (hc.sound p hp).imp_right (hiff p).mpr
  complete c hmem p hp := by
    obtain ⟨c', hmem', hp'⟩ := (hiff p).mp ⟨c, hmem, hp⟩
    exact hc.complete c' hmem' p hp'

/-- Marking is not looking. -/
theorem Covers.mark {parts : List (GVal × Populate)} {r : Nat}
    (hc : Covers h parts (w.mark r) w') : Covers h parts w w' where
  lookedKept := hc.lookedKept
  cutKept := hc.cutKept
  sound := hc.sound
  complete := hc.complete

/-- A place that the part names, before the rest of it. -/
theorem Covers.look {v : GVal} {options : Populate} {parts : List (GVal × Populate)} {q : Place}
    (hc : Covers h parts (w.look q) w') (hq : Named h v options q)
    (hiff : ∀ p, Named h v options p ↔ p = q ∨ ∃ c ∈ parts, Named h c.1 c.2 p) :
    Covers h [(v, options)] w w' where
  lookedKept p hp := hc.lookedKept p (List.mem_cons_of_mem _ hp)
  cutKept := hc.cutKept
  sound p hp := by
    rcases hc.sound p hp with hp | hnamed
    · rcases List.mem_cons.mp hp with rfl | hp
      · exact Or.inr ⟨_, List.mem_cons_self, hq⟩
      · exact Or.inl hp
    · exact Or.inr ⟨_, List.mem_cons_self, (hiff p).mpr (Or.inr hnamed)⟩
  complete c hmem p hp := by
    rw [List.mem_singleton.mp hmem] at hp
    rcases (hiff p).mp hp with rfl | ⟨c', hmem', hp'⟩
    · exact Or.inl (hc.lookedKept p List.mem_cons_self)
    · exact hc.complete c' hmem' p hp'

/-- A part that is cut off. -/
theorem Covers.cut (v : GVal) (options : Populate) :
    Covers h [(v, options)] w (w.cut v options) where
  lookedKept _ hp := hp
  cutKept _ hc := List.mem_cons_of_mem _ hc
  sound _ hp := Or.inl hp
  complete c hc p hp := by
    rw [List.mem_singleton.mp hc] at hp
    exact Or.inr ⟨_, List.mem_cons_self, hp⟩

/-- A loop over parts. -/
theorem foldlM_covers {α : Type} {f : Walk → α → Option Walk} (part : α → GVal × Populate)
    (hf : ∀ item w w', f w item = some w' → Covers h [part item] w w') {items : List α}
    (hrun : items.foldlM f w = some w') : Covers h (items.map part) w w' := by
  induction items generalizing w with
  | nil =>
      obtain rfl := Option.some.inj hrun
      exact Covers.nil
  | cons item items ih =>
      rw [List.foldlM_cons] at hrun
      obtain ⟨w₁, h₁, h₂⟩ := Option.bind_eq_some_iff.mp hrun
      exact Covers.append (hf item w w₁ h₁) (ih h₂)

/-- An option on an object. -/
theorem walkObject_covers {f : GVal → Populate → Walk → Option Walk}
    (hf : ∀ v options w w', f v options w = some w' → Covers h [(v, options)] w w') {r : Nat}
    {proto : List κ} {fields : List (String × GVal)} (hcell : h[r]? = some (.obj proto fields))
    {options : Populate} (htruthy : ¬ (!options.truthy) = true)
    (hrun : walkObject h f r w options = some w') : Covers h [(.ref r, options)] w w' := by
  cases options with
  | undefined => exact absurd rfl htruthy
  | list items =>
      refine Covers.of_named_iff (foldlM_covers (fun po => (.ref r, po))
        (fun po w w' => hf _ po w w') hrun) fun p => ?_
      constructor
      · rintro ⟨c, hc, hp⟩
        rw [List.mem_singleton.mp hc] at hp
        obtain ⟨po, hpo, hp⟩ := (named_list hcell).mp hp
        exact ⟨_, List.mem_map_of_mem hpo, hp⟩
      · rintro ⟨c, hc, hp⟩
        obtain ⟨po, hpo, rfl⟩ := List.mem_map.mp hc
        exact ⟨_, List.mem_cons_self, (named_list hcell).mpr ⟨po, hpo, hp⟩⟩
  | name key =>
      obtain rfl := Option.some.inj hrun
      have hkey : key ≠ "" := by
        intro hempty
        exact htruthy (by rw [hempty]; rfl)
      refine Covers.look Covers.nil (.name hcell hkey) fun p => ?_
      rw [named_name hcell]
      constructor
      · exact fun hp => Or.inl hp.2
      · rintro (hp | ⟨c, hc, -⟩)
        · exact ⟨hkey, hp⟩
        · exact absurd hc List.not_mem_nil
  | option key populate =>
      rw [walkObject] at hrun
      by_cases hkey : key = ""
      · rw [if_pos hkey] at hrun
        obtain rfl := Option.some.inj hrun
        exact Covers.nothing fun p hp => ((named_option hcell).mp hp).1 hkey
      · rw [if_neg hkey] at hrun
        -- where nothing is named below, looking at the place is all
        have honly : (∀ p, ¬ Named h (valueAt h r key) populate p) →
            Covers h [(.ref r, .option key populate)] w (w.look (r, key)) := by
          intro hnot
          refine Covers.look Covers.nil (.path hcell hkey) fun p => ?_
          rw [named_option hcell]
          constructor
          · rintro ⟨-, hp | hp⟩
            · exact Or.inl hp
            · exact absurd hp (hnot p)
          · rintro (hp | ⟨c, hc, -⟩)
            · exact ⟨hkey, Or.inl hp⟩
            · exact absurd hc List.not_mem_nil
        by_cases hunresolved : isUnresolved h w (r, key) = true
        · rw [if_pos hunresolved] at hrun
          obtain rfl := Option.some.inj hrun
          refine honly fun p => named_leaf ?_
          intro a ha
          rw [isUnresolved, Bool.and_eq_true, Bool.and_eq_true, ha] at hunresolved
          exact Bool.false_ne_true hunresolved.1.2
        · rw [if_neg hunresolved] at hrun
          by_cases hnested : (!populate.truthy) = true
          · rw [if_pos hnested] at hrun
            obtain rfl := Option.some.inj hrun
            exact honly fun p => not_named_of_not_truthy hnested
          · rw [if_neg hnested] at hrun
            by_cases hvisited : w.visited.contains r = true
            · rw [if_pos hvisited] at hrun
              obtain rfl := Option.some.inj hrun
              refine Covers.look (Covers.cut _ _) (.path hcell hkey) fun p => ?_
              constructor
              · exact fun hp => Or.inr ⟨_, List.mem_cons_self, hp⟩
              · rintro (rfl | ⟨c, hc, hp⟩)
                · exact .path hcell hkey
                · rwa [List.mem_singleton.mp hc] at hp
            · rw [if_neg hvisited] at hrun
              refine Covers.look (Covers.mark (hf _ _ _ _ hrun)) (.path hcell hkey) fun p => ?_
              rw [named_option hcell]
              constructor
              · rintro ⟨-, hp | hp⟩
                · exact Or.inl hp
                · exact Or.inr ⟨_, List.mem_cons_self, hp⟩
              · rintro (hp | ⟨c, hc, hp⟩)
                · exact ⟨hkey, Or.inl hp⟩
                · rw [List.mem_singleton.mp hc] at hp
                  exact ⟨hkey, Or.inr hp⟩

/-- **Invariant of the walk.** -/
theorem walk_covers {n : Nat} {v : GVal} {options : Populate}
    (hrun : walk h n v options w = some w') : Covers h [(v, options)] w w' := by
  induction n generalizing v options w w' with
  | zero => cases hrun
  | succ n ih =>
      cases v with
      | prim p =>
          obtain rfl := Option.some.inj hrun
          exact Covers.nothing fun p => named_leaf (by rintro r ⟨⟩)
      | oid hex =>
          obtain rfl := Option.some.inj hrun
          exact Covers.nothing fun p => named_leaf (by rintro r ⟨⟩)
      | ref r =>
          rw [walk] at hrun
          by_cases htruthy : (!options.truthy) = true
          · rw [if_pos htruthy] at hrun
            obtain rfl := Option.some.inj hrun
            exact Covers.nothing fun p => not_named_of_not_truthy htruthy
          · rw [if_neg htruthy] at hrun
            cases hcell : h[r]? with
            | none =>
                rw [hcell] at hrun
                obtain rfl := Option.some.inj hrun
                exact Covers.nothing fun p => named_none hcell
            | some cell =>
                rw [hcell] at hrun
                cases cell with
                | obj proto fields =>
                    exact walkObject_covers (fun v options w w' => ih) hcell htruthy hrun
                | arr items =>
                    dsimp only at hrun
                    by_cases hvisited : w.visited.contains r = true
                    · rw [if_pos hvisited] at hrun
                      obtain rfl := Option.some.inj hrun
                      exact Covers.cut _ _
                    · rw [if_neg hvisited] at hrun
                      refine Covers.of_named_iff (Covers.mark (foldlM_covers
                        (fun v => (v, options)) (fun v w w' => ih) hrun)) fun p => ?_
                      constructor
                      · rintro ⟨c, hc, hp⟩
                        rw [List.mem_singleton.mp hc] at hp
                        obtain ⟨v, hv, hp⟩ := (named_arr hcell).mp hp
                        exact ⟨_, List.mem_map_of_mem hv, hp⟩
                      · rintro ⟨c, hc, hp⟩
                        obtain ⟨v, hv, rfl⟩ := List.mem_map.mp hc
                        exact ⟨_, List.mem_cons_self, (named_arr hcell).mpr ⟨v, hv, hp⟩⟩

end

/-! ## The walk ends -/

section

variable {h : Heap κ}

theorem depth_le_depthAll {po : Populate} {items : List Populate} (hpo : po ∈ items) :
    po.depth ≤ Populate.depthAll items := by
  induction items with
  | nil => exact absurd hpo List.not_mem_nil
  | cons first rest ih =>
      rw [Populate.depthAll]
      rcases List.mem_cons.mp hpo with rfl | hpo
      · exact Nat.le_max_left _ _
      · exact Nat.le_trans (ih hpo) (Nat.le_max_right _ _)

/-- How many addresses are not marked. -/
def unmarked (h : Heap κ) (w : Walk) : Nat :=
  DepthFirst.unmarked (List.range h.length) w.visited

/-- A loop of calls that all end, and keep what is marked. -/
theorem foldlM_total {α : Type} {f : Walk → α → Option Walk} {items : List α} (visited : List Nat)
    (hf : ∀ item ∈ items, ∀ w, (∀ a ∈ visited, a ∈ w.visited) →
      ∃ w', f w item = some w' ∧ ∀ a ∈ w.visited, a ∈ w'.visited)
    (w : Walk) (hw : ∀ a ∈ visited, a ∈ w.visited) :
    ∃ w', items.foldlM f w = some w' ∧ ∀ a ∈ w.visited, a ∈ w'.visited := by
  induction items generalizing w with
  | nil => exact ⟨w, rfl, fun _ ha => ha⟩
  | cons item items ih =>
      obtain ⟨w₁, h₁, hkept₁⟩ := hf item List.mem_cons_self w hw
      obtain ⟨w₂, h₂, hkept₂⟩ := ih (fun i hi => hf i (List.mem_cons_of_mem _ hi)) w₁
        fun a ha => hkept₁ a (hw a ha)
      refine ⟨w₂, ?_, fun a ha => hkept₂ a (hkept₁ a ha)⟩
      rw [List.foldlM_cons, h₁]
      exact h₂

theorem unmarked_mark_lt {r : Nat} {cell : Cell κ} (hcell : h[r]? = some cell) {w : Walk}
    (hnew : ¬ w.visited.contains r = true) (q : Place) :
    unmarked h ((w.look q).mark r) < unmarked h w :=
  DepthFirst.unmarked_cons_lt (List.mem_range.mpr (List.getElem?_eq_some_iff.mp hcell).1)
    (by simpa [Walk.look] using hnew)

theorem unmarked_le {w w' : Walk} (hkept : ∀ a ∈ w.visited, a ∈ w'.visited) :
    unmarked h w' ≤ unmarked h w :=
  DepthFirst.unmarked_mono hkept

/-- An option on an object. -/
theorem walkObject_total {n : Nat} {f : GVal → Populate → Walk → Option Walk}
    (hf : ∀ v options w, options.depth + unmarked h w < n →
      ∃ w', f v options w = some w' ∧ ∀ a ∈ w.visited, a ∈ w'.visited)
    {r : Nat} {cell : Cell κ} (hcell : h[r]? = some cell) {options : Populate} {w : Walk}
    (hn : options.depth + unmarked h w < n + 1) :
    ∃ w', walkObject h f r w options = some w' ∧ ∀ a ∈ w.visited, a ∈ w'.visited := by
  cases options with
  | undefined => exact ⟨w, rfl, fun _ ha => ha⟩
  | name key  => exact ⟨_, rfl, fun _ ha => ha⟩
  | list items =>
      refine foldlM_total w.visited (fun po hpo w₁ hkept => hf _ po w₁ ?_) w
        fun _ ha => ha
      have hdepth := depth_le_depthAll hpo
      have hle := unmarked_le (h := h) hkept
      rw [Populate.depth] at hn
      omega
  | option key populate =>
      rw [walkObject]
      by_cases hkey : key = ""
      · exact ⟨w, if_pos hkey, fun _ ha => ha⟩
      · rw [if_neg hkey]
        by_cases hunresolved : isUnresolved h w (r, key) = true
        · exact ⟨_, if_pos hunresolved, fun _ ha => ha⟩
        · rw [if_neg hunresolved]
          by_cases hnested : (!populate.truthy) = true
          · exact ⟨_, if_pos hnested, fun _ ha => ha⟩
          · rw [if_neg hnested]
            by_cases hvisited : w.visited.contains r = true
            · exact ⟨_, if_pos hvisited, fun _ ha => ha⟩
            · rw [if_neg hvisited]
              have hlt := unmarked_mark_lt hcell hvisited (r, key)
              rw [Populate.depth] at hn
              obtain ⟨w', hrun, hkept⟩ := hf (valueAt h r key) populate
                ((w.look (r, key)).mark r) (by omega)
              exact ⟨w', hrun, fun a ha => hkept a (List.mem_cons_of_mem _ ha)⟩

/-- **The depth that is enough.**  A nested call has taken the options apart once more, or
    has marked an array. -/
theorem walk_total {n : Nat} {v : GVal} {options : Populate} {w : Walk}
    (hn : options.depth + unmarked h w < n) :
    ∃ w', walk h n v options w = some w' ∧ ∀ a ∈ w.visited, a ∈ w'.visited := by
  induction n generalizing v options w with
  | zero => exact absurd hn (Nat.not_lt_zero _)
  | succ n ih =>
      cases v with
      | prim p  => exact ⟨w, rfl, fun _ ha => ha⟩
      | oid hex => exact ⟨w, rfl, fun _ ha => ha⟩
      | ref r =>
          rw [walk]
          by_cases htruthy : (!options.truthy) = true
          · exact ⟨w, if_pos htruthy, fun _ ha => ha⟩
          · rw [if_neg htruthy]
            cases hcell : h[r]? with
            | none => exact ⟨w, rfl, fun _ ha => ha⟩
            | some cell =>
                cases cell with
                | obj proto fields =>
                    exact walkObject_total (fun v options w => ih) hcell hn
                | arr items =>
                    dsimp only
                    by_cases hvisited : w.visited.contains r = true
                    · exact ⟨_, if_pos hvisited, fun _ ha => ha⟩
                    · rw [if_neg hvisited]
                      have hlt := unmarked_mark_lt hcell hvisited (r, "")
                      have hloop : ∃ w', items.foldlM (fun w v => walk h n v options w) (w.mark r)
                          = some w' ∧ ∀ a ∈ (w.mark r).visited, a ∈ w'.visited := by
                        refine foldlM_total (w.mark r).visited (fun v _ w₁ hkept => ih ?_) _
                          fun _ ha => ha
                        have hle : unmarked h w₁ ≤ unmarked h ((w.look (r, "")).mark r) :=
                          unmarked_le hkept
                        omega
                      obtain ⟨w', hrun, hkept⟩ := hloop
                      exact ⟨w', hrun, fun a ha => hkept a (List.mem_cons_of_mem _ ha)⟩

end

/-! ## The result -/

section

variable {h : Heap κ}

theorem isCleared_iff {looked : List Place} {p : Place} :
    isCleared h looked p.1 p.2 = true ↔ p ∈ looked ∧ Unresolved h p := by
  rw [isCleared, Bool.and_eq_true, Bool.and_eq_true, Bool.not_eq_true', Unresolved]
  have hmem : looked.contains (p.1, p.2) = true ↔ p ∈ looked := by simp
  rw [hmem]
  exact and_comm

/-- Right are exactly those places that were looked at, where there is a reference. -/
theorem removedAt_clear_iff {looked : List Place} {places : Place → Prop} :
    RemovedAt h places (clear h looked)
      ↔ ∀ p, Unresolved h p → (places p ↔ p ∈ looked) := by
  have hshape : ∀ r : Nat, (clear h looked)[r]?.map shapeOf = h[r]?.map shapeOf := by
    intro r
    rw [clear_get, Option.map_map]
    congr 1
    funext cell
    cases cell with
    | arr items => rfl
    | obj proto fields =>
        rw [Function.comp_apply, clearCell, shapeOf, shapeOf, List.map_map]
        rfl
  constructor
  · intro hr p hp
    have hnull : ¬ valueAt h p.1 p.2 = .prim .null := by
      intro heq
      rw [Unresolved, heq] at hp
      exact Bool.false_ne_true hp.2
    constructor
    · intro hplace
      have hremoved := hr.removed p hplace hp
      rw [valueAt_clear] at hremoved
      by_cases hcleared : isCleared h looked p.1 p.2 = true
      · exact (isCleared_iff.mp hcleared).1
      · rw [if_neg hcleared] at hremoved
        exact absurd hremoved hnull
    · intro hlooked
      by_contra hplace
      have hkept := hr.kept p fun hboth => hplace hboth.1
      rw [valueAt_clear, if_pos (isCleared_iff.mpr ⟨hlooked, hp⟩)] at hkept
      exact hnull hkept.symm
  · intro hall
    refine ⟨hshape, ?_, ?_⟩
    · intro p hplace hp
      rw [valueAt_clear, if_pos (isCleared_iff.mpr ⟨(hall p hp).mp hplace, hp⟩)]
    · intro p hnot
      rw [valueAt_clear, if_neg]
      intro hcleared
      obtain ⟨hlooked, hp⟩ := isCleared_iff.mp hcleared
      exact hnot ⟨(hall p hp).mpr hlooked, hp⟩

theorem clear_nil : clear h [] = h := by
  refine List.ext_getElem? fun r => ?_
  rw [clear_get]
  cases h[r]? with
  | none => rfl
  | some cell =>
      have hnone : isCleared h [] r = fun _ => false := by
        funext key
        rw [isCleared, List.contains_nil, Bool.and_false]
      rw [hnone, Option.map_some]
      cases cell with
      | arr items => rfl
      | obj proto fields =>
          rw [clearCell]
          congr 2
          exact (List.map_congr_left fun e _ => by rw [if_neg Bool.false_ne_true]; rfl).trans
            (List.map_id fields)

theorem depthAll_map_le (items : List Populate) :
    Populate.depthAll (items.map Populate.nestedOfObject) ≤ Populate.depthAll items := by
  induction items with
  | nil => exact Nat.le_refl _
  | cons po rest ih =>
      have hle : po.nestedOfObject.depth ≤ po.depth := by
        cases po with
        | option key populate => exact Nat.le_succ _
        | list items          => exact Nat.zero_le _
        | name key            => exact Nat.le_refl _
        | undefined           => exact Nat.le_refl _
      rw [List.map_cons, Populate.depthAll, Populate.depthAll]
      omega

theorem applied_depth_le (result : GVal) (items : List Populate) :
    Populate.depthAll (applied h result items) ≤ Populate.depthAll items := by
  cases result with
  | prim p  => exact Nat.le_refl _
  | oid hex => exact Nat.le_refl _
  | ref r =>
      rw [applied]
      cases h[r]? with
      | none => exact Nat.le_refl _
      | some cell =>
          cases cell with
          | arr _   => exact Nat.le_refl _
          | obj _ _ => exact depthAll_map_le items

/-- `ignoreFirst` puts the nested options in the place of an object's. -/
theorem removeUnresolvedReferences_ignoreFirst (n : Nat) (result : GVal) (items : List Populate)
    (visited : List Nat) :
    removeUnresolvedReferences n result (.list items) true ⟨h, visited⟩
      = removeUnresolvedReferences n result (.list (applied h result items)) false ⟨h,
        visited⟩ := by
  cases n with
  | zero => rfl
  | succ n =>
      cases result with
      | prim p  => rfl
      | oid hex => rfl
      | ref r =>
          rw [applied, removeUnresolvedReferences, removeUnresolvedReferences]
          dsimp only
          cases h[r]? with
          | none => rfl
          | some cell =>
              cases cell with
              | arr _   => rfl
              | obj _ _ =>
                  rw [removeInObject, removeInObject, List.foldlM_map]
                  rfl

end

/-- The depth of the calls that is enough. -/
def callDepth (h : Heap κ) (items : List Populate) : Nat := Populate.depthAll items + h.length + 2

/-- **`removeUnresolvedReferences`,** as `popAndMap` calls it.  It ends, and sets to null
    exactly the unresolved references that the options name, if and only if the options
    that are applied name each of them in a part that is not cut off, and name no other
    in such a part. -/
theorem removeUnresolvedReferences_iff (h : Heap κ) (result : GVal) (items : List Populate)
    (extra : Nat) :
    ∃ w s, walk h (callDepth h items + extra) result (.list (applied h result items)) ⟨[], [], []⟩
        = some w
      ∧ removeUnresolvedReferences (callDepth h items + extra) result (.list items) true ⟨h, []⟩
        = some s
      ∧ (RemovedAt h (Named h result (.list items)) s.heap
        ↔ (∀ p, Unresolved h p → Named h result (.list items) p →
            Named h result (.list (applied h result items)) p ∧ ¬ Lost h w p)
          ∧ ∀ p, Unresolved h p → Named h result (.list (applied h result items)) p →
            Named h result (.list items) p ∨ Lost h w p) := by
  have hdepth : (Populate.list (applied h result items)).depth + unmarked h ⟨[], [], []⟩
      < callDepth h items + extra := by
    have hdepth := applied_depth_le (h := h) result items
    have hunmarked : unmarked h ⟨[], [], []⟩ ≤ h.length := by
      refine Nat.le_trans (List.length_filter_le _ _) ?_
      exact Nat.le_of_eq List.length_range
    rw [Populate.depth, callDepth]
    omega
  obtain ⟨w, hwalk, -⟩ := walk_total hdepth
  have hstart : stateOf h ⟨[], [], []⟩ = ⟨h, []⟩ := by
    rw [stateOf, clear_nil]
  have hcode := removeUnresolvedReferences_eq_walk (h := h) (callDepth h items + extra) result
    (.list (applied h result items)) ⟨[], [], []⟩
  rw [hwalk, hstart, ← removeUnresolvedReferences_ignoreFirst, Option.map_some] at hcode
  refine ⟨w, stateOf h w, hwalk, hcode, ?_⟩
  have hcovers := walk_covers hwalk
  have hlooked : ∀ p, p ∈ w.looked
      ↔ Named h result (.list (applied h result items)) p ∧ ¬ Lost h w p := by
    intro p
    constructor
    · intro hp
      refine ⟨?_, fun hlost => hlost.1 hp⟩
      rcases hcovers.sound p hp with hnone | ⟨c, hc, hnamed⟩
      · exact absurd hnone List.not_mem_nil
      · rwa [List.mem_singleton.mp hc] at hnamed
    · rintro ⟨hnamed, hkept⟩
      by_contra hnot
      rcases hcovers.complete _ List.mem_cons_self p hnamed with hp | hcut
      · exact hnot hp
      · exact hkept ⟨hnot, hcut⟩
  have hremoved : RemovedAt h (Named h result (.list items)) (stateOf h w).heap
      ↔ ∀ p, Unresolved h p → (Named h result (.list items) p ↔ p ∈ w.looked) :=
    removedAt_clear_iff
  rw [hremoved]
  constructor
  · intro hall
    refine ⟨fun p hp hnamed => (hlooked p).mp ((hall p hp).mp hnamed), fun p hp hnamed => ?_⟩
    by_cases hlost : Lost h w p
    · exact Or.inr hlost
    · exact Or.inl ((hall p hp).mpr ((hlooked p).mpr ⟨hnamed, hlost⟩))
  · rintro ⟨hnamed, hothers⟩ p hp
    constructor
    · exact fun hplace => (hlooked p).mpr (hnamed p hp hplace)
    · intro hmem
      obtain ⟨happlied, hkept⟩ := (hlooked p).mp hmem
      exact (hothers p hp happlied).resolve_right hkept

/-- A user whose company has not been resolved. -/
def userOfCompany : Heap Unit := [.obj [] [("company", .oid "507f1f77bcf86cd799439011")]]

/-- A single document keeps its reference. -/
theorem removeUnresolvedReferences_keeps_reference :
    ¬ ∀ (h : Heap Unit) (result : GVal) (items : List Populate),
      ∃ n s, removeUnresolvedReferences n result (.list items) true ⟨h, []⟩ = some s
        ∧ RemovedAt h (Named h result (.list items)) s.heap := by
  intro hclaim
  obtain ⟨n, s, hrun, hremoved⟩ := hclaim userOfCompany (.ref 0) [.option "company" .undefined]
  have hs : s = ⟨userOfCompany, []⟩ := by
    match n, hrun with
    | 1, hrun     => cases hrun
    | n + 2, hrun => exact (Option.some.inj hrun).symm
  subst hs
  have hnamed : Named userOfCompany (.ref 0) (.list [.option "company" .undefined]) (0,
      "company") :=
    .each rfl List.mem_cons_self (.path rfl (by decide))
  have hnull := hremoved.removed (0, "company") hnamed ⟨by decide, rfl⟩
  cases hnull

end UnresolvedReferences
