import Mathlib.Data.List.Nodup

/-! # Values and ids

    The JavaScript values that field-level access control walks through, as
    trees: an object keeps its prototype chain and its own keys in order.

    `id.helper.ts` compares ids by their text: `getStringId` follows `id`, then
    `_id`, and falls back to `toString()`.  Its result is `none` where the source
    answers a falsy value, which is never equal to an id. -/

/-- A primitive value; a number by its text. -/
inductive Prim where
  | undefined
  | null
  | bool (b : Bool)
  | num (text : String)
  | str (s : String)
deriving DecidableEq, Repr

namespace Prim

def truthy : Prim → Bool
  | undefined | null => false
  | bool b           => b
  | num text         => text ≠ "0" && text ≠ "NaN"
  | str s            => s ≠ ""

/-- `String(p)` -/
def text : Prim → String
  | undefined => "undefined"
  | null      => "null"
  | bool b    => if b then "true" else "false"
  | num text  => text
  | str s     => s

end Prim

/-- A value: `proto` is the prototype chain of an object, from its class to the
    base class, and empty for a plain object. -/
inductive JsTree (κ : Type) where
  | prim (p : Prim)
  | oid (hex : String)
  | obj (proto : List κ) (fields : List (String × JsTree κ))
  | arr (items : List (JsTree κ))

namespace JsTree

variable {κ : Type}

/-- The own keys of an object, with their values. -/
abbrev Fields (κ : Type) := List (String × JsTree κ)

/-- `Object.keys(o)` -/
def keys (fields : Fields κ) : List String := fields.map Prod.fst

/-- `undefined` and `null` -/
def isNullish : JsTree κ → Bool
  | prim .undefined | prim .null => true
  | _ => false

def isUndefined : JsTree κ → Bool
  | prim .undefined => true
  | _ => false

def truthy : JsTree κ → Bool
  | prim p => p.truthy
  | _      => true

mutual

/-- The text of an array element in `join`. -/
def elementText : JsTree κ → String
  | prim p => if p = .undefined ∨ p = .null then "" else p.text
  | oid hex => hex
  | obj _ _ => "[object Object]"
  | arr items => joinText items

/-- `items.join()` -/
def joinText : List (JsTree κ) → String
  | []      => ""
  | [t]     => elementText t
  | t :: ts => elementText t ++ "," ++ joinText ts

end

mutual

/-- `getStringId(element)` -/
def getStringId : JsTree κ → Option String
  | prim p => if p.truthy then some p.text else none
  | oid hex => some hex
  | obj _ fields => match idAt "id" fields with
      | some id => id
      | none => match idAt "_id" fields with
          | some id => id
          | none => if (keys fields).contains "toString" then none else some "[object Object]"
  | arr items => if joinText items = "" then none else some (joinText items)

/-- The id of `element[key]`, where that is truthy. -/
def idAt (key : String) : Fields κ → Option (Option String)
  | [] => none
  | (k, v) :: rest =>
      if k = key then (if v.truthy then some (getStringId v) else none) else idAt key rest

end

/-- `equalIds(value, user)` for a user whose id has the given text.  Two arrays of
    ids are different objects, so an array equals nothing. -/
def equalIds (value : JsTree κ) (userId : Option String) : Bool :=
  match value with
  | arr _ => false
  | v => (getStringId v).any fun id => some id = userId

theorem equalIds_obj (proto : List κ) (fields : Fields κ) (userId : Option String) :
    equalIds (obj proto fields) userId
      = (getStringId (obj proto fields)).any fun id => some id = userId := rfl

theorem joinText_cons_cons (t u : JsTree κ) (ts : List (JsTree κ)) :
    joinText (t :: u :: ts) = elementText t ++ "," ++ joinText (u :: ts) := rfl

/-- `getIncludedIds(members, user)`, as a truth value: members that are arrays
    are passed over. -/
def includesId (members : List (JsTree κ)) (userId : Option String) : Bool :=
  members.any fun m => equalIds m userId

/-! ## Own keys -/

/-- A key that is not there is not found. -/
theorem lookup_eq_none {fields : Fields κ} {key : String} (h : key ∉ keys fields) :
    fields.lookup key = none := by
  rw [List.lookup_eq_none_iff]
  intro p hp
  exact bne_iff_ne.mpr fun heq => h (List.mem_map.mpr ⟨p, hp, heq.symm⟩)

theorem mem_of_lookup {fields : Fields κ} {key : String} {v : JsTree κ}
    (h : fields.lookup key = some v) : (key, v) ∈ fields := by
  obtain ⟨_, _, rfl, -⟩ := List.lookup_eq_some_iff.mp h
  exact List.mem_append_right _ List.mem_cons_self

/-- A key that is there once is found. -/
theorem lookup_of_mem {fields : Fields κ} {key : String} {v : JsTree κ}
    (hnodup : (keys fields).Nodup) (h : (key, v) ∈ fields) : fields.lookup key = some v := by
  obtain ⟨before, after, rfl⟩ := List.append_of_mem h
  refine List.lookup_eq_some_iff.mpr ⟨before, after, rfl, fun p hp => bne_iff_ne.mpr ?_⟩
  rintro rfl
  rw [keys, List.map_append, List.map_cons] at hnodup
  exact (List.nodup_cons.mp (List.nodup_middle.mp hnodup)).1
    (List.mem_append_left _ (List.mem_map.mpr ⟨p, hp, rfl⟩))

/-! ## All objects of a value -/

/-- The induction over a value: an object by the values of its keys, an array by
    its items. -/
theorem induction {motive : JsTree κ → Prop} (prim : ∀ p, motive (prim p))
    (oid : ∀ hex, motive (oid hex))
    (obj : ∀ proto fields, (∀ e ∈ fields, motive e.2) → motive (obj proto fields))
    (arr : ∀ items, (∀ t ∈ items, motive t) → motive (arr items)) (t : JsTree κ) : motive t := by
  refine @JsTree.rec κ motive (fun fields => ∀ e ∈ fields, motive e.2)
    (fun items => ∀ t ∈ items, motive t) (fun e => motive e.2)
    prim oid obj arr ?_ ?_ ?_ ?_ ?_ t
  · exact fun e he => by cases he
  · exact fun head tail hhead htail => List.forall_mem_cons.mpr ⟨hhead, htail⟩
  · exact fun e he => by cases he
  · exact fun head tail hhead htail => List.forall_mem_cons.mpr ⟨hhead, htail⟩
  · exact fun key t ht => ht

/-- Every object in the value, at any depth, satisfies `P`. -/
inductive ForObjects (P : Fields κ → Prop) : JsTree κ → Prop
  | prim (p : Prim) : ForObjects P (prim p)
  | oid (hex : String) : ForObjects P (oid hex)
  | obj {proto : List κ} {fields : Fields κ} : P fields →
      (∀ e ∈ fields, ForObjects P e.2) → ForObjects P (obj proto fields)
  | arr {items : List (JsTree κ)} : (∀ t ∈ items, ForObjects P t) → ForObjects P (arr items)

theorem ForObjects.mono {P Q : Fields κ → Prop} (hPQ : ∀ fields, P fields → Q fields)
    {t : JsTree κ} (h : ForObjects P t) : ForObjects Q t := by
  induction t using JsTree.induction with
  | prim p  => exact .prim p
  | oid hex => exact .oid hex
  | obj proto fields ih =>
      cases h with
      | obj hP hfields => exact .obj (hPQ fields hP) fun e he => ih e he (hfields e he)
  | arr items ih =>
      cases h with
      | arr hitems => exact .arr fun t ht => ih t ht (hitems t ht)

/-- What `JSON.parse` returns: plain objects with every key once, and no
    `undefined`. -/
inductive IsJson : JsTree κ → Prop
  | prim {p : Prim} : p ≠ .undefined → IsJson (prim p)
  | obj {fields : Fields κ} : (keys fields).Nodup →
      (∀ e ∈ fields, IsJson e.2) → IsJson (obj [] fields)
  | arr {items : List (JsTree κ)} : (∀ t ∈ items, IsJson t) → IsJson (arr items)

theorem IsJson.not_undefined {t : JsTree κ} (h : IsJson t) : t.isUndefined = false := by
  cases h with
  | obj _ _ => rfl
  | arr _   => rfl
  | @prim p hp =>
      cases p with
      | undefined => exact absurd rfl hp
      | _         => rfl

end JsTree
