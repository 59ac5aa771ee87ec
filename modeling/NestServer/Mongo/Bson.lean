import Mathlib.Data.List.Basic

/-! # BSON values

    The values of documents and of query objects, with a decidable equality and
    the order by which a store compares them: first by type, then by content. -/

namespace Mongo

inductive Bson where
  | null
  | num (q : Rat)
  | str (s : String)
  | doc (fields : List (String × Bson))
  | list (vs : List Bson)
  | objectId (hex : String)
  | bool (b : Bool)
  | date (ms : Int)
  | regex (source flags : String)

namespace Bson

/- Equality is decided along the structure, in its two nested lists as well. -/
mutual

def beq : Bson → Bson → Bool
  | .null,       .null       => true
  | .num a,      .num b      => a == b
  | .str a,      .str b      => a == b
  | .doc a,      .doc b      => beqFields a b
  | .list a,     .list b     => beqList a b
  | .objectId a, .objectId b => a == b
  | .bool a,     .bool b     => a == b
  | .date a,     .date b     => a == b
  | .regex a f,  .regex b g  => a == b && f == g
  | _,           _           => false

def beqList : List Bson → List Bson → Bool
  | [],      []      => true
  | x :: xs, y :: ys => beq x y && beqList xs ys
  | _,       _       => false

def beqFields : List (String × Bson) → List (String × Bson) → Bool
  | [],           []           => true
  | (k, x) :: xs, (l, y) :: ys => k == l && (beq x y && beqFields xs ys)
  | _,            _            => false

end

mutual

theorem beq_iff : ∀ a b : Bson, beq a b = true ↔ a = b
  | .null,       b => by cases b <;> simp [beq]
  | .num _,      b => by cases b <;> simp [beq]
  | .str _,      b => by cases b <;> simp [beq]
  | .objectId _, b => by cases b <;> simp [beq]
  | .bool _,     b => by cases b <;> simp [beq]
  | .date _,     b => by cases b <;> simp [beq]
  | .regex _ _,  b => by cases b <;> simp [beq]
  | .list x, b => by
      cases b with
      | list y => simpa [beq] using beqList_iff x y
      | _ => simp [beq]
  | .doc x, b => by
      cases b with
      | doc y => simpa [beq] using beqFields_iff x y
      | _ => simp [beq]

theorem beqList_iff : ∀ xs ys : List Bson, beqList xs ys = true ↔ xs = ys
  | [],      ys => by cases ys <;> simp [beqList]
  | x :: xs, ys => by
      cases ys with
      | nil => simp [beqList]
      | cons y ys => simp [beqList, beq_iff x y, beqList_iff xs ys]

theorem beqFields_iff : ∀ xs ys : List (String × Bson), beqFields xs ys = true ↔ xs = ys
  | [],           ys => by cases ys <;> simp [beqFields]
  | (k, x) :: xs, ys => by
      cases ys with
      | nil => simp [beqFields]
      | cons e ys =>
          obtain ⟨l, y⟩ := e
          simp [beqFields, beq_iff x y, beqFields_iff xs ys, and_assoc]

end

instance : DecidableEq Bson := fun a b => decidable_of_iff _ (beq_iff a b)

/-- The place of a type in the order of types. -/
def rank : Bson → Nat
  | null       => 0
  | num _      => 1
  | str _      => 2
  | doc _      => 3
  | list _     => 4
  | objectId _ => 5
  | bool _     => 6
  | date _     => 7
  | regex _ _  => 8

/-- Strings are compared by their characters. -/
def compareText (a b : String) : Ordering := if a < b then .lt else if a = b then .eq else .gt

mutual

def compare : Bson → Bson → Ordering
  | .num a,      .num b      => if a < b then .lt else if a = b then .eq else .gt
  | .str a,      .str b      => compareText a b
  | .doc a,      .doc b      => compareFields a b
  | .list a,     .list b     => compareList a b
  | .objectId a, .objectId b => compareText a b
  | .bool a,     .bool b     => Ord.compare a b
  | .date a,     .date b     => Ord.compare a b
  | .regex a f,  .regex b g  => (compareText a b).then (compareText f g)
  | a,           b           => Ord.compare a.rank b.rank

def compareList : List Bson → List Bson → Ordering
  | [],      []      => .eq
  | [],      _ :: _  => .lt
  | _ :: _,  []      => .gt
  | x :: xs, y :: ys => (compare x y).then (compareList xs ys)

def compareFields : List (String × Bson) → List (String × Bson) → Ordering
  | [],           []           => .eq
  | [],           _ :: _       => .lt
  | _ :: _,       []           => .gt
  | (k, x) :: xs, (l, y) :: ys =>
      ((Ord.compare x.rank y.rank).then (compareText k l)).then
        ((compare x y).then (compareFields xs ys))

end

/-- Neither an object nor an array. -/
def IsPrimitive : Bson → Prop
  | null   => True
  | num _  => True
  | str _  => True
  | bool _ => True
  | _      => False

/- The keys at any depth, with their values. -/
mutual

def entries : Bson → List (String × Bson)
  | .doc fields => fieldEntries fields
  | .list vs    => listEntries vs
  | _           => []

def fieldEntries : List (String × Bson) → List (String × Bson)
  | []             => []
  | (k, v) :: rest => (k, v) :: (entries v ++ fieldEntries rest)

def listEntries : List Bson → List (String × Bson)
  | []        => []
  | v :: rest => entries v ++ listEntries rest

end

@[simp] theorem entries_doc (fields : List (String × Bson)) :
    (doc fields).entries = fields.flatMap fun e => e :: e.2.entries := by
  rw [entries]
  induction fields with
  | nil => rfl
  | cons e rest ih =>
      rw [fieldEntries, ih]
      rfl

@[simp] theorem entries_list (vs : List Bson) : (list vs).entries = vs.flatMap entries := by
  rw [entries]
  induction vs with
  | nil => rfl
  | cons v rest ih =>
      rw [listEntries, ih]
      rfl

theorem entries_of_primitive {v : Bson} (h : v.IsPrimitive) : v.entries = [] := by
  cases v <;> first | rfl | exact h.elim

end Bson

end Mongo
