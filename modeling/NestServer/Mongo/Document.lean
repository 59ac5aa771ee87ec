import NestServer.OrderedMap

/-! # Documents and filters

    A document store's values, documents and query filters, as far as a filter
    can be told apart by the fields it constrains: an equality, a membership, or
    some other test.  A filter is a map from keys to conditions, all of which
    must hold. -/

namespace Mongo

/-- A stored value. -/
inductive Value where
  | null
  | bool (b : Bool)
  | num (n : Int)
  | str (s : String)
  | list (vs : List Value)
  | doc (fields : List (String × Value))

namespace Value

/- Equality is decided along the structure; the two list functions are the
   nested halves of the recursion. -/
mutual

def beq : Value → Value → Bool
  | .null,   .null   => true
  | .bool a, .bool b => a == b
  | .num a,  .num b  => a == b
  | .str a,  .str b  => a == b
  | .list a, .list b => beqList a b
  | .doc a,  .doc b  => beqFields a b
  | _,       _       => false

def beqList : List Value → List Value → Bool
  | [],      []      => true
  | x :: xs, y :: ys => beq x y && beqList xs ys
  | _,       _       => false

def beqFields : List (String × Value) → List (String × Value) → Bool
  | [],             []             => true
  | (k, x) :: xs, (l, y) :: ys => k == l && (beq x y && beqFields xs ys)
  | _,              _              => false

end

mutual

theorem beq_iff : ∀ a b : Value, beq a b = true ↔ a = b
  | .null,   b => by cases b <;> simp [beq]
  | .bool _, b => by cases b <;> simp [beq]
  | .num _,  b => by cases b <;> simp [beq]
  | .str _,  b => by cases b <;> simp [beq]
  | .list x, b => by
      cases b with
      | list y => simpa [beq] using beqList_iff x y
      | _ => simp [beq]
  | .doc x,  b => by
      cases b with
      | doc y => simpa [beq] using beqFields_iff x y
      | _ => simp [beq]

theorem beqList_iff : ∀ xs ys : List Value, beqList xs ys = true ↔ xs = ys
  | [],      ys => by cases ys <;> simp [beqList]
  | x :: xs, ys => by
      cases ys with
      | nil => simp [beqList]
      | cons y ys => simp [beqList, beq_iff x y, beqList_iff xs ys]

theorem beqFields_iff : ∀ xs ys : List (String × Value), beqFields xs ys = true ↔ xs = ys
  | [],           ys => by cases ys <;> simp [beqFields]
  | (k, x) :: xs, ys => by
      cases ys with
      | nil => simp [beqFields]
      | cons e ys =>
          obtain ⟨l, y⟩ := e
          simp [beqFields, beq_iff x y, beqFields_iff xs ys, and_assoc]

end

instance : DecidableEq Value := fun a b => decidable_of_iff _ (beq_iff a b)

/-- A value in a condition: everything but `null`, `false`, `0` and `""`. -/
def truthy : Value → Bool
  | null   => false
  | bool b => b
  | num n  => n ≠ 0
  | str s  => s ≠ ""
  | list _ => true
  | doc _  => true

/-- `{ field: v }` finds a field equal to `v` or an array that contains it; a
    missing field counts as `null`. -/
def matchedBy (v : Value) : Option Value → Bool
  | none           => v = null
  | some (list ws) => list ws = v || ws.contains v
  | some w         => w = v

end Value

/-- The fields of a stored row other than its key. -/
abbrev Document := OrderedMap String Value

/-- What a filter asks under one key. -/
inductive Condition where
  /-- `{ field: v }` -/
  | eq (v : Value)
  /-- `{ field: { $in: vs } }` -/
  | within (vs : List Value)
  /-- Any other operator, or a logical operator over further conditions; with
      the equalities it implies, which an upsert writes. -/
  | test (holds : String → Document → Bool) (equalities : List (String × Value))

abbrev FilterQuery := OrderedMap String Condition

/-- The value of a field; the row's key is its `_id`. -/
def fieldOf (id : String) (d : Document) (field : String) : Option Value :=
  if field = "_id" then some (.str id) else d.get? field

namespace Condition

def holds (id : String) (d : Document) (field : String) : Condition → Bool
  | eq v      => v.matchedBy (fieldOf id d field)
  | within vs => vs.any fun v => v.matchedBy (fieldOf id d field)
  | test p _  => p id d

/-- The equalities an upsert copies into the row it makes. -/
def equalities (field : String) : Condition → List (String × Value)
  | eq v      => [(field, v)]
  | within _  => []
  | test _ es => es

end Condition

namespace FilterQuery

/-- Does a row satisfy every condition? -/
def accepts (f : FilterQuery) (id : String) (d : Document) : Bool :=
  f.entries.all fun e => e.2.holds id d e.1

/-- Every entry of a filter constrains what it accepts. -/
theorem holds_of_accepts {f : FilterQuery} {id : String} {d : Document} {field : String}
    {c : Condition} (hc : f.get? field = some c) (h : f.accepts id d = true) :
    c.holds id d field = true :=
  List.all_eq_true.mp h (field, c) (OrderedMap.get?_eq_some_iff.mp hc)

theorem accepts_iff {f : FilterQuery} {id : String} {d : Document} :
    f.accepts id d = true ↔ ∀ field c, f.get? field = some c → c.holds id d field = true := by
  constructor
  · intro h field c hc
    exact holds_of_accepts hc h
  · intro h
    refine List.all_eq_true.mpr ?_
    intro e he
    exact h e.1 e.2 (OrderedMap.get?_eq_some_iff.mpr he)

/-- A spread asks what the second filter asks, and what the first asks under
    other keys. -/
theorem accepts_spread_iff {f g : FilterQuery} {id : String} {d : Document} :
    FilterQuery.accepts (f.spread g) id d = true ↔ g.accepts id d = true
      ∧ ∀ field c, f.get? field = some c → g.get? field = none → c.holds id d field = true := by
  rw [accepts_iff, accepts_iff]
  constructor
  · intro h
    refine ⟨?_, ?_⟩
    · intro field c hc
      refine h field c ?_
      rw [OrderedMap.get?_spread, hc, Option.some_or]
    · intro field c hc hnone
      refine h field c ?_
      rw [OrderedMap.get?_spread, hnone, Option.none_or, hc]
  · rintro ⟨hg, hf⟩ field c hc
    rw [OrderedMap.get?_spread] at hc
    cases hget : g.get? field with
    | some c' =>
        rw [hget, Option.some_or] at hc
        exact hg field c (hget.trans hc)
    | none =>
        rw [hget, Option.none_or] at hc
        exact hf field c hc hget

/-- A spread keeps every condition of its second filter. -/
theorem accepts_of_spread {f g : FilterQuery} {id : String} {d : Document}
    (h : FilterQuery.accepts (f.spread g) id d = true) : g.accepts id d = true :=
  (accepts_spread_iff.mp h).1

end FilterQuery

end Mongo
