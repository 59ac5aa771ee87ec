import Mathlib.Data.List.Sort
import NestServer.Mongo.QueryLanguage

/-! # Sorting documents

    Values are ordered by `compare`, a total order.  A sort has keys, each a path and a
    direction: an array counts as the least of its elements or the greatest, a field that
    is missing as `null`, and an empty array as less than that. -/

namespace Mongo

namespace Bson

/-! ## Texts and numbers -/

theorem compareText_eq_iff {a b : String} : compareText a b = .eq ↔ a = b := by
  rw [compareText]
  split
  · rename_i hlt
    refine iff_of_false (by decide) ?_
    rintro rfl
    exact String.lt_irrefl _ hlt
  · split
    · rename_i heq
      exact iff_of_true rfl heq
    · rename_i hne
      exact iff_of_false (by decide) hne

theorem compareText_lt_iff {a b : String} : compareText a b = .lt ↔ a < b := by
  rw [compareText]
  split
  · rename_i hlt
    exact iff_of_true rfl hlt
  · rename_i hnot
    split
    · exact iff_of_false (by decide) hnot
    · exact iff_of_false (by decide) hnot

theorem compareText_swap (a b : String) : compareText b a = (compareText a b).swap := by
  by_cases hlt : a < b
  · have hnot : ¬ b < a := String.lt_asymm hlt
    have hne : b ≠ a := by
      rintro rfl
      exact hnot hlt
    rw [compareText, if_neg hnot, if_neg hne, compareText_lt_iff.mpr hlt]
    rfl
  · by_cases heq : a = b
    · subst heq
      rw [compareText_eq_iff.mpr rfl]
      rfl
    · have hgt : b < a := by
        rcases String.le_total a b with hle | hle
        · by_contra hnot
          exact heq (String.le_antisymm hle hlt)
        · by_contra hnot
          exact heq (String.le_antisymm hnot hle)
      rw [compareText_lt_iff.mpr hgt, compareText, if_neg hlt, if_neg heq]
      rfl

/-- Numbers, compared as `compare` does. -/
def compareNum (a b : Rat) : Ordering := if a < b then .lt else if a = b then .eq else .gt

theorem compareNum_eq_iff {a b : Rat} : compareNum a b = .eq ↔ a = b := by grind [compareNum]

theorem compareNum_lt_iff {a b : Rat} : compareNum a b = .lt ↔ a < b := by grind [compareNum]

theorem compareNum_swap (a b : Rat) : compareNum b a = (compareNum a b).swap := by
  grind [compareNum, Ordering.swap]

/-! ## Values -/

mutual

theorem compare_eq_iff : ∀ a b : Bson, compare a b = .eq ↔ a = b
  | .null,       b => by cases b <;> simp [compare, rank]
  | .num x,      b => by
      cases b with
      | num y => exact compareNum_eq_iff.trans (by simp)
      | _ => simp [compare, rank]
  | .str x,      b => by
      cases b with
      | str y => exact compareText_eq_iff.trans (by simp)
      | _ => simp [compare, rank]
  | .objectId x, b => by
      cases b with
      | objectId y => exact compareText_eq_iff.trans (by simp)
      | _ => simp [compare, rank]
  | .bool x,     b => by
      cases b with
      | bool y => cases x <;> cases y <;> decide
      | _ => simp [compare, rank]
  | .date x,     b => by
      cases b with
      | date y => simp [compare]
      | _ => simp [compare, rank]
  | .regex x f,  b => by
      cases b with
      | regex y g => simp [compare, Ordering.then_eq_eq, compareText_eq_iff]
      | _ => simp [compare, rank]
  | .list x,     b => by
      cases b with
      | list y => simpa [compare] using compareList_eq_iff x y
      | _ => simp [compare, rank]
  | .doc x,      b => by
      cases b with
      | doc y => simpa [compare] using compareFields_eq_iff x y
      | _ => simp [compare, rank]

theorem compareList_eq_iff : ∀ xs ys : List Bson, compareList xs ys = .eq ↔ xs = ys
  | [],      ys => by cases ys <;> simp [compareList]
  | x :: xs, ys => by
      cases ys with
      | nil => simp [compareList]
      | cons y ys =>
          simp [compareList, Ordering.then_eq_eq, compare_eq_iff x y, compareList_eq_iff xs ys]

theorem compareFields_eq_iff : ∀ xs ys : List (String × Bson), compareFields xs ys = .eq ↔ xs = ys
  | [],           ys => by cases ys <;> simp [compareFields]
  | (k, x) :: xs, ys => by
      cases ys with
      | nil => simp [compareFields]
      | cons e ys =>
          obtain ⟨l, y⟩ := e
          simp only [compareFields, Ordering.then_eq_eq, compare_eq_iff x y,
            compareFields_eq_iff xs ys, compareText_eq_iff, List.cons.injEq, Prod.mk.injEq]
          constructor
          · rintro ⟨⟨_, rfl⟩, rfl, rfl⟩
            exact ⟨⟨rfl, rfl⟩, rfl⟩
          · rintro ⟨⟨rfl, rfl⟩, rfl⟩
            exact ⟨⟨by simp, rfl⟩, rfl, rfl⟩

end

mutual

theorem compare_swap : ∀ a b : Bson, compare b a = (compare a b).swap
  | .null,       b => by cases b <;> simp [compare, rank, Nat.compare_swap]
  | .num x,      b => by
      cases b with
      | num y => exact compareNum_swap x y
      | _ => simp [compare, rank, Nat.compare_swap]
  | .str x,      b => by
      cases b with
      | str y => exact compareText_swap x y
      | _ => simp [compare, rank, Nat.compare_swap]
  | .objectId x, b => by
      cases b with
      | objectId y => exact compareText_swap x y
      | _ => simp [compare, rank, Nat.compare_swap]
  | .bool x,     b => by
      cases b with
      | bool y => cases x <;> cases y <;> decide
      | _ => simp [compare, rank, Nat.compare_swap]
  | .date x,     b => by
      cases b with
      | date y => simp [compare, Int.compare_swap]
      | _ => simp [compare, rank, Nat.compare_swap]
  | .regex x f,  b => by
      cases b with
      | regex y g => simp [compare, Ordering.swap_then, compareText_swap x y, compareText_swap f g]
      | _ => simp [compare, rank, Nat.compare_swap]
  | .list x,     b => by
      cases b with
      | list y => simpa [compare] using compareList_swap x y
      | _ => simp [compare, rank, Nat.compare_swap]
  | .doc x,      b => by
      cases b with
      | doc y => simpa [compare] using compareFields_swap x y
      | _ => simp [compare, rank, Nat.compare_swap]

theorem compareList_swap : ∀ xs ys : List Bson, compareList ys xs = (compareList xs ys).swap
  | [],      ys => by cases ys <;> simp [compareList]
  | x :: xs, ys => by
      cases ys with
      | nil => simp [compareList]
      | cons y ys =>
          simp [compareList, Ordering.swap_then, compare_swap x y, compareList_swap xs ys]

theorem compareFields_swap : ∀ xs ys : List (String × Bson),
    compareFields ys xs = (compareFields xs ys).swap
  | [],           ys => by cases ys <;> simp [compareFields]
  | (k, x) :: xs, ys => by
      cases ys with
      | nil => simp [compareFields]
      | cons e ys =>
          obtain ⟨l, y⟩ := e
          simp [compareFields, Ordering.swap_then, compare_swap x y, compareFields_swap xs ys,
            compareText_swap k l, Nat.compare_swap]

end

theorem compare_of_rank_lt {a b : Bson} (h : a.rank < b.rank) : compare a b = .lt := by
  cases a <;> cases b <;> simp_all [rank, compare, Nat.compare_eq_lt]

theorem rank_le_of_lt {a b : Bson} (h : compare a b = .lt) : a.rank ≤ b.rank := by
  by_contra hnot
  have hswap := compare_swap b a
  rw [compare_of_rank_lt (Nat.lt_of_not_le hnot), h] at hswap
  cases hswap

/-- Transitivity in parts: the first parts decide, or they are equal. -/
theorem then_lt_trans {ab bc ac xy yz xz : Ordering} (htrans : ab = .lt → bc = .lt → ac = .lt)
    (hleft : ab = .eq → ac = bc) (hright : bc = .eq → ac = ab) (htrans' : xy = .lt → yz = .lt →
      xz = .lt)
    (h : ab.then xy = .lt) (h' : bc.then yz = .lt) : ac.then xz = .lt := by
  rw [Ordering.then_eq_lt] at h h' ⊢
  rcases h with hab | ⟨hab, hxy⟩
  · rcases h' with hbc | ⟨hbc, _⟩
    · exact Or.inl (htrans hab hbc)
    · exact Or.inl ((hright hbc).trans hab)
  · rcases h' with hbc | ⟨hbc, hyz⟩
    · exact Or.inl ((hleft hab).trans hbc)
    · exact Or.inr ⟨(hleft hab).trans hbc, htrans' hxy hyz⟩

theorem compareText_lt_trans {a b c : String} (h : compareText a b = .lt)
    (h' : compareText b c = .lt) :
    compareText a c = .lt :=
  compareText_lt_iff.mpr (String.lt_trans (compareText_lt_iff.mp h) (compareText_lt_iff.mp h'))

theorem compareNum_lt_trans {a b c : Rat} (h : compareNum a b = .lt) (h' : compareNum b c = .lt) :
    compareNum a c = .lt := by grind [compareNum_lt_iff]

mutual

theorem compare_lt_trans : ∀ a b c : Bson, compare a b = .lt → compare b c = .lt → compare a c = .lt
  | a, b, c, h, h' => by
      by_cases hac : a.rank < c.rank
      · exact compare_of_rank_lt hac
      · have hab := rank_le_of_lt h
        have hbc := rank_le_of_lt h'
        have hb : b.rank = a.rank := by omega
        have hc : c.rank = a.rank := by omega
        -- all three are of one type
        cases a with
        | null =>
            cases b with
            | null => cases h
            | _ => cases hb
        | num x =>
            cases b with
            | num y =>
                cases c with
                | num z => exact compareNum_lt_trans h h'
                | _ => cases hc
            | _ => cases hb
        | str x =>
            cases b with
            | str y =>
                cases c with
                | str z => exact compareText_lt_trans h h'
                | _ => cases hc
            | _ => cases hb
        | objectId x =>
            cases b with
            | objectId y =>
                cases c with
                | objectId z => exact compareText_lt_trans h h'
                | _ => cases hc
            | _ => cases hb
        | bool x =>
            cases b with
            | bool y =>
                cases c with
                | bool z =>
                    revert h h'
                    cases x <;> cases y <;> cases z <;> decide
                | _ => cases hc
            | _ => cases hb
        | date x =>
            cases b with
            | date y =>
                cases c with
                | date z =>
                    rw [compare, Int.compare_eq_lt] at h h' ⊢
                    omega
                | _ => cases hc
            | _ => cases hb
        | regex x f =>
            cases b with
            | regex y g =>
                cases c with
                | regex z k =>
                    exact then_lt_trans compareText_lt_trans
                      (fun heq => by rw [compareText_eq_iff.mp heq])
                      (fun heq => by rw [compareText_eq_iff.mp heq]) compareText_lt_trans h h'
                | _ => cases hc
            | _ => cases hb
        | list x =>
            cases b with
            | list y =>
                cases c with
                | list z => exact compareList_lt_trans x y z h h'
                | _ => cases hc
            | _ => cases hb
        | doc x =>
            cases b with
            | doc y =>
                cases c with
                | doc z => exact compareFields_lt_trans x y z h h'
                | _ => cases hc
            | _ => cases hb

theorem compareList_lt_trans : ∀ xs ys zs : List Bson,
    compareList xs ys = .lt → compareList ys zs = .lt → compareList xs zs = .lt
  | _,       [],      [],      _, h' => by cases h'
  | [],      _ :: _,  [],      _, h' => by cases h'
  | [],      _,       _ :: _,  _, _  => rfl
  | _ :: _,  [],      _ :: _,  h, _  => by cases h
  | _ :: _,  _ :: _,  [],      _, h' => by cases h'
  | x :: xs, y :: ys, z :: zs, h, h' =>
      then_lt_trans (compare_lt_trans x y z) (fun heq => by rw [(compare_eq_iff x y).mp heq])
        (fun heq => by rw [(compare_eq_iff y z).mp heq]) (compareList_lt_trans xs ys zs) h h'

theorem compareFields_lt_trans : ∀ xs ys zs : List (String × Bson),
    compareFields xs ys = .lt → compareFields ys zs = .lt → compareFields xs zs = .lt
  | _,            [],           [],           _, h' => by cases h'
  | [],           _ :: _,       [],           _, h' => by cases h'
  | [],           _,            _ :: _,       _, _  => rfl
  | _ :: _,       [],           _ :: _,       h, _  => by cases h
  | _ :: _,       _ :: _,       [],           _, h' => by cases h'
  | (k, x) :: xs, (l, y) :: ys, (m, z) :: zs, h, h' => by
      rw [compareFields, Ordering.then_assoc] at h h' ⊢
      refine then_lt_trans ?_ (fun heq => by rw [Nat.compare_eq_eq.mp heq])
        (fun heq => by rw [Nat.compare_eq_eq.mp heq])
        (then_lt_trans compareText_lt_trans (fun heq => by rw [compareText_eq_iff.mp heq])
          (fun heq => by rw [compareText_eq_iff.mp heq]) (then_lt_trans (compare_lt_trans x y z)
            (fun heq => by rw [(compare_eq_iff x y).mp heq])
              (fun heq => by rw [(compare_eq_iff y z).mp heq])
            (compareFields_lt_trans xs ys zs))) h h'
      simp only [Nat.compare_eq_lt]
      exact Nat.lt_trans

end

end Bson

/-! ## Keys -/

inductive Direction where
  | asc
  | desc
deriving DecidableEq

def Direction.orient : Direction → Ordering → Ordering
  | .asc,  o => o
  | .desc, o => o.swap

abbrev SortSpec := List (String × Direction)

/-- The values that a document is sorted by; `none` is an array without elements. -/
def sortCandidates : List (Option Bson) → List (Option Bson)
  | []    => [some .null]
  | found => found.flatMap fun v =>
      match v with
      | none            => [some .null]
      | some (.list []) => [none]
      | some (.list vs) => vs.map some
      | some v          => [some v]

def compareKey : Option Bson → Option Bson → Ordering
  | none,   none   => .eq
  | none,   some _ => .lt
  | some _, none   => .gt
  | some a, some b => a.compare b

/-- The first one in this direction. -/
def first (direction : Direction) : List (Option Bson) → Option Bson
  | []      => none
  | k :: ks => ks.foldl (fun best k => if direction.orient (compareKey k best) = .lt then k
      else best) k

def sortKey (path : String) (direction : Direction) (d : Bson) : Option Bson :=
  first direction (sortCandidates (d.valuesAt (splitPath path)))

def compareBy : SortSpec → Bson → Bson → Ordering
  | [],                        _, _ => .eq
  | (path, direction) :: spec, a, b =>
      (direction.orient (compareKey (sortKey path direction a) (sortKey path direction b))).then
        (compareBy spec a b)

/-- One document may go before another. -/
def SortsBefore (spec : SortSpec) (a b : Bson) : Prop := compareBy spec a b ≠ .gt

instance (spec : SortSpec) : DecidableRel (SortsBefore spec) := fun a b =>
  inferInstanceAs (Decidable (compareBy spec a b ≠ .gt))

theorem compareKey_eq_iff {a b : Option Bson} : compareKey a b = .eq ↔ a = b := by
  cases a with
  | none => cases b <;> simp [compareKey]
  | some a =>
      cases b with
      | none => simp [compareKey]
      | some b => simp [compareKey, Bson.compare_eq_iff]

theorem compareKey_swap (a b : Option Bson) : compareKey b a = (compareKey a b).swap := by
  cases a with
  | none => cases b <;> rfl
  | some a =>
      cases b with
      | none => rfl
      | some b => exact Bson.compare_swap a b

theorem compareKey_lt_trans {a b c : Option Bson} (h : compareKey a b = .lt)
    (h' : compareKey b c = .lt) :
    compareKey a c = .lt := by
  cases b with
  | none => cases a <;> cases h
  | some b =>
      cases c with
      | none => cases h'
      | some c =>
          cases a with
          | none => rfl
          | some a => exact Bson.compare_lt_trans a b c h h'

theorem orient_lt_trans (direction : Direction) {a b c : Option Bson}
    (h : direction.orient (compareKey a b) = .lt) (h' : direction.orient (compareKey b c) = .lt) :
    direction.orient (compareKey a c) = .lt := by
  cases direction with
  | asc => exact compareKey_lt_trans h h'
  | desc =>
      show (compareKey a c).swap = .lt
      rw [← compareKey_swap]
      refine compareKey_lt_trans ?_ ((compareKey_swap a b).trans h)
      exact (compareKey_swap b c).trans h'

theorem orient_eq_iff {direction : Direction} {o : Ordering} : direction.orient o = .eq ↔
    o = .eq := by
  cases direction <;> cases o <;> decide

theorem orient_swap (direction : Direction) (o : Ordering) :
    direction.orient o.swap = (direction.orient o).swap := by
  cases direction <;> rfl

theorem compareBy_swap (spec : SortSpec) (a b : Bson) :
    compareBy spec b a = (compareBy spec a b).swap := by
  induction spec with
  | nil => rfl
  | cons key spec ih =>
      obtain ⟨path, direction⟩ := key
      rw [compareBy, compareBy, Ordering.swap_then, ih, compareKey_swap, orient_swap]

theorem compareBy_congr {spec : SortSpec} {a b : Bson} (h : compareBy spec a b = .eq) (c : Bson) :
    compareBy spec a c = compareBy spec b c := by
  induction spec with
  | nil => rfl
  | cons key spec ih =>
      obtain ⟨path, direction⟩ := key
      obtain ⟨hkey, hrest⟩ := Ordering.then_eq_eq.mp h
      rw [compareBy, compareBy, ih hrest, compareKey_eq_iff.mp (orient_eq_iff.mp hkey)]

theorem compareBy_congr_right {spec : SortSpec} {b c : Bson} (h : compareBy spec b c = .eq)
    (a : Bson) :
    compareBy spec a c = compareBy spec a b := by
  rw [compareBy_swap spec c a, compareBy_swap spec b a, compareBy_congr h]

theorem compareBy_lt_trans {spec : SortSpec} {a b c : Bson} (h : compareBy spec a b = .lt)
    (h' : compareBy spec b c = .lt) : compareBy spec a c = .lt := by
  induction spec with
  | nil => cases h
  | cons key spec ih =>
      obtain ⟨path, direction⟩ := key
      refine Bson.then_lt_trans (orient_lt_trans direction) ?_ ?_ ih h h'
      · intro heq
        rw [compareKey_eq_iff.mp (orient_eq_iff.mp heq)]
      · intro heq
        rw [compareKey_eq_iff.mp (orient_eq_iff.mp heq)]

instance (spec : SortSpec) : Std.Total (SortsBefore spec) where
  total a b := by
    rw [SortsBefore, SortsBefore, compareBy_swap spec a b]
    cases compareBy spec a b <;> decide

instance (spec : SortSpec) : IsTrans Bson (SortsBefore spec) where
  trans a b c hab hbc := by
    show compareBy spec a c ≠ .gt
    cases hfirst : compareBy spec a b with
    | gt => exact absurd hfirst hab
    | eq =>
        rw [compareBy_congr hfirst c]
        exact hbc
    | lt =>
        cases hsecond : compareBy spec b c with
        | gt => exact absurd hsecond hbc
        | eq =>
            rw [compareBy_congr_right hsecond a, hfirst]
            decide
        | lt =>
            rw [compareBy_lt_trans hfirst hsecond]
            decide

/-! ## Pages -/

structure FindOptions where
  sort  : SortSpec := []
  skip  : Option Int := none
  limit : Option Int := none

/-- `0` is no limit, and a sign is not looked at. -/
def limited (limit : Option Int) (rows : List Bson) : List Bson :=
  match limit with
  | none       => rows
  | some limit => if limit = 0 then rows else rows.take limit.natAbs

/-- `find` on a collection in its natural order; what is refused has no answer. -/
def find (e : RegexEngine) (query : Bson) (options : FindOptions) (rows : List Bson) :
    Option (List Bson) :=
  (parseQuery query).bind fun q =>
    if options.skip.getD 0 < 0 then none
    else some (limited options.limit
      (((rows.filter (q.holds e)).insertionSort (SortsBefore options.sort)).drop
      (options.skip.getD 0).toNat))

end Mongo
