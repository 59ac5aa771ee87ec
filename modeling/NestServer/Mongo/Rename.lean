import NestServer.Mongo.Sort

/-! # Renamed paths

    A query can be asked under other paths, of documents that have their values under
    these.  The tests of a path are left as they are. -/

namespace Mongo

/-! ## Queries -/

mutual

def Query.rename (f : String → String) : Query → Query
  | .every qs      => .every (Query.renameAll f qs)
  | .some qs       => .some (Query.renameAll f qs)
  | .none qs       => .none (Query.renameAll f qs)
  | .field path ts => .field (f path) ts

def Query.renameAll (f : String → String) : List Query → List Query
  | []      => []
  | q :: qs => q.rename f :: Query.renameAll f qs

end

/-- What a document has under the one path, the other one has under the other. -/
def SameUnder (f : String → String) (d d' : Bson) : Prop :=
  ∀ path, d.valuesAt (splitPath (f path)) = d'.valuesAt (splitPath path)

section Rename

variable (e : RegexEngine) {f : String → String} {d d' : Bson}

mutual

theorem holds_rename (h : SameUnder f d d') : ∀ q : Query, (q.rename f).holds e d = q.holds e d'
  | .every qs      => holdsAll_rename h qs
  | .some qs       => holdsAny_rename h qs
  | .none qs       => congrArg (!·) (holdsAny_rename h qs)
  | .field path ts => by rw [Query.rename, Query.holds, Query.holds, h path]

theorem holdsAll_rename (h : SameUnder f d d') :
    ∀ qs : List Query, Query.holdsAll e d (Query.renameAll f qs) = Query.holdsAll e d' qs
  | []      => rfl
  | q :: qs => by
      rw [Query.renameAll, Query.holdsAll, Query.holdsAll, holds_rename h q, holdsAll_rename h qs]

theorem holdsAny_rename (h : SameUnder f d d') :
    ∀ qs : List Query, Query.holdsAny e d (Query.renameAll f qs) = Query.holdsAny e d' qs
  | []      => rfl
  | q :: qs => by
      rw [Query.renameAll, Query.holdsAny, Query.holdsAny, holds_rename h q, holdsAny_rename h qs]

end

/-! ## Sorts -/

theorem sortKey_rename (h : SameUnder f d d') (path : String) (direction : Direction) :
    sortKey (f path) direction d = sortKey path direction d' := by
  rw [sortKey, sortKey, h path]

theorem compareBy_rename {a a' b b' : Bson} (ha : SameUnder f a a') (hb : SameUnder f b b')
    (spec : SortSpec) :
    compareBy (spec.map fun key => (f key.1, key.2)) a b = compareBy spec a' b' := by
  induction spec with
  | nil => rfl
  | cons key spec ih =>
      obtain ⟨path, direction⟩ := key
      rw [List.map_cons, compareBy, compareBy, ih, sortKey_rename ha, sortKey_rename hb]

theorem compareBy_append (spec rest : SortSpec) (a b : Bson) :
    compareBy (spec ++ rest) a b = (compareBy spec a b).then (compareBy rest a b) := by
  induction spec with
  | nil => rfl
  | cons key spec ih =>
      obtain ⟨path, direction⟩ := key
      rw [List.cons_append, compareBy, compareBy, ih, Ordering.then_assoc]

theorem compareBy_single_of_mem {spec : SortSpec} {key : String × Direction} (h : key ∈ spec)
    {a b : Bson}
    (heq : compareBy spec a b = .eq) : compareBy [key] a b = .eq := by
  induction spec with
  | nil => cases h
  | cons first spec ih =>
      obtain ⟨hfirst, hrest⟩ := Ordering.then_eq_eq.mp heq
      rcases List.mem_cons.mp h with rfl | hmem
      · exact Ordering.then_eq_eq.mpr ⟨hfirst, rfl⟩
      · exact ih hmem hrest

/-- A key that is there already decides nothing. -/
theorem compareBy_append_of_mem {spec : SortSpec} {key : String × Direction} (h : key ∈ spec)
    (a b : Bson) :
    compareBy (spec ++ [key]) a b = compareBy spec a b := by
  rw [compareBy_append]
  cases hspec : compareBy spec a b with
  | lt => rfl
  | gt => rfl
  | eq => exact compareBy_single_of_mem h hspec

/-! ## Pages -/

theorem map_limited (g : Bson → Bson) (limit : Option Int) (rows : List Bson) :
    (limited limit rows).map g = limited limit (rows.map g) := by
  cases limit with
  | none => rfl
  | some limit =>
      show (if limit = 0 then rows else rows.take limit.natAbs).map g =
        if limit = 0 then rows.map g else (rows.map g).take limit.natAbs
      split
      · rfl
      · exact List.map_take

/-- **A find under other paths.** -/
theorem find_rename {g : Bson → Bson} {rows : List Bson} {query query' : Bson}
    {options : FindOptions}
    {spec : SortSpec} (hquery : parseQuery query' = (parseQuery query).map (Query.rename f))
    (hsame : ∀ row ∈ rows, SameUnder f row (g row))
    (hspec : ∀ a ∈ rows, ∀ b ∈ rows, compareBy spec a b = compareBy options.sort (g a) (g b)) :
    (find e query' { options with sort := spec } rows).map (List.map g) =
      find e query options (rows.map g) := by
  rw [find, find, hquery]
  cases hq : parseQuery query with
  | none => rfl
  | some q =>
      rw [Option.map_some, Option.bind_some, Option.bind_some]
      by_cases hskip : options.skip.getD 0 < 0
      · rw [if_pos hskip, if_pos hskip]
        rfl
      · have hfilter : (rows.filter ((q.rename f).holds e)).map g =
            (rows.map g).filter (q.holds e) := by
          rw [List.filter_map]
          refine congrArg (List.map g) (List.filter_congr ?_)
          intro row hrow
          exact holds_rename e (hsame row hrow) q
        have hsort : ((rows.filter ((q.rename f).holds e)).insertionSort (SortsBefore spec)).map g =
            ((rows.map g).filter (q.holds e)).insertionSort (SortsBefore options.sort) := by
          rw [← hfilter]
          refine List.map_insertionSort _ _ _ _ ?_
          intro a ha b hb
          rw [SortsBefore, SortsBefore,
            hspec a (List.mem_filter.mp ha).1 b (List.mem_filter.mp hb).1]
        rw [if_neg hskip, if_neg hskip, Option.map_some, map_limited, List.map_drop, hsort]

end Rename

end Mongo
