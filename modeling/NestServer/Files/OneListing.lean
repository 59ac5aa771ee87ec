import Mathlib.Data.List.Perm.Subperm
import NestServer.Files.ContentTypeKey

/-! # One listing

    A page of the merged stores is the page of one collection if the comparator of the
    merge and the order of the database say the same of the rows, and if what a store
    leaves out is not wanted.  Without a sort that is not so: a store answers in its natural
    order, and what comes of it is sorted with the newest first. -/

namespace Files.Listing

open FilterHelper Mongo

/-! ## The stores as one collection -/

/-- The documents as they are shown, store by store. -/
def Collections.stores (collections : Collections) : List (List Bson) :=
  [collections.s3.map FileDocument.row, collections.filesystem.map FileDocument.row,
    collections.gridfs.map FileDocument.shown]

def Collections.rows (collections : Collections) : List Bson := collections.stores.flatten

def FileDocument.id (document : FileDocument) : Option Bson := document.fields.lookup "_id"

def Collections.ids (collections : Collections) : List (Option Bson) :=
  (collections.s3 ++ collections.filesystem ++ collections.gridfs).map FileDocument.id

/-- The page of one collection. -/
def listing (setting : Setting) (rows : List Bson) (args : Option FilterArgs) :
    Except FilterError (Option (List Bson)) :=
  withArgs setting args fun query options => find setting.regex query options rows

def newestFirst : SortSpec := [("uploadDate", .desc)]

/-- Ties are ordered by the store, and without a sort all is ordered by the upload. -/
def naturalOrder (setting : Setting) (collections : Collections) (spec : SortSpec) : List Bson :=
  if setting.driver ≠ .gridfs ∧
    spec = [] then collections.rows.insertionSort (SortsBefore newestFirst)
  else collections.rows

theorem perm_naturalOrder (setting : Setting) (collections : Collections) (spec : SortSpec) :
    (naturalOrder setting collections spec).Perm collections.rows := by
  rw [naturalOrder]
  split
  · exact List.perm_insertionSort _ _
  · exact List.Perm.refl _

/-- The rows that match, as a store has them. -/
def matching (e : RegexEngine) (query : Bson) (rows : List Bson) : List Bson :=
  (find e query {} rows).getD []

/-! ## Comparators -/

/-- What a comparator answers for an order. -/
def Agrees (answer : Int) : Ordering → Prop
  | .lt => answer < 0
  | .eq => answer = 0
  | .gt => 0 < answer

instance (answer : Int) (o : Ordering) : Decidable (Agrees answer o) := by
  cases o with
  | lt => exact inferInstanceAs (Decidable (answer < 0))
  | eq => exact inferInstanceAs (Decidable (answer = 0))
  | gt => exact inferInstanceAs (Decidable (0 < answer))

theorem Agrees.sorts {answer : Int} {spec : SortSpec} {a b : Bson}
    (h : Agrees answer (compareBy spec a b)) :
    (0 < answer ↔ ¬ SortsBefore spec a b) ∧ (answer < 0 ↔ ¬ SortsBefore spec b a) := by
  rw [SortsBefore, SortsBefore, compareBy_swap spec a b]
  cases hab : compareBy spec a b with
  | lt =>
      rw [hab] at h
      have hneg : answer < 0 := h
      exact ⟨iff_of_false (by omega) (by decide), iff_of_true hneg (by decide)⟩
  | eq =>
      rw [hab] at h
      have hzero : answer = 0 := h
      exact ⟨iff_of_false (by omega) (by decide), iff_of_false (by omega) (by decide)⟩
  | gt =>
      rw [hab] at h
      have hpos : 0 < answer := h
      exact ⟨iff_of_true hpos (by decide), iff_of_false (by omega) (by decide)⟩

/-! ## When a listing is one -/

/-- What is asked of the rows that match, store by store. -/
structure Merges (setting : Setting) (options : FindOptions) (stores : List (List Bson)) :
    Prop where
  limit  : ∀ limit, options.limit = some limit → 0 < limit
  skip   : 0 ≤ options.skip.getD 0
  order  : ∀ a ∈ stores.flatten, ∀ b ∈ stores.flatten, a ≠ b →
    Agrees (setting.engine.compareRows (effective options.sort) a b)
      (compareBy (effective options.sort) a b)
  /-- without a sort, nothing is left out that is newer -/
  newest : options.sort = [] → ∀ n, upperBound options = some n → ∀ rows ∈ stores,
    rows.length ≤ n ∨ rows.Pairwise (SortsBefore newestFirst)

structure Mergeable (setting : Setting) (collections : Collections) (query : Bson)
    (options : FindOptions) :
    Prop where
  apart     : keysApart query = true
  sortApart : SortApart options.sort
  /-- the other stores are not asked -/
  own       : setting.driver = .gridfs →
    matching setting.regex query ((collections.s3 ++ collections.filesystem).map FileDocument.row) =
      []
  merges    : setting.driver ≠ .gridfs →
    Merges setting options (collections.stores.map (matching setting.regex query))

/-! ## Finds -/

section Find

variable {e : RegexEngine} {query : Bson} {q : Query} {options : FindOptions}

theorem sort_natural (rows : List Bson) : rows.insertionSort (SortsBefore []) = rows := by
  induction rows with
  | nil => rfl
  | cons row rows ih =>
      rw [List.insertionSort_cons, ih]
      cases rows with
      | nil => rfl
      | cons row' rows => exact List.orderedInsert_cons_of_le _ rows (show Ordering.eq ≠ Ordering.gt by decide)

theorem find_of_refused (h : parseQuery query = none) (rows : List Bson) :
    find e query options rows = none := by
  rw [find, h]
  rfl

theorem find_of_parse (h : parseQuery query = some q) (hskip : 0 ≤ options.skip.getD 0)
    (rows : List Bson) :
    find e query options rows = some (limited options.limit
      (((rows.filter (q.holds e)).insertionSort (SortsBefore options.sort)).drop
        (options.skip.getD 0).toNat)) := by
  rw [find, h, Option.bind_some, if_neg (by omega)]

theorem matching_of_parse (h : parseQuery query = some q) (rows : List Bson) :
    matching e query rows = rows.filter (q.holds e) := by
  rw [matching, find_of_parse h (show 0 ≤ ({} : FindOptions).skip.getD 0 from Int.le_refl 0)]
  exact sort_natural _

end Find

/-! ## Pages -/

/-- What a store answers for a page that is merged. -/
def storePage (spec : SortSpec) (upper : Option Int) (rows : List Bson) : List Bson :=
  limited upper (rows.insertionSort (SortsBefore spec))

theorem subperm_storePage (spec : SortSpec) (upper : Option Int) (rows : List Bson) :
    (storePage spec upper rows).Subperm rows := by
  have hsort := (List.perm_insertionSort (SortsBefore spec) rows).subperm
  rw [storePage]
  cases upper with
  | none => exact hsort
  | some limit =>
      show (if limit = 0 then _ else _ : List Bson).Subperm rows
      split
      · exact hsort
      · exact (List.take_sublist _ _).subperm.trans hsort

theorem subperm_flatMap {page : List Bson → List Bson} (h : ∀ rows, (page rows).Subperm rows)
    (stores : List (List Bson)) : (stores.flatMap page).Subperm stores.flatten := by
  induction stores with
  | nil => exact List.Subperm.refl _
  | cons rows stores ih =>
      rw [List.flatMap_cons, List.flatten_cons]
      exact List.Subperm.append (h rows) ih

theorem nodup_of_subperm {xs ys : List Bson} (h : xs.Subperm ys) (hys : ys.Nodup) : xs.Nodup := by
  obtain ⟨zs, hperm, hsub⟩ := h
  exact hperm.nodup_iff.mp (hsub.nodup hys)

theorem slice_eq {start : Int} (hstart : 0 ≤ start) (rows : List Bson) :
    slice rows start none = rows.drop start.toNat := by
  rw [slice, place, if_neg (by omega)]

theorem slice_eq_take {start stop : Int} (hstart : 0 ≤ start) (hstop : start ≤ stop)
    (rows : List Bson) :
    slice rows start (some stop) = (rows.take stop.toNat).drop start.toNat := by
  rw [slice, place, if_neg (by omega), place, if_neg (by omega)]

section Merge

variable {setting : Setting} {options : FindOptions} {stores : List (List Bson)}

/-- The merge is a stable sort by the order of the database. -/
theorem Merges.sort_eq (h : Merges setting options stores) (hnodup : stores.flatten.Nodup)
    {rows : List Bson}
    (hrows : rows.Subperm stores.flatten) :
    setting.engine.sortMergedFileInfo rows options.sort =
      rows.insertionSort (SortsBefore (effective options.sort)) := by
  refine setting.engine.sort_eq _ _ _ (nodup_of_subperm hrows hnodup) ?_
  intro a ha b hb hne
  exact (h.order a (hrows.subset ha) b (hrows.subset hb) hne).sorts

theorem effective_of_ne_nil {spec : SortSpec} (h : spec ≠ []) : effective spec = spec := if_neg h

/-- A page that is enough: what comes first in the store is on it. -/
theorem Merges.enough (h : Merges setting options stores) {limit : Int}
    (hlimit : options.limit = some limit)
    {rows : List Bson} (hrows : rows ∈ stores) :
    ((storePage options.sort (upperBound options) rows).insertionSort
        (SortsBefore (effective options.sort))).take (options.skip.getD 0 + limit).toNat =
      (rows.insertionSort (SortsBefore (effective options.sort))).take
        (options.skip.getD 0 + limit).toNat := by
  have hpos := h.limit limit hlimit
  have hskip := h.skip
  have hupper : upperBound options = some (options.skip.getD 0 + limit) := by
    rw [upperBound, hlimit, Option.map_some]
  have hpage : storePage options.sort (upperBound options) rows =
      (rows.insertionSort (SortsBefore options.sort)).take (options.skip.getD 0 + limit).toNat := by
    have habs : (options.skip.getD 0 + limit).natAbs = (options.skip.getD 0 + limit).toNat := by
      omega
    rw [hupper, storePage, ← habs]
    exact if_neg (by omega)
  by_cases hsort : options.sort = []
  · -- a store in its natural order
    have hnatural : effective options.sort = newestFirst := if_pos hsort
    rw [hpage, hnatural, hsort, sort_natural]
    rcases h.newest hsort _ hupper rows hrows with hshort | hnewest
    · have hall : rows.take (options.skip.getD 0 + limit).toNat = rows :=
        List.take_of_length_le (by omega)
      rw [hall]
    · have hfirst : (rows.take (options.skip.getD 0 + limit).toNat).Pairwise
          (SortsBefore newestFirst) :=
        hnewest.sublist (List.take_sublist _ _)
      rw [hfirst.insertionSort_eq, hnewest.insertionSort_eq, List.take_take, Nat.min_self]
  · rw [hpage, effective_of_ne_nil hsort, StableSort.sort_take_sort, List.take_take, Nat.min_self]

theorem sort_storePages (spec : SortSpec) :
    (stores.flatMap (storePage spec none)).insertionSort (SortsBefore (effective spec)) =
      stores.flatten.insertionSort (SortsBefore (effective spec)) := by
  by_cases hspec : spec = []
  · subst hspec
    have hpage : storePage [] none = id := funext fun rows => sort_natural rows
    rw [hpage, List.flatMap_id]
  · rw [effective_of_ne_nil hspec]
    exact StableSort.sort_flatMap _ stores

/-- **The page of the merge is the page of the sorted rows.** -/
theorem Merges.page_eq (h : Merges setting options stores) (hnodup : stores.flatten.Nodup) :
    slice (setting.engine.sortMergedFileInfo
      (stores.flatMap (storePage options.sort (upperBound options))) options.sort)
        (options.skip.getD 0) (upperBound options) =
      limited options.limit
        ((stores.flatten.insertionSort (SortsBefore (effective options.sort))).drop
          (options.skip.getD 0).toNat) := by
  rw [h.sort_eq hnodup (subperm_flatMap (subperm_storePage _ _) stores)]
  cases hlimit : options.limit with
  | none =>
      have hupper : upperBound options = none := by rw [upperBound, hlimit, Option.map_none]
      rw [hupper, sort_storePages, slice_eq h.skip]
      rfl
  | some limit =>
      have hpos := h.limit limit hlimit
      have hskip := h.skip
      have hupper : upperBound options = some (options.skip.getD 0 + limit) := by
        rw [upperBound, hlimit, Option.map_some]
      have hlast : (options.skip.getD 0).toNat + limit.natAbs =
          (options.skip.getD 0 + limit).toNat := by omega
      have hlimited : ∀ rows, limited (some limit) rows = rows.take limit.natAbs := fun rows =>
          if_neg (by omega)
      rw [hlimited, List.take_drop, hlast, ← StableSort.take_sort_flatMap _ _ fun rows hrows =>
        h.enough hlimit hrows, hupper, slice_eq_take hskip (by omega)]

end Merge

/-! ## The listing -/

section Listing

variable {setting : Setting} {collections : Collections} {query : Bson} {options : FindOptions}

theorem id_of_shown (document : FileDocument) :
    (assign "contentType" (contentTypeOf document.fields) document.fields).lookup "_id" =
      document.id := by
  rw [lookup_assign, if_neg (by decide)]
  rfl

/-- The id of a row. -/
def rowId : Bson → Option Bson
  | .doc fields => fields.lookup "_id"
  | _           => none

/-- Rows are told apart by their ids. -/
theorem nodup_rows (h : collections.ids.Nodup) : collections.rows.Nodup := by
  refine List.Nodup.of_map rowId ?_
  have hrow : rowId ∘ FileDocument.row = FileDocument.id := rfl
  have hshown : rowId ∘ FileDocument.shown = FileDocument.id := funext id_of_shown
  have hids : collections.rows.map rowId = collections.ids := by
    simp only [Collections.rows, Collections.stores, Collections.ids, List.flatten_cons,
      List.flatten_nil, List.map_append, List.map_map, hrow, hshown, List.append_nil,
      List.append_assoc]
  rw [hids]
  exact h

theorem filter_rows (q : Query) (e : RegexEngine) :
    collections.rows.filter (q.holds e) =
      (collections.stores.map fun rows => rows.filter (q.holds e)).flatten := by
  rw [Collections.rows, List.filter_flatten]

/-- What is found for a page that is merged. -/
theorem findRows_of_parse (hdriver : setting.driver ≠ .gridfs)
    (hmergeable : Mergeable setting collections query options)
    {q : Query} (hq : parseQuery query = some q) :
    findRows setting collections query options =
      some (slice (setting.engine.sortMergedFileInfo
        ((collections.stores.map fun rows => rows.filter (q.holds setting.regex)).flatMap
          (storePage options.sort (upperBound options))) options.sort) (options.skip.getD 0)
            (upperBound options)) := by
  have hskip : 0 ≤ ({ sort := options.sort, limit := upperBound options } : FindOptions).skip.getD
      0 := Int.le_refl 0
  have hfind : ∀ rows, find setting.regex query { sort := options.sort, limit := upperBound options } rows =
      some (storePage options.sort (upperBound options) (rows.filter (q.holds setting.regex))) :=
    fun rows => find_of_parse hq hskip rows
  have hsort : SortApart ({ sort := options.sort, limit := upperBound options } : FindOptions).sort :=
    hmergeable.sortApart
  have hgridfs : findGridFSFiles setting.regex query { sort := options.sort, limit := upperBound options }
      collections.gridfs = find setting.regex query { sort := options.sort, limit := upperBound options }
        (collections.gridfs.map FileDocument.shown) :=
    findGridFSFiles_eq setting.regex hmergeable.apart hsort _
  rw [findRows, if_neg hdriver]
  simp only [hgridfs, findFiles, hfind, Option.bind_eq_bind, Option.bind_some]
  simp [Collections.stores]

theorem findRows_of_refused (hmergeable : Mergeable setting collections query options)
    (hq : parseQuery query = none) : findRows setting collections query options = none := by
  rw [findRows]
  split
  · rw [findGridFSFiles_eq setting.regex hmergeable.apart hmergeable.sortApart, find_of_refused hq]
  · have hs3 : ∀ options, findFiles setting.regex query options collections.s3 = none :=
      fun options => find_of_refused hq _
    simp only [hs3, Option.bind_eq_bind, Option.bind_none]

/-- Without a sort, the natural order is what the rows are sorted by. -/
theorem sorted_naturalOrder (hdriver : setting.driver ≠ .gridfs) (p : Bson → Bool) :
    ((naturalOrder setting collections options.sort).filter p).insertionSort
      (SortsBefore options.sort) =
      (collections.rows.filter p).insertionSort (SortsBefore (effective options.sort)) := by
  by_cases hsort : options.sort = []
  · have hnatural : effective options.sort = newestFirst := if_pos hsort
    rw [naturalOrder, if_pos ⟨hdriver, hsort⟩, StableSort.filter_sort, hnatural, hsort,
      sort_natural]
  · rw [naturalOrder, if_neg fun h => hsort h.2, effective_of_ne_nil hsort]

theorem findRows_merged (hids : collections.ids.Nodup) (hdriver : setting.driver ≠ .gridfs)
    (hmergeable : Mergeable setting collections query options) :
    findRows setting collections query options =
      find setting.regex query options (naturalOrder setting collections options.sort) := by
  cases hq : parseQuery query with
  | none => rw [findRows_of_refused hmergeable hq, find_of_refused hq]
  | some q =>
      have hmerges := hmergeable.merges hdriver
      have hstores : collections.stores.map (matching setting.regex query) =
          collections.stores.map fun rows => rows.filter (q.holds setting.regex) :=
        List.map_congr_left fun rows _ => matching_of_parse hq rows
      rw [hstores] at hmerges
      have hnodup : (collections.stores.map fun rows =>
          rows.filter (q.holds setting.regex)).flatten.Nodup := by
        rw [← filter_rows]
        exact (nodup_rows hids).filter _
      rw [findRows_of_parse hdriver hmergeable hq, hmerges.page_eq hnodup,
        find_of_parse hq hmerges.skip, sorted_naturalOrder hdriver, filter_rows]

/-- With the other stores out of it, GridFS is the collection. -/
theorem findRows_gridfs (hdriver : setting.driver = .gridfs)
    (hmergeable : Mergeable setting collections query options) :
    findRows setting collections query options =
      find setting.regex query options (naturalOrder setting collections options.sort) := by
  have hnatural : naturalOrder setting collections options.sort =
      (collections.s3 ++ collections.filesystem).map FileDocument.row ++
        collections.gridfs.map FileDocument.shown := by
    rw [naturalOrder, if_neg fun h => h.1 hdriver]
    simp [Collections.rows, Collections.stores]
  rw [findRows, if_pos hdriver,
    findGridFSFiles_eq setting.regex hmergeable.apart hmergeable.sortApart, hnatural]
  cases hq : parseQuery query with
  | none => rw [find_of_refused hq, find_of_refused hq]
  | some q =>
      have hown := hmergeable.own hdriver
      rw [matching_of_parse hq] at hown
      rw [find, find, hq, Option.bind_some, Option.bind_some, List.filter_append, hown,
        List.nil_append]

theorem findRows_eq (hids : collections.ids.Nodup)
    (hmergeable : Mergeable setting collections query options) :
    findRows setting collections query options =
      find setting.regex query options (naturalOrder setting collections options.sort) := by
  by_cases hdriver : setting.driver = .gridfs
  · exact findRows_gridfs hdriver hmergeable
  · exact findRows_merged hids hdriver hmergeable

end Listing

/-- `Array.sort` as an insertion sort. -/
def insertionEngine : Engine where
  mixedLess _ _ := false
  sort compare rows := rows.insertionSort fun a b => compare a b ≤ 0
  sort_eq compare rows r _ _ _ hnodup h := by
    refine StableSort.sort_congr _ (hnodup.imp_of_mem ?_)
    intro a b ha hb hne
    rw [← not_lt, (h a ha b hb hne).1, not_not]

def onFilesystem : Setting where
  runtime := { automaticObjectIdFiltering := false, regExp := fun _ => none, generatedId := "" }
  regex   := { search := fun _ _ _ => false, fold := id }
  engine  := insertionEngine
  driver  := .filesystem

/-- A file of a day. -/
def uploadedAt (id : String) (day : Int) : FileDocument where
  fields      := [("_id", .objectId id), ("uploadDate", .date day)]
  metadata    := by simp [List.lookup_cons]
  contentType := by simp [List.lookup_cons]

/-- Two files, the older one first. -/
def inTurn : Collections := { filesystem := [uploadedAt "a" 1, uploadedAt "b" 2] }

def pageOf (skip limit : Int) : Option FilterArgs := some { skip := some skip, limit := some limit }

/-- There is one order of the documents that all pages of a filter and a sort are taken from. -/
def ListsAsOne (setting : Setting) (collections : Collections) (filter : Option FilterInput)
    (sort : Option (List (String × Direction))) : Prop :=
  ∃ order : List Bson, order.Perm collections.rows ∧ ∀ args : FilterArgs, args.filter = filter →
    args.sort = sort →
    findFileInfo setting collections (some args) = listing setting order (some args)

/-- An upload to GridFS, between two to the filesystem. -/
def acrossStores : Collections where
  filesystem := [uploadedAt "a" 3, uploadedAt "b" 1]
  gridfs     := [uploadedAt "c" 2]

def byUpload : Option FilterArgs :=
  some { skip := some 1, limit := some 1, sort := some [("uploadDate", .asc)] }

theorem mergeable_acrossStores (query : Bson)
    (h : filterQuery onFilesystem.runtime (byUpload.bind FilterArgs.filter) = .ok query) :
    Mergeable onFilesystem acrossStores query
      (generateFindOptions onFilesystem.maxLimit byUpload) := by
  cases h
  refine ⟨rfl, by unfold SortApart; decide, fun h => (by cases h), fun _ => ⟨?_, by decide, by decide, fun h => (by cases h)⟩⟩
  rintro limit ⟨⟩
  decide

example : findFileInfo onFilesystem acrossStores byUpload = .ok (some [(uploadedAt "c" 2).row]) :=
  rfl

end Files.Listing
