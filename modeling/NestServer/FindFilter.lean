import NestServer.Fallible
import NestServer.FilterHelper
import NestServer.OrderedMap

/-! # Filters from parts

    `findFilter` of `filter.helper.ts` puts the filter of the caller, ids and
    conditions into one query object, as a conjunction, a disjunction or the
    negation of one.  `findFilter_means_iff` says for which arguments the object
    selects what the parts ask for and the caller's filter stays as it was. -/

namespace FilterHelper

open Mongo

/-! ## Query objects -/

/-- The entries of an object, `undefined` as none. -/
abbrev QueryEntries := OrderedMap String (Option Bson)

/-- What the store is sent: an `undefined` value as `null`. -/
def QueryEntries.fields (p : QueryEntries) : List (String × Bson) :=
  p.entries.map fun e => (e.1, e.2.getD .null)

/-- An object, and beside its other entries the array it has under the operator's key, some of
    whose items may be falsy. -/
structure FilterOptions where
  entries : QueryEntries := OrderedMap.empty
  listed  : Option (List (Option QueryEntries)) := none

def FilterOptions.query (op : LogicalOperatorEnum) (f : FilterOptions) : Bson :=
  .doc (f.entries.fields ++ f.listed.elim [] fun items =>
    [(op.key, .list (items.map fun p => p.elim .null fun p => .doc p.fields))])

/-- The argument of `findFilter`; what is not given as `id` or `ids` is falsy. -/
structure FindFilterOptions where
  conditions    : List (Option QueryEntries) := []
  filterOptions : Option FilterOptions := none
  id            : Bson := .null
  ids           : Bson := .null
  type          : LogicalOperatorEnum := .AND

/-- `{ [key]: value }` -/
def entry (key : String) (value : Bson) : QueryEntries := OrderedMap.empty.set key (some value)

/-! ## `findFilter` -/

/-- Where there is no array, the filter of the caller is the first item of one. -/
def initialItems (filterOptions : Option FilterOptions) : List (Option QueryEntries) :=
  filterOptions.elim [] fun f => f.listed.getD [some f.entries]

/-- The entries beside the array: only a filter that has one goes on as it is. -/
def initialEntries (filterOptions : Option FilterOptions) : QueryEntries :=
  filterOptions.elim OrderedMap.empty fun f =>
    if f.listed.isSome then f.entries else OrderedMap.empty

section Parts

variable (rt : Runtime)

def idItems (id : Bson) : Except FilterError (List (Option QueryEntries)) :=
  if truthy id then (getObjectIds rt id).map fun id => [some (entry "_id" id)] else .ok []

/-- `[config.ids]`, where it is no array -/
def asArray : Bson → Bson
  | .list vs => .list vs
  | v        => .list [v]

def idsItems (ids : Bson) : Except FilterError (List (Option QueryEntries)) :=
  if truthy ids then
    (getObjectIds rt (asArray ids)).map fun ids => [some (entry "_id" (.doc [("$in", ids)]))]
  else .ok []

end Parts

/-- `assignPlain(target, properties)` -/
def assignPlain (target properties : QueryEntries) : QueryEntries :=
  target.spread (properties.filterValues Option.isSome)

/-- The optimizations at the end: no array for less than two items. -/
def collapse (target : QueryEntries) : List QueryEntries → FilterOptions
  | []    => {}
  | [p]   => { entries := assignPlain target p }
  | items => { entries := target, listed := some (items.map some) }

/-- What becomes of the filter of the caller: it is worked on if it has the array already. -/
def FilterOptions.afterwards (f : FilterOptions) (items : List QueryEntries) : FilterOptions :=
  if f.listed.isNone then f
  else if items = [] then { f with listed := some [] }
  else collapse f.entries items

/-- The result, and the filter of the caller afterwards. -/
structure Found where
  filter : FilterOptions
  caller : Option FilterOptions

def findFilter (rt : Runtime) (o : FindFilterOptions) : Except FilterError Found :=
  (idItems rt o.id).bind fun id =>
  (idsItems rt o.ids).bind fun ids =>
  let items := (initialItems o.filterOptions ++ id ++ ids ++ o.conditions).filterMap fun p => p
  .ok { filter := collapse (initialEntries o.filterOptions) items,
        caller := o.filterOptions.map fun f => f.afterwards items }

/-! ## What the parts ask for -/

/-- The filter of the caller: its other entries, and the items of its array. -/
def FilterOptions.parts (f : FilterOptions) : List QueryEntries :=
  f.entries :: (f.listed.getD []).filterMap fun p => p

/-- The filter of the caller, the ids and the truthy conditions. -/
def FindFilterOptions.parts (rt : Runtime) (o : FindFilterOptions) :
    Except FilterError (List QueryEntries) :=
  (idItems rt o.id).bind fun id =>
  (idsItems rt o.ids).bind fun ids =>
  .ok (o.filterOptions.elim [] FilterOptions.parts ++ (id ++ ids ++ o.conditions).filterMap fun p =>
    p)

/-- All, at least one, or none of the parts hold; without parts there is nothing to hold. -/
def LogicalOperatorEnum.combine (op : LogicalOperatorEnum) (parts : List Bool) : Bool :=
  if parts = [] then true
  else match op with
    | .AND => parts.all fun b => b
    | .OR  => parts.any fun b => b
    | .NOR => !parts.any fun b => b

section Meaning

variable (e : RegexEngine)

def QueryEntries.holds (p : QueryEntries) (d : Bson) : Bool :=
  (matchesQuery e (.doc p.fields) d).getD false

/-- The store reads every entry. -/
def QueryEntries.Readable (p : QueryEntries) : Prop :=
  ∀ kv ∈ p.fields, (parseEntry kv.1 kv.2).isSome = true

/-- The entries that have a value. -/
def QueryEntries.defined (p : QueryEntries) : QueryEntries := p.filterValues Option.isSome

/-! ## Reading entry by entry -/

def entryHolds (d : Bson) (kv : String × Bson) : Bool := (parseEntry kv.1 kv.2).any fun q =>
    q.holds e d

variable {e} {d : Bson}

theorem parseEntries_append {fs gs : List (String × Bson)} {qs rs : List Query}
    (hfs : parseEntries fs = some qs) (hgs : parseEntries gs = some rs) :
    parseEntries (fs ++ gs) = some (qs ++ rs) := by
  induction fs generalizing qs with
  | nil =>
      cases hfs
      exact hgs
  | cons f fs ih =>
      rw [parseEntries] at hfs
      obtain ⟨q, hq, hfs⟩ := Option.bind_eq_some_iff.mp hfs
      obtain ⟨qs', hqs', hfs⟩ := Option.bind_eq_some_iff.mp hfs
      cases hfs
      rw [List.cons_append, parseEntries, hq, ih hqs']
      rfl

/-- Readable entries are read as a conjunction. -/
theorem parseEntries_readable {fs : List (String × Bson)}
    (h : ∀ kv ∈ fs, (parseEntry kv.1 kv.2).isSome = true) :
    ∃ qs, parseEntries fs = some qs ∧ ∀ d, Query.holdsAll e d qs = fs.all (entryHolds e d) := by
  induction fs with
  | nil => exact ⟨[], rfl, fun _ => rfl⟩
  | cons kv fs ih =>
      obtain ⟨qs, hqs, hholds⟩ := ih fun kv' hkv => h kv' (List.mem_cons_of_mem _ hkv)
      obtain ⟨q, hq⟩ := Option.isSome_iff_exists.mp (h kv List.mem_cons_self)
      refine ⟨q :: qs, ?_, ?_⟩
      · rw [parseEntries, hq, hqs]
        rfl
      · intro d
        rw [Query.holdsAll, hholds, List.all_cons, entryHolds, hq]
        rfl

namespace QueryEntries

variable {p : QueryEntries}

theorem Readable.parse (h : p.Readable) :
    ∃ qs, parseEntries p.fields = some qs ∧ ∀ d, Query.holdsAll e d qs = p.holds e d := by
  obtain ⟨qs, hqs, -⟩ := parseEntries_readable (e := e) h
  refine ⟨qs, hqs, fun d => ?_⟩
  rw [QueryEntries.holds, matchesQuery, parseQuery, hqs]
  rfl

theorem Readable.matches (h : p.Readable) : matchesQuery e (.doc p.fields) d = some
    (p.holds e d) := by
  obtain ⟨qs, hqs, hholds⟩ := h.parse (e := e)
  rw [matchesQuery, parseQuery, hqs]
  exact congrArg some (hholds d)

theorem Readable.holds_eq (h : p.Readable) : p.holds e d = p.fields.all (entryHolds e d) := by
  obtain ⟨qs, hqs, hholds⟩ := parseEntries_readable (e := e) h
  rw [QueryEntries.holds, matchesQuery, parseQuery, hqs]
  exact hholds d

theorem mem_fields_defined {kv : String × Bson} (h : kv ∈ p.defined.fields) : kv ∈ p.fields := by
  obtain ⟨entry, hentry, rfl⟩ := List.mem_map.mp h
  exact List.mem_map_of_mem (List.mem_of_mem_filter hentry)

theorem Readable.defined (h : p.Readable) : p.defined.Readable :=
  fun kv hkv => h kv (mem_fields_defined hkv)

theorem readable_empty : Readable OrderedMap.empty := by
  intro kv h
  cases h

/-- What holds of all entries holds of those that have a value. -/
theorem holds_defined (h : p.Readable) (hp : p.holds e d = true) : p.defined.holds e d = true := by
  rw [h.holds_eq, List.all_eq_true] at hp
  rw [h.defined.holds_eq, List.all_eq_true]
  exact fun kv hkv => hp kv (mem_fields_defined hkv)

/-- A document without fields has what is asked for as `undefined`. -/
theorem holds_of_defined_empty (h : p.Readable) (hp : p.defined.holds e (.doc []) = true) :
    p.holds e (.doc []) = true := by
  rw [h.defined.holds_eq, List.all_eq_true] at hp
  rw [h.holds_eq, List.all_eq_true]
  intro kv hkv
  obtain ⟨⟨key, value⟩, hentry, rfl⟩ := List.mem_map.mp hkv
  cases value with
  | some v => exact hp _ (List.mem_map.mpr ⟨(key, some v), List.mem_filter.mpr ⟨hentry, rfl⟩, rfl⟩)
  | none =>
      have hread := h _ hkv
      change (parseEntry key .null).isSome = true at hread
      show (parseEntry key .null).any _ = true
      have hnull : parseEntry key .null = if isOperator key then none
          else some (.field key [.eq .null]) := by
        simp [parseEntry]
      rw [hnull] at hread ⊢
      by_cases hkey : isOperator key = true
      · rw [if_pos hkey] at hread
        cases hread
      · rw [if_neg hkey]
        show testsHold e _ _ = true
        cases hpath : splitPath key with
        | nil => exact absurd (List.map_eq_nil_iff.mp hpath) (List.splitOn_ne_nil _ _)
        | cons part parts => rfl

end QueryEntries

/-! ## What the result selects -/

theorem holdsAll_eq_all (d : Bson) (qs : List Query) :
    Query.holdsAll e d qs = (qs.map (Query.holds e d)).all fun b => b := by
  induction qs with
  | nil => rfl
  | cons q qs ih => rw [Query.holdsAll, ih, List.map_cons, List.all_cons]

theorem holdsAny_eq_any (d : Bson) (qs : List Query) :
    Query.holdsAny e d qs = (qs.map (Query.holds e d)).any fun b => b := by
  induction qs with
  | nil => rfl
  | cons q qs ih => rw [Query.holdsAny, ih, List.map_cons, List.any_cons]

theorem parseList_parts {ps : List QueryEntries} (h : ∀ p ∈ ps, p.Readable) :
    ∃ qs, parseList (ps.map fun p => .doc p.fields) = some qs
      ∧ ∀ d, qs.map (Query.holds e d) = ps.map fun p => p.holds e d := by
  induction ps with
  | nil => exact ⟨[], rfl, fun _ => rfl⟩
  | cons p ps ih =>
      obtain ⟨qs, hqs, hholds⟩ := ih fun p' hp' => h p' (List.mem_cons_of_mem _ hp')
      obtain ⟨q, hq, hq'⟩ := (h p List.mem_cons_self).parse (e := e)
      refine ⟨.every q :: qs, ?_, ?_⟩
      · rw [List.map_cons, parseList, hq, hqs]
        rfl
      · intro d
        rw [List.map_cons, List.map_cons, hholds, ← hq']
        rfl

/-- The list under an operator, beside other entries. -/
theorem matches_listed (op : LogicalOperatorEnum) {target : QueryEntries} {ps : List QueryEntries}
    (htarget : target.Readable) (hps : ∀ p ∈ ps, p.Readable) (hne : ps ≠ []) (d : Bson) :
    matchesQuery e (FilterOptions.query op { entries := target, listed := some (ps.map some) }) d
      = some (target.holds e d && op.combine (ps.map fun p => p.holds e d)) := by
  obtain ⟨ts, hts, htarget⟩ := htarget.parse (e := e)
  obtain ⟨qs, hqs, hholds⟩ := parseList_parts (e := e) hps
  have hlist : (ps.map some).map (fun p : Option QueryEntries => p.elim .null fun p =>
      .doc p.fields)
      = ps.map fun p => Bson.doc p.fields := by
    rw [List.map_map]
    rfl
  obtain ⟨q, hq, hmeans⟩ := parse_operator e op (mt List.map_eq_nil_iff.mp hne) hqs
  have hne' : ps.map (fun p => p.holds e d) ≠ [] := mt List.map_eq_nil_iff.mp hne
  show (parseQuery (.doc (target.fields ++ [(op.key, .list _)]))).map _ = _
  rw [hlist, parseQuery, parseEntries_append hts hq]
  show some (Query.holdsAll e d (ts ++ [q])) = _
  rw [holdsAll_append, htarget, Query.holdsAll, Query.holdsAll, Bool.and_true, hmeans]
  refine congrArg (fun b => some (target.holds e d && b)) ?_
  refine Eq.trans ?_ (if_neg hne').symm
  rw [← hholds]
  cases op with
  | AND => exact holdsAll_eq_all d qs
  | OR  => exact holdsAny_eq_any d qs
  | NOR => exact congrArg not (holdsAny_eq_any d qs)

theorem matches_plain (op : LogicalOperatorEnum) (p : QueryEntries) :
    matchesQuery e (FilterOptions.query op { entries := p }) = matchesQuery e (.doc p.fields) := by
  rw [FilterOptions.query]
  show matchesQuery e (.doc (p.fields ++ [])) = _
  rw [List.append_nil]

theorem assignPlain_empty (p : QueryEntries) : assignPlain OrderedMap.empty p = p.defined :=
  OrderedMap.spread_empty _

/-- A query object of its own: only a single part can be taken for something else. -/
theorem collapse_means_iff (op : LogicalOperatorEnum) {parts : List QueryEntries}
    (h : ∀ p ∈ parts, p.Readable) :
    (∀ d, matchesQuery e ((collapse OrderedMap.empty parts).query op) d
        = some (op.combine (parts.map fun p => p.holds e d)))
      ↔ ∀ p, parts = [p] → op ≠ .NOR ∧ ∀ d, p.defined.holds e d = p.holds e d := by
  cases parts with
  | nil => exact iff_of_true (fun _ => rfl) (fun p hp => by cases hp)
  | cons p parts =>
      cases parts with
      | nil =>
          have hp := h p List.mem_cons_self
          have hcollapse : ∀ d, matchesQuery e ((collapse OrderedMap.empty [p]).query op) d
              = some (p.defined.holds e d) := by
            intro d
            rw [collapse, matches_plain, assignPlain_empty, hp.defined.matches]
          have hcombine : ∀ b, op.combine [b] = if op = .NOR then !b else b := by
            intro b
            cases op <;> cases b <;> rfl
          constructor
          · intro hmeans p' hp'
            obtain ⟨rfl, -⟩ := List.cons.inj hp'
            have hsame : ∀ d, p.defined.holds e d = if op = .NOR then !p.holds e d
                else p.holds e d := by
              intro d
              rw [← hcombine]
              exact Option.some.inj ((hcollapse d).symm.trans (hmeans d))
            have hop : op ≠ .NOR := by
              rintro rfl
              -- what matches the part matches the result, so no document matches the part
              have hnone : ∀ d, p.holds e d = false := by
                intro d
                by_contra hholds
                have hholds : p.holds e d = true := Bool.not_eq_false _ ▸ hholds
                have hd := hsame d
                rw [QueryEntries.holds_defined hp hholds, if_pos rfl, hholds] at hd
                cases hd
              have hempty : p.defined.holds e (.doc []) = true := by
                rw [hsame, if_pos rfl, hnone]
                rfl
              have hholds := QueryEntries.holds_of_defined_empty hp hempty
              rw [hnone] at hholds
              cases hholds
            refine ⟨hop, fun d => ?_⟩
            rw [hsame, if_neg hop]
          · intro hsound d
            obtain ⟨hop, hdefined⟩ := hsound p rfl
            rw [hcollapse, hdefined, List.map_singleton, hcombine, if_neg hop]
      | cons q parts =>
          refine iff_of_true (fun d => ?_) fun p' hp' => by cases hp'
          have hcollapse : collapse OrderedMap.empty (p :: q :: parts)
              = { entries := OrderedMap.empty, listed := some ((p :: q :: parts).map some) } := rfl
          rw [hcollapse, matches_listed op QueryEntries.readable_empty h (List.cons_ne_nil _ _)]
          rfl

/-! ## When it is what was asked for -/

/-- Nothing comes to the filter of the caller. -/
def FindFilterOptions.AddsNothing (o : FindFilterOptions) : Prop :=
  truthy o.id = false ∧ truthy o.ids = false ∧ ∀ c ∈ o.conditions, c = none

variable (e) in
/-- Without an array in the filter of the caller, a single part is not negated, and loses nothing
    with its entries that are `undefined`.  With one, nothing is added and nothing dropped, and the
    array has other than one item; without an item the other entries ask for nothing. -/
def FindFilterOptions.Sound (o : FindFilterOptions) (parts : List QueryEntries) : Prop :=
  (o.filterOptions.bind FilterOptions.listed).elim
    (∀ p, parts = [p] → o.type ≠ .NOR ∧ ∀ d, p.defined.holds e d = p.holds e d)
    fun items => o.AddsNothing ∧ (∀ p ∈ items, p ≠ none)
      ∧ (2 ≤ items.length ∨ items = [] ∧ ∀ p ∈ parts, ∀ d, p.holds e d = true)

/-- What is made of a value, if it is not left out. -/
theorem filterMap_of_map {α ε : Type} {x : Except ε α} {c : Prop} [Decidable c]
    {item : α → QueryEntries}
    {items : List (Option QueryEntries)}
      (h : (if c then x.map fun v => [some (item v)] else .ok []) = .ok items) :
    items.filterMap (fun p => p) = [] ↔ ¬ c := by
  split at h
  · rename_i hc
    cases x with
    | error err => cases h
    | ok v =>
        cases h
        exact iff_of_false (List.cons_ne_nil _ _) (not_not_intro hc)
  · rename_i hc
    cases h
    exact iff_of_true rfl hc

theorem added_eq_nil_iff {rt : Runtime} {o : FindFilterOptions}
    {id ids : List (Option QueryEntries)}
    (hid : idItems rt o.id = .ok id) (hids : idsItems rt o.ids = .ok ids) :
    (id ++ ids ++ o.conditions).filterMap (fun p => p) = [] ↔ o.AddsNothing := by
  rw [List.filterMap_append, List.filterMap_append, List.append_eq_nil_iff, List.append_eq_nil_iff,
    filterMap_of_map hid, filterMap_of_map hids, and_assoc, FindFilterOptions.AddsNothing,
    Bool.not_eq_true, Bool.not_eq_true]
  refine and_congr Iff.rfl (and_congr Iff.rfl ?_)
  rw [List.filterMap_eq_nil_iff]

/-- A filter that has the array stays as it is exactly where its items are the result's. -/
theorem afterwards_eq_iff {f : FilterOptions} {items : List (Option QueryEntries)}
    (hlisted : f.listed = some items)
    (kept : List QueryEntries) :
    f.afterwards kept = f ↔ items = kept.map some ∧ ∀ p, kept ≠ [p] := by
  obtain ⟨entries, listed⟩ := f
  cases hlisted
  rw [FilterOptions.afterwards, if_neg (by simp)]
  cases kept with
  | nil => simp [FilterOptions.mk.injEq, eq_comm]
  | cons p kept =>
      rw [if_neg (List.cons_ne_nil p kept)]
      cases kept with
      | nil => simp [collapse]
      | cons q kept => simp [collapse, eq_comm]

theorem map_some_filterMap {items : List (Option QueryEntries)} (h : ∀ p ∈ items, p ≠ none) :
    (items.filterMap fun p => p).map some = items := by
  induction items with
  | nil => rfl
  | cons p items ih =>
      have ih := ih fun p' hp' => h p' (List.mem_cons_of_mem _ hp')
      cases p with
      | none   => exact absurd rfl (h none List.mem_cons_self)
      | some p =>
          show some p :: (items.filterMap fun p => p).map some = _
          rw [ih]

/-- Nothing was dropped from the items, and nothing added. -/
theorem eq_map_some_iff {items : List (Option QueryEntries)} {added : List QueryEntries} :
    items = ((items.filterMap fun p => p) ++ added).map some ↔ added = [] ∧
      ∀ p ∈ items, p ≠ none := by
  constructor
  · intro h
    have hkept : items.filterMap (fun p => p) = (items.filterMap fun p => p) ++ added := by
      conv_lhs => rw [h, List.filterMap_map]
      exact List.filterMap_some
    refine ⟨List.self_eq_append_right.mp hkept, fun p hp => ?_⟩
    rw [h] at hp
    obtain ⟨q, -, rfl⟩ := List.mem_map.mp hp
    exact Option.some_ne_none q
  · rintro ⟨rfl, h⟩
    rw [List.append_nil, map_some_filterMap h]

/-- The items of an array beside other entries: at least two of them, or none where the entries ask
    for nothing. -/
theorem kept_means_iff {entries : QueryEntries} {kept : List QueryEntries}
    (hread : ∀ p ∈ entries :: kept, p.Readable) :
    ((∀ d, matchesQuery e ((collapse entries kept).query .AND) d
          = some (LogicalOperatorEnum.AND.combine ((entries :: kept).map fun p => p.holds e d)))
        ∧ ∀ p, kept ≠ [p])
      ↔ 2 ≤ kept.length ∨ kept = [] ∧ ∀ p ∈ entries :: kept, ∀ d, p.holds e d = true := by
  match kept with
  | [] =>
      constructor
      · rintro ⟨hmeans, _⟩
        refine .inr ⟨rfl, fun p hp d => ?_⟩
        obtain rfl := List.mem_singleton.mp hp
        have h := Option.some.inj (hmeans d)
        simpa [LogicalOperatorEnum.combine, Query.holds, Query.holdsAll] using h.symm
      · rintro (hlength | ⟨_, hall⟩)
        · cases hlength
        · refine ⟨fun d => ?_, fun p hp => by cases hp⟩
          show some true = some (entries.holds e d && true)
          rw [hall entries List.mem_cons_self d]
          rfl
  | [p] => simp
  | p :: q :: kept =>
      refine iff_of_true ⟨fun d => ?_, fun p' hp' => by cases hp'⟩ (.inl (by simp))
      have hcollapse : collapse entries (p :: q :: kept)
          = { entries := entries, listed := some ((p :: q :: kept).map some) } := rfl
      rw [hcollapse, matches_listed .AND (hread _ List.mem_cons_self)
        (fun p' hp' => hread p' (List.mem_cons_of_mem _ hp')) (List.cons_ne_nil _ _)]
      rfl

/-- **What `findFilter` makes of the parts** is what they ask for, with the filter of the caller
    left alone, in exactly the sound cases. -/
theorem findFilter_means_iff (rt : Runtime) (e : RegexEngine) (o : FindFilterOptions)
    (found : Found)
    (parts : List QueryEntries) (htype : o.type = .AND ∨ o.filterOptions = none)
    (hfound : findFilter rt o = .ok found) (hparts : o.parts rt = .ok parts)
    (hread : ∀ p ∈ parts, p.Readable) :
    ((∀ d, matchesQuery e (found.filter.query o.type) d
          = some (o.type.combine (parts.map fun p => p.holds e d)))
        ∧ found.caller = o.filterOptions)
      ↔ o.Sound e parts := by
  obtain ⟨id, hid, hfound⟩ := Fallible.bind_eq_ok.mp hfound
  obtain ⟨ids, hids, hfound⟩ := Fallible.bind_eq_ok.mp hfound
  have hadded := added_eq_nil_iff hid hids
  rw [FindFilterOptions.parts, hid] at hparts
  change (idsItems rt o.ids).bind _ = _ at hparts
  rw [hids] at hparts
  cases hfound
  cases hparts
  dsimp only
  rw [List.append_assoc (initialItems o.filterOptions),
    List.append_assoc (initialItems o.filterOptions), List.filterMap_append]
  generalize (id ++ ids ++ o.conditions).filterMap (fun p => p) = added at hadded hread ⊢
  rw [FindFilterOptions.Sound]
  cases hfilter : o.filterOptions with
  | none =>
      rw [hfilter] at hread
      exact (and_iff_left rfl).trans (collapse_means_iff o.type hread)
  | some f =>
      rw [hfilter] at hread
      have hand : o.type = .AND :=
        htype.resolve_right (by rw [hfilter]; exact Option.some_ne_none f)
      cases hlisted : f.listed with
      | none =>
          have hitems : (initialItems (some f)).filterMap (fun p => p) = f.parts := by
            simp [initialItems, FilterOptions.parts, hlisted]
          have hentries : initialEntries (some f) = OrderedMap.empty := by
            simp [initialEntries, hlisted]
          have hcaller : f.afterwards (f.parts ++ added) = f := by
            simp [FilterOptions.afterwards, hlisted]
          rw [hitems, hentries]
          show _ ∧ some (f.afterwards _) = some f ↔ _
          rw [hcaller, and_iff_left rfl, Option.bind_some, hlisted]
          exact collapse_means_iff o.type hread
      | some items =>
          have hitems : (initialItems (some f)).filterMap (fun p => p) = items.filterMap fun p =>
              p := by
            simp [initialItems, hlisted]
          have hentries : initialEntries (some f) = f.entries := by simp [initialEntries, hlisted]
          have hparts : f.parts = f.entries :: items.filterMap fun p => p := by
            rw [FilterOptions.parts, hlisted]
            rfl
          rw [Option.elim_some, hparts] at hread ⊢
          rw [hitems, hentries, Option.bind_some, hlisted, Option.elim_some, Option.map_some,
            Option.some.injEq, afterwards_eq_iff hlisted, hand]
          rw [eq_map_some_iff, hadded]
          -- in both directions nothing is added, nothing is dropped, and the items are the array
          have hlength (hsome : ∀ p ∈ items, p ≠ none) :
              items.length = (items.filterMap fun p => p).length
              ∧ (items = [] ↔ (items.filterMap fun p => p) = []) := by
            have hitems := map_some_filterMap hsome
            generalize items.filterMap (fun p => p) = kept at hitems
            subst hitems
            exact ⟨List.length_map _, List.map_eq_nil_iff⟩
          constructor
          · rintro ⟨hmeans, ⟨hadds, hsome⟩, hsingle⟩
            obtain rfl := hadded.mpr hadds
            simp only [List.append_nil] at hread hmeans hsingle ⊢
            rw [(hlength hsome).1, (hlength hsome).2]
            exact ⟨hadds, hsome, (kept_means_iff hread).mp ⟨hmeans, hsingle⟩⟩
          · rintro ⟨hadds, hsome, hlong⟩
            obtain rfl := hadded.mpr hadds
            simp only [List.append_nil] at hread hlong ⊢
            rw [(hlength hsome).1, (hlength hsome).2] at hlong
            obtain ⟨hmeans, hsingle⟩ := (kept_means_iff hread).mpr hlong
            exact ⟨hmeans, ⟨hadds, hsome⟩, hsingle⟩

end Meaning

/-! ## Two conditions, and one -/

def emptyRuntime : Runtime :=
  { automaticObjectIdFiltering := false, regExp := fun _ => none, generatedId := "" }

def noEngine : RegexEngine := { search := fun _ _ _ => false, fold := id }

def statusIs (s : String) : QueryEntries := entry "status" (.str s)

theorem readable_statusIs (s : String) : (statusIs s).Readable := by
  intro kv hkv
  obtain rfl := List.mem_singleton.mp hkv
  show (parseEntry "status" (.str s)).isSome = true
  simp [parseEntry, isOperator]

/-- Neither nor: two conditions are negated together. -/
theorem nor_of_two :
    (∀ d, matchesQuery noEngine (FilterOptions.query .NOR
          { listed := some [some (statusIs "a"), some (statusIs "b")] }) d
        = some (LogicalOperatorEnum.NOR.combine
            ([statusIs "a", statusIs "b"].map fun p => p.holds noEngine d)))
      ∧ (none : Option FilterOptions) = none := by
  refine (findFilter_means_iff emptyRuntime noEngine
    { conditions := [some (statusIs "a"), some (statusIs "b")], type := .NOR }
    { filter := { listed := some [some (statusIs "a"), some (statusIs "b")] }, caller := none }
    [statusIs "a", statusIs "b"] (.inr rfl) rfl rfl ?_).mpr fun p hp => by cases hp
  intro p hp
  rcases List.mem_cons.mp hp with rfl | hp
  · exact readable_statusIs "a"
  · obtain rfl := List.mem_singleton.mp hp
    exact readable_statusIs "b"

/-- A single condition under `$nor` is not negated. -/
theorem nor_of_one : ¬ ∀ (o : FindFilterOptions) (found : Found) (parts : List QueryEntries),
    o.type = .AND ∨ o.filterOptions = none → findFilter emptyRuntime o = .ok found →
    o.parts emptyRuntime = .ok parts → (∀ p ∈ parts, p.Readable) →
    (∀ d, matchesQuery noEngine (found.filter.query o.type) d
        = some (o.type.combine (parts.map fun p => p.holds noEngine d)))
      ∧ found.caller = o.filterOptions := by
  intro h
  have hread : ∀ p ∈ [statusIs "a"], p.Readable := by
    intro p hp
    obtain rfl := List.mem_singleton.mp hp
    exact readable_statusIs "a"
  have hmeans := (h { conditions := [some (statusIs "a")], type := .NOR }
    { filter := collapse OrderedMap.empty [statusIs "a"], caller := none } [statusIs "a"]
    (.inr rfl) rfl rfl hread).1
  exact ((collapse_means_iff .NOR hread).mp hmeans (statusIs "a") rfl).1 rfl

end FilterHelper
