import NestServer.Mongo.Effects
import Mathlib.Data.List.Dedup

/-! # Writes of a Mongoose model

    A write as a plugin's hook finds it: with the update operators that a hook
    can look into.  A key with a dot changes the field that it begins with; such
    keys and all further operators are changes of one field. -/

namespace Mongoose

open Mongo

/-! ## Operators on arrays -/

/-- The elements of `{ $each: [ … ] }`, or the operand as one element. -/
def each (operand : Value) : Option (List Value) :=
  match operand with
  | .doc fields =>
      match fields.lookup "$each" with
      | some (.list vs) => some vs
      | some _          => none
      | none            => some [operand]
  | v           => some [v]

/-- An entry of `$push`, with what `$position`, `$sort` and `$slice` make of the
    old and the new elements; they come with `$each`. -/
structure Push where
  operand : Value
  arrange : List Value → List Value → List Value
  subset  : ∀ old new, arrange old new ⊆ old ++ new

/-- An entry of `$pull`, with the elements that a condition matches. -/
structure Pull where
  operand   : Value
  condition : Value → Bool

def Pull.picks (p : Pull) (v : Value) : Bool :=
  match p.operand with
  | .doc _ => p.condition v
  | w      => v = w

/-- What an operator makes of a field: `none` is an error, and `some none` a
    field that is not there. -/
abbrev FieldChange := Option Value → Option (Option Value)

/-- The old elements with the new ones. -/
def Push.extend (p : Push) (vs : List Value) : Option (List Value) :=
  match p.operand with
  | .doc fields => (each (.doc fields)).map (p.arrange vs)
  | v           => some (vs ++ [v])

def Push.change (p : Push) : FieldChange
  | none            => (p.extend []).map fun vs => some (.list vs)
  | some (.list vs) => (p.extend vs).map fun vs => some (.list vs)
  | some _          => none

/-- `$addToSet` adds the elements that are not there. -/
def addAll (vs : List Value) : List Value → List Value
  | []          => vs
  | v :: values => addAll (if vs.contains v then vs else vs ++ [v]) values

def addToSetChange (operand : Value) : FieldChange
  | none            => (each operand).map fun new => some (.list (addAll [] new))
  | some (.list vs) => (each operand).map fun new => some (.list (addAll vs new))
  | some _          => none

def Pull.change (p : Pull) : FieldChange
  | none            => some none
  | some (.list vs) => some (some (.list (vs.filter fun v => !p.picks v)))
  | some _          => none

/-! ## Update documents -/

structure UpdateQuery where
  plain       : Document := .empty
  set         : Document := .empty
  setOnInsert : Document := .empty
  push        : OrderedMap String Push := .empty
  addToSet    : Document := .empty
  pull        : OrderedMap String Pull := .empty
  unset       : List String := []
  rename      : List (String × String) := []
  others      : List (String × (Bool → FieldChange)) := []

namespace UpdateQuery

variable (u : UpdateQuery)

/-- The operators that change one field, by the field. -/
def changes (inserting : Bool) : List (String × FieldChange) :=
  u.push.entries.map (fun e => (e.1, e.2.change)) ++
    u.addToSet.entries.map (fun e => (e.1, addToSetChange e.2)) ++
    u.pull.entries.map (fun e => (e.1, e.2.change)) ++
    u.others.map fun e => (e.1, e.2 inserting)

/-- The update without its operators on arrays, which keep their places. -/
def skeleton : UpdateDocument where
  plain       := u.plain
  set         := u.set
  setOnInsert := u.setOnInsert
  unset       := u.unset
  rename      := u.rename
  others      := (u.changes false).map fun e => (e.1, fun _ => none)

def changeField (d : Document) (e : String × FieldChange) : Option Document :=
  (e.2 (d.get? e.1)).map fun v =>
    match v with
    | some v => d.set e.1 v
    | none   => d.delete e.1

/-- What the store makes of a document; `none` is an error. -/
def apply (inserting : Bool) (d : Document) : Option Document :=
  if u.skeleton.names.Nodup then
    (u.changes inserting).foldlM changeField
      (u.rename.foldl UpdateDocument.renameField
        (u.unset.foldl OrderedMap.delete (d.spread (u.skeleton.assignments inserting))))
  else none

/-- The operator that changes one field. -/
def changeAt (inserting : Bool) (k : String) : Option FieldChange :=
  ((u.push.get? k).map Push.change).or (((u.addToSet.get? k).map addToSetChange).or
    (((u.pull.get? k).map Pull.change).or
      ((u.others.find? fun e => e.1 = k).map fun e => e.2 inserting)))

theorem find?_changes (inserting : Bool) (k : String) :
    ((u.changes inserting).find? fun e => e.1 = k).map Prod.snd = u.changeAt inserting k := by
  have hmap : ∀ {ν : Type} (es : List (String × ν)) (f : ν → FieldChange),
      ((es.map fun e => (e.1, f e.2)).find? fun e => decide (e.1 = k)).map Prod.snd
        = ((es.find? fun e => e.1 = k).map Prod.snd).map f := by
    intro ν es f
    rw [List.find?_map, Option.map_map, Option.map_map]
    rfl
  have hothers := hmap u.others fun f => f inserting
  rw [Option.map_map] at hothers
  rw [changes, List.find?_append, List.find?_append, List.find?_append, Option.map_or,
    Option.map_or, Option.map_or, hmap, hmap, hmap, hothers, Option.or_assoc, Option.or_assoc]
  rfl

/-- What the update makes of one field; `none` is an error. -/
def valueAfter (inserting : Bool) (d : Document) (k : String) : Option (Option Value) :=
  match (u.skeleton.assignments inserting).get? k with
  | some v => some (some v)
  | none =>
      if k ∈ u.unset ∨ k ∈ u.rename.map Prod.fst then some none
      else match u.rename.find? fun r => r.2 = k with
        | some r => some ((d.get? r.1).or (d.get? k))
        | none => match u.changeAt inserting k with
            | some f => f (d.get? k)
            | none   => some (d.get? k)

theorem get?_changes {es : List (String × FieldChange)} (hnd : (es.map Prod.fst).Nodup)
    {d d' : Document} (h : es.foldlM changeField d = some d') (k : String) :
    some (d'.get? k) = match es.find? fun e => e.1 = k with
      | some e => e.2 (d.get? k)
      | none   => some (d.get? k) := by
  induction es generalizing d with
  | nil =>
      cases Option.some.inj h
      rfl
  | cons e es ih =>
      rw [List.map_cons, List.nodup_cons] at hnd
      rw [List.foldlM_cons] at h
      obtain ⟨m, hm, hrest⟩ := Option.bind_eq_some_iff.mp h
      obtain ⟨v, hv, hset⟩ := Option.map_eq_some_iff.mp hm
      rw [ih hnd.2 hrest, ← hset]
      by_cases hk : e.1 = k
      · have hnone : (es.find? fun e' => e'.1 = k) = none :=
          UpdateDocument.find?_fst_eq_none (hk ▸ hnd.1)
        rw [hnone, List.find?_cons_of_pos (by simpa using hk), ← hk]
        dsimp only
        rw [hv]
        cases v with
        | none => exact congrArg some (OrderedMap.get?_delete_self d e.1)
        | some v => exact congrArg some (OrderedMap.get?_set_self d e.1 v)
      · have hother : (match v with
            | some v => d.set e.1 v
            | none   => d.delete e.1).get? k = d.get? k := by
          cases v with
          | none => exact OrderedMap.get?_delete_of_ne d (Ne.symm hk)
          | some v => exact OrderedMap.get?_set_of_ne d v (Ne.symm hk)
        rw [List.find?_cons_of_neg (by simpa using hk), hother]

theorem keys_changes (inserting : Bool) :
    (u.changes inserting).map Prod.fst = u.push.entries.map Prod.fst ++
      u.addToSet.entries.map Prod.fst ++ u.pull.entries.map Prod.fst ++ u.others.map Prod.fst := by
  simp [changes, Function.comp_def]

/-- What it means that no two operators name one field. -/
theorem separate (h : u.skeleton.names.Nodup) :
    (∀ inserting k v, (u.skeleton.assignments inserting).get? k = some v →
      k ∉ u.unset ∧ k ∉ u.rename.map Prod.fst ∧ k ∉ u.rename.map Prod.snd ∧
        k ∉ (u.changes inserting).map Prod.fst) ∧
    (∀ inserting, ∀ k ∈ u.unset, k ∉ u.rename.map Prod.fst ∧ k ∉ u.rename.map Prod.snd ∧
      k ∉ (u.changes inserting).map Prod.fst) ∧
    (∀ inserting, ∀ k ∈ u.rename.map Prod.fst, k ∉ (u.changes inserting).map Prod.fst) ∧
    (∀ inserting, ∀ k ∈ u.rename.map Prod.snd, k ∉ (u.changes inserting).map Prod.fst) ∧
    (u.rename.map Prod.fst ++ u.rename.map Prod.snd).Nodup ∧
    (∀ inserting, ((u.changes inserting).map Prod.fst).Nodup) := by
  have hkeys : ∀ inserting,
      u.skeleton.others.map Prod.fst = (u.changes inserting).map Prod.fst := by
    intro inserting
    rw [keys_changes, ← u.keys_changes false, skeleton, List.map_map]
    rfl
  have hsep := UpdateDocument.separate_of_nodup h
  simp only [← hkeys]
  exact ⟨hsep.assigned, fun _ => hsep.unset, fun _ => hsep.sources, fun _ => hsep.targets,
    hsep.renames, fun _ => hsep.changes⟩

/-- **An update acts field by field.** -/
theorem get?_apply {u : UpdateQuery} {inserting : Bool} {d d' : Document}
    (h : u.apply inserting d = some d') (k : String) :
    some (d'.get? k) = u.valueAfter inserting d k := by
  rw [apply] at h
  split at h
  · next hnd =>
      obtain ⟨hassigned, hunset, hsources, htargets, hrenames, hchanges⟩ := u.separate hnd
      rw [get?_changes (hchanges inserting) h, UpdateDocument.get?_rename hrenames,
        UpdateDocument.get?_unset, OrderedMap.get?_spread, valueAfter]
      cases hA : (u.skeleton.assignments inserting).get? k with
      | some v =>
          obtain ⟨h1, h2, h3, h4⟩ := hassigned inserting k v hA
          rw [UpdateDocument.find?_fst_eq_none h4, if_neg h2,
            UpdateDocument.find?_snd_eq_none h3, if_neg h1]
          rfl
      | none =>
          dsimp only
          by_cases hun : k ∈ u.unset
          · obtain ⟨h2, h3, h4⟩ := hunset inserting k hun
            rw [UpdateDocument.find?_fst_eq_none h4, if_neg h2,
              UpdateDocument.find?_snd_eq_none h3, if_pos hun, if_pos (Or.inl hun)]
          · by_cases hsrc : k ∈ u.rename.map Prod.fst
            · rw [UpdateDocument.find?_fst_eq_none (hsources inserting k hsrc), if_pos hsrc,
                if_pos (Or.inr hsrc)]
            · rw [if_neg hsrc, if_neg hun, if_neg (by simp [hun, hsrc]), Option.none_or]
              cases hr : u.rename.find? fun r => r.2 = k with
              | none =>
                  dsimp only
                  rw [← u.find?_changes]
                  cases (u.changes inserting).find? fun e => e.1 = k <;> rfl
              | some r =>
                  have hmem := List.mem_of_find?_eq_some hr
                  have htgt : k ∈ u.rename.map Prod.snd := by
                    have hk : r.2 = k := by simpa using List.find?_some hr
                    rw [← hk]
                    exact List.mem_map_of_mem hmem
                  have hrsrc := List.mem_map_of_mem (f := Prod.fst) hmem
                  -- the source of the rename is named by no other operator
                  have hA1 : (u.skeleton.assignments inserting).get? r.1 = none := by
                    cases hv : (u.skeleton.assignments inserting).get? r.1 with
                    | none => rfl
                    | some v => exact absurd hrsrc (hassigned inserting r.1 v hv).2.1
                  have hun1 : r.1 ∉ u.unset := fun hm => (hunset inserting r.1 hm).1 hrsrc
                  rw [UpdateDocument.find?_fst_eq_none (htargets inserting k htgt)]
                  dsimp only
                  rw [UpdateDocument.get?_unset, if_neg hun1, OrderedMap.get?_spread, hA1,
                    Option.none_or]
  · cases h

theorem nodup_of_apply {u : UpdateQuery} {inserting : Bool} {d d' : Document}
    (h : u.apply inserting d = some d') : u.skeleton.names.Nodup := by
  rw [apply] at h
  split at h
  · assumption
  · cases h

/-- A field that is assigned has no `$setOnInsert`. -/
theorem setOnInsert_of_assigned {u : UpdateQuery} (hnd : u.skeleton.names.Nodup) {k : String}
    {v : Value} (hv : (u.set.spread u.plain).get? k = some v) : u.setOnInsert.get? k = none := by
  have hnames : ((u.set.spread u.plain).entries.map Prod.fst
      ++ u.setOnInsert.entries.map Prod.fst).Nodup := by
    have hpre := hnd
    rw [UpdateDocument.names, List.append_assoc, List.append_assoc, List.append_assoc] at hpre
    exact (List.sublist_append_left _ _).nodup hpre
  cases hs : u.setOnInsert.get? k with
  | none => rfl
  | some w =>
      have hassigned := List.mem_map_of_mem (f := Prod.fst) (OrderedMap.get?_eq_some_iff.mp hv)
      have hinsert := List.mem_map_of_mem (f := Prod.fst) (OrderedMap.get?_eq_some_iff.mp hs)
      exact absurd hinsert (List.disjoint_of_nodup_append hnames hassigned)

theorem valueAfter_assigned {u : UpdateQuery} (hnd : u.skeleton.names.Nodup) {k : String}
    {v : Value} (hv : (u.set.spread u.plain).get? k = some v) (inserting : Bool) (d : Document) :
    u.valueAfter inserting d k = some (some v) := by
  have hskel : (u.skeleton.assignments inserting).get? k = some v := by
    cases inserting with
    | false => exact hv
    | true =>
        show ((u.set.spread u.plain).spread u.setOnInsert).get? k = some v
        rw [OrderedMap.get?_spread, setOnInsert_of_assigned hnd hv, Option.none_or]
        exact hv
  rw [valueAfter, hskel]

/-- A field of `$setOnInsert` is assigned by an insert, and left alone by an update. -/
theorem valueAfter_setOnInsert {u : UpdateQuery} (hnd : u.skeleton.names.Nodup) {k : String}
    {v : Value} (hv : u.setOnInsert.get? k = some v) (inserting : Bool) (d : Document) :
    u.valueAfter inserting d k = some (if inserting then some v else d.get? k) := by
  have hinsert : (u.skeleton.assignments true).get? k = some v := by
    show ((u.set.spread u.plain).spread u.setOnInsert).get? k = some v
    rw [OrderedMap.get?_spread, hv, Option.some_or]
  cases inserting with
  | true => rw [valueAfter, hinsert, if_pos rfl]
  | false =>
      obtain ⟨hunset, hsource, htarget, hchange⟩ := (u.separate hnd).1 true k v hinsert
      have hassign : (u.skeleton.assignments false).get? k = none := by
        cases hw : (u.set.spread u.plain).get? k with
        | none   => exact hw
        | some w =>
            rw [setOnInsert_of_assigned hnd hw] at hv
            cases hv
      have hnone : u.changeAt false k = none := by
        rw [← u.find?_changes, Option.map_eq_none_iff]
        rw [u.keys_changes, ← u.keys_changes false] at hchange
        exact UpdateDocument.find?_fst_eq_none hchange
      rw [valueAfter, hassign, UpdateDocument.find?_snd_eq_none htarget, hnone]
      exact if_neg fun h => h.elim hunset hsource

/-- A field that an operator changes is left alone by all the rest. -/
theorem valueAfter_change {u : UpdateQuery} (hnd : u.skeleton.names.Nodup) {inserting : Bool}
    {k : String} {f : FieldChange} (hf : u.changeAt inserting k = some f) (d : Document) :
    u.valueAfter inserting d k = f (d.get? k) := by
  obtain ⟨hassigned, hunset, hsources, htargets, -, -⟩ := u.separate hnd
  have hkey : k ∈ (u.changes inserting).map Prod.fst := by
    rw [← u.find?_changes] at hf
    obtain ⟨e, he, -⟩ := Option.map_eq_some_iff.mp hf
    have hk : e.1 = k := by simpa using List.find?_some he
    rw [← hk]
    exact List.mem_map_of_mem (List.mem_of_find?_eq_some he)
  have hA : (u.skeleton.assignments inserting).get? k = none := by
    cases hv : (u.skeleton.assignments inserting).get? k with
    | none => rfl
    | some v => exact absurd hkey (hassigned inserting k v hv).2.2.2
  have hgone : ¬(k ∈ u.unset ∨ k ∈ u.rename.map Prod.fst) := by
    rintro (hun | hsrc)
    · exact (hunset inserting k hun).2.2 hkey
    · exact hsources inserting k hsrc hkey
  have htgt : (u.rename.find? fun r => r.2 = k) = none :=
    UpdateDocument.find?_snd_eq_none fun hm => htargets inserting k hm hkey
  rw [valueAfter, hA]
  dsimp only
  rw [if_neg hgone, htgt, hf]

/-- A field with an operator on arrays has no further operator. -/
theorem others_of_arrayChange {u : UpdateQuery} (hnd : u.skeleton.names.Nodup) {k : String}
    (hk : k ∈ u.push.entries.map Prod.fst ++ u.addToSet.entries.map Prod.fst
      ++ u.pull.entries.map Prod.fst) : (u.others.find? fun e => e.1 = k) = none := by
  have hkeys := (u.separate hnd).2.2.2.2.2 false
  rw [keys_changes] at hkeys
  exact UpdateDocument.find?_fst_eq_none (List.disjoint_of_nodup_append hkeys hk)

end UpdateQuery

/-- What `getUpdate()` returns of an update: an object, or the stages of a
    pipeline. -/
inductive UpdateArgument where
  | document (u : UpdateQuery)
  | pipeline (f : Document → Option Document)

def UpdateArgument.apply (inserting : Bool) (d : Document) : UpdateArgument → Option Document
  | .document u => u.apply inserting d
  | .pipeline f => f d

/-! ## Writes -/

/-- A query operation; `updateOne` and `replaceOne` stand for `findOneAndUpdate`
    and `findOneAndReplace` as well. -/
inductive QueryOp where
  | updateOne (filter : FilterQuery) (sort : Document → Document → Bool) (u : UpdateArgument)
      (upsert : Option String)
  | updateMany (filter : FilterQuery) (u : UpdateArgument) (upsert : Option String)
  | replaceOne (filter : FilterQuery) (sort : Document → Document → Bool) (d : Document)
      (upsert : Option String)
  | deleteOne (filter : FilterQuery) (sort : Document → Document → Bool)
  | deleteMany (filter : FilterQuery)

/-- What the store is handed.  An update inserts where its filter selects nothing. -/
def QueryOp.write (c : Collection) : QueryOp → Write
  | .updateOne filter sort u upsert   =>
      .query filter (.updateOne sort
        (.pipeline fun d => u.apply (c.chosen filter sort).isNone d) upsert)
  | .updateMany filter u upsert       =>
      .query filter (.updateMany
        (.pipeline fun d => u.apply (c.selected filter).isEmpty d) upsert)
  | .replaceOne filter sort d upsert  => .query filter (.replaceOne sort d upsert)
  | .deleteOne filter sort            => .query filter (.deleteOne sort)
  | .deleteMany filter                => .query filter .deleteMany

/-- An element of the list of `bulkWrite`. -/
inductive Op where
  | insertOne (id : String) (d : Document)
  | query (q : QueryOp)

def Op.write (c : Collection) : Op → Write
  | .insertOne id d => .insertOne id d
  | .query q        => q.write c

/-- The first argument of `insertMany`: an array, or one document. -/
inductive InsertDocs where
  | array (docs : List (String × Document))
  | single (id : String) (d : Document)

/-- A write as a hook finds it. -/
inductive ModelWrite where
  /-- `save()` of a new document; the other paths have their defaults -/
  | create (id : String) (d : Document) (modified : List String)
  /-- `save()` of a document that exists, with its modified fields and, by the
      field, its modified array elements -/
  | save (id : String) (d : Document) (modified : List String)
      (elements : OrderedMap String (List Nat))
  | insertMany (ordered : Bool) (docs : InsertDocs)
  | query (q : QueryOp)
  | bulkWrite (ordered : Bool) (ops : List Op)

/-- `{ _id: id }` -/
def byId (id : String) : FilterQuery := OrderedMap.empty.set "_id" (.eq (.str id))

/-- Set the elements at these places to those of the document in memory. -/
def setElements (inMemory : Option Value) (places : List Nat) : FieldChange
  | some (.list vs) =>
      match inMemory with
      | some (.list ws) =>
          some (some (.list (places.foldl (fun vs i => vs.set i (ws.getD i .null)) vs)))
      | _               => none
  | _               => none

/-- What `save` writes of a document that exists. -/
def delta (d : Document) (modified : List String) (elements : OrderedMap String (List Nat)) :
    UpdateQuery where
  set    := d.filterKeys modified.contains
  unset  := (modified.filter fun k => (d.get? k).isNone).dedup
  -- an element of a field that is written as a whole is not written again
  others := (elements.filterKeys fun k => !modified.contains k).entries.map fun e =>
    (e.1, fun _ => setElements (d.get? e.1) e.2)

theorem find?_entries_map {ν β : Type} (m : OrderedMap String ν) (f : String → ν → β)
    (k : String) : ((m.entries.map fun e => (e.1, f e.1 e.2)).find? fun e => e.1 = k)
      = (m.get? k).map fun v => (k, f k v) := by
  rw [List.find?_map, OrderedMap.get?, Option.map_map]
  show (m.entries.find? fun e => e.1 = k).map _ = _
  cases hf : m.entries.find? fun e => e.1 = k with
  | none => rfl
  | some e =>
      have hk : e.1 = k := by simpa using List.find?_some hf
      simp [hk]

/-- What `save` makes of a field that is not marked as a whole. -/
theorem valueAfter_delta {d : Document} {modified : List String}
    {elements : OrderedMap String (List Nat)} {k : String} (hm : modified.contains k = false)
    (inserting : Bool) (start : Document) :
    (delta d modified elements).valueAfter inserting start k =
      match elements.get? k with
      | some places => setElements (d.get? k) places (start.get? k)
      | none        => some (start.get? k) := by
  have hassign : ((delta d modified elements).skeleton.assignments inserting).get? k = none := by
    have hset : (d.filterKeys modified.contains).get? k = none := by
      rw [OrderedMap.get?_filterKeys, hm]
      rfl
    cases inserting with
    | false => exact hset
    | true => exact hset
  have hgone : ¬(k ∈ (delta d modified elements).unset
      ∨ k ∈ (delta d modified elements).rename.map Prod.fst) := by
    rintro (hun | hren)
    · have hmem := (List.mem_filter.mp (List.mem_dedup.mp hun)).1
      rw [List.contains_iff_mem.mpr hmem] at hm
      cases hm
    · cases hren
  have hchange : (delta d modified elements).changeAt inserting k
      = (elements.get? k).map fun places => setElements (d.get? k) places := by
    have hfilter := OrderedMap.get?_filterKeys (fun k => !modified.contains k) elements k
    rw [hm] at hfilter
    show (((elements.filterKeys fun k => !modified.contains k).entries.map fun e =>
        (e.1, fun _ : Bool => setElements (d.get? e.1) e.2)).find? fun e => e.1 = k).map
          (fun e => e.2 inserting) = _
    rw [find?_entries_map _ fun k places => fun _ : Bool => setElements (d.get? k) places,
      show (elements.filterKeys fun k => !modified.contains k).get? k =
          elements.get? k from hfilter,
      Option.map_map]
    rfl
  rw [UpdateQuery.valueAfter, hassign]
  dsimp only
  rw [if_neg hgone, show (delta d modified elements).rename = [] from rfl, List.find?_nil, hchange]
  cases elements.get? k <;> rfl

theorem valueAfter_delta_marked {d : Document} {modified : List String}
    {elements : OrderedMap String (List Nat)} {k : String} (hm : modified.contains k = true)
    (start : Document) :
    (delta d modified elements).valueAfter false start k = some (d.get? k) := by
  have hassign : ((delta d modified elements).skeleton.assignments false).get? k = d.get? k := by
    show (d.filterKeys modified.contains).get? k = d.get? k
    rw [OrderedMap.get?_filterKeys, if_pos hm]
  rw [UpdateQuery.valueAfter, hassign]
  cases hv : d.get? k with
  | some v => rfl
  | none =>
      have hun : k ∈ (delta d modified elements).unset := by
        refine List.mem_dedup.mpr (List.mem_filter.mpr ⟨List.contains_iff_mem.mp hm, ?_⟩)
        rw [hv]
        rfl
      exact if_pos (Or.inl hun)

/-- `save()` of a document that exists; without changes there is no write. -/
def saveOps (id : String) (d : Document) (modified : List String)
    (elements : OrderedMap String (List Nat)) : List QueryOp :=
  if modified = [] ∧ elements.entries = [] then []
  else [.updateOne (byId id) (fun _ _ => true) (.document (delta d modified elements)) none]

/-- Carry out operations; an ordered list stops at the first failure. -/
def performOps (ordered : Bool) : List Op → Collection → Collection
  | [],        c => c
  | op :: ops, c =>
      if ordered && !(c.exec (op.write c)).2 then (c.exec (op.write c)).1
      else performOps ordered ops (c.exec (op.write c)).1

/-- The operations of a write, and whether they stop at the first failure. -/
def ModelWrite.ops : ModelWrite → Bool × List Op
  | .create id d _                   => (true, [.insertOne id d])
  | .save id d modified elements     => (true, (saveOps id d modified elements).map .query)
  | .insertMany ordered (.array ds)  => (ordered, ds.map fun e => .insertOne e.1 e.2)
  | .insertMany ordered (.single i d) => (ordered, [.insertOne i d])
  | .query q                         => (true, [.query q])
  | .bulkWrite ordered ops           => (ordered, ops)

/-- The collections that a list of operations goes through. -/
def throughOps (ordered : Bool) : List Op → Collection → List Collection
  | [],        _ => []
  | op :: ops, c => (c.exec (op.write c)).1 ::
      if ordered && !(c.exec (op.write c)).2 then []
      else throughOps ordered ops (c.exec (op.write c)).1

/-- What the collection is after a write. -/
def ModelWrite.perform (c : Collection) (w : ModelWrite) : Collection :=
  performOps w.ops.1 w.ops.2 c

/-! ## The documents that an operation makes -/

section Effects

variable {c : Collection}

theorem mem_updateEffects {filter : FilterQuery} {f : Document → Option Document}
    {upsert : Option String} {es : List (String × Document)} {e : Effect}
    (h : e ∈ c.updateEffects filter (.pipeline f) upsert es) :
    f e.start = some e.new ∧
      (es ≠ [] ∧ e.old = some e.start ∨
        es = [] ∧ e.old = none ∧ Collection.seed filter = some e.start) := by
  cases es with
  | nil =>
      rw [Collection.updateEffects] at h
      cases hs : Collection.seed filter with
      | none =>
          rw [hs] at h
          cases h
      | some s =>
          rw [hs] at h
          obtain ⟨id, d, -, hd, -, rfl⟩ := Collection.mem_upsertEffects.mp h
          exact ⟨hd, Or.inr ⟨rfl, rfl, rfl⟩⟩
  | cons row rows =>
      obtain ⟨r, -, hr⟩ := List.mem_filterMap.mp h
      obtain ⟨d, hd, rfl⟩ := Option.map_eq_some_iff.mp hr
      exact ⟨hd, Or.inl ⟨by simp, rfl⟩⟩

/-- An update makes documents of the selected ones, or inserts one. -/
theorem effects_updateOne {filter : FilterQuery} {sort : Document → Document → Bool}
    {u : UpdateArgument} {upsert : Option String} {e : Effect}
    (h : e ∈ c.effects ((QueryOp.updateOne filter sort u upsert).write c)) :
    u.apply e.old.isNone e.start = some e.new ∧ (e.old = some e.start ∨ e.old = none) := by
  obtain ⟨hnew, ⟨hrows, hold⟩ | ⟨hrows, hold, -⟩⟩ := mem_updateEffects h
  · cases hc : c.chosen filter sort with
    | none => simp [hc] at hrows
    | some row =>
        rw [hc] at hnew
        rw [hold]
        exact ⟨hnew, Or.inl rfl⟩
  · cases hc : c.chosen filter sort with
    | none =>
        rw [hc] at hnew
        rw [hold]
        exact ⟨hnew, Or.inr rfl⟩
    | some row => simp [hc] at hrows

theorem effects_updateMany {filter : FilterQuery} {u : UpdateArgument} {upsert : Option String}
    {e : Effect} (h : e ∈ c.effects ((QueryOp.updateMany filter u upsert).write c)) :
    u.apply e.old.isNone e.start = some e.new ∧ (e.old = some e.start ∨ e.old = none) := by
  obtain ⟨hnew, ⟨hrows, hold⟩ | ⟨hrows, hold, -⟩⟩ := mem_updateEffects h
  · rw [List.isEmpty_eq_false_iff.mpr hrows] at hnew
    rw [hold]
    exact ⟨hnew, Or.inl rfl⟩
  · rw [hrows] at hnew
    rw [hold]
    exact ⟨hnew, Or.inr rfl⟩

/-- A replacement is the document that it makes. -/
theorem effects_replaceOne {filter : FilterQuery} {sort : Document → Document → Bool}
    {d : Document} {upsert : Option String} {e : Effect}
    (h : e ∈ c.effects ((QueryOp.replaceOne filter sort d upsert).write c)) :
    e.new = d ∧ e.start = d := by
  rw [QueryOp.write, Collection.effects] at h
  cases hc : c.chosen filter sort with
  | some row =>
      rw [hc, List.mem_singleton] at h
      rw [h]
      exact ⟨rfl, rfl⟩
  | none =>
      rw [hc] at h
      obtain ⟨id, d', -, hd, -, rfl⟩ := Collection.mem_upsertEffects.mp h
      exact ⟨(Option.some.inj hd).symm, rfl⟩

end Effects

theorem effects_insertOne {c : Collection} {id : String} {d : Document} {e : Effect}
    (h : e ∈ c.effects ((Op.insertOne id d).write c)) :
    e = ⟨none, d, d⟩ ∧ c.get? id = none := by
  rw [Op.write, Collection.effects] at h
  obtain ⟨id', d', hid, hd, hnone, rfl⟩ := Collection.mem_upsertEffects.mp h
  cases hid
  cases hd
  exact ⟨rfl, hnone⟩

/-- Without an upsert there is no new document. -/
theorem effects_updateOnly {c : Collection} {filter : FilterQuery}
    {sort : Document → Document → Bool} {u : UpdateArgument} {e : Effect}
    (h : e ∈ c.effects ((QueryOp.updateOne filter sort u none).write c)) :
    u.apply false e.start = some e.new ∧ e.old = some e.start := by
  obtain ⟨happly, hold | hnone⟩ := effects_updateOne h
  · rw [hold] at happly
    exact ⟨happly, hold⟩
  · rw [QueryOp.write, Collection.effects] at h
    obtain ⟨-, ⟨-, hold⟩ | ⟨hrows, -, hseed⟩⟩ := mem_updateEffects h
    · rw [hnone] at hold
      cases hold
    · rw [hrows, Collection.updateEffects, hseed] at h
      cases h

/-- What `save` makes of a document is its delta. -/
theorem effects_save {c : Collection} {id : String} {d : Document} {modified : List String}
    {elements : OrderedMap String (List Nat)} {q : QueryOp} {e : Effect}
    (hq : q ∈ saveOps id d modified elements) (h : e ∈ c.effects (q.write c)) :
    (delta d modified elements).apply false e.start = some e.new ∧ e.old = some e.start := by
  rw [saveOps] at hq
  split at hq
  · cases hq
  · rw [List.mem_singleton] at hq
    subst hq
    exact effects_updateOnly h

/-! ## Lists of operations -/

/-- Every operation that is carried out meets the condition, in the collection it
    finds; `f` is what a hook makes of an operation. -/
def AllOps {α : Type} (f : α → Op) (C : Collection → α → Prop) (ordered : Bool) :
    List α → Collection → Prop
  | [],        _ => True
  | op :: ops, c => C c op ∧
      ((ordered && !(c.exec ((f op).write c)).2) = false →
        AllOps f C ordered ops (c.exec ((f op).write c)).1)

section Lists

variable {P : Option Document → Document → Prop} {α : Type} {f : α → Op}
  {C : Collection → α → Prop}

/-- What each operation keeps, the list of them keeps: a document that is made
    again counts as one that is made. -/
theorem related_performOps (hrefl : ∀ d, P (some d) d)
    (htrans : ∀ o d d', P o d → P (some d) d' → P o d') (hnone : ∀ o d, P none d → P o d)
    (ordered : Bool) :
    ∀ (ops : List α), (∀ c, ∀ op ∈ ops, C c op →
      Collection.Related P c (c.exec ((f op).write c)).1) →
    ∀ c, AllOps f C ordered ops c →
      Collection.Related P c (performOps ordered (ops.map f) c) := by
  intro ops
  induction ops with
  | nil =>
      intro _ c _ id d hd
      rw [show c.get? id = some d from hd]
      exact hrefl d
  | cons op ops ih =>
      intro hstep c hc id d hd
      obtain ⟨hop, hops⟩ := hc
      have hfirst := hstep c op List.mem_cons_self hop
      rw [List.map_cons, performOps] at hd
      split at hd
      · exact hfirst id d hd
      · next hgo =>
          have hrest := ih (fun c op hmem => hstep c op (List.mem_cons_of_mem _ hmem)) _
            (hops (by simpa using hgo)) id d hd
          cases hmid : (c.exec ((f op).write c)).1.get? id with
          | none =>
              rw [hmid] at hrest
              exact hnone _ d hrest
          | some m =>
              rw [hmid] at hrest
              exact htrans _ m d (hfirst id m hmid) hrest

/-- A list of inserts changes no document that is there. -/
theorem get?_performOps_inserts (ordered : Bool) {id : String} {d : Document} :
    ∀ (docs : List (String × Document)) (c : Collection), c.get? id = some d →
      (performOps ordered (docs.map fun e => .insertOne e.1 e.2) c).get? id = some d := by
  intro docs
  induction docs with
  | nil => exact fun _ hd => hd
  | cons e docs ih =>
      intro c hd
      have hstep : (c.exec (.insertOne e.1 e.2)).1.get? id = some d := by
        rw [Collection.exec, Collection.insert]
        cases he : c.get? e.1 with
        | some w => exact hd
        | none =>
            refine (OrderedMap.get?_set_of_ne c e.2 ?_).trans hd
            rintro rfl
            rw [he] at hd
            cases hd
      rw [List.map_cons, performOps]
      split
      · exact hstep
      · exact ih _ hstep

/-- A list of inserts keeps a property exactly if each that is carried out does. -/
theorem related_inserts_iff (hrefl : ∀ d, P (some d) d) (ordered : Bool) :
    ∀ (docs : List (String × Document)) (c : Collection),
      Collection.Related P c (performOps ordered (docs.map fun e => .insertOne e.1 e.2) c) ↔
        AllOps (fun e => Op.insertOne e.1 e.2) (fun c e => c.get? e.1 = none → P none e.2)
          ordered docs c := by
  intro docs
  induction docs with
  | nil =>
      intro c
      refine iff_of_true ?_ trivial
      intro id d hd
      rw [show c.get? id = some d from hd]
      exact hrefl d
  | cons e docs ih =>
      intro c
      rw [List.map_cons, performOps, AllOps]
      cases he : c.get? e.1 with
      | some w =>
          have hexec : c.exec ((Op.insertOne e.1 e.2).write c) = (c, false) := by
            rw [Op.write, Collection.exec, Collection.insert, he]
          rw [hexec]
          cases ordered with
          | true =>
              refine iff_of_true ?_ ⟨by simp, by simp⟩
              intro id d hd
              rw [show c.get? id = some d from hd]
              exact hrefl d
          | false => simpa using ih c
      | none =>
          have hexec : c.exec ((Op.insertOne e.1 e.2).write c) = (c.set e.1 e.2, true) := by
            rw [Op.write, Collection.exec, Collection.insert, he]
          rw [hexec, if_neg (by simp)]
          have hstay := get?_performOps_inserts ordered docs _ (OrderedMap.get?_set_self c e.1 e.2)
          have hother : ∀ {id : String}, id ≠ e.1 → (c.set e.1 e.2).get? id = c.get? id :=
            fun hid => OrderedMap.get?_set_of_ne c e.2 hid
          have hset : ∀ c', Collection.Related P c c' → c'.get? e.1 = some e.2 →
              Collection.Related P (c.set e.1 e.2) c' := by
            intro c' h hc' id d hd
            by_cases hid : id = e.1
            · rw [hid] at hd ⊢
              rw [hc'] at hd
              rw [OrderedMap.get?_set_self, hd]
              exact hrefl d
            · rw [hother hid]
              exact h id d hd
          constructor
          · intro h
            refine ⟨fun _ => ?_, fun _ => (ih _).mp (hset _ h hstay)⟩
            have hnew := h e.1 e.2 hstay
            rwa [he] at hnew
          · rintro ⟨hnew, hrest⟩ id d hd
            have hrel := (ih _).mpr (hrest (by simp))
            by_cases hid : id = e.1
            · rw [hid] at hd ⊢
              rw [hstay] at hd
              rw [he, ← Option.some.inj hd]
              exact hnew rfl
            · rw [← hother hid]
              exact hrel id d hd

/-- A single operation is all there is to keep. -/
theorem performOps_singleton (ordered : Bool) (op : Op) (c : Collection) :
    performOps ordered [op] c = (c.exec (op.write c)).1 := by
  rw [performOps]
  split <;> rfl

/-- What each operation keeps exactly under a condition, all collections that the
    list goes through have exactly where every operation meets it. -/
theorem through_iff {Q : Collection → Prop} {ordered : Bool} :
    ∀ (ops : List α), (∀ c, ∀ op ∈ ops, Q c →
      (Q (c.exec ((f op).write c)).1 ↔ C c op)) →
    ∀ c, Q c →
      ((∀ c' ∈ throughOps ordered (ops.map f) c, Q c') ↔ AllOps f C ordered ops c) := by
  intro ops
  induction ops with
  | nil => exact fun _ _ _ => iff_of_true (by simp [throughOps]) trivial
  | cons op ops ih =>
      intro hstep c hc
      have hfirst := hstep c op List.mem_cons_self hc
      rw [List.map_cons, throughOps, List.forall_mem_cons, AllOps, hfirst]
      refine and_congr_right fun hop => ?_
      have hnext := hfirst.mpr hop
      by_cases hstop : (ordered && !(c.exec ((f op).write c)).2) = true
      · rw [if_pos hstop]
        refine iff_of_true (by simp) ?_
        intro hgo
        rw [hstop] at hgo
        cases hgo
      · rw [if_neg hstop]
        rw [ih (fun c op hmem => hstep c op (List.mem_cons_of_mem _ hmem)) _ hnext]
        exact ⟨fun h _ => h, fun h => h (eq_false_of_ne_true hstop)⟩

theorem performOps_of_through {Q : Collection → Prop} {ordered : Bool} :
    ∀ (ops : List Op) (c : Collection), Q c → (∀ c' ∈ throughOps ordered ops c, Q c') →
      Q (performOps ordered ops c) := by
  intro ops
  induction ops with
  | nil => exact fun _ hc _ => hc
  | cons op ops ih =>
      intro c _ hall
      rw [throughOps, List.forall_mem_cons] at hall
      rw [performOps]
      split
      · exact hall.1
      · next hgo =>
          rw [if_neg hgo] at hall
          exact ih _ hall.1 hall.2

theorem allOps_congr {C' : Collection → α → Prop} {ordered : Bool} {ops : List α} :
    (∀ c, ∀ op ∈ ops, C c op ↔ C' c op) →
      ∀ c, AllOps f C ordered ops c ↔ AllOps f C' ordered ops c := by
  induction ops with
  | nil => exact fun _ _ => Iff.rfl
  | cons op ops ih =>
      intro h c
      rw [AllOps, AllOps, h c op List.mem_cons_self,
        ih (fun c op hop => h c op (List.mem_cons_of_mem _ hop))]

theorem allOps_singleton {ordered : Bool} {op : α} {c : Collection} :
    AllOps f C ordered [op] c ↔ C c op := by
  simp [AllOps]

end Lists

end Mongoose
