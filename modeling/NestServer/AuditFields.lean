import NestServer.Mongoose

/-! # Who created and who updated

    `mongoose-audit-fields.plugin.ts`: hooks that put the current user into the documents
    of a write.  `trail` says what `createdBy` and `updatedBy` tell after a run of writes. -/

namespace AuditFields

open Mongo Mongoose

/-! ## The plugin -/

structure Schema where
  hasCreatedBy : Bool
  hasUpdatedBy : Bool
deriving DecidableEq

/-- `!!d.createdBy` -/
def hasAuthor (d : Document) : Bool := (d.get? "createdBy").any Value.truthy

variable (schema : Schema) (user : String)

/-- A document that is new. -/
def stamp (d : Document) : Document :=
  let d := if schema.hasCreatedBy && !hasAuthor d then d.set "createdBy" (.str user) else d
  if schema.hasUpdatedBy then d.set "updatedBy" (.str user) else d

/-- A replacement: it need not be new. -/
def stampReplacement (d : Document) : Document :=
  let d := if schema.hasUpdatedBy then d.set "updatedBy" (.str user) else d
  if schema.hasCreatedBy && !hasAuthor d then d.set "createdBy" (.str user) else d

/-- `updatedBy` of an update document.  A `$set` that is empty changes nothing, with the
    field in it or not. -/
def signUpdate (u : UpdateQuery) : UpdateQuery :=
  { u with
    plain := u.plain.set "updatedBy" (.str user)
    set   := if u.set.entries = [] then u.set else u.set.set "updatedBy" (.str user) }

/-- `createdBy`, for an upsert. -/
def authorUpdate (u : UpdateQuery) : UpdateQuery :=
  if !hasAuthor u.plain && !hasAuthor u.set && !hasAuthor u.setOnInsert then
    { u with setOnInsert := u.setOnInsert.set "createdBy" (.str user) }
  else u

def stampUpdate (u : UpdateQuery) : UpdateQuery :=
  let u := if schema.hasUpdatedBy then signUpdate user u else u
  if schema.hasCreatedBy then authorUpdate user u else u

/-- A pipeline is an array, where the fields are lost. -/
def stampArgument : UpdateArgument → UpdateArgument
  | .document u => .document (stampUpdate schema user u)
  | .pipeline f => .pipeline f

def stampQuery : QueryOp → QueryOp
  | .updateOne filter sort u upsert  => .updateOne filter sort (stampArgument schema user u) upsert
  | .updateMany filter u upsert      => .updateMany filter (stampArgument schema user u) upsert
  | .replaceOne filter sort d upsert =>
      .replaceOne filter sort (stampReplacement schema user d) upsert
  | .deleteOne filter sort           => .deleteOne filter sort
  | .deleteMany filter               => .deleteMany filter

def stampOp : Op → Op
  | .insertOne id d => .insertOne id (stamp schema user d)
  | .query q        => .query (stampQuery schema user q)

/-- The write that goes on to the store.  The hooks of the queries are there only with
    `updatedBy`, that of `bulkWrite` with either field. -/
def mongooseAuditFieldsPlugin (currentUser : Option String) (w : ModelWrite) : ModelWrite :=
  match currentUser with
  | none      => w
  | some user =>
      if user = "" then w
      else match w with
        | .create id d modified                  => .create id (stamp schema user d) modified
        | .save id d modified elements           =>
            if schema.hasUpdatedBy then
              -- an assignment marks the field if it changes it
              .save id (d.set "updatedBy" (.str user))
                (if d.get? "updatedBy" = some (.str user) || modified.contains "updatedBy" then
                  modified
                else modified ++ ["updatedBy"]) elements
            else .save id d modified elements
        | .insertMany ordered (.array docs)      =>
            .insertMany ordered (.array (docs.map fun e => (e.1, stamp schema user e.2)))
        | .insertMany ordered (.single id d)     => .insertMany ordered (.single id d)
        | .query q                               =>
            if schema.hasUpdatedBy then .query (stampQuery schema user q) else .query q
        | .bulkWrite ordered ops                 =>
            .bulkWrite ordered (ops.map (stampOp schema user))

/-! ## What a write brings along -/

/-- The write says itself who the author is. -/
def UpdateArgument.suppliesAuthor : UpdateArgument → Bool
  | .document u => hasAuthor u.plain || hasAuthor u.set || hasAuthor u.setOnInsert
  | .pipeline _ => true

def Op.suppliesAuthor : Op → Bool
  | .insertOne _ d               => hasAuthor d
  | .query (.updateOne _ _ u _)  => UpdateArgument.suppliesAuthor u
  | .query (.updateMany _ u _)   => UpdateArgument.suppliesAuthor u
  | .query (.replaceOne _ _ d _) => hasAuthor d
  | .query (.deleteOne _ _)      => false
  | .query (.deleteMany _)       => false

def ModelWrite.suppliesAuthor : ModelWrite → Bool
  | .save _ _ modified elements =>
      modified.contains "createdBy" || (elements.get? "createdBy").isSome
  | w                           => w.ops.2.any Op.suppliesAuthor

/-- An update with an author in `$set` only has none to take its place. -/
def UpdateArgument.covered : UpdateArgument → Bool
  | .document u => !hasAuthor u.set || hasAuthor u.plain || (u.plain.get? "createdBy").isNone
  | .pipeline _ => false

def Op.covered : Op → Bool
  | .query (.updateOne _ _ u _) => UpdateArgument.covered u
  | .query (.updateMany _ u _)  => UpdateArgument.covered u
  | _                           => true

/-- The hooks find the documents of the write: it is no pipeline and no list of one
    document, and a document that is saved has not been changed by somebody else if the
    user is the one who had updated it before. -/
def Covered (c : Collection) : ModelWrite → Prop
  | .create _ _ _                => True
  | .save id d modified _        =>
      (modified.contains "createdBy" = true → hasAuthor d = true) ∧
      (d.get? "updatedBy" = some (.str user) → modified.contains "updatedBy" = false →
        ∀ stored, c.get? id = some stored → stored.get? "updatedBy" = some (.str user))
  | .insertMany _ (.array _)     => True
  | .insertMany _ (.single _ _)  => False
  | .query q                     =>
      (schema.hasUpdatedBy = true ∨ schema.hasCreatedBy = false) ∧ Op.covered (.query q) = true
  | .bulkWrite _ ops             => ∀ op ∈ ops, Op.covered op = true

/-- What a write leaves of each document: the user has updated it, or it is as it was; it
    has an author if it had one, or is new; and the author is the one before, or the user,
    if the write does not bring one. -/
structure Audited (supplied : Bool) (old : Option Document) (new : Document) : Prop where
  signed   : schema.hasUpdatedBy = true → old = some new ∨ new.get? "updatedBy" = some (.str user)
  authored : schema.hasCreatedBy = true → (∀ d, old = some d → hasAuthor d = true) →
    hasAuthor new = true
  kept     : schema.hasCreatedBy = true → supplied = false →
    new.get? "createdBy" = some (.str user) ∨
      ∃ d, old = some d ∧ new.get? "createdBy" = d.get? "createdBy"

variable {schema user} {supplied : Bool}

theorem audited_refl (d : Document) : Audited schema user supplied (some d) d where
  signed   := fun _ => .inl rfl
  authored := fun _ h => h d rfl
  kept     := fun _ _ => .inr ⟨d, rfl, rfl⟩

theorem Audited.trans {o : Option Document} {d d' : Document}
    (h : Audited schema user supplied o d) (h' : Audited schema user supplied (some d) d') :
    Audited schema user supplied o d' where
  signed := by
    intro hup
    rcases h'.signed hup with hsame | hsigned
    · cases hsame
      exact h.signed hup
    · exact .inr hsigned
  authored := by
    intro hcreated hall
    refine h'.authored hcreated fun d'' hd => ?_
    cases hd
    exact h.authored hcreated hall
  kept := by
    intro hcreated hfree
    rcases h'.kept hcreated hfree with huser | ⟨d'', hd, hsame⟩
    · exact .inl huser
    · cases hd
      rw [hsame]
      exact h.kept hcreated hfree

/-- A document that is made again counts as one that is made. -/
theorem Audited.of_none {d : Document} (h : Audited schema user supplied none d)
    (o : Option Document) : Audited schema user supplied o d where
  signed := fun hup => .inr ((h.signed hup).resolve_left (by rintro ⟨⟩))
  authored := fun hcreated _ => h.authored hcreated (by rintro d ⟨⟩)
  kept := fun hcreated hfree => .inl ((h.kept hcreated hfree).resolve_right (by rintro ⟨d, ⟨⟩, -⟩))

/-! ## Documents and updates -/

theorem get?_createdBy_set (d : Document) (v : Value) :
    (d.set "updatedBy" v).get? "createdBy" = d.get? "createdBy" :=
  OrderedMap.get?_set_of_ne d v (by decide)

theorem get?_updatedBy_set (d : Document) (v : Value) :
    (d.set "createdBy" v).get? "updatedBy" = d.get? "updatedBy" :=
  OrderedMap.get?_set_of_ne d v (by decide)

theorem hasAuthor_of_get? {d : Document} (huser : user ≠ "")
    (h : d.get? "createdBy" = some (.str user)) : hasAuthor d = true := by
  rw [hasAuthor, h]
  exact decide_eq_true huser

/-- What both kinds of stamps have in common. -/
structure Stamped (schema : Schema) (user : String) (d new : Document) : Prop where
  updatedBy : schema.hasUpdatedBy = true → new.get? "updatedBy" = some (.str user)
  createdBy : schema.hasCreatedBy = true → new.get? "createdBy"
    = if hasAuthor d then d.get? "createdBy" else some (.str user)

theorem stamped_stamp (d : Document) : Stamped schema user d (stamp schema user d) := by
  have hcreated : ∀ new, schema.hasCreatedBy = true →
      new = (if schema.hasCreatedBy && !hasAuthor d then d.set "createdBy" (.str user) else d) →
        new.get? "createdBy" = if hasAuthor d then d.get? "createdBy" else some (.str user) := by
    rintro new hschema rfl
    rw [hschema]
    cases hasAuthor d with
    | true  => rfl
    | false => exact OrderedMap.get?_set_self ..
  refine ⟨fun hup => ?_, fun hschema => ?_⟩
  · rw [stamp, hup]
    exact OrderedMap.get?_set_self ..
  · rw [stamp]
    split
    · rw [get?_createdBy_set]
      exact hcreated _ hschema rfl
    · exact hcreated _ hschema rfl

theorem stamped_stampReplacement (d : Document) :
    Stamped schema user d (stampReplacement schema user d) := by
  have hsame : ∀ d', d'.get? "createdBy" = d.get? "createdBy" → hasAuthor d' = hasAuthor d := by
    intro d' h
    rw [hasAuthor, h, hasAuthor]
  have hkeep : (if schema.hasUpdatedBy then d.set "updatedBy" (.str user) else d).get? "createdBy"
      = d.get? "createdBy" := by
    split
    · exact get?_createdBy_set d _
    · rfl
  refine ⟨fun hup => ?_, fun hschema => ?_⟩
  · rw [stampReplacement, hup]
    rw [if_pos rfl]
    split
    · rw [get?_updatedBy_set]
      exact OrderedMap.get?_set_self ..
    · exact OrderedMap.get?_set_self ..
  · rw [stampReplacement]
    rw [hsame _ hkeep, hschema]
    cases hasAuthor d with
    | true  => exact hkeep
    | false => exact OrderedMap.get?_set_self ..

/-- A document that is put in the place of another one, or of none. -/
theorem Stamped.audited {d new : Document} (h : Stamped schema user d new) (huser : user ≠ "")
    (hsupplied : hasAuthor d = true → supplied = true) (old : Option Document) :
    Audited schema user supplied old new where
  signed   := fun hup => .inr (h.updatedBy hup)
  authored := by
    intro hcreated _
    have hget := h.createdBy hcreated
    by_cases hd : hasAuthor d = true
    · rw [if_pos hd] at hget
      rw [hasAuthor, hget]
      exact hd
    · rw [if_neg hd] at hget
      exact hasAuthor_of_get? huser hget
  kept     := by
    intro hcreated hfree
    have hget := h.createdBy hcreated
    rw [if_neg fun hd => absurd ((hsupplied hd).symm.trans hfree) (by decide)] at hget
    exact .inl hget

theorem assigned_signUpdate (u : UpdateQuery) :
    ((signUpdate user u).set.spread (signUpdate user u).plain).get? "updatedBy"
        = some (.str user) ∧
      ((signUpdate user u).set.spread (signUpdate user u).plain).get? "createdBy"
        = (u.set.spread u.plain).get? "createdBy" := by
  rw [OrderedMap.get?_spread, OrderedMap.get?_spread, OrderedMap.get?_spread, signUpdate]
  refine ⟨?_, ?_⟩
  · rw [OrderedMap.get?_set_self, Option.some_or]
  · rw [get?_createdBy_set]
    dsimp only
    split
    · rfl
    · rw [get?_createdBy_set]

theorem suppliesAuthor_signUpdate (u : UpdateQuery) :
    UpdateArgument.suppliesAuthor (.document (signUpdate user u))
      = UpdateArgument.suppliesAuthor (.document u) := by
  have hset : hasAuthor (signUpdate user u).set = hasAuthor u.set := by
    rw [signUpdate]
    dsimp only
    split
    · rfl
    · rw [hasAuthor, get?_createdBy_set, hasAuthor]
  have hplain : hasAuthor (signUpdate user u).plain = hasAuthor u.plain := by
    rw [signUpdate, hasAuthor, get?_createdBy_set, hasAuthor]
  rw [UpdateArgument.suppliesAuthor, hset, hplain]
  rfl

theorem authorUpdate_eq (u : UpdateQuery) :
    authorUpdate user u = if UpdateArgument.suppliesAuthor (.document u) then u
      else { u with setOnInsert := u.setOnInsert.set "createdBy" (.str user) } := by
  rw [authorUpdate, UpdateArgument.suppliesAuthor]
  cases hasAuthor u.plain <;> cases hasAuthor u.set <;> cases hasAuthor u.setOnInsert <;> rfl

/-- What an update that is stamped assigns. -/
theorem assigned_stampUpdate (u : UpdateQuery) :
    (schema.hasUpdatedBy = true → ((stampUpdate schema user u).set.spread
      (stampUpdate schema user u).plain).get? "updatedBy" = some (.str user)) ∧
    ((stampUpdate schema user u).set.spread (stampUpdate schema user u).plain).get? "createdBy"
      = (u.set.spread u.plain).get? "createdBy" := by
  have hauthor : ∀ v : UpdateQuery,
      (if schema.hasCreatedBy then authorUpdate user v else v).set.spread
        (if schema.hasCreatedBy then authorUpdate user v else v).plain = v.set.spread v.plain := by
    intro v
    split
    · rw [authorUpdate]
      split <;> rfl
    · rfl
  rw [stampUpdate, hauthor]
  cases schema.hasUpdatedBy with
  | false => exact ⟨by rintro ⟨⟩, rfl⟩
  | true  => exact ⟨fun _ => (assigned_signUpdate u).1, (assigned_signUpdate u).2⟩

theorem setOnInsert_stampUpdate (hschema : schema.hasCreatedBy = true) (u : UpdateQuery) :
    (stampUpdate schema user u).setOnInsert
      = if UpdateArgument.suppliesAuthor (.document u) then u.setOnInsert
        else u.setOnInsert.set "createdBy" (.str user) := by
  rw [stampUpdate, hschema, if_pos rfl, authorUpdate_eq]
  have hsign : ∀ b : Bool, UpdateArgument.suppliesAuthor
      (.document (if b then signUpdate user u else u)) =
        UpdateArgument.suppliesAuthor (.document u) ∧
        (if b then signUpdate user u else u).setOnInsert = u.setOnInsert := by
    intro b
    cases b with
    | true  => exact ⟨suppliesAuthor_signUpdate u, rfl⟩
    | false => exact ⟨rfl, rfl⟩
  rw [(hsign _).1]
  split
  · exact (hsign _).2
  · rw [(hsign _).2]

/-- An author for an insert. -/
theorem insert_stampUpdate {u : UpdateQuery} (huser : user ≠ "")
    (hschema : schema.hasCreatedBy = true) (hplain : hasAuthor u.plain = false)
    (hset : hasAuthor u.set = false) : ∃ v, v.truthy = true ∧
      (stampUpdate schema user u).setOnInsert.get? "createdBy" = some v ∧
      (UpdateArgument.suppliesAuthor (.document u) = false → v = .str user) := by
  rw [setOnInsert_stampUpdate hschema, UpdateArgument.suppliesAuthor, hplain, hset]
  cases hinsert : hasAuthor u.setOnInsert with
  | false => exact ⟨.str user, decide_eq_true huser, OrderedMap.get?_set_self .., fun _ => rfl⟩
  | true  =>
      rw [hasAuthor] at hinsert
      cases hv : u.setOnInsert.get? "createdBy" with
      | none   =>
          rw [hv] at hinsert
          cases hinsert
      | some v =>
          rw [hv] at hinsert
          exact ⟨v, hinsert, hv, by rintro ⟨⟩⟩

/-- An author in `u.set` or `u.plain` counts as one in what they assign. -/
theorem hasAuthor_assigned {u : UpdateQuery} {w : Value}
    (hw : (u.set.spread u.plain).get? "createdBy" = some w) :
    (u.plain.get? "createdBy" = none ∧ hasAuthor u.plain = false ∧ hasAuthor u.set = w.truthy) ∨
      ((u.plain.get? "createdBy").isNone = false ∧ hasAuthor u.plain = w.truthy) := by
  rw [OrderedMap.get?_spread] at hw
  cases hp : u.plain.get? "createdBy" with
  | none   =>
      rw [hp, Option.none_or] at hw
      exact .inl ⟨rfl, by rw [hasAuthor, hp]; rfl, by rw [hasAuthor, hw]; rfl⟩
  | some p =>
      rw [hp, Option.some_or] at hw
      exact .inr ⟨rfl, by rw [hasAuthor, hp, hw]; rfl⟩

/-- The author after a stamped update is assigned, or left to the insert. -/
theorem author_update {u : UpdateQuery} (hcovered : UpdateArgument.covered (.document u) = true)
    (huser : user ≠ "") (hschema : schema.hasCreatedBy = true) {isInsert : Bool}
    {start new : Document} (happly : (stampUpdate schema user u).apply isInsert start = some new) :
    (hasAuthor new = true ∧ UpdateArgument.suppliesAuthor (.document u) = true) ∨
      ∃ v, v.truthy = true ∧ new.get? "createdBy"
          = (if isInsert then some v else start.get? "createdBy") ∧
        (UpdateArgument.suppliesAuthor (.document u) = false → v = .str user) := by
  have hnd := UpdateQuery.nodup_of_apply happly
  have hvalue := UpdateQuery.get?_apply happly "createdBy"
  have hassigned := (@assigned_stampUpdate schema user u).2
  cases hw : (u.set.spread u.plain).get? "createdBy" with
  | none =>
      have hmerged := OrderedMap.get?_spread u.set u.plain "createdBy"
      rw [hw, eq_comm, Option.or_eq_none_iff] at hmerged
      obtain ⟨v, htruthy, hv, huserv⟩ := insert_stampUpdate huser hschema
        (by rw [hasAuthor, hmerged.1]; rfl) (by rw [hasAuthor, hmerged.2]; rfl)
      rw [UpdateQuery.valueAfter_setOnInsert hnd hv] at hvalue
      exact .inr ⟨v, htruthy, Option.some.inj hvalue, huserv⟩
  | some w =>
      have hauthor := hasAuthor_assigned hw
      rw [UpdateQuery.valueAfter_assigned hnd (hassigned.trans hw)] at hvalue
      cases htruthy : w.truthy with
      | true =>
          rw [htruthy] at hauthor
          refine .inl ⟨by rw [hasAuthor, Option.some.inj hvalue]; exact htruthy, ?_⟩
          rw [UpdateArgument.suppliesAuthor, Bool.or_eq_true, Bool.or_eq_true]
          exact .inl (hauthor.elim (fun h => .inr h.2.2) fun h => .inl h.2)
      | false =>
          -- the store refuses the field in two places
          rw [htruthy] at hauthor
          have hblank : hasAuthor u.plain = false ∧ hasAuthor u.set = false := by
            rcases hauthor with ⟨-, hplain, hset⟩ | ⟨hsome, hplain⟩
            · exact ⟨hplain, hset⟩
            · rw [UpdateArgument.covered, hplain, hsome, Bool.or_false, Bool.or_false,
                Bool.not_eq_true'] at hcovered
              exact ⟨hplain, hcovered⟩
          obtain ⟨v, -, hv, -⟩ := insert_stampUpdate huser hschema hblank.1 hblank.2
          rw [UpdateQuery.setOnInsert_of_assigned hnd (hassigned.trans hw)] at hv
          cases hv

/-- A document that a stamped update makes. -/
theorem audited_update {u : UpdateQuery} (hcovered : UpdateArgument.covered (.document u) = true)
    (huser : user ≠ "") {old : Option Document} {start new : Document}
    (happly : (stampUpdate schema user u).apply old.isNone start = some new)
    (hold : old = some start ∨ old = none)
    (hsupplied : UpdateArgument.suppliesAuthor (.document u) = true → supplied = true) :
    Audited schema user supplied old new := by
  have hauthor : schema.hasCreatedBy = true → _ :=
    fun hschema => author_update hcovered huser hschema happly
  refine ⟨fun hup => .inr ?_, fun hschema hall => ?_, fun hschema hfree => ?_⟩
  · have hvalue := UpdateQuery.get?_apply happly "updatedBy"
    rw [UpdateQuery.valueAfter_assigned (UpdateQuery.nodup_of_apply happly)
      ((assigned_stampUpdate u).1 hup)] at hvalue
    exact Option.some.inj hvalue
  · rcases hauthor hschema with ⟨hnew, -⟩ | ⟨v, htruthy, hnew, -⟩
    · exact hnew
    · rw [hasAuthor, hnew]
      rcases hold with rfl | rfl
      · exact hall start rfl
      · exact htruthy
  · rcases hauthor hschema with ⟨-, hbrings⟩ | ⟨v, -, hnew, huserv⟩
    · rw [hsupplied hbrings] at hfree
      cases hfree
    · have hnot : UpdateArgument.suppliesAuthor (.document u) = false :=
        Bool.eq_false_iff.mpr fun hbrings => by
          rw [hsupplied hbrings] at hfree
          cases hfree
      rw [huserv hnot] at hnew
      rcases hold with rfl | rfl
      · exact .inr ⟨start, rfl, hnew⟩
      · exact .inl hnew

/-! ## Operations -/

theorem Op.covered_update {u : UpdateArgument} (h : UpdateArgument.covered u = true) :
    ∃ v, u = .document v := by
  cases u with
  | document v => exact ⟨v, rfl⟩
  | pipeline f => cases h

/-- **One operation** and the documents it makes. -/
theorem audited_op {op : Op} (hcovered : Op.covered op = true) (huser : user ≠ "")
    (hsupplied : Op.suppliesAuthor op = true → supplied = true) (c : Collection) :
    Collection.Related (Audited schema user supplied) c
      (c.exec ((stampOp schema user op).write c)).1 := by
  refine (Collection.exec_iff audited_refl _).mpr fun e he => ?_
  cases op with
  | insertOne id d =>
      rw [(effects_insertOne he).1]
      exact (stamped_stamp d).audited huser hsupplied none
  | query q =>
      cases q with
      | updateOne filter sort u upsert =>
          obtain ⟨v, rfl⟩ := Op.covered_update hcovered
          obtain ⟨happly, hold⟩ := effects_updateOne he
          exact audited_update hcovered huser happly hold hsupplied
      | updateMany filter u upsert =>
          obtain ⟨v, rfl⟩ := Op.covered_update hcovered
          obtain ⟨happly, hold⟩ := effects_updateMany he
          exact audited_update hcovered huser happly hold hsupplied
      | replaceOne filter sort d upsert =>
          rw [(effects_replaceOne he).1]
          exact (stamped_stampReplacement d).audited huser hsupplied e.old
      | deleteOne filter sort => cases he
      | deleteMany filter     => cases he

/-! ## A document that is saved -/

/-- What is saved takes the place of the document with its id. -/
theorem stored_of_save {c : Collection} {id : String} {d : Document} {modified : List String}
    {elements : OrderedMap String (List Nat)} {q : QueryOp} {e : Effect}
    (hq : q ∈ saveOps id d modified elements) (he : e ∈ c.effects (q.write c)) :
    c.get? id = some e.start := by
  have hold := (effects_save hq he).2
  rw [saveOps] at hq
  split at hq
  · cases hq
  · cases List.mem_singleton.mp hq
    rw [QueryOp.write, Collection.effects] at he
    obtain ⟨-, ⟨hrows, -⟩ | ⟨-, hnone, -⟩⟩ := mem_updateEffects he
    · cases hc : c.chosen (byId id) fun _ _ => true with
      | none =>
          rw [hc] at hrows
          exact absurd rfl hrows
      | some row =>
          obtain ⟨hrow, haccepts⟩ := Collection.mem_selected.mp (Collection.chosen_mem hc)
          have hid := FilterQuery.holds_of_accepts (OrderedMap.get?_set_self _ "_id" _) haccepts
          have hkey : row.1 = id := by simpa [Condition.holds, fieldOf, Value.matchedBy] using hid
          rw [hc] at he
          obtain ⟨r, hr, hmade⟩ := List.mem_filterMap.mp he
          obtain ⟨_, -, rfl⟩ := Option.map_eq_some_iff.mp hmade
          have hone := List.mem_singleton.mp ((List.takeWhile_sublist _).subset hr)
          rw [← hkey, hone]
          exact hrow
    · rw [hold] at hnone
      cases hnone

/-- What `save` makes of a field that it does not write, or writes as a whole. -/
theorem get?_save {c : Collection} {id : String} {d : Document} {modified : List String}
    {elements : OrderedMap String (List Nat)} {q : QueryOp} {e : Effect}
    (hq : q ∈ saveOps id d modified elements) (he : e ∈ c.effects (q.write c)) (k : String) :
    if modified.contains k then e.new.get? k = d.get? k
    else match elements.get? k with
      | some places => some (e.new.get? k) = setElements (d.get? k) places (e.start.get? k)
      | none        => e.new.get? k = e.start.get? k := by
  have hvalue := UpdateQuery.get?_apply (effects_save hq he).1 k
  split
  · next hm =>
    rw [valueAfter_delta_marked hm] at hvalue
    exact Option.some.inj hvalue
  · next hm =>
    rw [valueAfter_delta (Bool.eq_false_iff.mpr hm)] at hvalue
    cases hplaces : elements.get? k with
    | some places =>
        rw [hplaces] at hvalue
        exact hvalue
    | none =>
        rw [hplaces] at hvalue
        exact Option.some.inj hvalue

/-- Elements are written of an array. -/
theorem setElements_list {inMemory old new : Option Value} {places : List Nat}
    (h : some new = setElements inMemory places old) :
    (∃ vs, inMemory = some (.list vs)) ∧ ∃ vs, new = some (.list vs) := by
  rw [setElements.eq_def] at h
  split at h
  · split at h
    · next ws => exact ⟨⟨ws, rfl⟩, _, Option.some.inj h⟩
    · cases h
  · cases h

theorem audited_save {c : Collection} {id : String} {d : Document} {modified : List String}
    {elements : OrderedMap String (List Nat)}
    (hcovered : Covered schema user c (.save id d modified elements))
    (hsupplied : ModelWrite.suppliesAuthor (.save id d modified elements) = true → supplied = true)
    {d' : Document} {modified' : List String}
    (hcreatedBy : d'.get? "createdBy" = d.get? "createdBy" ∧
      modified'.contains "createdBy" = modified.contains "createdBy")
    (hupdatedBy : schema.hasUpdatedBy = true → d'.get? "updatedBy" = some (.str user) ∧
      (modified'.contains "updatedBy" = false →
        d.get? "updatedBy" = some (.str user) ∧ modified.contains "updatedBy" = false))
    {q : QueryOp} (hq : q ∈ saveOps id d' modified' elements) :
    Collection.Related (Audited schema user supplied) c (c.exec (q.write c)).1 := by
  refine (Collection.exec_iff audited_refl _).mpr fun e he => ?_
  have hstart := stored_of_save hq he
  have hold := (effects_save hq he).2
  have hauthor := get?_save hq he "createdBy"
  rw [hcreatedBy.1, hcreatedBy.2] at hauthor
  refine ⟨fun hup => .inr ?_, fun hschema hall => ?_, fun hschema hfree => ?_⟩
  · obtain ⟨hmemory, hunmarked⟩ := hupdatedBy hup
    have hvalue := get?_save hq he "updatedBy"
    split at hvalue
    · exact hvalue.trans hmemory
    · next hm =>
      obtain ⟨hsame, hm'⟩ := hunmarked (Bool.eq_false_iff.mpr hm)
      split at hvalue
      · obtain ⟨⟨vs, hlist⟩, -⟩ := setElements_list hvalue
        rw [hmemory] at hlist
        cases hlist
      · -- it is in the store as it was read
        exact hvalue.trans (hcovered.2 hsame hm' e.start hstart)
  · rw [hasAuthor]
    split at hauthor
    · next hm =>
      rw [hauthor]
      exact hcovered.1 hm
    · split at hauthor
      · obtain ⟨-, vs, hlist⟩ := setElements_list hauthor
        rw [hlist]
        rfl
      · rw [hauthor]
        exact hall e.start hold
  · have hnot : modified.contains "createdBy" = false ∧ elements.get? "createdBy" = none := by
      cases hm : ModelWrite.suppliesAuthor (.save id d modified elements) with
      | true  =>
          rw [hsupplied hm] at hfree
          cases hfree
      | false =>
          rw [ModelWrite.suppliesAuthor, Bool.or_eq_false_iff, Option.isSome_eq_false_iff,
            Option.isNone_iff_eq_none] at hm
          exact hm
    rw [if_neg (by rw [hnot.1]; decide), hnot.2] at hauthor
    exact .inr ⟨e.start, hold, hauthor⟩

/-! ## Writes -/

theorem related_ops {ordered : Bool} {ops : List Op} {c : Collection}
    (h : ∀ c, ∀ op ∈ ops, Collection.Related (Audited schema user supplied) c
      (c.exec ((stampOp schema user op).write c)).1) :
    Collection.Related (Audited schema user supplied) c
      (performOps ordered (ops.map (stampOp schema user)) c) := by
  have hall : ∀ (ops : List Op) (c : Collection),
      AllOps (stampOp schema user) (fun _ _ => True) ordered ops c := by
    intro ops
    induction ops with
    | nil => exact fun _ => trivial
    | cons op ops ih => exact fun c => ⟨trivial, fun _ => ih _⟩
  exact related_performOps audited_refl (fun _ _ _ => Audited.trans)
    (fun o _ hnone => hnone.of_none o) ordered ops (fun c op hop _ => h c op hop) c (hall ops c)

theorem related_one {op : Op} {c : Collection}
    (h : Collection.Related (Audited schema user supplied) c (c.exec (op.write c)).1)
    (ordered : Bool) :
    Collection.Related (Audited schema user supplied) c (performOps ordered [op] c) := by
  rw [performOps_singleton]
  exact h

/-- A document that is saved is one operation, or none. -/
theorem related_save {id : String} {d : Document} {modified : List String}
    {elements : OrderedMap String (List Nat)} {c : Collection}
    (h : ∀ q ∈ saveOps id d modified elements,
      Collection.Related (Audited schema user supplied) c (c.exec (q.write c)).1) :
    Collection.Related (Audited schema user supplied) c
      ((ModelWrite.save id d modified elements).perform c) := by
  rw [ModelWrite.perform, ModelWrite.ops]
  cases hops : saveOps id d modified elements with
  | nil =>
      intro id d hd
      rw [show c.get? id = some d from hd]
      exact audited_refl d
  | cons q qs =>
      have hone : qs = [] := by
        rw [saveOps] at hops
        split at hops
        · cases hops
        · exact (List.cons.inj hops).2.symm
      rw [hone]
      exact related_one (h q (by rw [hops]; exact List.mem_cons_self)) true

/-- Without the fields there is nothing to say. -/
theorem audited_without (hcreated : schema.hasCreatedBy = false)
    (hupdated : schema.hasUpdatedBy = false) (old : Option Document) (new : Document) :
    Audited schema user supplied old new where
  signed   := fun h => absurd (hupdated.symm.trans h) (by decide)
  authored := fun h => absurd (hcreated.symm.trans h) (by decide)
  kept     := fun h => absurd (hcreated.symm.trans h) (by decide)

/-- **One write** with its hooks. -/
theorem audited_write {w : ModelWrite} {c : Collection} (huser : user ≠ "")
    (hcovered : Covered schema user c w) :
    Collection.Related (Audited schema user (ModelWrite.suppliesAuthor w)) c
      ((mongooseAuditFieldsPlugin schema (some user) w).perform c) := by
  rw [mongooseAuditFieldsPlugin.eq_def]
  dsimp only
  rw [if_neg huser]
  cases w with
  | create id d modified =>
      refine related_one ?_ true
      exact @audited_op _ _ _ (.insertOne id d) rfl huser
        (fun h => List.any_eq_true.mpr ⟨_, List.mem_cons_self, h⟩) c
  | save id d modified elements =>
      dsimp only
      split
      · refine related_save fun q hq => audited_save hcovered (fun h => h) ⟨get?_createdBy_set d _, ?_⟩
          (fun _ => ⟨OrderedMap.get?_set_self .., fun hunmarked => ?_⟩) hq
        · split
          · rfl
          · rw [List.contains_append]
            exact (congrArg _ (by decide)).trans (Bool.or_false _)
        · split at hunmarked
          · next hkeep =>
            rw [hunmarked, Bool.or_false, decide_eq_true_iff] at hkeep
            exact ⟨hkeep, hunmarked⟩
          · rw [List.contains_append] at hunmarked
            exact absurd (Bool.or_eq_false_iff.mp hunmarked).2 (by decide)
      · next hup =>
        exact related_save fun q hq => audited_save hcovered (fun h => h) ⟨rfl, rfl⟩
          (fun h => absurd h hup) hq
  | insertMany ordered docs =>
      cases docs with
      | single id d => exact hcovered.elim
      | array docs =>
          have hops : (docs.map fun e => (e.1, stamp schema user e.2)).map
              (fun e => Op.insertOne e.1 e.2)
                = (docs.map fun e => Op.insertOne e.1 e.2).map (stampOp schema user) := by
            rw [List.map_map, List.map_map]
            rfl
          rw [ModelWrite.perform, ModelWrite.ops]
          dsimp only
          rw [hops]
          refine related_ops fun c op hop => audited_op ?_ huser (fun h => ?_) c
          · obtain ⟨e, -, rfl⟩ := List.mem_map.mp hop
            rfl
          · exact List.any_eq_true.mpr ⟨op, hop, h⟩
  | query q =>
      dsimp only
      split
      · refine related_one ?_ true
        exact @audited_op _ _ _ (.query q) hcovered.2 huser
          (fun h => List.any_eq_true.mpr ⟨_, List.mem_cons_self, h⟩) c
      · next hup =>
        intro id d _
        have hup' := Bool.eq_false_iff.mpr hup
        exact audited_without (hcovered.1.resolve_left hup) hup' _ _
  | bulkWrite ordered ops =>
      exact related_ops fun c op hop => audited_op (hcovered op hop) huser
        (fun h => List.any_eq_true.mpr ⟨op, hop, h⟩) c

/-! ## Runs of writes -/

variable (schema) in
/-- Writes with their users, in order. -/
def after (c : Collection) (writes : List (String × ModelWrite)) : Collection :=
  writes.foldl (fun c w => (mongooseAuditFieldsPlugin schema (some w.1) w.2).perform c) c

variable (schema) in
/-- Somebody is logged in for each, and the hooks find its documents. -/
def CoveredRun : Collection → List (String × ModelWrite) → Prop
  | _, []      => True
  | c, w :: ws => w.1 ≠ "" ∧ Covered schema w.1 c w.2 ∧ CoveredRun (after schema c [w]) ws

variable (schema) in
/-- What the two fields of a document tell after the writes. -/
structure Trail (c : Collection) (writes : List (String × ModelWrite)) (id : String)
    (d : Document) : Prop where
  /-- who has changed it last -/
  updatedBy : schema.hasUpdatedBy = true →
    (∀ ws, ws <+: writes → (after schema c ws).get? id = some d) ∨
    ∃ before w rest, writes = before ++ w :: rest ∧ (after schema c before).get? id ≠ some d ∧
      (∀ ws, ws <+: rest → (after schema c (before ++ w :: ws)).get? id = some d) ∧
      d.get? "updatedBy" = some (.str w.1)
  /-- somebody has created it -/
  authored  : schema.hasCreatedBy = true →
    (∀ id d, c.get? id = some d → hasAuthor d = true) → hasAuthor d = true
  /-- and it is not somebody else -/
  createdBy : schema.hasCreatedBy = true →
    (∀ w ∈ writes, ModelWrite.suppliesAuthor w.2 = false) →
    (∃ w ∈ writes, d.get? "createdBy" = some (.str w.1)) ∨
      ∃ d₀, c.get? id = some d₀ ∧ d.get? "createdBy" = d₀.get? "createdBy"

/-- **The trail.**  After any writes of users that are logged in, `updatedBy` of a document
    is the user whose write has changed it last; every document has an author if every
    document had one, whatever operators the writes use; and if no write brings an author
    along, it is a user of one of the writes, or the one from before. -/
theorem trail (schema : Schema) (writes : List (String × ModelWrite)) (c : Collection)
    (h : CoveredRun schema c writes) (id : String) (d : Document)
    (hd : (after schema c writes).get? id = some d) : Trail schema c writes id d := by
  induction writes generalizing c with
  | nil =>
      refine ⟨fun _ => .inl fun ws hws => ?_, fun _ hall => hall id d hd,
        fun _ _ => .inr ⟨d, hd, rfl⟩⟩
      rw [List.prefix_nil.mp hws]
      exact hd
  | cons w writes ih =>
      obtain ⟨huser, hcovered, hrest⟩ := h
      have hfirst := audited_write huser hcovered
      have hlater := ih _ hrest hd
      refine ⟨fun hup => ?_, fun hschema hall => ?_, fun hschema hfree => ?_⟩
      · rcases hlater.updatedBy hup with
            hstays | ⟨before, w', rest, hsplit, hbefore, hafter, hsigned⟩
        · have hnow : (after schema c [w]).get? id = some d := hstays [] List.nil_prefix
          by_cases hold : c.get? id = some d
          · refine .inl fun ws hws => ?_
            cases ws with
            | nil => exact hold
            | cons v vs =>
                obtain ⟨rfl, hvs⟩ := List.cons_prefix_cons.mp hws
                exact hstays vs hvs
          · refine .inr ⟨[], w, writes, rfl, hold, fun ws hws => hstays ws hws, ?_⟩
            exact ((hfirst id d hnow).signed hup).resolve_left hold
        · refine .inr ⟨w :: before, w', rest, ?_, hbefore, hafter, hsigned⟩
          rw [hsplit, List.cons_append]
      · refine hlater.authored hschema fun id' d' hd' => ?_
        exact (hfirst id' d' hd').authored hschema fun d'' hd'' => hall id' d'' hd''
      · rcases hlater.createdBy hschema fun v hv => hfree v (List.mem_cons_of_mem _ hv) with
          ⟨v, hv, hcreated⟩ | ⟨d', hd', hcreated⟩
        · exact .inl ⟨v, List.mem_cons_of_mem _ hv, hcreated⟩
        · rcases (hfirst id d' hd').kept hschema (hfree w List.mem_cons_self) with
              hsame | ⟨d₀, hd₀, hsame⟩
          · exact .inl ⟨w, List.mem_cons_self, hcreated.trans hsame⟩
          · exact .inr ⟨d₀, hd₀, hcreated.trans hsame⟩

def both : Schema := ⟨true, true⟩

/-- One user creates a document, and another one renames it. -/
def renamed : List (String × ModelWrite) :=
  [("u1", .create "1" (OrderedMap.empty.set "name" (.str "a")) ["name"]),
    ("u2", .query (.updateOne (byId "1") (fun _ _ => true)
      (.document { set := OrderedMap.empty.set "name" (.str "b") }) none))]

theorem trail_renamed :
    ∃ d, (after both .empty renamed).get? "1" = some d ∧
      d.get? "createdBy" = some (.str "u1") ∧ d.get? "updatedBy" = some (.str "u2") ∧
      Trail both .empty renamed "1" d := by
  have hd : (after both .empty renamed).get? "1" = some (((OrderedMap.empty.set "name"
    (.str "b")).set "createdBy" (.str "u1")).set "updatedBy" (.str "u2")) := by rfl
  exact ⟨_, hd, by decide, by decide, trail both renamed .empty
    ⟨by decide, trivial, by decide, ⟨.inl rfl, by decide⟩, trivial⟩ "1" _ hd⟩

/-- A document that is replaced has a new author. -/
example : ((after both .empty
    [("u1", .create "1" .empty []), ("u2", .query (.replaceOne (byId "1") (fun _ _ => true) .empty
      none))]).get? "1").bind (fun d => d.get? "createdBy") = some (.str "u2") := by decide

/-- Without `updatedBy` in the schema an upsert has an author through `bulkWrite` only. -/
example :
    let upsert : QueryOp := .updateOne (byId "1") (fun _ _ => true)
      (.document { set := OrderedMap.empty.set "name" (.str "a") }) (some "1")
    let author : ModelWrite → Option Value := fun w =>
      ((after ⟨true, false⟩ .empty [("u1", w)]).get? "1").bind fun d => d.get? "createdBy"
    author (.query upsert) = none ∧
      author (.bulkWrite true [.query upsert]) = some (.str "u1") := by
  decide

end AuditFields
