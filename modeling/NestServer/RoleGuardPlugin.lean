import NestServer.Mongoose
import NestServer.RoleEnum

/-! # Who may write roles

    `mongoose-role-guard.plugin.ts`: hooks that take changes of `roles` out of
    the writes of a user who may not make them.  The hooks look at five places
    of an update; `granted` lists what reaches `roles` from all others, and a
    write escalates exactly if that is more than a document held. -/

namespace RoleGuard

open Mongo Mongoose

/-! ## The plugin -/

/-- What a hook reads of `RequestContext.getCurrentUser()`. -/
structure CurrentUser where
  hasRole : Option (List String → Bool) := none
  roles   : Option (List String) := none

/-- The request context, and the option `allowedRoles` of the plugin. -/
structure Surroundings where
  currentUser     : Option CurrentUser
  bypassRoleGuard : Bool
  allowedRoles    : Option (List String)

def isRoleChangeAllowed (s : Surroundings) : Bool :=
  match s.currentUser with
  | none             => true
  | some currentUser =>
      s.bypassRoleGuard
        || (currentUser.hasRole.any (fun hasRole => hasRole [RoleEnum.ADMIN.value])
          || currentUser.roles.any (fun roles => roles.contains RoleEnum.ADMIN.value))
        || s.allowedRoles.any fun allowedRoles =>
            currentUser.roles.any fun roles => roles.any allowedRoles.contains

/-- Is `d.roles` there and truthy? -/
def truthyRoles (d : Document) : Bool := (d.get? "roles").any Value.truthy

/-- `d.roles?.length`, as a condition. -/
def hasLength (d : Document) : Bool :=
  match d.get? "roles" with
  | some (.list vs) => !vs.isEmpty
  | some (.str s)   => s ≠ ""
  | _               => false

def pushesRoles (u : UpdateQuery) : Bool := (u.push.get? "roles").any fun p => p.operand.truthy

def pullsRoles (u : UpdateQuery) : Bool := (u.pull.get? "roles").any fun p => p.operand.truthy

/-- A pipeline is an array, and has none of the fields. -/
def hasRolesInUpdate : UpdateArgument → Bool
  | .document u => truthyRoles u.plain || truthyRoles u.set || pushesRoles u
      || truthyRoles u.addToSet || pullsRoles u
  | .pipeline _ => false

/-- `delete update.roles`, and of the operators what is truthy. -/
def stripRoles (u : UpdateQuery) : UpdateQuery :=
  { u with
    plain    := u.plain.delete "roles"
    set      := if truthyRoles u.set then u.set.delete "roles" else u.set
    push     := if pushesRoles u then u.push.delete "roles" else u.push
    addToSet := if truthyRoles u.addToSet then u.addToSet.delete "roles" else u.addToSet
    pull     := if pullsRoles u then u.pull.delete "roles" else u.pull }

def handleUpdateRoleGuard (s : Surroundings) (u : UpdateArgument) : UpdateArgument :=
  if !hasRolesInUpdate u then u
  else if isRoleChangeAllowed s then u
  else match u with
    | .document u => .document (stripRoles u)
    | .pipeline f => .pipeline f

/-- A replacement is flat. -/
def handleReplacement (s : Surroundings) (d : Document) : Document :=
  match handleUpdateRoleGuard s (.document { plain := d }) with
  | .document u => u.plain
  | .pipeline _ => d

/-- `if (d.roles) d.roles = []` -/
def clearRoles (d : Document) : Document :=
  if truthyRoles d then d.set "roles" (.list []) else d

/-- The hooks of the query operations. -/
def guardQuery (s : Surroundings) : QueryOp → QueryOp
  | .updateOne filter sort u upsert  => .updateOne filter sort (handleUpdateRoleGuard s u) upsert
  | .updateMany filter u upsert      => .updateMany filter (handleUpdateRoleGuard s u) upsert
  | .replaceOne filter sort d upsert => .replaceOne filter sort (handleReplacement s d) upsert
  | .deleteOne filter sort           => .deleteOne filter sort
  | .deleteMany filter               => .deleteMany filter

/-- `hasAnyRoleChange`, of one operation. -/
def changesRoles : Op → Bool
  | .insertOne _ d                   => hasLength d
  | .query (.updateOne _ _ u _)      => hasRolesInUpdate u
  | .query (.updateMany _ u _)       => hasRolesInUpdate u
  | .query (.replaceOne _ _ d _)     => hasLength d
  | .query (.deleteOne _ _)          => false
  | .query (.deleteMany _)           => false

/-- What the `bulkWrite` hook makes of one operation. -/
def guardOp (s : Surroundings) : Op → Op
  | .insertOne id d                          => .insertOne id (clearRoles d)
  | .query (.updateOne filter sort u upsert) =>
      .query (.updateOne filter sort (handleUpdateRoleGuard s u) upsert)
  | .query (.updateMany filter u upsert)     =>
      .query (.updateMany filter (handleUpdateRoleGuard s u) upsert)
  | .query (.replaceOne filter sort d upsert) =>
      .query (.replaceOne filter sort (if truthyRoles d then d.delete "roles" else d) upsert)
  | op                                       => op

/-- The write that goes on to the store. -/
def mongooseRoleGuardPlugin (s : Surroundings) : ModelWrite → ModelWrite
  | .create id d modified =>
      if !modified.contains "roles" then .create id d modified
      else if isRoleChangeAllowed s then .create id d modified
      else .create id (d.set "roles" (.list [])) modified
  | .save id d modified elements =>
      if !(modified.contains "roles" || (elements.get? "roles").isSome) then
        .save id d modified elements
      else if isRoleChangeAllowed s then .save id d modified elements
      -- `unmarkModified` takes the field back, and leaves its elements marked
      else .save id d (modified.filter fun k => k ≠ "roles") elements
  | .insertMany ordered (.array docs) =>
      if !docs.any fun e => hasLength e.2 then .insertMany ordered (.array docs)
      else if isRoleChangeAllowed s then .insertMany ordered (.array docs)
      else .insertMany ordered (.array (docs.map fun e => (e.1, clearRoles e.2)))
  | .insertMany ordered (.single id d) => .insertMany ordered (.single id d)
  | .query q => .query (guardQuery s q)
  | .bulkWrite ordered ops =>
      if !ops.any changesRoles then .bulkWrite ordered ops
      else if isRoleChangeAllowed s then .bulkWrite ordered ops
      else .bulkWrite ordered (ops.map (guardOp s))

/-! ## Escalation -/

/-- The roles that a field holds. -/
def held : Option Value → List Value
  | none            => []
  | some (.list vs) => vs.filter Value.truthy
  | some v          => [v].filter Value.truthy

def rolesOf (d : Option Document) : List Value := held (d.bind fun d => d.get? "roles")

/-- No role that was not held before; a new document holds none. -/
def NoEscalation (old : Option Document) (new : Document) : Prop :=
  rolesOf (some new) ⊆ rolesOf old

instance (old : Option Document) (new : Document) : Decidable (NoEscalation old new) :=
  inferInstanceAs (Decidable (∀ v ∈ rolesOf (some new), v ∈ rolesOf old))

/-- The operators that the guard does not look at. -/
def unwatched (u : UpdateQuery) : UpdateQuery where
  setOnInsert := u.setOnInsert
  unset       := u.unset
  rename      := u.rename
  others      := u.others

/-- Does the update assign a value to `roles` that counts as no change? -/
def assignsBlank (u : UpdateQuery) : Bool :=
  (u.set.get? "roles").any (fun v => !v.truthy)
    || (!hasRolesInUpdate (.document u) && (u.plain.get? "roles").isSome)

/-- The roles that an update hands on from where the guard does not look: from
    `$setOnInsert`, `$rename`, a dotted path or a further operator, from a
    pipeline, and from the filter of an upsert. -/
def openRoles (inserting : Bool) (start : Document) : UpdateArgument → List Value
  | .document u =>
      if assignsBlank u then []
      else held (((unwatched u).valueAfter inserting start "roles").join)
  | .pipeline f => held ((f start).bind fun d => d.get? "roles")

/-- The roles that an operation hands on; `seen` says whether the hook clears the
    roles of documents. -/
def granted (seen : Bool) (e : Effect) : Op → List Value
  | .insertOne _ d               => if seen then [] else held (d.get? "roles")
  | .query (.updateOne _ _ u _)  => openRoles e.old.isNone e.start u
  | .query (.updateMany _ u _)   => openRoles e.old.isNone e.start u
  | .query (.replaceOne _ _ d _) => if seen then [] else held (d.get? "roles")
  | .query (.deleteOne _ _)      => []
  | .query (.deleteMany _)       => []

/-! ## What stays of a guarded update -/

theorem held_blank {v : Value} (h : v.truthy = false) : held (some v) = [] := by
  cases v with
  | list vs => cases h
  | _ => simp [held, h]

theorem not_doc_of_blank {v : Value} (h : v.truthy = false) : ∀ fields, v ≠ .doc fields := by
  rintro fields rfl
  cases h

theorem held_append_blank {vs : List Value} {v : Value} (h : v.truthy = false) :
    held (some (.list (vs ++ [v]))) = held (some (.list vs)) := by
  simp [held, List.filter_append, h]

/-- An entry of `$push` that counts as no change adds no role. -/
theorem held_push {p : Push} (hp : p.operand.truthy = false) {old new : Option Value}
    (h : p.change old = some new) : held new = held old := by
  have hext : ∀ vs, p.extend vs = some (vs ++ [p.operand]) := by
    intro vs
    rw [Push.extend]
    split
    · next fields hdoc => exact absurd hdoc (not_doc_of_blank hp fields)
    · rfl
  cases old with
  | none =>
      rw [Push.change, hext] at h
      cases Option.some.inj h
      exact held_append_blank hp
  | some v =>
      cases v with
      | list vs =>
          rw [Push.change, hext] at h
          cases Option.some.inj h
          exact held_append_blank hp
      | _ => cases h

theorem held_addToSet {operand : Value} (hp : operand.truthy = false) {old new : Option Value}
    (h : addToSetChange operand old = some new) : held new = held old := by
  have heach : each operand = some [operand] := by
    rw [each.eq_def]
    split
    · next fields => exact absurd rfl (not_doc_of_blank hp fields)
    · rfl
  have hadd : ∀ vs, held (some (.list (addAll vs [operand]))) = held (some (.list vs)) := by
    intro vs
    rw [addAll, addAll]
    split
    · rfl
    · exact held_append_blank hp
  cases old with
  | none =>
      rw [addToSetChange, heach] at h
      cases Option.some.inj h
      exact hadd []
  | some v =>
      cases v with
      | list vs =>
          rw [addToSetChange, heach] at h
          cases Option.some.inj h
          exact hadd vs
      | _ => cases h

theorem held_pull {p : Pull} (hp : p.operand.truthy = false) {old new : Option Value}
    (h : p.change old = some new) : held new = held old := by
  cases old with
  | none =>
      cases Option.some.inj h
      rfl
  | some v =>
      cases v with
      | list vs =>
          cases Option.some.inj h
          rw [held, held, List.filter_filter]
          refine List.filter_congr ?_
          intro v _
          have hpick : v.truthy = true → p.picks v = false := by
            intro hv
            rw [Pull.picks]
            split
            · next fields hdoc => exact absurd hdoc (not_doc_of_blank hp fields)
            · refine decide_eq_false ?_
              rintro rfl
              rw [hp] at hv
              cases hv
          cases hv : v.truthy with
          | false => rfl
          | true => rw [hpick hv]; rfl
      | _ => cases h

section Update

variable {u : UpdateQuery}

/-- An entry that is taken out where it passes a test does not pass it. -/
theorem any_strip {ν : Type} (m : OrderedMap String ν) (k : String) (p : ν → Bool) :
    ((if (m.get? k).any p then m.delete k else m).get? k).any p = false := by
  by_cases h : (m.get? k).any p = true
  · rw [if_pos h, OrderedMap.get?_delete_self]
    rfl
  · rw [if_neg h]
    exact eq_false_of_ne_true h

theorem hasRolesInUpdate_stripRoles (u : UpdateQuery) :
    hasRolesInUpdate (.document (stripRoles u)) = false := by
  have hplain : truthyRoles (stripRoles u).plain = false := by
    rw [truthyRoles, stripRoles, OrderedMap.get?_delete_self]
    rfl
  have hset : truthyRoles (stripRoles u).set = false := any_strip u.set "roles" _
  have hpush : pushesRoles (stripRoles u) = false := any_strip u.push "roles" _
  have hadd : truthyRoles (stripRoles u).addToSet = false := any_strip u.addToSet "roles" _
  have hpull : pullsRoles (stripRoles u) = false := any_strip u.pull "roles" _
  rw [hasRolesInUpdate, hplain, hset, hpush, hadd, hpull]
  rfl

/-- Taking the changes of roles out leaves what is handed on. -/
theorem openRoles_stripRoles (h : hasRolesInUpdate (.document u) = true) (inserting : Bool)
    (start : Document) : openRoles inserting start (.document (stripRoles u))
      = openRoles inserting start (.document u) := by
  have hset : ((stripRoles u).set.get? "roles").any (fun v => !v.truthy)
      = (u.set.get? "roles").any (fun v => !v.truthy) := by
    by_cases ht : truthyRoles u.set = true
    · have hdel : (stripRoles u).set = u.set.delete "roles" := if_pos ht
      rw [hdel, OrderedMap.get?_delete_self]
      rw [truthyRoles] at ht
      cases hv : u.set.get? "roles" with
      | none => rfl
      | some v =>
          rw [hv] at ht
          rw [Option.any_some, show v.truthy = true from ht]
          rfl
    · have hsame : (stripRoles u).set = u.set := if_neg ht
      rw [hsame]
  have hplain : (stripRoles u).plain.get? "roles" = none :=
    OrderedMap.get?_delete_self u.plain "roles"
  have hassigns : assignsBlank (stripRoles u) = assignsBlank u := by
    rw [assignsBlank, assignsBlank, hset, hplain, h, Option.isSome_none, Bool.and_false,
      Bool.not_true, Bool.false_and]
  rw [openRoles, openRoles, hassigns]
  rfl

/-- An operator that counts as no change keeps the roles that are held. -/
theorem held_changeAt (h : hasRolesInUpdate (.document u) = false) (hnd : u.skeleton.names.Nodup)
    {inserting : Bool} {old new : Option Value}
    (hnew : (match u.changeAt inserting "roles" with
      | some f => f old
      | none   => some old) = some new) :
    held new = held ((match (unwatched u).changeAt inserting "roles" with
      | some f => f old
      | none   => some old).join) := by
  simp only [hasRolesInUpdate, Bool.or_eq_false_iff] at h
  obtain ⟨⟨⟨⟨-, -⟩, hpush⟩, hadd⟩, hpull⟩ := h
  have hopen : (unwatched u).changeAt inserting "roles"
      = (u.others.find? fun e => e.1 = "roles").map fun e => e.2 inserting := rfl
  have hkey : ∀ {ν : Type} {m : OrderedMap String ν} {v : ν}, m.get? "roles" = some v →
      "roles" ∈ m.entries.map Prod.fst := fun hm =>
    List.mem_map_of_mem (f := Prod.fst) (OrderedMap.get?_eq_some_iff.mp hm)
  rw [hopen]
  cases hp : u.push.get? "roles" with
  | some p =>
      rw [UpdateQuery.others_of_arrayChange hnd
        (List.mem_append_left _ (List.mem_append_left _ (hkey hp)))]
      rw [UpdateQuery.changeAt, hp] at hnew
      rw [pushesRoles, hp] at hpush
      exact held_push hpush hnew
  | none =>
      rw [UpdateQuery.changeAt, hp] at hnew
      cases ha : u.addToSet.get? "roles" with
      | some operand =>
          rw [UpdateQuery.others_of_arrayChange hnd
            (List.mem_append_left _ (List.mem_append_right _ (hkey ha)))]
          rw [ha] at hnew
          rw [truthyRoles, ha] at hadd
          exact held_addToSet hadd hnew
      | none =>
          rw [ha] at hnew
          cases hl : u.pull.get? "roles" with
          | some p =>
              rw [UpdateQuery.others_of_arrayChange hnd (List.mem_append_right _ (hkey hl))]
              rw [hl] at hnew
              rw [pullsRoles, hl] at hpull
              exact held_pull hpull hnew
          | none =>
              rw [hl] at hnew
              rw [show (match
                (u.others.find? fun e => e.1 = "roles").map fun e => e.2 inserting with
                | some f => f old
                | none   => some old) = some new from hnew]
              rfl

/-- A value that is assigned counts as no change. -/
theorem assigned_blank (h : hasRolesInUpdate (.document u) = false) {v : Value}
    (hv : (u.set.spread u.plain).get? "roles" = some v) :
    v.truthy = false ∧ assignsBlank u = true := by
  have hlook := h
  simp only [hasRolesInUpdate, Bool.or_eq_false_iff] at hlook
  obtain ⟨⟨⟨⟨hplain, hset⟩, -⟩, -⟩, -⟩ := hlook
  rw [truthyRoles] at hplain hset
  rw [OrderedMap.get?_spread] at hv
  rw [assignsBlank, h]
  cases hp : u.plain.get? "roles" with
  | some w =>
      rw [hp] at hv hplain
      cases Option.some.inj hv
      exact ⟨hplain, by simp⟩
  | none =>
      rw [hp, Option.none_or] at hv
      rw [hv] at hset ⊢
      refine ⟨hset, ?_⟩
      rw [Option.any_some, show v.truthy = false from hset]
      rfl

/-- **What an update hands on** that changes no roles where the guard looks. -/
theorem rolesOf_apply (h : hasRolesInUpdate (.document u) = false) {inserting : Bool}
    {d d' : Document} (hd : u.apply inserting d = some d') :
    rolesOf (some d') = openRoles inserting d (.document u) := by
  have hnd := UpdateQuery.nodup_of_apply hd
  have hval := UpdateQuery.get?_apply hd "roles"
  rw [rolesOf, Option.bind_some, openRoles]
  cases hA : (u.set.spread u.plain).get? "roles" with
  | some v =>
      obtain ⟨hblank, hassigns⟩ := assigned_blank h hA
      rw [UpdateQuery.valueAfter_assigned hnd hA] at hval
      rw [if_pos hassigns, Option.some.inj hval]
      exact held_blank hblank
  | none =>
      have hboth : u.plain.get? "roles" = none ∧ u.set.get? "roles" = none := by
        rw [OrderedMap.get?_spread] at hA
        exact Option.or_eq_none_iff.mp hA
      have hassigns : ¬assignsBlank u = true := by
        rw [assignsBlank, hboth.1, hboth.2]
        simp
      have hskel : (u.skeleton.assignments inserting).get? "roles"
          = ((unwatched u).skeleton.assignments inserting).get? "roles" := by
        cases inserting with
        | false => exact hA
        | true =>
            show ((u.set.spread u.plain).spread u.setOnInsert).get? "roles"
              = (OrderedMap.empty.spread u.setOnInsert).get? "roles"
            rw [OrderedMap.get?_spread, OrderedMap.get?_spread OrderedMap.empty, hA]
            rfl
      rw [UpdateQuery.valueAfter] at hval
      rw [if_neg hassigns, UpdateQuery.valueAfter, ← hskel,
        show (unwatched u).unset = u.unset from rfl, show (unwatched u).rename = u.rename from rfl]
      cases hv : (u.skeleton.assignments inserting).get? "roles" with
      | some v =>
          rw [hv] at hval
          rw [Option.some.inj hval]
          rfl
      | none =>
          rw [hv] at hval
          dsimp only at hval ⊢
          by_cases hgone : "roles" ∈ u.unset ∨ "roles" ∈ u.rename.map Prod.fst
          · rw [if_pos hgone] at hval
            rw [Option.some.inj hval, if_pos hgone]
            rfl
          · rw [if_neg hgone] at hval
            rw [if_neg hgone]
            cases hr : u.rename.find? fun r => r.2 = "roles" with
            | some r =>
                rw [hr] at hval
                rw [Option.some.inj hval]
                rfl
            | none =>
                rw [hr] at hval
                exact held_changeAt h hnd hval.symm

end Update

/-! ## What an operation hands on -/

section Hooks

variable {s : Surroundings}

theorem handleUpdate_document (hs : isRoleChangeAllowed s = false) (u : UpdateQuery) :
    handleUpdateRoleGuard s (.document u)
      = .document (if hasRolesInUpdate (.document u) then stripRoles u else u) := by
  rw [handleUpdateRoleGuard, hs]
  cases hasRolesInUpdate (.document u) <;> rfl

theorem rolesOf_update (hs : isRoleChangeAllowed s = false) {u : UpdateArgument}
    {inserting : Bool} {start d : Document}
    (h : (handleUpdateRoleGuard s u).apply inserting start = some d) :
    rolesOf (some d) = openRoles inserting start u := by
  cases u with
  | pipeline f =>
      have hf : f start = some d := h
      rw [openRoles, hf]
      rfl
  | document u =>
      rw [handleUpdate_document hs] at h
      by_cases hr : hasRolesInUpdate (.document u) = true
      · rw [if_pos hr] at h
        rw [← openRoles_stripRoles hr]
        exact rolesOf_apply (hasRolesInUpdate_stripRoles u) h
      · rw [if_neg hr] at h
        exact rolesOf_apply (eq_false_of_ne_true hr) h

/-- A replacement loses its roles. -/
theorem rolesOf_replacement (hs : isRoleChangeAllowed s = false) (d : Document) :
    rolesOf (some (handleReplacement s d)) = [] := by
  rw [handleReplacement, handleUpdate_document hs]
  by_cases hr : hasRolesInUpdate (.document { plain := d }) = true
  · rw [if_pos hr]
    show held ((d.delete "roles").get? "roles") = []
    rw [OrderedMap.get?_delete_self]
    rfl
  · have hplain : truthyRoles d = false := by
      have h := eq_false_of_ne_true hr
      simp only [hasRolesInUpdate, Bool.or_eq_false_iff] at h
      exact h.1.1.1.1
    rw [if_neg hr]
    show held (d.get? "roles") = []
    rw [truthyRoles] at hplain
    cases hv : d.get? "roles" with
    | none => rfl
    | some v =>
        rw [hv] at hplain
        exact held_blank hplain

theorem rolesOf_strip (d : Document) :
    rolesOf (some (if truthyRoles d then d.delete "roles" else d)) = [] := by
  have hgone := any_strip d "roles" Value.truthy
  show held ((if truthyRoles d then d.delete "roles" else d).get? "roles") = []
  rw [truthyRoles]
  cases hv : (if (d.get? "roles").any Value.truthy then d.delete "roles" else d).get? "roles" with
  | none => rfl
  | some v =>
      rw [hv] at hgone
      exact held_blank hgone

theorem rolesOf_clearRoles (d : Document) : rolesOf (some (clearRoles d)) = [] := by
  rw [clearRoles]
  by_cases h : truthyRoles d = true
  · rw [if_pos h]
    show held ((d.set "roles" (.list [])).get? "roles") = []
    rw [OrderedMap.get?_set_self]
    rfl
  · have hstrip := rolesOf_strip d
    rw [if_neg h] at hstrip
    rw [if_neg h]
    exact hstrip

variable {c : Collection} {e : Effect}

theorem rolesOf_query (hs : isRoleChangeAllowed s = false) {q : QueryOp}
    (he : e ∈ c.effects ((guardQuery s q).write c)) :
    rolesOf (some e.new) = granted true e (.query q) := by
  cases q with
  | updateOne filter sort u upsert => exact rolesOf_update hs (effects_updateOne he).1
  | updateMany filter u upsert => exact rolesOf_update hs (effects_updateMany he).1
  | replaceOne filter sort d upsert =>
      rw [(effects_replaceOne he).1]
      exact rolesOf_replacement hs d
  | deleteOne filter sort => cases he
  | deleteMany filter => cases he

/-- In a list in which an operation changes roles. -/
theorem rolesOf_guardOp (hs : isRoleChangeAllowed s = false) {op : Op}
    (he : e ∈ c.effects ((guardOp s op).write c)) :
    rolesOf (some e.new) = granted true e op := by
  cases op with
  | insertOne id d =>
      rw [(effects_insertOne he).1]
      exact rolesOf_clearRoles d
  | query q =>
      cases q with
      | updateOne filter sort u upsert => exact rolesOf_update hs (effects_updateOne he).1
      | updateMany filter u upsert => exact rolesOf_update hs (effects_updateMany he).1
      | replaceOne filter sort d upsert =>
          rw [(effects_replaceOne he).1]
          exact rolesOf_strip d
      | deleteOne filter sort => cases he
      | deleteMany filter => cases he

/-- In a list in which none does. -/
theorem rolesOf_unseen {op : Op} (h : changesRoles op = false)
    (he : e ∈ c.effects (op.write c)) : rolesOf (some e.new) = granted false e op := by
  have hupdate : ∀ {u : UpdateArgument}, hasRolesInUpdate u = false →
      u.apply e.old.isNone e.start = some e.new →
        rolesOf (some e.new) = openRoles e.old.isNone e.start u := by
    intro u hu happly
    cases u with
    | pipeline f =>
        have hf : f e.start = some e.new := happly
        rw [openRoles, hf]
        rfl
    | document u => exact rolesOf_apply hu happly
  cases op with
  | insertOne id d =>
      rw [(effects_insertOne he).1]
      rfl
  | query q =>
      cases q with
      | updateOne filter sort u upsert => exact hupdate h (effects_updateOne he).1
      | updateMany filter u upsert => exact hupdate h (effects_updateMany he).1
      | replaceOne filter sort d upsert =>
          rw [(effects_replaceOne he).1]
          rfl
      | deleteOne filter sort => cases he
      | deleteMany filter => cases he

/-- The element of `roles` that `save` writes. -/
theorem rolesOf_save {id : String} {d : Document} {modified : List String}
    {elements : OrderedMap String (List Nat)} (hm : modified.contains "roles" = false)
    {q : QueryOp} (hq : q ∈ saveOps id d modified elements)
    (he : e ∈ c.effects (q.write c)) :
    rolesOf (some e.new) = match elements.get? "roles" with
      | some places => held ((setElements (d.get? "roles") places (e.start.get? "roles")).join)
      | none        => rolesOf (some e.start) := by
  have hvalue := UpdateQuery.get?_apply (effects_save hq he).1 "roles"
  rw [valueAfter_delta hm] at hvalue
  cases hp : elements.get? "roles" with
  | none =>
      rw [hp] at hvalue
      rw [rolesOf, Option.bind_some, Option.some.inj hvalue]
      rfl
  | some places =>
      rw [hp] at hvalue
      dsimp only at hvalue ⊢
      rw [← hvalue]
      rfl

end Hooks

end RoleGuard
