import NestServer.RoleGuardPlugin

/-! # Writes that escalate

    What a guarded write leaves in `roles` is what its operations hand on
    (`rolesOf_query`, `rolesOf_guardOp`, `rolesOf_unseen`, `rolesOf_save`).  So a
    write escalates unless it is closed: unless no place that the guard does not
    look at brings a role that the document did not hold. -/

namespace RoleGuard

open Mongo Mongoose

/-- What the hook of `bulkWrite` makes of each operation of a list. -/
def bulkHook (s : Surroundings) (ops : List Op) : Op → Op :=
  if ops.any changesRoles then guardOp s else id

/-- An operation hands no role on that its documents did not hold. -/
def ClosedOp (s : Surroundings) (ops : List Op) (c : Collection) (op : Op) : Prop :=
  ∀ e ∈ c.effects ((bulkHook s ops op).write c), granted (ops.any changesRoles) e op ⊆ rolesOf e.old

/-- A write brings no role to a document from a place the guard does not look at. -/
def Closed (s : Surroundings) (c : Collection) : ModelWrite → Prop
  -- the roles of a new document count where they are marked as modified
  | .create id d modified =>
      modified.contains "roles" = true ∨ (c.get? id = none → held (d.get? "roles") = [])
  -- an element that is marked alone is written
  | .save id d modified elements =>
      ∀ places, elements.get? "roles" = some places →
        ∀ q ∈ saveOps id d (modified.filter fun k => k ≠ "roles") elements,
          ∀ e ∈ c.effects (q.write c),
            held ((setElements (d.get? "roles") places (e.start.get? "roles")).join)
              ⊆ rolesOf e.old
  -- one document with an array or a text of roles is enough to clear all
  | .insertMany ordered (.array docs) =>
      (docs.any fun e => hasLength e.2) = true ∨
        AllOps (fun e => Op.insertOne e.1 e.2)
          (fun c e => c.get? e.1 = none → held (e.2.get? "roles") = []) ordered docs c
  | .insertMany _ (.single id d) => c.get? id = none → held (d.get? "roles") = []
  | .query q =>
      ∀ e ∈ c.effects ((guardQuery s q).write c), granted true e (.query q) ⊆ rolesOf e.old
  | .bulkWrite ordered ops => AllOps (bulkHook s ops) (ClosedOp s ops) ordered ops c

section Escalation

theorem noEscalation_refl (d : Document) : NoEscalation (some d) d := List.Subset.refl _

theorem noEscalation_trans (o : Option Document) (d d' : Document) (h : NoEscalation o d)
    (h' : NoEscalation (some d) d') : NoEscalation o d' := List.Subset.trans h' h

theorem noEscalation_new (o : Option Document) (d : Document) (h : NoEscalation none d) :
    NoEscalation o d :=
  List.Subset.trans h (List.nil_subset _)

variable {s : Surroundings} {c : Collection}

theorem noEscalation_none {d : Document} :
    NoEscalation none d ↔ held (d.get? "roles") = [] := by
  show held (d.get? "roles") ⊆ [] ↔ _
  exact List.subset_nil

/-- One document is inserted. -/
theorem insertOne_iff (id : String) (d : Document) (ordered : Bool) :
    Collection.Related NoEscalation c (performOps ordered [.insertOne id d] c) ↔
      (c.get? id = none → held (d.get? "roles") = []) := by
  have h := related_inserts_iff (P := NoEscalation) noEscalation_refl ordered [(id, d)] c
  rw [allOps_singleton] at h
  exact h.trans (imp_congr_right fun _ => noEscalation_none)

theorem query_iff (hs : isRoleChangeAllowed s = false) (q : QueryOp) :
    Collection.Related NoEscalation c ((ModelWrite.query (guardQuery s q)).perform c) ↔
      Closed s c (.query q) := by
  show Collection.Related NoEscalation c (performOps true [.query (guardQuery s q)] c) ↔ _
  rw [performOps_singleton, Collection.exec_iff noEscalation_refl]
  refine forall₂_congr ?_
  intro e he
  rw [NoEscalation, rolesOf_query hs he]

theorem create_iff (hs : isRoleChangeAllowed s = false) (id : String) (d : Document)
    (modified : List String) :
    Collection.Related NoEscalation c
        ((mongooseRoleGuardPlugin s (.create id d modified)).perform c) ↔
      Closed s c (.create id d modified) := by
  rw [mongooseRoleGuardPlugin, hs]
  cases hm : modified.contains "roles" with
  | false =>
      refine (insertOne_iff id d true).trans ?_
      rw [Closed, hm]
      simp
  | true =>
      refine iff_of_true ((insertOne_iff id (d.set "roles" (.list [])) true).mpr ?_) (Or.inl hm)
      intro _
      rw [OrderedMap.get?_set_self]
      rfl

/-- `unmarkModified` takes back what is marked as a whole, and that only. -/
theorem save_iff (hs : isRoleChangeAllowed s = false) (id : String) (d : Document)
    (modified : List String) (elements : OrderedMap String (List Nat)) :
    Collection.Related NoEscalation c
        ((mongooseRoleGuardPlugin s (.save id d modified elements)).perform c) ↔
      Closed s c (.save id d modified elements) := by
  have hunmarked : ((modified.filter fun k => k ≠ "roles").contains "roles") = false := by
    simp
  have hsame : mongooseRoleGuardPlugin s (.save id d modified elements)
      = .save id d (modified.filter fun k => k ≠ "roles") elements := by
    rw [mongooseRoleGuardPlugin, hs]
    cases hm : modified.contains "roles" with
    | true => rfl
    | false =>
        have hkeep : (modified.filter fun k => decide (k ≠ "roles")) = modified := by
          refine List.filter_eq_self.mpr ?_
          intro k hk
          refine decide_eq_true ?_
          rintro rfl
          rw [List.contains_iff_mem.mpr hk] at hm
          cases hm
        rw [hkeep]
        cases (elements.get? "roles").isSome <;> rfl
  rw [hsame]
  have hop : ∀ q ∈ saveOps id d (modified.filter fun k => k ≠ "roles") elements,
      Collection.Related NoEscalation c (c.exec (q.write c)).1 ↔
        ∀ places, elements.get? "roles" = some places → ∀ e ∈ c.effects (q.write c),
          held ((setElements (d.get? "roles") places (e.start.get? "roles")).join)
            ⊆ rolesOf e.old := by
    intro q hq
    rw [Collection.exec_iff noEscalation_refl]
    constructor
    · intro h places hp e he
      have hnew := h e he
      rw [NoEscalation, rolesOf_save hunmarked hq he, hp] at hnew
      exact hnew
    · intro h e he
      rw [NoEscalation, rolesOf_save hunmarked hq he]
      cases hp : elements.get? "roles" with
      | some places => exact h places hp e he
      | none =>
          rw [(effects_save hq he).2]
          exact List.Subset.refl _
  show Collection.Related NoEscalation c (performOps true ((saveOps id d _ elements).map .query) c)
    ↔ ∀ places, elements.get? "roles" = some places → ∀ q ∈ saveOps id d _ elements, _
  rw [saveOps] at hop ⊢
  split
  · refine iff_of_true ?_ (fun _ _ q hq => by cases hq)
    intro i d' hd
    rw [show c.get? i = some d' from hd]
    exact noEscalation_refl d'
  · next hwritten =>
      rw [if_neg hwritten] at hop
      rw [List.map_singleton, performOps_singleton]
      refine (hop _ (List.mem_singleton.mpr rfl)).trans ?_
      simp only [List.mem_singleton, forall_eq]

theorem insertMany_iff (hs : isRoleChangeAllowed s = false) (ordered : Bool) (docs : InsertDocs) :
    Collection.Related NoEscalation c
        ((mongooseRoleGuardPlugin s (.insertMany ordered docs)).perform c) ↔
      Closed s c (.insertMany ordered docs) := by
  have hinserts : ∀ docs : List (String × Document),
      Collection.Related NoEscalation c
          (performOps ordered (docs.map fun e => .insertOne e.1 e.2) c) ↔
        AllOps (fun e => Op.insertOne e.1 e.2)
          (fun c e => c.get? e.1 = none → held (e.2.get? "roles") = []) ordered docs c := by
    intro docs
    refine (related_inserts_iff noEscalation_refl ordered docs c).trans (Iff.of_eq ?_)
    simp only [noEscalation_none]
  cases docs with
  | single id d => exact insertOne_iff id d ordered
  | array docs =>
      rw [mongooseRoleGuardPlugin, hs]
      cases hany : docs.any fun e => hasLength e.2 with
      | false =>
          refine (hinserts docs).trans ?_
          rw [Closed, hany]
          simp
      | true =>
          refine iff_of_true ?_ (Or.inl hany)
          have hall : ∀ (docs : List (String × Document)) (c : Collection),
              AllOps (fun e => Op.insertOne e.1 e.2)
                (fun c e => c.get? e.1 = none → held (e.2.get? "roles") = []) ordered
                (docs.map fun e => (e.1, clearRoles e.2)) c := by
            intro docs
            induction docs with
            | nil => exact fun _ => trivial
            | cons e docs ih => exact fun c => ⟨fun _ => rolesOf_clearRoles e.2, fun _ => ih _⟩
          exact (hinserts _).mpr (hall docs c)

theorem bulkOp_iff (hs : isRoleChangeAllowed s = false) {ops : List Op} {op : Op} (hop : op ∈ ops) :
    Collection.Related NoEscalation c (c.exec ((bulkHook s ops op).write c)).1 ↔
      ClosedOp s ops c op := by
  rw [Collection.exec_iff noEscalation_refl, ClosedOp]
  refine forall₂_congr ?_
  intro e he
  rw [NoEscalation]
  rw [bulkHook] at he
  cases hany : ops.any changesRoles with
  | true =>
      rw [hany] at he
      rw [rolesOf_guardOp hs he]
  | false =>
      rw [hany] at he
      have hseen : changesRoles op = false :=
        eq_false_of_ne_true fun ht => absurd hany (by simpa using ⟨op, hop, ht⟩)
      rw [rolesOf_unseen hseen he]

/-- What closed operations keep, the list of them keeps. -/
theorem bulkWrite_of_closed (hs : isRoleChangeAllowed s = false) {ordered : Bool} {ops : List Op}
    (h : Closed s c (.bulkWrite ordered ops)) :
    Collection.Related NoEscalation c
      ((mongooseRoleGuardPlugin s (.bulkWrite ordered ops)).perform c) := by
  have hlist : (mongooseRoleGuardPlugin s (.bulkWrite ordered ops)).perform c
      = performOps ordered (ops.map (bulkHook s ops)) c := by
    rw [mongooseRoleGuardPlugin, hs, bulkHook]
    cases ops.any changesRoles with
    | false => simp [ModelWrite.perform, ModelWrite.ops]
    | true => rfl
  rw [hlist]
  exact related_performOps noEscalation_refl noEscalation_trans noEscalation_new ordered ops
    (fun _ _ hop => (bulkOp_iff hs hop).mpr) c h

end Escalation

/-- The operations of a bulk, taken one by one: each escalates nothing in the
    collection that it finds. -/
def EachNoEscalation (s : Surroundings) (c : Collection) (ordered : Bool) (ops : List Op) : Prop :=
  AllOps (bulkHook s ops) (fun c op =>
    Collection.Related NoEscalation c (c.exec ((bulkHook s ops op).write c)).1) ordered ops c

/-- **Role escalation, exactly.** A write of a user who may not change roles
    escalates no document if it is closed; a write other than a bulk only then,
    and of a bulk, each operation only then. -/
theorem noEscalation_iff_closed (s : Surroundings) (hs : isRoleChangeAllowed s = false)
    (c : Collection) (w : ModelWrite) :
    (Closed s c w →
      Collection.Related NoEscalation c ((mongooseRoleGuardPlugin s w).perform c)) ∧
    ((∀ ordered ops, w ≠ .bulkWrite ordered ops) →
      Collection.Related NoEscalation c ((mongooseRoleGuardPlugin s w).perform c) →
        Closed s c w) ∧
    ∀ ordered ops, w = .bulkWrite ordered ops → EachNoEscalation s c ordered ops →
      Closed s c w := by
  have hother : ∀ {w' : ModelWrite}, (∀ ordered ops, w' ≠ .bulkWrite ordered ops) →
      (Collection.Related NoEscalation c ((mongooseRoleGuardPlugin s w').perform c) ↔
        Closed s c w') →
      (Closed s c w' →
        Collection.Related NoEscalation c ((mongooseRoleGuardPlugin s w').perform c)) ∧
      ((∀ ordered ops, w' ≠ .bulkWrite ordered ops) →
        Collection.Related NoEscalation c ((mongooseRoleGuardPlugin s w').perform c) →
          Closed s c w') ∧
      ∀ ordered ops, w' = .bulkWrite ordered ops → EachNoEscalation s c ordered ops →
        Closed s c w' :=
    fun hne h => ⟨h.mpr, fun _ => h.mp, fun ordered ops heq => absurd heq (hne ordered ops)⟩
  cases w with
  | create id d modified => exact hother (by simp) (create_iff hs id d modified)
  | save id d modified elements => exact hother (by simp) (save_iff hs id d modified elements)
  | insertMany ordered docs => exact hother (by simp) (insertMany_iff hs ordered docs)
  | query q => exact hother (by simp) (query_iff hs q)
  | bulkWrite ordered ops =>
      refine ⟨bulkWrite_of_closed hs, fun hne => absurd rfl (hne ordered ops), ?_⟩
      rintro _ _ ⟨⟩ heach
      exact (allOps_congr (fun _ _ hop => bulkOp_iff hs hop) c).mp heach

/-- A member who is logged in and has no role. -/
def member : Surroundings where
  currentUser     := some { roles := some [] }
  bypassRoleGuard := false
  allowedRoles    := none

/-- `updateOne({}, { $setOnInsert: { roles: ['admin'] } }, { upsert: true })` -/
def seedAdmin : ModelWrite :=
  .query (.updateOne .empty (fun _ _ => true)
    (.document { setOnInsert := OrderedMap.empty.set "roles" (.list [.str "admin"]) }) (some "u1"))

/-- An upsert makes an administrator. -/
theorem setOnInsert_escalates :
    isRoleChangeAllowed member = false ∧
      ¬ Collection.Related NoEscalation .empty
        ((mongooseRoleGuardPlugin member seedAdmin).perform .empty) := by
  refine ⟨rfl, ?_⟩
  intro h
  have hnew := h "u1" (OrderedMap.empty.set "roles" (.list [.str "admin"])) (by decide)
  exact absurd hnew (by decide)

/-- An array of documents loses its roles. -/
theorem noEscalation_array :
    Collection.Related NoEscalation .empty ((mongooseRoleGuardPlugin member
      (.insertMany true
        (.array [("u1", OrderedMap.empty.set "roles" (.list [.str "admin"]))]))).perform .empty) :=
  (noEscalation_iff_closed member rfl .empty _).1 (Or.inl rfl)

end RoleGuard
