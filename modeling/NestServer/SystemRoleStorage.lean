import NestServer.SystemRolePlugin

/-! # Writes that store system roles

    A write that its hook lets pass stores a new system role unless it is closed:
    unless nothing that it brings past the checks is new to the document. -/

namespace SystemRole

open Mongo Mongoose

/-- What an operation brings to a document past the checks. -/
def broughtByOp (tolerated : List String) (e : Effect) : Op → List String
  | .insertOne _ d               => broughtBy tolerated (d.get? "roles")
  | .query (.updateOne _ _ u _)  => brought tolerated e.old.isNone e.start u
  | .query (.updateMany _ u _)   => brought tolerated e.old.isNone e.start u
  | .query (.replaceOne _ _ d _) => broughtBy tolerated (d.get? "roles")
  | .query (.deleteOne _ _)      => []
  | .query (.deleteMany _)       => []

/-- What the check of a query operation tolerates. -/
def toleratedBy (s : Surroundings) (c : Collection) : QueryOp → List String
  | .updateOne filter _ _ _  => storedRoles s c filter
  | .replaceOne filter _ _ _ => storedRoles s c filter
  | _                        => []

/-- What `save` brings to the stored document: an array that is checked with its
    own document as it was loaded, or elements of it. -/
def broughtBySave (s : Surroundings) (d : Document) (modified : List String)
    (elements : OrderedMap String (List Nat)) (start : Document) : List String :=
  if modified.contains "roles" then broughtBy s.originalRoles (d.get? "roles")
  else match elements.get? "roles" with
    | some places =>
        (systemRoles (setElements (d.get? "roles") places (start.get? "roles")).join).filter
          fun r => s.originalRoles.contains r
    | none => []

/-- An operation brings no system role that its documents did not hold. -/
def ClosedOp (c : Collection) (op : Op) : Prop :=
  ∀ e ∈ c.effects (op.write c), broughtByOp [] e op ⊆ systemRolesOf e.old

def Closed (s : Surroundings) (c : Collection) : ModelWrite → Prop
  -- the roles of a new document are checked where they are marked as modified
  | .create id d modified =>
      c.get? id = none →
        (if modified.contains "roles" then broughtBy [] (d.get? "roles")
          else systemRoles (d.get? "roles")) = []
  | .save id d modified elements =>
      ∀ q ∈ saveOps id d modified elements, ∀ e ∈ c.effects (q.write c),
        broughtBySave s d modified elements e.start ⊆ systemRolesOf e.old
  | .insertMany ordered (.array docs) =>
      AllOps (fun e => Op.insertOne e.1 e.2)
        (fun c e => c.get? e.1 = none → broughtBy [] (e.2.get? "roles") = []) ordered docs c
  | .insertMany _ (.single id d) => c.get? id = none → systemRoles (d.get? "roles") = []
  | .query q =>
      ∀ e ∈ c.effects (q.write c),
        broughtByOp (toleratedBy s c q) e (.query q) ⊆ systemRolesOf e.old
  | .bulkWrite ordered ops => AllOps id ClosedOp ordered ops c

section Storage

theorem noNew_refl (d : Document) : NoNewSystemRole (some d) d := List.Subset.refl _

theorem noNew_trans (o : Option Document) (d d' : Document) (h : NoNewSystemRole o d)
    (h' : NoNewSystemRole (some d) d') : NoNewSystemRole o d' := List.Subset.trans h' h

theorem noNew_new (o : Option Document) (d : Document) (h : NoNewSystemRole none d) :
    NoNewSystemRole o d :=
  List.Subset.trans h (List.nil_subset _)

theorem noNew_none {d : Document} :
    NoNewSystemRole none d ↔ systemRoles (d.get? "roles") = [] := by
  show systemRoles (d.get? "roles") ⊆ [] ↔ _
  exact List.subset_nil

variable {s : Surroundings} {c : Collection}

theorem replace_iff {stored : List String} {d : Document} {e : Effect} (hnew : e.new = d)
    (h : assertNoSystemRoles (d.get? "roles") stored = .ok ()) :
    NoNewSystemRole e.old e.new ↔ broughtBy stored (d.get? "roles") ⊆ systemRolesOf e.old := by
  rw [broughtBy_eq h, NoNewSystemRole, hnew]
  rfl

theorem query_iff {q : QueryOp} (h : checkQuery s c q = .ok ()) :
    Collection.Related NoNewSystemRole c ((ModelWrite.query q).perform c) ↔
      Closed s c (.query q) := by
  show Collection.Related NoNewSystemRole c (performOps true [.query q] c) ↔ _
  rw [performOps_singleton, Collection.exec_iff noNew_refl]
  refine forall₂_congr ?_
  intro e he
  cases q with
  | updateOne filter sort u upsert =>
      obtain ⟨happly, hold⟩ := effects_updateOne he
      exact noNewSystemRole_apply (assertUpdateIntroduces_eq_ok h) happly hold
  | updateMany filter u upsert =>
      obtain ⟨happly, hold⟩ := effects_updateMany he
      exact noNewSystemRole_apply h happly hold
  | replaceOne filter sort d upsert =>
      have hcheck := (assertUpdate_eq_ok (assertUpdateIntroduces_eq_ok h)).1
      exact replace_iff (effects_replaceOne he).1 hcheck
  | deleteOne filter sort => cases he
  | deleteMany filter => cases he

theorem op_iff {op : Op} (h : checkOp op = .ok ()) :
    Collection.Related NoNewSystemRole c (c.exec (op.write c)).1 ↔ ClosedOp c op := by
  rw [Collection.exec_iff noNew_refl, ClosedOp]
  refine forall₂_congr ?_
  intro e he
  cases op with
  | insertOne id d =>
      obtain ⟨rfl, -⟩ := effects_insertOne he
      exact replace_iff rfl h
  | query q =>
      cases q with
      | updateOne filter sort u upsert =>
          obtain ⟨happly, hold⟩ := effects_updateOne he
          exact noNewSystemRole_apply h happly hold
      | updateMany filter u upsert =>
          obtain ⟨happly, hold⟩ := effects_updateMany he
          exact noNewSystemRole_apply h happly hold
      | replaceOne filter sort d upsert => exact replace_iff (effects_replaceOne he).1 h
      | deleteOne filter sort => cases he
      | deleteMany filter => cases he

theorem insertOne_iff (id : String) (d : Document) (ordered : Bool) :
    Collection.Related NoNewSystemRole c (performOps ordered [.insertOne id d] c) ↔
      (c.get? id = none → systemRoles (d.get? "roles") = []) := by
  have h := related_inserts_iff (P := NoNewSystemRole) noNew_refl ordered [(id, d)] c
  rw [allOps_singleton] at h
  exact h.trans (imp_congr_right fun _ => noNew_none)

theorem create_iff {id : String} {d : Document} {modified : List String}
    (h : mongooseSystemRolePlugin s c (.create id d modified) = .ok ()) :
    Collection.Related NoNewSystemRole c ((ModelWrite.create id d modified).perform c) ↔
      Closed s c (.create id d modified) := by
  refine (insertOne_iff id d true).trans ?_
  rw [mongooseSystemRolePlugin] at h
  rw [Closed]
  cases hm : modified.contains "roles" with
  | false => rfl
  | true =>
      rw [hm] at h
      rw [if_pos rfl, broughtBy_eq h]

theorem insertMany_iff {ordered : Bool} {docs : InsertDocs}
    (h : mongooseSystemRolePlugin s c (.insertMany ordered docs) = .ok ()) :
    Collection.Related NoNewSystemRole c ((ModelWrite.insertMany ordered docs).perform c) ↔
      Closed s c (.insertMany ordered docs) := by
  cases docs with
  | single id d => exact insertOne_iff id d ordered
  | array docs =>
      refine (related_inserts_iff noNew_refl ordered docs c).trans ?_
      refine allOps_congr (fun c e he => imp_congr_right fun _ => ?_) c
      rw [broughtBy_eq (Fallible.forM_eq_ok.mp h e he)]
      exact noNew_none

/-- An array in memory that has been checked. -/
theorem check_setElements {stored : List String} {inMemory : Option Value}
    (h : assertNoSystemRoles inMemory stored = .ok ()) {places : List Nat}
    {old new : Option Value} (hnew : setElements inMemory places old = some new) :
    ∀ r ∈ systemRoles new, r ∈ systemRoles old ∨ r ∈ stored := by
  have hset : ∀ (ws vs : List Value) (places : List Nat),
      ∀ v ∈ places.foldl (fun vs i => vs.set i (ws.getD i .null)) vs,
        v ∈ vs ∨ v ∈ ws ∨ v = .null := by
    intro ws vs places
    induction places generalizing vs with
    | nil => exact fun v hv => Or.inl hv
    | cons i places ih =>
        intro v hv
        rcases ih _ v hv with hvs | hrest
        · rcases List.mem_or_eq_of_mem_set hvs with hold | hput
          · exact Or.inl hold
          · refine Or.inr ?_
            rw [hput, List.getD_eq_getElem?_getD]
            cases hi : ws[i]? with
            | none => exact Or.inr rfl
            | some w => exact Or.inl (List.mem_of_getElem? hi)
        · exact Or.inr hrest
  cases old with
  | none => cases hnew
  | some v =>
      cases v with
      | list vs =>
          cases inMemory with
          | none => cases hnew
          | some w =>
              cases w with
              | list ws =>
                  cases Option.some.inj hnew
                  intro r hr
                  obtain ⟨hmem, hsys⟩ := List.mem_filter.mp hr
                  rcases hset ws vs places _ (mem_strings.mp hmem) with hold | hmem' | hnull
                  · exact Or.inl (List.mem_filter.mpr ⟨mem_strings.mpr hold, hsys⟩)
                  · exact Or.inr (assertNoSystemRoles_eq_ok h (mem_strings.mpr hmem') hsys)
                  · cases hnull
              | _ => cases hnew
      | _ => cases hnew

theorem save_effect_iff {id : String} {d : Document} {modified : List String}
    {elements : OrderedMap String (List Nat)}
    (h : mongooseSystemRolePlugin s c (.save id d modified elements) = .ok ())
    {q : QueryOp} (hq : q ∈ saveOps id d modified elements) {e : Effect}
    (he : e ∈ c.effects (q.write c)) :
    NoNewSystemRole e.old e.new ↔
      broughtBySave s d modified elements e.start ⊆ systemRolesOf e.old := by
  obtain ⟨happly, hold⟩ := effects_save hq he
  have hval := UpdateQuery.get?_apply happly "roles"
  rw [mongooseSystemRolePlugin] at h
  rw [broughtBySave, hold]
  show systemRoles (e.new.get? "roles") ⊆ systemRoles (e.start.get? "roles") ↔ _
  cases hm : modified.contains "roles" with
  | true =>
      rw [hm] at h
      rw [valueAfter_delta_marked hm] at hval
      rw [if_pos rfl, broughtBy_eq h, Option.some.inj hval]
      rfl
  | false =>
      rw [valueAfter_delta hm] at hval
      rw [if_neg (by simp)]
      cases hp : elements.get? "roles" with
      | none =>
          rw [hp] at hval
          refine iff_of_true ?_ (List.nil_subset _)
          rw [Option.some.inj hval]
          exact List.Subset.refl _
      | some places =>
          rw [hm, hp] at h
          rw [hp] at hval
          dsimp only at hval ⊢
          rw [← hval]
          constructor
          · intro hsub r hr
            exact hsub (List.mem_filter.mp hr).1
          · intro hsub r hr
            rcases check_setElements h hval.symm r hr with hstart | htol
            · exact hstart
            · exact hsub (List.mem_filter.mpr ⟨hr, List.contains_iff_mem.mpr htol⟩)

theorem save_iff {id : String} {d : Document} {modified : List String}
    {elements : OrderedMap String (List Nat)}
    (h : mongooseSystemRolePlugin s c (.save id d modified elements) = .ok ()) :
    Collection.Related NoNewSystemRole c ((ModelWrite.save id d modified elements).perform c) ↔
      Closed s c (.save id d modified elements) := by
  have hop : ∀ q ∈ saveOps id d modified elements,
      Collection.Related NoNewSystemRole c (c.exec (q.write c)).1 ↔
        ∀ e ∈ c.effects (q.write c),
          broughtBySave s d modified elements e.start ⊆ systemRolesOf e.old := by
    intro q hq
    rw [Collection.exec_iff noNew_refl]
    exact forall₂_congr fun e he => save_effect_iff h hq he
  show Collection.Related NoNewSystemRole c
    (performOps true ((saveOps id d modified elements).map .query) c) ↔
      ∀ q ∈ saveOps id d modified elements, _
  rw [saveOps] at hop ⊢
  split
  · refine iff_of_true ?_ (by simp)
    intro i d' hd
    rw [show c.get? i = some d' from hd]
    exact noNew_refl d'
  · next hwritten =>
      rw [if_neg hwritten] at hop
      rw [List.map_singleton, performOps_singleton]
      refine (hop _ (List.mem_singleton.mpr rfl)).trans ?_
      simp only [List.mem_singleton, forall_eq]

end Storage

/-- A write that is let pass stores no new system role. -/
def Safe (s : Surroundings) (c : Collection) (w : ModelWrite) : Prop :=
  ∀ c', perform s c w = .ok c' → Collection.Related NoNewSystemRole c c'

/-- The operations of a bulk, taken one by one. -/
def EachSafe (s : Surroundings) (c : Collection) (ordered : Bool) (ops : List Op) : Prop :=
  mongooseSystemRolePlugin s c (.bulkWrite ordered ops) = .ok () →
    AllOps id (fun c op => Collection.Related NoNewSystemRole c (c.exec (op.write c)).1) ordered ops
      c

/-- Is the write refused? -/
def Refused (s : Surroundings) (c : Collection) (w : ModelWrite) : Prop :=
  mongooseSystemRolePlugin s c w ≠ .ok ()

theorem safe_iff {s : Surroundings} {c : Collection} {w : ModelWrite} :
    Safe s c w ↔ (mongooseSystemRolePlugin s c w = .ok () →
      Collection.Related NoNewSystemRole c (w.perform c)) := by
  constructor
  · intro h hok
    exact h _ (Fallible.bind_eq_ok.mpr ⟨(), hok, rfl⟩)
  · intro h c' hc'
    obtain ⟨_, hok, hc⟩ := Fallible.bind_eq_ok.mp hc'
    exact Except.ok.inj hc ▸ h hok

/-- **System roles in store, exactly.** A write is refused or stores no new
    system role if it is refused or closed; a write other than a bulk only then,
    and of a bulk, each operation only then. -/
theorem safe_iff_closed (s : Surroundings) (c : Collection) (w : ModelWrite) :
    (Refused s c w ∨ Closed s c w → Safe s c w) ∧
    ((∀ ordered ops, w ≠ .bulkWrite ordered ops) → Safe s c w →
      Refused s c w ∨ Closed s c w) ∧
    ∀ ordered ops, w = .bulkWrite ordered ops → EachSafe s c ordered ops →
      Refused s c w ∨ Closed s c w := by
  have hother : ∀ {w' : ModelWrite}, (∀ ordered ops, w' ≠ .bulkWrite ordered ops) →
      (mongooseSystemRolePlugin s c w' = .ok () →
        (Collection.Related NoNewSystemRole c (w'.perform c) ↔ Closed s c w')) →
      (Refused s c w' ∨ Closed s c w' → Safe s c w') ∧
      ((∀ ordered ops, w' ≠ .bulkWrite ordered ops) → Safe s c w' →
        Refused s c w' ∨ Closed s c w') ∧
      ∀ ordered ops, w' = .bulkWrite ordered ops → EachSafe s c ordered ops →
        Refused s c w' ∨ Closed s c w' := by
    intro w' hne h
    refine ⟨?_, fun _ hsafe => ?_, fun ordered ops heq => absurd heq (hne ordered ops)⟩
    · rintro (hr | hc)
      · exact safe_iff.mpr fun hok => absurd hok hr
      · exact safe_iff.mpr fun hok => (h hok).mpr hc
    · by_cases hok : mongooseSystemRolePlugin s c w' = .ok ()
      · exact Or.inr ((h hok).mp (safe_iff.mp hsafe hok))
      · exact Or.inl hok
  cases w with
  | create id d modified => exact hother (by simp) create_iff
  | save id d modified elements => exact hother (by simp) save_iff
  | insertMany ordered docs => exact hother (by simp) insertMany_iff
  | query q => exact hother (by simp) query_iff
  | bulkWrite ordered ops =>
      have hops : mongooseSystemRolePlugin s c (.bulkWrite ordered ops) = .ok () →
          ∀ c, ∀ op ∈ ops, Collection.Related NoNewSystemRole c (c.exec (op.write c)).1 ↔
            ClosedOp c op :=
        fun hok _ op hop => op_iff (Fallible.forM_eq_ok.mp hok op hop)
      refine ⟨?_, fun hne => absurd rfl (hne ordered ops), ?_⟩
      · rintro (hr | hc)
        · exact safe_iff.mpr fun hok => absurd hok hr
        · refine safe_iff.mpr fun hok => ?_
          have hlist := related_performOps noNew_refl noNew_trans noNew_new ordered ops
            (fun c op hop => (hops hok c op hop).mpr) c hc
          rwa [List.map_id'] at hlist
      · rintro _ _ ⟨⟩ heach
        by_cases hok : mongooseSystemRolePlugin s c (.bulkWrite ordered ops) = .ok ()
        · exact Or.inr ((allOps_congr (hops hok) c).mp (heach hok))
        · exact Or.inl hok

/-- `updateOne({}, { $set: { 'roles.0': 's_self' } })` on a document with the
    role `member`. -/
theorem dottedPath_stores_system_role :
    ¬ Safe {} (OrderedMap.empty.set "u1" (OrderedMap.empty.set "roles" (.list [.str "member"])))
      (.query (.updateOne .empty (fun _ _ => true)
        (.document { others :=
          [("roles", fun _ => setElements (some (.list [.str "s_self"])) [0])] })
        none)) := by
  intro h
  have hnew := h _ rfl "u1" (OrderedMap.empty.set "roles" (.list [.str "s_self"])) (by decide)
  exact absurd hnew (by decide)

end SystemRole
