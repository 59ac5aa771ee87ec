import NestServer.Fallible
import NestServer.Mongoose
import NestServer.RoleEnum

/-! # Which roles may be stored

    `mongoose-system-role.plugin.ts`: hooks that refuse a write which stores a
    system role that was not stored before.  They check the arrays that five
    places of an update carry; `brought` lists the system roles that reach a
    document past these checks, from another place or because the document that
    was looked up has them. -/

namespace SystemRole

open Mongo Mongoose RoleEnum

/-! ## The plugin -/

/-- What the hooks read besides the write: whether the lookup of the stored roles
    fails, and the roles that a document had when it was loaded. -/
structure Surroundings where
  lookupFails   : Bool := false
  originalRoles : List String := []

def strings (vs : List Value) : List String :=
  vs.filterMap fun v =>
    match v with
    | .str r => some r
    | _      => none

def toRoleArray : Option Value → List String
  | some (.list vs) => strings vs
  | _               => []

def assertNoSystemRoles (roles : Option Value) (alreadyStored : List String) :
    Except String Unit :=
  match roles with
  | some (.list vs) =>
      let introduced := (strings vs).filter fun role =>
        looksLikeSystemRole role && !alreadyStored.contains role
      if introduced.length ≠ 0 then
        .error ("System roles (" ++ SYSTEM_ROLE_PREFIX ++ "*) must never be stored in user.roles: "
          ++ ", ".intercalate introduced)
      else .ok ()
  | _ => .ok ()

/-- The elements that an operand of `$push` or `$addToSet` adds; `null` is passed
    over. -/
def added (operand : Value) : List Value :=
  match operand with
  | .doc fields =>
      match fields.lookup "$each" with
      | some (.list vs) => vs
      | _               => [.doc fields]
  | v           => [v]

def collectRoleValues (u : UpdateQuery) : List String :=
  toRoleArray (u.plain.get? "roles") ++ toRoleArray (u.set.get? "roles")
    ++ toRoleArray (u.setOnInsert.get? "roles")
    ++ toRoleArray ((u.push.get? "roles").map fun p => .list (added p.operand))
    ++ toRoleArray ((u.addToSet.get? "roles").map fun v => .list (added v))

/-- A pipeline is an array, and has none of the fields. -/
def assertUpdateHasNoSystemRoles (update : UpdateArgument) (alreadyStored : List String) :
    Except String Unit :=
  match update with
  | .pipeline _ => .ok ()
  | .document u => do
      assertNoSystemRoles (u.plain.get? "roles") alreadyStored
      assertNoSystemRoles (u.set.get? "roles") alreadyStored
      assertNoSystemRoles (u.setOnInsert.get? "roles") alreadyStored
      assertNoSystemRoles ((u.push.get? "roles").map fun p => .list (added p.operand)) alreadyStored
      assertNoSystemRoles ((u.addToSet.get? "roles").map fun v => .list (added v)) alreadyStored

/-- The roles of the first document that `findOne(filter)` finds. -/
def storedRoles (s : Surroundings) (c : Collection) (filter : FilterQuery) : List String :=
  if s.lookupFails then []
  else toRoleArray ((c.selected filter).head?.bind fun e => e.2.get? "roles")

def assertUpdateIntroducesNoSystemRoles (s : Surroundings) (c : Collection)
    (filter : FilterQuery) (update : UpdateArgument) : Except String Unit :=
  match update with
  | .pipeline _ => .ok ()
  | .document u =>
      if !(collectRoleValues u).any looksLikeSystemRole then .ok ()
      else assertUpdateHasNoSystemRoles (.document u) (storedRoles s c filter)

/-- The hooks of the query operations; a replacement is flat. -/
def checkQuery (s : Surroundings) (c : Collection) : QueryOp → Except String Unit
  | .updateOne filter _ u _  => assertUpdateIntroducesNoSystemRoles s c filter u
  | .updateMany _ u _        => assertUpdateHasNoSystemRoles u []
  | .replaceOne filter _ d _ =>
      assertUpdateIntroducesNoSystemRoles s c filter (.document { plain := d })
  | .deleteOne _ _           => .ok ()
  | .deleteMany _            => .ok ()

/-- What the `bulkWrite` hook asks of one operation. -/
def checkOp : Op → Except String Unit
  | .insertOne _ d               => assertNoSystemRoles (d.get? "roles") []
  | .query (.updateOne _ _ u _)  => assertUpdateHasNoSystemRoles u []
  | .query (.updateMany _ u _)   => assertUpdateHasNoSystemRoles u []
  | .query (.replaceOne _ _ d _) => assertNoSystemRoles (d.get? "roles") []
  | .query (.deleteOne _ _)      => .ok ()
  | .query (.deleteMany _)       => .ok ()

def mongooseSystemRolePlugin (s : Surroundings) (c : Collection) :
    ModelWrite → Except String Unit
  | .create _ d modified =>
      if !modified.contains "roles" then .ok () else assertNoSystemRoles (d.get? "roles") []
  | .save _ d modified elements =>
      if !(modified.contains "roles" || (elements.get? "roles").isSome) then .ok ()
      else assertNoSystemRoles (d.get? "roles") s.originalRoles
  | .insertMany _ (.single _ _)   => .ok ()
  | .insertMany _ (.array docs)   => docs.forM fun e => assertNoSystemRoles (e.2.get? "roles") []
  | .query q                      => checkQuery s c q
  | .bulkWrite _ ops              => ops.forM checkOp

/-- The write with its hook; a hook that throws stops it. -/
def perform (s : Surroundings) (c : Collection) (w : ModelWrite) : Except String Collection := do
  mongooseSystemRolePlugin s c w
  pure (w.perform c)

/-! ## System roles in documents -/

/-- The system roles that a field holds. -/
def systemRoles : Option Value → List String
  | some (.list vs) => (strings vs).filter isSystemRole
  | some (.str r)   => [r].filter isSystemRole
  | _               => []

def systemRolesOf (d : Option Document) : List String :=
  systemRoles (d.bind fun d => d.get? "roles")

/-- No system role that was not held before. -/
def NoNewSystemRole (old : Option Document) (new : Document) : Prop :=
  systemRolesOf (some new) ⊆ systemRolesOf old

instance (old : Option Document) (new : Document) : Decidable (NoNewSystemRole old new) :=
  inferInstanceAs (Decidable (∀ r ∈ systemRolesOf (some new), r ∈ systemRolesOf old))

/-- The system roles of a value that is stored as it is: of an array those that
    the check tolerates, of a text the text itself. -/
def broughtBy (tolerated : List String) : Option Value → List String
  | some (.list vs) => (systemRoles (some (.list vs))).filter tolerated.contains
  | v               => systemRoles v

/-- The operator that adds to the array. -/
def arrayChange (u : UpdateQuery) : Option FieldChange :=
  ((u.push.get? "roles").map Push.change).or ((u.addToSet.get? "roles").map addToSetChange)

/-- The system roles that reach a document past the checks of an update.  What
    `$push` and `$addToSet` leave can come from the check's tolerance or from the
    filter of an upsert; where neither they nor an assignment name the field, it
    is another operator, a dotted path or a pipeline that makes its value. -/
def brought (tolerated : List String) (inserting : Bool) (start : Document) :
    UpdateArgument → List String
  | .pipeline f => systemRoles ((f start).bind fun d => d.get? "roles")
  | .document u =>
      match (u.skeleton.assignments inserting).get? "roles" with
      | some v => broughtBy tolerated (some v)
      | none =>
          match arrayChange u with
          | some change =>
              (systemRoles (change (start.get? "roles")).join).filter fun r =>
                tolerated.contains r || (inserting && (systemRoles (start.get? "roles")).contains r)
          | none => systemRoles (u.valueAfter inserting start "roles").join

/-! ## What a check lets pass -/

section Checks

theorem assertNoSystemRoles_eq_ok {vs : List Value} {stored : List String}
    (h : assertNoSystemRoles (some (.list vs)) stored = .ok ()) {r : String}
    (hr : r ∈ strings vs) (hsys : isSystemRole r = true) : r ∈ stored := by
  rw [assertNoSystemRoles] at h
  split at h
  · cases h
  · next hnone =>
      rw [not_not, List.length_eq_zero_iff, List.filter_eq_nil_iff] at hnone
      have hpass := hnone r hr
      rw [looksLikeSystemRole_of_isSystemRole hsys, Bool.true_and] at hpass
      simpa using hpass

/-- The places of an update that are checked. -/
theorem assertUpdate_eq_ok {u : UpdateQuery} {stored : List String}
    (h : assertUpdateHasNoSystemRoles (.document u) stored = .ok ()) :
    assertNoSystemRoles (u.plain.get? "roles") stored = .ok () ∧
      assertNoSystemRoles (u.set.get? "roles") stored = .ok () ∧
      assertNoSystemRoles (u.setOnInsert.get? "roles") stored = .ok () ∧
      assertNoSystemRoles ((u.push.get? "roles").map fun p => .list (added p.operand)) stored
        = .ok () ∧
      assertNoSystemRoles ((u.addToSet.get? "roles").map fun v => .list (added v)) stored
        = .ok () := by
  obtain ⟨_, h1, h⟩ := Fallible.bind_eq_ok.mp h
  obtain ⟨_, h2, h⟩ := Fallible.bind_eq_ok.mp h
  obtain ⟨_, h3, h⟩ := Fallible.bind_eq_ok.mp h
  obtain ⟨_, h4, h5⟩ := Fallible.bind_eq_ok.mp h
  exact ⟨h1, h2, h3, h4, h5⟩

theorem assertNoSystemRoles_of_none {roles : Option Value} (stored : List String)
    (h : (toRoleArray roles).any looksLikeSystemRole = false) :
    assertNoSystemRoles roles stored = .ok () := by
  rw [assertNoSystemRoles.eq_def]
  split
  · next vs =>
      have hnone : ((strings vs).filter fun role =>
          looksLikeSystemRole role && !stored.contains role) = [] := by
        refine List.filter_eq_nil_iff.mpr ?_
        intro r hr
        have hlook := List.any_eq_false.mp h r hr
        simp [eq_false_of_ne_true hlook]
      dsimp only
      rw [hnone]
      rfl
  · rfl

/-- The lookup is left out where it could not matter. -/
theorem assertUpdateIntroduces_eq_ok {s : Surroundings} {c : Collection} {filter : FilterQuery}
    {update : UpdateArgument}
    (h : assertUpdateIntroducesNoSystemRoles s c filter update = .ok ()) :
    assertUpdateHasNoSystemRoles update (storedRoles s c filter) = .ok () := by
  cases update with
  | pipeline f => rfl
  | document u =>
      rw [assertUpdateIntroducesNoSystemRoles] at h
      split at h
      · next hnone =>
          have hnone' : (collectRoleValues u).any looksLikeSystemRole = false := by
            simpa using hnone
          simp only [collectRoleValues, List.any_append, Bool.or_eq_false_iff] at hnone'
          obtain ⟨⟨⟨⟨h1, h2⟩, h3⟩, h4⟩, h5⟩ := hnone'
          rw [assertUpdateHasNoSystemRoles, assertNoSystemRoles_of_none _ h1,
            assertNoSystemRoles_of_none _ h2, assertNoSystemRoles_of_none _ h3,
            assertNoSystemRoles_of_none _ h4, assertNoSystemRoles_of_none _ h5]
          rfl
      · exact h

/-- Of a checked value only what is tolerated is left. -/
theorem broughtBy_eq {stored : List String} {v : Option Value}
    (h : assertNoSystemRoles v stored = .ok ()) : broughtBy stored v = systemRoles v := by
  cases v with
  | none => rfl
  | some v =>
      cases v with
      | list vs =>
          refine List.filter_eq_self.mpr ?_
          intro r hr
          obtain ⟨hmem, hsys⟩ := List.mem_filter.mp hr
          exact List.contains_iff_mem.mpr (assertNoSystemRoles_eq_ok h hmem hsys)
      | _ => rfl

end Checks

/-! ## What an update brings -/

section Update

variable {u : UpdateQuery} {stored : List String}

theorem mem_strings {vs : List Value} {r : String} : r ∈ strings vs ↔ .str r ∈ vs := by
  rw [strings, List.mem_filterMap]
  constructor
  · rintro ⟨v, hv, hr⟩
    cases v with
    | str r' => exact Option.some.inj hr ▸ hv
    | _ => cases hr
  · exact fun h => ⟨.str r, h, rfl⟩

/-- A value that is assigned has been checked. -/
theorem check_assigned (h : assertUpdateHasNoSystemRoles (.document u) stored = .ok ())
    {inserting : Bool} {v : Value}
    (hv : (u.skeleton.assignments inserting).get? "roles" = some v) :
    assertNoSystemRoles (some v) stored = .ok () := by
  obtain ⟨hplain, hset, hinsert, -, -⟩ := assertUpdate_eq_ok h
  have hboth : ∀ v, (u.set.spread u.plain).get? "roles" = some v →
      assertNoSystemRoles (some v) stored = .ok () := by
    intro v hv
    rw [OrderedMap.get?_spread] at hv
    cases hp : u.plain.get? "roles" with
    | some w =>
        rw [hp] at hv hplain
        exact Option.some.inj hv ▸ hplain
    | none =>
        rw [hp, Option.none_or] at hv
        exact hv ▸ hset
  cases inserting with
  | false => exact hboth v hv
  | true =>
      have hall : ((u.set.spread u.plain).spread u.setOnInsert).get? "roles" = some v := hv
      rw [OrderedMap.get?_spread] at hall
      cases hi : u.setOnInsert.get? "roles" with
      | some w =>
          rw [hi] at hall hinsert
          exact Option.some.inj hall ▸ hinsert
      | none =>
          rw [hi, Option.none_or] at hall
          exact hboth v hall

theorem each_subset {operand : Value} {vs : List Value} (h : each operand = some vs) :
    vs ⊆ added operand := by
  cases operand with
  | doc fields =>
      rw [each] at h
      rw [added]
      cases hl : fields.lookup "$each" with
      | none =>
          rw [hl] at h
          rw [← Option.some.inj h]
          exact List.Subset.refl _
      | some v =>
          rw [hl] at h
          cases v with
          | list ws =>
              rw [← Option.some.inj h]
              exact List.Subset.refl _
          | _ => cases h
  | _ =>
      rw [← Option.some.inj h]
      exact List.Subset.refl _

/-- The elements of a field that is an array. -/
def elements : Option Value → List Value
  | some (.list vs) => vs
  | _               => []

theorem push_subset {p : Push} {old new : Option Value} (h : p.change old = some new) :
    ∃ vs, new = some (.list vs) ∧ vs ⊆ elements old ++ added p.operand := by
  have hext : ∀ {ws vs : List Value}, p.extend ws = some vs → vs ⊆ ws ++ added p.operand := by
    intro ws vs hvs
    rw [Push.extend] at hvs
    split at hvs
    · next fields hdoc =>
        obtain ⟨news, hnews, rfl⟩ := Option.map_eq_some_iff.mp hvs
        have hadded := each_subset hnews
        rw [← hdoc] at hadded
        refine List.Subset.trans (p.subset ws news) ?_
        exact List.append_subset.mpr ⟨List.subset_append_left _ _,
          List.Subset.trans hadded (List.subset_append_right _ _)⟩
    · next hdoc =>
        have hone : added p.operand = [p.operand] := by
          rw [added.eq_def]
          split
          · next fields heq => exact absurd heq (hdoc fields)
          · rfl
        rw [hone, ← Option.some.inj hvs]
        exact List.Subset.refl _
  cases old with
  | none =>
      obtain ⟨vs, hvs, rfl⟩ := Option.map_eq_some_iff.mp h
      exact ⟨vs, rfl, hext hvs⟩
  | some v =>
      cases v with
      | list ws =>
          obtain ⟨vs, hvs, rfl⟩ := Option.map_eq_some_iff.mp h
          exact ⟨vs, rfl, hext hvs⟩
      | _ => cases h

theorem addAll_subset (news vs : List Value) : addAll vs news ⊆ vs ++ news := by
  induction news generalizing vs with
  | nil => simp [addAll]
  | cons v news ih =>
      refine List.Subset.trans (ih _) ?_
      by_cases hv : vs.contains v = true
      · rw [if_pos hv]
        exact List.append_subset.mpr ⟨List.subset_append_left _ _,
          List.Subset.trans (List.subset_cons_self v news) (List.subset_append_right _ _)⟩
      · rw [if_neg hv, List.append_assoc]
        exact List.Subset.refl _

theorem addToSet_subset {operand : Value} {old new : Option Value}
    (h : addToSetChange operand old = some new) :
    ∃ vs, new = some (.list vs) ∧ vs ⊆ elements old ++ added operand := by
  have hadd : ∀ {ws news : List Value}, each operand = some news →
      addAll ws news ⊆ ws ++ added operand := by
    intro ws news hnews
    refine List.Subset.trans (addAll_subset news ws) ?_
    exact List.append_subset.mpr ⟨List.subset_append_left _ _,
      List.Subset.trans (each_subset hnews) (List.subset_append_right _ _)⟩
  cases old with
  | none =>
      obtain ⟨news, hnews, rfl⟩ := Option.map_eq_some_iff.mp h
      exact ⟨_, rfl, hadd hnews⟩
  | some v =>
      cases v with
      | list ws =>
          obtain ⟨news, hnews, rfl⟩ := Option.map_eq_some_iff.mp h
          exact ⟨_, rfl, hadd hnews⟩
      | _ => cases h

/-- What `$push` and `$addToSet` leave was there or has been checked. -/
theorem check_arrayChange (h : assertUpdateHasNoSystemRoles (.document u) stored = .ok ())
    {change : FieldChange} (hc : arrayChange u = some change) {old new : Option Value}
    (hnew : change old = some new) :
    ∀ r ∈ systemRoles new, r ∈ systemRoles old ∨ r ∈ stored := by
  obtain ⟨-, -, -, hpush, hadd⟩ := assertUpdate_eq_ok h
  have hsplit : ∀ {vs : List Value} {operand : Value}, new = some (.list vs) →
      vs ⊆ elements old ++ added operand →
      assertNoSystemRoles (some (.list (added operand))) stored = .ok () →
        ∀ r ∈ systemRoles new, r ∈ systemRoles old ∨ r ∈ stored := by
    rintro vs operand rfl hsub hcheck r hr
    obtain ⟨hmem, hsys⟩ := List.mem_filter.mp hr
    rcases List.mem_append.mp (hsub (mem_strings.mp hmem)) with hold | hnew
    · refine Or.inl ?_
      cases old with
      | none => cases hold
      | some v =>
          cases v with
          | list ws => exact List.mem_filter.mpr ⟨mem_strings.mpr hold, hsys⟩
          | _ => cases hold
    · exact Or.inr (assertNoSystemRoles_eq_ok hcheck (mem_strings.mpr hnew) hsys)
  rw [arrayChange] at hc
  cases hp : u.push.get? "roles" with
  | some p =>
      rw [hp] at hc hpush
      cases Option.some.inj hc
      obtain ⟨vs, hvs, hsub⟩ := push_subset hnew
      exact hsplit hvs hsub hpush
  | none =>
      rw [hp, Option.map_none, Option.none_or] at hc
      obtain ⟨operand, ho, rfl⟩ := Option.map_eq_some_iff.mp hc
      rw [ho] at hadd
      obtain ⟨vs, hvs, hsub⟩ := addToSet_subset hnew
      exact hsplit hvs hsub hadd

theorem changeAt_of_arrayChange {change : FieldChange} (h : arrayChange u = some change)
    (inserting : Bool) : u.changeAt inserting "roles" = some change := by
  rw [UpdateQuery.changeAt, ← Option.or_assoc, ← arrayChange, h]
  rfl

/-- **What a checked update does**: it stores a new system role exactly if it
    brings one past the checks. -/
theorem noNewSystemRole_apply {update : UpdateArgument}
    (h : assertUpdateHasNoSystemRoles update stored = .ok ()) {old : Option Document}
    {start new : Document} (happly : update.apply old.isNone start = some new)
    (hold : old = some start ∨ old = none) :
    NoNewSystemRole old new ↔ brought stored old.isNone start update ⊆ systemRolesOf old := by
  cases update with
  | pipeline f =>
      have hf : f start = some new := happly
      rw [brought, hf]
      rfl
  | document u =>
      have hnd := UpdateQuery.nodup_of_apply happly
      have hval := UpdateQuery.get?_apply happly "roles"
      rw [brought]
      show systemRoles (new.get? "roles") ⊆ _ ↔ _
      cases hA : (u.skeleton.assignments old.isNone).get? "roles" with
      | some v =>
          have hnew : new.get? "roles" = some v := by
            rw [UpdateQuery.valueAfter, hA] at hval
            exact Option.some.inj hval
          dsimp only
          rw [hnew, broughtBy_eq (check_assigned h hA)]
      | none =>
          dsimp only
          cases hc : arrayChange u with
          | none =>
              dsimp only
              rw [← hval]
              rfl
          | some change =>
              rw [UpdateQuery.valueAfter_change hnd (changeAt_of_arrayChange hc _)] at hval
              dsimp only
              rw [← hval]
              show systemRoles (new.get? "roles") ⊆ _ ↔
                (systemRoles (new.get? "roles")).filter _ ⊆ _
              constructor
              · intro hsub r hr
                exact hsub (List.mem_filter.mp hr).1
              · intro hsub r hr
                have hfrom := check_arrayChange h hc hval.symm r hr
                rcases hold with hold | hold
                · rcases hfrom with hstart | htol
                  · rw [hold]
                    exact hstart
                  · exact hsub (List.mem_filter.mpr ⟨hr, by simp [htol]⟩)
                · refine hsub (List.mem_filter.mpr ⟨hr, ?_⟩)
                  rw [hold]
                  rcases hfrom with hstart | htol
                  · simp [hstart]
                  · simp [htol]

end Update

end SystemRole
