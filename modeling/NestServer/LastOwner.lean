import NestServer.Exclusive
import NestServer.TenantService

/-! # The last owner

    A tenant with an owner keeps one: a removal and a demotion look first whether there is
    another one, and while one of them is under way there is no second.  Other calls add
    members and make owners all the time.  An owner that has been counted stays one, unless
    a call that had found a membership suspended reactivates it after somebody else has done
    so. -/

namespace TenantService

open Dialogue Interleaving TenantGuard

/-! ## Owners -/

section Owners

variable (v : Vocabulary) (tenantId : String)

/-- `userId` is an active member with the highest role. -/
def OwnedBy (userId : String) (table : Table) : Prop :=
  ∃ m ∈ table.rows, (ownerFilter v tenantId).selects m = true ∧ m.user = userId

def HasOwner (table : Table) : Prop := ∃ m ∈ table.rows, (ownerFilter v tenantId).selects m = true

instance (table : Table) : Decidable (HasOwner v tenantId table) :=
  inferInstanceAs (Decidable (∃ _ ∈ _, _))

/-- Who is an owner remains one. -/
def KeepsOwners (table table' : Table) : Prop :=
  ∀ userId, OwnedBy v tenantId userId table → OwnedBy v tenantId userId table'

variable {v tenantId}

theorem hasOwner_iff {table : Table} : HasOwner v tenantId table ↔
    ∃ userId, OwnedBy v tenantId userId table := by
  constructor
  · rintro ⟨m, hm, howner⟩
    exact ⟨m.user, m, hm, howner, rfl⟩
  · rintro ⟨_, m, hm, howner, _⟩
    exact ⟨m, hm, howner⟩

theorem rely_keepsOwners : Rely (KeepsOwners v tenantId) (HasOwner v tenantId) where
  refl _ _ h := h
  trans h h' userId howned := h' userId (h userId howned)
  keeps h howner := by
    obtain ⟨userId, howned⟩ := hasOwner_iff.mp howner
    exact hasOwner_iff.mpr ⟨userId, h userId howned⟩

theorem selects_ownerFilter {m : Membership} :
    (ownerFilter v tenantId).selects m = true ↔
      m.role = getHighestRole v ∧ m.status = .ACTIVE ∧ m.tenant = tenantId := by
  simp only [MemberFilter.selects, ownerFilter, Option.all_some, Option.all_none, Bool.and_eq_true,
    Bool.and_true, decide_eq_true_eq, and_assoc]
  exact and_congr eq_comm (and_congr eq_comm eq_comm)

theorem selects_activeFilter {tenantId userId : String} {m : Membership} :
    (activeFilter tenantId userId).selects m = true ↔
      m.status = .ACTIVE ∧ m.tenant = tenantId ∧ m.user = userId := by
  simp only [MemberFilter.selects, activeFilter, Option.all_some, Option.all_none, Bool.and_eq_true,
    Bool.true_and, decide_eq_true_eq, and_assoc]
  exact and_congr eq_comm (and_congr eq_comm eq_comm)

end Owners

/-! ## Writes -/

/-- A row that an update does not select stays as it is. -/
theorem mem_updateFirst {f : MemberFilter} {u : MemberUpdate} {rows : List Membership}
    {m : Membership} (hm : m ∈ rows)
    (hf : f.selects m = false) : m ∈ updateFirst f u rows := by
  induction rows with
  | nil => cases hm
  | cons first rows ih =>
      rw [updateFirst]
      rcases List.mem_cons.mp hm with rfl | hm
      · rw [hf]
        exact List.mem_cons_self ..
      · split
        · exact List.mem_cons_of_mem _ hm
        · exact List.mem_cons_of_mem _ (ih hm)

/-- A row that stays, or is the one that is updated. -/
theorem mem_updateFirst_cases {f : MemberFilter} {u : MemberUpdate} {rows : List Membership}
    {m : Membership}
    (hm : m ∈ rows) : m ∈ updateFirst f u rows ∨ rows.find? f.selects = some m ∧
      u.apply m ∈ updateFirst f u rows := by
  induction rows with
  | nil => cases hm
  | cons first rows ih =>
      rw [updateFirst]
      cases hfirst : f.selects first with
      | true =>
          rcases List.mem_cons.mp hm with rfl | hm
          · exact Or.inr ⟨List.find?_cons_of_pos hfirst, List.mem_cons_self ..⟩
          · exact Or.inl (List.mem_cons_of_mem _ hm)
      | false =>
          rw [if_neg Bool.false_ne_true, List.find?_cons_of_neg (by simp [hfirst])]
          rcases List.mem_cons.mp hm with rfl | hm
          · exact Or.inl (List.mem_cons_self ..)
          · exact (ih hm).imp (List.mem_cons_of_mem _) fun h => ⟨h.1, List.mem_cons_of_mem _ h.2⟩

section Writes

variable {v : Vocabulary} {T : String} {table : Table}

/-- An update keeps the owners if it makes an owner of the one it finds. -/
theorem keepsOwners_update {f : MemberFilter} {u : MemberUpdate}
    (h : ∀ m, table.rows.find? f.selects = some m → (ownerFilter v T).selects m = true →
      (ownerFilter v T).selects (u.apply m) = true) : KeepsOwners v T table (table.update f u) := by
  rintro userId ⟨m, hm, howner, huser⟩
  rcases mem_updateFirst_cases hm (f := f) (u := u) with hold | ⟨hfind, hnew⟩
  · exact ⟨m, hold, howner, huser⟩
  · exact ⟨u.apply m, hnew, h m hfind howner, huser⟩

theorem keepsOwners_insert {m : Membership} {table' : Table} (h : table.insert m = some table') :
    KeepsOwners v T table table' := by
  rw [Table.insert] at h
  split at h
  · cases h
  · cases h
    rintro userId ⟨m', hm', howner, huser⟩
    exact ⟨m', List.mem_append_left _ hm', howner, huser⟩

end Writes

/-! ## Somebody else -/

section Spared

variable {v : Vocabulary} {T t u : String} {table table' : Table}

variable (v T t u) in
/-- In this tenant there is an owner who is somebody else. -/
def Spared (table : Table) : Prop := t = T → ∃ userId, userId ≠ u ∧ OwnedBy v T userId table

theorem Spared.rely (h : Spared v T t u table) (hR : KeepsOwners v T table table') :
    Spared v T t u table' := by
  intro ht
  obtain ⟨userId, hne, howned⟩ := h ht
  exact ⟨userId, hne, hR userId howned⟩

/-- Rows of one user in one tenant are one row. -/
theorem eq_of_key {m m' : Membership} (hm : m ∈ table.rows) (hm' : m' ∈ table.rows)
    (huser : m.user = m'.user)
    (htenant : m.tenant = m'.tenant) : m = m' :=
  List.inj_on_of_nodup_map table.unique hm hm' (Prod.ext huser htenant)

theorem find_active {m : Membership} (hm : m ∈ table.rows)
    (hactive : (activeFilter t u).selects m = true) :
    table.rows.find? (activeFilter t u).selects = some m := by
  cases hfind : table.rows.find? (activeFilter t u).selects with
  | none => exact absurd hactive (List.find?_eq_none.mp hfind m hm)
  | some m' =>
      obtain ⟨_, htenant, huser⟩ := selects_activeFilter.mp hactive
      obtain ⟨_, htenant', huser'⟩ := selects_activeFilter.mp (List.find?_some hfind)
      rw [eq_of_key (List.mem_of_find?_eq_some hfind) hm (huser'.trans huser.symm)
        (htenant'.trans htenant.symm)]

/-- Who has been looked up and is no owner is not the one there is. -/
theorem spared_of_find (hI : HasOwner v T table)
    (hfind : (table.rows.find? (activeFilter t u).selects).map (·.role) ≠ some (getHighestRole v)) :
    Spared v T t u table := by
  rintro rfl
  obtain ⟨m, hm, howner⟩ := hI
  obtain ⟨hrole, hactive, htenant⟩ := selects_ownerFilter.mp howner
  refine ⟨m.user, ?_, m, hm, howner, rfl⟩
  rintro rfl
  apply hfind
  rw [find_active hm (selects_activeFilter.mpr ⟨hactive, htenant, rfl⟩), Option.map_some, hrole]

/-- Of two owners, one is somebody else. -/
theorem spared_of_count (hcount : 1 < table.rows.countP (ownerFilter v t).selects) :
    Spared v T t u table := by
  rintro rfl
  by_contra hnobody
  have hall : ∀ m ∈ table.rows.filter (ownerFilter v t).selects, (m.user, m.tenant) = (u, t) := by
    intro m hm
    obtain ⟨hm, howner⟩ := List.mem_filter.mp hm
    refine Prod.ext ?_ (selects_ownerFilter.mp howner).2.2
    by_contra hne
    exact hnobody ⟨m.user, hne, m, hm, howner, rfl⟩
  have hnodup : ((table.rows.filter (ownerFilter v t).selects).map fun m =>
      (m.user, m.tenant)).Nodup :=
    (List.filter_sublist.map _).nodup table.unique
  rw [List.countP_eq_length_filter] at hcount
  match hrows : table.rows.filter (ownerFilter v t).selects with
  | [] => simp [hrows] at hcount
  | [_] => simp [hrows] at hcount
  | m :: m' :: rest =>
      rw [hrows] at hall hnodup
      have hm := hall m (List.mem_cons_self ..)
      have hm' := hall m' (List.mem_cons_of_mem _ (List.mem_cons_self ..))
      simp [hm, hm'] at hnodup

/-- A write to one membership leaves somebody else alone. -/
theorem hasOwner_update (hI : HasOwner v T table) (hspared : Spared v T t u table)
    (upd : MemberUpdate) :
    HasOwner v T (table.update (activeFilter t u) upd) := by
  have hother : ∃ m ∈ table.rows, (ownerFilter v T).selects m = true ∧
      (activeFilter t u).selects m = false := by
    by_cases ht : t = T
    · obtain ⟨userId, hne, m, hm, howner, rfl⟩ := hspared ht
      refine ⟨m, hm, howner, ?_⟩
      rw [← Bool.not_eq_true, selects_activeFilter]
      exact fun h => hne h.2.2
    · obtain ⟨m, hm, howner⟩ := hI
      refine ⟨m, hm, howner, ?_⟩
      rw [← Bool.not_eq_true, selects_activeFilter]
      exact fun h => ht (h.2.1.symm.trans (selects_ownerFilter.mp howner).2.2)
  obtain ⟨m, hm, howner, hactive⟩ := hother
  exact ⟨m, mem_updateFirst hm hactive, howner⟩

end Spared

/-! ## Removals and demotions -/

section Exclusive

variable (v : Vocabulary) {T t u : String} {table : Table}

/-- The calls of which there is one at a time: a removal, and a role that is not the highest one. -/
def Call.isExclusive : Call → Bool
  | .addMember ..             => false
  | .removeMember ..          => true
  | .updateMemberRole _ _ role => role ≠ getHighestRole v

/-- A program that keeps an owner, while others add members. -/
abbrev Safe (T : String) {α : Type} (K : α → Table → Prop) (p : ServiceProgram α) (table : Table) :
    Prop :=
  Secure (system v) (KeepsOwners v T) (HasOwner v T) K p table

variable {v}

theorem safe_ask {α : Type} {K : α → Table → Prop} {q : MemberQuery}
    {next : MemberAnswer q → ServiceProgram α}
    (hI : HasOwner v T table)
    (hnext : ∀ table', KeepsOwners v T table table' → HasOwner v T table' →
      Safe v T K (next (exec table' q).1) (exec table' q).2) : Safe v T K (ask q next) table := by
  refine secure_ask_iff.mpr ⟨hI, ?_⟩
  intro table' _ a table'' hR hexec
  have hsafe := hnext table' hR (rely_keepsOwners.keeps hR hI)
  rw [show exec table' q = (a, table'') from Option.some.inj hexec] at hsafe
  exact hsafe

theorem safe_required {α : Type} {K : α → Table → Prop} {name text : String}
    {k : Unit → ServiceProgram α}
    (hI : HasOwner v T table) (hk : JsText.trim text ≠ "" → Safe v T K (k ()) table) :
    Safe v T K (orThrow (required name text) >>= k) table := by
  refine secure_bind (secure_orThrow hI ?_)
  intro _ hok
  refine hk ?_
  intro hblank
  rw [required, if_pos hblank] at hok
  cases hok

theorem safe_getActiveMembership {α : Type} {K : α → Table → Prop}
    {k : Option Membership → ServiceProgram α}
    (hI : HasOwner v T table) (hblank : ¬ (JsText.trim t = "" ∨ JsText.trim u = ""))
    (hk : ∀ table', KeepsOwners v T table table' → HasOwner v T table' →
      Safe v T K (k (table'.rows.find? (activeFilter t u).selects)) table') :
    Safe v T K (getActiveMembership t u >>= k) table := by
  rw [getActiveMembership, if_neg hblank]
  exact safe_ask hI hk

/-- **The check**: after it, somebody else is an owner. -/
theorem safe_assertNotLastOwner (hI : HasOwner v T table)
    (hblank : ¬ (JsText.trim t = "" ∨ JsText.trim u = "")) :
    Safe v T (fun _ => Spared v T t u) (assertNotLastOwner v t u) table := by
  refine safe_ask hI ?_
  intro table' _ hI'
  show Safe v T _ (if table'.rows.countP (ownerFilter v t).selects ≤ 1 then _ else _) table'
  split
  · refine safe_getActiveMembership hI' hblank ?_
    intro table'' _ hI''
    split
    · exact secure_failed_iff.mpr hI''
    · rename_i hrole
      exact secure_returned_iff.mpr ⟨hI'', spared_of_find hI'' hrole⟩
  · rename_i hcount
    exact secure_returned_iff.mpr ⟨hI', spared_of_count (Nat.lt_of_not_le hcount)⟩

/-- A write to one membership, when somebody else is an owner or it makes one. -/
theorem safe_write {upd : MemberUpdate} {k : Option Membership → Except String (Option Membership)}
    (hI : HasOwner v T table)
    (hwrite : Spared v T t u table ∨ upd = { role := some (getHighestRole v) }) :
    Safe v T (fun _ _ => True) (findOneAndUpdate (activeFilter t u) upd >>= fun result =>
      orThrow (k result)) table := by
  refine safe_ask hI ?_
  intro table' hR hI'
  refine secure_orThrow ?_ fun _ _ => trivial
  rcases hwrite with hspared | rfl
  · exact hasOwner_update hI' (hspared.rely hR) upd
  · refine rely_keepsOwners.keeps (keepsOwners_update ?_) hI'
    intro m _ howner
    obtain ⟨_, hactive, htenant⟩ := selects_ownerFilter.mp howner
    exact selects_ownerFilter.mpr ⟨rfl, hactive, htenant⟩

theorem safe_removeMember (hI : HasOwner v T table) :
    Safe v T (fun _ _ => True) (removeMember v t u) table := by
  refine safe_required hI fun ht => safe_required hI fun hu => ?_
  have hblank : ¬ (JsText.trim t = "" ∨ JsText.trim u = "") := fun h => h.elim ht hu
  exact secure_bind ((safe_assertNotLastOwner hI hblank).mono fun _ _ hI' hspared =>
    safe_write hI' (Or.inl hspared))

theorem safe_updateMemberRole {role : String} (hI : HasOwner v T table) :
    Safe v T (fun _ _ => True) (updateMemberRole v t u role) table := by
  rw [updateMemberRole]
  refine safe_required hI fun ht => safe_required hI fun hu => safe_required hI fun _ => ?_
  have hblank : ¬ (JsText.trim t = "" ∨ JsText.trim u = "") := fun h => h.elim ht hu
  refine secure_bind (secure_orThrow hI fun _ _ => ?_)
  refine safe_getActiveMembership hI hblank ?_
  intro table' _ hI'
  refine secure_bind (Secure.mono (K := fun _ table => Spared v T t u table ∨
    role = getHighestRole v) ?_ ?_)
  · split
    · exact (safe_assertNotLastOwner hI' hblank).mono fun _ _ _ => Or.inl
    · rename_i hcond
      refine secure_returned_iff.mpr ⟨hI', ?_⟩
      -- either the member is no owner, or the new role is the highest one as well
      by_cases hrole : role = getHighestRole v
      · exact Or.inr hrole
      · exact Or.inl (spared_of_find hI' fun h => hcond ⟨h, hrole⟩)
  · intro _ table'' hI'' hwrite
    refine safe_write hI'' (hwrite.imp_right ?_)
    rintro rfl
    rfl

end Exclusive

/-! ## Additions -/

section Adding

variable {v : Vocabulary} {T : String} {table : Table}

/-- What the other calls ask. -/
def Adding : MemberQuery → Prop
  | .findOne _            => True
  | .findOneAndUpdate _ u => u.status.getD .ACTIVE = .ACTIVE
  | .create _             => True
  | .countDocuments _     => False

theorem asks_addMember (tenantId userId : String) (role invitedById : Option String) (now : Int) :
    (addMember v tenantId userId role invitedById now).Asks Adding True := by
  rw [addMember]
  dsimp only
  -- what the checks of the arguments say is of no matter
  generalize required "tenantId" tenantId = checked
  generalize required "userId" userId = checked'
  generalize assertAssignableMembershipRole v (role.getD (getDefaultRole v)) = assignable
  refine asks_bind (asks_orThrow _) fun _ => asks_bind (asks_orThrow _) fun _ =>
    asks_bind (asks_orThrow _) fun _ => ?_
  refine asks_bind ⟨trivial, fun _ => trivial⟩ fun existing => ?_
  cases existing with
  | none => exact asks_bind ⟨trivial, fun _ => trivial⟩ fun _ => asks_orThrow _
  | some m =>
      show (if m.status = .ACTIVE then _ else _ : ServiceProgram _).Asks Adding True
      split
      · trivial
      · exact ⟨rfl, fun _ => trivial⟩

theorem asks_getActiveMembership (tenantId userId : String) :
    (getActiveMembership tenantId userId).Asks Adding True := by
  rw [getActiveMembership]
  split
  · trivial
  · exact ⟨trivial, fun _ => trivial⟩

-- from here on by its lemma only
attribute [local irreducible] getActiveMembership

/-- A call that makes an owner does not count the owners. -/
theorem asks_updateMemberRole (tenantId userId : String) {role : String}
    (hrole : role = getHighestRole v) :
    (updateMemberRole v tenantId userId role).Asks Adding True := by
  rw [updateMemberRole]
  generalize required "tenantId" tenantId = checked
  generalize required "userId" userId = checked'
  generalize required "role" role = checked''
  generalize assertAssignableMembershipRole v role = assignable
  refine asks_bind (asks_orThrow _) fun _ => asks_bind (asks_orThrow _) fun _ => ?_
  refine asks_bind (asks_orThrow _) fun _ => asks_bind (asks_orThrow _) fun _ => ?_
  refine asks_bind (asks_getActiveMembership tenantId userId) fun existing => asks_bind ?_ fun _ =>
    ?_
  · rw [if_neg fun h => h.2 hrole]
    trivial
  · exact asks_bind ⟨rfl, fun _ => trivial⟩ fun _ => asks_orThrow _

/-- The update that a program is about to ask for. -/
def pendingUpdate {α : Type} : ServiceProgram α → Option (MemberFilter × MemberUpdate)
  | .ask (.findOneAndUpdate f u) _ => some (f, u)
  | _                              => none

variable (v T) in
/-- An addition finds no owner where it writes, unless it makes one. -/
def SparesOwners (s : State Table Call MemberQuery MemberAnswer (Option Membership)) :
    Event Call Empty Unit → Prop
  | .resume i _ => ∀ τ ∈ s.threads[i]?, τ.request.isExclusive v = false →
      ∀ w ∈ pendingUpdate τ.program,
      ∀ m ∈ s.store.rows.find? w.1.selects, (ownerFilter v T).selects m = true →
        w.2.role = some (getHighestRole v)
  | _           => True

instance (s : State Table Call MemberQuery MemberAnswer (Option Membership))
    (e : Event Call Empty Unit) :
    Decidable (SparesOwners v T s e) :=
  match e with
  | .resume i _ => inferInstanceAs
      (Decidable (∀ τ ∈ s.threads[i]?, τ.request.isExclusive v = false →
      ∀ w ∈ pendingUpdate τ.program, ∀ m ∈ s.store.rows.find? w.1.selects,
        (ownerFilter v T).selects m = true →
        w.2.role = some (getHighestRole v)))
  | .call _     => isTrue trivial
  | .outside _  => isTrue trivial

theorem keepsOwners_exec {q : MemberQuery} (hq : Adding q)
    (hspares : ∀ f u, q = .findOneAndUpdate f u → ∀ m, table.rows.find? f.selects = some m →
      (ownerFilter v T).selects m = true → u.role = some (getHighestRole v)) :
    KeepsOwners v T table (exec table q).2 := by
  cases q with
  | findOne f => exact rely_keepsOwners.refl _
  | countDocuments f => exact hq.elim
  | findOneAndUpdate f u =>
      refine keepsOwners_update ?_
      intro m hfind howner
      have hrole := hspares f u rfl m hfind howner
      obtain ⟨_, hactive, htenant⟩ := selects_ownerFilter.mp howner
      refine selects_ownerFilter.mpr ⟨?_, ?_, htenant⟩
      · rw [MemberUpdate.apply, hrole, Option.getD_some]
      · rw [MemberUpdate.apply, hactive]
        exact hq
  | create m =>
      cases hinsert : table.insert m with
      | none =>
          rw [exec, hinsert]
          exact rely_keepsOwners.refl _
      | some table' =>
          rw [exec, hinsert]
          exact keepsOwners_insert hinsert

-- and the two calls as well
attribute [local irreducible] addMember updateMemberRole

theorem alone : Alone (system v) (Call.isExclusive v) (KeepsOwners v T) (HasOwner v T) Adding
    (SparesOwners v T) where
  rely := rely_keepsOwners
  secure r table hexclusive hI := by
    cases r with
    | addMember => cases hexclusive
    | removeMember tenantId userId => exact safe_removeMember hI
    | updateMemberRole tenantId userId role => exact safe_updateMemberRole hI
  asks r hother := by
    cases r with
    | addMember tenantId userId role invitedById now =>
        have hasks : (addMember v tenantId userId role invitedById now).Asks Adding True :=
          asks_addMember ..
        exact hasks
    | removeMember => cases hother
    | updateMemberRole tenantId userId role =>
        have hasks : (updateMemberRole v tenantId userId role).Asks Adding True :=
          asks_updateMemberRole tenantId userId (by simpa [Call.isExclusive] using hother)
        exact hasks
  guarantee s i choice τ q next a table' hspares hτ hother hprogram hq hexec := by
    have hstep : (exec s.store q).2 = table' := by
      rw [show exec s.store q = (a, table') from Option.some.inj hexec]
    rw [← hstep]
    refine keepsOwners_exec hq ?_
    rintro f u rfl m hfind howner
    exact hspares τ hτ hother (f, u) (by rw [hprogram]; rfl) m hfind howner
  outside _ event := nomatch event

end Adding

/-! ## Runs -/

/-- One removal or demotion at a time, and any number of other calls. -/
abbrev step (v : Vocabulary) : State Table Call MemberQuery MemberAnswer (Option Membership) →
    Event Call Empty Unit →
    Option (State Table Call MemberQuery MemberAnswer (Option Membership)) :=
  stepAlone (system v) (Call.isExclusive v)

/-- **A tenant keeps an owner** in every run in which no addition writes over one. -/
theorem keeps_last_owner (v : Vocabulary) (tenantId : String) (table : Table)
    (events : List (Event Call Empty Unit))
    (howner : HasOwner v tenantId table)
    (hspares : Runs.Meets (step v) (SparesOwners v tenantId) { store := table } events) :
    Runs.Always (step v) (fun s => HasOwner v tenantId s.store) { store := table } events :=
  always_alone alone howner events hspares

/-! ## Two additions of one member -/

def byDefault : Vocabulary := { multiTenancy := none }

/-- An owner, and a member who has been suspended. -/
def oneOwner : Table where
  rows   := [{ user := "o", tenant := "t", role := "owner", status := .ACTIVE },
    { user := "u", tenant := "t", role := "member", status := .SUSPENDED }]
  unique := by decide

/-- Both additions find the member suspended.  The one makes an owner, the first owner goes, and
then the other one
    makes a member of the new owner. -/
def overlapping : List (Event Call Empty Unit) :=
  [.call (.addMember "t" "u" (some "member") none 1), .resume 0 (),
    .call (.addMember "t" "u" (some "owner") none 2), .resume 1 (), .resume 1 (),
    .call (.removeMember "t" "o"), .resume 2 (), .resume 2 (), .resume 0 ()]

theorem overlapping_additions_take_the_owner :
    HasOwner byDefault "t" oneOwner ∧
      ¬ Runs.Always (step byDefault) (fun s => HasOwner byDefault "t" s.store) { store := oneOwner }
        overlapping := by
  decide

/-- An addition, and a removal between its steps. -/
def inBetween : List (Event Call Empty Unit) :=
  [.call (.addMember "t" "u" (some "owner") none 1), .resume 0 (), .call (.removeMember "t" "o"),
    .resume 1 (), .resume 0 (), .resume 1 ()]

theorem keeps_owner_in_between :
    Runs.Always (step byDefault) (fun s => HasOwner byDefault "t" s.store) { store := oneOwner }
      inBetween :=
  keeps_last_owner byDefault "t" oneOwner inBetween (by decide) (by decide)

end TenantService
