import NestServer.RestrictedCheck

/-! # The roles of an input, checked twice

    `check` of `input.helper.ts` and the restriction evaluation of
    `restricted.decorator.ts` are two copies of one decision.  They share every
    right but one: only the second lets the membership of the request's tenant,
    and the platform roles of a user, answer for the listed roles.

    `check_agrees_iff` says when that makes a difference. -/

open RoleEnum JsTree

namespace Restricted

namespace Access

variable (a : Access)

/-- The condition of `check`, in its order. -/
def grants (roles : List String) (o : Ownership) (isCreatorOfParent : Bool) : Bool :=
  roles.contains S_EVERYONE.value
    || (roles.contains S_USER.value && a.hasId)
    || (a.user.bind User.hasRole).any (fun hasRole => hasRole roles)
    || (roles.contains S_SELF.value && o.self)
    || (roles.contains S_CREATOR.value && a.isCreator o isCreatorOfParent)
    || (roles.contains S_VERIFIED.value
        && a.user.any fun u => u.has "verified" || u.has "verifiedAt" || u.has "emailVerified")

/-- The role check of `check(value, user, { roles, dbObject, ... })`. -/
def checkRoles (roles : List String) (isCreatorOfParent : Bool) : Except Failure Unit :=
  if roles ≠ [] ∧ a.config.throwsError then
    if roles.contains S_NO_ONE.value then .error (.denied (.Forbidden TenantGuard.ACCESS_DENIED))
    else if a.grants roles (ownershipOf a.config.dbObject a.userId) isCreatorOfParent then .ok ()
    else .error a.accessDeniedException
  else .ok ()

/-- A right that both copies test. -/
inductive CommonRight (roles : List String) (o : Ownership) (isCreatorOfParent : Bool) : Prop
  | everyone : S_EVERYONE.value ∈ roles → CommonRight roles o isCreatorOfParent
  | user     : S_USER.value ∈ roles → a.hasId = true → CommonRight roles o isCreatorOfParent
  | hasRole (f : List String → Bool) : a.user.bind User.hasRole = some f → f roles = true →
      CommonRight roles o isCreatorOfParent
  | self     : S_SELF.value ∈ roles → o.self = true → CommonRight roles o isCreatorOfParent
  | creator  : S_CREATOR.value ∈ roles → a.isCreator o isCreatorOfParent = true →
      CommonRight roles o isCreatorOfParent
  | verified (u : User) : S_VERIFIED.value ∈ roles → a.user = some u →
      (u.has "verified" || u.has "verifiedAt" || u.has "emailVerified") = true →
      CommonRight roles o isCreatorOfParent

/-- A listed platform role that the user's own roles have. -/
def PlatformRole (roles : List String) : Prop :=
  ∃ r ∈ roles, isSystemRole r = false ∧ a.vocabulary.isGlobal r = true ∧
    r ∈ (a.user.bind User.roles).getD []

/-- The listed roles that a membership may answer. -/
def membershipRoles (roles : List String) : List String :=
  roles.filter fun r => !isSystemRole r && !a.vocabulary.isGlobal r

/-- The membership, or without one the user's own roles, reach what is left of the list. -/
def MembershipRole (roles : List String) : Prop :=
  a.membershipRoles roles ≠ []
    ∧ a.vocabulary.checkRoleAccess (a.membershipRoles roles) (a.user.bind User.roles) a.tenantRole =
      true

/-! ## What each copy decides -/

variable {a} {roles : List String} {o : Ownership} {flag : Bool}

theorem grants_iff : a.grants roles o flag = true ↔ a.CommonRight roles o flag := by
  simp only [grants, Bool.or_eq_true, Bool.and_eq_true, List.contains_iff_mem, Option.any_eq_true]
  constructor
  · rintro (((((h | ⟨h, hid⟩) | ⟨f, hf, h⟩) | ⟨h, hself⟩) | ⟨h, hcreator⟩) | ⟨h, u, hu, hverified⟩)
    · exact .everyone h
    · exact .user h hid
    · exact .hasRole f hf h
    · exact .self h hself
    · exact .creator h hcreator
    · exact .verified u h hu (by simpa only [Bool.or_eq_true] using hverified)
  · intro h
    cases h with
    | everyone h            => exact .inl (.inl (.inl (.inl (.inl h))))
    | user h hid            => exact .inl (.inl (.inl (.inl (.inr ⟨h, hid⟩))))
    | hasRole f hf h        => exact .inl (.inl (.inl (.inr ⟨f, hf, h⟩)))
    | self h hself          => exact .inl (.inl (.inr ⟨h, hself⟩))
    | creator h hcreator    => exact .inl (.inr ⟨h, hcreator⟩)
    | verified u h hu hverified =>
        exact .inr ⟨h, u, hu, by simpa only [Bool.or_eq_true] using hverified⟩

theorem checkFieldRoleAccess_iff :
    a.vocabulary.checkFieldRoleAccess roles (a.user.bind User.roles) a.tenantRole = true
      ↔ a.PlatformRole roles ∨ a.MembershipRole roles := by
  rw [Vocabulary.checkFieldRoleAccess, Vocabulary.resolveGlobalAndTenantRoles,
    List.partition_eq_filter_filter]
  have hmembership : ((roles.filter fun r => !isSystemRole r).filter (not ∘ a.vocabulary.isGlobal))
      = a.membershipRoles roles := by
    rw [membershipRoles, List.filter_filter]
    refine List.filter_congr fun r _ => ?_
    simp [Bool.and_comm]
  rw [hmembership, Bool.or_eq_true, Bool.and_eq_true, decide_eq_true_eq, MembershipRole]
  refine or_congr ?_ Iff.rfl
  simp only [PlatformRole, List.any_eq_true, List.mem_filter, List.contains_iff_mem,
    Bool.not_eq_true']
  constructor
  · rintro ⟨r, ⟨⟨hr, hsystem⟩, hglobal⟩, hmem⟩
    exact ⟨r, hr, hsystem, hglobal, hmem⟩
  · rintro ⟨r, hr, hsystem, hglobal, hmem⟩
    exact ⟨r, ⟨⟨hr, hsystem⟩, hglobal⟩, hmem⟩

/-- The rights of the restriction evaluation: those of `check`, and the roles. -/
theorem hasRight_iff : a.hasRight roles o flag = true
    ↔ a.CommonRight roles o flag ∨ a.hasId = true ∧
      (a.PlatformRole roles ∨ a.MembershipRole roles) := by
  rw [← grants_iff, ← checkFieldRoleAccess_iff, ← Bool.and_eq_true, ← Bool.or_eq_true]
  refine Eq.congr ?_ rfl
  rw [hasRight, grants, Bool.and_comm a.hasId (roles.contains S_USER.value)]
  generalize (a.hasId && _) = fieldRoles
  generalize (roles.contains S_USER.value && a.hasId) = loggedIn
  ac_rfl

/-- A restriction of nothing but roles denies where they are all refused. -/
theorem not_admits_iff {restricted : RestrictedType}
    (hroles : restricted.flatMap a.config.rolesOf = roles)
    (hgroups : restricted.flatMap a.config.memberOf = []) :
    a.admits restricted o flag = false ↔ roles ≠ []
      ∧ (S_NO_ONE.value ∈ roles ∨ a.hasRight roles o flag = false) := by
  rw [admits, hroles, hgroups]
  by_cases hnil : restricted = []
  · have hempty : roles = [] := by
      rw [← hroles, hnil]
      rfl
    simp [hnil, hempty]
  · rw [if_neg hnil]
    by_cases hnoOne : S_NO_ONE.value ∈ roles
    · have hne : roles ≠ [] := List.ne_nil_of_mem hnoOne
      simp [hnoOne, hne]
    · by_cases hempty : roles = []
      · simp [hempty]
      · simp [hnoOne, hempty]

theorem checkRoles_error_iff (hthrow : a.config.throwsError = true) :
    (∃ e, a.checkRoles roles flag = .error e) ↔ roles ≠ []
      ∧ (S_NO_ONE.value ∈ roles ∨
        ¬ a.CommonRight roles (ownershipOf a.config.dbObject a.userId) flag) := by
  rw [checkRoles, hthrow]
  by_cases hempty : roles = []
  · simp [hempty]
  · rw [if_pos ⟨hempty, rfl⟩]
    by_cases hnoOne : S_NO_ONE.value ∈ roles
    · simp [hnoOne, hempty]
    · rw [if_neg (by simpa using hnoOne)]
      by_cases hcommon : a.CommonRight roles (ownershipOf a.config.dbObject a.userId) flag
      · rw [if_pos (grants_iff.mpr hcommon)]
        simp [hnoOne, hcommon]
      · rw [if_neg (fun h => hcommon (grants_iff.mp h))]
        simp [hempty, hcommon]

/-- **Where the two copies agree on an input.** They do unless only the platform
    roles or the membership of a user with an id answer for the list. -/
theorem check_agrees_iff (a : Access) (roles : List String) (isCreatorOfParent : Bool)
    (restricted : RestrictedType) (data : Object)
    (hinput : a.config.processType = some .INPUT) (hthrow : a.config.throwsError = true)
    (hroles : restricted.flatMap a.config.rolesOf = roles)
    (hgroups : restricted.flatMap a.config.memberOf = []) :
    ((∃ e, a.checkRoles roles isCreatorOfParent = .error e)
        ↔ a.admits restricted (a.ownership data) isCreatorOfParent = false)
      ↔ roles = [] ∨ S_NO_ONE.value ∈ roles
        ∨ a.CommonRight roles (ownershipOf a.config.dbObject a.userId) isCreatorOfParent
        ∨ a.hasId = false ∨ (¬ a.PlatformRole roles ∧ ¬ a.MembershipRole roles) := by
  have howner : a.ownership data = ownershipOf a.config.dbObject a.userId := by
    rw [ownership, if_pos hinput]
  rw [checkRoles_error_iff hthrow, not_admits_iff hroles hgroups, howner, ← Bool.not_eq_true,
    hasRight_iff, ← Bool.not_eq_true]
  generalize ownershipOf a.config.dbObject a.userId = o
  by_cases hempty : roles = []
  · simp [hempty]
  · by_cases hnoOne : S_NO_ONE.value ∈ roles
    · simp [hnoOne]
    · by_cases hcommon : a.CommonRight roles o isCreatorOfParent
      · simp [hcommon]
      · simp only [ne_eq, hempty, not_false_eq_true, hnoOne, hcommon, false_or, true_and]
        tauto

/-- A user without roles, in a tenant or outside of it. -/
def ofTenant (tenantRole : Option String) : Access where
  registry   := fun _ => none
  vocabulary := { multiTenancy := some {} }
  tenantRole := tenantRole
  user       := some { fields := [("id", .oid "65a1")], hasRole := some fun _ => false, roles := some [] }
  config     := { processType := some .INPUT }

/-- Outside of a tenant both refuse what managers may do. -/
theorem outside_of_tenant_agree :
    (∃ e, (ofTenant none).checkRoles ["manager"] false = .error e)
      ↔ (ofTenant none).admits [.roles ["manager"]] ((ofTenant none).ownership []) false =
        false := by
  refine (check_agrees_iff (ofTenant none) ["manager"] false [.roles ["manager"]] [] rfl rfl rfl
    rfl).mpr ?_
  refine .inr (.inr (.inr (.inr ⟨?_, ?_⟩)))
  · rintro ⟨r, -, -, -, hmem⟩
    cases hmem
  · rintro ⟨-, hcheck⟩
    revert hcheck
    decide +kernel

/-- The owner of a tenant is refused by `check` what the restriction allows to managers. -/
theorem owner_refused_by_check :
    ¬ ∀ (a : Access) (roles : List String) (isCreatorOfParent : Bool),
      a.config.processType = some .INPUT →
      a.config.throwsError = true →
      ((∃ e, a.checkRoles roles isCreatorOfParent = .error e)
        ↔ a.admits [.roles roles] (a.ownership []) isCreatorOfParent = false) := by
  intro h
  have hdenied := (h (ofTenant (some "owner")) ["manager"] false rfl rfl).mp ⟨_, rfl⟩
  revert hdenied
  decide +kernel

end Access

end Restricted
