import NestServer.TenantGuard

/-! # The tenant context an admitted request carries

    With the membership cache off, whatever `canActivate` leaves on a request
    it admits is backed by the header and the membership table: a tenant id is
    the trimmed header and belongs to a bypassing administrator or to an active
    member whose role is the tenant role; a list of tenant ids names tenants
    the user is an active member of.

    Every early return of the guard either leaves the request as it came,
    writes an administrator's scope, or writes a member's scope; the three
    lemmas `sound_unchanged`, `sound_admin` and `sound_member` cover them, and
    one lemma per block of the guard picks the right one. -/

open RoleEnum

namespace TenantGuard

variable {p : Platform} {config : MultiTenancy} {request : GuardRequest}

/-- The table holds an active membership of the user in the tenant. -/
def ActiveMembership (p : Platform) (userId tenantId : String) (m : Member) : Prop :=
  m ∈ p.members ∧ m.status = .ACTIVE ∧ m.user = userId ∧ m.tenant = tenantId

/-- The tenant context on `left` is backed by the header of `request`, its user
    and the membership table. -/
structure SoundContext (p : Platform) (config : MultiTenancy)
    (request left : GuardRequest) : Prop where
  tenant : ∀ t, left.context.tenantId = some t →
    (∃ raw, rawTenantHeader config request = some raw ∧ t = JsText.trim raw) ∧
    ∃ user, request.user = some user ∧
      ((ADMIN.value ∈ user.roles.getD [] ∧ config.adminBypass ≠ some false
          ∧ left.context.isAdminBypass = some true) ∨
       ∃ m, ActiveMembership p user.id t m ∧ left.context.tenantRole = some m.role)
  tenants : left.context.tenantId = none → ∀ ids, left.context.tenantIds = some ids →
    ∃ user, request.user = some user ∧ ∀ t ∈ ids, ∃ m, ActiveMembership p user.id t m

/-- Every request an outcome admits has a sound context. -/
def Outcome.Sound (p : Platform) (config : MultiTenancy) (request : GuardRequest)
    (o : Outcome) : Prop :=
  ∀ left, o = .ok (some left) → SoundContext p config request left

/-! ## Reads of the membership table -/

/-- The membership query answers with an active membership of that user in
    that tenant. -/
theorem answer_active {q : MembershipQuery} {m : Member}
    (h : q.answer p.members = some m) : ActiveMembership p q.userId q.tenantId m := by
  have hmem := List.mem_of_find?_eq_some h
  have hp := List.find?_some h
  simp only [Bool.and_eq_true, decide_eq_true_eq] at hp
  exact ⟨hmem, hp.1.1, hp.2, hp.1.2⟩

/-- Filtering by level only drops tenants. -/
theorem mem_tenantIdsOf {v : Vocabulary} {minLevel : Option Level}
    {memberships : List Member} {t : String}
    (h : t ∈ tenantIdsOf v minLevel memberships) : ∃ m ∈ memberships, m.tenant = t := by
  cases minLevel with
  | none => exact List.mem_map.mp h
  | some level =>
      obtain ⟨m, hm, ht⟩ := List.mem_map.mp h
      exact ⟨m, (List.mem_filter.mp hm).1, ht⟩

theorem tenantIds_active {q : TenantIdsQuery} {v : Vocabulary} {t : String}
    (h : t ∈ tenantIdsOf v q.minLevel (q.answer p.members)) :
    ∃ m, ActiveMembership p q.userId t m := by
  obtain ⟨m, hm, ht⟩ := mem_tenantIdsOf h
  obtain ⟨hmem, hp⟩ := List.mem_filter.mp hm
  simp only [Bool.and_eq_true, decide_eq_true_eq] at hp
  exact ⟨m, hmem, hp.1, hp.2, ht⟩

/-- Without a cache a membership lookup is the query. -/
theorem findMembershipCached_of_disabled {g : Guard} (h : g.cacheTtlMs ≤ 0)
    (userId tenantId : String) :
    findMembershipCached p g userId tenantId
      = (MembershipQuery.answer p.members ⟨userId, tenantId, p.now, g.cacheTtlMs⟩, g) := by
  rw [findMembershipCached, startMembership, if_pos h]
  exact congrArg (Prod.mk _) (if_pos h)

/-- Without a cache the tenant ids are the query's. -/
theorem resolveUserTenantIds_of_disabled {g : Guard} (h : g.cacheTtlMs ≤ 0)
    (userId : String) (minLevel : Option Level) :
    resolveUserTenantIds p g userId minLevel
      = (tenantIdsOf p.vocabulary minLevel
          (TenantIdsQuery.answer p.members ⟨userId, minLevel, g.cacheTtlMs⟩), g) := by
  rw [resolveUserTenantIds, startTenantIds, if_pos h]
  exact congrArg (Prod.mk _) (if_pos h)

/-- An accepted header is the trimmed value of the request's header. -/
theorem parseTenantHeader_eq_some {raw : Option String} {t : String}
    (h : parseTenantHeader raw = some t) : ∃ r, raw = some r ∧ t = JsText.trim r := by
  obtain ⟨r, hr, ht⟩ := Option.bind_eq_some_iff.mp h
  split at ht
  · exact ⟨r, hr, (Option.some.inj ht).symm⟩
  · cases ht

/-- An administrator with the bypass on is a user with the global role. -/
theorem isAdminUser_iff {user : Option GuardUser} :
    isAdminUser config user = true ↔
      config.adminBypass ≠ some false ∧
        ∃ u, user = some u ∧ ADMIN.value ∈ u.roles.getD [] := by
  cases user with
  | none => simp [isAdminUser]
  | some u => simp [isAdminUser]

/-! ## The things the guard writes -/

theorem sound_error (e : HttpException) : Outcome.Sound p config request (.error e) := by
  intro left h
  cases h

/-- A fresh request left as it came says nothing about tenants. -/
theorem sound_unchanged (hfresh : request.context = {}) :
    Outcome.Sound p config request (.ok (some request)) := by
  intro left h
  have hleft : request = left := Option.some.inj (Except.ok.inj h)
  subst hleft
  constructor
  · intro t ht
    rw [hfresh] at ht
    cases ht
  · intro _ ids hids
    rw [hfresh] at hids
    cases hids

/-- An administrator's scope: the header's tenant, marked as a bypass. -/
theorem sound_admin {t : String}
    (hheader : parseTenantHeader (rawTenantHeader config request) = some t)
    (hadmin : isAdminUser config request.user = true) :
    Outcome.Sound p config request (.ok (some { request with context :=
      { request.context with tenantId := some t, isAdminBypass := some true } })) := by
  intro left h
  have hleft := Option.some.inj (Except.ok.inj h)
  subst hleft
  obtain ⟨hbypass, user, huser, hrole⟩ := isAdminUser_iff.mp hadmin
  constructor
  · intro t' ht'
    have heq : t = t' := Option.some.inj ht'
    subst heq
    exact ⟨parseTenantHeader_eq_some hheader, user, huser, Or.inl ⟨hrole, hbypass, rfl⟩⟩
  · intro hnone
    cases hnone

/-- An administrator without a header: no tenant at all. -/
theorem sound_bypass (hfresh : request.context = {}) :
    Outcome.Sound p config request (.ok (some { request with context :=
      { request.context with isAdminBypass := some true } })) := by
  intro left h
  have hleft := Option.some.inj (Except.ok.inj h)
  subst hleft
  rw [hfresh]
  constructor
  · intro t ht
    cases ht
  · intro _ ids hids
    cases hids

/-- A member's scope: the header's tenant with the membership's role. -/
theorem sound_member {t : String} {user : GuardUser} {m : Member}
    (hheader : parseTenantHeader (rawTenantHeader config request) = some t)
    (huser : request.user = some user) (hm : ActiveMembership p user.id t m) :
    Outcome.Sound p config request (.ok (some { request with context :=
      { request.context with tenantId := some t, tenantRole := some m.role } })) := by
  intro left h
  have hleft := Option.some.inj (Except.ok.inj h)
  subst hleft
  constructor
  · intro t' ht'
    have heq : t = t' := Option.some.inj ht'
    subst heq
    exact ⟨parseTenantHeader_eq_some hheader, user, huser, Or.inr ⟨m, hm, rfl⟩⟩
  · intro hnone
    cases hnone

/-! ## Block by block -/

section Blocks

variable {g : Guard} {ctx : ExecutionContext} {user : GuardUser} {t : String}

theorem enrichPublicRequest_sound (hoff : g.cacheTtlMs ≤ 0) (hfresh : request.context = {}) :
    Outcome.Sound p config request (enrichPublicRequest p g request
      (parseTenantHeader (rawTenantHeader config request))).1 := by
  unfold enrichPublicRequest
  split
  · exact sound_unchanged hfresh
  · next t hheader =>
      split
      · exact sound_unchanged hfresh
      · next user huser =>
          split
          · rw [findMembershipCached_of_disabled hoff]
            dsimp only
            split
            · next m hm => exact sound_member hheader huser (answer_active hm)
            · exact sound_unchanged hfresh
          · exact sound_unchanged hfresh

theorem handleSystemRole_sound (hoff : g.cacheTtlMs ≤ 0)
    (hheader : parseTenantHeader (rawTenantHeader config request) = some t)
    (huser : request.user = some user) :
    Outcome.Sound p config request (handleSystemRoleWithTenantHeader p g user t request
      (isAdminUser config request.user)).1 := by
  rw [handleSystemRoleWithTenantHeader]
  split
  · next hadmin => exact sound_admin hheader hadmin
  · rw [findMembershipCached_of_disabled hoff]
    dsimp only
    split
    · exact sound_error _
    · next m hm => exact sound_member hheader huser (answer_active hm)

theorem grantBySystemRole_sound (hoff : g.cacheTtlMs ≤ 0) (hfresh : request.context = {})
    (huser : request.user = some user) (hasSkipDecorator : Bool) :
    Outcome.Sound p config request (grantBySystemRole p g user
      (parseTenantHeader (rawTenantHeader config request)) hasSkipDecorator request
      (isAdminUser config request.user)).1 := by
  unfold grantBySystemRole
  split
  · next t hheader =>
      split
      · exact sound_unchanged hfresh
      · exact handleSystemRole_sound hoff hheader huser
  · exact sound_unchanged hfresh

theorem skipWithUserRoleCheck_sound (hfresh : request.context = {})
    (checkableRoles : List String) (isAdmin : Bool) :
    Outcome.Sound p config request
      (skipWithUserRoleCheck p.vocabulary checkableRoles request isAdmin) := by
  rw [skipWithUserRoleCheck]
  split
  · exact sound_unchanged hfresh
  · split
    · exact sound_error _
    · split
      · exact sound_error _
      · exact sound_unchanged hfresh

theorem checkWithHeader_sound (hoff : g.cacheTtlMs ≤ 0)
    (hheader : parseTenantHeader (rawTenantHeader config request) = some t)
    (checkableRoles : List String) :
    Outcome.Sound p config request (checkWithHeader p g request
      (isAdminUser config request.user) checkableRoles t).1 := by
  rw [checkWithHeader]
  split
  · next hadmin => exact sound_admin hheader hadmin
  · split
    · exact sound_error _
    · next user huser =>
        rw [findMembershipCached_of_disabled hoff]
        dsimp only
        split
        · exact sound_error _
        · next m hm =>
            split
            · exact sound_member hheader huser (answer_active hm)
            · exact sound_error _

theorem withTenantIds_sound (hoff : g.cacheTtlMs ≤ 0) (hfresh : request.context = {})
    (huser : request.user = some user) (minLevel : Option Level) :
    Outcome.Sound p config request (withTenantIds p g request user minLevel).1 := by
  have hnone : request.context.tenantIds = none := by rw [hfresh]
  rw [withTenantIds, hnone]
  dsimp only
  rw [resolveUserTenantIds_of_disabled hoff]
  intro left h
  have hleft := Option.some.inj (Except.ok.inj h)
  subst hleft
  constructor
  · intro t ht
    rw [hfresh] at ht
    cases ht
  · intro _ ids hids
    have heq := Option.some.inj hids
    subst heq
    exact ⟨user, huser, fun t ht => tenantIds_active
      (q := ⟨user.id, minLevel, g.cacheTtlMs⟩) ht⟩

theorem checkWithoutHeader_sound (hoff : g.cacheTtlMs ≤ 0) (hfresh : request.context = {})
    (isAdmin : Bool) (checkableRoles : List String) (minLevel : Option Level) :
    Outcome.Sound p config request
      (checkWithoutHeader p g request isAdmin checkableRoles minLevel).1 := by
  rw [checkWithoutHeader]
  split
  · exact sound_bypass hfresh
  · split
    · split
      · exact sound_error _
      · next user huser =>
          split
          · exact withTenantIds_sound hoff hfresh huser minLevel
          · exact sound_error _
    · split
      · next user huser => exact withTenantIds_sound hoff hfresh huser none
      · exact sound_unchanged hfresh

theorem checkRealRoles_sound (hoff : g.cacheTtlMs ≤ 0) (hfresh : request.context = {}) :
    Outcome.Sound p config request (checkRealRoles p g ctx request
      (isAdminUser config request.user)
      (parseTenantHeader (rawTenantHeader config request))).1 := by
  unfold checkRealRoles
  split
  · exact skipWithUserRoleCheck_sound hfresh _ _
  · split
    · next t hheader => exact checkWithHeader_sound hoff hheader _
    · split
      · exact skipWithUserRoleCheck_sound hfresh _ _
      · exact checkWithoutHeader_sound hoff hfresh _ _ _

/-- Every return of the guard, once configuration and request are known. -/
theorem decideRequest_sound (hoff : g.cacheTtlMs ≤ 0) (hfresh : request.context = {}) :
    Outcome.Sound p config request (decideRequest p g ctx request
      (isAdminUser config request.user)
      (parseTenantHeader (rawTenantHeader config request))).1 := by
  unfold decideRequest
  split
  · exact sound_error _
  · split
    · exact enrichPublicRequest_sound hoff hfresh
    · split
      · split
        · exact sound_error _
        · next user huser => exact grantBySystemRole_sound hoff hfresh huser _
      · split
        · split
          · exact sound_error _
          · next user huser =>
              split
              · exact grantBySystemRole_sound hoff hfresh huser _
              · exact sound_error _
        · exact checkRealRoles_sound hoff hfresh

end Blocks

/-- After its config check the guard runs under the TTL the configuration asks
    for, whatever it held before. -/
theorem detectConfigChange_ttl (g : Guard) (c : ConfigObject) :
    (g.detectConfigChange c).cacheTtlMs = effectiveTtl g.isTestEnv c := by
  rw [Guard.detectConfigChange]
  split
  · next hseen => exact g.ttl_seen c hseen
  · rfl

/-- **Tenant context soundness.** For every guard, configuration with caching
    off, handler metadata, membership table and fresh request: an admitted
    request carries a sound context. -/
theorem canActivate_context_sound (p : Platform) (g : Guard) (c : ConfigObject)
    (ctx : ExecutionContext) (request left : GuardRequest)
    (hconfig : p.config = some c) (hactive : c.multiTenancy.active = true)
    (hoff : effectiveTtl g.isTestEnv c ≤ 0)
    (hrequest : ctx.request = some request) (hfresh : request.context = {})
    (hadmitted : (canActivate p g ctx).1 = .ok (some left)) :
    SoundContext p c.multiTenancy request left := by
  rw [canActivate, hconfig] at hadmitted
  dsimp only at hadmitted
  rw [if_neg (by simp [hactive]), hrequest] at hadmitted
  have httl : (g.detectConfigChange c).cacheTtlMs ≤ 0 := by
    rw [detectConfigChange_ttl]
    exact hoff
  exact decideRequest_sound httl hfresh left hadmitted

/-- A member of one tenant asks for it by a padded header. -/
theorem canActivate_context_sound_member :
    SoundContext
      { config  := some ⟨1, { cacheTtlMs := some 0 }⟩
        members := [⟨"u", "acme", "owner", .ACTIVE⟩] }
      { cacheTtlMs := some 0 }
      { headers := [("x-tenant-id", .text " acme ")], user := some { id := "u" } }
      { headers := [("x-tenant-id", .text " acme ")], user := some { id := "u" }
        context := { tenantId := some "acme", tenantRole := some "owner" } } :=
  canActivate_context_sound _ (Guard.init false) ⟨1, { cacheTtlMs := some 0 }⟩
    { request := some
        { headers := [("x-tenant-id", .text " acme ")], user := some { id := "u" } } }
    _ _ rfl (by decide) (by decide) rfl rfl (by decide)

end TenantGuard
