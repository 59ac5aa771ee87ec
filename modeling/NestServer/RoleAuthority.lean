import NestServer.TenantGuard

/-! # Membership roles never answer for the platform

    A membership's role is text a customer chose.  When every real role a
    handler requires has global scope, the guard's decision may depend on
    WHETHER the user is a member, never on the role string of the membership.

    Two runs of the guard are compared: over membership tables, and over
    guards whose caches were filled from such tables, that agree on which
    memberships are active.  `findMembershipCached_isSome` is the only place the
    tables meet; `satisfiesRequiredRoles_platform` is the only place a role
    string could enter the decision, and it does not. -/

open RoleEnum

namespace TenantGuard

/-- The same memberships are active, whatever roles they carry. -/
def SameActive (members members' : List Member) : Prop :=
  ∀ q : MembershipQuery, (q.answer members).isSome = (q.answer members').isSome

/-- Two guards that looked the same users up at the same times: same TTL and
    configuration, the same keys cached until the same moment. -/
structure SameLookups (g g' : Guard) : Prop where
  ttl    : g.cacheTtlMs = g'.cacheTtlMs
  env    : g.isTestEnv = g'.isTestEnv
  seen   : g.lastSeenConfig = g'.lastSeenConfig
  cached : ∀ key, (g.membershipCache.get? key).map CachedMembership.expiresAt
    = (g'.membershipCache.get? key).map CachedMembership.expiresAt

/-- Allow, or the exception of the refusal. -/
def Outcome.decision (o : Outcome) : Except HttpException Unit := o.map fun _ => ()

/-- The tables agree when the same user is an active member of the same
    tenants. -/
theorem sameActive_of_mem {members members' : List Member}
    (h : ∀ u t, (∃ m ∈ members, m.status = .ACTIVE ∧ m.tenant = t ∧ m.user = u)
      ↔ ∃ m ∈ members', m.status = .ACTIVE ∧ m.tenant = t ∧ m.user = u) :
    SameActive members members' := by
  intro q
  rw [Bool.eq_iff_iff, MembershipQuery.answer, MembershipQuery.answer,
    List.find?_isSome, List.find?_isSome]
  simpa [and_assoc] using h q.userId q.tenantId

section TwoRuns

variable {p : Platform} {members' : List Member} {g g' : Guard}

/-- Both lookups find a membership, or neither does. -/
theorem findMembershipCached_isSome (htables : SameActive p.members members')
    (hg : SameLookups g g') (userId tenantId : String) :
    (findMembershipCached p g userId tenantId).1.isSome
      = (findMembershipCached { p with members := members' } g' userId tenantId).1.isSome := by
  have hq := htables ⟨userId, tenantId, p.now, g.cacheTtlMs⟩
  have hc := hg.cached (MembershipQuery.key ⟨userId, tenantId, p.now, g.cacheTtlMs⟩)
  unfold findMembershipCached startMembership
  simp only [← hg.ttl]
  by_cases hoff : g.cacheTtlMs ≤ 0
  · rw [if_pos hoff, if_pos hoff]
    exact hq
  · rw [if_neg hoff, if_neg hoff]
    cases h1 : g.membershipCache.get?
        (MembershipQuery.key ⟨userId, tenantId, p.now, g.cacheTtlMs⟩) with
    | none =>
        cases h2 : g'.membershipCache.get?
            (MembershipQuery.key ⟨userId, tenantId, p.now, g.cacheTtlMs⟩) with
        | none => exact hq
        | some e' => rw [h1, h2] at hc; cases hc
    | some e =>
        cases h2 : g'.membershipCache.get?
            (MembershipQuery.key ⟨userId, tenantId, p.now, g.cacheTtlMs⟩) with
        | none => rw [h1, h2] at hc; cases hc
        | some e' =>
            have hexp : e.expiresAt = e'.expiresAt := by
              rw [h1, h2] at hc
              exact Option.some.inj hc
            dsimp only
            by_cases hlt : (p.now : Int) < e'.expiresAt
            · rw [hexp, if_pos hlt, if_pos hlt]
              rfl
            · rw [hexp, if_neg hlt, if_neg hlt]
              exact hq

/-- A list of platform roles is answered by `user.roles` alone. -/
theorem satisfiesRequiredRoles_platform {v : Vocabulary} {checkableRoles : List String}
    (hglobal : ∀ r ∈ checkableRoles, v.isGlobal r = true) (user : GuardUser)
    (role role' : String) :
    satisfiesRequiredRoles v checkableRoles user role
      = satisfiesRequiredRoles v checkableRoles user role' := by
  unfold satisfiesRequiredRoles
  rw [v.tenantSatisfiable_eq_nil hglobal]
  simp

theorem enrichPublicRequest_decision (g : Guard) (request : GuardRequest)
    (header : Option String) :
    (enrichPublicRequest p g request header).1.decision = .ok () := by
  unfold enrichPublicRequest
  split
  · rfl
  · split
    · rfl
    · split
      · dsimp only
        split <;> rfl
      · rfl

theorem handleSystemRole_decision (htables : SameActive p.members members')
    (hg : SameLookups g g') (user : GuardUser) (tenantId : String)
    (request : GuardRequest) (isAdmin : Bool) :
    (handleSystemRoleWithTenantHeader p g user tenantId request isAdmin).1.decision
      = (handleSystemRoleWithTenantHeader { p with members := members' } g' user tenantId
          request isAdmin).1.decision := by
  have hsome := findMembershipCached_isSome htables hg user.id tenantId
  unfold handleSystemRoleWithTenantHeader
  split
  · rfl
  · dsimp only
    cases h1 : (findMembershipCached p g user.id tenantId).1 with
    | none =>
        cases h2 : (findMembershipCached { p with members := members' } g'
            user.id tenantId).1 with
        | none => rfl
        | some m' => rw [h1, h2] at hsome; cases hsome
    | some m =>
        cases h2 : (findMembershipCached { p with members := members' } g'
            user.id tenantId).1 with
        | none => rw [h1, h2] at hsome; cases hsome
        | some m' => rfl

theorem grantBySystemRole_decision (htables : SameActive p.members members')
    (hg : SameLookups g g') (user : GuardUser) (header : Option String) (skip : Bool)
    (request : GuardRequest) (isAdmin : Bool) :
    (grantBySystemRole p g user header skip request isAdmin).1.decision
      = (grantBySystemRole { p with members := members' } g' user header skip request
          isAdmin).1.decision := by
  cases header with
  | none => rfl
  | some tenantId =>
      unfold grantBySystemRole
      dsimp only
      split
      · rfl
      · exact handleSystemRole_decision htables hg user tenantId request isAdmin

theorem checkWithHeader_decision (htables : SameActive p.members members')
    (hg : SameLookups g g') {checkableRoles : List String}
    (hglobal : ∀ r ∈ checkableRoles, p.vocabulary.isGlobal r = true)
    (request : GuardRequest) (isAdmin : Bool) (tenantId : String) :
    (checkWithHeader p g request isAdmin checkableRoles tenantId).1.decision
      = (checkWithHeader { p with members := members' } g' request isAdmin checkableRoles
          tenantId).1.decision := by
  unfold checkWithHeader
  split
  · rfl
  · split
    · rfl
    · next user huser =>
        have hsome := findMembershipCached_isSome htables hg user.id tenantId
        dsimp only
        cases h1 : (findMembershipCached p g user.id tenantId).1 with
        | none =>
            cases h2 : (findMembershipCached { p with members := members' } g'
                user.id tenantId).1 with
            | none => rfl
            | some m' => rw [h1, h2] at hsome; cases hsome
        | some m =>
            cases h2 : (findMembershipCached { p with members := members' } g'
                user.id tenantId).1 with
            | none => rw [h1, h2] at hsome; cases hsome
            | some m' =>
                have hroles := satisfiesRequiredRoles_platform hglobal user m.role m'.role
                show Outcome.decision (if _ then _ else _ : Outcome × Guard).1
                  = Outcome.decision (if satisfiesRequiredRoles p.vocabulary _ _ _ = true
                      then _ else _ : Outcome × Guard).1
                rw [hroles]
                split <;> rfl

theorem withTenantIds_decision (g : Guard) (request : GuardRequest) (user : GuardUser)
    (minLevel : Option Level) :
    (withTenantIds p g request user minLevel).1.decision = .ok () := by
  unfold withTenantIds
  split <;> rfl

theorem checkWithoutHeader_decision (request : GuardRequest) (isAdmin : Bool)
    (checkableRoles : List String) (minLevel : Option Level) :
    (checkWithoutHeader p g request isAdmin checkableRoles minLevel).1.decision
      = (checkWithoutHeader { p with members := members' } g' request isAdmin checkableRoles
          minLevel).1.decision := by
  unfold checkWithoutHeader
  split
  · rfl
  · split
    · split
      · rfl
      · show Outcome.decision (if _ then _ else _ : Outcome × Guard).1
          = Outcome.decision (if p.vocabulary.checkRoleAccess _ _ _ = true
              then _ else _ : Outcome × Guard).1
        split
        · rw [withTenantIds_decision, withTenantIds_decision]
        · rfl
    · split
      · rw [withTenantIds_decision, withTenantIds_decision]
      · rfl

theorem decideRequest_decision (htables : SameActive p.members members')
    (hg : SameLookups g g') {ctx : ExecutionContext}
    (hglobal : ∀ r ∈ ctx.checkableRoles, p.vocabulary.isGlobal r = true)
    (request : GuardRequest) (isAdmin : Bool) (header : Option String) :
    (decideRequest p g ctx request isAdmin header).1.decision
      = (decideRequest { p with members := members' } g' ctx request isAdmin
          header).1.decision := by
  unfold decideRequest
  split
  · rfl
  · split
    · rw [enrichPublicRequest_decision, enrichPublicRequest_decision]
    · split
      · split
        · rfl
        · exact grantBySystemRole_decision htables hg _ _ _ _ _
      · split
        · split
          · rfl
          · split
            · exact grantBySystemRole_decision htables hg _ _ _ _ _
            · rfl
        · unfold checkRealRoles
          split
          · rfl
          · split
            · exact checkWithHeader_decision htables hg hglobal _ _ _
            · dsimp only
              split
              · rfl
              · exact checkWithoutHeader_decision _ _ _ _

/-- The config check keeps two guards in step. -/
theorem sameLookups_detectConfigChange (hg : SameLookups g g') (c : ConfigObject) :
    SameLookups (g.detectConfigChange c) (g'.detectConfigChange c) := by
  unfold Guard.detectConfigChange
  rw [← hg.seen]
  split
  · exact hg
  · constructor
    · show effectiveTtl g.isTestEnv c = effectiveTtl g'.isTestEnv c
      rw [hg.env]
    · exact hg.env
    · rfl
    · intro key
      rfl

end TwoRuns

/-- The required roles are system roles or platform roles. -/
def OnlyPlatformRoles (v : Vocabulary) (roles : List String) : Prop :=
  ∀ r ∈ roles, isSystemRole r = true ∨ v.scopeOf r = .GLOBAL

theorem OnlyPlatformRoles.isGlobal {v : Vocabulary} {roles : List String}
    (h : OnlyPlatformRoles v roles) :
    ∀ r ∈ roles.filter (fun r => !isSystemRole r), v.isGlobal r = true := by
  intro r hr
  obtain ⟨hmem, hsys⟩ := List.mem_filter.mp hr
  rcases h r hmem with h1 | h1
  · rw [h1] at hsys; cases hsys
  · exact v.isGlobal_of_scope h1

/-- **Membership roles never answer for platform authority.** When the real
    roles a handler requires all have global scope, the guard decides alike
    over any two tables with the same active memberships, and the field check
    decides alike under any two tenant roles. -/
theorem platformRoles_ignore_membership_roles (p : Platform) (members' : List Member)
    (g g' : Guard) (ctx : ExecutionContext) (roles : List String)
    (userRoles : Option (List String)) (tenantRole tenantRole' : Option String)
    (hcoherent : p.vocabulary.assertRoleVocabularyIsCoherent = .ok ())
    (hctx : OnlyPlatformRoles p.vocabulary ctx.roles)
    (hroles : OnlyPlatformRoles p.vocabulary roles)
    (htables : SameActive p.members members') (hg : SameLookups g g') :
    (canActivate p g ctx).1.decision
      = (canActivate { p with members := members' } g' ctx).1.decision
    ∧ p.vocabulary.checkFieldRoleAccess roles userRoles tenantRole
      = p.vocabulary.checkFieldRoleAccess roles userRoles tenantRole'
    ∧ ∀ config, p.vocabulary.multiTenancy = some config → config.active = true →
        ∀ r, r ≠ "" → r = ADMIN.value ∨ r ∈ config.globalOnlyRoles.getD [] →
          p.vocabulary.scopeOf r = .GLOBAL := by
  refine ⟨?_, ?_, ?_⟩
  · unfold canActivate
    dsimp only
    split
    · rfl
    · next c _ =>
        split
        · rfl
        · split
          · rfl
          · exact decideRequest_decision htables (sameLookups_detectConfigChange hg c)
              hctx.isGlobal _ _ _
  · unfold Vocabulary.checkFieldRoleAccess
    rw [p.vocabulary.resolve_tenant_eq_nil hroles.isGlobal]
    simp
  · intro config hconfig hactive r hne hr
    exact p.vocabulary.declaredGlobal_scopeOf hconfig hactive hcoherent hne hr

/-- A tenant owner who is promoted by his own tenant to `billing-admin` gains
    nothing on a handler for the platform's `billing-admin`. -/
theorem platformRoles_ignore_membership_roles_owner :
    let p : Platform := { config := some ⟨1, { globalOnlyRoles := some ["billing-admin"] }⟩
                          members := [⟨"u", "acme", "owner", .ACTIVE⟩] }
    let ctx : ExecutionContext :=
      { request := some { headers := [("x-tenant-id", .text "acme")], user := some { id := "u" } }
        handlerRoles := some ["billing-admin"] }
    (canActivate p (Guard.init false) ctx).1.decision
      = (canActivate { p with members := [⟨"u", "acme", "billing-admin", .ACTIVE⟩] }
          (Guard.init false) ctx).1.decision :=
  (platformRoles_ignore_membership_roles
    { config := some ⟨1, { globalOnlyRoles := some ["billing-admin"] }⟩
      members := [⟨"u", "acme", "owner", .ACTIVE⟩] }
    [⟨"u", "acme", "billing-admin", .ACTIVE⟩] (Guard.init false) (Guard.init false)
    { request := some { headers := [("x-tenant-id", .text "acme")], user := some { id := "u" } }
      handlerRoles := some ["billing-admin"] }
    ["billing-admin"] none (some "owner") (some "billing-admin")
    (by decide) (by unfold OnlyPlatformRoles; decide) (by unfold OnlyPlatformRoles; decide)
    (sameActive_of_mem (by simp))
    ⟨rfl, rfl, rfl, fun _ => rfl⟩).1

end TenantGuard
