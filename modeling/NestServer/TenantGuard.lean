import NestServer.OrderedMap
import NestServer.TenantRoles

/-! # The tenant guard

    `core-tenant.guard.ts`: `canActivate` decides a request and writes the
    tenant scope onto it; `resolveTenantContext` answers the scope question
    for transports without a request; both read memberships through two
    process-level caches.

    A cached lookup suspends at its database read, so each one is split at
    that `await`: a `start` half that answers from the cache or names the query
    to run, and a `finish` half that files the answer.  The sequential
    functions (`findMembershipCached`, `resolveUserTenantIds`) are the two
    halves with the read between them. -/

open RoleEnum

namespace TenantGuard

inductive TenantMemberStatus where
  | ACTIVE | INVITED | SUSPENDED
deriving DecidableEq, Repr

/-- A row of the membership table (`CoreTenantMemberModel`). -/
structure Member where
  user   : String
  tenant : String
  role   : String
  status : TenantMemberStatus
deriving DecidableEq, Repr

/-- A `multiTenancy` section is a frozen object: `ref` is its identity, and a
    new `setConfig` makes a new one. -/
structure ConfigObject where
  ref          : Nat
  multiTenancy : MultiTenancy
deriving DecidableEq, Repr

/-- The `betterAuth` setting: absent, a boolean shorthand, or an object. -/
inductive BetterAuthConfig where
  | absent
  | flag (on : Bool)
  | options (skipTenantCheck : Option Bool)
deriving DecidableEq, Repr

/-- What the guard reads around itself: configuration, role sources, the
    membership table and the clock. -/
structure Platform where
  config     : Option ConfigObject
  betterAuth : BetterAuthConfig := .absent
  sources    : List RoleScopeSource := []
  members    : List Member := []
  now        : Nat := 0

def Platform.vocabulary (p : Platform) : Vocabulary where
  multiTenancy := p.config.map ConfigObject.multiTenancy
  sources      := p.sources

/-! ## The caches -/

structure CachedMembership where
  expiresAt : Int
  result    : Member
deriving DecidableEq, Repr

structure CachedTenantIds where
  expiresAt : Int
  ids       : List String
deriving DecidableEq, Repr

/-- `config.cacheTtlMs ?? (isTestEnv ? 0 : 30_000)` -/
def effectiveTtl (isTestEnv : Bool) (config : ConfigObject) : Int :=
  config.multiTenancy.cacheTtlMs.getD (if isTestEnv then 0 else 30000)

/-- The guard's own state.  The TTL is refreshed together with the last seen
    configuration, so it is always the one that configuration asks for. -/
structure Guard where
  membershipCache : OrderedMap String CachedMembership
  tenantIdsCache  : OrderedMap String CachedTenantIds
  cacheTtlMs      : Int
  isTestEnv       : Bool
  lastSeenConfig  : Option ConfigObject
  ttl_seen : ∀ c, lastSeenConfig = some c → cacheTtlMs = effectiveTtl isTestEnv c

/-- `new CoreTenantGuard(...)` -/
def Guard.init (isTestEnv : Bool) : Guard where
  membershipCache := .empty
  tenantIdsCache  := .empty
  cacheTtlMs      := 30000
  isTestEnv       := isTestEnv
  lastSeenConfig  := none
  ttl_seen        := fun _ h => by cases h

def MAX_CACHE_SIZE : Nat := 500

/-- `evictIfOverCapacity(cache)`: the first tenth goes. -/
def evictIfOverCapacity {ν : Type} (cache : OrderedMap String ν) : OrderedMap String ν :=
  if MAX_CACHE_SIZE ≤ cache.size then cache.dropOldest (max 1 (MAX_CACHE_SIZE / 10)) else cache

namespace Guard

/-- `clearAll()` -/
def clearAll (g : Guard) : Guard :=
  { g with membershipCache := .empty, tenantIdsCache := .empty }

/-- The key test of `clearUser` on the membership cache. -/
def ownsMembershipKey (userId key : String) : Bool := JsText.startsWith key (userId ++ ":")

/-- The key test of `clearUser` on the tenant-id cache. -/
def ownsTenantIdsKey (userId key : String) : Bool :=
  key = userId || JsText.startsWith key (userId ++ ":")

/-- `clearUser(userId)`, the local part of `invalidateUser(userId)` -/
def clearUser (g : Guard) (userId : String) : Guard :=
  { g with
    membershipCache := g.membershipCache.filterKeys fun key => !ownsMembershipKey userId key
    tenantIdsCache  := g.tenantIdsCache.filterKeys fun key => !ownsTenantIdsKey userId key }

/-- `evictExpired()` -/
def evictExpired (g : Guard) (now : Nat) : Guard :=
  { g with
    membershipCache := g.membershipCache.filterValues fun e => (now : Int) < e.expiresAt
    tenantIdsCache  := g.tenantIdsCache.filterValues fun e => (now : Int) < e.expiresAt }

/-- The config check `canActivate` begins with. -/
def detectConfigChange (g : Guard) (config : ConfigObject) : Guard :=
  if g.lastSeenConfig = some config then g
  else
    { membershipCache := .empty
      tenantIdsCache  := .empty
      cacheTtlMs      := effectiveTtl g.isTestEnv config
      isTestEnv       := g.isTestEnv
      lastSeenConfig  := some config
      ttl_seen        := fun _ h => by rw [Option.some.inj h] }

end Guard

/-! ## Membership lookups, split at the database read -/

/-- A lookup has its answer at once, or has issued a query. -/
inductive Started (α κ : Type) where
  | answered (a : α)
  | querying (q : κ)

/-- The query `findMembershipCached` issues, with what it keeps across it. -/
structure MembershipQuery where
  userId   : String
  tenantId : String
  now      : Nat
  ttl      : Int
deriving DecidableEq, Repr

def MembershipQuery.key (q : MembershipQuery) : String := q.userId ++ ":" ++ q.tenantId

/-- `findOne({ status: ACTIVE, tenant, user })` -/
def MembershipQuery.answer (members : List Member) (q : MembershipQuery) : Option Member :=
  members.find? fun m => m.status = .ACTIVE && m.tenant = q.tenantId && m.user = q.userId

def startMembership (g : Guard) (now : Nat) (userId tenantId : String) :
    Started (Option Member) MembershipQuery :=
  let q : MembershipQuery := ⟨userId, tenantId, now, g.cacheTtlMs⟩
  if q.ttl ≤ 0 then .querying q
  else match g.membershipCache.get? q.key with
    | some cached => if (now : Int) < cached.expiresAt then .answered (some cached.result)
        else .querying q
    | none => .querying q

/-- Only positive answers are cached; a negative one removes a stale entry. -/
def finishMembership (g : Guard) (q : MembershipQuery) (result : Option Member) : Guard :=
  if q.ttl ≤ 0 then g
  else match result with
    | some m => { g with
        membershipCache :=
          (evictIfOverCapacity g.membershipCache).set q.key ⟨q.now + q.ttl, m⟩ }
    | none => { g with membershipCache := g.membershipCache.delete q.key }

/-- `findMembershipCached(userId, tenantId)` -/
def findMembershipCached (p : Platform) (g : Guard) (userId tenantId : String) :
    Option Member × Guard :=
  match startMembership g p.now userId tenantId with
  | .answered result => (result, g)
  | .querying q      => (q.answer p.members, finishMembership g q (q.answer p.members))

/-- The query `resolveUserTenantIds` issues, with what it keeps across it. -/
structure TenantIdsQuery where
  userId   : String
  minLevel : Option Level
  ttl      : Int
deriving DecidableEq, Repr

/-- A level inside a template string. -/
def levelText : Level → String
  | some n => toString n
  | none   => "NaN"

def TenantIdsQuery.key (q : TenantIdsQuery) : String :=
  match q.minLevel with
  | some level => q.userId ++ ":" ++ levelText level
  | none       => q.userId

/-- `find({ status: ACTIVE, user })` -/
def TenantIdsQuery.answer (members : List Member) (q : TenantIdsQuery) : List Member :=
  members.filter fun m => m.status = .ACTIVE && m.user = q.userId

def startTenantIds (g : Guard) (now : Nat) (userId : String) (minLevel : Option Level) :
    Started (List String) TenantIdsQuery :=
  let q : TenantIdsQuery := ⟨userId, minLevel, g.cacheTtlMs⟩
  if q.ttl ≤ 0 then .querying q
  else match g.tenantIdsCache.get? q.key with
    | some cached => if (now : Int) < cached.expiresAt then .answered cached.ids
        else .querying q
    | none => .querying q

/-- `hierarchy[m.role] ?? 0` -/
def memberLevel (hierarchy : List (String × ℚ)) (m : Member) : Level :=
  if inHierarchy hierarchy m.role then levelOf hierarchy m.role else some 0

/-- The tenants of the memberships that reach the minimum level. -/
def tenantIdsOf (v : Vocabulary) (minLevel : Option Level) (memberships : List Member) :
    List String :=
  match minLevel with
  | some level =>
      (memberships.filter fun m => (memberLevel v.getRoleHierarchy m).ge level).map Member.tenant
  | none => memberships.map Member.tenant

/-- The expiry counts from the moment the answer arrived. -/
def finishTenantIds (g : Guard) (q : TenantIdsQuery) (now : Nat) (ids : List String) : Guard :=
  if q.ttl ≤ 0 then g
  else { g with
    tenantIdsCache := (evictIfOverCapacity g.tenantIdsCache).set q.key ⟨now + q.ttl, ids⟩ }

/-- `resolveUserTenantIds(request, minLevel)` for a request without tenant ids. -/
def resolveUserTenantIds (p : Platform) (g : Guard) (userId : String)
    (minLevel : Option Level) : List String × Guard :=
  match startTenantIds g p.now userId minLevel with
  | .answered ids => (ids, g)
  | .querying q   =>
      let ids := tenantIdsOf p.vocabulary q.minLevel (q.answer p.members)
      (ids, finishTenantIds g q p.now ids)

/-! ## Requests -/

/-- `request.user`; the three verification fields by their truthiness. -/
structure GuardUser where
  id            : String
  roles         : Option (List String) := none
  verified      : Bool := false
  verifiedAt    : Bool := false
  emailVerified : Bool := false
deriving DecidableEq, Repr

/-- `ResolvedTenantContext`: the four fields the guard leaves on a request. -/
structure ResolvedTenantContext where
  isAdminBypass : Option Bool := none
  tenantId      : Option String := none
  tenantIds     : Option (List String) := none
  tenantRole    : Option String := none
deriving DecidableEq, Repr

inductive HeaderValue where
  | text (value : String)
  | list (values : List String)
deriving DecidableEq, Repr

structure GuardRequest where
  headers : List (String × HeaderValue) := []
  user    : Option GuardUser := none
  context : ResolvedTenantContext := {}
deriving DecidableEq, Repr

/-- The handler a request is bound for: its `@Roles` and `@SkipTenantCheck`
    metadata on method and class, and whether its class is a Better-Auth one. -/
structure ExecutionContext where
  request             : Option GuardRequest
  handlerRoles        : Option (List String) := none
  classRoles          : Option (List String) := none
  handlerSkip         : Option Bool := none
  classSkip           : Option Bool := none
  isBetterAuthHandler : Bool := false

inductive HttpException where
  | Unauthorized (message : String)
  | Forbidden (message : String)
deriving DecidableEq, Repr

/-- `ErrorCode.UNAUTHORIZED` -/
def UNAUTHORIZED : String := "#LTNS_0100: Unauthorized - User is not logged in"

/-- `ErrorCode.ACCESS_DENIED` -/
def ACCESS_DENIED : String := "#LTNS_0101: Access denied - Insufficient permissions"

/-- `canActivate` throws, or returns true and leaves this request behind. -/
abbrev Outcome := Except HttpException (Option GuardRequest)

/-- The header both entry points accept: a string of at most 128 units,
    trimmed.  An empty one counts as none wherever it is used. -/
def parseTenantHeader (raw : Option String) : Option String :=
  raw.bind fun header =>
    if JsText.truthy header && JsText.length header ≤ 128
        && JsText.truthy (JsText.trim header) then
      some (JsText.trim header)
    else none

/-- `request.headers?.[headerName]`, when it is a string. -/
def rawTenantHeader (config : MultiTenancy) (request : GuardRequest) : Option String :=
  match request.headers.lookup (JsText.toLowerCase (config.headerName.getD "x-tenant-id")) with
  | some (.text value) => some value
  | _                  => none

/-- `mergeRolesMetadata([handlerRoles, classRoles])` -/
def mergeRolesMetadata (handlerRoles classRoles : Option (List String)) : List String :=
  match handlerRoles, classRoles with
  | some h, some c => h ++ c
  | some h, none   => h
  | none,   c      => c.getD []

namespace ExecutionContext

/-- The merged roles: alternatives of method and class. -/
def roles (ctx : ExecutionContext) : List String :=
  mergeRolesMetadata ctx.handlerRoles ctx.classRoles

/-- System roles on the method take precedence over the class. -/
def systemCheckRoles (ctx : ExecutionContext) : List String :=
  if ctx.handlerRoles.getD [] ≠ [] then ctx.handlerRoles.getD [] else ctx.roles

/-- The real roles: those a system role check has not decided. -/
def checkableRoles (ctx : ExecutionContext) : List String :=
  ctx.roles.filter fun r => !isSystemRole r

/-- `getAllAndOverride(SKIP_TENANT_CHECK_KEY, [handler, class])` -/
def hasSkipDecorator (ctx : ExecutionContext) : Bool :=
  (ctx.handlerSkip.or ctx.classSkip).getD false

end ExecutionContext

/-- `adminBypass && user?.roles?.includes(RoleEnum.ADMIN)` -/
def isAdminUser (config : MultiTenancy) (user : Option GuardUser) : Bool :=
  config.adminBypass != some false
    && ((user.bind GuardUser.roles).getD []).contains ADMIN.value

/-! ## `canActivate` -/

/-- Public endpoints: a member's header is honoured, nobody is refused. -/
def enrichPublicRequest (p : Platform) (g : Guard) (request : GuardRequest)
    (headerTenantId : Option String) : Outcome × Guard :=
  match headerTenantId with
  | none => (.ok (some request), g)
  | some tenantId =>
      match request.user with
      | none => (.ok (some request), g)
      | some user =>
          if JsText.truthy user.id then
            let (membership, g) := findMembershipCached p g user.id tenantId
            match membership with
            | some m => (.ok (some { request with context := { request.context with
                tenantId := some tenantId, tenantRole := some m.role } }), g)
            | none => (.ok (some request), g)
          else (.ok (some request), g)

/-- `handleSystemRoleWithTenantHeader(user, headerTenantId, request, isAdmin)` -/
def handleSystemRoleWithTenantHeader (p : Platform) (g : Guard) (user : GuardUser)
    (tenantId : String) (request : GuardRequest) (isAdmin : Bool) : Outcome × Guard :=
  if isAdmin then
    (.ok (some { request with context := { request.context with
      tenantId := some tenantId, isAdminBypass := some true } }), g)
  else
    let (membership, g) := findMembershipCached p g user.id tenantId
    match membership with
    | none   => (.error (.Forbidden "Not a member of this tenant"), g)
    | some m => (.ok (some { request with context := { request.context with
        tenantId := some tenantId, tenantRole := some m.role } }), g)

/-- A system role has granted access; the header, unless skipped, still has to
    name a tenant of the user. -/
def grantBySystemRole (p : Platform) (g : Guard) (user : GuardUser)
    (headerTenantId : Option String) (hasSkipDecorator : Bool) (request : GuardRequest)
    (isAdmin : Bool) : Outcome × Guard :=
  match headerTenantId with
  | some tenantId =>
      if hasSkipDecorator then (.ok (some request), g)
      else handleSystemRoleWithTenantHeader p g user tenantId request isAdmin
  | none => (.ok (some request), g)

/-- `skipWithUserRoleCheck(checkableRoles, user, isAdmin)` -/
def skipWithUserRoleCheck (v : Vocabulary) (checkableRoles : List String)
    (request : GuardRequest) (isAdmin : Bool) : Outcome :=
  if checkableRoles = [] then .ok (some request)
  else match request.user with
    | none => .error (.Unauthorized UNAUTHORIZED)
    | some user =>
        if !isAdmin && !v.checkRoleAccess checkableRoles user.roles none then
          .error (.Forbidden "Insufficient role")
        else .ok (some request)

/-- Does a membership with this role, or the user's own global roles, satisfy
    the required roles? -/
def satisfiesRequiredRoles (v : Vocabulary) (checkableRoles : List String)
    (user : GuardUser) (memberRole : String) : Bool :=
  if checkableRoles = [] then true
  else
    let globalRoles := (v.resolveGlobalAndTenantRoles checkableRoles).1
    let tenantRoles := v.tenantSatisfiableRoles checkableRoles
    let satisfiedGlobally := globalRoles.any fun r => (user.roles.getD []).contains r
    -- an empty list satisfies checkRoleAccess, hence the length guard
    let satisfiedByTenant := tenantRoles ≠ [] &&
      v.checkRoleAccess tenantRoles none (some memberRole)
    satisfiedGlobally || satisfiedByTenant

/-- The `HEADER PRESENT` block. -/
def checkWithHeader (p : Platform) (g : Guard) (request : GuardRequest) (isAdmin : Bool)
    (checkableRoles : List String) (tenantId : String) : Outcome × Guard :=
  if isAdmin then
    (.ok (some { request with context := { request.context with
      tenantId := some tenantId, isAdminBypass := some true } }), g)
  else match request.user with
    | none => (.error (.Unauthorized UNAUTHORIZED), g)
    | some user =>
        let (membership, g) := findMembershipCached p g user.id tenantId
        match membership with
        | none => (.error (.Forbidden "Not a member of this tenant"), g)
        | some m =>
            if satisfiesRequiredRoles p.vocabulary checkableRoles user m.role then
              (.ok (some { request with context := { request.context with
                tenantId := some tenantId, tenantRole := some m.role } }), g)
            else (.error (.Forbidden "Insufficient tenant role"), g)

/-- A request that already carries tenant ids keeps them. -/
def withTenantIds (p : Platform) (g : Guard) (request : GuardRequest) (user : GuardUser)
    (minLevel : Option Level) : Outcome × Guard :=
  match request.context.tenantIds with
  | some _ => (.ok (some request), g)
  | none =>
      let (ids, g) := resolveUserTenantIds p g user.id minLevel
      (.ok (some { request with context := { request.context with tenantIds := some ids } }), g)

/-- The `NO HEADER` block. -/
def checkWithoutHeader (p : Platform) (g : Guard) (request : GuardRequest) (isAdmin : Bool)
    (checkableRoles : List String) (minRequiredLevel : Option Level) : Outcome × Guard :=
  if isAdmin then
    (.ok (some { request with context := { request.context with
      isAdminBypass := some true } }), g)
  else if checkableRoles ≠ [] then
    match request.user with
    | none => (.error (.Unauthorized UNAUTHORIZED), g)
    | some user =>
        if p.vocabulary.checkRoleAccess checkableRoles user.roles none then
          withTenantIds p g request user minRequiredLevel
        else (.error (.Forbidden "Insufficient role"), g)
  else match request.user with
    | some user => withTenantIds p g request user none
    | none      => (.ok (some request), g)

/-- Does the Better-Auth configuration ask for the automatic skip? -/
def BetterAuthConfig.shouldSkip : BetterAuthConfig → Bool
  | .absent       => true
  | .flag on      => on
  | .options skip => skip != some false

/-- Everything after the system roles: skips, then the header decides. -/
def checkRealRoles (p : Platform) (g : Guard) (ctx : ExecutionContext)
    (request : GuardRequest) (isAdmin : Bool) (headerTenantId : Option String) :
    Outcome × Guard :=
  if ctx.hasSkipDecorator then
    (skipWithUserRoleCheck p.vocabulary ctx.checkableRoles request isAdmin, g)
  else match headerTenantId with
    | some tenantId => checkWithHeader p g request isAdmin ctx.checkableRoles tenantId
    | none =>
        if ctx.isBetterAuthHandler && p.betterAuth.shouldSkip then
          (skipWithUserRoleCheck p.vocabulary ctx.checkableRoles request isAdmin, g)
        else checkWithoutHeader p g request isAdmin ctx.checkableRoles
          (if ctx.checkableRoles = [] then none
            else p.vocabulary.getMinRequiredLevel ctx.checkableRoles)

/-- `canActivate` once configuration, request and header are known. -/
def decideRequest (p : Platform) (g : Guard) (ctx : ExecutionContext)
    (request : GuardRequest) (isAdmin : Bool) (headerTenantId : Option String) :
    Outcome × Guard :=
  if ctx.roles.contains S_NO_ONE.value then (.error (.Forbidden ACCESS_DENIED), g)
  else if ctx.systemCheckRoles.contains S_EVERYONE.value then
    enrichPublicRequest p g request headerTenantId
  else if ctx.systemCheckRoles.contains S_USER.value then
    match request.user with
    | none => (.error (.Unauthorized UNAUTHORIZED), g)
    | some user =>
        grantBySystemRole p g user headerTenantId ctx.hasSkipDecorator request isAdmin
  else if ctx.systemCheckRoles.contains S_VERIFIED.value then
    match request.user with
    | none => (.error (.Unauthorized UNAUTHORIZED), g)
    | some user =>
        if user.verified || user.verifiedAt || user.emailVerified then
          grantBySystemRole p g user headerTenantId ctx.hasSkipDecorator request isAdmin
        else (.error (.Forbidden "Verification required"), g)
  else checkRealRoles p g ctx request isAdmin headerTenantId

/-- `canActivate(context)` -/
def canActivate (p : Platform) (g : Guard) (ctx : ExecutionContext) : Outcome × Guard :=
  match p.config with
  | none => (.ok ctx.request, g)
  | some config =>
      if config.multiTenancy.active = false then (.ok ctx.request, g)
      else
        let g := g.detectConfigChange config
        match ctx.request with
        | none         => (.ok none, g)
        | some request => decideRequest p g ctx request
            (isAdminUser config.multiTenancy request.user)
            (parseTenantHeader (rawTenantHeader config.multiTenancy request))

/-- `resolveTenantContext(user, headerTenantId)`: no config check, no access
    decision. -/
def resolveTenantContext (p : Platform) (g : Guard) (user : Option GuardUser)
    (rawHeader : Option String) : ResolvedTenantContext × Guard :=
  match p.config with
  | none => ({}, g)
  | some config =>
      if config.multiTenancy.active = false then ({}, g)
      else
        let trimmed := parseTenantHeader rawHeader
        if isAdminUser config.multiTenancy user then
          match trimmed with
          | some tenantId => ({ isAdminBypass := some true, tenantId := some tenantId }, g)
          | none          => ({ isAdminBypass := some true }, g)
        else match user with
          | none => ({}, g)
          | some user =>
              if !JsText.truthy user.id then ({}, g)
              else match trimmed with
                | some tenantId =>
                    let (membership, g) := findMembershipCached p g user.id tenantId
                    match membership with
                    | none   => ({}, g)
                    | some m => ({ tenantId := some tenantId, tenantRole := some m.role }, g)
                | none =>
                    let (ids, g) := resolveUserTenantIds p g user.id none
                    ({ tenantIds := some ids }, g)

end TenantGuard
