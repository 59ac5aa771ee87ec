import NestServer.Runs
import NestServer.TenantContextSoundness

/-! # One tenant scope for two transports

    `canActivate` writes the scope onto an HTTP request; a WebSocket asks
    `resolveTenantContext`.  Both are the same decision (`scopeBy`) over what
    the guard looks up, but only `canActivate` notices a new configuration: the
    other one keeps the old TTL and the old cache entries until a request has
    come by.

    `shared_iff` says for one state when the two agree, `transports_agree_iff`
    carries it over whole runs of settings, membership changes and calls. -/

open RoleEnum

namespace TenantGuard

/-! ## The decision both copies make -/

/-- The two questions a scope decision asks about a user. -/
structure Lookups where
  member    : String → String → Option Member
  tenantIds : String → List String

/-- What the guard's cached lookups answer now. -/
def Guard.lookups (g : Guard) (p : Platform) : Lookups where
  member    := fun userId tenantId => (findMembershipCached p g userId tenantId).1
  tenantIds := fun userId => (resolveUserTenantIds p g userId none).1

/-- What the membership table answers. -/
def Platform.lookups (p : Platform) : Lookups where
  member    := fun userId tenantId =>
    p.members.find? fun m => m.status = .ACTIVE && m.tenant = tenantId && m.user = userId
  tenantIds := fun userId =>
    (p.members.filter fun m => m.status = .ACTIVE && m.user = userId).map Member.tenant

/-- The scope of a caller; `none` refuses the request. -/
def scopeBy (l : Lookups) (isAdmin : Bool) (user : Option GuardUser)
    (header : Option String) : Option ResolvedTenantContext :=
  if isAdmin then some { isAdminBypass := some true, tenantId := header }
  else match user, header with
    | none,      none          => some {}
    | none,      some _        => none
    | some user, none          => some { tenantIds := some (l.tenantIds user.id) }
    | some user, some tenantId => (l.member user.id tenantId).map fun m =>
        { tenantId := some tenantId, tenantRole := some m.role }

/-- A handler without role metadata, without `@SkipTenantCheck` and outside
    Better-Auth. -/
structure ExecutionContext.Plain (ctx : ExecutionContext) : Prop where
  roles : ctx.roles = []
  skip  : ctx.hasSkipDecorator = false
  auth  : ctx.isBetterAuthHandler = false

instance (ctx : ExecutionContext) : Decidable ctx.Plain :=
  decidable_of_iff (ctx.roles = [] ∧ ctx.hasSkipDecorator = false
      ∧ ctx.isBetterAuthHandler = false)
    ⟨fun h => ⟨h.1, h.2.1, h.2.2⟩, fun h => ⟨h.roles, h.skip, h.auth⟩⟩

theorem ExecutionContext.Plain.systemCheckRoles {ctx : ExecutionContext} (h : ctx.Plain) :
    ctx.systemCheckRoles = [] := by
  have hroles := h.roles
  unfold ExecutionContext.systemCheckRoles
  split
  · next hne =>
      exfalso
      apply hne
      unfold ExecutionContext.roles mergeRolesMetadata at hroles
      split at hroles
      · next heq _ => rw [heq]; exact (List.append_eq_nil_iff.mp hroles).1
      · next heq _ => rw [heq]; exact hroles
      · next heq => rw [heq]; rfl
  · exact hroles

theorem ExecutionContext.Plain.checkableRoles {ctx : ExecutionContext} (h : ctx.Plain) :
    ctx.checkableRoles = [] := by
  rw [ExecutionContext.checkableRoles, h.roles]
  rfl

/-! ## HTTP -/

section Requests

variable {p : Platform} {g : Guard}

/-- A plain handler goes straight to the header question. -/
theorem decideRequest_plain {ctx : ExecutionContext} (h : ctx.Plain) (request : GuardRequest)
    (isAdmin : Bool) (header : Option String) :
    decideRequest p g ctx request isAdmin header
      = match header with
        | some tenantId => checkWithHeader p g request isAdmin [] tenantId
        | none          => checkWithoutHeader p g request isAdmin [] none := by
  unfold decideRequest
  rw [h.roles, h.systemCheckRoles, if_neg (by simp), if_neg (by simp), if_neg (by simp),
    if_neg (by simp)]
  unfold checkRealRoles
  rw [h.skip, h.checkableRoles, h.auth]
  cases header <;> rfl

/-- Whatever a plain handler lets through carries the scope of the lookups. -/
theorem decideRequest_scope {ctx : ExecutionContext} (h : ctx.Plain) {request left : GuardRequest}
    {isAdmin : Bool} {header : Option String} (hfresh : request.context = {})
    (hadmitted : (decideRequest p g ctx request isAdmin header).1 = .ok (some left)) :
    scopeBy (g.lookups p) isAdmin request.user header = some left.context := by
  rw [decideRequest_plain h] at hadmitted
  unfold scopeBy
  cases isAdmin with
  | true =>
      cases header with
      | none =>
          have hl := Option.some.inj (Except.ok.inj hadmitted)
          rw [if_pos rfl, ← hl, hfresh]
      | some tenantId =>
          have hl := Option.some.inj (Except.ok.inj hadmitted)
          rw [if_pos rfl, ← hl, hfresh]
  | false =>
      rw [if_neg (by simp)]
      cases header with
      | none =>
          dsimp only at hadmitted
          unfold checkWithoutHeader at hadmitted
          rw [if_neg (by simp), if_neg (by simp)] at hadmitted
          split at hadmitted
          · next user huser =>
              unfold withTenantIds at hadmitted
              rw [hfresh] at hadmitted
              have hl := Option.some.inj (Except.ok.inj hadmitted)
              rw [huser, ← hl]
              rfl
          · next huser =>
              have hl := Option.some.inj (Except.ok.inj hadmitted)
              rw [huser, ← hl, hfresh]
      | some tenantId =>
          dsimp only at hadmitted
          unfold checkWithHeader at hadmitted
          rw [if_neg (by simp)] at hadmitted
          split at hadmitted
          · cases hadmitted
          · next user huser =>
              rw [huser]
              dsimp only at hadmitted ⊢
              split at hadmitted
              · cases hadmitted
              · next m hm =>
                  rw [if_pos (by simp [satisfiesRequiredRoles])] at hadmitted
                  have hl := Option.some.inj (Except.ok.inj hadmitted)
                  show ((findMembershipCached p g user.id tenantId).1).map _ = _
                  rw [hm, ← hl, hfresh]
                  rfl

/-- The guard answers a plain request from the lookups it has after its config
    check. -/
theorem canActivate_scope {c : ConfigObject} {ctx : ExecutionContext} (h : ctx.Plain)
    {request left : GuardRequest} (hconfig : p.config = some c)
    (hactive : c.multiTenancy.active = true) (hrequest : ctx.request = some request)
    (hfresh : request.context = {}) (hadmitted : (canActivate p g ctx).1 = .ok (some left)) :
    scopeBy ((g.detectConfigChange c).lookups p) (isAdminUser c.multiTenancy request.user)
      request.user (parseTenantHeader (rawTenantHeader c.multiTenancy request))
      = some left.context := by
  unfold canActivate at hadmitted
  rw [hconfig] at hadmitted
  dsimp only at hadmitted
  rw [if_neg (by simp [hactive]), hrequest] at hadmitted
  exact decideRequest_scope h hfresh hadmitted

/-! ## WebSocket -/

/-- The other entry point answers from the lookups it finds, and answers an
    empty scope where the first one refuses or the user has no id. -/
theorem resolveTenantContext_scope {c : ConfigObject} (user : Option GuardUser)
    (rawHeader : Option String) (hconfig : p.config = some c)
    (hactive : c.multiTenancy.active = true) :
    (resolveTenantContext p g user rawHeader).1
      = if isAdminUser c.multiTenancy user = false
            ∧ (user.any fun u => !JsText.truthy u.id) = true then {}
        else (scopeBy (g.lookups p) (isAdminUser c.multiTenancy user) user
          (parseTenantHeader rawHeader)).getD {} := by
  unfold resolveTenantContext scopeBy
  rw [hconfig]
  dsimp only
  rw [if_neg (by simp [hactive])]
  cases hadmin : isAdminUser c.multiTenancy user with
  | true =>
      rw [if_pos rfl, if_neg (by simp)]
      cases parseTenantHeader rawHeader <;> rfl
  | false =>
      rw [if_neg (by simp)]
      cases user with
      | none =>
          rw [if_neg (by simp)]
          cases parseTenantHeader rawHeader <;> rfl
      | some u =>
          cases hid : JsText.truthy u.id with
          | false =>
              rw [if_pos (by simp [hid])]
              simp [hid]
          | true =>
              rw [if_neg (by simp [hid])]
              dsimp only
              rw [hid, if_neg (by simp)]
              cases parseTenantHeader rawHeader with
              | none => rfl
              | some tenantId =>
                  dsimp only
                  cases hm : (findMembershipCached p g u.id tenantId).1 with
                  | none => simp [Guard.lookups, hm]
                  | some m => simp [Guard.lookups, hm]

/-! ## When the guard's lookups are the table's -/

/-- Under a TTL of zero, and right after a flush, the lookups read the
    database. -/
theorem lookups_eq_of_miss (hmember : ∀ userId tenantId,
      startMembership g p.now userId tenantId
        = .querying ⟨userId, tenantId, p.now, g.cacheTtlMs⟩)
    (hids : ∀ userId, startTenantIds g p.now userId none
      = .querying ⟨userId, none, g.cacheTtlMs⟩) : g.lookups p = p.lookups := by
  unfold Guard.lookups Platform.lookups
  congr 1
  · funext userId tenantId
    rw [findMembershipCached, hmember]
    rfl
  · funext userId
    rw [resolveUserTenantIds, hids]
    rfl

theorem lookups_of_uncached (hoff : g.cacheTtlMs ≤ 0) : g.lookups p = p.lookups := by
  apply lookups_eq_of_miss
  · intro userId tenantId
    exact if_pos hoff
  · intro userId
    exact if_pos hoff

theorem lookups_of_flushed (hm : g.membershipCache = .empty) (ht : g.tenantIdsCache = .empty) :
    g.lookups p = p.lookups := by
  apply lookups_eq_of_miss
  · intro userId tenantId
    unfold startMembership
    rw [hm]
    dsimp only
    rw [OrderedMap.get?_empty]
    split <;> rfl
  · intro userId
    unfold startTenantIds
    rw [ht]
    dsimp only
    rw [OrderedMap.get?_empty]
    split <;> rfl

/-- A configuration the guard has not seen flushes the caches. -/
theorem lookups_of_unseen {c : ConfigObject} (hseen : g.lastSeenConfig ≠ some c) :
    (g.detectConfigChange c).lookups p = p.lookups := by
  unfold Guard.detectConfigChange
  rw [if_neg hseen]
  exact lookups_of_flushed rfl rfl

theorem detectConfigChange_seen {c : ConfigObject} (hseen : g.lastSeenConfig = some c) :
    g.detectConfigChange c = g :=
  if_pos hseen

/-- What a WebSocket lookup would be answered from the caches agrees with the
    membership table. -/
def CacheAgrees (p : Platform) (g : Guard) (userId : String) : Option String → Prop
  | some tenantId => ∀ m m', startMembership g p.now userId tenantId = .answered (some m) →
      p.lookups.member userId tenantId = some m' → m.role = m'.role
  | none => ∀ ids, startTenantIds g p.now userId none = .answered ids →
      ids = p.lookups.tenantIds userId

/-- The state in which both transports answer alike: an admin, an anonymous
    caller, or a user with an id for whom the guard has seen the current
    configuration, or else holds no cached answer the table contradicts. -/
def Shared (p : Platform) (g : Guard) (c : ConfigObject) (user : Option GuardUser)
    (header : Option String) : Prop :=
  isAdminUser c.multiTenancy user = true ∨ user = none
    ∨ ∃ u, user = some u ∧ JsText.truthy u.id = true
      ∧ (g.lastSeenConfig = some c ∨ CacheAgrees p g u.id header)

/-- A started membership lookup answers with a membership, or asks. -/
theorem startMembership_cases (userId tenantId : String) :
    (∃ m, startMembership g p.now userId tenantId = .answered (some m))
    ∨ startMembership g p.now userId tenantId
      = .querying ⟨userId, tenantId, p.now, g.cacheTtlMs⟩ := by
  unfold startMembership
  dsimp only
  split
  · exact Or.inr rfl
  · split
    · split
      · next cached _ _ => exact Or.inl ⟨cached.result, rfl⟩
      · exact Or.inr rfl
    · exact Or.inr rfl

theorem startTenantIds_cases (userId : String) :
    (∃ ids, startTenantIds g p.now userId none = .answered ids)
    ∨ startTenantIds g p.now userId none = .querying ⟨userId, none, g.cacheTtlMs⟩ := by
  unfold startTenantIds
  dsimp only
  split
  · exact Or.inr rfl
  · split
    · split
      · next cached _ _ => exact Or.inl ⟨cached.ids, rfl⟩
      · exact Or.inr rfl
    · exact Or.inr rfl

/-- Against the table, the guard's own lookups scope an admitted user alike
    exactly when the caches agree with the table. -/
theorem scope_eq_iff_cacheAgrees (user : GuardUser) (header : Option String)
    {admitted : ResolvedTenantContext}
    (hadmitted : scopeBy p.lookups false (some user) header = some admitted) :
    admitted = (scopeBy (g.lookups p) false (some user) header).getD {}
      ↔ CacheAgrees p g user.id header := by
  unfold scopeBy at hadmitted ⊢
  rw [if_neg (by simp)] at hadmitted ⊢
  cases header with
  | none =>
      have ha := Option.some.inj hadmitted
      rw [← ha]
      rcases startTenantIds_cases (p := p) (g := g) user.id with ⟨ids, hids⟩ | hq
      · have hl : (g.lookups p).tenantIds user.id = ids := by
          show (resolveUserTenantIds p g user.id none).1 = ids
          rw [resolveUserTenantIds, hids]
        simp [CacheAgrees, hids, hl, eq_comm]
      · have hl : (g.lookups p).tenantIds user.id = p.lookups.tenantIds user.id := by
          show (resolveUserTenantIds p g user.id none).1 = _
          rw [resolveUserTenantIds, hq]
          rfl
        simp [CacheAgrees, hq, hl]
  | some tenantId =>
      dsimp only at hadmitted ⊢
      obtain ⟨m', hm', ha⟩ := Option.map_eq_some_iff.mp hadmitted
      rw [← ha]
      rcases startMembership_cases (p := p) (g := g) user.id tenantId with ⟨m, hm⟩ | hq
      · have hl : (g.lookups p).member user.id tenantId = some m := by
          show (findMembershipCached p g user.id tenantId).1 = some m
          rw [findMembershipCached, hm]
        simp [CacheAgrees, hm, hl, hm', eq_comm]
      · have hl : (g.lookups p).member user.id tenantId = some m' := by
          rw [← hm']
          show (findMembershipCached p g user.id tenantId).1 = _
          rw [findMembershipCached, hq]
          rfl
        simp [CacheAgrees, hq, hl]

/-- **One call.** For an admitted plain request, the scope left on it is the
    one a WebSocket would have got in the same state exactly when that state is
    shared. -/
theorem shared_iff {c : ConfigObject} {ctx : ExecutionContext} (h : ctx.Plain)
    {request left : GuardRequest} (hconfig : p.config = some c)
    (hactive : c.multiTenancy.active = true) (hrequest : ctx.request = some request)
    (hfresh : request.context = {}) (hadmitted : (canActivate p g ctx).1 = .ok (some left)) :
    left.context
        = (resolveTenantContext p g request.user (rawTenantHeader c.multiTenancy request)).1
      ↔ Shared p g c request.user (parseTenantHeader (rawTenantHeader c.multiTenancy request)) := by
  have hscope := canActivate_scope h hconfig hactive hrequest hfresh hadmitted
  rw [resolveTenantContext_scope request.user _ hconfig hactive]
  unfold Shared
  generalize parseTenantHeader (rawTenantHeader c.multiTenancy request) = header at hscope ⊢
  cases hadmin : isAdminUser c.multiTenancy request.user with
  | true =>
      -- an admin's scope asks no lookup
      rw [hadmin] at hscope
      rw [if_neg (by simp)]
      have hsame : scopeBy (g.lookups p) true request.user header = some left.context := hscope
      exact iff_of_true (by rw [hsame]; rfl) (Or.inl rfl)
  | false =>
      rw [hadmin] at hscope
      cases huser : request.user with
      | none =>
          rw [huser] at hscope
          rw [if_neg (by simp)]
          have hsame : scopeBy (g.lookups p) false none header = some left.context := by
            rw [← hscope]
            cases header <;> rfl
          exact iff_of_true (by rw [hsame]; rfl) (Or.inr (Or.inl rfl))
      | some user =>
          rw [huser] at hscope
          cases hid : JsText.truthy user.id with
          | false =>
              -- the empty scope is never what an admitted user carries
              rw [if_pos (by simp [hid])]
              refine iff_of_false ?_ (by simp [hid])
              intro hempty
              rw [hempty] at hscope
              unfold scopeBy at hscope
              cases header <;> simp at hscope
          | true =>
              rw [if_neg (by simp [hid])]
              by_cases hseen : g.lastSeenConfig = some c
              · rw [detectConfigChange_seen hseen] at hscope
                exact iff_of_true (by rw [hscope]; rfl)
                  (Or.inr (Or.inr ⟨user, rfl, hid, Or.inl hseen⟩))
              · rw [lookups_of_unseen hseen] at hscope
                rw [scope_eq_iff_cacheAgrees user header hscope]
                simp [hid, hseen]

/-- Under a TTL of zero both transports read the database: the scope an
    admitted plain request carries is the table's. -/
theorem canActivate_scope_uncached {c : ConfigObject} {ctx : ExecutionContext} (h : ctx.Plain)
    {request left : GuardRequest} (hconfig : p.config = some c)
    (hactive : c.multiTenancy.active = true) (hrequest : ctx.request = some request)
    (hfresh : request.context = {}) (hoff : effectiveTtl g.isTestEnv c ≤ 0)
    (hadmitted : (canActivate p g ctx).1 = .ok (some left)) :
    scopeBy p.lookups (isAdminUser c.multiTenancy request.user) request.user
      (parseTenantHeader (rawTenantHeader c.multiTenancy request)) = some left.context := by
  rw [← lookups_of_uncached (g := g.detectConfigChange c)
    (by rw [detectConfigChange_ttl]; exact hoff)]
  exact canActivate_scope h hconfig hactive hrequest hfresh hadmitted

end Requests

/-! ## Whole runs -/

/-- What happens to one replica. -/
inductive Call where
  | setConfig (multiTenancy : Option MultiTenancy) (betterAuth : BetterAuthConfig)
  | setMembers (members : List Member)
  | tick (ms : Nat)
  | http (ctx : ExecutionContext)
  | ws (user : Option GuardUser) (rawHeader : Option String)
  | invalidateUser (userId : String)
  | invalidateAll
  | evictExpired

/-- An admitted plain request: the scope it carries, the scope a WebSocket
    would have got at that point, and the scope in the membership table. -/
structure Comparison where
  http     : ResolvedTenantContext
  ws       : ResolvedTenantContext
  database : ResolvedTenantContext
  uncached : Bool
deriving DecidableEq

/-- Same scope for both; and without a cache, the table's. -/
def Comparison.Agrees (x : Comparison) : Prop :=
  x.http = x.ws ∧ (x.uncached = true → x.http = x.database ∧ x.ws = x.database)

instance (x : Comparison) : Decidable x.Agrees :=
  inferInstanceAs (Decidable (x.http = x.ws
    ∧ (x.uncached = true → x.http = x.database ∧ x.ws = x.database)))

structure Replica where
  platform : Platform
  guard    : Guard
  nextRef  : Nat := 0
  log      : List Comparison := []

namespace Replica

/-- A booted replica without configuration. -/
def boot (isTestEnv : Bool) (sources : List RoleScopeSource) (members : List Member) :
    Replica where
  platform := { config := none, sources := sources, members := members }
  guard    := Guard.init isTestEnv

/-- Compare the transports on a plain request that arrives without a scope;
    nothing is compared where the request is refused or multi-tenancy is off. -/
def compare (s : Replica) (ctx : ExecutionContext) : Option Comparison :=
  match s.platform.config, ctx.request, (canActivate s.platform s.guard ctx).1 with
  | some c, some request, .ok (some left) =>
      if c.multiTenancy.active = true ∧ ctx.Plain ∧ request.context = {} then
        let rawHeader := rawTenantHeader c.multiTenancy request
        some
          { http     := left.context
            ws       := (resolveTenantContext s.platform s.guard request.user rawHeader).1
            database := (scopeBy s.platform.lookups (isAdminUser c.multiTenancy request.user)
              request.user (parseTenantHeader rawHeader)).getD {}
            uncached := effectiveTtl s.guard.isTestEnv c ≤ 0 }
      else none
  | _, _, _ => none

/-- One call on the replica; every call is enabled in every state. -/
def step (s : Replica) : Call → Option Replica
  | .setConfig multiTenancy betterAuth => some { s with
      platform := { s.platform with
        config     := multiTenancy.map fun config => ⟨s.nextRef, config⟩
        betterAuth := betterAuth }
      nextRef  := s.nextRef + 1 }
  | .setMembers members => some { s with platform := { s.platform with members := members } }
  | .tick ms => some { s with platform := { s.platform with now := s.platform.now + ms } }
  | .http ctx => some { s with
      guard := (canActivate s.platform s.guard ctx).2
      log   := (s.compare ctx).toList ++ s.log }
  | .ws user rawHeader => some { s with
      guard := (resolveTenantContext s.platform s.guard user rawHeader).2 }
  | .invalidateUser userId => some { s with guard := s.guard.clearUser userId }
  | .invalidateAll => some { s with guard := s.guard.clearAll }
  | .evictExpired => some { s with guard := s.guard.evictExpired s.platform.now }

/-- Every comparison of the run so far agreed. -/
def Agreed (s : Replica) : Prop := ∀ x ∈ s.log, x.Agrees

/-- The condition on a step: an HTTP call that is compared finds a shared
    state. -/
def SharedStep (s : Replica) (call : Call) : Prop :=
  ∀ ctx c request, call = .http ctx → s.platform.config = some c →
    ctx.request = some request → (s.compare ctx).isSome = true →
      Shared s.platform s.guard c request.user
        (parseTenantHeader (rawTenantHeader c.multiTenancy request))

/-- What a comparison says, read back from the call. -/
theorem compare_cases (s : Replica) (ctx : ExecutionContext) :
    s.compare ctx = none ∨ ∃ c request left,
      s.platform.config = some c ∧ ctx.request = some request
      ∧ (canActivate s.platform s.guard ctx).1 = .ok (some left)
      ∧ c.multiTenancy.active = true ∧ ctx.Plain ∧ request.context = {}
      ∧ s.compare ctx = some
          { http     := left.context
            ws       := (resolveTenantContext s.platform s.guard request.user
              (rawTenantHeader c.multiTenancy request)).1
            database := (scopeBy s.platform.lookups (isAdminUser c.multiTenancy request.user)
              request.user (parseTenantHeader (rawTenantHeader c.multiTenancy request))).getD {}
            uncached := effectiveTtl s.guard.isTestEnv c ≤ 0 } := by
  unfold compare
  split
  · next c request left hc hr ho =>
      split
      · next hif => exact Or.inr ⟨c, request, left, hc, hr, ho, hif.1, hif.2.1, hif.2.2, rfl⟩
      · exact Or.inl rfl
  · exact Or.inl rfl

/-- A comparison agrees exactly when it was made in a shared state. -/
theorem agrees_iff_sharedStep (s : Replica) (ctx : ExecutionContext) :
    (∀ x ∈ (s.compare ctx).toList, x.Agrees) ↔ s.SharedStep (.http ctx) := by
  rcases s.compare_cases ctx with hnone | ⟨c, request, left, hc, hr, ho, hact, hp, hf, hx⟩
  · rw [hnone]
    refine iff_of_true (fun x hx => by cases hx) ?_
    intro ctx' c request hctx _ _ hsome
    cases hctx
    rw [hnone] at hsome
    cases hsome
  · have hcall := shared_iff hp hc hact hr hf ho
    have hstep : s.SharedStep (.http ctx) ↔ Shared s.platform s.guard c request.user
        (parseTenantHeader (rawTenantHeader c.multiTenancy request)) := by
      constructor
      · intro h
        exact h ctx c request rfl hc hr (by rw [hx]; rfl)
      · intro h ctx' c' request' hctx hc' hr' _
        cases hctx
        rw [hc] at hc'
        rw [hr] at hr'
        rw [← Option.some.inj hc', ← Option.some.inj hr']
        exact h
    rw [hstep, ← hcall, hx, Option.toList_some]
    constructor
    · intro h
      exact (h _ (List.mem_singleton_self _)).1
    · intro h x hmem
      rw [List.mem_singleton.mp hmem]
      refine ⟨h, ?_⟩
      intro hoff
      have htable := canActivate_scope_uncached hp hc hact hr hf (of_decide_eq_true hoff) ho
      have hdb : left.context = (scopeBy s.platform.lookups
          (isAdminUser c.multiTenancy request.user) request.user
          (parseTenantHeader (rawTenantHeader c.multiTenancy request))).getD {} := by
        rw [htable]; rfl
      exact ⟨hdb, h.symm.trans hdb⟩

/-- One step keeps the agreement exactly when it meets the condition. -/
theorem step_agreed (s : Replica) (call : Call) (s' : Replica) (h : s.step call = some s') :
    s'.Agreed ↔ s.Agreed ∧ s.SharedStep call := by
  cases call with
  | http ctx =>
      rw [← Option.some.inj h, ← s.agrees_iff_sharedStep ctx]
      constructor
      · intro hall
        exact ⟨fun x hx => hall x (List.mem_append_right _ hx),
          fun x hx => hall x (List.mem_append_left _ hx)⟩
      · intro hboth x hx
        rcases List.mem_append.mp hx with hx | hx
        · exact hboth.2 x hx
        · exact hboth.1 x hx
  | setConfig | setMembers | tick | ws | invalidateUser | invalidateAll | evictExpired =>
      -- nothing is compared
      rw [← Option.some.inj h]
      refine (and_iff_left ?_).symm
      intro ctx c request hctx
      cases hctx

/-- **HTTP and WebSocket establish the same scope** over a whole run exactly
    when every compared call of the run finds a shared state. -/
theorem transports_agree_iff (isTestEnv : Bool) (sources : List RoleScopeSource)
    (members : List Member) (calls : List Call) (t : Replica)
    (hrun : Runs.run step (boot isTestEnv sources members) calls = some t) :
    t.Agreed ↔ Runs.Meets step SharedStep (boot isTestEnv sources members) calls := by
  rw [Runs.run_iff step step_agreed calls _ t hrun]
  refine and_iff_right ?_
  intro x hx
  cases hx

/-- Caching is configured off, yet the socket of a fresh replica still caches:
    its answer outlives the change of the membership's role. -/
theorem transports_disagree_after_role_change :
    let acme := some "acme"
    let user : GuardUser := { id := "u" }
    let ctx : ExecutionContext :=
      { request := some { headers := [("x-tenant-id", .text "acme")], user := some user } }
    ∃ t, Runs.run step (boot false [] [])
        [.setConfig (some { cacheTtlMs := some 0 }) .absent,
         .setMembers [⟨"u", "acme", "owner", .ACTIVE⟩],
         .ws (some user) acme,
         .setMembers [⟨"u", "acme", "member", .ACTIVE⟩],
         .http ctx] = some t
      ∧ t.log = [{ http     := { tenantId := acme, tenantRole := some "member" }
                   ws       := { tenantId := acme, tenantRole := some "owner" }
                   database := { tenantId := acme, tenantRole := some "member" }
                   uncached := true }]
      ∧ ¬ t.Agreed := by
  refine ⟨_, rfl, by decide, ?_⟩
  unfold Agreed
  decide

/-- A run with one request, and the condition it is judged by. -/
theorem transports_agree_iff_member :
    let ctx : ExecutionContext :=
      { request := some { headers := [("x-tenant-id", .text "acme")], user := some { id := "u" } } }
    let calls : List Call :=
      [.setConfig (some { cacheTtlMs := some 0 }) .absent,
       .setMembers [⟨"u", "acme", "owner", .ACTIVE⟩], .http ctx]
    ∃ t : Replica, Runs.run step (boot false [] []) calls = some t
      ∧ (t.Agreed ↔ Runs.Meets step SharedStep (boot false [] []) calls) :=
  ⟨_, rfl, transports_agree_iff false [] [] _ _ rfl⟩

end Replica

end TenantGuard
