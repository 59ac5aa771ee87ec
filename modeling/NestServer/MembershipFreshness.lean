import NestServer.Runs
import NestServer.TenantGuard

/-! # Freshness of the membership caches

    One replica between the `await`s.  A lookup that misses its cache issues a
    query and is suspended; other lookups, membership changes and
    invalidations happen before it resumes and files its answer.

    Every answer is traced to the moment its database read was issued.  The law
    is `AnswersFresh`: no lookup started after an invalidation of its user is
    answered from an older read.  `invalidateUser` clears what is filed but not
    what is in flight, so the law holds exactly in the runs that file no
    invalidated answer (`answersFresh_iff`). -/

namespace TenantGuard

namespace Interleaving

/-! ## Reads behind cached answers -/

/-- `invalidateUser(user)` returned at this moment. -/
structure Invalidation where
  user   : String
  moment : Nat
deriving DecidableEq, Repr

/-- No entry a user's lookups may use is older than an invalidation of that
    user; an entry is given by the moment its read was issued. -/
def NoneOlder (uses : String → String → Prop) (entry : String → Option Nat)
    (invalidations : List Invalidation) : Prop :=
  ∀ key issued, entry key = some issued →
    ∀ x ∈ invalidations, uses x.user key → x.moment ≤ issued

section Entries

variable {uses : String → String → Prop} {entry entry' : String → Option Nat}
  {invalidations : List Invalidation}

/-- Losing entries makes none of them older. -/
theorem NoneOlder.mono (h : NoneOlder uses entry invalidations)
    (hsub : ∀ key issued, entry' key = some issued → entry key = some issued) :
    NoneOlder uses entry' invalidations := by
  intro key issued hentry x hx huses
  exact h key issued (hsub key issued hentry) x hx huses

/-- An invalidation that clears every entry its user may use. -/
theorem NoneOlder.invalidate (h : NoneOlder uses entry invalidations)
    (hsub : ∀ key issued, entry' key = some issued → entry key = some issued)
    {x : Invalidation} (hclear : ∀ key, uses x.user key → entry' key = none) :
    NoneOlder uses entry' (x :: invalidations) := by
  intro key issued hentry y hy huses
  rcases List.mem_cons.mp hy with hyx | hy
  · rw [hyx] at huses
    rw [hclear key huses] at hentry
    cases hentry
  · exact h key issued (hsub key issued hentry) y hy huses

/-- Filing an answer is harmless exactly when no user of its key was
    invalidated after the read was issued. -/
theorem NoneOlder.file_iff (h : NoneOlder uses entry invalidations) {key : String} {issued : Nat}
    (hself : entry' key = some issued)
    (hsub : ∀ k r, k ≠ key → entry' k = some r → entry k = some r) :
    NoneOlder uses entry' invalidations
      ↔ ∀ x ∈ invalidations, uses x.user key → x.moment ≤ issued := by
  constructor
  · intro hall
    exact hall key issued hself
  · intro hkey k r hentry x hx huses
    by_cases hk : k = key
    · rw [hk] at hentry huses
      rw [hself] at hentry
      rw [← Option.some.inj hentry]
      exact hkey x hx huses
    · exact h k r (hsub k r hk hentry) x hx huses

end Entries

/-- The read behind the answer a cache would give now. -/
def liveRead {ν : Type} (cache : OrderedMap String ν) (expiresAt : ν → Int)
    (readAt : String → Nat) (now : Nat) (key : String) : Option Nat :=
  (cache.get? key).bind fun e => if (now : Int) < expiresAt e then some (readAt key) else none

theorem liveRead_eq_some {ν : Type} {cache : OrderedMap String ν} {expiresAt : ν → Int}
    {readAt : String → Nat} {now : Nat} {key : String} {issued : Nat} :
    liveRead cache expiresAt readAt now key = some issued
      ↔ ∃ e, cache.get? key = some e ∧ (now : Int) < expiresAt e ∧ readAt key = issued := by
  unfold liveRead
  rw [Option.bind_eq_some_iff]
  constructor
  · rintro ⟨e, he, hif⟩
    by_cases hlt : (now : Int) < expiresAt e
    · rw [if_pos hlt] at hif
      exact ⟨e, he, hlt, Option.some.inj hif⟩
    · rw [if_neg hlt] at hif
      cases hif
  · rintro ⟨e, he, hlt, hr⟩
    exact ⟨e, he, by rw [if_pos hlt, hr]⟩

/-- Time passing and entries disappearing only hide reads. -/
theorem liveRead_mono {ν : Type} {cache cache' : OrderedMap String ν} {expiresAt : ν → Int}
    {readAt : String → Nat} {now now' : Nat} (hnow : now ≤ now')
    (hsub : ∀ key e, cache'.get? key = some e → cache.get? key = some e) :
    ∀ key issued, liveRead cache' expiresAt readAt now' key = some issued →
      liveRead cache expiresAt readAt now key = some issued := by
  intro key issued h
  obtain ⟨e, he, hlt, hr⟩ := liveRead_eq_some.mp h
  exact liveRead_eq_some.mpr ⟨e, hsub key e he, by omega, hr⟩

theorem get?_of_evictIfOverCapacity {ν : Type} {cache : OrderedMap String ν} {key : String}
    {e : ν} (h : (evictIfOverCapacity cache).get? key = some e) : cache.get? key = some e := by
  unfold evictIfOverCapacity at h
  split at h
  · exact OrderedMap.get?_of_dropOldest h
  · exact h

theorem get?_of_filterKeys {ν : Type} {p : String → Bool} {cache : OrderedMap String ν}
    {key : String} {e : ν} (h : (cache.filterKeys p).get? key = some e) :
    cache.get? key = some e := by
  rw [OrderedMap.get?_filterKeys] at h
  split at h
  · exact h
  · cases h

/-! ## The replica -/

/-- A suspended lookup: when it issued its query, and what the database
    answered, once it has. -/
structure InFlight (κ ρ : Type) where
  issued : Nat
  query  : κ
  read   : Option ρ

/-- A lookup that has returned: who asked, when it started, and when the read it
    answered from was issued. -/
structure Answer where
  user   : String
  start  : Nat
  issued : Nat
deriving DecidableEq, Repr

/-- One replica.  `moment` counts the steps; the two `readAt` functions remember
    which read filed a key. -/
structure State where
  platform         : Platform
  guard            : Guard
  moment           : Nat := 0
  memberships      : List (InFlight MembershipQuery (Option Member)) := []
  tenantIds        : List (InFlight TenantIdsQuery (List Member)) := []
  membershipReadAt : String → Nat := fun _ => 0
  tenantIdsReadAt  : String → Nat := fun _ => 0
  answers          : List Answer := []
  invalidations    : List Invalidation := []

inductive Event where
  | findMembershipCached (userId tenantId : String)
  | resolveUserTenantIds (userId : String) (minLevel : Option Level)
  /-- The database answers the query of a suspended lookup. -/
  | serveMembership (i : Nat)
  | serveTenantIds (i : Nat)
  /-- A suspended lookup gets its answer, files it and returns. -/
  | resumeMembership (i : Nat)
  | resumeTenantIds (i : Nat)
  | setMembers (members : List Member)
  | tick (ms : Nat)
  | invalidateUser (userId : String)
  | invalidateAll
  | evictExpired

/-- `f` changed at one place. -/
def update (f : String → Nat) (key : String) (value : Nat) : String → Nat :=
  fun k => if k = key then value else f k

/-- One event; `none` when it is not enabled. -/
def step (s : State) : Event → Option State
  | .findMembershipCached userId tenantId =>
      match startMembership s.guard s.platform.now userId tenantId with
      | .answered _ => some { s with
          moment  := s.moment + 1
          answers := ⟨userId, s.moment, s.membershipReadAt (userId ++ ":" ++ tenantId)⟩
            :: s.answers }
      | .querying q => some { s with
          moment      := s.moment + 1
          memberships := s.memberships ++ [⟨s.moment, q, none⟩] }
  | .resolveUserTenantIds userId minLevel =>
      match startTenantIds s.guard s.platform.now userId minLevel with
      | .answered _ => some { s with
          moment  := s.moment + 1
          answers := ⟨userId, s.moment,
            s.tenantIdsReadAt (TenantIdsQuery.key ⟨userId, minLevel, s.guard.cacheTtlMs⟩)⟩
            :: s.answers }
      | .querying q => some { s with
          moment    := s.moment + 1
          tenantIds := s.tenantIds ++ [⟨s.moment, q, none⟩] }
  | .serveMembership i =>
      match s.memberships[i]? with
      | some ⟨issued, q, none⟩ => some { s with
          moment      := s.moment + 1
          memberships := s.memberships.set i ⟨issued, q, some (q.answer s.platform.members)⟩ }
      | _ => none
  | .serveTenantIds i =>
      match s.tenantIds[i]? with
      | some ⟨issued, q, none⟩ => some { s with
          moment    := s.moment + 1
          tenantIds := s.tenantIds.set i ⟨issued, q, some (q.answer s.platform.members)⟩ }
      | _ => none
  | .resumeMembership i =>
      match s.memberships[i]? with
      | some ⟨issued, q, some result⟩ => some { s with
          moment           := s.moment + 1
          guard            := finishMembership s.guard q result
          memberships      := s.memberships.eraseIdx i
          membershipReadAt := if result.isSome then update s.membershipReadAt q.key issued
            else s.membershipReadAt
          answers          := ⟨q.userId, issued, issued⟩ :: s.answers }
      | _ => none
  | .resumeTenantIds i =>
      match s.tenantIds[i]? with
      | some ⟨issued, q, some memberships⟩ => some { s with
          moment          := s.moment + 1
          guard           := finishTenantIds s.guard q s.platform.now
            (tenantIdsOf s.platform.vocabulary q.minLevel memberships)
          tenantIds       := s.tenantIds.eraseIdx i
          tenantIdsReadAt := update s.tenantIdsReadAt q.key issued
          answers         := ⟨q.userId, issued, issued⟩ :: s.answers }
      | _ => none
  | .setMembers members => some { s with
      moment := s.moment + 1, platform := { s.platform with members := members } }
  | .tick ms => some { s with
      moment := s.moment + 1, platform := { s.platform with now := s.platform.now + ms } }
  | .invalidateUser userId => some { s with
      moment        := s.moment + 1
      guard         := s.guard.clearUser userId
      invalidations := ⟨userId, s.moment⟩ :: s.invalidations }
  | .invalidateAll => some { s with moment := s.moment + 1, guard := s.guard.clearAll }
  | .evictExpired => some { s with
      moment := s.moment + 1, guard := s.guard.evictExpired s.platform.now }

/-- A replica that has just taken over its configuration. -/
def start (isTestEnv : Bool) (c : ConfigObject) (sources : List RoleScopeSource)
    (members : List Member) : State where
  platform := { config := some c, sources := sources, members := members }
  guard    := (Guard.init isTestEnv).detectConfigChange c

/-- The read behind a membership answer now. -/
def State.membershipRead (s : State) : String → Option Nat :=
  liveRead s.guard.membershipCache CachedMembership.expiresAt s.membershipReadAt s.platform.now

/-- The read behind a tenant-id answer now. -/
def State.tenantIdsRead (s : State) : String → Option Nat :=
  liveRead s.guard.tenantIdsCache CachedTenantIds.expiresAt s.tenantIdsReadAt s.platform.now

/-- The membership keys the lookups of a user use. -/
def UsesMembershipKey (userId key : String) : Prop :=
  ∃ tenantId, key = userId ++ ":" ++ tenantId

/-- The tenant-id keys the lookups of a user use. -/
def UsesTenantIdsKey (userId key : String) : Prop :=
  ∃ minLevel ttl, key = TenantIdsQuery.key ⟨userId, minLevel, ttl⟩

/-! ## The law -/

/-- Every lookup that started after an invalidation of its user answered from a
    read issued no earlier. -/
def Law (s : State) : Prop :=
  ∀ a ∈ s.answers, ∀ x ∈ s.invalidations, x.user = a.user → x.moment < a.start →
    x.moment ≤ a.issued

/-- The lookups that can start. -/
inductive IsLookup : Event → Prop where
  | findMembershipCached (userId tenantId : String) :
      IsLookup (.findMembershipCached userId tenantId)
  | resolveUserTenantIds (userId : String) (minLevel : Option Level) :
      IsLookup (.resolveUserTenantIds userId minLevel)

/-- The law holds here, and still after any lookup that starts now. -/
def AnswersFresh (s : State) : Prop :=
  Law s ∧ ∀ e, IsLookup e → ∀ s', step s e = some s' → Law s'

/-- The condition on a step: a lookup that resumes files no answer that was
    invalidated while it was in flight.  A membership entry is dated back to the
    start of its lookup, so one that has expired meanwhile does no harm. -/
def NoStaleFill (s : State) : Event → Prop
  | .resumeMembership i => ∀ issued q m, s.memberships[i]? = some ⟨issued, q, some (some m)⟩ →
      (s.platform.now : Int) < q.now + q.ttl →
      ∀ x ∈ s.invalidations, UsesMembershipKey x.user q.key → x.moment ≤ issued
  | .resumeTenantIds i => ∀ issued q rows, s.tenantIds[i]? = some ⟨issued, q, some rows⟩ →
      ∀ x ∈ s.invalidations, UsesTenantIdsKey x.user q.key → x.moment ≤ issued
  | _ => True

/-! ## Bookkeeping -/

/-- What holds in every state: time runs forward and caching is on. -/
structure Wf (s : State) : Prop where
  ttl           : 0 < s.guard.cacheTtlMs
  answers       : ∀ a ∈ s.answers, a.start < s.moment
  invalidations : ∀ x ∈ s.invalidations, x.moment < s.moment
  memberships   : ∀ f ∈ s.memberships, f.issued < s.moment ∧ 0 < f.query.ttl
  tenantIds     : ∀ f ∈ s.tenantIds, f.issued < s.moment ∧ 0 < f.query.ttl

theorem finishMembership_ttl (g : Guard) (q : MembershipQuery) (result : Option Member) :
    (finishMembership g q result).cacheTtlMs = g.cacheTtlMs := by
  unfold finishMembership
  split
  · rfl
  · split <;> rfl

theorem finishTenantIds_ttl (g : Guard) (q : TenantIdsQuery) (now : Nat) (ids : List String) :
    (finishTenantIds g q now ids).cacheTtlMs = g.cacheTtlMs := by
  unfold finishTenantIds
  split <;> rfl

/-- A started membership lookup is answered by a live read, or finds none. -/
theorem startMembership_spec {s : State} (httl : 0 < s.guard.cacheTtlMs)
    (userId tenantId : String) :
    (∃ m, startMembership s.guard s.platform.now userId tenantId = .answered (some m)
        ∧ s.membershipRead (userId ++ ":" ++ tenantId)
          = some (s.membershipReadAt (userId ++ ":" ++ tenantId)))
    ∨ (startMembership s.guard s.platform.now userId tenantId
          = .querying ⟨userId, tenantId, s.platform.now, s.guard.cacheTtlMs⟩
        ∧ s.membershipRead (userId ++ ":" ++ tenantId) = none) := by
  unfold startMembership State.membershipRead liveRead MembershipQuery.key
  dsimp only
  rw [if_neg (by omega)]
  cases s.guard.membershipCache.get? (userId ++ ":" ++ tenantId) with
  | none => exact Or.inr ⟨rfl, rfl⟩
  | some e =>
      by_cases hlt : (s.platform.now : Int) < e.expiresAt
      · exact Or.inl ⟨e.result, by simp [hlt], by simp [hlt]⟩
      · exact Or.inr ⟨by simp [hlt], by simp [hlt]⟩

theorem startTenantIds_spec {s : State} (httl : 0 < s.guard.cacheTtlMs)
    (userId : String) (minLevel : Option Level) :
    (∃ ids, startTenantIds s.guard s.platform.now userId minLevel = .answered ids
        ∧ s.tenantIdsRead (TenantIdsQuery.key ⟨userId, minLevel, s.guard.cacheTtlMs⟩)
          = some (s.tenantIdsReadAt
              (TenantIdsQuery.key ⟨userId, minLevel, s.guard.cacheTtlMs⟩)))
    ∨ (startTenantIds s.guard s.platform.now userId minLevel
          = .querying ⟨userId, minLevel, s.guard.cacheTtlMs⟩
        ∧ s.tenantIdsRead (TenantIdsQuery.key ⟨userId, minLevel, s.guard.cacheTtlMs⟩) = none) := by
  unfold startTenantIds State.tenantIdsRead liveRead
  dsimp only
  rw [if_neg (by omega)]
  cases s.guard.tenantIdsCache.get?
      (TenantIdsQuery.key ⟨userId, minLevel, s.guard.cacheTtlMs⟩) with
  | none => exact Or.inr ⟨rfl, rfl⟩
  | some e =>
      by_cases hlt : (s.platform.now : Int) < e.expiresAt
      · exact Or.inl ⟨e.ids, by simp [hlt], by simp [hlt]⟩
      · exact Or.inr ⟨by simp [hlt], by simp [hlt]⟩

theorem wf_start (isTestEnv : Bool) (c : ConfigObject) (sources : List RoleScopeSource)
    (members : List Member) (httl : 0 < effectiveTtl isTestEnv c) :
    Wf (start isTestEnv c sources members) where
  ttl           := httl
  answers       := fun _ h => by cases h
  invalidations := fun _ h => by cases h
  memberships   := fun _ h => by cases h
  tenantIds     := fun _ h => by cases h

/-- Time moves on: what was before a moment stays before the next. -/
theorem lt_next {α : Type} {l : List α} {f : α → Nat} {moment : Nat}
    (h : ∀ a ∈ l, f a < moment) : ∀ a ∈ l, f a < moment + 1 :=
  fun a ha => Nat.lt_succ_of_lt (h a ha)

theorem inFlight_next {κ ρ : Type} {l : List (InFlight κ ρ)} {ttl : κ → Int} {moment : Nat}
    (h : ∀ f ∈ l, f.issued < moment ∧ 0 < ttl f.query) :
    ∀ f ∈ l, f.issued < moment + 1 ∧ 0 < ttl f.query :=
  fun f hf => ⟨Nat.lt_succ_of_lt (h f hf).1, (h f hf).2⟩

theorem inFlight_issue {κ ρ : Type} {l : List (InFlight κ ρ)} (ttl : κ → Int) {moment : Nat}
    (h : ∀ f ∈ l, f.issued < moment ∧ 0 < ttl f.query) {q : κ} (hq : 0 < ttl q) :
    ∀ f ∈ l ++ [⟨moment, q, none⟩], f.issued < moment + 1 ∧ 0 < ttl f.query := by
  intro f hf
  rcases List.mem_append.mp hf with hf | hf
  · exact inFlight_next h f hf
  · rw [List.mem_singleton.mp hf]
    exact ⟨Nat.lt_succ_self _, hq⟩

theorem inFlight_serve {κ ρ : Type} {l : List (InFlight κ ρ)} (ttl : κ → Int) {moment : Nat}
    (h : ∀ f ∈ l, f.issued < moment ∧ 0 < ttl f.query) {i issued : Nat} {q : κ}
    {read : Option ρ} (hi : l[i]? = some ⟨issued, q, read⟩) (read' : Option ρ) :
    ∀ f ∈ l.set i ⟨issued, q, read'⟩, f.issued < moment + 1 ∧ 0 < ttl f.query := by
  intro f hf
  rcases List.mem_or_eq_of_mem_set hf with hf | hf
  · exact inFlight_next h f hf
  · have hread := inFlight_next h _ (List.mem_of_getElem? hi)
    rw [hf]
    exact hread

theorem answered_next {l : List Answer} {moment : Nat} (h : ∀ a ∈ l, a.start < moment)
    {user : String} {start issued : Nat} (hstart : start ≤ moment) :
    ∀ a ∈ (⟨user, start, issued⟩ : Answer) :: l, a.start < moment + 1 := by
  intro a ha
  rcases List.mem_cons.mp ha with ha | ha
  · rw [ha]
    exact Nat.lt_succ_of_le hstart
  · exact Nat.lt_succ_of_lt (h a ha)

/-- Every step keeps the books. -/
theorem step_wf {s s' : State} {e : Event} (h : Wf s) (hs : step s e = some s') : Wf s' := by
  cases e with
  | findMembershipCached userId tenantId =>
      rcases startMembership_spec h.ttl userId tenantId with ⟨m, hm, _⟩ | ⟨hq, _⟩
      · rw [step, hm] at hs
        rw [← Option.some.inj hs]
        exact ⟨h.ttl, answered_next h.answers (Nat.le_refl _), lt_next h.invalidations,
          inFlight_next h.memberships, inFlight_next h.tenantIds⟩
      · rw [step, hq] at hs
        rw [← Option.some.inj hs]
        exact ⟨h.ttl, lt_next h.answers, lt_next h.invalidations,
          inFlight_issue MembershipQuery.ttl h.memberships h.ttl,
          inFlight_next h.tenantIds⟩
  | resolveUserTenantIds userId minLevel =>
      rcases startTenantIds_spec h.ttl userId minLevel with ⟨ids, hids, _⟩ | ⟨hq, _⟩
      · rw [step, hids] at hs
        rw [← Option.some.inj hs]
        exact ⟨h.ttl, answered_next h.answers (Nat.le_refl _), lt_next h.invalidations,
          inFlight_next h.memberships, inFlight_next h.tenantIds⟩
      · rw [step, hq] at hs
        rw [← Option.some.inj hs]
        exact ⟨h.ttl, lt_next h.answers, lt_next h.invalidations,
          inFlight_next h.memberships,
          inFlight_issue TenantIdsQuery.ttl h.tenantIds h.ttl⟩
  | serveMembership i =>
      rw [step] at hs
      split at hs
      · next issued q hi =>
          rw [← Option.some.inj hs]
          exact ⟨h.ttl, lt_next h.answers, lt_next h.invalidations,
            inFlight_serve MembershipQuery.ttl h.memberships hi _,
            inFlight_next h.tenantIds⟩
      · cases hs
  | serveTenantIds i =>
      rw [step] at hs
      split at hs
      · next issued q hi =>
          rw [← Option.some.inj hs]
          exact ⟨h.ttl, lt_next h.answers, lt_next h.invalidations,
            inFlight_next h.memberships,
            inFlight_serve TenantIdsQuery.ttl h.tenantIds hi _⟩
      · cases hs
  | resumeMembership i =>
      rw [step] at hs
      split at hs
      · next issued q result hi =>
          rw [← Option.some.inj hs]
          have hissued := (h.memberships _ (List.mem_of_getElem? hi)).1
          refine ⟨?_, answered_next h.answers (Nat.le_of_lt hissued), lt_next h.invalidations,
            ?_, inFlight_next h.tenantIds⟩
          · rw [finishMembership_ttl]
            exact h.ttl
          · exact fun f hf => inFlight_next h.memberships f (List.mem_of_mem_eraseIdx hf)
      · cases hs
  | resumeTenantIds i =>
      rw [step] at hs
      split at hs
      · next issued q rows hi =>
          rw [← Option.some.inj hs]
          have hissued := (h.tenantIds _ (List.mem_of_getElem? hi)).1
          refine ⟨?_, answered_next h.answers (Nat.le_of_lt hissued), lt_next h.invalidations,
            inFlight_next h.memberships, ?_⟩
          · rw [finishTenantIds_ttl]
            exact h.ttl
          · exact fun f hf => inFlight_next h.tenantIds f (List.mem_of_mem_eraseIdx hf)
      · cases hs
  | invalidateUser userId =>
      rw [← Option.some.inj hs]
      refine ⟨h.ttl, lt_next h.answers, ?_, inFlight_next h.memberships,
        inFlight_next h.tenantIds⟩
      intro x hx
      rcases List.mem_cons.mp hx with hx | hx
      · rw [hx]
        exact Nat.lt_succ_self _
      · exact Nat.lt_succ_of_lt (h.invalidations x hx)
  | setMembers | tick | invalidateAll | evictExpired =>
      rw [← Option.some.inj hs]
      exact ⟨h.ttl, lt_next h.answers, lt_next h.invalidations, inFlight_next h.memberships,
        inFlight_next h.tenantIds⟩

/-! ## Freshness as an invariant of the entries -/

/-- No live entry is older than an invalidation of a user it may answer. -/
structure FreshEntries (s : State) : Prop where
  memberships : NoneOlder UsesMembershipKey s.membershipRead s.invalidations
  tenantIds   : NoneOlder UsesTenantIdsKey s.tenantIdsRead s.invalidations

/-- An answer the law cannot object to: an earlier one, one from a read of its
    own, or one from a live entry the user may use. -/
def Justified (s : State) (a : Answer) : Prop :=
  a ∈ s.answers ∨ a.start ≤ a.issued
    ∨ (∃ key, s.membershipRead key = some a.issued ∧ UsesMembershipKey a.user key)
    ∨ ∃ key, s.tenantIdsRead key = some a.issued ∧ UsesTenantIdsKey a.user key

theorem law_of_justified {s s' : State} (hlaw : Law s) (hfresh : FreshEntries s)
    (hinv : s'.invalidations = s.invalidations) (hans : ∀ a ∈ s'.answers, Justified s a) :
    Law s' := by
  intro a ha x hx huser hstart
  rw [hinv] at hx
  rcases hans a ha with hold | hown | ⟨key, hread, huses⟩ | ⟨key, hread, huses⟩
  · exact hlaw a hold x hx huser hstart
  · omega
  · exact hfresh.memberships key a.issued hread x hx (huser ▸ huses)
  · exact hfresh.tenantIds key a.issued hread x hx (huser ▸ huses)

theorem justified_old {s : State} : ∀ a ∈ s.answers, Justified s a :=
  fun _ ha => Or.inl ha

theorem justified_cons {s : State} {a : Answer} (h : Justified s a) :
    ∀ b ∈ a :: s.answers, Justified s b := by
  intro b hb
  rcases List.mem_cons.mp hb with hb | hb
  · rw [hb]
    exact h
  · exact Or.inl hb

/-- A lookup that starts in a fresh state leaves the law standing and files
    nothing. -/
theorem lookup_law {s s' : State} {e : Event} (hwf : Wf s) (hlaw : Law s)
    (hfresh : FreshEntries s) (he : IsLookup e) (hs : step s e = some s') :
    Law s' ∧ FreshEntries s' := by
  cases he with
  | findMembershipCached userId tenantId =>
      rcases startMembership_spec hwf.ttl userId tenantId with ⟨m, hm, hread⟩ | ⟨hq, _⟩
      · rw [step, hm] at hs
        rw [← Option.some.inj hs]
        exact ⟨law_of_justified hlaw hfresh rfl
          (justified_cons (Or.inr (Or.inr (Or.inl ⟨_, hread, tenantId, rfl⟩)))),
          ⟨hfresh.memberships, hfresh.tenantIds⟩⟩
      · rw [step, hq] at hs
        rw [← Option.some.inj hs]
        exact ⟨law_of_justified hlaw hfresh rfl justified_old,
          ⟨hfresh.memberships, hfresh.tenantIds⟩⟩
  | resolveUserTenantIds userId minLevel =>
      rcases startTenantIds_spec hwf.ttl userId minLevel with ⟨ids, hids, hread⟩ | ⟨hq, _⟩
      · rw [step, hids] at hs
        rw [← Option.some.inj hs]
        exact ⟨law_of_justified hlaw hfresh rfl
          (justified_cons (Or.inr (Or.inr (Or.inr ⟨_, hread, minLevel, _, rfl⟩)))),
          ⟨hfresh.memberships, hfresh.tenantIds⟩⟩
      · rw [step, hq] at hs
        rw [← Option.some.inj hs]
        exact ⟨law_of_justified hlaw hfresh rfl justified_old,
          ⟨hfresh.memberships, hfresh.tenantIds⟩⟩

/-- **What the law asks of the caches.** Every lookup is answered fresh exactly
    when every live entry is fresh: each entry is what some lookup would get. -/
theorem answersFresh_iff_entries {s : State} (hwf : Wf s) :
    AnswersFresh s ↔ Law s ∧ FreshEntries s := by
  constructor
  · rintro ⟨hlaw, hnext⟩
    refine ⟨hlaw, ?_, ?_⟩
    · rintro key issued hread x hx ⟨tenantId, hkey⟩
      rw [hkey] at hread
      rcases startMembership_spec hwf.ttl x.user tenantId with ⟨m, hm, hr⟩ | ⟨_, hr⟩
      · have hlaw' := hnext _ (.findMembershipCached x.user tenantId) _ (by rw [step, hm])
        rw [hr] at hread
        rw [← Option.some.inj hread]
        exact hlaw' _ (List.mem_cons_self ..) x hx rfl (hwf.invalidations x hx)
      · rw [hr] at hread
        cases hread
    · rintro key issued hread x hx ⟨minLevel, ttl, hkey⟩
      have hkey' : key = TenantIdsQuery.key ⟨x.user, minLevel, s.guard.cacheTtlMs⟩ := hkey
      rw [hkey'] at hread
      rcases startTenantIds_spec hwf.ttl x.user minLevel with ⟨ids, hids, hr⟩ | ⟨_, hr⟩
      · have hlaw' := hnext _ (.resolveUserTenantIds x.user minLevel) _ (by rw [step, hids])
        rw [hr] at hread
        rw [← Option.some.inj hread]
        exact hlaw' _ (List.mem_cons_self ..) x hx rfl (hwf.invalidations x hx)
      · rw [hr] at hread
        cases hread
  · rintro ⟨hlaw, hfresh⟩
    refine ⟨hlaw, ?_⟩
    intro e he s' hs
    exact (lookup_law hwf hlaw hfresh he hs).1

/-! ## What each step does to the entries -/

/-- `clearUser` empties every key its user's lookups use. -/
theorem clearUser_membership {g : Guard} {userId key : String}
    (huses : UsesMembershipKey userId key) :
    (g.clearUser userId).membershipCache.get? key = none := by
  obtain ⟨tenantId, hkey⟩ := huses
  show (g.membershipCache.filterKeys _).get? key = none
  rw [OrderedMap.get?_filterKeys, if_neg]
  simp [Guard.ownsMembershipKey, hkey, JsText.startsWith_append]

theorem clearUser_tenantIds {g : Guard} {userId key : String}
    (huses : UsesTenantIdsKey userId key) :
    (g.clearUser userId).tenantIdsCache.get? key = none := by
  obtain ⟨minLevel, ttl, hkey⟩ := huses
  show (g.tenantIdsCache.filterKeys _).get? key = none
  rw [OrderedMap.get?_filterKeys, if_neg]
  cases minLevel with
  | none => simp [Guard.ownsTenantIdsKey, hkey, TenantIdsQuery.key]
  | some level =>
      simp [Guard.ownsTenantIdsKey, hkey, TenantIdsQuery.key, JsText.startsWith_append]

theorem liveRead_eq_none {ν : Type} {cache : OrderedMap String ν} {expiresAt : ν → Int}
    {readAt : String → Nat} {now : Nat} {key : String} (h : cache.get? key = none) :
    liveRead cache expiresAt readAt now key = none := by
  unfold liveRead
  rw [h]
  rfl

/-- A cache that loses entries, or time that passes, keeps the entries fresh. -/
theorem FreshEntries.shrink {s s' : State} (h : FreshEntries s)
    (hinv : s'.invalidations = s.invalidations) (hnow : s.platform.now ≤ s'.platform.now)
    (hm : s'.membershipReadAt = s.membershipReadAt) (ht : s'.tenantIdsReadAt = s.tenantIdsReadAt)
    (hmc : ∀ key e, s'.guard.membershipCache.get? key = some e →
      s.guard.membershipCache.get? key = some e)
    (htc : ∀ key e, s'.guard.tenantIdsCache.get? key = some e →
      s.guard.tenantIdsCache.get? key = some e) : FreshEntries s' := by
  constructor
  · rw [hinv]
    refine h.memberships.mono ?_
    unfold State.membershipRead
    rw [hm]
    exact liveRead_mono hnow hmc
  · rw [hinv]
    refine h.tenantIds.mono ?_
    unfold State.tenantIdsRead
    rw [ht]
    exact liveRead_mono hnow htc

/-- Filing a positive membership answer while it is still live. -/
theorem finishMembership_read {s : State} {q : MembershipQuery} {m : Member} {issued : Nat}
    (httl : 0 < q.ttl) (hlive : (s.platform.now : Int) < q.now + q.ttl) :
    liveRead (finishMembership s.guard q (some m)).membershipCache CachedMembership.expiresAt
        (update s.membershipReadAt q.key issued) s.platform.now q.key = some issued := by
  refine liveRead_eq_some.mpr ⟨⟨q.now + q.ttl, m⟩, ?_, hlive, if_pos rfl⟩
  unfold finishMembership
  rw [if_neg (by omega)]
  exact OrderedMap.get?_set_self _ _ _

/-- Nothing else that is live after a fill was not live before. -/
theorem finishMembership_other {s : State} {q : MembershipQuery} {m : Member} {issued : Nat}
    (httl : 0 < q.ttl) {key : String} (hkey : key ≠ q.key) {r : Nat}
    (h : liveRead (finishMembership s.guard q (some m)).membershipCache CachedMembership.expiresAt
        (update s.membershipReadAt q.key issued) s.platform.now key = some r) :
    s.membershipRead key = some r := by
  obtain ⟨e, he, hlt, hr⟩ := liveRead_eq_some.mp h
  unfold finishMembership at he
  rw [if_neg (by omega)] at he
  have he' := (OrderedMap.get?_set_of_ne _ _ hkey).symm.trans he
  rw [update, if_neg hkey] at hr
  exact liveRead_eq_some.mpr ⟨e, get?_of_evictIfOverCapacity he', hlt, hr⟩

/-- A membership entry that was dead on arrival is no entry. -/
theorem finishMembership_expired {s : State} {q : MembershipQuery} (m : Member) (issued : Nat)
    (httl : 0 < q.ttl) (hdead : ¬ (s.platform.now : Int) < q.now + q.ttl) :
    liveRead (finishMembership s.guard q (some m)).membershipCache CachedMembership.expiresAt
        (update s.membershipReadAt q.key issued) s.platform.now q.key = none := by
  unfold liveRead finishMembership
  rw [if_neg (by omega)]
  dsimp only
  rw [OrderedMap.get?_set_self]
  simp [hdead]

theorem finishTenantIds_read {s : State} {q : TenantIdsQuery} {ids : List String} {issued : Nat}
    (httl : 0 < q.ttl) :
    liveRead (finishTenantIds s.guard q s.platform.now ids).tenantIdsCache
        CachedTenantIds.expiresAt (update s.tenantIdsReadAt q.key issued) s.platform.now q.key
      = some issued := by
  refine liveRead_eq_some.mpr ⟨⟨s.platform.now + q.ttl, ids⟩, ?_, ?_, if_pos rfl⟩
  · unfold finishTenantIds
    rw [if_neg (by omega)]
    exact OrderedMap.get?_set_self _ _ _
  · show (s.platform.now : Int) < s.platform.now + q.ttl
    omega

theorem finishTenantIds_other {s : State} {q : TenantIdsQuery} {ids : List String}
    {issued : Nat} (httl : 0 < q.ttl) {key : String} (hkey : key ≠ q.key) {r : Nat}
    (h : liveRead (finishTenantIds s.guard q s.platform.now ids).tenantIdsCache
        CachedTenantIds.expiresAt (update s.tenantIdsReadAt q.key issued) s.platform.now key
      = some r) : s.tenantIdsRead key = some r := by
  obtain ⟨e, he, hlt, hr⟩ := liveRead_eq_some.mp h
  unfold finishTenantIds at he
  rw [if_neg (by omega)] at he
  have he' := (OrderedMap.get?_set_of_ne _ _ hkey).symm.trans he
  rw [update, if_neg hkey] at hr
  exact liveRead_eq_some.mpr ⟨e, get?_of_evictIfOverCapacity he', hlt, hr⟩

/-- A lookup that resumes with a negative answer only removes an entry. -/
theorem finishMembership_none_sub (g : Guard) (q : MembershipQuery) {key : String}
    {e : CachedMembership}
    (h : (finishMembership g q none).membershipCache.get? key = some e) :
    g.membershipCache.get? key = some e := by
  unfold finishMembership at h
  split at h
  · exact h
  · exact get?_of_filterKeys h

/-- The two fills touch one cache each. -/
theorem finishMembership_tenantIds (g : Guard) (q : MembershipQuery) (result : Option Member) :
    (finishMembership g q result).tenantIdsCache = g.tenantIdsCache := by
  unfold finishMembership
  split
  · rfl
  · split <;> rfl

theorem finishTenantIds_memberships (g : Guard) (q : TenantIdsQuery) (now : Nat)
    (ids : List String) :
    (finishTenantIds g q now ids).membershipCache = g.membershipCache := by
  unfold finishTenantIds
  split <;> rfl

/-! ## The main result -/

/-- A membership lookup that resumes keeps everything fresh exactly when it
    files no stale answer. -/
theorem resumeMembership_fresh {s s' : State} {i : Nat} (hwf : Wf s) (hlaw : Law s)
    (hfresh : FreshEntries s) (hs : step s (.resumeMembership i) = some s') :
    (Law s' ∧ FreshEntries s') ↔ NoStaleFill s (.resumeMembership i) := by
  rw [step] at hs
  split at hs
  · next issued q result hi =>
      have hs' := Option.some.inj hs
      have httl := (hwf.memberships _ (List.mem_of_getElem? hi)).2
      have hlaw' : Law s' := by
        rw [← hs']
        exact law_of_justified hlaw hfresh rfl
          (justified_cons (Or.inr (Or.inl (Nat.le_refl _))))
      have hids : NoneOlder UsesTenantIdsKey s'.tenantIdsRead s'.invalidations := by
        refine hs' ▸ hfresh.tenantIds.mono ?_
        refine liveRead_mono (Nat.le_refl _) ?_
        dsimp only
        rw [finishMembership_tenantIds]
        exact fun _ _ h => h
      cases result with
      | none =>
          -- a negative answer is not filed
          refine iff_of_true ⟨hlaw', ⟨?_, hids⟩⟩ ?_
          · refine hs' ▸ hfresh.memberships.mono ?_
            exact liveRead_mono (Nat.le_refl _) fun key e h => finishMembership_none_sub _ _ h
          · intro issued' q' m hi'
            rw [hi] at hi'
            cases ((Option.some.inj hi'))
      | some m =>
          have hstep : NoStaleFill s (.resumeMembership i)
              ↔ ((s.platform.now : Int) < q.now + q.ttl →
                ∀ x ∈ s.invalidations, UsesMembershipKey x.user q.key → x.moment ≤ issued) := by
            constructor
            · intro h
              exact h issued q m hi
            · intro h issued' q' m' hi' hlive
              rw [hi] at hi'
              cases Option.some.inj hi'
              exact h hlive
          have hother : ∀ k r, k ≠ q.key → s'.membershipRead k = some r →
              s.membershipRead k = some r := by
            intro k r hk hr
            rw [← hs'] at hr
            exact finishMembership_other httl hk hr
          have hinv : s'.invalidations = s.invalidations := by rw [← hs']
          rw [hstep]
          by_cases hlive : (s.platform.now : Int) < q.now + q.ttl
          · have hself : s'.membershipRead q.key = some issued := by
              rw [← hs']
              exact finishMembership_read httl hlive
            have hfile := hfresh.memberships.file_iff hself hother
            constructor
            · intro h _
              exact hfile.mp (hinv ▸ h.2.memberships)
            · intro h
              exact ⟨hlaw', ⟨hinv ▸ hfile.mpr (h hlive), hids⟩⟩
          · refine iff_of_true ⟨hlaw', ⟨?_, hids⟩⟩ (fun h => absurd h hlive)
            rw [hinv]
            refine hfresh.memberships.mono ?_
            intro k r hr
            by_cases hk : k = q.key
            · rw [hk, ← hs'] at hr
              have hnone := finishMembership_expired (s := s) m issued httl hlive
              cases (hnone.symm.trans hr)
            · exact hother k r hk hr
  · cases hs

/-- The same for tenant ids, whose entries are dated from the answer. -/
theorem resumeTenantIds_fresh {s s' : State} {i : Nat} (hwf : Wf s) (hlaw : Law s)
    (hfresh : FreshEntries s) (hs : step s (.resumeTenantIds i) = some s') :
    (Law s' ∧ FreshEntries s') ↔ NoStaleFill s (.resumeTenantIds i) := by
  rw [step] at hs
  split at hs
  · next issued q rows hi =>
      have hs' := Option.some.inj hs
      have httl := (hwf.tenantIds _ (List.mem_of_getElem? hi)).2
      have hlaw' : Law s' := by
        rw [← hs']
        exact law_of_justified hlaw hfresh rfl
          (justified_cons (Or.inr (Or.inl (Nat.le_refl _))))
      have hmem : NoneOlder UsesMembershipKey s'.membershipRead s'.invalidations := by
        refine hs' ▸ hfresh.memberships.mono ?_
        refine liveRead_mono (Nat.le_refl _) ?_
        dsimp only
        rw [finishTenantIds_memberships]
        exact fun _ _ h => h
      have hinv : s'.invalidations = s.invalidations := by rw [← hs']
      have hself : s'.tenantIdsRead q.key = some issued := by
        rw [← hs']
        exact finishTenantIds_read httl
      have hother : ∀ k r, k ≠ q.key → s'.tenantIdsRead k = some r →
          s.tenantIdsRead k = some r := by
        intro k r hk hr
        rw [← hs'] at hr
        exact finishTenantIds_other httl hk hr
      have hfile := hfresh.tenantIds.file_iff hself hother
      constructor
      · intro h issued' q' rows' hi'
        rw [hi] at hi'
        cases Option.some.inj hi'
        exact hfile.mp (hinv ▸ h.2.tenantIds)
      · intro h
        exact ⟨hlaw', ⟨hmem, hinv ▸ hfile.mpr (h issued q rows hi)⟩⟩
  · cases hs

/-- An invalidation leaves no entry its user could be answered from. -/
theorem invalidateUser_fresh {s s' : State} {userId : String} (hwf : Wf s) (hlaw : Law s)
    (hfresh : FreshEntries s) (hs : step s (.invalidateUser userId) = some s') :
    Law s' ∧ FreshEntries s' := by
  have hs' := Option.some.inj hs
  rw [← hs']
  refine ⟨?_, ?_, ?_⟩
  · intro a ha x hx huser hstart
    rcases List.mem_cons.mp hx with hx | hx
    · -- no answer so far started after this moment
      have hbefore := hwf.answers a ha
      rw [hx] at hstart
      exact absurd hstart (Nat.not_lt_of_lt hbefore)
    · exact hlaw a ha x hx huser hstart
  · refine hfresh.memberships.invalidate ?_ ?_
    · exact liveRead_mono (Nat.le_refl _) fun key e h => get?_of_filterKeys h
    · intro key huses
      exact liveRead_eq_none (clearUser_membership huses)
  · refine hfresh.tenantIds.invalidate ?_ ?_
    · exact liveRead_mono (Nat.le_refl _) fun key e h => get?_of_filterKeys h
    · intro key huses
      exact liveRead_eq_none (clearUser_tenantIds huses)

/-- One step from a fresh state leads to a fresh one exactly when it files no
    stale answer. -/
theorem step_fresh {s s' : State} {e : Event} (hwf : Wf s) (hans : AnswersFresh s)
    (hs : step s e = some s') : AnswersFresh s' ↔ NoStaleFill s e := by
  obtain ⟨hlaw, hfresh⟩ := (answersFresh_iff_entries hwf).mp hans
  rw [answersFresh_iff_entries (step_wf hwf hs)]
  cases e with
  | findMembershipCached userId tenantId =>
      exact iff_of_true (lookup_law hwf hlaw hfresh (.findMembershipCached ..) hs) trivial
  | resolveUserTenantIds userId minLevel =>
      exact iff_of_true (lookup_law hwf hlaw hfresh (.resolveUserTenantIds ..) hs) trivial
  | serveMembership i =>
      rw [step] at hs
      split at hs
      · rw [← Option.some.inj hs]
        exact iff_of_true ⟨hlaw, ⟨hfresh.memberships, hfresh.tenantIds⟩⟩ trivial
      · cases hs
  | serveTenantIds i =>
      rw [step] at hs
      split at hs
      · rw [← Option.some.inj hs]
        exact iff_of_true ⟨hlaw, ⟨hfresh.memberships, hfresh.tenantIds⟩⟩ trivial
      · cases hs
  | resumeMembership i => exact resumeMembership_fresh hwf hlaw hfresh hs
  | resumeTenantIds i => exact resumeTenantIds_fresh hwf hlaw hfresh hs
  | setMembers members =>
      rw [← Option.some.inj hs]
      exact iff_of_true ⟨hlaw, ⟨hfresh.memberships, hfresh.tenantIds⟩⟩ trivial
  | tick ms =>
      rw [← Option.some.inj hs]
      exact iff_of_true ⟨hlaw, hfresh.shrink rfl (Nat.le_add_right _ _) rfl rfl
        (fun _ _ h => h) (fun _ _ h => h)⟩ trivial
  | invalidateUser userId => exact iff_of_true (invalidateUser_fresh hwf hlaw hfresh hs) trivial
  | invalidateAll =>
      rw [← Option.some.inj hs]
      exact iff_of_true ⟨hlaw, hfresh.shrink rfl (Nat.le_refl _) rfl rfl
        (fun _ _ h => by cases h) (fun _ _ h => by cases h)⟩ trivial
  | evictExpired =>
      rw [← Option.some.inj hs]
      exact iff_of_true ⟨hlaw, hfresh.shrink rfl (Nat.le_refl _) rfl rfl
        (fun _ _ h => OrderedMap.get?_of_filterValues h)
        (fun _ _ h => OrderedMap.get?_of_filterValues h)⟩ trivial

theorem answersFresh_start (isTestEnv : Bool) (c : ConfigObject)
    (sources : List RoleScopeSource) (members : List Member)
    (httl : 0 < effectiveTtl isTestEnv c) :
    AnswersFresh (start isTestEnv c sources members) := by
  rw [answersFresh_iff_entries (wf_start isTestEnv c sources members httl)]
  refine ⟨?_, ?_, ?_⟩
  · intro a ha
    cases ha
  · intro key issued _ x hx
    cases hx
  · intro key issued _ x hx
    cases hx

/-- **No stale membership after invalidation.** Over a whole interleaving, every
    lookup, also one started at any point in between, answers from a read issued
    no earlier than any completed invalidation of its user, exactly when no
    lookup files an answer that was invalidated while in flight. -/
theorem answersFresh_iff (isTestEnv : Bool) (c : ConfigObject)
    (sources : List RoleScopeSource) (members : List Member) (events : List Event) (t : State)
    (httl : 0 < effectiveTtl isTestEnv c)
    (hrun : Runs.run step (start isTestEnv c sources members) events = some t) :
    Runs.Always step AnswersFresh (start isTestEnv c sources members) events
      ↔ Runs.Meets step NoStaleFill (start isTestEnv c sources members) events :=
  Runs.always_iff step (I := Wf) (fun _ _ _ h hs => step_wf h hs)
    (fun _ _ _ hwf hans hs => step_fresh hwf hans hs) events _ t
    (wf_start isTestEnv c sources members httl)
    (answersFresh_start isTestEnv c sources members httl) hrun

/-- A lookup in flight over a revocation brings the revoked membership back. -/
theorem invalidated_answer_served :
    ∃ t, Runs.run step (start false ⟨1, {}⟩ [] [⟨"u", "acme", "owner", .ACTIVE⟩])
        [.findMembershipCached "u" "acme", .serveMembership 0, .setMembers [],
         .invalidateUser "u", .resumeMembership 0, .findMembershipCached "u" "acme"] = some t
      ∧ t.invalidations = [⟨"u", 3⟩]
      ∧ t.answers = [⟨"u", 5, 0⟩, ⟨"u", 0, 0⟩]
      ∧ ¬ Law t := by
  refine ⟨_, rfl, rfl, by decide, ?_⟩
  unfold Law
  decide

/-- Invalidating between two lookups is harmless. -/
theorem answersFresh_iff_sequential :
    let events : List Event :=
      [.findMembershipCached "u" "acme", .serveMembership 0, .resumeMembership 0,
       .setMembers [], .invalidateUser "u", .findMembershipCached "u" "acme"]
    let s := start false ⟨1, {}⟩ [] [⟨"u", "acme", "owner", .ACTIVE⟩]
    Runs.Always step AnswersFresh s events ↔ Runs.Meets step NoStaleFill s events :=
  answersFresh_iff false ⟨1, {}⟩ [] [⟨"u", "acme", "owner", .ACTIVE⟩] _ _ (by decide) rfl

end Interleaving

end TenantGuard
