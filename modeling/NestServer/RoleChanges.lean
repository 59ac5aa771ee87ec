import NestServer.Runs
import NestServer.SessionUserMapper

/-! # Changes of roles beside sessions

    `setRoles` and `update` of `core-user.service.ts` and `mapSessionUser` for one
    user, on one replica, between the awaits.  A change is written, and later, when
    its call goes on, the cache is invalidated and the call returns.

    `update` merges its input into the whole document that it has read. -/

namespace SessionUserMapper

open RoleEnum (looksLikeSystemRole)

/-- What of the input of an `update` matters here; a missing field is `none`. -/
structure ChangeInput where
  roles    : Option (List String) := none
  verified : Option Bool := none
deriving DecidableEq, Repr

/-- `setRoles` writes nothing if a role looks like a system role. -/
def setRolesAllowed (roles : List String) : Bool := !roles.any looksLikeSystemRole

/-- `findByIdAndUpdate(id, mergePlain(dbObject, input))`: the stored document with
    all fields of the merged one. -/
def mergedUser (stored dbObject : DbUser) (input : ChangeInput) : DbUser where
  id       := stored.id
  email    := dbObject.email
  iamId    := dbObject.iamId.or stored.iamId
  roles    := (input.roles.or dbObject.roles).or stored.roles
  verified := (input.verified.or dbObject.verified).or stored.verified

/-- Numbers of changes: of the roles, and of the verified state. -/
structure Stamp where
  roles    : Nat
  verified : Nat
deriving DecidableEq, Repr

def Stamp.le (a b : Stamp) : Prop := a.roles ≤ b.roles ∧ a.verified ≤ b.verified

instance (a b : Stamp) : Decidable (a.le b) := inferInstanceAs (Decidable (_ ∧ _))

def Stamp.join (a b : Stamp) : Stamp :=
  { roles := max a.roles b.roles, verified := max a.verified b.verified }

/-- Where a call stands. -/
inductive Pending where
  /-- `mapSessionUser` before its lookup; `since` are the changes that had returned
      when it was called -/
  | lookup (session : SessionUser) (since : Stamp)
  /-- with the answer, and the changes that it contains -/
  | answered (session : SessionUser) (since : Stamp) (dbUser : DbUser) (readAt : Stamp)
  | setRoles (roles : List String)
  | update (input : ChangeInput)
  | updating (input : ChangeInput) (oldUser : DbUser)
  | merging (input : ChangeInput) (oldUser dbObject : DbUser)
  /-- the change is written and the cache not yet invalidated -/
  | written (iamId : Option String) (invalidates : Bool) (stamp : Stamp)
  | returned

/-- What a `mapSessionUser` call answered. -/
structure Answer where
  session : SessionUser
  since   : Stamp
  result  : Option MappedUser

structure Replica where
  user        : DbUser
  cache       : UserCache := .empty
  /-- the roles and verified states that were written, in their order -/
  rolesLog    : List (Option (List String))
  verifiedLog : List (Option Bool)
  /-- the last changes that have returned -/
  settled     : Stamp := ⟨0, 0⟩
  calls       : List Pending := []
  sessions    : List SessionUser := []
  answers     : List Answer := []

/-- The options: the mapper of the user service, and the ids that sessions of the
    user come with. -/
structure Setup where
  isTestEnv            : Bool
  betterAuthUserMapper : Bool
  ids                  : List String

def Setup.platform (c : Setup) : Platform := { connection := true, isTestEnv := c.isTestEnv }

inductive Event where
  | mapSessionUser (session : SessionUser) (now : Nat)
  | setRoles (roles : List String)
  | update (input : ChangeInput)
  | resume (i now : Nat)
  /-- a lookup ends with an error -/
  | fail (i now : Nat)
  /-- a session of another user is filed -/
  | other (key : String) (data : CachedUserData)

variable (c : Setup)

/-- The lookup finds the user by e-mail or IAM id. -/
def Replica.finds (s : Replica) (session : SessionUser) : Prop :=
  session.email = s.user.email ∨ s.user.iamId = some session.id

instance (s : Replica) (session : SessionUser) : Decidable (s.finds session) :=
  inferInstanceAs (Decidable (_ ∨ _))

/-- The changes that the document contains. -/
def Replica.last (s : Replica) : Stamp :=
  { roles := s.rolesLog.length - 1, verified := s.verifiedLog.length - 1 }

/-- A call on its way. -/
def Replica.put (s : Replica) (i : Nat) (p : Pending) : Replica :=
  { s with calls := s.calls.set i p }

/-- `if (mapper && user?.iamId) invalidateUserCache(user.iamId)` -/
def invalidateAfter (cache : UserCache) (iamId : Option String) : UserCache :=
  match iamId with
  | some id => if c.betterAuthUserMapper && JsText.truthy id then invalidateUserCache cache id
      else cache
  | none    => cache

/-- A call goes on past its await. -/
def resume (s : Replica) (i now : Nat) : Pending → Option Replica
  | .lookup session since => some (s.put i (.answered session since s.user s.last))
  | .answered session since dbUser _ =>
      let r := finishMapping c.platform s.cache now session (.ok (some dbUser))
      some { s.put i .returned with
        cache   := r.1
        answers := ⟨session, since, r.2⟩ :: s.answers }
  | .setRoles roles =>
      some { s.put i (.written s.user.iamId true ⟨s.rolesLog.length, 0⟩) with
        user     := { s.user with roles := some roles }
        rolesLog := s.rolesLog ++ [some roles] }
  | .update input => some (s.put i (.updating input s.user))
  | .updating input oldUser => some (s.put i (.merging input oldUser s.user))
  | .merging input oldUser dbObject =>
      some { s.put i (.written oldUser.iamId (input.roles.isSome || input.verified.isSome)
          ⟨if input.roles.isSome then s.rolesLog.length else 0,
            if input.verified.isSome then s.verifiedLog.length else 0⟩) with
        user        := mergedUser s.user dbObject input
        rolesLog    := s.rolesLog ++ (input.roles.map some).toList
        verifiedLog := s.verifiedLog ++ (input.verified.map some).toList }
  | .written iamId invalidates stamp =>
      some { s.put i .returned with
        cache   := if invalidates then invalidateAfter c s.cache iamId else s.cache
        settled := s.settled.join stamp }
  | .returned => none

def step (s : Replica) : Event → Option Replica
  | .mapSessionUser session now =>
      if s.finds session ∧ session.id ∈ c.ids then
        match startMapping c.platform s.cache now session with
        | .returned user => some { s with
            sessions := session :: s.sessions
            answers  := ⟨session, s.settled, user⟩ :: s.answers }
        | .lookup => some { s with
            sessions := session :: s.sessions
            calls    := s.calls ++ [.lookup session s.settled] }
      else none
  | .setRoles roles =>
      if setRolesAllowed roles then some { s with calls := s.calls ++ [.setRoles roles] } else none
  | .update input => some { s with calls := s.calls ++ [.update input] }
  | .resume i now => s.calls[i]?.bind fun p => resume c s i now p
  | .fail i now =>
      match s.calls[i]? with
      | some (.lookup session since) =>
          let r := finishMapping c.platform s.cache now session (.error "connection lost")
          some { s.put i .returned with
            cache   := r.1
            answers := ⟨session, since, r.2⟩ :: s.answers }
      | _ => none
  | .other key data =>
      if key ∈ c.ids then none
      else some { s with cache := if 0 < c.platform.ttl then cacheUserData s.cache key data
        else s.cache }

/-! ## The law -/

/-- The roles and the verified state are those of changes from `since` on; the
    verified state also counts that of a session of the same id. -/
def Fresh (s : Replica) (since : Stamp) (id : String) (roles : List String)
    (verified : Option Bool) :
    Prop :=
  (∃ v ∈ s.rolesLog.drop since.roles, roles = v.getD []) ∧
    ∃ w ∈ s.verifiedLog.drop since.verified, ∃ x ∈ s.sessions, x.id = id ∧
      verified = some (w == some true || x.emailVerified == some true)

instance (s : Replica) (since : Stamp) (id : String) (roles : List String)
    (verified : Option Bool) :
    Decidable (Fresh s since id roles verified) :=
  inferInstanceAs (Decidable ((∃ v ∈ _, _) ∧ ∃ w ∈ _, ∃ x ∈ _, _ ∧ _))

/-- **The law**: a call answers with no state older than a change that had returned
    when it was called. -/
def AnswersFresh (s : Replica) : Prop :=
  ∀ a ∈ s.answers, ∀ user ∈ a.result, Fresh s a.since a.session.id user.roles user.verified

instance (s : Replica) : Decidable (AnswersFresh s) :=
  inferInstanceAs (Decidable (∀ a ∈ _, ∀ user ∈ _, _))

/-- An answer is filed before any change that it does not contain has returned; when
    a change returns, the user is cached under no id but the one that it invalidates;
    and a merge writes back no field that has changed since it was read. -/
def Condition (s : Replica) : Event → Prop
  | .resume i _ =>
      (∀ session since dbUser readAt, s.calls[i]? = some (.answered session since dbUser readAt) →
        0 < c.platform.ttl → s.settled.le readAt) ∧
      (∀ iamId stamp, s.calls[i]? = some (.written iamId true stamp) →
        ∀ id ∈ c.ids, (s.cache.get? id).isSome → c.betterAuthUserMapper = true ∧ iamId = some id) ∧
      ∀ input oldUser dbObject, s.calls[i]? = some (.merging input oldUser dbObject) →
        (input.roles = none → dbObject.roles = s.user.roles) ∧
          (input.verified = none → dbObject.verified = s.user.verified)
  | _ => True

/-- A replica that has just started. -/
def fresh (user : DbUser) : Replica where
  user        := user
  rolesLog    := [user.roles]
  verifiedLog := [user.verified]

end SessionUserMapper
