import NestServer.OrderedMap
import NestServer.RoleEnum

/-! # Users of a session

    `mapSessionUser` of `core-better-auth-user.mapper.ts`: from a Better-Auth
    session user to a user with roles.  A call answers at once, from the cache or
    without a database, or suspends in its lookup; `startMapping` and
    `finishMapping` are the two parts. -/

namespace SessionUserMapper

open RoleEnum

/-- `BetterAuthSessionUser` -/
structure SessionUser where
  id            : String
  email         : String
  emailVerified : Option Bool := none
deriving DecidableEq, Repr

/-- `CachedUserData` -/
structure CachedUserData where
  expiresAt : Nat
  id        : String
  roles     : List String
  verified  : Bool
deriving DecidableEq, Repr

/-- A document of `users`; `roles` where it is an array. -/
structure DbUser where
  id       : String
  email    : String
  iamId    : Option String := none
  roles    : Option (List String) := none
  verified : Option Bool := none
deriving DecidableEq, Repr

/-- `MappedUser` -/
structure MappedUser where
  email         : String
  emailVerified : Option Bool
  iamId         : String
  id            : String
  roles         : List String
  verified      : Option Bool
deriving DecidableEq, Repr

def createHasRole (roles : List String) (verified : Bool) (rolesToCheck : List String) : Bool :=
  if rolesToCheck.contains S_EVERYONE.value then true
  else if rolesToCheck.contains S_USER.value then true
  else if rolesToCheck.contains S_NO_ONE.value then false
  else if rolesToCheck.contains S_VERIFIED.value then verified
  else rolesToCheck.any fun role => roles.contains role

/-- The method that `createMappedUser` gives to a user. -/
def MappedUser.hasRole (user : MappedUser) (roles : List String) : Bool :=
  createHasRole user.roles (user.verified == some true) roles

def createMappedUser (sessionUser : SessionUser) (id : String) (roles : List String)
    (verified : Option Bool) : MappedUser where
  email         := sessionUser.email
  emailVerified := sessionUser.emailVerified
  iamId         := sessionUser.id
  id            := id
  roles         := roles
  verified      := verified

/-! ## The cache -/

abbrev UserCache := OrderedMap String CachedUserData

/-- `USER_CACHE_MAX` -/
def USER_CACHE_MAX : Nat := 500

/-- `USER_CACHE_TTL_MS`: no cache in test environments. -/
def USER_CACHE_TTL_MS (isTestEnv : Bool) : Nat := if isTestEnv then 0 else 15000

def evictOldest (cache : UserCache) : UserCache :=
  if USER_CACHE_MAX ≤ cache.size then
    match cache.entries.head? with
    | some e => if JsText.truthy e.1 then cache.delete e.1 else cache
    | none   => cache
  else cache

def cacheUserData (cache : UserCache) (iamId : String) (data : CachedUserData) : UserCache :=
  (evictOldest cache).set iamId data

def invalidateUserCache (cache : UserCache) (iamId : String) : UserCache := cache.delete iamId

/-! ## `mapSessionUser` -/

/-- What a call reads besides the session user. -/
structure Platform where
  connection : Bool := true
  isTestEnv  : Bool := false

def Platform.ttl (p : Platform) : Nat := USER_CACHE_TTL_MS p.isTestEnv

inductive Started where
  | returned (user : Option MappedUser)
  | lookup
deriving DecidableEq

/-- Up to the lookup. -/
def startMapping (p : Platform) (cache : UserCache) (now : Nat) (sessionUser : SessionUser) :
    Started :=
  if !JsText.truthy sessionUser.id || !JsText.truthy sessionUser.email then .returned none
  else if !p.connection then
    .returned (some (createMappedUser sessionUser sessionUser.id [] sessionUser.emailVerified))
  else
    match if 0 < p.ttl then cache.get? sessionUser.id else none with
    | some cached =>
        if now < cached.expiresAt then
          .returned (some (createMappedUser sessionUser cached.id cached.roles
            (some cached.verified)))
        else .lookup
    | none => .lookup

/-- The user that a document gives. -/
def verifiedOf (sessionUser : SessionUser) (dbUser : DbUser) : Bool :=
  dbUser.verified == some true || sessionUser.emailVerified == some true

/-- From the answer of the lookup; an error ends the call with no user. -/
def finishMapping (p : Platform) (cache : UserCache) (now : Nat) (sessionUser : SessionUser)
    (answer : Except String (Option DbUser)) : UserCache × Option MappedUser :=
  match answer with
  | .error _ => (cache, none)
  | .ok none =>
      (cache, some (createMappedUser sessionUser sessionUser.id [] sessionUser.emailVerified))
  | .ok (some dbUser) =>
      let roles := dbUser.roles.getD []
      let verified := verifiedOf sessionUser dbUser
      (if 0 < p.ttl then
          cacheUserData cache sessionUser.id
            { expiresAt := now + p.ttl, id := dbUser.id, roles := roles, verified := verified }
        else cache,
        some (createMappedUser sessionUser dbUser.id roles (some verified)))

/-- A whole call in which nothing happens between its two parts. -/
def mapSessionUser (p : Platform) (cache : UserCache) (now : Nat) (sessionUser : SessionUser)
    (answer : Except String (Option DbUser)) : Option MappedUser :=
  match startMapping p cache now sessionUser with
  | .returned user => user
  | .lookup        => (finishMapping p cache now sessionUser answer).2

end SessionUserMapper
