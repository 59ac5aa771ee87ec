import Mathlib.Data.List.MinMax
import NestServer.BetterAuth.WebHelper
import NestServer.Interleaving
import NestServer.SessionUserMapper

/-! # Who a request is

    `core-better-auth.middleware.ts`, with `getSessionByToken`, `getActiveSessionForUser` and
    `verifyJwtToken` of `core-better-auth.service.ts`.  A request says who it is by a token
    in a header or in a cookie; the middleware asks the database one thing after the other,
    and sessions, users and keys change in between. -/

namespace Authentication

open Dialogue SessionUserMapper WebHelper

/-! ## The database -/

/-- A document of `session`. -/
structure SessionDoc where
  id        : String
  token     : Text
  userId    : String
  createdAt : Nat
  expiresAt : Option Nat

/-- A document of `users`. -/
structure UserDoc where
  _id           : String
  id            : Option String := none
  email         : String
  emailVerified : Option Bool := none
  iamId         : Option String := none
  roles         : Option (List String) := none
  verified      : Option Bool := none

/-- A document of `jwks`. -/
structure Jwk where
  _id       : String
  id        : Option String := none
  publicKey : Option String
  alg       : Option String := none

structure Store where
  now      : Nat
  sessions : List SessionDoc := []
  users    : List UserDoc := []
  jwks     : List Jwk := []

inductive Change where
  | signedIn (session : SessionDoc)
  | signedOut (token : Text)
  | users (users : List UserDoc)
  | jwks (jwks : List Jwk)
  | passes (ms : Nat)

/-- A token is of one session. -/
def Store.change (store : Store) : Change → Option Store
  | .signedIn session =>
      if store.sessions.any fun other => other.token = session.token then none
      else some { store with sessions := store.sessions ++ [session] }
  | .signedOut token =>
      some { store with sessions := store.sessions.filter fun session => session.token ≠ token }
  | .users users => some { store with users := users }
  | .jwks jwks   => some { store with jwks := jwks }
  | .passes ms   => some { store with now := store.now + ms }

/-! ## The service -/

/-- `SessionResult['session']` -/
structure SessionInfo where
  expiresAt : Option Nat
  id        : String
  token     : Text
  userId    : String
deriving DecidableEq

structure JwtPayload where
  sub           : String
  email         : Option String := none
  emailVerified : Option Bool := none

/-- The header of a JWT. -/
structure JwtHeader where
  alg : Option String
  kid : Option String

/-- What `jwtVerify` is given to verify with. -/
inductive VerifyKey where
  | secret (secret : Text)
  /-- a public key, for an audience that is the issuer, too -/
  | jwk (publicKey alg baseUrl : String)

/-- The packages, and what reads the text of a token. -/
structure Library where
  isLegacyJwt    : Text → Bool
  isSessionToken : Text → Bool
  jwtHeader      : Text → Option JwtHeader
  jwtVerify      : VerifyKey → Nat → Text → Option JwtPayload
  /-- `api.getSession` -/
  getSession     : Store → Headers → Option (SessionInfo × SessionUser)

structure Config where
  isEnabled     : Bool := true
  isJwtEnabled  : Bool
  platform      : Platform := {}
  basePath      : Text
  COOKIE_PREFIX : Option Text := none
  secret        : Text
  baseUrl       : String
  hasApi        : Bool := true

def SessionDoc.info (session : SessionDoc) : SessionInfo where
  expiresAt := session.expiresAt
  id        := session.id
  token     := session.token
  userId    := session.userId

/-- `user.id || user._id?.toString()` -/
def UserDoc.idOf (user : UserDoc) : String := (user.id.filter fun id => id ≠ "").getD user._id

def UserDoc.sessionUser (user : UserDoc) : SessionUser where
  id            := user.idOf
  email         := user.email
  emailVerified := user.emailVerified

/-- The document that a session is joined with. -/
def Store.userOf (store : Store) (session : SessionDoc) : Option UserDoc :=
  store.users.find? fun user => user._id = session.userId || user.id = some session.userId

/-- It is not over. -/
def SessionDoc.isLive (session : SessionDoc) (now : Nat) : Bool :=
  !session.expiresAt.any fun expiresAt => expiresAt < now

section Service

variable (config : Config) (library : Library) (store : Store)

def getSessionByToken (token : Text) : Option (SessionInfo × SessionUser) :=
  if !config.isEnabled || !config.platform.connection then none
  else
    match store.sessions.find? fun session => session.token = token with
    | none         => none
    | some session =>
        if !session.isLive store.now then none
        else (store.userOf session).map fun user => (session.info, user.sessionUser)

/-- The newest session of the user that is not over; a session that is never over is none of
    them. -/
def getActiveSessionForUser (userId : String) : Option (SessionInfo × Option SessionUser) :=
  if !config.isEnabled || !config.platform.connection then none
  else
    let sessions := store.sessions.filter fun session =>
      session.userId = userId && session.expiresAt.any fun expiresAt => store.now < expiresAt
    (sessions.argmax SessionDoc.createdAt).map fun session =>
      (session.info, (store.userOf session).map UserDoc.sessionUser)

/-- `sub` is there, and no empty text. -/
def JwtPayload.hasSub (payload : JwtPayload) : Bool := payload.sub ≠ ""

def verifyHs256Token (token : Text) : Option JwtPayload :=
  if config.secret = [] then none
  else (library.jwtVerify (.secret config.secret) store.now token).filter JwtPayload.hasSub

/-- By `id`, else by `_id`. -/
def Store.findKey (kid : String) : Option Jwk :=
  (store.jwks.find? fun key => key.id = some kid).or
    (store.jwks.find? fun key => key.id = some kid || key._id = kid)

/-- `alg || keyRecord.alg || 'EdDSA'` -/
def algorithm (alg : Option String) (key : Jwk) : String :=
  ((alg.filter fun alg => alg ≠ "").or (key.alg.filter fun alg => alg ≠ "")).getD "EdDSA"

def verifyJwksToken (token : Text) (kid : String) (alg : Option String) : Option JwtPayload :=
  (store.findKey kid).bind fun key =>
    (key.publicKey.filter fun publicKey => publicKey ≠ "").bind fun publicKey =>
      (library.jwtVerify (.jwk publicKey (algorithm alg key) config.baseUrl) store.now token).filter
        JwtPayload.hasSub

def verifyJwtToken (token : Text) : Option JwtPayload :=
  if !config.isEnabled || !config.isJwtEnabled then none
  else if (token.splitOn '.').length ≠ 3 then none
  else
    (library.jwtHeader token).bind fun header =>
      if header.alg = some "HS256" then verifyHs256Token config library store token
      else
        match header.kid.filter fun kid => kid ≠ "" with
        | none     => none
        | some kid =>
            if config.platform.connection then
              verifyJwksToken config library store token kid header.alg
            else none

/-- `findOne` of `mapSessionUser`. -/
def Store.findUser (user : SessionUser) : Option DbUser :=
  (store.users.find? fun doc => doc.email = user.email || doc.iamId = some user.id).map fun doc =>
    { id := doc._id, email := doc.email, iamId := doc.iamId, roles := doc.roles,
      verified := doc.verified }

end Service

/-! ## What the middleware asks -/

inductive Question where
  | verify (token : Text)
  | active (userId : String)
  | session (token : Text)
  | map (user : SessionUser)
  | api (headers : Headers)

abbrev Answer : Question → Type
  | .verify _  => Option JwtPayload
  | .active _  => Option (SessionInfo × Option SessionUser)
  | .session _ => Option (SessionInfo × SessionUser)
  | .map _     => Option MappedUser
  | .api _     => Option (SessionInfo × SessionUser)

/-- Whether the database fails, and what the process has in its cache of users. -/
structure Choice where
  fails : Bool := false
  cache : UserCache := .empty

def exec (config : Config) (library : Library) (store : Store) (choice : Choice) :
    (q : Question) → Option (Answer q × Store)
  | .verify token  =>
      some (if choice.fails then none else verifyJwtToken config library store token, store)
  | .active userId =>
      some (if choice.fails then none else getActiveSessionForUser config store userId, store)
  | .session token =>
      some (if choice.fails then none else getSessionByToken config store token, store)
  | .map user      =>
      some (mapSessionUser config.platform choice.cache store.now user
        (if choice.fails then .error "" else .ok (store.findUser user)), store)
  | .api headers   =>
      some (if choice.fails then none else library.getSession store headers, store)

/-! ## The middleware -/

/-- What the middleware puts on a request. -/
structure Fields where
  user              : Option MappedUser := none
  betterAuthUser    : Option SessionUser := none
  betterAuthSession : Option (SessionInfo × SessionUser) := none

abbrev Middleware (α : Type) := Dialogue Question Answer α

def verify (token : Text) : Middleware (Option JwtPayload) := query (Question.verify token)

def active (userId : String) : Middleware (Option (SessionInfo × Option SessionUser)) :=
  query (Question.active userId)

def session (token : Text) : Middleware (Option (SessionInfo × SessionUser)) :=
  query (Question.session token)

def map (user : SessionUser) : Middleware (Option MappedUser) := query (Question.map user)

def api (headers : Headers) : Middleware (Option (SessionInfo × SessionUser)) :=
  query (Question.api headers)

def JwtPayload.user (payload : JwtPayload) : SessionUser where
  id            := payload.sub
  email         := payload.email.getD ""
  emailVerified := payload.emailVerified

/-- The user is mapped, and `req.user` is set. -/
def mapUser (fields : Fields) (user : SessionUser) : Middleware Fields := do
  match ← map user with
  | some mappedUser => pure { fields with user := some mappedUser }
  | none            => pure fields

/-- `betterAuthSession` is set where the session has a user. -/
def Fields.found (fields : Fields) (user : SessionUser) :
    Option (SessionInfo × Option SessionUser) → Fields
  | some (session, some sessionUser) =>
      { fields with betterAuthUser := some user, betterAuthSession := some (session, sessionUser) }
  | _                                => { fields with betterAuthUser := some user }

/-- The part for a JWT, which stands in the source twice. -/
def byJwt (fields : Fields) (token : Text) : Middleware Fields := do
  match ← verify token with
  | none         => pure fields
  | some payload =>
      if payload.sub = "" then pure fields
      else do
        let found ← active payload.sub
        mapUser (fields.found payload.user found) payload.user

/-- A session has been found. -/
def bySession (fields : Fields) : Option (SessionInfo × SessionUser) → Middleware Fields
  | none                 => pure fields
  | some (session, user) =>
      mapUser { fields with betterAuthUser := some user, betterAuthSession := some (session, user) }
        user

/-- The header, if it is not empty. -/
def authorization (req : Request) : Option Text :=
  (headerText req "authorization").filter fun authHeader => authHeader ≠ []

/-- `authHeader.startsWith('Bearer ') ? authHeader.substring(7) : authHeader` -/
def headerToken (authHeader : Text) : Text :=
  if "Bearer ".toList.isPrefixOf authHeader then authHeader.drop 7 else authHeader

def isJwtLike (token : Text) : Bool := (token.splitOn '.').length = 3

/-- What is behind `lt-jwt-token=`, if it is not empty. -/
def jwtBehind (segment : Text) : Option Text :=
  if "lt-jwt-token=".toList.isPrefixOf segment && segment.drop 13 ≠ [] then some (segment.drop 13)
  else none

/-- `/(?:^|;\s*)lt-jwt-token=([^;]+)/` -/
def matchJwtCookie (cookieHeader : Text) : Option Text :=
  match cookieHeader.splitOn ';' with
  | []            => none
  | first :: rest =>
      (jwtBehind first).or (rest.findSome? fun segment =>
        jwtBehind (segment.dropWhile JsText.isSpace))

/-- The JWT of the cookie; where it cannot be decoded, an error is caught. -/
def jwtFromCookie (req : Request) : Option Text :=
  match (req.cookies.bind fun cookies => cookies.get? "lt-jwt-token".toList).filter (· ≠ []) with
  | some token => some token
  | none       =>
      ((headerText req "cookie").bind matchJwtCookie).bind UriComponent.decode

section Use

variable (config : Config) (library : Library) (req : Request)

/-- `verifyJwtFromRequest` takes the token from the header again. -/
def byBearerJwt (authHeader : Text) : Middleware Fields :=
  if isJwtLike (headerToken authHeader) && config.isJwtEnabled
      && "Bearer ".toList.isPrefixOf authHeader then
    byJwt {} (headerToken authHeader)
  else pure {}

def byHeader (authHeader : Text) : Middleware Fields :=
  let token := headerToken authHeader
  if isJwtLike token && library.isLegacyJwt token then pure {}
  else do
    let fields ← byBearerJwt config authHeader
    if fields.user.isSome then pure fields
    else do
      let found ← session token
      bySession fields found

def byJwtCookie : Middleware Fields :=
  if config.isJwtEnabled then
    match jwtFromCookie req with
    | none       => pure {}
    | some token =>
        if isJwtLike token && !library.isLegacyJwt token then byJwt {} token else pure {}
  else pure {}

/-- The token of a session cookie. -/
def cookieToken : Option Text :=
  (extractSessionToken library.isSessionToken config.COOKIE_PREFIX req config.basePath
    (authorization req).isSome).filter fun token => token ≠ []

/-- The session of a cookie. -/
def byCookie : Middleware (Option (SessionInfo × SessionUser)) :=
  match cookieToken config library req with
  | some token => session token
  | none       => pure none

def getSession : Middleware (Option (SessionInfo × SessionUser)) := do
  match ← byCookie config library req with
  | some found => pure (some found)
  | none       => if config.hasApi then api (convertExpressHeaders req.headers) else pure none

/-- The strategies that come before the session cookie. -/
def byToken : Middleware Fields :=
  match authorization req with
  | some authHeader => byHeader config library authHeader
  | none            => byJwtCookie config library req

/-- `use`, for a request that nobody has authenticated yet. -/
def use : Middleware Fields :=
  if !config.isEnabled then pure {}
  else do
    let fields ← byToken config library req
    if fields.user.isSome then pure fields
    else do
      let found ← getSession config library req
      bySession fields found

end Use

def system (config : Config) (library : Library) :
    Interleaving.System Store Request Change Choice Question Answer Fields where
  program := use config library
  exec    := exec config library
  outside := Store.change

abbrev State := Interleaving.State Store Request Question Answer Fields

end Authentication
