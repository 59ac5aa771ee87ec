import NestServer.Ai.Json
import NestServer.BetterAuth.WebHelper
import NestServer.KeyedLog
import NestServer.Runs

/-! # Passkey challenges

    `core-better-auth-challenge.service.ts` and the passkey requests of
    `core-better-auth-api.middleware.ts`.  Better-Auth keeps a challenge under a token
    that it sets as a cookie.  Where challenges are stored in the database, the client
    gets an id instead of the cookie, and the id stands for the token when the client
    comes back with it.

    Requests run at the same time, in any number of processes with one collection. -/

namespace PasskeyChallenges

open WebHelper

/-! ## Configuration -/

inductive ChallengeStorage where
  | database
  | cookie
deriving DecidableEq

structure PasskeyConfig where
  enabled                 : Option Bool := none
  challengeStorage        : Option ChallengeStorage := none
  challengeTtlSeconds     : Option Nat := none
  webAuthnChallengeCookie : Option Text := none

/-- `betterAuth.passkey` -/
inductive Passkey where
  | absent
  | switch (on : Bool)
  | options (config : PasskeyConfig)

namespace Passkey

variable (passkey : Passkey)

def passkeyConfig : Option PasskeyConfig :=
  match passkey with
  | .options config => some config
  | _               => none

def isPasskeyDisabled : Bool :=
  match passkey with
  | .switch on      => !on
  | .options config => config.enabled = some false
  | .absent         => false

def useCookieStorage : Bool :=
  passkey.passkeyConfig.any fun config => config.challengeStorage = some .cookie

/-- `isEnabled`, with a database. -/
def isEnabled : Bool := !passkey.isPasskeyDisabled && !passkey.useCookieStorage

def ttlSeconds : Nat :=
  ((passkey.passkeyConfig.bind PasskeyConfig.challengeTtlSeconds).filter fun n => n ≠ 0).getD 300

def getCookieName : Text :=
  ((passkey.passkeyConfig.bind PasskeyConfig.webAuthnChallengeCookie).filter fun name =>
    name ≠ []).getD "better-auth.better-auth-passkey".toList

end Passkey

structure Config where
  passkey : Passkey
  secret  : Text

/-! ## What Better-Auth answers -/

structure Response where
  status     : Nat
  /-- `headers.getSetCookie()` -/
  setCookies : List Text
  /-- the fields of the body -/
  body       : OrderedMap String Json

namespace Response

variable (response : Response)

def ok : Bool := decide (200 ≤ response.status) && decide (response.status ≤ 299)

/-- The headers that set the cookie. -/
def sets (cookieName : Text) (header : Text) : Bool := (cookieName ++ ['=']).isPrefixOf header

/-- The token of the challenge, if there is a cookie: what is in front of the first dot. -/
def verificationToken (cookieName : Text) : Except CookieError (Option Text) :=
  match response.setCookies.find? (sets cookieName) with
  | none              => .ok none
  | some cookieHeader =>
      let cookieValue :=
        ((((cookieHeader.splitOn ';').headD []).splitOn '=')[1]?).getD "undefined".toList
      (decodeValue cookieValue).map fun decodedValue => (decodedValue.splitOn '.').head?

/-- `responseBody?.user?.id || sessionToken || 'anonymous'` -/
def userId (sessionToken : Option String) : String :=
  match ((response.body.get? "user").bind fun user => user.member "id").bind Json.asString with
  | none    => (sessionToken.filter fun token => token ≠ "").getD "anonymous"
  | some id =>
      if id ≠ "" then id else (sessionToken.filter fun token => token ≠ "").getD "anonymous"

/-- `enhancedResponse`: the id goes out, the cookie does not. -/
def enhanced (cookieName : Text) (challengeId : String) : Response :=
  { response with
    setCookies := response.setCookies.filter fun header => !sets cookieName header
    body       := response.body.set "challengeId" (.str challengeId) }

end Response

/-! ## The collection -/

inductive Kind where
  | authentication
  | registration
deriving DecidableEq

/-- `WebAuthnChallengeMappingDocument` -/
structure Mapping where
  challengeId       : String
  createdAt         : Nat
  expiresAt         : Nat
  type              : Kind
  userId            : String
  verificationToken : Text
deriving DecidableEq

/-- A change of the collection; an exchange is named by its place among all. -/
inductive Change where
  | stored (exchange : Nat) (mapping : Mapping)
  | deleted (exchange : Nat) (challengeId : String)
  /-- `deleteUserChallengeMappings` -/
  | forgotten (userId : String)
  /-- the TTL index -/
  | expired (challengeId : String)
deriving DecidableEq

def changes : KeyedLog.Changes Change String Mapping where
  puts
    | .stored _ mapping => some (mapping.challengeId, mapping)
    | _                 => none
  gone
    | .stored _ _, _, _            => false
    | .deleted _ id, key, _        => id = key
    | .forgotten user, _, mapping  => mapping.userId = user
    | .expired id, key, _          => id = key

/-! ## Exchanges -/

/-- `req.body.challengeId` -/
inductive Given where
  | missing
  | text (id : String)
  /-- it has no `substring` -/
  | other
deriving DecidableEq

/-- What `findOne` was asked, and where the log was at. -/
structure Lookup where
  challengeId : String
  seen        : Nat
deriving DecidableEq

inductive Phase where
  /-- Better-Auth is asked for options -/
  | generating
  /-- for the insert -/
  | storing (mapping : Mapping)
  | stored (mapping : Mapping)
  /-- for the document of an id -/
  | looking (challengeId : String)
  | found (lookup : Lookup) (mapping : Option Mapping)
  /-- Better-Auth is asked, and its answer is passed on -/
  | forwarding
  | deleting (challengeId : String)
  | deleted
  | answered (response : Response)
  /-- with an error of the middleware -/
  | failed

/-- A passkey request. -/
structure Exchange where
  /-- `isPasskeyGenerate` -/
  generate     : Bool
  kind         : Kind
  sessionToken : Option String
  phase        : Phase
  /-- the reply that has been read, and when -/
  lookup       : Option (Lookup × Nat) := none
  /-- the id and the token of the cookie that Better-Auth was given -/
  injected     : Option (String × Text) := none
  /-- what Better-Auth has answered -/
  response     : Option Response := none

structure State where
  now       : Nat
  db        : String → Option Mapping := fun _ => none
  exchanges : List Exchange := []
  log       : List Change := []

namespace State

variable (s : State)

def put (i : Nat) (exchange : Exchange) : State :=
  { s with exchanges := s.exchanges.set i exchange }

/-- The collection and its log change. -/
def change (c : Change) : State := { s with db := changes.apply s.db c, log := s.log ++ [c] }

end State

inductive Event where
  | generates (kind : Kind) (sessionToken : Option String)
  | verifies (kind : Kind) (challengeId : Given)
  /-- Better-Auth answers; `challengeId` is what `randomBytes` draws -/
  | answers (exchange : Nat) (response : Response) (challengeId : String)
  /-- the command of the exchange arrives -/
  | executes (exchange : Nat)
  /-- its reply arrives -/
  | replies (exchange : Nat)
  /-- what is waited for fails -/
  | errors (exchange : Nat)
  | forgets (userId : String)
  | expires (challengeId : String)
  | passes (ms : Nat)

section Step

variable (config : Config)

/-- After Better-Auth has answered. -/
def afterAnswer (now : Nat) (x : Exchange) (response : Response) (challengeId : String) :
    Exchange :=
  match x.phase with
  | .generating =>
      if response.ok then
        match response.verificationToken config.passkey.getCookieName with
        | .error _       => { x with phase := .failed, response := some response }
        | .ok (some (c :: cs)) =>
            { x with
              phase := .storing
                { challengeId       := challengeId
                  createdAt         := now
                  expiresAt         := now + config.passkey.ttlSeconds * 1000
                  type              := x.kind
                  userId            := response.userId x.sessionToken
                  verificationToken := c :: cs }
              response := some response }
        | .ok _          => { x with phase := .answered response, response := some response }
      else { x with phase := .answered response, response := some response }
  | _ =>
      match x.injected with
      | some (id, _) =>
          if response.ok then { x with phase := .deleting id, response := some response }
          else { x with phase := .answered response, response := some response }
      | none => { x with phase := .answered response, response := some response }

/-- After `findOne` has answered: `getVerificationToken`, and the cookie is signed. -/
def afterFind (now : Nat) (x : Exchange) (lookup : Lookup) (mapping : Option Mapping) : Exchange :=
  match mapping.filter fun m => !decide (m.expiresAt < now) && m.verificationToken ≠ [] with
  | none   => { x with phase := .forwarding, lookup := some (lookup, now) }
  | some m =>
      if config.secret = [] then { x with phase := .failed, lookup := some (lookup, now) }
      else
        { x with
          phase    := .forwarding
          lookup   := some (lookup, now)
          injected := some (lookup.challengeId, m.verificationToken) }

def step (s : State) : Event → Option State
  | .generates kind sessionToken =>
      some { s with exchanges := s.exchanges ++
        [{ generate     := config.passkey.isEnabled
           kind         := kind
           sessionToken := sessionToken
           phase        := if config.passkey.isEnabled then .generating else .forwarding }] }
  | .verifies kind challengeId =>
      let phase : Phase :=
        if config.passkey.isEnabled then
          match challengeId with
          | .missing => .forwarding
          | .text id => if id = "" then .forwarding else .looking id
          | .other   => .failed
        else .forwarding
      some { s with exchanges := s.exchanges ++
        [{ generate := false, kind := kind, sessionToken := none, phase := phase }] }
  | .answers i response challengeId =>
      match s.exchanges[i]? with
      | none   => none
      | some x => match x.phase with
          | .generating | .forwarding =>
              some (s.put i (afterAnswer config s.now x response challengeId))
          | _ => none
  | .executes i =>
      match s.exchanges[i]? with
      | none   => none
      | some x => match x.phase with
          | .storing mapping =>
              -- the index on `challengeId` is unique
              if (s.db mapping.challengeId).isSome then some (s.put i { x with phase := .failed })
              else some ((s.change (.stored i mapping)).put i { x with phase := .stored mapping })
          | .looking id =>
              some (s.put i { x with phase := .found ⟨id, s.log.length⟩ (s.db id) })
          | .deleting id =>
              some ((s.change (.deleted i id)).put i { x with phase := .deleted })
          | _ => none
  | .replies i =>
      match s.exchanges[i]? with
      | none   => none
      | some x => match x.phase, x.response with
          | .stored mapping, some response =>
              some (s.put i { x with
                phase := .answered
                  (response.enhanced config.passkey.getCookieName mapping.challengeId) })
          | .found lookup mapping, _ => some (s.put i (afterFind config s.now x lookup mapping))
          | .deleted, some response  => some (s.put i { x with phase := .answered response })
          | _, _                     => none
  | .errors i =>
      match s.exchanges[i]? with
      | none   => none
      | some x => match x.phase with
          | .answered _ | .failed => none
          | _                     => some (s.put i { x with phase := .failed })
  | .forgets userId => some (s.change (.forgotten userId))
  | .expires id =>
      if (s.db id).any fun mapping => mapping.expiresAt ≤ s.now then some (s.change (.expired id))
      else none
  | .passes ms => some { s with now := s.now + ms }

end Step

def boot (now : Nat) : State := { now := now }

end PasskeyChallenges
