import NestServer.Interleaving
import NestServer.OrderedMap
import NestServer.RoleEnum

/-! # MCP sessions

    The session map of `core-ai-mcp.controller.ts` and the requests on it, on one
    replica.  What runs between two awaits of a request is one operation. -/

namespace McpSessions

/-! ## The replica -/

/-- An entry of the map, with the session id of its transport. -/
structure Entry where
  lastUsed  : Nat := 0
  ownerId   : String := ""
  sessionId : Option String := none
deriving DecidableEq, Repr, Inhabited

structure RegistryEntry where
  instanceId : String
  userId     : String
deriving DecidableEq, Repr

/-- The replica and the shared registry.  An entry is an object: requests that hold it
    share it with the map. -/
structure Store where
  instanceId : String
  /-- whether Redis is -/
  enabled    : Bool := true
  entries    : List Entry := []
  transports : OrderedMap String Nat := OrderedMap.empty
  registry   : String → Option RegistryEntry := fun _ => none
  /-- the session ids that transports of this replica and of others were given -/
  issued     : List String := []
  foreign    : List String := []
  /-- the sessions that a DELETE has closed, or that were evicted -/
  closed     : List String := []

namespace Store

variable (store : Store)

def entry (e : Nat) : Entry := store.entries.getD e default

def setEntry (e : Nat) (entry : Entry) : Store :=
  { store with entries := store.entries.set e entry }

/-- `entry.lastUsed = Date.now()` -/
def touch (e now : Nat) : Store := store.setEntry e { store.entry e with lastUsed := now }

def setRegistry (sessionId : String) (value : Option RegistryEntry) : Store :=
  { store with registry := fun key => if key = sessionId then value else store.registry key }

def registerSession (sessionId userId : String) : Store :=
  if store.enabled then
    store.setRegistry sessionId (some { instanceId := store.instanceId, userId := userId })
  else store

def releaseSession (sessionId : String) : Store :=
  if store.enabled then store.setRegistry sessionId none else store

def deleteTransport (sessionId : String) : Store :=
  { store with transports := store.transports.delete sessionId }

/-- `transport.onclose` -/
def onclose (e : Nat) : Store :=
  match (store.entry e).sessionId.filter JsText.truthy with
  | none           => store
  | some sessionId => (store.deleteTransport sessionId).releaseSession sessionId

/-! ## Eviction -/

/-- The older one of two sessions, the first one with its time. -/
def older (oldest : Option (String × Nat)) (key : String) : Option (String × Nat) :=
  match store.transports.get? key with
  | none   => oldest
  | some e =>
      let lastUsed := (store.entry e).lastUsed
      if oldest.all fun (_, time) => lastUsed < time then some (key, lastUsed) else oldest

/-- The transport is closed as well, for which see `onclose`. -/
def evict (sessionId : String) : Store :=
  { (store.deleteTransport sessionId).releaseSession sessionId with
    closed := sessionId :: store.closed }

def evictOldestOf (sessionIds : List String) : Store :=
  match (sessionIds.foldl store.older none).filter fun (key, _) => JsText.truthy key with
  | none             => store
  | some (oldest, _) => store.evict oldest

def addOwned (perUser : OrderedMap String (List String)) (x : String × Nat) :
    OrderedMap String (List String) :=
  let ownerId := (store.entry x.2).ownerId
  match perUser.get? ownerId with
  | some owned => perUser.set ownerId (owned ++ [x.1])
  | none       => perUser.set ownerId [x.1]

/-- The session ids of each user. -/
def perUser : OrderedMap String (List String) :=
  store.transports.entries.foldl store.addOwned OrderedMap.empty

def larger (largest : Option (List String)) (owned : List String) : Option (List String) :=
  if largest.all fun held => held.length < owned.length then some owned else largest

def maxSessionsPerUser : Nat := 25

def maxSessions : Nat := 500

def evictIfNeeded (ownerId : String) : Store :=
  let own := (store.perUser.get? ownerId).getD []
  if maxSessionsPerUser ≤ own.length then store.evictOldestOf own
  else if store.transports.size < maxSessions then store
  else
    let largest := (store.perUser.entries.map Prod.snd).foldl larger none
    store.evictOldestOf (largest.getD [])

end Store

/-! ## What the requests await -/

/-- What a POST finds in the map, for its session id. -/
inductive Found where
  | foreign | missing | held (e : Nat)
deriving DecidableEq, Repr

inductive Query where
  | resolveUser
  /-- the lookup of a POST; an entry it holds gets its request -/
  | findSession (sessionId : Option String) (user : String)
  /-- the lookup of a GET and a DELETE, in the same way -/
  | holdSession (sessionId : Option String) (user : String)
  | foreignSessionOwner (sessionId user : String)
  | importSdk
  | createServer (user : String)
  /-- a new transport gets its request -/
  | newSession (user : String)
  /-- `handleRequest`, to its end, and what comes after it -/
  | handlePost (e : Nat) (user : String)
  | handleGet (e : Nat)
  | handleDelete (e : Nat)
deriving DecidableEq, Repr

abbrev Answer : Query → Type
  | .resolveUser             => Option String
  | .findSession _ _         => Found
  | .holdSession _ _         => Option Nat
  | .foreignSessionOwner _ _ => Option String
  | .importSdk               => Bool
  | .createServer _          => Except String Unit
  | .newSession _            => Nat
  | .handlePost _ _          => Except String Unit
  | .handleGet _             => Except String Unit
  | .handleDelete _          => Except String Unit

abbrev Mcp := Dialogue Query Answer

abbrev await (q : Query) : Mcp (Answer q) := Dialogue.query q

abbrev History := Dialogue.History Query Answer

open Dialogue (orThrow)

/-! ## The requests -/

inductive Response where
  | unauthorized | unknownSession | foreignSession (owner : String) | unavailable | handled
deriving DecidableEq, Repr

/-- The other replica that holds the session, for a session id. -/
def foreignOwner (sessionId : Option String) (user : String) : Mcp (Option String) := do
  match sessionId.filter JsText.truthy with
  | none    => pure none
  | some id => do
      let owner : Option String ← await (.foreignSessionOwner id user)
      pure (owner.filter JsText.truthy)

/-- The entry of a POST: the one of its session, or a new one. -/
def postEntry (sessionId : Option String) (user : String) : Mcp (Except Response Nat) := do
  match ← await (.findSession sessionId user) with
  | .foreign => pure (.error .unknownSession)
  | .held e  => pure (.ok e)
  | .missing => do
      match ← foreignOwner sessionId user with
      | some owner => pure (.error (.foreignSession owner))
      | none       => do
          let imported : Bool ← await .importSdk
          if imported then do
            let created : Except String Unit ← await (.createServer user)
            orThrow created
            let e : Nat ← await (.newSession user)
            pure (.ok e)
          else pure (.error .unavailable)

def handlePost (sessionId : Option String) : Mcp Response := do
  let resolved : Option String ← await .resolveUser
  match resolved.filter JsText.truthy with
  | none      => pure .unauthorized
  | some user => do
      match ← postEntry sessionId user with
      | .error response => pure response
      | .ok e           => do
          let handled : Except String Unit ← await (.handlePost e user)
          orThrow handled
          pure .handled

inductive Method where
  | get | delete
deriving DecidableEq, Repr

/-- `handleRequest` of the transport, for the method. -/
def forward (method : Method) (e : Nat) : Mcp (Except String Unit) :=
  match method with
  | .get    => await (.handleGet e)
  | .delete => await (.handleDelete e)

def handleSessionRequest (method : Method) (sessionId : Option String) : Mcp Response := do
  let resolved : Option String ← await .resolveUser
  match resolved.filter JsText.truthy with
  | none      => pure .unauthorized
  | some user => do
      let held : Option Nat ← await (.holdSession sessionId user)
      match held with
      | some e => do
          let handled : Except String Unit ← forward method e
          orThrow handled
          pure .handled
      | none   => do
          match ← foreignOwner sessionId user with
          | some owner => pure (.foreignSession owner)
          | none       => pure .unknownSession

inductive Request where
  | post (sessionId : Option String)
  | session (method : Method) (sessionId : Option String)
deriving DecidableEq, Repr

def Request.program : Request → Mcp Response
  | .post sessionId           => McpSessions.handlePost sessionId
  | .session method sessionId => McpSessions.handleSessionRequest method sessionId

/-! ## The operations -/

/-- What is open in an operation: who calls, the time, the id that a transport gets when
    it initializes, whether it closes, and whether all goes well. -/
structure Choice where
  user   : Option String := none
  now    : Nat := 0
  id     : Option String := none
  closes : Bool := false
  ok     : Bool := true
deriving DecidableEq, Repr

def Choice.outcome (choice : Choice) : Except String Unit :=
  if choice.ok then .ok () else .error "Error"

namespace Store

variable (store : Store)

def get (sessionId : Option String) : Option Nat :=
  (sessionId.filter JsText.truthy).bind store.transports.get?

def findSession (sessionId : Option String) (user : String) (now : Nat) : Found × Store :=
  match store.get sessionId with
  | none   => (.missing, store)
  | some e =>
      if (store.entry e).ownerId ≠ user then (.foreign, store)
      else (.held e, store.touch e now)

def holdSession (sessionId : Option String) (user : String) (now : Nat) : Option Nat × Store :=
  match (store.get sessionId).filter fun e => (store.entry e).ownerId = user with
  | none   => (none, store)
  | some e => (some e, (store.touch e now).registerSession (sessionId.getD "") user)

def foreignSessionOwner (sessionId user : String) : Option String :=
  if !store.enabled then none
  else
    match store.registry sessionId with
    | none       => none
    | some entry =>
        if !JsText.truthy entry.instanceId || !JsText.truthy entry.userId then none
        else if entry.userId ≠ user || entry.instanceId = store.instanceId then none
        else some entry.instanceId

def newSession (user : String) (now : Nat) : Nat × Store :=
  (store.entries.length, { store with entries := store.entries ++
    [{ lastUsed := now, ownerId := user }] })

/-- `transport.sessionId = id` -/
def setSessionId (e : Nat) (id : String) : Store :=
  { store.setEntry e { store.entry e with sessionId := some id } with issued := id :: store.issued }

/-- A transport without a session id may get one, which no transport has. -/
def assignSessionId (e : Nat) (id : Option String) : Option Store :=
  match (store.entry e).sessionId, id with
  | some _, _       => some store
  | none, none      => some store
  | none, some id   =>
      if id ∈ store.issued ∨ id ∈ store.foreign ∨ !JsText.truthy id then none
      else some (store.setSessionId e id)

/-- What a POST does after `handleRequest`. -/
def afterRequest (e : Nat) (user : String) : Store :=
  match (store.entry e).sessionId.filter JsText.truthy with
  | none           => store
  | some sessionId =>
      let held :=
        if (store.transports.get? sessionId).isSome then store
        else
          let evicted := store.evictIfNeeded user
          { evicted with transports := evicted.transports.set sessionId e }
      held.registerSession sessionId user

/-- A transport that a DELETE closes. -/
def close (e : Nat) : Store :=
  { store.onclose e with closed := (store.entry e).sessionId.toList ++ store.closed }

end Store

def exec (store : Store) (choice : Choice) : (q : Query) → Option (Answer q × Store)
  | .resolveUser                => some (choice.user, store)
  | .findSession sessionId user => some (store.findSession sessionId user choice.now)
  | .holdSession sessionId user => some (store.holdSession sessionId user choice.now)
  | .foreignSessionOwner sessionId user =>
      some (if choice.ok then store.foreignSessionOwner sessionId user else none, store)
  | .importSdk                  => some (choice.ok, store)
  | .createServer _             => some (choice.outcome, store)
  | .newSession user            => some (store.newSession user choice.now)
  | .handlePost e user          =>
      if choice.ok then
        (store.assignSessionId e choice.id).map fun store => (.ok (), store.afterRequest e user)
      else some (choice.outcome, store)
  | .handleGet _                => some (choice.outcome, store)
  | .handleDelete e             =>
      some (choice.outcome, if choice.closes then store.close e else store)

/-- What happens beside the requests: a key of the registry expires, another replica
    writes one of its own, and a transport that was closed says so once more. -/
inductive Outside where
  | expire (sessionId : String)
  | foreign (sessionId : String) (value : Option RegistryEntry)
  | onclose (e : Nat)
deriving DecidableEq, Repr

def outside (store : Store) : Outside → Option Store
  | .expire sessionId        => some (store.setRegistry sessionId none)
  | .foreign sessionId value =>
      if sessionId ∈ store.issued then none
      else some { store.setRegistry sessionId value with foreign := sessionId :: store.foreign }
  | .onclose e               =>
      if (store.entry e).sessionId.any fun sessionId => store.closed.contains sessionId then
        some (store.onclose e)
      else none

def system : Interleaving.System Store Request Outside Choice Query Answer Response where
  program := Request.program
  exec    := exec
  outside := outside

abbrev Thread := Interleaving.Thread Request Query Answer Response

abbrev State := Interleaving.State Store Request Query Answer Response

end McpSessions
