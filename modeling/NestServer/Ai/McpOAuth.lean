import NestServer.Interleaving
import NestServer.RoleEnum

/-! # OAuth for MCP clients

    The authorization codes and refresh tokens of `core-ai-mcp-oauth.service.ts`, and
    the requests that exchange them.  Every await is one operation on a collection. -/

namespace McpOAuth

open Dialogue (orThrow)

/-! ## The collections -/

/-- A document of the codes, but for its `code`. -/
structure AuthorizationCode where
  clientId      : String
  codeChallenge : String
  userId        : String
deriving DecidableEq, Repr

/-- A document of the refresh tokens, but for its `token`. -/
structure RefreshToken where
  clientId : String
  userId   : String
deriving DecidableEq, Repr

/-- The collections, by their unique indexes, and all ids that were ever given out. -/
structure Store where
  codes         : String → Option AuthorizationCode := fun _ => none
  refreshTokens : String → Option RefreshToken := fun _ => none
  issued        : List String := []

/-- A collection with another document for one key, or without it. -/
def put {α : Type} (collection : String → Option α) (key : String) (doc : Option α) :
    String → Option α :=
  fun k => if k = key then doc else collection k

@[simp] theorem put_self {α : Type} (collection : String → Option α) (key : String)
    (doc : Option α) :
    put collection key doc key = doc := if_pos rfl

theorem put_of_ne {α : Type} (collection : String → Option α) {key k : String} (h : k ≠ key)
    (doc : Option α) : put collection key doc k = collection k := if_neg h

/-! ## What the requests await -/

inductive Query where
  | getAuthorizationCode (code : String)
  /-- `findOneAndDelete({ code })` -/
  | consumeAuthorizationCode (code : String)
  | insertAuthorizationCode (code : String) (doc : AuthorizationCode)
  | ensureIndexes
  | generateId
  | insertRefreshToken (token : String) (doc : RefreshToken)
  /-- `findOneAndDelete({ clientId, token })` -/
  | deleteRefreshToken (token clientId : String)
deriving DecidableEq, Repr

/-- What a query for a client finds. -/
abbrev TokenOf (clientId : String) : Type := { doc : RefreshToken // doc.clientId = clientId }

abbrev Answer : Query → Type
  | .getAuthorizationCode _      => Except String (Option AuthorizationCode)
  | .consumeAuthorizationCode _  => Except String (Option AuthorizationCode)
  | .insertAuthorizationCode _ _ => Except String Unit
  | .ensureIndexes               => Unit
  | .generateId                  => String
  | .insertRefreshToken _ _      => Except String Unit
  | .deleteRefreshToken _ client => Except String (Option (TokenOf client))

abbrev OAuth := Dialogue Query Answer

abbrev await (q : Query) : OAuth (Answer q) := Dialogue.query q

abbrev History := Dialogue.History Query Answer

/-! ## The requests -/

/-- The payload of an access token. -/
structure AiMcpAccessTokenPayload where
  cid : String
  sub : String
deriving DecidableEq, Repr

def signAccessToken (userId clientId : String) : AiMcpAccessTokenPayload :=
  { cid := clientId, sub := userId }

structure Tokens where
  accessToken  : AiMcpAccessTokenPayload
  refreshToken : String
deriving DecidableEq, Repr

inductive Response where
  | tokens (tokens : Tokens)
  | challenge (codeChallenge : String)
  | saved
deriving DecidableEq, Repr

def issueRefreshToken (userId clientId : String) : OAuth String := do
  await .ensureIndexes
  let token : String ← await .generateId
  let inserted : Except String Unit ←
    await (.insertRefreshToken token { clientId := clientId, userId := userId })
  orThrow inserted
  pure token

def saveAuthorizationCode (code : String) (data : AuthorizationCode) : OAuth Response := do
  await .ensureIndexes
  let inserted : Except String Unit ← await (.insertAuthorizationCode code data)
  orThrow inserted
  pure .saved

def challengeForAuthorizationCode (code : String) : OAuth Response := do
  let found : Except String (Option AuthorizationCode) ← await (.getAuthorizationCode code)
  let stored ← orThrow found
  pure (.challenge ((stored.map AuthorizationCode.codeChallenge).getD ""))

/-- The client is the one that the request has authenticated as. -/
def exchangeAuthorizationCode (client : Option String) (code : String) : OAuth Response := do
  let found : Except String (Option AuthorizationCode) ← await (.consumeAuthorizationCode code)
  match ← orThrow found with
  | none        => .failed "invalid_grant"
  | some stored =>
      if some stored.clientId ≠ client then .failed "invalid_grant"
      else do
        let accessToken := signAccessToken stored.userId stored.clientId
        let refreshToken ← issueRefreshToken stored.userId stored.clientId
        pure (.tokens { accessToken := accessToken, refreshToken := refreshToken })

/-- The user of the token, its client and the next token. -/
def rotateRefreshToken (token clientId : String) : OAuth (Option (RefreshToken × String)) :=
  if !JsText.truthy token || !JsText.truthy clientId then pure none
  else do
    let deleted : Except String (Option (TokenOf clientId)) ←
      await (.deleteRefreshToken token clientId)
    match ← orThrow deleted with
    | none            => pure none
    | some ⟨value, _⟩ => do
        let newToken ← issueRefreshToken value.userId value.clientId
        pure (some (value, newToken))

def exchangeRefreshToken (client : Option String) (token : String) : OAuth Response :=
  match client.filter JsText.truthy with
  | none                => .failed "invalid_client"
  | some callerClientId => do
      match ← rotateRefreshToken token callerClientId with
      | none                   => .failed "invalid_grant"
      | some (value, newToken) =>
          pure (.tokens {
            accessToken  := signAccessToken value.userId value.clientId
            refreshToken := newToken })

inductive Request where
  | saveAuthorizationCode (code : String) (data : AuthorizationCode)
  | challengeForAuthorizationCode (code : String)
  | exchangeAuthorizationCode (client : Option String) (code : String)
  | exchangeRefreshToken (client : Option String) (token : String)
deriving DecidableEq, Repr

def Request.program : Request → OAuth Response
  | .saveAuthorizationCode code data          => McpOAuth.saveAuthorizationCode code data
  | .challengeForAuthorizationCode code       => McpOAuth.challengeForAuthorizationCode code
  | .exchangeAuthorizationCode client code    => McpOAuth.exchangeAuthorizationCode client code
  | .exchangeRefreshToken client token        => McpOAuth.exchangeRefreshToken client token

/-! ## The database -/

/-- How an operation ends: it may also fail after it was done. -/
inductive Outcome where
  | done | failed | lost
deriving DecidableEq, Repr

/-- What an event chooses: the outcome, and the id that is generated. -/
structure Choice where
  outcome : Outcome := .done
  id      : String := ""
deriving DecidableEq, Repr

/-- The answer and what is left, as the outcome has it. -/
def Outcome.settle {α : Type} (outcome : Outcome) (answer : Except String α) (store done : Store) :
    Except String α × Store :=
  match outcome with
  | .done   => (answer, done)
  | .failed => (.error "MongoServerError", store)
  | .lost   => (.error "MongoServerError", done)

/-- Generated codes and tokens are fresh: what was given out before is no choice. -/
def exec (store : Store) (choice : Choice) : (q : Query) → Option (Answer q × Store)
  | .getAuthorizationCode code      =>
      some (choice.outcome.settle (.ok (store.codes code)) store store)
  | .consumeAuthorizationCode code  =>
      some (choice.outcome.settle (.ok (store.codes code)) store
        { store with codes := put store.codes code none })
  | .insertAuthorizationCode code doc =>
      if code ∈ store.issued then none
      else some (choice.outcome.settle (.ok ()) store
        { store with codes := put store.codes code (some doc), issued := code :: store.issued })
  | .ensureIndexes                  => some ((), store)
  | .generateId                     =>
      if choice.id ∈ store.issued then none
      else some (choice.id, { store with issued := choice.id :: store.issued })
  | .insertRefreshToken token doc   =>
      if (store.refreshTokens token).isSome then some (.error "E11000", store)
      else some (choice.outcome.settle (.ok ()) store
        { store with refreshTokens := put store.refreshTokens token (some doc) })
  | .deleteRefreshToken token clientId =>
      match store.refreshTokens token with
      | none     => some (choice.outcome.settle (.ok none) store store)
      | some doc =>
          if h : doc.clientId = clientId then
            some (choice.outcome.settle (.ok (some ⟨doc, h⟩)) store
              { store with refreshTokens := put store.refreshTokens token none })
          else some (choice.outcome.settle (.ok none) store store)

/-- What expires or is removed. -/
inductive Item where
  | code (code : String)
  | refreshToken (token : String)
deriving DecidableEq, Repr

def expire (store : Store) : Item → Option Store
  | .code code          => some { store with codes := put store.codes code none }
  | .refreshToken token => some { store with refreshTokens := put store.refreshTokens token none }

def system : Interleaving.System Store Request Item Choice Query Answer Response where
  program := Request.program
  exec    := exec
  outside := expire

abbrev Thread := Interleaving.Thread Request Query Answer Response

abbrev State := Interleaving.State Store Request Query Answer Response

end McpOAuth
