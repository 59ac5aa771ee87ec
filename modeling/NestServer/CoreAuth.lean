import NestServer.OrderedMap
import NestServer.Promise
import NestServer.TenantRoles

/-! # Legacy sessions

    `core-auth.service.ts`: `signIn`, `refreshTokens` and `logout` of one user,
    and `validateUser`.  A token is what it was signed from, so both tokens of a
    call are one payload.

    The user document holds two maps from device to token: `refreshTokens` says
    which token is valid, `tempTokens` which was made last. -/

namespace CoreAuth

/-- `JwtPayload` -/
structure JwtPayload where
  id                : String
  deviceId          : String
  tokenId           : String
  deviceDescription : Option String := none
deriving DecidableEq, Repr

/-- `CoreTokenData` -/
structure CoreTokenData where
  deviceDescription : Option String
  deviceId          : String
  tokenId           : String
deriving DecidableEq, Repr

/-- An entry of `tempTokens`. -/
structure TempToken where
  createdAt : Int
  deviceId  : String
  tokenId   : String
deriving DecidableEq, Repr

abbrev RefreshTokens := OrderedMap String CoreTokenData

abbrev TempTokens := OrderedMap String TempToken

/-- `ICoreAuthUser`; a map that is missing is empty. -/
structure AuthUser where
  id            : String
  refreshTokens : RefreshTokens := .empty
  tempTokens    : TempTokens := .empty

/-- The `jwt` section of the configuration. -/
structure JwtConfig where
  renewal           : Bool
  sameTokenIdPeriod : Int
deriving DecidableEq, Repr

/-- What a token is made for. -/
structure DeviceData where
  deviceDescription : Option String := none
  deviceId          : Option String := none
deriving DecidableEq, Repr

/-- `{ deviceDescription, deviceId }` of a decoded token. -/
def JwtPayload.data (payload : JwtPayload) : DeviceData :=
  { deviceDescription := payload.deviceDescription, deviceId := some payload.deviceId }

/-- The clock and the UUIDs that the making of one token reads. -/
structure Reading where
  checkedAt : Int
  storedAt  : Int
  deviceId  : String
  tokenId   : String
deriving DecidableEq, Repr

/-- The maps that a call stores. -/
structure UserUpdate where
  refreshTokens : RefreshTokens
  tempTokens    : Option TempTokens := none

def UserUpdate.apply (data : UserUpdate) (user : AuthUser) : AuthUser :=
  { user with
    refreshTokens := data.refreshTokens
    tempTokens    := data.tempTokens.getD user.tempTokens }

abbrev AuthCall (α : Type) := Promise AuthUser UserUpdate α

def INVALID_TOKEN : String := "#LTNS_0003: Invalid or malformed token"

/-! ## Maps by device

    They are plain objects: every object has the members of `Object.prototype`
    to read, and an assignment to `__proto__` makes no entry. -/

section Records

variable {ν : Type}

/-- `!!record[deviceId]` -/
def has (record : OrderedMap String ν) (deviceId : String) : Bool :=
  (record.get? deviceId).isSome || objectPrototypeKeys.contains deviceId

/-- `record[deviceId] = entry` -/
def assign (record : OrderedMap String ν) (deviceId : String) (entry : ν) : OrderedMap String ν :=
  if deviceId = "__proto__" then record else record.set deviceId entry

end Records

/-! ## Tokens -/

/-- The token ID that `createTokens` takes over. -/
def recentTokenId (cfg : JwtConfig) (tempTokens : TempTokens) (deviceId : String) (now : Int) :
    Option String :=
  if cfg.sameTokenIdPeriod = 0 then none
  else
    match tempTokens.get? deviceId with
    | some tempToken =>
        if JsText.truthy tempToken.tokenId &&
          decide (now - cfg.sameTokenIdPeriod ≤ tempToken.createdAt)
        then some tempToken.tokenId else none
    | none => none

/-- `data?.deviceId || randomUUID()` -/
def DeviceData.device (data : DeviceData) (uuid : String) : String :=
  match data.deviceId with
  | some deviceId => if JsText.truthy deviceId then deviceId else uuid
  | none          => uuid

def createTokens (cfg : JwtConfig) (userId : String) (data : DeviceData) (r : Reading) :
    AuthCall JwtPayload := do
  let deviceId := data.device r.deviceId
  let payload (tokenId : String) : JwtPayload :=
    { id := userId, deviceId := deviceId, tokenId := tokenId,
      deviceDescription := data.deviceDescription }
  if cfg.sameTokenIdPeriod = 0 then return payload r.tokenId
  else
    let user ← Promise.fetch
    return payload ((recentTokenId cfg user.tempTokens deviceId r.checkedAt).getD r.tokenId)

/-- `a || b` for descriptions. -/
def orDescription (a b : Option String) : Option String :=
  match a with
  | some text => if JsText.truthy text then some text else b
  | none      => b

/-- Both maps with the new token of a device. -/
def AuthUser.setToken (user : AuthUser) (deviceId : String) (deviceDescription : Option String)
    (tokenId : String) (now : Int) : AuthUser :=
  { user with
    refreshTokens := assign user.refreshTokens deviceId
      { deviceDescription := deviceDescription, deviceId := deviceId, tokenId := tokenId }
    tempTokens    := assign user.tempTokens deviceId
      { createdAt := now, deviceId := deviceId, tokenId := tokenId } }

def AuthUser.maps (user : AuthUser) : UserUpdate :=
  { refreshTokens := user.refreshTokens, tempTokens := some user.tempTokens }

/-- It changes the user that it is given and answers with the refresh token.
    `data` is missing in the first of the two updates of a refresh. -/
def updateRefreshToken (cfg : JwtConfig) (user : AuthUser) (currentRefreshToken : Option JwtPayload)
    (newRefreshToken : JwtPayload) (data : Option DeviceData) (now : Int) :
    AuthCall (AuthUser × JwtPayload) :=
  match currentRefreshToken with
  | some current =>
      if !JsText.truthy current.deviceId || !has user.refreshTokens current.deviceId then
        Promise.fail INVALID_TOKEN
      else if !cfg.renewal then return (user, current)
      else do
        let description := match data with
          | some d => d.deviceDescription
          | none   => (user.refreshTokens.get? current.deviceId).bind (·.deviceDescription)
        let user' := user.setToken current.deviceId
          (orDescription newRefreshToken.deviceDescription description) newRefreshToken.tokenId now
        Promise.store user'.maps
        return (user', newRefreshToken)
  | none => do
      let description := data.bind (·.deviceDescription)
      let user' := user.setToken newRefreshToken.deviceId
        (orDescription newRefreshToken.deviceDescription description) newRefreshToken.tokenId now
      Promise.store user'.maps
      return (user', newRefreshToken)

/-- `CoreAuthModel`: the access token and the refresh token. -/
structure Tokens where
  token        : JwtPayload
  refreshToken : JwtPayload
deriving DecidableEq, Repr

def getResult (cfg : JwtConfig) (user : AuthUser) (currentRefreshToken : Option JwtPayload)
    (data : DeviceData) (r : Reading) : AuthCall Tokens := do
  let tokens ← createTokens cfg user.id data r
  let updated ← updateRefreshToken cfg user currentRefreshToken tokens (some data) r.storedAt
  return { token := tokens, refreshToken := updated.2 }

/-! ## The calls

    Each starts from its own copy of the user. -/

/-- From the user with the e-mail; the checks of the password, whose answer
    `credentials` is, come first and leave the maps alone. -/
def signIn (cfg : JwtConfig) (user : AuthUser) (credentials : Except String Unit)
    (data : DeviceData) (r : Reading) : AuthCall Tokens :=
  match credentials with
  | .error e => Promise.fail e
  | .ok ()   => getResult cfg user none data r

/-- A token that cannot be decoded is `none`. -/
def refreshTokens (cfg : JwtConfig) (user : AuthUser) (currentRefreshToken : Option JwtPayload)
    (first second : Reading) : AuthCall Tokens :=
  match currentRefreshToken with
  | none => Promise.fail "TypeError: Cannot destructure property 'deviceDescription'"
  | some current => do
      let tokens ← createTokens cfg user.id current.data first
      let updated ← updateRefreshToken cfg user (some current) tokens none first.storedAt
      getResult cfg updated.1 (some current) current.data second

def logout (user : AuthUser) (tokenOrRefreshToken : Option JwtPayload) (allDevices : Bool) :
    AuthCall Unit :=
  match tokenOrRefreshToken with
  | none => Promise.fail INVALID_TOKEN
  | some token =>
      if !JsText.truthy token.deviceId || !has user.refreshTokens token.deviceId then
        Promise.fail INVALID_TOKEN
      else if allDevices then Promise.store { refreshTokens := .empty }
      else Promise.store { refreshTokens := user.refreshTokens.delete token.deviceId }

/-- An inherited member is no token data: it has no `tokenId`. -/
def validateUser (user : AuthUser) (payload : JwtPayload) : Option AuthUser :=
  if payload.id = user.id then
    match user.refreshTokens.get? payload.deviceId with
    | some device =>
        if !JsText.truthy payload.tokenId || device.tokenId != payload.tokenId then none
        else some user
    | none => none
  else none

/-! ## Calls as data -/

inductive Call where
  | signIn (credentials : Except String Unit) (data : DeviceData) (r : Reading)
  | refreshTokens (currentRefreshToken : Option JwtPayload) (first second : Reading)
  | logout (tokenOrRefreshToken : Option JwtPayload) (allDevices : Bool)

/-- What a call answers: the access token, if it makes one. -/
def Call.start (cfg : JwtConfig) (user : AuthUser) : Call → AuthCall (Option JwtPayload)
  | .signIn credentials data r => do
      let tokens ← CoreAuth.signIn cfg user credentials data r
      return some tokens.token
  | .refreshTokens current first second => do
      let tokens ← CoreAuth.refreshTokens cfg user current first second
      return some tokens.token
  | .logout token allDevices => do
      CoreAuth.logout user token allDevices
      return none

/-- A call with nothing else going on. -/
def Call.perform (cfg : JwtConfig) (call : Call) (user : AuthUser) :
    AuthUser × Except String (Option JwtPayload) :=
  (call.start cfg user).finish UserUpdate.apply user

end CoreAuth
