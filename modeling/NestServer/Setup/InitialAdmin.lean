import Mathlib.Data.List.Infix
import NestServer.Injection
import NestServer.Interleaving
import NestServer.PasswordPlugin

/-! # The initial admin

    `core-system-setup.service.ts`, with the parts of `core-better-auth-user.mapper.ts` that it
    calls.  The first admin is created in a row of steps in two user stores; a marker in a
    collection of its own is to keep other calls out, and replicas share all three.

    * `Question` is what a call asks of the database and of Better-Auth;
    * `createInitialAdmin` is the call;
    * `system` lets any number of calls run at once, while time passes. -/

namespace SystemSetup

open Dialogue

/-! ## Data -/

structure SystemSetupInitInput where
  email    : String
  name     : Option String := none
  password : String

structure SystemSetupInitResult where
  email   : String
  message : String
  success : Bool

/-- A document of `users`: the fields of Better-Auth, and those of the mapper. -/
structure User where
  id            : Nat
  email         : String
  emailVerified : Option Bool := none
  name          : Option String := none
  firstName     : Option String := none
  lastName      : Option String := none
  verified      : Option Bool := none
  iamId         : Option Nat := none
  roles         : Option (List String) := none
  password      : Option String := none

/-- A credential account. -/
structure Account where
  accountId  : Nat
  password   : String
  providerId : String
  userId     : Nat

/-- What the mapper is told of a user. -/
structure SessionUser where
  email         : String
  emailVerified : Option Bool
  id            : Nat
  name          : Option String

def User.toSessionUser (iamUser : User) : SessionUser where
  email         := iamUser.email
  emailVerified := some true
  id            := iamUser.id
  name          := iamUser.name

/-- `INITIAL_ADMIN_CLAIM_STALE_AFTER_MS` -/
def staleAfterMs : Int := 5 * 60000

def notAvailable : String := "#LTNS_0050: System setup not available - users already exist"

def betterAuthRequired : String := "#LTNS_0052: System setup requires BetterAuth"

/-- `s.includes(t)` -/
def includes (s t : String) : Bool := decide (t.toList <:+: s.toList)

def isDuplicateKey (error : String) : Bool :=
  includes error "duplicate key" || includes error "E11000"

/-- The errors that are a `ForbiddenException`. -/
def isForbidden (error : String) : Bool := error = notAvailable || error = betterAuthRequired

/-! ## The stores -/

/-- `$set`, and `$setOnInsert` for a user that has not been found. -/
structure UserUpdate where
  email     : String
  firstName : Option String
  lastName  : Option String
  verified  : Option Bool
  iamId     : Nat
  onInsert  : Option (List String)

def UserUpdate.apply (update : UserUpdate) (user : User) : User :=
  { user with
    email     := update.email
    firstName := update.firstName.or user.firstName
    lastName  := update.lastName.or user.lastName
    verified  := update.verified.or user.verified
    iamId     := some update.iamId }

/-- `{ $or: [{ email }, { iamId }] }` -/
def selects (email : String) (iamId : Nat) (user : User) : Bool :=
  user.email = email || user.iamId = some iamId

/-- The first document that is selected. -/
def updateFirst (selected : User → Bool) (update : User → User) : List User → List User
  | []            => []
  | user :: users => if selected user then update user :: users else user ::
      updateFirst selected update users

structure Store where
  now       : Int
  users     : List User := []
  accounts  : List Account := []
  /-- the marker, when there is one -/
  claimedAt : Option Int := none
  /-- the id of the next document -/
  nextId    : Nat := 0
  /-- as history, the users that setup has made an admin -/
  appointed : List Nat := []

inductive Question where
  | now
  | countDocuments
  | deleteStaleClaim (staleBefore : Int)
  | upsertClaim (claimedAt : Int)
  | deleteClaim
  /-- `authInstance.$context` -/
  | context
  | createUser (email : String) (emailVerified : Bool) (name : String)
  /-- `context.password.hash` -/
  | hash (password : String)
  | linkAccount (account : Account)
  | findOne (email : String) (iamId : Nat)
  | findOneAndUpdate (email : String) (iamId : Nat) (update : UserUpdate)
  /-- `updateOne({ _id }, { $set: { roles: ['admin'] } })` -/
  | appoint (id : Nat)
  | bcrypt (password : String)
  | updatePassword (email : String) (iamId : Nat) (password : String)

abbrev Value : Question → Type
  | .now                  => Int
  | .countDocuments       => Nat
  | .deleteStaleClaim _   => Unit
  | .upsertClaim _        => Option Int
  | .deleteClaim          => Unit
  | .context              => Unit
  | .createUser ..        => Option User
  | .hash _               => String
  | .linkAccount _        => Unit
  | .findOne ..           => Option User
  | .findOneAndUpdate ..  => Option User
  | .appoint _            => Unit
  | .bcrypt _             => String
  | .updatePassword ..    => Unit

/-- Each of them can fail. -/
abbrev Answer (q : Question) : Type := Except String (Value q)

/-- What is open in an answer: whether it comes, whether Better-Auth lets a user be created,
    and a salt. -/
structure Choice where
  outcome : Injection.Outcome := .done
  created : Bool := true
  salt    : String := ""

structure Crypto where
  sha256 : String → String
  scrypt : String → String → String
  bcrypt : String → String → String

def Store.insert (store : Store) (user : User) : Store :=
  { store with users := store.users ++ [user], nextId := store.nextId + 1 }

/-- `upsert: true` -/
def Store.upsertUser (store : Store) (email : String) (iamId : Nat) (update : UserUpdate) :
    Option User × Store :=
  match store.users.find? (selects email iamId) with
  | some user =>
      (some (update.apply user),
        { store with users := updateFirst (selects email iamId) update.apply store.users })
  | none =>
      let user := update.apply { id := store.nextId, email := email, roles := update.onInsert }
      (some user, store.insert user)

def Store.appoint (store : Store) (id : Nat) : Store :=
  { store with
    users     := updateFirst (fun user => user.id = id) (fun user =>
      { user with roles := some ["admin"] }) store.users
    appointed := store.appointed ++ [id] }

/-- What is done for a question. -/
def perform (crypto : Crypto) (store : Store) (choice : Choice) : (q : Question) → Value q × Store
  | .now                                 => (store.now, store)
  | .countDocuments                      => (store.users.length, store)
  | .deleteStaleClaim staleBefore        =>
      ((), if store.claimedAt.any (· < staleBefore) then { store with claimedAt := none }
        else store)
  | .upsertClaim claimedAt               =>
      (store.claimedAt, { store with claimedAt := some (store.claimedAt.getD claimedAt) })
  | .deleteClaim                         => ((), { store with claimedAt := none })
  | .context                             => ((), store)
  | .createUser email emailVerified name =>
      if choice.created then
        let user : User :=
          { id := store.nextId, email := email, emailVerified := some emailVerified, name :=
            some name }
        (some user, store.insert user)
      else (none, store)
  | .hash password                       => (crypto.scrypt choice.salt password, store)
  | .linkAccount account                 =>
      ((), { store with accounts := store.accounts ++ [account] })
  | .findOne email iamId                 => (store.users.find? (selects email iamId), store)
  | .findOneAndUpdate email iamId update => store.upsertUser email iamId update
  | .appoint id                          => ((), store.appoint id)
  | .bcrypt password                     => (crypto.bcrypt choice.salt password, store)
  | .updatePassword email iamId password =>
      ((), { store with
        users := updateFirst (selects email iamId) (fun user =>
          { user with password := some password }) store.users })

/-- The clock does not fail. -/
def exec (crypto : Crypto) (store : Store) (choice : Choice) : (q : Question) →
    Option (Answer q × Store)
  | .now => some (.ok store.now, store)
  | q    =>
      let (value, store') := perform crypto store choice q
      some (choice.outcome.decide store (.ok value, store'))

/-- It fails without or with its effect, or it is done. -/
theorem exec_cases {crypto : Crypto} {s s' : Store} {choice : Choice} {q : Question} {a : Answer q}
    (h : exec crypto s choice q = some (a, s')) :
    (s' = s ∧ ∃ e, a = .error e) ∨
      (s' = (perform crypto s choice q).2 ∧
        ((∃ e, a = .error e) ∨ a = .ok (perform crypto s choice q).1)) := by
  have hcases : ∀ (v : Value q) (t : Store), choice.outcome.decide s (.ok v, t) = (a, s') →
      (s' = s ∧ ∃ e, a = .error e) ∨ (s' = t ∧ ((∃ e, a = .error e) ∨ a = .ok v)) := by
    intro v t hdecide
    cases houtcome : choice.outcome with
    | done =>
        rw [houtcome] at hdecide
        obtain ⟨rfl, rfl⟩ := Prod.mk.inj hdecide
        exact Or.inr ⟨rfl, Or.inr rfl⟩
    | fails e =>
        rw [houtcome] at hdecide
        obtain ⟨rfl, rfl⟩ := Prod.mk.inj hdecide
        exact Or.inl ⟨rfl, e, rfl⟩
    | lost e =>
        rw [houtcome] at hdecide
        obtain ⟨rfl, rfl⟩ := Prod.mk.inj hdecide
        exact Or.inr ⟨rfl, Or.inl ⟨e, rfl⟩⟩
  rw [exec.eq_def] at h
  split at h
  · obtain ⟨rfl, rfl⟩ := Prod.mk.inj (Option.some.inj h)
    exact Or.inr ⟨rfl, Or.inr rfl⟩
  · exact hcases _ _ (Option.some.inj h)

/-! ## The service -/

abbrev Setup (α : Type) := Dialogue Question Answer α

def await (q : Question) : Setup (Value q) := query q >>= orThrow

/-- `isEnabled()`, and whether `getInstance()` has one. -/
structure BetterAuthService where
  isEnabled   : Bool
  hasInstance : Bool

def claimInitialAdminSetup : Setup Bool :=
  (do
    let now ← await .now
    await (.deleteStaleClaim (now - staleAfterMs))
    let claimedAt ← await .now
    let previous ← await (.upsertClaim claimedAt)
    return previous.isNone : Setup Bool).rescue fun error =>
      if isDuplicateKey error then return false else failed error

def releaseInitialAdminSetupClaim : Setup Unit := (await .deleteClaim).rescue fun _ => return ()

section Mapper

variable (crypto : Crypto)

def normalizePasswordForIam (password : String) : String :=
  if Password.looksDigested password then password else crypto.sha256 password

/-- `text.split(separator)[0]` -/
def firstPart (separator : Char) (text : String) : String :=
  String.ofList (text.toList.takeWhile (· ≠ separator))

/-- `name.split(' ').slice(1).join(' ')`, for a name with a blank. -/
def lastName (name : String) : Option String :=
  if ' ' ∈ name.toList then some (String.ofList ((name.toList.dropWhile (· ≠ ' ')).drop 1))
    else none

/-- `updateData`, and the defaults of a new user. -/
def updateQuery (sessionUser : SessionUser) (existingUser : Option User) : UserUpdate :=
  let name := sessionUser.name.filter JsText.truthy
  { email     := sessionUser.email
    firstName := name.map (firstPart ' ')
    lastName  := name.bind lastName
    verified  := sessionUser.emailVerified
    iamId     := sessionUser.id
    onInsert  := if existingUser.isNone then some [] else none }

/-- An error is logged. -/
def linkOrCreateUser (sessionUser : SessionUser) : Setup (Option User) :=
  if !JsText.truthy sessionUser.email then return none
  else
    (do
      let existingUser ← await (.findOne sessionUser.email sessionUser.id)
      await (.findOneAndUpdate sessionUser.email sessionUser.id
        (updateQuery sessionUser existingUser)) :
        Setup (Option User)).rescue fun _ => return none

/-- Here as well. -/
def syncPasswordToLegacy (iamUserId : Nat) (userEmail plainPassword : String) : Setup Unit :=
  if !JsText.truthy plainPassword then return ()
  else
    (do
      let bcryptHash ← await (.bcrypt (normalizePasswordForIam crypto plainPassword))
      await (.updatePassword userEmail iamUserId bcryptHash) : Setup Unit).rescue fun _ => return ()

end Mapper

variable (crypto : Crypto) (service : BetterAuthService)

/-- `input.name || input.email.split('@')[0]` -/
def displayName (input : SystemSetupInitInput) : String :=
  (input.name.filter JsText.truthy).getD (firstPart '@' input.email)

def addCredentials (input : SystemSetupInitInput) (iamUser : User) : Setup User := do
  let hashedPassword ← await (.hash (normalizePasswordForIam crypto input.password))
  await (.linkAccount
    { accountId := iamUser.id, password := hashedPassword, providerId := "credential", userId :=
      iamUser.id })
  return iamUser

/-- The user of Better-Auth, with a credential account. -/
def createIamUser (input : SystemSetupInitInput) : Setup User := do
  await .context
  match ← await (.createUser input.email true (displayName input)) with
  | none         => failed "Failed to create IAM user"
  | some iamUser => addCredentials crypto input iamUser

/-- The same user for this server, as an admin. -/
def appointAdmin (input : SystemSetupInitInput) (iamUser : User) : Setup SystemSetupInitResult := do
  match ← linkOrCreateUser iamUser.toSessionUser with
  | none            => failed "Failed to sync user to nest-server collection"
  | some syncedUser => do
      await (.appoint syncedUser.id)
      syncPasswordToLegacy crypto iamUser.id input.email input.password
      return { email := input.email, message :=
        "Initial admin user created successfully", success := true }

/-- What follows the claim. -/
def create (input : SystemSetupInitInput) : Setup SystemSetupInitResult := do
  let iamUser ← createIamUser crypto input
  appointAdmin crypto input iamUser

/-- The handler of all errors after the claim. -/
def giveUp (error : String) : Setup SystemSetupInitResult := do
  releaseInitialAdminSetupClaim
  if isDuplicateKey error then failed notAvailable
  else if isForbidden error then failed error
  else failed notAvailable

def createInitialAdmin (input : SystemSetupInitInput) : Setup SystemSetupInitResult := do
  let userCount ← await .countDocuments
  if userCount > 0 then failed notAvailable
  else if !service.isEnabled then failed betterAuthRequired
  else if !service.hasInstance then failed betterAuthRequired
  else if !(← claimInitialAdminSetup) then failed notAvailable
  else (create crypto input).rescue giveUp

/-! ## Calls -/

/-- A call, with the time of its start. -/
structure Request where
  startedAt : Int
  input     : SystemSetupInitInput

/-- From outside only time passes. -/
def system : Interleaving.System Store Request Nat Choice Question Answer SystemSetupInitResult
    where
  program r       := createInitialAdmin crypto service r.input
  exec            := exec crypto
  outside store d := some { store with now := store.now + d }

abbrev State := Interleaving.State Store Request Question Answer SystemSetupInitResult

abbrev Thread := Interleaving.Thread Request Question Answer SystemSetupInitResult

abbrev Event := Interleaving.Event Request Nat Choice

/-! ## A server -/

def plainCrypto : Crypto where
  sha256   := id
  scrypt _ := id
  bcrypt _ := id

def running : BetterAuthService := { isEnabled := true, hasInstance := true }

end SystemSetup
