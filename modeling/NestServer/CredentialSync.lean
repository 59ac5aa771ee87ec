import NestServer.PasswordPlugin

/-! # One password in two systems

    `core-user.service.ts` (`update`, `resetPassword`) and the password part of
    `core-better-auth-user.mapper.ts`: the legacy hash is in the user document, the
    hash of the Better-Auth (IAM) credential account in another collection, and a
    change of the first is copied to the second.

    Both systems read one collection of users. -/

namespace CredentialSync

open Password (looksDigested)

/-- A salted hash that accepts exactly the text it was made from. -/
structure Hashing (Salt Hash : Type) where
  hash    : Salt → String → Hash
  verify  : String → Hash → Bool
  accepts : ∀ salt p q, verify q (hash salt p) = true ↔ q = p

/-- SHA-256 as 64 hexadecimal digits; a text that looks like a digest and one that
    does not have different digests. -/
structure Digest where
  sha256   : String → String
  digested : ∀ p, looksDigested (sha256 p) = true
  apart    : ∀ p q, looksDigested p = true → looksDigested q = false → sha256 p ≠ sha256 q

structure Config (Salt Hash : Type) where
  /-- `sha256` -/
  sha256Enabled        : Bool
  digest               : Digest
  bcrypt               : Hashing Salt Hash
  scrypt               : Hashing Salt Hash
  /-- `options.betterAuthUserMapper` -/
  betterAuthUserMapper : Bool
  connection           : Bool
  /-- the e-mails of the other users that a lookup meets first -/
  earlier              : List String

/-- A document of `users`; `password` is the bcrypt hash, if there is one. -/
structure User (Hash : Type) where
  id       : String
  email    : String
  password : Option Hash

/-- The credential account of `account`. -/
structure Account (Hash : Type) where
  userId   : String
  password : Hash

structure Stores (Hash : Type) where
  user    : User Hash
  account : Account Hash

variable {Salt Hash : Type} (cfg : Config Salt Hash)

/-! ## The mapper -/

def normalizePasswordForIam (password : String) : String :=
  if looksDigested password then password else cfg.digest.sha256 password

def hashPasswordForBetterAuth (salt : Salt) (password : String) : Hash :=
  cfg.scrypt.hash salt (normalizePasswordForIam cfg password)

/-- `users.findOne({ email })`, as far as it finds this user: one that is met
    first has an account of its own. -/
def findUser (s : Stores Hash) (email : String) : Option (User Hash) :=
  if s.user.email = email ∧ ¬ cfg.earlier.contains email then some s.user else none

/-- `fails` says that a database operation throws, which is caught. -/
def syncPasswordChangeToIam (s : Stores Hash) (userEmail plainPassword : String) (salt : Salt)
    (fails : Bool) : Stores Hash × Bool :=
  if !cfg.connection || !JsText.truthy plainPassword || fails then (s, false)
  else
    match findUser cfg s userEmail with
    | none => (s, false)
    | some user =>
        if s.account.userId = user.id then
          ({ s with account := { s.account with
              password := hashPasswordForBetterAuth cfg salt plainPassword } }, true)
        else (s, false)

/-! ## The user service -/

/-- `mongoose: { lowercase: true, trim: true }` -/
def storedEmail (email : String) : String := JsText.toLowerCase (JsText.trim email)

/-- `prepareInput`; a bcrypt hash passes the password plugin as it is. -/
def hashInput (salt : Salt) (password : String) : Hash :=
  cfg.bcrypt.hash salt
    (if cfg.sha256Enabled && !looksDigested password then cfg.digest.sha256 password else password)

/-- The fields of an input that matter here; a missing field is `none`. -/
structure UserInput where
  email    : Option String := none
  password : Option String := none
deriving DecidableEq, Repr

/-- `super.update`: an empty password is stored as it is and is no hash. -/
def crudUpdate (user : User Hash) (input : UserInput) (salt : Salt) : User Hash :=
  { user with
    email    := (input.email.map storedEmail).getD user.email
    password := match input.password with
      | some password => if JsText.truthy password then some (hashInput cfg salt password) else none
      | none          => user.password }

/-- `plainPasswordForIamSync` -/
def plainForSync (password : String) : Option String :=
  if looksDigested password then none else some password

/-- What a call reads besides its input: two salts, and whether a database
    operation of the synchronisation throws. -/
structure Chance (Salt : Type) where
  bcryptSalt : Salt
  scryptSalt : Salt
  syncFails  : Bool := false

/-- The e-mail part of the synchronisation ends sessions and leaves both hashes. -/
def update (s : Stores Hash) (input : UserInput) (chance : Chance Salt) : Stores Hash :=
  let oldUser := s.user
  let s := { s with user := crudUpdate cfg oldUser input chance.bcryptSalt }
  match input.password.bind plainForSync with
  | none => s
  | some plainPassword =>
      if cfg.betterAuthUserMapper && JsText.truthy plainPassword && JsText.truthy oldUser.email then
        (syncPasswordChangeToIam cfg s oldUser.email plainPassword chance.scryptSalt
          chance.syncFails).1
      else s

/-- With a token of the user. -/
def resetPassword (s : Stores Hash) (newPassword : String) (chance : Chance Salt) : Stores Hash :=
  let dbObject := { s.user with password := some (hashInput cfg chance.bcryptSalt newPassword) }
  let s := { s with user := dbObject }
  match plainForSync newPassword with
  | none => s
  | some plainPassword =>
      if cfg.betterAuthUserMapper && JsText.truthy plainPassword &&
        JsText.truthy dbObject.email then
        (syncPasswordChangeToIam cfg s dbObject.email plainPassword chance.scryptSalt
          chance.syncFails).1
      else s

/-! ## Signing in -/

/-- The password check of the legacy `signIn`. -/
def legacyAccepts (s : Stores Hash) (password : String) : Bool :=
  match s.user.password with
  | some hash => cfg.bcrypt.verify password hash ||
      cfg.bcrypt.verify (cfg.digest.sha256 password) hash
  | none      => false

/-- Better-Auth gets the password in its normal form. -/
def iamAccepts (s : Stores Hash) (password : String) : Bool :=
  cfg.scrypt.verify (normalizePasswordForIam cfg password) s.account.password

/-- The e-mail under which the account is filed: that of the user it belongs to. -/
def iamEmail (s : Stores Hash) : Option String :=
  if s.account.userId = s.user.id then some s.user.email else none

end CredentialSync
