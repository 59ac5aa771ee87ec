import NestServer.RateLimit.InMemory

/-! # Rate limit counters in Redis

    `RedisRateLimitStore` of `rate-limit-store.ts`: the hit script as one step over keys
    that live until their time is over. -/

namespace RateLimit

/-! ## Keys with a time to live -/

/-- A counter, and the time it is gone at. -/
structure RedisValue where
  count   : Nat
  expires : Option ℚ := none
deriving DecidableEq

abbrev RedisDb := OrderedMap String RedisValue

def RedisValue.live (now : ℚ) (value : RedisValue) : Bool := value.expires.all fun time =>
    now < time

namespace Redis

variable (db : RedisDb) (now : ℚ)

/-- What is at a key, unless it is gone. -/
def find (key : String) : Option RedisValue := (db.get? key).filter (RedisValue.live now)

/-- `INCR`: the new value. -/
def incr (key : String) : Nat × RedisDb :=
  match find db now key with
  | none       => (1, db.set key { count := 1 })
  | some value => (value.count + 1, db.set key { value with count := value.count + 1 })

/-- `EXPIRE`, in seconds. -/
def expire (key : String) (seconds : Int) : RedisDb :=
  match find db now key with
  | none       => db
  | some value => db.set key { value with expires := some (now + seconds * 1000) }

/-- `TTL`, in seconds. -/
def ttl (key : String) : Int :=
  match find db now key with
  | none       => -2
  | some value =>
      match value.expires with
      | none      => -1
      | some time => Rat.floor ((time - now + 500) / 1000)

end Redis

/-! ## The script -/

/-- What the script returns. -/
structure ScriptResult where
  count    : Nat
  ttl      : Int
  overflow : Bool
deriving DecidableEq

/-- An expiry for a key that has none. -/
def ensureExpiry (db : RedisDb) (now : ℚ) (window : Int) (target : String) : Int × RedisDb :=
  let ttl := Redis.ttl db now target
  if ttl < 0 then (window, Redis.expire db now target window) else (ttl, db)

/-- `INCR` with the window for the first one. -/
def incrWindow (db : RedisDb) (now : ℚ) (window : Int) (key : String) : Nat × RedisDb :=
  let (c, db) := Redis.incr db now key
  (c, if c = 1 then Redis.expire db now key window else db)

def countHit (db : RedisDb) (now : ℚ) (window : Int) (target : String) (overflow : Bool) :
    ScriptResult × RedisDb :=
  let (c, db) := incrWindow db now window target
  let (ttl, db) := ensureExpiry db now window target
  ({ count := c, ttl := ttl, overflow := overflow }, db)

/-- `HIT_SCRIPT` -/
def hitScript (db : RedisDb) (now : ℚ) (ownKey cardinality overflowKey : String) (window : Int)
    (maxKeys : Nat) : ScriptResult × RedisDb :=
  if (Redis.find db now ownKey).isNone then
    let (seen, db) := incrWindow db now window cardinality
    if maxKeys < seen then countHit db now window overflowKey true
    else countHit db now window ownKey false
  else countHit db now window ownKey false

/-! ## The store -/

structure RedisRateLimitStore where
  keyPrefix      : String
  storeNamespace : String
  maxKeys        : Nat := 10000

namespace RedisRateLimitStore

variable (store : RedisRateLimitStore)

/-- `redisService.key(...parts)` -/
def key (parts : List String) : String := ":".intercalate (store.keyPrefix :: parts)

def redisKey (key : String) : String := store.key ["rate-limit", store.storeNamespace, key]

def cardinalityKey : String := store.key
    ["rate-limit", store.storeNamespace, "#meta", "cardinality"]

def overflowKey (key : String) : String :=
  store.key ["rate-limit", store.storeNamespace, "#overflow", toString (overflowSlot key)]

/-- One hit of any replica. -/
def hit (db : RedisDb) (key : String) (windowSeconds : Int) (now : ℚ) : ScriptResult × RedisDb :=
  hitScript db now (store.redisKey key) store.cardinalityKey (store.overflowKey key) windowSeconds
    store.maxKeys

end RedisRateLimitStore

end RateLimit
