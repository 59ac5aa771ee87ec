import Mathlib.Data.Rat.Defs
import NestServer.OrderedMap
import NestServer.RoleEnum
import NestServer.Runs

/-! # Rate limit counters of one process

    `InMemoryRateLimitStore` of `rate-limit-store.ts`.  Times are in milliseconds,
    windows in seconds; every reading of the clock is given from outside. -/

namespace RateLimit

structure RateLimitStoreHit where
  count   : Nat
  resetIn : ℚ
deriving DecidableEq

/-- A counter with the end of its window. -/
structure Counter where
  count     : Nat
  resetTime : ℚ
deriving DecidableEq

def OVERFLOW_BUCKETS : Nat := 64

/-- `s.charCodeAt(i)` for all `i` -/
def charCodes (s : String) : List Nat :=
  s.toList.flatMap fun c =>
    let n := c.toNat
    if n ≤ 0xFFFF then [n] else [0xD800 + (n - 0x10000) / 0x400, 0xDC00 + (n - 0x10000) % 0x400]

/-- `n | 0` -/
def toInt32 (n : Int) : Int := n.bmod 4294967296

def overflowSlot (key : String) : Nat :=
  ((charCodes key).foldl (fun hash code => toInt32 (hash * 31 + code)) 0).natAbs % OVERFLOW_BUCKETS

/-! ## The store -/

structure InMemoryRateLimitStore where
  maxEntries : Nat := 10000
  store      : OrderedMap String Counter := OrderedMap.empty
  overflow   : OrderedMap Nat Counter := OrderedMap.empty

/-- A window that starts. -/
def Counter.start (windowSeconds now : ℚ) : Counter :=
  { count := 1, resetTime := now + windowSeconds * 1000 }

def Counter.increment (entry : Counter) : Counter := { entry with count := entry.count + 1 }

/-- What a hit tells of a window that goes on. -/
def Counter.told (entry : Counter) (now : ℚ) : RateLimitStoreHit :=
  { count := entry.count, resetIn := Rat.ceil ((entry.resetTime - now) / 1000) }

namespace InMemoryRateLimitStore

variable (s : InMemoryRateLimitStore)

def size : Nat := s.store.size

/-- The number of what was removed, and what is left. -/
def removeExpired (now : ℚ) : Nat × InMemoryRateLimitStore :=
  let left := s.store.filterValues fun entry => now < entry.resetTime
  (s.store.size - left.size, { s with store := left })

/-- `atCapacity`, and the store after it. -/
def evictOldest (now : ℚ) : Bool × InMemoryRateLimitStore :=
  let (removed, left) := s.removeExpired now
  (!(0 < removed || left.size < s.maxEntries), left)

def hitOverflow (key : String) (windowSeconds now : ℚ) :
    RateLimitStoreHit × InMemoryRateLimitStore :=
  let slot := overflowSlot key
  let fresh := ({ count := 1, resetIn := windowSeconds },
    { s with overflow := s.overflow.set slot (.start windowSeconds now) })
  match s.overflow.get? slot with
  | none       => fresh
  | some entry =>
      if entry.resetTime ≤ now then fresh
      else (entry.increment.told now, { s with overflow := s.overflow.set slot entry.increment })

def create (key : String) (windowSeconds now : ℚ) : RateLimitStoreHit × InMemoryRateLimitStore :=
  ({ count := 1, resetIn := windowSeconds },
    { s with store := s.store.set key (.start windowSeconds now) })

/-- `sweep` is the clock that `removeExpired` reads, if it gets there. -/
def hit (key : String) (windowSeconds now sweep : ℚ) : RateLimitStoreHit × InMemoryRateLimitStore :=
  match s.store.get? key with
  | some entry =>
      if entry.resetTime ≤ now then s.create key windowSeconds now
      else (entry.increment.told now, { s with store := s.store.set key entry.increment })
  | none       =>
      if s.maxEntries ≤ s.size then
        let (atCapacity, evicted) := s.evictOldest sweep
        if atCapacity then evicted.hitOverflow key windowSeconds now
        else evicted.create key windowSeconds now
      else s.create key windowSeconds now

end InMemoryRateLimitStore

/-! ## Hits over time -/

inductive Event where
  | hit (key : String) (windowSeconds now sweep : ℚ)
  | removeExpired (now : ℚ)
deriving DecidableEq

/-- The store and the last reading of the clock, which does not go back. -/
structure State where
  clock : ℚ
  store : InMemoryRateLimitStore

def step (s : State) : Event → Option State
  | .hit key windowSeconds now sweep =>
      if s.clock ≤ now ∧ now ≤ sweep then
        some { clock := sweep, store := (s.store.hit key windowSeconds now sweep).2 }
      else none
  | .removeExpired now               =>
      if s.clock ≤ now then some { clock := now, store := (s.store.removeExpired now).2 } else none

def start (maxEntries : Nat) (clock : ℚ) : State :=
  { clock := clock, store := { maxEntries := maxEntries } }

/-- How often a key was hit. -/
def hitsOf (key : String) (events : List Event) : Nat :=
  events.countP fun
    | .hit key' _ _ _   => key' = key
    | .removeExpired _  => false

end RateLimit
