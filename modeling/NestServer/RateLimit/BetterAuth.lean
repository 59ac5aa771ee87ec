import Mathlib.Data.List.Infix
import NestServer.RateLimit.InMemory

/-! # The limits of Better-Auth endpoints

    `core-better-auth-rate-limiter.service.ts`: which paths are limited, by how much, and
    in which counter. -/

namespace RateLimit

/-! ## Texts -/

/-- `s.includes(t)` -/
def includes (s t : List Char) : Bool := decide (t <:+: s)

/-- `s.endsWith(t)` -/
def endsWith (s t : List Char) : Bool := decide (t <:+ s)

/-- `replace(/\\/g, '\\\\')` -/
def escapeBackslash (c : Char) : List Char := if c = '\\' then ['\\', '\\'] else [c]

/-- `replace(/:/g, '\\:')` -/
def escapeColon (c : Char) : List Char := if c = ':' then ['\\', ':'] else [c]

def escapePart (part : String) : String :=
  String.ofList ((part.toList.flatMap escapeBackslash).flatMap escapeColon)

def rateLimitKey (parts : List String) : String := ":".intercalate (parts.map escapePart)

/-! ## Configuration -/

structure BetterAuthRateLimit where
  enabled         : Bool := false
  max             : Nat := 10
  maxEntries      : Nat := 10000
  message         : String := "Too many requests, please try again later."
  skipEndpoints   : List String := ["/session", "/callback"]
  strictEndpoints : List String :=
    ["/sign-in", "/sign-up", "/request-password-reset", "/forget-password", "/forgot-password",
    "/reset-password", "/change-password"]
  windowSeconds   : Nat := 60
deriving DecidableEq

def DEFAULT_CONFIG : BetterAuthRateLimit := {}

/-- `IBetterAuthRateLimit`: what is not given keeps its default. -/
structure BetterAuthRateLimitOptions where
  enabled         : Option Bool := none
  max             : Option Nat := none
  maxEntries      : Option Nat := none
  message         : Option String := none
  skipEndpoints   : Option (List String) := none
  strictEndpoints : Option (List String) := none
  windowSeconds   : Option Nat := none

def configure (config : BetterAuthRateLimitOptions) : BetterAuthRateLimit where
  enabled         := config.enabled ≠ some false
  max             := config.max.getD DEFAULT_CONFIG.max
  maxEntries      := config.maxEntries.getD DEFAULT_CONFIG.maxEntries
  message         := config.message.getD DEFAULT_CONFIG.message
  skipEndpoints   := config.skipEndpoints.getD DEFAULT_CONFIG.skipEndpoints
  strictEndpoints := config.strictEndpoints.getD DEFAULT_CONFIG.strictEndpoints
  windowSeconds   := config.windowSeconds.getD DEFAULT_CONFIG.windowSeconds

/-! ## Paths -/

/-- `path === entry || path.endsWith(entry) || path.includes(entry)` -/
def concerns (path : String) (entry : String) : Bool :=
  path = entry || endsWith path.toList entry.toList || includes path.toList entry.toList

/-- Group callbacks; otherwise the last segment, without the query. -/
def normalizeEndpoint (path : String) : String :=
  let cleanPath := path.toList.takeWhile fun c => c ≠ '?'
  if includes cleanPath "/callback/".toList then "callback"
  else
    let segments := (cleanPath.splitOn '/').filter fun s => s ≠ []
    (segments.getLast?.map String.ofList).getD "root"

def getKey (ip path : String) : String := rateLimitKey [ip, normalizeEndpoint path]

namespace BetterAuthRateLimit

variable (config : BetterAuthRateLimit)

def shouldSkip (path : String) : Bool := config.skipEndpoints.any (concerns path)

/-- `Math.ceil(this.config.max / 2)` where it is strict. -/
def getLimit (path : String) : Nat :=
  if config.strictEndpoints.any (concerns path) then (config.max + 1) / 2 else config.max

end BetterAuthRateLimit

/-! ## A check -/

/-- A store that counts exactly, within one window. -/
structure CountingStore (σ : Type) where
  hit        : σ → String → Nat → RateLimitStoreHit × σ
  counts     : σ → String → Nat
  hit_count  : ∀ s key windowSeconds, (hit s key windowSeconds).1.count = counts s key + 1
  hit_counts : ∀ s key windowSeconds other, counts (hit s key windowSeconds).2 other =
    if other = key then counts s key + 1 else counts s other

structure RateLimitResult where
  allowed   : Bool
  current   : Nat
  /-- none is `Infinity` -/
  limit     : Option Nat
  remaining : Option Nat
  resetIn   : ℚ
deriving DecidableEq

/-- What is not counted. -/
def unlimited : RateLimitResult :=
  { allowed := true, current := 0, limit := none, remaining := none, resetIn := 0 }

variable {σ : Type} (store : CountingStore σ) (config : BetterAuthRateLimit)

def check (ip path : String) (s : σ) : RateLimitResult × σ :=
  if !config.enabled then (unlimited, s)
  else if config.shouldSkip path then (unlimited, s)
  else
    let limit := config.getLimit path
    let (hit, s) := store.hit s (getKey ip path) config.windowSeconds
    ({ allowed := hit.count ≤ limit, current := hit.count, limit := some limit,
       remaining := some (limit - hit.count), resetIn := hit.resetIn }, s)

/-- Requests one after another. -/
def checks (ip : String) : σ → List String → List RateLimitResult
  | _, []            => []
  | s, path :: paths =>
      let (result, s) := check store config ip path s
      result :: checks ip s paths

end RateLimit
