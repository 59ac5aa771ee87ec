import NestServer.RateLimit.Keyspace
import NestServer.RateLimit.Saturation

/-! # Two stores, one count

    The same hits in Redis and in one process.  What has expired is there in one store and
    gone in the other, so the two are related on the counters that live. -/

namespace RateLimit

open InMemoryRateLimitStore (countedAs hit_own hit_obtained)

/-- The two stores after the same hits. -/
structure Both where
  redis  : RedisState
  memory : State

inductive BothEvent where
  | hit (key : String) (now sweep : ℚ)
  | removeExpired (now : ℚ)
deriving DecidableEq

namespace RedisRateLimitStore

variable (store : RedisRateLimitStore) (windowSeconds : Int)

def bothStep (s : Both) : BothEvent → Option Both
  | .hit key now sweep =>
      (store.step windowSeconds s.redis { key := key, now := now }).bind fun redis =>
        (RateLimit.step s.memory (.hit key windowSeconds now sweep)).map fun memory =>
          { redis := redis, memory := memory }
  | .removeExpired now =>
      (RateLimit.step s.memory (.removeExpired now)).map fun memory => { s with memory := memory }

def bothStart (maxEntries : Nat) (clock : ℚ) : Both :=
  { redis := { clock := clock }, memory := start maxEntries clock }

/-- Neither store folds the hit into a shared counter. -/
def Unsaturated (s : Both) : BothEvent → Prop
  | .hit key now sweep => (store.hit s.redis.db key windowSeconds now).1.overflow = false ∧
      s.memory.store.countedAs key now sweep ≠ .overflow
  | .removeExpired _   => True

instance (s : Both) : (e : BothEvent) → Decidable (Unsaturated store windowSeconds s e)
  | .hit key now sweep =>
      inferInstanceAs (Decidable ((store.hit s.redis.db key windowSeconds now).1.overflow = false ∧
        s.memory.store.countedAs key now sweep ≠ .overflow))
  | .removeExpired _   => isTrue trivial

def SameCount (s : Both) : BothEvent → Prop
  | .hit key now sweep => (store.hit s.redis.db key windowSeconds now).1.count =
      (s.memory.store.hit key windowSeconds now sweep).1.count
  | .removeExpired _   => True

/-- **The relation.** A counter that lives is in both, and it is the same. -/
structure Agree (s : Both) : Prop where
  windows  : store.Windows windowSeconds s.redis.clock s.redis.db
  clock    : s.redis.clock ≤ s.memory.clock
  counters : ∀ key n time, plain key = true → s.memory.clock < time →
    (s.memory.store.store.get? key = some { count := n, resetTime := time } ↔
      s.redis.db.get? (store.redisKey key) = some { count := n, expires := some time })

end RedisRateLimitStore

namespace RedisRateLimitStore

variable {store : RedisRateLimitStore} {windowSeconds : Int} {s t : Both}

/-- In the relation a live counter of Redis is the one of the process. -/
theorem Agree.find (h : Agree store windowSeconds s) {key : String} {now : ℚ}
    (hkey : plain key = true)
    (hclock : s.memory.clock ≤ now) {value : RedisValue}
    (hfind : Redis.find s.redis.db now (store.redisKey key) = some value) :
    ∃ time, value.expires = some time ∧ now < time ∧
      s.memory.store.store.get? key = some { count := value.count, resetTime := time } := by
  obtain ⟨hget, hlive⟩ := Redis.find_eq_some.mp hfind
  obtain ⟨n, expires⟩ := value
  obtain ⟨time, rfl⟩ := Option.isSome_iff_exists.mp (h.windows.timed _ _ hget).2
  have hlater : now < time := of_decide_eq_true hlive
  exact ⟨time, rfl, hlater, (h.counters key n time hkey (lt_of_le_of_lt hclock hlater)).mpr hget⟩

/-- What the process counts in a counter that lives, Redis does too. -/
theorem Agree.hit_live (h : Agree store windowSeconds s) {key : String} {now : ℚ}
    (hkey : plain key = true)
    (hclock : s.memory.clock ≤ now) {entry : Counter}
      (hget : s.memory.store.store.get? key = some entry)
    (hlive : now < entry.resetTime) :
    Redis.find s.redis.db now (store.redisKey key) =
      some { count := entry.count, expires := some entry.resetTime } := by
  refine Redis.find_eq_some.mpr ⟨?_, decide_eq_true hlive⟩
  exact (h.counters key _ _ hkey (lt_of_le_of_lt hclock hlive)).mp hget

/-- What is new for the process is new in Redis. -/
theorem Agree.hit_new (h : Agree store windowSeconds s) {key : String} {now sweep : ℚ}
    (hkey : plain key = true) (hclock : s.memory.clock ≤ now)
    (hcounted : s.memory.store.countedAs key now sweep = .obtained) :
    Redis.find s.redis.db now (store.redisKey key) = none := by
  cases hfind : Redis.find s.redis.db now (store.redisKey key) with
  | none => rfl
  | some value =>
      obtain ⟨time, _, hlater, hget⟩ := h.find hkey hclock hfind
      rw [countedAs, hget] at hcounted
      dsimp only at hcounted
      rw [if_neg (not_le.mpr hlater)] at hcounted
      cases hcounted

/-- A counter that is new in Redis. -/
theorem hit_new_eq {db : RedisDb} (hdb : Redis.Timed db) {key : String} {now : ℚ}
    (hkey : plain key = true)
    (hfind : Redis.find db now (store.redisKey key) = none)
    (hoverflow : (store.hit db key windowSeconds now).1.overflow = false) :
    (store.hit db key windowSeconds now).1.count = 1 ∧
      (store.hit db key windowSeconds now).2 = (store.seeing db key windowSeconds now).set
        (store.redisKey key) { count := 1, expires := some (now + window windowSeconds) } := by
  obtain ⟨hcount, hfolds, hafter⟩ := store.hit_eq windowSeconds now hdb hkey
  have htarget : store.target db key windowSeconds now = store.redisKey key := by
    rw [target, ← hfolds, hoverflow]
    rfl
  have hvalue : store.hitValue windowSeconds now db key =
      { count := 1, expires := some (now + window windowSeconds) } := by
    rw [hitValue, htarget, Redis.counted, hfind]
    rfl
  rw [hcount, hafter, htarget, hvalue]
  exact ⟨rfl, rfl⟩

theorem bothStep_hit {key : String} {now sweep : ℚ}
    (h : store.bothStep windowSeconds s (.hit key now sweep) = some t) :
    store.step windowSeconds s.redis { key := key, now := now } = some t.redis ∧
      RateLimit.step s.memory (.hit key windowSeconds now sweep) = some t.memory := by
  rw [bothStep, Option.bind_eq_some_iff] at h
  obtain ⟨redis, hredis, hmap⟩ := h
  obtain ⟨memory, hmemory, rfl⟩ := Option.map_eq_some_iff.mp hmap
  exact ⟨hredis, hmemory⟩

/-- Without saturation both count the same. -/
theorem Agree.sameCount (h : Agree store windowSeconds s) {e : BothEvent}
    (hmeets : Unsaturated store windowSeconds s e) (hstep : store.bothStep windowSeconds s e =
      some t) :
    SameCount store windowSeconds s e := by
  cases e with
  | removeExpired now => trivial
  | hit key now sweep =>
      obtain ⟨hredis, hmemory⟩ := bothStep_hit hstep
      obtain ⟨_, hkey, _⟩ := step_eq_some hredis
      obtain ⟨hclock, _, _⟩ := step_hit hmemory
      rw [SameCount]
      cases hcounted : s.memory.store.countedAs key now sweep with
      | overflow => exact absurd hcounted hmeets.2
      | own =>
          obtain ⟨entry, hget, hlive, heq⟩ := hit_own windowSeconds hcounted
          rw [heq, (hit_live_eq windowSeconds h.windows.timed hkey
            (h.hit_live hkey hclock hget hlive)).2.1]
          rfl
      | obtained =>
          obtain ⟨left, _, heq, _⟩ := hit_obtained windowSeconds hcounted
          rw [heq, (hit_new_eq h.windows.timed hkey (h.hit_new hkey hclock hcounted) hmeets.1).1]
          rfl

/-- What is removed does not live. -/
theorem get?_removeExpired {memory : InMemoryRateLimitStore} {key : String} {n : Nat} {time now : ℚ}
    (hlater : now < time) : (memory.removeExpired now).2.store.get? key =
      some { count := n, resetTime := time } ↔
      memory.store.get? key = some { count := n, resetTime := time } :=
  ⟨OrderedMap.get?_of_filterValues, fun hget => get_removeExpired hget hlater⟩

theorem Agree.hit (h : Agree store windowSeconds s) {key : String} {now sweep : ℚ}
    (hmeets : Unsaturated store windowSeconds s (.hit key now sweep))
    (hstep : store.bothStep windowSeconds s (.hit key now sweep) = some t) :
    Agree store windowSeconds t := by
  obtain ⟨hredis, hmemory⟩ := bothStep_hit hstep
  have hwindows := windows_step h.windows hredis
  obtain ⟨_, hkey, hredis'⟩ := step_eq_some hredis
  obtain ⟨hclock, hsweep, hmemory'⟩ := step_hit hmemory
  refine ⟨hwindows, by rw [hredis', hmemory']; exact hsweep, ?_⟩
  intro other n time hother hlater
  rw [hmemory'] at hlater ⊢
  rw [hredis']
  dsimp only at hlater ⊢
  have hold := h.counters other n time hother (lt_of_le_of_lt (hclock.trans hsweep) hlater)
  by_cases hsame : other = key
  · subst hsame
    cases hcounted : s.memory.store.countedAs other now sweep with
    | overflow => exact absurd hcounted hmeets.2
    | own =>
        obtain ⟨entry, hget, hlive, heq⟩ := hit_own windowSeconds hcounted
        have hfind := h.hit_live hkey hclock hget hlive
        rw [heq, (hit_live_eq windowSeconds h.windows.timed hkey hfind).1, OrderedMap.get?_set_self,
          OrderedMap.get?_set_self, Counter.increment]
        constructor
        · rintro ⟨⟩
          rfl
        · rintro ⟨⟩
          rfl
    | obtained =>
        obtain ⟨left, _, heq, _⟩ := hit_obtained windowSeconds hcounted
        rw [heq, (hit_new_eq h.windows.timed hkey (h.hit_new hkey hclock hcounted) hmeets.1).2,
          OrderedMap.get?_set_self]
        show (left.store.set other (.start windowSeconds now)).get? other = _ ↔ _
        rw [OrderedMap.get?_set_self, Counter.start]
        constructor
        · rintro ⟨⟩
          rfl
        · rintro ⟨⟩
          rfl
  · -- what lives of another key stays in both
    rw [get?_hit_of_ne h.windows.timed hkey hother hsame, ← hold]
    cases hcounted : s.memory.store.countedAs key now sweep with
    | overflow => exact absurd hcounted hmeets.2
    | own =>
        obtain ⟨entry, _, _, heq⟩ := hit_own windowSeconds hcounted
        rw [heq]
        exact Eq.congr_left (OrderedMap.get?_set_of_ne _ _ hsame)
    | obtained =>
        obtain ⟨left, hleft, heq, _⟩ := hit_obtained windowSeconds hcounted
        rw [heq]
        show (left.store.set key _).get? other = _ ↔ _
        rw [OrderedMap.get?_set_of_ne _ _ hsame]
        rcases hleft with rfl | rfl
        · rfl
        · exact get?_removeExpired hlater

theorem Agree.step (h : Agree store windowSeconds s) {e : BothEvent}
    (hmeets : Unsaturated store windowSeconds s e) (hstep : store.bothStep windowSeconds s e =
      some t) :
    Agree store windowSeconds t := by
  cases e with
  | hit key now sweep => exact h.hit hmeets hstep
  | removeExpired now =>
      rw [bothStep] at hstep
      obtain ⟨memory, hmemory, rfl⟩ := Option.map_eq_some_iff.mp hstep
      rw [RateLimit.step] at hmemory
      split at hmemory
      · rename_i hclock
        cases hmemory
        refine ⟨h.windows, h.clock.trans hclock, ?_⟩
        intro key n time hkey hlater
        rw [← h.counters key n time hkey (lt_of_le_of_lt hclock hlater)]
        exact get?_removeExpired hlater
      · cases hmemory

theorem agree_start (maxEntries : Nat) (clock : ℚ) :
    Agree store windowSeconds (bothStart maxEntries clock) := by
  refine ⟨windows_empty clock, le_refl clock, ?_⟩
  intro key n time _ _
  constructor
  · rintro ⟨⟩
  · rintro ⟨⟩

/-- **Redis and one process.** What a store in Redis keeps, for every sequence of hits, and
    the counts that it shares with the store of a process while neither saturates. -/
theorem redis_store (store : RedisRateLimitStore) (windowSeconds : Int) :
    (∀ clock events s, Runs.run (store.step windowSeconds) { clock := clock } events = some s →
      Keeps store windowSeconds s) ∧
    ∀ maxEntries clock events s,
      Runs.run (store.bothStep windowSeconds) (bothStart maxEntries clock) events = some s →
      Runs.Meets (store.bothStep windowSeconds) (Unsaturated store windowSeconds)
        (bothStart maxEntries clock) events →
      Runs.Meets (store.bothStep windowSeconds) (SameCount store windowSeconds)
        (bothStart maxEntries clock) events := by
  constructor
  · intro clock events s hrun
    exact (windows_run (windows_empty clock) hrun).keeps
  · intro maxEntries clock events s hrun hmeets
    exact Runs.meets_of_run (store.bothStep windowSeconds) (fun _ _ _ hs hc hstep =>
      hs.step hc hstep)
      (fun _ _ _ hs hc hstep => hs.sameCount hc hstep) events _ s (agree_start maxEntries clock)
        hmeets hrun

/-- A store for one key, and another key that is folded. -/
def smallStore : RedisRateLimitStore :=
  { keyPrefix := "lt", storeNamespace := "auth", maxKeys := 1 }

def smallHits : List RedisHit := [{ key := "a", now := 0 }, { key := "b", now := 1000 }]

def smallBoth : List BothEvent :=
  [.hit "a" 0 0, .hit "a" 1000 1000, .removeExpired 60000, .hit "b" 60000 60000]

theorem redis_store_small :
    (∃ s, Runs.run (smallStore.step 60) { clock := 0 } smallHits = some s ∧ Keeps smallStore 60 s) ∧
    Runs.Meets (smallStore.bothStep 60) (SameCount smallStore 60) (bothStart 1 0) smallBoth := by
  have hrun : Runs.run (smallStore.step 60) { clock := 0 } smallHits = some _ := rfl
  have hboth : Runs.run (smallStore.bothStep 60) (bothStart 1 0) smallBoth = some _ := rfl
  have hmeets : Runs.Meets (smallStore.bothStep 60) (Unsaturated smallStore 60) (bothStart 1 0)
      smallBoth := by
    decide +kernel
  exact ⟨⟨_, hrun, (redis_store smallStore 60).1 _ _ _ hrun⟩,
    (redis_store smallStore 60).2 _ _ _ _ hboth hmeets⟩

end RedisRateLimitStore

end RateLimit
