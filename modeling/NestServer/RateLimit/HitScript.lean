import Mathlib.Algebra.Order.Floor.Ring
import Mathlib.Data.Rat.Floor
import Mathlib.Tactic.Linarith
import NestServer.RateLimit.Redis

/-! # What the hit script does

    Its keys are apart, and where all keys will be gone it counts in one of them: in the
    counter of its key, or in the one that it folds into. -/

namespace RateLimit

/-! ## Values of the script -/

namespace Redis

variable {db : RedisDb} {now : ℚ}

/-- What a script leaves: values that have counted, and that will be gone. -/
def Timed (db : RedisDb) : Prop :=
  ∀ key value, db.get? key = some value → 0 < value.count ∧ value.expires.isSome = true

/-- A window that starts, or goes on. -/
def counted (db : RedisDb) (now : ℚ) (window : Int) (key : String) : RedisValue :=
  match find db now key with
  | none       => { count := 1, expires := some (now + window * 1000) }
  | some value => { value with count := value.count + 1 }

theorem counted_of_none {key : String} (window : Int) (h : find db now key = none) :
    counted db now window key = { count := 1, expires := some (now + window * 1000) } := by
  rw [counted, h]

theorem find_eq_some {key : String} {value : RedisValue} :
    find db now key = some value ↔ db.get? key = some value ∧ value.live now = true := by
  rw [find, Option.filter_eq_some_iff]

theorem find_set_self (key : String) (value : RedisValue) :
    find (db.set key value) now key = if value.live now then some value else none := by
  rw [find, OrderedMap.get?_set_self]
  rfl

theorem Timed.set (hdb : Timed db) (key : String) {value : RedisValue} (hpos : 0 < value.count)
    (hsome : value.expires.isSome = true) : Timed (db.set key value) := by
  intro other w hget
  by_cases hkey : other = key
  · subst hkey
    rw [OrderedMap.get?_set_self] at hget
    cases hget
    exact ⟨hpos, hsome⟩
  · rw [OrderedMap.get?_set_of_ne _ _ hkey] at hget
    exact hdb other w hget

theorem Timed.counted (hdb : Timed db) (window : Int) (key : String) :
    0 < (counted db now window key).count ∧
      (Redis.counted db now window key).expires.isSome = true := by
  rw [Redis.counted]
  cases hfind : find db now key with
  | none => exact ⟨Nat.one_pos, rfl⟩
  | some value => exact ⟨Nat.succ_pos _, (hdb key value (find_eq_some.mp hfind).1).2⟩

/-- `INCR` and `EXPIRE` in one. -/
theorem incrWindow_eq (hdb : Timed db) (window : Int) (key : String) :
    incrWindow db now window key =
      ((counted db now window key).count, db.set key (counted db now window key)) := by
  rw [incrWindow, counted, incr]
  cases hfind : find db now key with
  | none =>
      have hnew : find (db.set key { count := 1 }) now key = some { count := 1 } := by
        rw [find_set_self]
        rfl
      dsimp only
      rw [if_pos rfl, expire, hnew]
      dsimp only
      rw [OrderedMap.set_set]
  | some value =>
      have hpos := (hdb key value (find_eq_some.mp hfind).1).1
      dsimp only
      rw [if_neg (by omega)]

/-- A key that lives has some time left. -/
theorem ttl_nonneg {key : String} {value : RedisValue} (hfind : find db now key = some value)
    (hsome : value.expires.isSome = true) : 0 ≤ ttl db now key := by
  obtain ⟨time, htime⟩ := Option.isSome_iff_exists.mp hsome
  have hlive : now < time := by
    have hvalue := (find_eq_some.mp hfind).2
    rw [RedisValue.live, htime] at hvalue
    exact of_decide_eq_true hvalue
  rw [ttl, hfind]
  dsimp only
  rw [htime]
  show 0 ≤ ⌊(time - now + 500) / 1000⌋
  refine Int.floor_nonneg.mpr ?_
  exact div_nonneg (by linarith) (by norm_num)

/-- There is an expiry already, or the window was over before it began. -/
theorem ensureExpiry_eq {window : Int} {target : String} {value : RedisValue}
    (hsome : value.expires.isSome = true) :
    (ensureExpiry (db.set target value) now window target).2 = db.set target value := by
  rw [ensureExpiry]
  by_cases hlive : value.live now = true
  · have hfind : find (db.set target value) now target = some value := by
      rw [find_set_self, if_pos hlive]
    rw [if_neg (not_lt.mpr (ttl_nonneg hfind hsome))]
  · have hfind : find (db.set target value) now target = none := by
      rw [find_set_self, if_neg hlive]
    split
    · show expire _ now target window = _
      rw [expire, hfind]
    · rfl

theorem countHit_eq (hdb : Timed db) (window : Int) (target : String) (overflow : Bool) :
    (countHit db now window target overflow).1.count = (counted db now window target).count ∧
      (countHit db now window target overflow).1.overflow = overflow ∧
      (countHit db now window target overflow).2 =
        db.set target (counted db now window target) := by
  rw [countHit, incrWindow_eq hdb]
  exact ⟨rfl, rfl, ensureExpiry_eq (hdb.counted window target).2⟩

end Redis

/-! ## Keys -/

namespace RedisRateLimitStore

variable (store : RedisRateLimitStore)

/-- What all keys of a namespace start with. -/
def namespacePrefix : String :=
  store.keyPrefix ++ ":" ++ "rate-limit" ++ ":" ++ store.storeNamespace ++ ":"

theorem redisKey_eq (key : String) : store.redisKey key = store.namespacePrefix ++ key := rfl

theorem cardinalityKey_eq : store.cardinalityKey = store.namespacePrefix ++
    "#meta:cardinality" := by
  show store.namespacePrefix ++ "#meta" ++ ":" ++ "cardinality" = _
  rw [String.append_assoc, String.append_assoc]
  rfl

theorem overflowKey_eq (key : String) :
    store.overflowKey key = store.namespacePrefix ++
      ("#overflow:" ++ toString (overflowSlot key)) := by
  show store.namespacePrefix ++ "#overflow" ++ ":" ++ toString (overflowSlot key) = _
  rw [String.append_assoc, String.append_assoc]
  exact congrArg (store.namespacePrefix ++ ·) String.append_assoc.symm

theorem redisKey_inj {a b : String} (h : store.redisKey a = store.redisKey b) : a = b := by
  rw [redisKey_eq, redisKey_eq] at h
  exact (String.append_right_inj _).mp h

/-- The keys that are reserved. -/
def overflowKeys : List String :=
  (List.range OVERFLOW_BUCKETS).map fun slot =>
    store.namespacePrefix ++ ("#overflow:" ++ toString slot)

def reservedKeys : List String := store.cardinalityKey :: store.overflowKeys

theorem overflowKey_mem (key : String) : store.overflowKey key ∈ store.overflowKeys := by
  rw [overflowKey_eq]
  exact List.mem_map.mpr ⟨overflowSlot key, List.mem_range.mpr (Nat.mod_lt _ (by decide)), rfl⟩

end RedisRateLimitStore

/-- A key that no reserved one can be. -/
def plain (key : String) : Bool := key.toList.head? ≠ some '#'

namespace RedisRateLimitStore

variable (store : RedisRateLimitStore)

theorem overflowKey_ne_cardinalityKey (key : String) :
    store.overflowKey key ≠ store.cardinalityKey := by
  rw [overflowKey_eq, cardinalityKey_eq]
  intro h
  have hrest := congrArg (fun s => s.toList.take 2) ((String.append_right_inj _).mp h)
  simp only [String.toList_append] at hrest
  cases hrest

/-- Reserved keys go on with a `#`. -/
theorem exists_of_mem_reservedKeys {k : String} (h : k ∈ store.reservedKeys) :
    ∃ key, k = store.namespacePrefix ++ key ∧ plain key = false := by
  rcases List.mem_cons.mp h with rfl | hmem
  · exact ⟨_, store.cardinalityKey_eq, rfl⟩
  · obtain ⟨slot, _, rfl⟩ := List.mem_map.mp hmem
    refine ⟨_, rfl, ?_⟩
    rw [plain, String.toList_append]
    rfl

theorem redisKey_notMem_reservedKeys {key : String} (hkey : plain key = true) :
    store.redisKey key ∉ store.reservedKeys := by
  intro hmem
  obtain ⟨other, heq, hother⟩ := store.exists_of_mem_reservedKeys hmem
  rw [redisKey_eq] at heq
  rw [(String.append_right_inj _).mp heq, hother] at hkey
  cases hkey

theorem redisKey_ne_cardinalityKey {key : String} (hkey : plain key = true) :
    store.redisKey key ≠ store.cardinalityKey := by
  intro heq
  exact store.redisKey_notMem_reservedKeys hkey (heq ▸ List.mem_cons_self)

/-! ## One hit -/

variable (db : RedisDb) (key : String) (windowSeconds : Int) (now : ℚ)

/-- The keys that were seen, with this one. -/
def seen : RedisValue := Redis.counted db now windowSeconds store.cardinalityKey

/-- Whether a hit finds no counter, and no room for one. -/
def folds : Bool :=
  (Redis.find db now (store.redisKey key)).isNone &&
    store.maxKeys < (store.seen db windowSeconds now).count

def target : String :=
  if store.folds db key windowSeconds now then store.overflowKey key else store.redisKey key

/-- The counter of keys counts those that are not there. -/
def seeing : RedisDb :=
  if (Redis.find db now (store.redisKey key)).isNone then
    db.set store.cardinalityKey (store.seen db windowSeconds now)
  else db

theorem target_ne_cardinalityKey (hkey : plain key = true) :
    store.target db key windowSeconds now ≠ store.cardinalityKey := by
  rw [target]
  split
  · exact store.overflowKey_ne_cardinalityKey key
  · exact store.redisKey_ne_cardinalityKey hkey

theorem target_mem : store.target db key windowSeconds now = store.redisKey key ∨
    store.target db key windowSeconds now ∈ store.reservedKeys := by
  rw [target]
  split
  · exact Or.inr (List.mem_cons_of_mem _ (store.overflowKey_mem key))
  · exact Or.inl rfl

variable {db}

theorem timed_seeing (hdb : Redis.Timed db) : Redis.Timed
    (store.seeing db key windowSeconds now) := by
  rw [seeing]
  split
  · exact hdb.set _ (hdb.counted windowSeconds _).1 (hdb.counted windowSeconds _).2
  · exact hdb

variable {key}

theorem get?_seeing {k : String} (hk : k ≠ store.cardinalityKey) :
    (store.seeing db key windowSeconds now).get? k = db.get? k := by
  rw [seeing]
  split
  · exact OrderedMap.get?_set_of_ne _ _ hk
  · rfl

/-- The value that the target gets. -/
def hitValue (db : RedisDb) (key : String) : RedisValue :=
  Redis.counted db now windowSeconds (store.target db key windowSeconds now)

/-- **The hit script.** One counter counts, and the counter of keys if it is new. -/
theorem hit_eq (hdb : Redis.Timed db) (hkey : plain key = true) :
    (store.hit db key windowSeconds now).1.count = (store.hitValue windowSeconds now db key).count ∧
      (store.hit db key windowSeconds now).1.overflow = store.folds db key windowSeconds now ∧
      (store.hit db key windowSeconds now).2 =
        (store.seeing db key windowSeconds now).set (store.target db key windowSeconds now)
          (store.hitValue windowSeconds now db key) := by
  have hcounted : Redis.counted (store.seeing db key windowSeconds now) now windowSeconds
      (store.target db key windowSeconds now) = store.hitValue windowSeconds now db key := by
    rw [hitValue, Redis.counted, Redis.find,
      store.get?_seeing windowSeconds now
        (store.target_ne_cardinalityKey db key windowSeconds now hkey)]
    rfl
  have hscript : store.hit db key windowSeconds now =
      countHit (store.seeing db key windowSeconds now) now windowSeconds
        (store.target db key windowSeconds now) (store.folds db key windowSeconds now) := by
    rw [hit, hitScript, seeing, target, folds, seen]
    cases hfind : (Redis.find db now (store.redisKey key)).isNone with
    | false => rfl
    | true =>
        rw [if_pos rfl, if_pos rfl, Redis.incrWindow_eq hdb]
        dsimp only
        rw [Bool.true_and]
        by_cases hfull : store.maxKeys < (Redis.counted db now windowSeconds
          store.cardinalityKey).count
        · rw [if_pos hfull, decide_eq_true hfull, if_pos rfl]
        · rw [if_neg hfull, decide_eq_false hfull]
          rfl
  rw [hscript, ← hcounted]
  exact Redis.countHit_eq (store.timed_seeing key windowSeconds now hdb) windowSeconds _ _

end RedisRateLimitStore

end RateLimit
