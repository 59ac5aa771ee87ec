import Mathlib.Data.List.Perm.Subperm
import NestServer.RateLimit.HitScript

/-! # The keys of a namespace

    The counter of keys has a window of its own, so a window of counters overlaps at
    most two of it: the keys of each are at most `maxKeys`. -/

namespace RateLimit

/-! ## Hits over time -/

/-- What is in Redis, and its clock. -/
structure RedisState where
  clock : ℚ
  db    : RedisDb := OrderedMap.empty

/-- A hit by any replica. -/
structure RedisHit where
  key : String
  now : ℚ
deriving DecidableEq

namespace RedisRateLimitStore

variable (store : RedisRateLimitStore) (windowSeconds : Int)

def step (s : RedisState) (e : RedisHit) : Option RedisState :=
  if s.clock ≤ e.now ∧ plain e.key = true then
    some { clock := e.now, db := (store.hit s.db e.key windowSeconds e.now).2 }
  else none

/-- The length of a window, in milliseconds. -/
def window : ℚ := windowSeconds * 1000

/-- A counter of one key. -/
def own (k : String) : Bool := !store.reservedKeys.contains k

/-- The counters of keys that are gone at certain times. -/
def ownCount (p : ℚ → Bool) (db : RedisDb) : Nat :=
  db.entries.countP fun e => store.own e.1 && e.2.expires.any p

/-- **The overlap of windows.** The counters of this window of the counter of keys, and
    those of the one before, which are still there when this one starts. -/
structure Windows (clock : ℚ) (db : RedisDb) : Prop where
  timed    : Redis.Timed db
  ends     : ∀ key value time, db.get? key = some value → value.expires = some time →
    time ≤ clock + window windowSeconds
  unseen   : db.get? store.cardinalityKey = none → store.ownCount (fun _ => true) db = 0
  seen     : 0 < window windowSeconds → ∀ n time,
    db.get? store.cardinalityKey = some { count := n, expires := some time } →
    store.ownCount (fun x => time + window windowSeconds ≤ x) db = 0 ∧
    store.ownCount (fun x => time ≤ x) db ≤ min n store.maxKeys ∧
    store.ownCount (fun x => time - window windowSeconds < x ∧ x < time) db ≤ store.maxKeys

variable {store} {windowSeconds} {db : RedisDb} {p : ℚ → Bool}

theorem own_eq_false {k : String} (hk : k ∈ store.reservedKeys) : store.own k = false := by
  rw [own, List.contains_iff_mem.mpr hk]
  rfl

theorem ownCount_mono {q : ℚ → Bool} (h : ∀ x, p x = true → q x = true) :
    store.ownCount p db ≤ store.ownCount q db := by
  refine List.countP_mono_left fun e _ he => ?_
  rw [Bool.and_eq_true] at he ⊢
  refine ⟨he.1, ?_⟩
  obtain ⟨x, hx, hp⟩ := (Option.any_eq_true _ _).mp he.2
  exact (Option.any_eq_true _ _).mpr ⟨x, hx, h x hp⟩

theorem ownCount_set_reserved {k : String} (hk : k ∈ store.reservedKeys) (value : RedisValue) :
    store.ownCount p (db.set k value) = store.ownCount p db := by
  have hcount := OrderedMap.countP_set db k value fun e => store.own e.1 && e.2.expires.any p
  have hnot : ∀ w : RedisValue, (store.own k && w.expires.any p) = false := fun w => by
    rw [own_eq_false hk, Bool.false_and]
  simp only [hnot, Bool.false_eq_true, if_false] at hcount
  rw [ownCount, ownCount]
  cases hget : db.get? k with
  | none =>
      rw [hget] at hcount
      exact hcount
  | some w =>
      rw [hget] at hcount
      exact hcount

/-- Counting does not change when a counter is gone. -/
theorem ownCount_set_some {k : String} {old : RedisValue} (hget : db.get? k = some old)
    {value : RedisValue} (hends : value.expires = old.expires) :
    store.ownCount p (db.set k value) = store.ownCount p db := by
  have hcount := OrderedMap.countP_set db k value fun e => store.own e.1 && e.2.expires.any p
  rw [hget, hends] at hcount
  exact Nat.add_right_cancel hcount

theorem ownCount_set_le (k : String) (value : RedisValue) :
    store.ownCount p (db.set k value) ≤
      store.ownCount p db + if value.expires.any p = true then 1 else 0 := by
  have hcount := OrderedMap.countP_set db k value fun e => store.own e.1 && e.2.expires.any p
  have hone : (if (store.own k && value.expires.any p) = true then 1 else 0) ≤
      if value.expires.any p = true then 1 else 0 := by
    cases store.own k with
    | true => exact le_rfl
    | false => exact Nat.zero_le _
  calc store.ownCount p (db.set k value)
      ≤ _ := Nat.le_add_right _ _
    _ = _ := hcount
    _ ≤ _ := Nat.add_le_add_left hone _

/-! ## Counters after a hit -/

variable {key : String} {now : ℚ}

variable (windowSeconds) in
/-- A counter that lives goes on, with the time it has. -/
theorem hit_live_eq (hdb : Redis.Timed db) (hkey : plain key = true) {value : RedisValue}
    (hfind : Redis.find db now (store.redisKey key) = some value) :
    (store.hit db key windowSeconds now).2 =
        db.set (store.redisKey key) { value with count := value.count + 1 } ∧
      (store.hit db key windowSeconds now).1.count = value.count + 1 ∧
      (store.hit db key windowSeconds now).1.overflow = false := by
  obtain ⟨hcount, hoverflow, hafter⟩ := store.hit_eq windowSeconds now hdb hkey
  have hfolds : store.folds db key windowSeconds now = false := by
    rw [folds, hfind]
    rfl
  have htarget : store.target db key windowSeconds now = store.redisKey key := by
    rw [target, hfolds]
    rfl
  have hvalue : store.hitValue windowSeconds now db key =
      { value with count := value.count + 1 } := by
    rw [hitValue, htarget, Redis.counted, hfind]
  have hseeing : store.seeing db key windowSeconds now = db := by
    rw [seeing, hfind]
    rfl
  rw [hcount, hoverflow, hafter, hvalue, htarget, hseeing]
  exact ⟨rfl, rfl, hfolds⟩

variable (windowSeconds p) in
/-- One that is new is one more. -/
theorem ownCount_hit_new (hdb : Redis.Timed db) (hkey : plain key = true)
    (hfind : Redis.find db now (store.redisKey key) = none) :
    store.ownCount p (store.hit db key windowSeconds now).2 ≤ store.ownCount p db +
      if store.folds db key windowSeconds now = false ∧
        p (now + window windowSeconds) = true then 1 else 0 := by
  obtain ⟨_, _, hafter⟩ := store.hit_eq windowSeconds now hdb hkey
  have hseeing : store.ownCount p (store.seeing db key windowSeconds now) =
      store.ownCount p db := by
    rw [seeing, hfind]
    exact ownCount_set_reserved List.mem_cons_self _
  rw [hafter, ← hseeing, target]
  cases hfolds : store.folds db key windowSeconds now with
  | true =>
      rw [if_pos rfl, ownCount_set_reserved (List.mem_cons_of_mem _ (store.overflowKey_mem key))]
      exact Nat.le_add_right _ _
  | false =>
      have hvalue : store.hitValue windowSeconds now db key =
          { count := 1, expires := some (now + window windowSeconds) } := by
        rw [hitValue, target, hfolds]
        exact Redis.counted_of_none windowSeconds hfind
      rw [if_neg Bool.false_ne_true, hvalue]
      refine (ownCount_set_le _ _).trans (Nat.le_of_eq ?_)
      simp only [Option.any_some, true_and]

/-- The counter of keys after a hit. -/
theorem cardinality_hit (hdb : Redis.Timed db) (hkey : plain key = true) :
    (store.hit db key windowSeconds now).2.get? store.cardinalityKey =
      if (Redis.find db now (store.redisKey key)).isNone then some (store.seen db windowSeconds now)
      else db.get? store.cardinalityKey := by
  obtain ⟨_, _, hafter⟩ := store.hit_eq windowSeconds now hdb hkey
  rw [hafter, OrderedMap.get?_set_of_ne _ _
    (store.target_ne_cardinalityKey db key windowSeconds now hkey).symm, seeing]
  split
  · exact OrderedMap.get?_set_self _ _ _
  · rfl

/-- What a key has after a hit: what it had, or one more. -/
theorem get?_hit (hdb : Redis.Timed db) (hkey : plain key = true) {k : String} {value : RedisValue}
    (hget : (store.hit db key windowSeconds now).2.get? k = some value) :
    db.get? k = some value ∨ value = Redis.counted db now windowSeconds k := by
  obtain ⟨_, _, hafter⟩ := store.hit_eq windowSeconds now hdb hkey
  rw [hafter] at hget
  by_cases htarget : k = store.target db key windowSeconds now
  · subst htarget
    rw [OrderedMap.get?_set_self] at hget
    exact Or.inr (Option.some.inj hget).symm
  · rw [OrderedMap.get?_set_of_ne _ _ htarget, seeing] at hget
    split at hget
    · by_cases hcard : k = store.cardinalityKey
      · subst hcard
        rw [OrderedMap.get?_set_self] at hget
        exact Or.inr (Option.some.inj hget).symm
      · rw [OrderedMap.get?_set_of_ne _ _ hcard] at hget
        exact Or.inl hget
    · exact Or.inl hget

theorem timed_hit (hdb : Redis.Timed db) (hkey : plain key = true) :
    Redis.Timed (store.hit db key windowSeconds now).2 := by
  intro k value hget
  rcases get?_hit hdb hkey hget with hold | rfl
  · exact hdb k value hold
  · exact hdb.counted windowSeconds k

/-! ## One step -/

variable {clock : ℚ}

/-- The counters that a new window of the counter of keys starts with. -/
theorem Windows.opens (h : Windows store windowSeconds clock db) (hpos : 0 < window windowSeconds)
    (hdead : Redis.find db now store.cardinalityKey = none) :
    store.ownCount (fun x => now + window windowSeconds ≤ x) db = 0 ∧
      store.ownCount (fun x => now < x) db ≤ store.maxKeys := by
  cases hcard : db.get? store.cardinalityKey with
  | none =>
      have hnone := h.unseen hcard
      constructor
      · exact Nat.le_zero.mp (hnone ▸ ownCount_mono fun _ _ => rfl)
      · exact (Nat.le_zero.mpr (Nat.le_zero.mp (hnone ▸ ownCount_mono fun _ _ => rfl))).trans
          (Nat.zero_le _)
  | some value =>
      obtain ⟨n, expires⟩ := value
      obtain ⟨time, rfl⟩ := Option.isSome_iff_exists.mp (h.timed _ _ hcard).2
      have hover : time ≤ now := by
        rw [Redis.find, hcard] at hdead
        have hnot := Option.filter_eq_none_iff.mp hdead _ rfl
        exact not_lt.mp fun hlt => hnot (decide_eq_true hlt)
      obtain ⟨hnone, hthis, _⟩ := h.seen hpos n time hcard
      constructor
      · refine Nat.le_zero.mp (hnone ▸ ownCount_mono fun x hx => ?_)
        rw [decide_eq_true_eq] at hx ⊢
        linarith
      · refine (ownCount_mono fun x hx => ?_).trans (hthis.trans (Nat.min_le_right _ _))
        rw [decide_eq_true_eq] at hx ⊢
        linarith

theorem Windows.ends_hit (h : Windows store windowSeconds clock db) (hclock : clock ≤ now)
    (hkey : plain key = true) (k : String) (value : RedisValue) (time : ℚ)
    (hget : (store.hit db key windowSeconds now).2.get? k = some value)
      (htime : value.expires = some time) :
    time ≤ now + window windowSeconds := by
  have hold : ∀ old, db.get? k = some old → old.expires = some time →
      time ≤ now + window windowSeconds :=
    fun old hdb hexpires => (h.ends k old time hdb hexpires).trans (by linarith)
  rcases get?_hit h.timed hkey hget with hdb | rfl
  · exact hold value hdb htime
  · rw [Redis.counted] at htime
    cases hfind : Redis.find db now k with
    | none =>
        rw [hfind] at htime
        exact le_of_eq (Option.some.inj htime).symm
    | some old =>
        rw [hfind] at htime
        exact hold old (Redis.find_eq_some.mp hfind).1 htime

theorem Windows.hit (h : Windows store windowSeconds clock db) (hclock : clock ≤ now)
    (hkey : plain key = true) :
      Windows store windowSeconds now (store.hit db key windowSeconds now).2 := by
  cases hfind : Redis.find db now (store.redisKey key) with
  | some value =>
      -- a counter goes on: no time changes
      obtain ⟨hafter, _, _⟩ := hit_live_eq windowSeconds h.timed hkey hfind
      have hcount : ∀ p, store.ownCount p (store.hit db key windowSeconds now).2 =
          store.ownCount p db :=
        fun p => hafter ▸ ownCount_set_some (Redis.find_eq_some.mp hfind).1 rfl
      have hcard : (store.hit db key windowSeconds now).2.get? store.cardinalityKey =
          db.get? store.cardinalityKey := by
        rw [cardinality_hit h.timed hkey, hfind]
        rfl
      refine ⟨timed_hit h.timed hkey, ?_, ?_, ?_⟩
      · exact h.ends_hit hclock hkey
      · rw [hcard, hcount]
        exact h.unseen
      · intro hpos n time
        rw [hcard, hcount, hcount, hcount]
        exact h.seen hpos n time
  | none =>
      have hcard : (store.hit db key windowSeconds now).2.get? store.cardinalityKey =
          some (store.seen db windowSeconds now) := by
        rw [cardinality_hit h.timed hkey, hfind]
        rfl
      refine ⟨timed_hit h.timed hkey, ?_, ?_, ?_⟩
      · exact h.ends_hit hclock hkey
      · rw [hcard]
        rintro ⟨⟩
      · intro hpos n time hget
        rw [hcard] at hget
        have hnew : ∀ p, _ := fun p => ownCount_hit_new windowSeconds p h.timed hkey hfind
        have hfolds : store.folds db key windowSeconds now = decide (store.maxKeys < n) := by
          rw [folds, hfind, Option.some.inj hget]
          rfl
        rw [RedisRateLimitStore.seen, Redis.counted] at hget
        cases hcardinality : Redis.find db now store.cardinalityKey with
        | none =>
            -- a window starts: what it finds was made in the one before
            rw [hcardinality] at hget
            have hvalue := Option.some.inj hget
            obtain rfl : 1 = n := congrArg RedisValue.count hvalue
            obtain rfl : now + window windowSeconds = time :=
              Option.some.inj (congrArg RedisValue.expires hvalue)
            obtain ⟨hnone, hbefore⟩ := h.opens hpos hcardinality
            refine ⟨?_, ?_, ?_⟩
            · refine Nat.le_zero.mp ((hnew _).trans ?_)
              rw [if_neg, Nat.add_zero]
              · refine hnone ▸ ownCount_mono fun x hx => decide_eq_true ?_
                linarith [of_decide_eq_true hx]
              · rintro ⟨_, hle⟩
                linarith [of_decide_eq_true hle]
            · refine (hnew _).trans ?_
              rw [hnone, hfolds, Nat.zero_add]
              split
              · rename_i hroom
                have hle := of_decide_eq_false hroom.1
                omega
              · exact Nat.zero_le _
            · refine (hnew _).trans ?_
              rw [if_neg]
              · refine (ownCount_mono fun x hx => decide_eq_true ?_).trans hbefore
                linarith [(of_decide_eq_true hx).1]
              · rintro ⟨_, hlt⟩
                linarith [(of_decide_eq_true hlt).2]
        | some old =>
            -- a window goes on: what is new belongs to it
            rw [hcardinality] at hget
            obtain ⟨m, expires⟩ := old
            cases hget
            obtain ⟨hget, hlive⟩ := Redis.find_eq_some.mp hcardinality
            have htime : time ≤ now + window windowSeconds :=
              (h.ends _ _ time hget rfl).trans (by linarith)
            have hover : now < time := of_decide_eq_true hlive
            obtain ⟨hnone, hthis, hbefore⟩ := h.seen hpos m time hget
            refine ⟨?_, ?_, ?_⟩
            · refine Nat.le_zero.mp ((hnew _).trans ?_)
              rw [hnone, if_neg]
              rintro ⟨_, hle⟩
              linarith [of_decide_eq_true hle]
            · refine (hnew _).trans ?_
              rw [hfolds]
              show _ ≤ min (m + 1) store.maxKeys
              split
              · rename_i hroom
                have hle : ¬ store.maxKeys < m + 1 := of_decide_eq_false hroom.1
                omega
              · omega
            · refine (hnew _).trans ?_
              rw [if_neg]
              · exact hbefore
              · rintro ⟨_, hlt⟩
                linarith [(of_decide_eq_true hlt).2]

/-! ## Live keys -/

/-- How many keys there are at a time. -/
def liveKeys (now : ℚ) (db : RedisDb) : Nat := db.entries.countP fun e => e.2.live now

theorem length_reservedKeys : store.reservedKeys.length = 64 + 1 := by
  rw [reservedKeys, List.length_cons, overflowKeys, List.length_map, List.length_range]
  rfl

/-- There are no more other keys than reserved ones. -/
theorem countP_reserved_le (store : RedisRateLimitStore) (db : RedisDb) :
    db.entries.countP (fun e => !store.own e.1) ≤ 64 + 1 := by
  have hsub : ((db.entries.filter fun e => !store.own e.1).map Prod.fst) ⊆ store.reservedKeys := by
    intro k hk
    obtain ⟨e, he, rfl⟩ := List.mem_map.mp hk
    have hnot := (List.mem_filter.mp he).2
    rw [own, Bool.not_not] at hnot
    exact List.contains_iff_mem.mp hnot
  have hnodup : ((db.entries.filter fun e => !store.own e.1).map Prod.fst).Nodup :=
    (List.filter_sublist.map Prod.fst).nodup db.nodup
  have hle := (List.subperm_of_subset hnodup hsub).length_le
  rwa [List.length_map, ← List.countP_eq_length_filter, length_reservedKeys] at hle

/-- What is counted in one of two ways. -/
theorem countP_le_add {α : Type} {p q r : α → Bool} {l : List α}
    (h : ∀ a ∈ l, p a = true → q a = true ∨ r a = true) : l.countP p ≤ l.countP q + l.countP r := by
  induction l with
  | nil => exact Nat.le_refl 0
  | cons a l ih =>
      have hrest := ih fun b hb => h b (List.mem_cons_of_mem a hb)
      have hone : (if p a = true then 1 else 0) ≤
          (if q a = true then 1 else 0) + if r a = true then 1 else 0 := by
        by_cases hp : p a = true
        · rcases h a List.mem_cons_self hp with hq | hr
          · rw [if_pos hp, if_pos hq]
            omega
          · rw [if_pos hp, if_pos hr]
            omega
        · rw [if_neg hp]
          exact Nat.zero_le _
      rw [List.countP_cons, List.countP_cons, List.countP_cons]
      omega

theorem ownCount_le_add {q r : ℚ → Bool} (h : ∀ x, p x = true → q x = true ∨ r x = true) :
    store.ownCount p db ≤ store.ownCount q db + store.ownCount r db := by
  refine countP_le_add fun e _ he => ?_
  rw [Bool.and_eq_true] at he
  obtain ⟨x, hx, hp⟩ := (Option.any_eq_true _ _).mp he.2
  rw [he.1, hx, Bool.true_and, Bool.true_and]
  exact h x hp

/-- The counters that live are of two windows. -/
theorem Windows.own_le (h : Windows store windowSeconds clock db) (hpos : 0 < window windowSeconds)
    (hclock : clock ≤ now) : store.ownCount (fun x => now < x) db ≤ 2 * store.maxKeys := by
  cases hcard : db.get? store.cardinalityKey with
  | none =>
      have hnone : store.ownCount (fun x => now < x) db ≤ 0 :=
        h.unseen hcard ▸ ownCount_mono fun _ _ => rfl
      omega
  | some value =>
      obtain ⟨n, expires⟩ := value
      obtain ⟨time, rfl⟩ := Option.isSome_iff_exists.mp (h.timed _ _ hcard).2
      have hend := h.ends _ _ time hcard rfl
      obtain ⟨_, hthis, hbefore⟩ := h.seen hpos n time hcard
      have hsplit : store.ownCount (fun x => now < x) db ≤
          store.ownCount (fun x => time ≤ x) db +
            store.ownCount (fun x => time - window windowSeconds < x ∧ x < time) db := by
        refine ownCount_le_add fun x hx => ?_
        have hlive : now < x := of_decide_eq_true hx
        by_cases hthis : time ≤ x
        · exact Or.inl (decide_eq_true hthis)
        · exact Or.inr (decide_eq_true ⟨by linarith, not_le.mp hthis⟩)
      omega

/-- A key that lives has a time that has not come. -/
theorem Windows.live (h : Windows store windowSeconds clock db) {e : String × RedisValue}
    (he : e ∈ db.entries) (hlive : e.2.live now = true) :
    ∃ time, e.2.expires = some time ∧ now < time ∧ time ≤ clock + window windowSeconds := by
  have hget := OrderedMap.get?_eq_some_iff.mpr (show (e.1, e.2) ∈ db.entries from he)
  obtain ⟨time, htime⟩ := Option.isSome_iff_exists.mp (h.timed _ _ hget).2
  refine ⟨time, htime, ?_, h.ends _ _ time hget htime⟩
  rw [RedisValue.live, htime] at hlive
  exact of_decide_eq_true hlive

theorem Windows.liveKeys_le (h : Windows store windowSeconds clock db) (hclock : clock ≤ now) :
    liveKeys now db ≤ 2 * store.maxKeys + 64 + 1 := by
  by_cases hpos : 0 < window windowSeconds
  · have hsplit : liveKeys now db ≤
        store.ownCount (fun x => now < x) db + db.entries.countP (fun e => !store.own e.1) := by
      refine countP_le_add fun e he hlive => ?_
      obtain ⟨time, htime, hlater, _⟩ := h.live he hlive
      cases hown : store.own e.1 with
      | true =>
          refine Or.inl ?_
          rw [Bool.true_and, htime]
          exact decide_eq_true hlater
      | false => exact Or.inr rfl
    have hreserved := store.countP_reserved_le db
    have hown := h.own_le hpos hclock
    omega
  · -- what is over at once is never there
    have hnone : liveKeys now db = 0 := by
      refine List.countP_eq_zero.mpr fun e he hlive => hpos ?_
      obtain ⟨time, _, hlater, hend⟩ := h.live he hlive
      linarith
    omega

/-! ## Runs -/

variable {s t : RedisState} {e : RedisHit}

theorem step_eq_some (h : store.step windowSeconds s e = some t) : s.clock ≤ e.now ∧
    plain e.key = true ∧
    t = { clock := e.now, db := (store.hit s.db e.key windowSeconds e.now).2 } := by
  rw [step] at h
  split at h
  · rename_i henabled
    exact ⟨henabled.1, henabled.2, (Option.some.inj h).symm⟩
  · cases h

theorem windows_step (hs : store.Windows windowSeconds s.clock s.db)
    (h : store.step windowSeconds s e = some t) : store.Windows windowSeconds t.clock t.db := by
  obtain ⟨hclock, hkey, rfl⟩ := step_eq_some h
  exact hs.hit hclock hkey

theorem windows_empty (clock : ℚ) : store.Windows windowSeconds clock OrderedMap.empty :=
  ⟨by rintro key value ⟨⟩, by rintro key value time ⟨⟩, fun _ => rfl, by rintro _ n time ⟨⟩⟩

theorem windows_run {events : List RedisHit} (hs : store.Windows windowSeconds s.clock s.db)
    (h : Runs.run (store.step windowSeconds) s events = some t) :
    store.Windows windowSeconds t.clock t.db :=
  Runs.run_invariant_all (store.step windowSeconds) (P := fun s =>
    store.Windows windowSeconds s.clock s.db)
    (fun _ _ _ hs hstep => windows_step hs hstep) hs h

theorem clock_le_run {events : List RedisHit}
    (h : Runs.run (store.step windowSeconds) s events = some t) :
    s.clock ≤ t.clock := by
  induction events generalizing s with
  | nil => exact le_of_eq (congrArg RedisState.clock (Option.some.inj h))
  | cons e events ih =>
      obtain ⟨s', hstep, hrun⟩ := Runs.run_cons_some _ h
      obtain ⟨hclock, _, rfl⟩ := step_eq_some hstep
      exact hclock.trans (ih hrun)

/-- How often a key was hit. -/
def hitsOf (key : String) (events : List RedisHit) : Nat := events.countP fun e => e.key = key

theorem hitsOf_cons (key : String) (e : RedisHit) (events : List RedisHit) :
    hitsOf key (e :: events) = hitsOf key [e] + hitsOf key events := by
  show List.countP _ ([e] ++ events) = _
  exact List.countP_append

/-- A hit leaves the counters of other keys alone. -/
theorem get?_hit_of_ne (hdb : Redis.Timed db) (hkey : plain key = true) {other : String}
    (hother : plain other = true) (hne : other ≠ key) :
    (store.hit db key windowSeconds now).2.get? (store.redisKey other) =
      db.get? (store.redisKey other) := by
  have htarget : store.redisKey other ≠ store.target db key windowSeconds now := by
    intro heq
    rcases store.target_mem db key windowSeconds now with hown | hreserved
    · exact hne (store.redisKey_inj (heq.trans hown))
    · exact store.redisKey_notMem_reservedKeys hother (heq ▸ hreserved)
  rw [(store.hit_eq windowSeconds now hdb hkey).2.2, OrderedMap.get?_set_of_ne _ _ htarget,
    store.get?_seeing windowSeconds now (store.redisKey_ne_cardinalityKey hother)]

/-- A counter that lives goes on with the hits of its key, and no others. -/
theorem own_step (hs : Redis.Timed s.db) (hkey : plain key = true)
    (h : store.step windowSeconds s e = some t) {n : Nat} {time : ℚ}
    (hget : s.db.get? (store.redisKey key) = some { count := n, expires := some time })
    (hlive : t.clock < time) :
    t.db.get? (store.redisKey key) =
      some { count := n + hitsOf key [e], expires := some time } := by
  obtain ⟨_, hplain, rfl⟩ := step_eq_some h
  by_cases hsame : e.key = key
  · subst hsame
    have hfind : Redis.find s.db e.now (store.redisKey e.key) =
        some { count := n, expires := some time } :=
      Redis.find_eq_some.mpr ⟨hget, decide_eq_true hlive⟩
    have hcount : hitsOf e.key [e] = 1 := by
      rw [hitsOf, List.countP_singleton, if_pos (decide_eq_true rfl)]
    dsimp only
    rw [(hit_live_eq windowSeconds hs hplain hfind).1, hcount]
    exact OrderedMap.get?_set_self _ _ _
  · have hcount : hitsOf key [e] = 0 := by
      rw [hitsOf, List.countP_singleton, if_neg (by simpa using hsame)]
    dsimp only
    rw [get?_hit_of_ne hs hplain hkey (Ne.symm hsame), hget, hcount]
    rfl

theorem own_run {events : List RedisHit} (hs : Redis.Timed s.db) (hkey : plain key = true)
    (h : Runs.run (store.step windowSeconds) s events = some t) {n : Nat} {time : ℚ}
    (hget : s.db.get? (store.redisKey key) = some { count := n, expires := some time })
    (hlive : t.clock < time) :
    t.db.get? (store.redisKey key) =
      some { count := n + hitsOf key events, expires := some time } := by
  induction events generalizing s n with
  | nil =>
      cases h
      exact hget
  | cons e events ih =>
      obtain ⟨s', hstep, hrun⟩ := Runs.run_cons_some _ h
      have hmid := own_step hs hkey hstep hget (lt_of_le_of_lt (clock_le_run hrun) hlive)
      obtain ⟨_, hplain, rfl⟩ := step_eq_some hstep
      rw [ih (timed_hit hs hplain) hrun hmid]
      rw [hitsOf_cons key e events, Nat.add_assoc]

/-! ## What a store in Redis keeps -/

/-- What holds in every state that hits lead to. -/
structure Keeps (store : RedisRateLimitStore) (windowSeconds : Int) (s : RedisState) : Prop where
  /-- from now on, until the next hit -/
  keyspace : ∀ now, s.clock ≤ now → liveKeys now s.db ≤ 2 * store.maxKeys + 64 + 1
  /-- one counter counts one more: that of the key, or the one it folds into -/
  counts   : ∀ e t, store.step windowSeconds s e = some t → ∃ target value,
    target = (if (store.hit s.db e.key windowSeconds e.now).1.overflow then store.overflowKey e.key
      else store.redisKey e.key) ∧
    t.db.get? target = some value ∧
    value.count = (Redis.find s.db e.now target).elim 0 RedisValue.count + 1 ∧
    (store.hit s.db e.key windowSeconds e.now).1.count = value.count ∧
    ∀ k, k ≠ target → k ≠ store.cardinalityKey → t.db.get? k = s.db.get? k
  /-- a counter of a key counts all its hits until it expires -/
  own      : ∀ e t, store.step windowSeconds s e = some t →
    Redis.find s.db e.now (store.redisKey e.key) = none →
    (store.hit s.db e.key windowSeconds e.now).1.overflow = false →
    (store.hit s.db e.key windowSeconds e.now).1.count = 1 ∧
    ∀ events s₁ now s₂, Runs.run (store.step windowSeconds) t events = some s₁ →
      store.step windowSeconds s₁ { key := e.key, now := now } = some s₂ →
      now < e.now + window windowSeconds →
      (store.hit s₁.db e.key windowSeconds now).1.overflow = false ∧
      (store.hit s₁.db e.key windowSeconds now).1.count = 2 + hitsOf e.key events

theorem Windows.keeps (hs : store.Windows windowSeconds s.clock s.db) :
    Keeps store windowSeconds s := by
  refine ⟨fun now hclock => hs.liveKeys_le hclock, ?_, ?_⟩
  · intro e t hstep
    obtain ⟨_, hkey, rfl⟩ := step_eq_some hstep
    obtain ⟨hcount, hoverflow, hafter⟩ := store.hit_eq windowSeconds e.now hs.timed hkey
    refine ⟨store.target s.db e.key windowSeconds e.now,
      store.hitValue windowSeconds e.now s.db e.key, by rw [hoverflow]; rfl, ?_, ?_, hcount, ?_⟩
    · dsimp only
      rw [hafter]
      exact OrderedMap.get?_set_self _ _ _
    · rw [hitValue, Redis.counted]
      cases Redis.find s.db e.now (store.target s.db e.key windowSeconds e.now) with
      | none => rfl
      | some value => rfl
    · intro k htarget hcard
      dsimp only
      rw [hafter, OrderedMap.get?_set_of_ne _ _ htarget,
        store.get?_seeing windowSeconds e.now hcard]
  · intro e t hstep hfind hown
    obtain ⟨_, hkey, rfl⟩ := step_eq_some hstep
    obtain ⟨hcount, hoverflow, hafter⟩ := store.hit_eq windowSeconds e.now hs.timed hkey
    have htarget : store.target s.db e.key windowSeconds e.now = store.redisKey e.key := by
      rw [target, ← hoverflow, hown]
      rfl
    have hvalue : store.hitValue windowSeconds e.now s.db e.key =
        { count := 1, expires := some (e.now + window windowSeconds) } := by
      rw [hitValue, htarget, Redis.counted, hfind]
      rfl
    refine ⟨by rw [hcount, hvalue], ?_⟩
    intro events s₁ now s₂ hrun hstep' hwindow
    obtain ⟨hclock, _, _⟩ := step_eq_some hstep'
    have hget : (store.hit s.db e.key windowSeconds e.now).2.get? (store.redisKey e.key) =
        some { count := 1, expires := some (e.now + window windowSeconds) } := by
      rw [hafter, htarget, hvalue]
      exact OrderedMap.get?_set_self _ _ _
    have hlater := own_run (timed_hit hs.timed hkey) hkey hrun hget (lt_of_le_of_lt hclock hwindow)
    have hmid := windows_run (windows_step hs hstep) hrun
    obtain ⟨_, hnext, hfolded⟩ := hit_live_eq windowSeconds hmid.timed hkey
      (Redis.find_eq_some.mpr ⟨hlater, decide_eq_true hwindow⟩)
    refine ⟨hfolded, ?_⟩
    rw [hnext]
    show 1 + hitsOf e.key events + 1 = 2 + hitsOf e.key events
    omega

end RedisRateLimitStore

end RateLimit
