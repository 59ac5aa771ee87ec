import Mathlib.Data.List.Perm.Subperm
import Mathlib.Algebra.Order.Ring.Rat
import NestServer.RateLimit.InMemory

/-! # Counters of a full store

    A hit is counted in one of three ways: in the counter of its key, in a new one, or
    in a bucket that it shares.  A counter that is still in its window goes on in all
    of them. -/

namespace RateLimit

namespace InMemoryRateLimitStore

variable {s : InMemoryRateLimitStore}

/-- There is no room, and nothing has expired. -/
def full (s : InMemoryRateLimitStore) (sweep : ℚ) : Bool :=
  s.maxEntries ≤ s.size && s.store.entries.all fun e => sweep < e.2.resetTime

inductive Counted where
  /-- in a counter of its own that is new -/
  | obtained
  | own
  | overflow
deriving DecidableEq, Repr

/-- How a hit is counted. -/
def countedAs (s : InMemoryRateLimitStore) (key : String) (now sweep : ℚ) : Counted :=
  match s.store.get? key with
  | some entry => if entry.resetTime ≤ now then .obtained else .own
  | none       => if s.full sweep then .overflow else .obtained

/-! ## One hit -/

/-- Nothing is removed from a store that is full. -/
theorem evictOldest_full {sweep : ℚ} (h : s.full sweep = true) :
    s.evictOldest sweep = (true, s) := by
  rw [full, Bool.and_eq_true, decide_eq_true_eq, List.all_eq_true] at h
  obtain ⟨hsize, hlive⟩ := h
  have hleft : s.store.filterValues (fun entry => sweep < entry.resetTime) = s.store :=
    OrderedMap.filterValues_eq_self hlive
  rw [evictOldest, removeExpired, hleft, Nat.sub_self]
  have hfull : decide (s.store.size < s.maxEntries) = false :=
    decide_eq_false (Nat.not_lt.mpr hsize)
  simp only [Nat.lt_irrefl, decide_false, Bool.false_or]
  rw [show InMemoryRateLimitStore.size { s with store := s.store } = s.store.size from rfl, hfull]
  rfl

/-- Where something has expired, there is room afterwards. -/
theorem evictOldest_room {sweep : ℚ} (hsize : s.maxEntries ≤ s.size) (h : s.full sweep = false) :
    s.evictOldest sweep = (false, (s.removeExpired sweep).2) ∧
      (s.removeExpired sweep).2.store.size < s.size := by
  rw [full, decide_eq_true hsize, Bool.true_and] at h
  have hless : (s.removeExpired sweep).2.store.size < s.size := by
    refine List.length_filter_lt_length_iff_exists.mpr ?_
    obtain ⟨e, he, hexpired⟩ := List.all_eq_false.mp h
    exact ⟨e, he, hexpired⟩
  refine ⟨?_, hless⟩
  have hremoved : decide (0 < (s.removeExpired sweep).1) = true :=
    decide_eq_true (Nat.sub_pos_of_lt hless)
  rw [evictOldest]
  show (!(decide (0 < (s.removeExpired sweep).1) || _), _) = _
  rw [hremoved]
  rfl

theorem hit_live {key : String} (windowSeconds : ℚ) {now : ℚ} (sweep : ℚ) {entry : Counter}
    (hget : s.store.get? key = some entry) (hlive : now < entry.resetTime) :
    s.hit key windowSeconds now sweep =
      (entry.increment.told now, { s with store := s.store.set key entry.increment }) := by
  rw [hit, hget]
  exact if_neg (not_le.mpr hlive)

theorem hit_own {key : String} (windowSeconds : ℚ) {now sweep : ℚ}
    (h : s.countedAs key now sweep = .own) : ∃ entry, s.store.get? key = some entry ∧
      now < entry.resetTime ∧ s.hit key windowSeconds now sweep =
        (entry.increment.told now, { s with store := s.store.set key entry.increment }) := by
  rw [countedAs] at h
  split at h
  · rename_i entry hget
    split at h
    · cases h
    · rename_i hlive
      exact ⟨entry, hget, not_le.mp hlive, hit_live windowSeconds sweep hget (not_le.mp hlive)⟩
  · split at h
    · cases h
    · cases h

/-- The store before a counter is made: as it was, or without what has expired. -/
theorem hit_obtained {key : String} (windowSeconds : ℚ) {now sweep : ℚ}
    (h : s.countedAs key now sweep = .obtained) :
    ∃ left : InMemoryRateLimitStore, (left = s ∨ left = (s.removeExpired sweep).2) ∧
      s.hit key windowSeconds now sweep = left.create key windowSeconds now ∧
      (s.size ≤ s.maxEntries →
        (left.store.set key (.start windowSeconds now)).size ≤ s.maxEntries) := by
  rw [countedAs] at h
  rw [hit]
  cases hget : s.store.get? key with
  | some entry =>
      rw [hget] at h
      by_cases hexpired : entry.resetTime ≤ now
      · refine ⟨s, Or.inl rfl, if_pos hexpired, fun hsize => ?_⟩
        rw [OrderedMap.size_set_of_some _ hget]
        exact hsize
      · dsimp only at h
        rw [if_neg hexpired] at h
        cases h
  | none =>
      rw [hget] at h
      by_cases hsize : s.maxEntries ≤ s.size
      · cases hfull : s.full sweep with
        | true =>
            rw [hfull] at h
            cases h
        | false =>
            obtain ⟨hevict, hless⟩ := evictOldest_room hsize hfull
            refine ⟨(s.removeExpired sweep).2, Or.inr rfl, ?_, fun hbound => ?_⟩
            · dsimp only
              rw [if_pos hsize, hevict]
              rfl
            · have hset := OrderedMap.size_set_le (s.removeExpired sweep).2.store key
                (.start windowSeconds now)
              omega
      · refine ⟨s, Or.inl rfl, if_neg hsize, fun _ => ?_⟩
        rw [OrderedMap.size_set_of_none _ hget]
        show s.size + 1 ≤ s.maxEntries
        omega

theorem hit_overflow {key : String} (windowSeconds : ℚ) {now sweep : ℚ}
    (h : s.countedAs key now sweep = .overflow) :
    s.store.get? key = none ∧ s.full sweep = true ∧
      s.hit key windowSeconds now sweep = s.hitOverflow key windowSeconds now := by
  rw [countedAs] at h
  cases hget : s.store.get? key with
  | some entry =>
      rw [hget] at h
      dsimp only at h
      split at h
      · cases h
      · cases h
  | none =>
      rw [hget] at h
      cases hfull : s.full sweep with
      | false =>
          rw [hfull] at h
          cases h
      | true =>
          refine ⟨rfl, rfl, ?_⟩
          have hsize : s.maxEntries ≤ s.size := by
            rw [full, Bool.and_eq_true, decide_eq_true_eq] at hfull
            exact hfull.1
          rw [hit, hget]
          dsimp only
          rw [if_pos hsize, evictOldest_full hfull]
          rfl

/-- The live counter of a bucket. -/
def bucket (s : InMemoryRateLimitStore) (slot : Nat) (now : ℚ) : Option Counter :=
  (s.overflow.get? slot).filter fun entry => now < entry.resetTime

/-- A bucket counts one more, or starts again. -/
theorem hitOverflow_eq (s : InMemoryRateLimitStore) (key : String) (windowSeconds now : ℚ) :
    ∃ entry, (s.hitOverflow key windowSeconds now).2 =
        { s with overflow := s.overflow.set (overflowSlot key) entry } ∧
      (s.hitOverflow key windowSeconds now).1.count = entry.count ∧
      ((s.bucket (overflowSlot key) now = none ∧ entry = .start windowSeconds now) ∨
        ∃ old, s.bucket (overflowSlot key) now = some old ∧ entry = old.increment) := by
  rw [hitOverflow, bucket]
  cases hget : s.overflow.get? (overflowSlot key) with
  | none => exact ⟨_, rfl, rfl, Or.inl ⟨rfl, rfl⟩⟩
  | some old =>
      dsimp only
      by_cases hexpired : old.resetTime ≤ now
      · rw [if_pos hexpired]
        refine ⟨_, rfl, rfl, Or.inl ⟨?_, rfl⟩⟩
        exact if_neg (by simpa using hexpired)
      · rw [if_neg hexpired]
        refine ⟨_, rfl, rfl, Or.inr ⟨old, ?_, rfl⟩⟩
        exact if_pos (decide_eq_true (not_le.mp hexpired))

/-! ## Bounds -/

structure Bounded (s : InMemoryRateLimitStore) : Prop where
  size  : s.store.size ≤ s.maxEntries
  slots : ∀ slot ∈ s.overflow.entries.map Prod.fst, slot < OVERFLOW_BUCKETS

/-- There are no more buckets than slots. -/
theorem Bounded.overflow (h : s.Bounded) : s.overflow.size ≤ 64 := by
  have hsubset : s.overflow.entries.map Prod.fst ⊆ List.range 64 := fun slot hslot =>
    List.mem_range.mpr (h.slots slot hslot)
  have hle := (List.subperm_of_subset s.overflow.nodup hsubset).length_le
  rwa [List.length_map, List.length_range] at hle

theorem overflowSlot_lt (key : String) : overflowSlot key < OVERFLOW_BUCKETS :=
  Nat.mod_lt _ (by decide)

theorem Bounded.removeExpired (h : s.Bounded) (now : ℚ) : (s.removeExpired now).2.Bounded :=
  ⟨Nat.le_trans (List.length_filter_le _ _) h.size, h.slots⟩

theorem Bounded.hit (h : s.Bounded) (key : String) (windowSeconds now sweep : ℚ) :
    (s.hit key windowSeconds now sweep).2.Bounded := by
  cases hcounted : s.countedAs key now sweep with
  | obtained =>
      obtain ⟨left, hleft, heq, hsize⟩ := hit_obtained windowSeconds hcounted
      rw [heq]
      rcases hleft with rfl | rfl
      · exact ⟨hsize h.size, h.slots⟩
      · exact ⟨hsize h.size, h.slots⟩
  | own =>
      obtain ⟨entry, hget, _, heq⟩ := hit_own windowSeconds hcounted
      rw [heq]
      refine ⟨?_, h.slots⟩
      show (s.store.set key entry.increment).size ≤ s.maxEntries
      rw [OrderedMap.size_set_of_some _ hget]
      exact h.size
  | overflow =>
      obtain ⟨_, _, heq⟩ := hit_overflow windowSeconds hcounted
      obtain ⟨entry, hoverflow, _⟩ := s.hitOverflow_eq key windowSeconds now
      rw [heq, hoverflow]
      refine ⟨h.size, fun slot hslot => ?_⟩
      rcases OrderedMap.fst_mem_setEntries hslot with rfl | hold
      · exact overflowSlot_lt key
      · exact h.slots slot hold

end InMemoryRateLimitStore

open InMemoryRateLimitStore

/-! ## Counters that go on -/

variable {s t : State}

theorem clock_le {e : Event} (h : step s e = some t) : s.clock ≤ t.clock := by
  cases e with
  | hit key windowSeconds now sweep =>
      rw [step] at h
      split at h
      · rename_i hle
        cases h
        exact hle.1.trans hle.2
      · cases h
  | removeExpired now =>
      rw [step] at h
      split at h
      · rename_i hle
        cases h
        exact hle
      · cases h

theorem clock_le_run {es : List Event} (h : Runs.run step s es = some t) : s.clock ≤ t.clock := by
  induction es generalizing s with
  | nil => exact le_of_eq (congrArg State.clock (Option.some.inj h))
  | cons e es ih =>
      obtain ⟨s', hstep, hrun⟩ := Runs.run_cons_some step h
      exact (clock_le hstep).trans (ih hrun)

/-- A live counter stays where something is removed. -/
theorem get_removeExpired {store : InMemoryRateLimitStore} {key : String} {entry : Counter}
    {now : ℚ}
    (hget : store.store.get? key = some entry) (hlive : now < entry.resetTime) :
    (store.removeExpired now).2.store.get? key = some entry :=
  OrderedMap.get?_filterValues_of_pos hget (decide_eq_true hlive)

/-- One more hit of its key, and no other one, counts in a live counter. -/
theorem own_step {e : Event} (h : step s e = some t) {key : String} {entry : Counter}
    (hget : s.store.store.get? key = some entry) (hlive : t.clock < entry.resetTime) :
    t.store.store.get? key = some { entry with count := entry.count + hitsOf key [e] } := by
  cases e with
  | removeExpired now =>
      rw [step] at h
      split at h
      · cases h
        exact get_removeExpired hget hlive
      · cases h
  | hit key' windowSeconds now sweep =>
      rw [step] at h
      split at h
      · rename_i hle
        cases h
        have hnow : now < entry.resetTime := lt_of_le_of_lt hle.2 hlive
        by_cases hkey : key' = key
        · subst hkey
          have hcount : hitsOf key' [.hit key' windowSeconds now sweep] = 1 := by
            rw [hitsOf, List.countP_singleton, if_pos (decide_eq_true rfl)]
          rw [hit_live windowSeconds sweep hget hnow, hcount]
          exact OrderedMap.get?_set_self _ _ _
        · have hcount : hitsOf key [.hit key' windowSeconds now sweep] = 0 := by
            rw [hitsOf, List.countP_singleton, if_neg (by simpa using hkey)]
          rw [hcount]
          -- what another key does leaves it alone
          cases hcounted : s.store.countedAs key' now sweep with
          | obtained =>
              obtain ⟨left, hleft, heq, _⟩ := hit_obtained windowSeconds hcounted
              have hstays : left.store.get? key = some entry := by
                rcases hleft with rfl | rfl
                · exact hget
                · exact get_removeExpired hget hlive
              rw [heq]
              exact (OrderedMap.get?_set_of_ne _ _ (Ne.symm hkey)).trans hstays
          | own =>
              obtain ⟨other, _, _, heq⟩ := hit_own windowSeconds hcounted
              rw [heq]
              exact (OrderedMap.get?_set_of_ne _ _ (Ne.symm hkey)).trans hget
          | overflow =>
              obtain ⟨_, _, heq⟩ := hit_overflow windowSeconds hcounted
              obtain ⟨bucket, hoverflow, _⟩ := s.store.hitOverflow_eq key' windowSeconds now
              rw [heq, hoverflow]
              exact hget
      · cases h

theorem own_run {es : List Event} (h : Runs.run step s es = some t) {key : String} {entry : Counter}
    (hget : s.store.store.get? key = some entry) (hlive : t.clock < entry.resetTime) :
    t.store.store.get? key = some { entry with count := entry.count + hitsOf key es } := by
  induction es generalizing s entry with
  | nil =>
      cases h
      exact hget
  | cons e es ih =>
      obtain ⟨s', hstep, hrun⟩ := Runs.run_cons_some step h
      have hmid := own_step hstep hget (lt_of_le_of_lt (clock_le_run hrun) hlive)
      rw [ih hrun hmid hlive]
      have hhits : hitsOf key ([e] ++ es) = hitsOf key [e] + hitsOf key es := List.countP_append
      rw [show hitsOf key (e :: es) = _ from hhits, Nat.add_assoc]

/-! ## Buckets that go on -/

/-- Whether an event counts in a bucket. -/
def countsInto (slot : Nat) (s : State) : Event → Bool
  | .hit key _ now sweep => s.store.countedAs key now sweep = .overflow && overflowSlot key = slot
  | .removeExpired _     => false

/-- How often it is counted in a bucket. -/
def overflowHits (slot : Nat) : State → List Event → Nat
  | _, []      => 0
  | s, e :: es =>
      (if countsInto slot s e then 1 else 0) +
        match step s e with
        | some s' => overflowHits slot s' es
        | none    => 0

theorem bucket_step {e : Event} (h : step s e = some t) {slot : Nat} {entry : Counter}
    (hget : s.store.overflow.get? slot = some entry) (hlive : t.clock < entry.resetTime) :
    t.store.overflow.get? slot =
      some { entry with count := entry.count + if countsInto slot s e then 1 else 0 } := by
  cases e with
  | removeExpired now =>
      rw [step] at h
      split at h
      · cases h
        exact hget
      · cases h
  | hit key windowSeconds now sweep =>
      rw [step] at h
      split at h
      · rename_i hle
        cases h
        have hnow : now < entry.resetTime := lt_of_le_of_lt hle.2 hlive
        cases hcounted : s.store.countedAs key now sweep with
        | obtained =>
            obtain ⟨left, hleft, heq, _⟩ := hit_obtained windowSeconds hcounted
            rw [heq, countsInto, hcounted]
            rcases hleft with rfl | rfl
            · exact hget
            · exact hget
        | own =>
            obtain ⟨other, _, _, heq⟩ := hit_own windowSeconds hcounted
            rw [heq, countsInto, hcounted]
            exact hget
        | overflow =>
            obtain ⟨_, _, heq⟩ := hit_overflow windowSeconds hcounted
            obtain ⟨bucket, hoverflow, _, hbucket⟩ := s.store.hitOverflow_eq key windowSeconds now
            rw [heq, hoverflow, countsInto, hcounted]
            by_cases hslot : overflowSlot key = slot
            · subst hslot
              have hold : s.store.bucket (overflowSlot key) now = some entry := by
                rw [InMemoryRateLimitStore.bucket, hget]
                exact if_pos (decide_eq_true hnow)
              rcases hbucket with ⟨hnone, _⟩ | ⟨old, hsome, rfl⟩
              · rw [hold] at hnone
                cases hnone
              · rw [hold] at hsome
                rw [← Option.some.inj hsome, decide_eq_true rfl, decide_eq_true rfl]
                exact OrderedMap.get?_set_self _ _ _
            · rw [decide_eq_false hslot, Bool.and_false]
              exact (OrderedMap.get?_set_of_ne _ _ (Ne.symm hslot)).trans hget
      · cases h

theorem bucket_run {es : List Event} (h : Runs.run step s es = some t) {slot : Nat}
    {entry : Counter}
    (hget : s.store.overflow.get? slot = some entry) (hlive : t.clock < entry.resetTime) :
    t.store.overflow.get? slot =
      some { entry with count := entry.count + overflowHits slot s es } := by
  induction es generalizing s entry with
  | nil =>
      cases h
      exact hget
  | cons e es ih =>
      obtain ⟨s', hstep, hrun⟩ := Runs.run_cons_some step h
      have hmid := bucket_step hstep hget (lt_of_le_of_lt (clock_le_run hrun) hlive)
      rw [ih hrun hmid hlive, overflowHits, hstep, Nat.add_assoc]

/-! ## What survives -/

/-- What holds in every state that hits and removals lead to. -/
structure Survives (s : State) : Prop where
  size     : s.store.size ≤ s.store.maxEntries
  overflow : s.store.overflow.size ≤ 64
  /-- in its window a counter goes on, whatever other keys do -/
  own      : ∀ key windowSeconds now sweep s₁,
    step s (.hit key windowSeconds now sweep) = some s₁ →
      s.store.countedAs key now sweep = .obtained →
    (s.store.hit key windowSeconds now sweep).1.count = 1 ∧
    ∀ events s₂ windowSeconds' now' sweep' s₃, Runs.run step s₁ events = some s₂ →
      step s₂ (.hit key windowSeconds' now' sweep') = some s₃ → now' < now + windowSeconds * 1000 →
      (s₂.store.hit key windowSeconds' now' sweep').1.count = 2 + hitsOf key events
  /-- without a counter and without room a hit is counted in one bucket -/
  folded   : ∀ key windowSeconds now sweep, s.store.store.get? key = none →
    s.store.full sweep = true →
    ∃ entry, (s.store.hit key windowSeconds now sweep).2 =
        { s.store with overflow := s.store.overflow.set (overflowSlot key) entry } ∧
      (s.store.hit key windowSeconds now sweep).1.count = entry.count ∧
      entry.count = ((s.store.bucket (overflowSlot key) now).elim 0 Counter.count) + 1
  /-- and in its window the bucket goes on -/
  counts   : ∀ key windowSeconds now sweep s₁ entry,
    step s (.hit key windowSeconds now sweep) = some s₁ →
      s.store.countedAs key now sweep = .overflow →
    s₁.store.overflow.get? (overflowSlot key) = some entry →
    (s.store.hit key windowSeconds now sweep).1.count = entry.count ∧
    ∀ events s₂ key' windowSeconds' now' sweep' s₃, Runs.run step s₁ events = some s₂ →
      step s₂ (.hit key' windowSeconds' now' sweep') = some s₃ →
      overflowSlot key' = overflowSlot key →
      s₂.store.countedAs key' now' sweep' = .overflow → now' < entry.resetTime →
      (s₂.store.hit key' windowSeconds' now' sweep').1.count =
        entry.count + overflowHits (overflowSlot key) s₁ events + 1

theorem step_hit {key : String} {windowSeconds now sweep : ℚ}
    (h : step s (.hit key windowSeconds now sweep) = some t) : s.clock ≤ now ∧ now ≤ sweep ∧
      t = { clock := sweep, store := (s.store.hit key windowSeconds now sweep).2 } := by
  rw [step] at h
  split at h
  · rename_i hle
    exact ⟨hle.1, hle.2, (Option.some.inj h).symm⟩
  · cases h

theorem bounded_step {e : Event} (hs : s.store.Bounded) (h : step s e = some t) :
    t.store.Bounded := by
  cases e with
  | hit key windowSeconds now sweep =>
      obtain ⟨_, _, rfl⟩ := step_hit h
      exact hs.hit key windowSeconds now sweep
  | removeExpired now =>
      rw [step] at h
      split at h
      · cases h
        exact hs.removeExpired now
      · cases h

theorem countedAs_overflow {store : InMemoryRateLimitStore} {key : String} (now : ℚ) {sweep : ℚ}
    (hget : store.store.get? key = none) (hfull : store.full sweep = true) :
    store.countedAs key now sweep = .overflow := by
  rw [countedAs, hget]
  exact if_pos hfull

theorem InMemoryRateLimitStore.Bounded.survives (hs : s.store.Bounded) : Survives s := by
  refine ⟨hs.size, hs.overflow, ?_, ?_, ?_⟩
  · intro key windowSeconds now sweep s₁ hstep hcounted
    obtain ⟨left, _, heq, _⟩ := hit_obtained windowSeconds hcounted
    obtain ⟨_, _, rfl⟩ := step_hit hstep
    refine ⟨by rw [heq]; rfl, ?_⟩
    intro events s₂ windowSeconds' now' sweep' s₃ hrun hstep' hwindow
    have hget : (s.store.hit key windowSeconds now sweep).2.store.get? key =
        some (.start windowSeconds now) := by
      rw [heq]
      exact OrderedMap.get?_set_self _ _ _
    have hclock := (step_hit hstep').1
    have hlater := own_run hrun hget (lt_of_le_of_lt hclock hwindow)
    rw [hit_live windowSeconds' sweep' hlater hwindow]
    show 1 + hitsOf key events + 1 = 2 + hitsOf key events
    omega
  · intro key windowSeconds now sweep hget hfull
    obtain ⟨_, _, heq⟩ := hit_overflow windowSeconds (countedAs_overflow now hget hfull)
    obtain ⟨entry, hstore, hcount, hbucket⟩ := s.store.hitOverflow_eq key windowSeconds now
    rw [heq]
    refine ⟨entry, hstore, hcount, ?_⟩
    rcases hbucket with ⟨hnone, rfl⟩ | ⟨old, hsome, rfl⟩
    · rw [hnone]
      rfl
    · rw [hsome]
      rfl
  · intro key windowSeconds now sweep s₁ entry hstep hcounted hget
    obtain ⟨_, _, heq⟩ := hit_overflow windowSeconds hcounted
    obtain ⟨made, hstore, hcount, _⟩ := s.store.hitOverflow_eq key windowSeconds now
    obtain ⟨_, _, rfl⟩ := step_hit hstep
    have hmade : made = entry := by
      have hset : (s.store.hit key windowSeconds now sweep).2.overflow.get? (overflowSlot key) =
          some made := by
        rw [heq, hstore]
        exact OrderedMap.get?_set_self _ _ _
      exact Option.some.inj (hset.symm.trans hget)
    refine ⟨by rw [heq, hcount, hmade], ?_⟩
    intro events s₂ key' windowSeconds' now' sweep' s₃ hrun hstep' hslot hcounted' hwindow
    have hlater := bucket_run hrun hget (lt_of_le_of_lt (step_hit hstep').1 hwindow)
    obtain ⟨_, _, heq'⟩ := hit_overflow windowSeconds' hcounted'
    obtain ⟨made', _, hcount', hbucket⟩ := s₂.store.hitOverflow_eq key' windowSeconds' now'
    rw [heq', hcount']
    have hlive : s₂.store.bucket (overflowSlot key') now' =
        s₂.store.overflow.get? (overflowSlot key) := by
      rw [InMemoryRateLimitStore.bucket, hslot, hlater]
      exact if_pos (decide_eq_true hwindow)
    rw [hlater] at hlive
    rcases hbucket with ⟨hnone, _⟩ | ⟨old, hsome, rfl⟩
    · rw [hlive] at hnone
      cases hnone
    · rw [hlive] at hsome
      rw [← Option.some.inj hsome]
      rfl

/-- **Saturation.** Counters and bounds survive every sequence of hits and removals. -/
theorem survives_run (maxEntries : Nat) (clock : ℚ) {events : List Event} {s : State}
    (h : Runs.run step (start maxEntries clock) events = some s) : Survives s := by
  refine InMemoryRateLimitStore.Bounded.survives
    (Runs.run_invariant_all step (P := fun s => s.store.Bounded) ?_ ?_ h)
  · exact fun _ _ _ hs hstep => bounded_step hs hstep
  · exact ⟨Nat.zero_le _, by rintro slot ⟨⟩⟩

/-- Two keys in a store for one. -/
def twoKeys : List Event := [.hit "a" 60 0 0, .hit "b" 60 1000 1000, .hit "a" 60 2000 2000]

theorem survives_run_twoKeys : ∃ s, Runs.run step (start 1 0) twoKeys = some s ∧ Survives s := by
  have hrun : Runs.run step (start 1 0) twoKeys = some _ := rfl
  exact ⟨_, hrun, survives_run 1 0 hrun⟩

end RateLimit
