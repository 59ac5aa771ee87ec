import Mathlib.Data.Rat.Floor
import NestServer.Tus.RedisLock

/-! # Waiting for the upload lock

    One call of `TusRedisLock.lock` over time: an attempt, `cancelReq`, a look at the
    signal and the clock, a pause, the next attempt.

    `lock_iff` is about a `cancelReq` that aborts the request it is called by;
    `lock_waits` says what the loop does where it does not. -/

namespace Tus

/-- The pause between two attempts. -/
def retryInterval : ℚ := 100

/-- A round of the loop. -/
structure Round where
  /-- when Redis gets the `SET` -/
  set     : ℚ
  /-- when `cancelReq` has been awaited -/
  checked : ℚ

/-- A call of `lock` and what goes on around it. -/
structure Call where
  start            : ℚ
  acquireTimeoutMs : ℚ
  round            : Nat → Round
  /-- what others have at the key, as long as this call does not have it -/
  holder           : ℚ → Option Entry
  starts           : start ≤ (round 0).set
  checks           : ∀ k, (round k).set ≤ (round k).checked
  pauses           : ∀ k, (round k).checked + retryInterval ≤ (round (k + 1)).set

inductive Ending where
  | held
  | thrown
deriving DecidableEq

namespace Call

variable (c : Call)

def deadline : ℚ := c.start + c.acquireTimeoutMs

/-- The rounds from one on, as many as there is fuel.  `cancelReq` takes the flag of the
    signal to what it is afterwards; nobody else aborts. -/
def lockFrom (cancelReq : Bool → Bool) : Nat → Nat → Bool → Option Ending
  | 0, _, _               => none
  | fuel + 1, k, aborted  =>
      if c.holder (c.round k).set = none then some .held
      else
        let aborted := cancelReq aborted
        if aborted || c.deadline < (c.round k).checked then some .thrown
        else lockFrom cancelReq fuel (k + 1) aborted

/-- `lock(signal, cancelReq)` -/
def lock (cancelReq : Bool → Bool) : Option Ending :=
  c.lockFrom cancelReq (⌊c.acquireTimeoutMs / retryInterval⌋₊ + 2) 0 false

/-- The key becomes free, and stays free, an interval before the deadline at the latest. -/
def FreesInTime (interval : ℚ) : Prop :=
  ∃ t, t + interval ≤ c.deadline ∧ ∀ t', t ≤ t' → c.holder t' = none

/-! ## Rounds -/

variable {c}

theorem lockFrom_free {cancelReq : Bool → Bool} {fuel k : Nat} {aborted : Bool}
    (h : c.holder (c.round k).set = none) :
    c.lockFrom cancelReq (fuel + 1) k aborted = some .held := if_pos h

theorem lockFrom_busy {cancelReq : Bool → Bool} {fuel k : Nat} {aborted : Bool}
    (h : c.holder (c.round k).set ≠ none) : c.lockFrom cancelReq (fuel + 1) k aborted
      = if cancelReq aborted || c.deadline < (c.round k).checked then some .thrown
        else c.lockFrom cancelReq fuel (k + 1) (cancelReq aborted) := if_neg h

/-- Every round takes its pause. -/
theorem start_add_le_set (k : Nat) : c.start + k * retryInterval ≤ (c.round k).set := by
  induction k with
  | zero =>
      rw [Nat.cast_zero, zero_mul, add_zero]
      exact c.starts
  | succ k ih =>
      have hpause := c.pauses k
      have hcheck := c.checks k
      push_cast
      linarith

/-- The loop ends: no round is left open when the deadline is over. -/
theorem lockFrom_ends {cancelReq : Bool → Bool} (fuel k : Nat) (aborted : Bool)
    (hfuel : ⌊c.acquireTimeoutMs / retryInterval⌋₊ + 2 ≤ fuel + 1 + k) :
    (c.lockFrom cancelReq (fuel + 1) k aborted).isSome = true := by
  induction fuel generalizing k aborted with
  | zero =>
      by_cases hfree : c.holder (c.round k).set = none
      · rw [lockFrom_free hfree]
        rfl
      · have hlate : c.deadline < (c.round k).checked := by
          have hk : c.acquireTimeoutMs / retryInterval < k := by
            have hfloor := Nat.lt_floor_add_one (c.acquireTimeoutMs / retryInterval)
            have hcast : ((⌊c.acquireTimeoutMs / retryInterval⌋₊ + 1 : ℕ) : ℚ) ≤ k := by
              exact_mod_cast (by omega : ⌊c.acquireTimeoutMs / retryInterval⌋₊ + 1 ≤ k)
            push_cast at hcast
            linarith
          have hset := c.start_add_le_set k
          have hcheck := c.checks k
          rw [div_lt_iff₀ (by norm_num [retryInterval])] at hk
          rw [deadline]
          linarith
        rw [lockFrom_busy hfree, if_pos]
        · rfl
        · rw [decide_eq_true hlate, Bool.or_true]
  | succ fuel ih =>
      by_cases hfree : c.holder (c.round k).set = none
      · rw [lockFrom_free hfree]
        rfl
      · rw [lockFrom_busy hfree]
        by_cases hstop : (cancelReq aborted || decide (c.deadline < (c.round k).checked)) = true
        · rw [if_pos hstop]
          rfl
        · rw [if_neg hstop]
          exact ih (k + 1) _ (by omega)

/-- `lock` returns or throws. -/
theorem lock_ends (cancelReq : Bool → Bool) : (c.lock cancelReq).isSome = true :=
  lockFrom_ends _ 0 false (Nat.le_refl _)

/-! ## Whom `cancelReq` cancels -/

/-- **Waiting.** `cancelReq` aborts the request that calls it: the lock is held after
    the first attempt or not at all. -/
theorem lock_iff (c : Call) :
    c.lock (fun _ => true) = some .held ↔ c.holder (c.round 0).set = none := by
  by_cases hfree : c.holder (c.round 0).set = none
  · exact iff_of_true (lockFrom_free hfree) hfree
  · refine iff_of_false ?_ hfree
    have hthrown : c.lock (fun _ => true) = some .thrown := by
      rw [lock, lockFrom_busy hfree]
      rfl
    rw [hthrown]
    decide

/-- Without an abort the loop throws at a busy key after the deadline only. -/
theorem lockFrom_thrown {fuel k : Nat} (h : c.lockFrom id fuel k false = some .thrown) :
    ∃ k, c.holder (c.round k).set ≠ none ∧ c.deadline < (c.round k).checked := by
  induction fuel generalizing k with
  | zero => cases h
  | succ fuel ih =>
      by_cases hfree : c.holder (c.round k).set = none
      · rw [lockFrom_free hfree] at h
        cases h
      · rw [lockFrom_busy hfree] at h
        by_cases hlate : c.deadline < (c.round k).checked
        · exact ⟨k, hfree, hlate⟩
        · rw [decide_eq_false hlate] at h
          exact ih h

/-- A `cancelReq` that reaches the holder instead would leave the caller waiting until
    the key is free, if its attempts are never further apart than the interval. -/
theorem lock_waits {interval : ℚ} (hgap : ∀ k, (c.round (k + 1)).set ≤ (c.round k).set + interval)
    (hfrees : c.FreesInTime interval) : c.lock id = some .held := by
  obtain ⟨t, hdeadline, hfree⟩ := hfrees
  obtain ⟨ending, hending⟩ := Option.isSome_iff_exists.mp (c.lock_ends id)
  cases ending with
  | held => exact hending
  | thrown =>
      obtain ⟨k, hbusy, hlate⟩ := lockFrom_thrown hending
      have hearly : (c.round k).set < t := by
        by_contra hle
        exact hbusy (hfree _ (not_lt.mp hle))
      have hpause := c.pauses k
      have hnext := hgap k
      have hpositive : (0 : ℚ) ≤ retryInterval := by norm_num [retryInterval]
      linarith

/-- The key is free after 50 ms, and the attempts are 110 ms apart. -/
def shortWait : Call where
  start            := 0
  acquireTimeoutMs := 10000
  round k          := ⟨110 * k, 110 * k + 5⟩
  holder t         := if t < 50 then some ⟨1, 30000⟩ else none
  starts           := by norm_num
  checks k         := by norm_num
  pauses k         := by
    rw [retryInterval]
    push_cast
    linarith

/-- A key that is busy at the first attempt is not waited for. -/
theorem lock_does_not_wait :
    ¬ ∀ c : Call, c.holder c.start ≠ none → c.FreesInTime retryInterval →
      c.lock (fun _ => true) = some .held := by
  intro h
  have hbusy : ∀ t : ℚ, t < 50 → shortWait.holder t ≠ none := by
    intro t ht
    show (if t < 50 then some (⟨1, 30000⟩ : Entry) else none) ≠ none
    rw [if_pos ht]
    exact Option.some_ne_none _
  have hfrees : shortWait.FreesInTime retryInterval := by
    refine ⟨50, by norm_num [deadline, shortWait, retryInterval], ?_⟩
    intro t ht
    exact if_neg (not_lt.mpr ht)
  have hfirst : (shortWait.round 0).set = 0 := by
    show (110 : ℚ) * (0 : ℕ) = 0
    norm_num
  have hheld := h shortWait (hbusy 0 (by norm_num)) hfrees
  rw [lock, lockFrom_busy (by rw [hfirst]; exact hbusy 0 (by norm_num))] at hheld
  cases hheld

end Call

end Tus
