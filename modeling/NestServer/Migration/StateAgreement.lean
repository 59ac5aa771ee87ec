import Mathlib.Data.List.Nodup
import NestServer.Migration.Runner

/-! # The recorded migrations agree with the applied ones

    The lock lets one `up()` work at a time, and what it has pending stays
    unrecorded until it saves it.  An applied migration is recorded, or the one
    `up()` at work is about to record it; a recorded migration is applied, or a
    `down()` has rolled it back and is about to save that.  A save computed from
    an outdated read breaks the second half, and nothing keeps `down()` from
    making one: it reads the state outside the lock. -/

namespace MigrationRunner

open Runs

/-! ## Bodies that ran -/

theorem appliedBy_up (ran : List (String × Body)) (id x : String) :
    AppliedBy ((id, .up) :: ran) x ↔ x = id ∨ AppliedBy ran x := by
  rw [AppliedBy, AppliedBy, List.find?_cons]
  by_cases h : id = x
  · simp [h]
  · simp [h, Ne.symm h]

theorem appliedBy_down (ran : List (String × Body)) (id x : String) :
    AppliedBy ((id, .down) :: ran) x ↔ x ≠ id ∧ AppliedBy ran x := by
  rw [AppliedBy, AppliedBy, List.find?_cons]
  by_cases h : id = x
  · simp [h]
  · simp [h, Ne.symm h]

/-! ## What the files and the record give -/

theorem loadMigrationFiles_fresh (files : List MigrationFile) :
    ∀ seenIds, ∀ m ∈ loadMigrationFiles files seenIds, m.id ∉ seenIds := by
  induction files with
  | nil =>
      intro seenIds m hm
      cases hm
  | cons f files ih =>
      intro seenIds m hm
      rw [loadMigrationFiles] at hm
      split at hm
      · exact ih seenIds m hm
      · rename_i hseen
        split at hm
        · exact ih seenIds m hm
        · rcases List.mem_cons.mp hm with rfl | hm
          · exact hseen
          · exact fun h => ih _ m hm (List.mem_cons_of_mem _ h)

/-- `foo.ts` and `foo.js` are one migration. -/
theorem loadMigrationFiles_nodup (files : List MigrationFile) :
    ∀ seenIds, ((loadMigrationFiles files seenIds).map MigrationFile.id).Nodup := by
  induction files with
  | nil => exact fun _ => List.nodup_nil
  | cons f files ih =>
      intro seenIds
      rw [loadMigrationFiles]
      split
      · exact ih seenIds
      · split
        · exact ih seenIds
        · refine List.nodup_cons.mpr ⟨?_, ih _⟩
          intro hmem
          obtain ⟨m, hm, hid⟩ := List.mem_map.mp hmem
          exact loadMigrationFiles_fresh files _ m hm (hid ▸ List.mem_cons_self)

theorem idsOf_recordUp (m : MigrationFile) (read : List Recorded) :
    idsOf (recordUp m read).migrations = idsOf read ++ [m.id] := by
  simp [idsOf, recordUp, Recorded.id, MigrationFile.id]

theorem idsOf_recordDown (read : List Recorded) :
    idsOf (recordDown read).migrations = (idsOf read).dropLast := by
  simp [idsOf, recordDown, List.map_dropLast]

namespace UpPhase

/-- The migrations that a call still has to record. -/
def remaining : UpPhase → List MigrationFile
  | .running pending => pending
  | .applied m rest  => m :: rest
  | .reread m _ rest => m :: rest
  | _                => []

/-- The migration whose body ran and which is not recorded yet. -/
def unrecorded : UpPhase → Option MigrationFile
  | .applied m _  => some m
  | .reread m _ _ => some m
  | _             => none

def working : UpPhase → Bool
  | .start => false
  | .done  => false
  | _      => true

/-- The state as `runUp` read it again. -/
def read : UpPhase → Option Snapshot
  | .reread _ newState _ => some newState
  | _                    => none

end UpPhase

/-- The migration that a call of `down()` rolls back, and the state it read. -/
def DownCall.read : DownCall → Option (MigrationFile × Snapshot)
  | .ready m state  => some (m, state)
  | .undone m state => some (m, state)
  | _               => none

theorem planUp_remaining (files : List MigrationFile) (strict : Bool) (recorded : List Recorded) :
    ((planUp files strict recorded).remaining.map MigrationFile.id).Nodup ∧
      ∀ m ∈ (planUp files strict recorded).remaining, m.id ∉ idsOf recorded := by
  rw [planUp]
  split
  · exact ⟨List.nodup_nil, fun m hm => by cases hm⟩
  · constructor
    · exact (loadMigrationFiles_nodup files []).sublist (List.filter_sublist.map _)
    · intro m hm
      exact of_decide_eq_true (List.mem_filter.mp hm).2

theorem planDown_read (files : List MigrationFile) (state : Snapshot) :
    ∀ m sn, (planDown files state).read = some (m, sn) →
      sn = state ∧ ∃ last, state.migrations.getLast? = some last ∧ last.id = m.id := by
  intro m sn h
  rw [planDown] at h
  split at h
  · cases h
  · rename_i last hlast
    split at h
    · cases h
    · rename_i f hfind
      split at h
      · obtain ⟨rfl, rfl⟩ : f = m ∧ state = sn := by simpa [DownCall.read] using h
        have hid := List.find?_some hfind
        exact ⟨rfl, last, hlast, (of_decide_eq_true hid).symm⟩
      · cases h

/-! ## The invariant -/

/-- A read of the state is no younger than the state, and as old reads it. -/
def State.Read (s : State) (sn : Snapshot) : Prop :=
  sn.readAt ≤ s.saves ∧ (sn.readAt = s.saves → sn.migrations = migrationsOf s.store)

/-- A call of `down()` has rolled the migration back and is about to save that. -/
def State.RolledBack (s : State) (id : String) : Prop :=
  ∃ (i : Nat) (m : MigrationFile) (sn : Snapshot), s.downs[i]? = some (.undone m sn) ∧ m.id = id

/-- A call of `up()` has run the migration and is about to record it. -/
def State.Unrecorded (s : State) (id : String) : Prop :=
  ∃ (i : Nat) (u : UpCall) (m : MigrationFile),
    s.ups[i]? = some u ∧ u.phase.unrecorded = some m ∧ m.id = id

structure Inv (s : State) : Prop where
  lock      : MigrationLock.Wf s.lock
  works     : ∀ (i : Nat) (u : UpCall), s.ups[i]? = some u → u.phase.working = true →
    ∃ x, s.lock.sessions[i]? = some x ∧ x.phase = .holding
  nodup     : s.recordedIds.Nodup
  pending   : ∀ (i : Nat) (u : UpCall), s.ups[i]? = some u →
    (u.phase.remaining.map MigrationFile.id).Nodup ∧
      ∀ m ∈ u.phase.remaining, m.id ∉ s.recordedIds
  upReads   : ∀ (i : Nat) (u : UpCall) (sn : Snapshot), s.ups[i]? = some u →
    u.phase.read = some sn → s.Read sn
  downReads : ∀ (i : Nat) (d : DownCall) (m : MigrationFile) (sn : Snapshot),
    s.downs[i]? = some d → d.read = some (m, sn) →
    s.Read sn ∧ ∃ last, sn.migrations.getLast? = some last ∧ last.id = m.id
  applied   : ∀ id, AppliedBy s.ran id → id ∈ s.recordedIds ∨ s.Unrecorded id
  recorded  : ∀ id ∈ s.recordedIds, AppliedBy s.ran id ∨ s.RolledBack id
  window    : ∀ id, s.Unrecorded id → AppliedBy s.ran id ∨ s.RolledBack id
  rolled    : ∀ (i : Nat) (m : MigrationFile) (sn : Snapshot),
    s.downs[i]? = some (.undone m sn) → sn.readAt = s.saves → ¬ AppliedBy s.ran m.id
  once      : NeverReapplied s.ran

theorem inv_start {s : State} (h : Start s) : Inv s := by
  have hups : ∀ (i : Nat) (u : UpCall), s.ups[i]? ≠ some u := by
    rw [h.ups]
    simp
  have hdowns : ∀ (i : Nat) (d : DownCall), s.downs[i]? ≠ some d := by
    rw [h.downs]
    simp
  exact {
    lock      := MigrationLock.wf_start h.lock
    works     := fun i u hu => absurd hu (hups i u)
    nodup     := h.nodup
    pending   := fun i u hu => absurd hu (hups i u)
    upReads   := fun i u _ hu => absurd hu (hups i u)
    downReads := fun i d _ _ hd => absurd hd (hdowns i d)
    applied   := fun id ha => Or.inl ((h.agrees id).mpr ha)
    recorded  := fun id hr => Or.inl ((h.agrees id).mp hr)
    window    := fun id hw => by
      obtain ⟨i, u, _, hu, -⟩ := hw
      exact absurd hu (hups i u)
    rolled    := fun i _ _ hd => absurd hd (hdowns i _)
    once      := h.once }

/-- Two calls at work are one: each holds the lock. -/
theorem Inv.same_worker {s : State} (h : Inv s) (hf : s.lock.Exclusive) {i j : Nat}
    {u v : UpCall} (hu : s.ups[i]? = some u) (hv : s.ups[j]? = some v)
    (hwu : u.phase.working = true) (hwv : v.phase.working = true) : i = j := by
  obtain ⟨x, hx, hpx⟩ := h.works i u hu hwu
  obtain ⟨y, hy, hpy⟩ := h.works j v hv hwv
  exact hf i j x y hx hy hpx hpy

/-! ## Steps of the lock -/

/-- A call at work keeps its lock session. -/
theorem Inv.relock {s : State} (h : Inv s) {lock : MigrationLock.State}
    (hwf : MigrationLock.Wf lock)
    (hkeep : ∀ (i : Nat) (u : UpCall) (x : MigrationLock.Session), s.ups[i]? = some u →
      u.phase.working = true → s.lock.sessions[i]? = some x → x.phase = .holding →
      ∃ x', lock.sessions[i]? = some x' ∧ x'.phase = .holding) : Inv { s with lock } := by
  refine { h with lock := hwf, works := ?_ }
  intro i u hu hw
  obtain ⟨x, hx, hp⟩ := h.works i u hu hw
  exact hkeep i u x hu hw hx hp

/-- A session that another one's step, or its own reply or heartbeat, leaves
    holding. -/
theorem holding_put {s : MigrationLock.State} {i j : Nat} {y y' x : MigrationLock.Session}
    (hy : s.sessions[j]? = some y) (hkeep : y.phase = .holding → y'.phase = .holding)
    (hx : s.sessions[i]? = some x) (hp : x.phase = .holding) :
    ∃ x', (s.put j y').sessions[i]? = some x' ∧ x'.phase = .holding := by
  show ∃ x', (s.sessions.set j y')[i]? = some x' ∧ _
  rw [List.getElem?_set]
  by_cases hij : j = i
  · obtain rfl : x = y := Option.some.inj (hx.symm.trans (hij ▸ hy))
    have hlt : j < s.sessions.length := (List.getElem?_eq_some_iff.mp hy).1
    exact ⟨y', by rw [if_pos hij, if_pos hlt], hkeep hp⟩
  · exact ⟨x, by rw [if_neg hij, hx], hp⟩

/-- Holding ends with `releaseLock`, or with the process. -/
theorem lock_step_holding {s s' : MigrationLock.State} {a : MigrationLock.Action} {i : Nat}
    {x : MigrationLock.Session} (hs : MigrationLock.step s a = some s')
    (hx : s.sessions[i]? = some x) (hp : x.phase = .holding) (hfinish : a ≠ .finish i)
    (hfail : a ≠ .fail i) : ∃ x', s'.sessions[i]? = some x' ∧ x'.phase = .holding := by
  cases a with
  | tick ms =>
      rw [← Option.some.inj hs]
      exact ⟨x, hx, hp⟩
  | acquireLock token =>
      rw [MigrationLock.step] at hs
      split at hs
      · rw [← Option.some.inj hs]
        have hlt : i < s.sessions.length := (List.getElem?_eq_some_iff.mp hx).1
        exact ⟨x, (List.getElem?_append_left hlt).trans hx, hp⟩
      · cases hs
  | serve j =>
      obtain ⟨y, hy, hs'⟩ := Option.bind_eq_some_iff.mp hs
      obtain ⟨r, hr, rfl⟩ := Option.map_eq_some_iff.mp hs'
      refine holding_put (s := { s with locks := _ }) hy ?_ hx hp
      intro hph
      have hreply := y.receive_phase (s.locks.execute r).2
      rw [hph] at hreply
      exact (MigrationLock.Session.noting_phase ..).trans hreply
  | resume j =>
      obtain ⟨y, hy, hs'⟩ := Option.bind_eq_some_iff.mp hs
      obtain ⟨y', hy', rfl⟩ := Option.map_eq_some_iff.mp hs'
      refine holding_put hy ?_ hx hp
      intro hph
      rw [MigrationLock.Session.resume, hph] at hy'
      cases hy'
  | heartbeat j =>
      obtain ⟨y, hy, hs'⟩ := Option.bind_eq_some_iff.mp hs
      split at hs'
      · rw [← Option.some.inj hs']
        exact holding_put hy id hx hp
      · cases hs'
  | serveHeartbeat j k =>
      obtain ⟨y, hy, hs'⟩ := Option.bind_eq_some_iff.mp hs
      obtain ⟨ms, -, rfl⟩ := Option.map_eq_some_iff.mp hs'
      refine holding_put (s := { s with locks := _ }) hy ?_ hx hp
      intro hph
      exact (MigrationLock.Session.noting_phase ..).trans hph
  | finish j =>
      obtain ⟨y, hy, hs'⟩ := Option.bind_eq_some_iff.mp hs
      have hij : j ≠ i := fun h => hfinish (h ▸ rfl)
      split at hs'
      · rw [← Option.some.inj hs']
        exact ⟨x, (List.getElem?_set_ne hij).trans hx, hp⟩
      · cases hs'
  | fail j =>
      obtain ⟨y, hy, hs'⟩ := Option.bind_eq_some_iff.mp hs
      have hij : j ≠ i := fun h => hfail (h ▸ rfl)
      split at hs'
      · cases hs'
      · rw [← Option.some.inj hs']
        exact ⟨x, (List.getElem?_set_ne hij).trans hx, hp⟩

theorem inv_lockStep {s s' : State} {a : MigrationLock.Action} (h : Inv s)
    (hs : s.lockStep a = some s') : Inv s' := by
  have hstep : ∃ lock, MigrationLock.step s.lock a = some lock ∧ s' = { s with lock } ∧
      ∀ (i : Nat) (u : UpCall) (x : MigrationLock.Session), s.ups[i]? = some u →
        u.phase.working = true → s.lock.sessions[i]? = some x → x.phase = .holding →
        a ≠ .finish i ∧ a ≠ .fail i := by
    cases a with
    | acquireLock token => cases hs
    | finish j =>
        obtain ⟨v, hv, hs'⟩ := Option.bind_eq_some_iff.mp hs
        split at hs'
        · rename_i hdone
          obtain ⟨lock, hlock, rfl⟩ := Option.map_eq_some_iff.mp hs'
          refine ⟨lock, hlock, rfl, fun i u x hu hw _ _ => ⟨?_, by simp⟩⟩
          -- the work of the releasing call is done
          rintro ⟨⟩
          obtain rfl : u = v := Option.some.inj (hu.symm.trans hv)
          rw [hdone] at hw
          cases hw
        · cases hs'
    | fail j =>
        obtain ⟨y, hy, hs'⟩ := Option.bind_eq_some_iff.mp hs
        split at hs'
        · cases hs'
        · rename_i hp
          obtain ⟨lock, hlock, rfl⟩ := Option.map_eq_some_iff.mp hs'
          refine ⟨lock, hlock, rfl, fun i u x _ _ hx hph => ⟨by simp, ?_⟩⟩
          rintro ⟨⟩
          obtain rfl : x = y := Option.some.inj (hx.symm.trans hy)
          exact hp hph
    | _ =>
        simp only [State.lockStep] at hs
        obtain ⟨lock, hlock, rfl⟩ := Option.map_eq_some_iff.mp hs
        exact ⟨lock, hlock, rfl, fun _ _ _ _ _ _ _ => by simp⟩
  obtain ⟨lock, hlock, rfl, hopen⟩ := hstep
  refine h.relock (MigrationLock.step_wf h.lock hlock) ?_
  intro i u x hu hw hx hp
  obtain ⟨hfinish, hfail⟩ := hopen i u x hu hw hx hp
  exact lock_step_holding hlock hx hp hfinish hfail

/-! ## Steps of `up()` -/

section Up

variable {s : State} {i : Nat} {u : UpCall} {phase : UpPhase}

theorem unrecorded_putUp {id : String} (h : (s.putUp i u phase).Unrecorded id) :
    (∃ m, phase.unrecorded = some m ∧ m.id = id) ∨
      ∃ j v m, j ≠ i ∧ s.ups[j]? = some v ∧ v.phase.unrecorded = some m ∧ m.id = id := by
  obtain ⟨j, v, m, hv, hm, hid⟩ := h
  rcases getElem?_set_cases hv with ⟨-, rfl⟩ | ⟨hj, hv'⟩
  · exact Or.inl ⟨m, hm, hid⟩
  · exact Or.inr ⟨j, v, m, hj, hv', hm, hid⟩

theorem unrecorded_put_self (hu : s.ups[i]? = some u) {m : MigrationFile}
    (hm : phase.unrecorded = some m) : (s.putUp i u phase).Unrecorded m.id := by
  refine ⟨i, { u with phase }, m, ?_, hm, rfl⟩
  exact List.getElem?_set_self (List.getElem?_eq_some_iff.mp hu).1

theorem unrecorded_put_of_ne {j : Nat} {v : UpCall} {m : MigrationFile} (hj : j ≠ i)
    (hv : s.ups[j]? = some v) (hm : v.phase.unrecorded = some m) :
    (s.putUp i u phase).Unrecorded m.id :=
  ⟨j, v, m, (List.getElem?_set_ne hj.symm).trans hv, hm, rfl⟩

theorem working_of_unrecorded {m : MigrationFile} (h : phase.unrecorded = some m) :
    phase.working = true := by
  cases phase <;> first | rfl | cases h

theorem idle_of_not_working (h : phase.working = false) :
    phase.remaining = [] ∧ phase.read = none := by
  cases phase <;> first | exact ⟨rfl, rfl⟩ | cases h

/-- A step that runs no body and saves nothing. -/
theorem Inv.moveUp (h : Inv s) (hu : s.ups[i]? = some u)
    (hx : ∃ x, s.lock.sessions[i]? = some x ∧ x.phase = .holding)
    (hwin : phase.unrecorded = u.phase.unrecorded)
    (hpend : (phase.remaining.map MigrationFile.id).Nodup ∧
      ∀ m ∈ phase.remaining, m.id ∉ s.recordedIds)
    (hread : ∀ sn, phase.read = some sn → s.Read sn) : Inv (s.putUp i u phase) := by
  have hsame : ∀ id, (s.putUp i u phase).Unrecorded id ↔ s.Unrecorded id := by
    intro id
    constructor
    · intro hun
      rcases unrecorded_putUp hun with ⟨m, hm, hid⟩ | ⟨j, v, m, -, hv, hm, hid⟩
      · exact ⟨i, u, m, hu, hwin ▸ hm, hid⟩
      · exact ⟨j, v, m, hv, hm, hid⟩
    · rintro ⟨j, v, m, hv, hm, rfl⟩
      by_cases hj : j = i
      · obtain rfl : v = u := Option.some.inj (hv.symm.trans (hj ▸ hu))
        exact unrecorded_put_self hu (hwin.trans hm)
      · exact unrecorded_put_of_ne hj hv hm
  exact { h with
    works := by
      intro j v hv hw
      rcases getElem?_set_cases hv with ⟨rfl, -⟩ | ⟨-, hv'⟩
      · exact hx
      · exact h.works j v hv' hw
    pending := by
      intro j v hv
      rcases getElem?_set_cases hv with ⟨-, rfl⟩ | ⟨-, hv'⟩
      · exact hpend
      · exact h.pending j v hv'
    upReads := by
      intro j v sn hv hr
      rcases getElem?_set_cases hv with ⟨-, rfl⟩ | ⟨-, hv'⟩
      · exact hread sn hr
      · exact h.upReads j v sn hv' hr
    applied := fun id ha => (h.applied id ha).imp_right (hsame id).mpr
    window  := fun id hun => h.window id ((hsame id).mp hun) }

/-- The body of a pending migration runs. -/
theorem Inv.runBody (h : Inv s) (hf : s.lock.Exclusive) (hu : s.ups[i]? = some u)
    (hx : ∃ x, s.lock.sessions[i]? = some x ∧ x.phase = .holding) {m : MigrationFile}
    {rest : List MigrationFile} (hph : u.phase = .running (m :: rest)) :
    Inv ((s.execute m.id .up).putUp i u (.applied m rest)) := by
  have hpend := h.pending i u hu
  rw [hph] at hpend
  have hfresh : m.id ∉ s.recordedIds := hpend.2 m List.mem_cons_self
  have hworking : u.phase.working = true := by rw [hph]; rfl
  -- no other call is at work, so an applied migration is recorded
  have hnew : ¬ AppliedBy s.ran m.id := by
    intro ha
    rcases h.applied m.id ha with hrec | ⟨j, v, m', hv, hm', -⟩
    · exact hfresh hrec
    · obtain rfl := h.same_worker hf hu hv hworking (working_of_unrecorded hm')
      obtain rfl : u = v := Option.some.inj (hu.symm.trans hv)
      rw [hph] at hm'
      cases hm'
  exact { h with
    works := by
      intro j v hv hw
      rcases getElem?_set_cases hv with ⟨rfl, -⟩ | ⟨-, hv'⟩
      · exact hx
      · exact h.works j v hv' hw
    pending := by
      intro j v hv
      rcases getElem?_set_cases hv with ⟨-, rfl⟩ | ⟨-, hv'⟩
      · exact hpend
      · exact h.pending j v hv'
    upReads := by
      intro j v sn hv hr
      rcases getElem?_set_cases hv with ⟨-, rfl⟩ | ⟨-, hv'⟩
      · cases hr
      · exact h.upReads j v sn hv' hr
    applied := by
      intro id ha
      rcases (appliedBy_up s.ran m.id id).mp ha with rfl | ha'
      · exact Or.inr (unrecorded_put_self (s := s.execute m.id .up) hu rfl)
      · rcases h.applied id ha' with hrec | ⟨j, v, m', hv, hm', rfl⟩
        · exact Or.inl hrec
        · obtain rfl := h.same_worker hf hu hv hworking (working_of_unrecorded hm')
          obtain rfl : u = v := Option.some.inj (hu.symm.trans hv)
          rw [hph] at hm'
          cases hm'
    recorded := fun id hrec =>
      (h.recorded id hrec).imp_left fun ha => (appliedBy_up s.ran m.id id).mpr (Or.inr ha)
    window := by
      intro id hun
      rcases unrecorded_putUp hun with ⟨m', hm', rfl⟩ | ⟨j, v, m', -, hv, hm', rfl⟩
      · obtain rfl : m = m' := Option.some.inj hm'
        exact Or.inl ((appliedBy_up s.ran m.id m.id).mpr (Or.inl rfl))
      · exact (h.window _ ⟨j, v, m', hv, hm', rfl⟩).imp_left fun ha =>
          (appliedBy_up s.ran m.id _).mpr (Or.inr ha)
    rolled := by
      intro j m' sn hd hcur ha
      rcases (appliedBy_up s.ran m.id m'.id).mp ha with heq | ha'
      · -- a current `down()` rolls back what is recorded
        obtain ⟨hread, last, hlast, hid⟩ := h.downReads j _ m' sn hd rfl
        rw [hread.2 hcur] at hlast
        refine hfresh (List.mem_map.mpr ⟨last, List.mem_of_getLast? hlast, ?_⟩)
        exact hid.trans heq
      · exact h.rolled j m' sn hd hcur ha'
    once := ⟨hnew, h.once⟩ }

/-- The migration whose body ran is recorded, over the state as it still is. -/
theorem Inv.saveUp (h : Inv s) (hf : s.lock.Exclusive) (hu : s.ups[i]? = some u)
    (hx : ∃ x, s.lock.sessions[i]? = some x ∧ x.phase = .holding) {m : MigrationFile}
    {sn : Snapshot} {rest : List MigrationFile} (hph : u.phase = .reread m sn rest)
    (hcur : sn.readAt = s.saves) :
    Inv ((s.save (recordUp m sn.migrations)).putUp i u (.running rest)) := by
  have hpend := h.pending i u hu
  rw [hph] at hpend
  have hfresh : m.id ∉ s.recordedIds := hpend.2 m List.mem_cons_self
  have hworking : u.phase.working = true := by rw [hph]; rfl
  have hread : sn.migrations = migrationsOf s.store :=
    (h.upReads i u sn hu (by rw [hph]; rfl)).2 hcur
  have hids : idsOf (recordUp m sn.migrations).migrations = s.recordedIds ++ [m.id] := by
    rw [idsOf_recordUp, hread]
    rfl
  have hmem : ∀ id, id ∈ idsOf (recordUp m sn.migrations).migrations ↔
      id ∈ s.recordedIds ∨ id = m.id := by
    intro id
    rw [hids, List.mem_append, List.mem_singleton]
  have honly : ∀ (j : Nat) (v : UpCall), j ≠ i → s.ups[j]? = some v → v.phase.working = false := by
    intro j v hj hv
    cases hw : v.phase.working with
    | false => rfl
    | true => exact absurd (h.same_worker hf hv hu hw hworking) hj
  exact {
    lock := h.lock
    works := by
      intro j v hv hw
      rcases getElem?_set_cases hv with ⟨rfl, -⟩ | ⟨-, hv'⟩
      · exact hx
      · exact h.works j v hv' hw
    nodup := by
      show (idsOf (recordUp m sn.migrations).migrations).Nodup
      rw [hids]
      refine List.nodup_append.mpr ⟨h.nodup, List.nodup_singleton _, ?_⟩
      intro a ha b hb heq
      exact hfresh (List.mem_singleton.mp hb ▸ heq ▸ ha)
    pending := by
      intro j v hv
      rcases getElem?_set_cases hv with ⟨-, rfl⟩ | ⟨hj, hv'⟩
      · obtain ⟨hnot, hnodup⟩ := List.nodup_cons.mp hpend.1
        refine ⟨hnodup, fun m' hm' hrec => ?_⟩
        rcases (hmem m'.id).mp hrec with hold | heq
        · exact hpend.2 m' (List.mem_cons_of_mem _ hm') hold
        · exact hnot (List.mem_map.mpr ⟨m', hm', heq⟩)
      · rw [(idle_of_not_working (honly j v hj hv')).1]
        exact ⟨List.nodup_nil, fun m' hm' => by cases hm'⟩
    upReads := by
      intro j v sn' hv hr
      rcases getElem?_set_cases hv with ⟨-, rfl⟩ | ⟨hj, hv'⟩
      · cases hr
      · rw [(idle_of_not_working (honly j v hj hv')).2] at hr
        cases hr
    downReads := by
      intro j d m' sn' hd hr
      obtain ⟨hold, hlast⟩ := h.downReads j d m' sn' hd hr
      refine ⟨⟨Nat.le_succ_of_le hold.1, fun heq => ?_⟩, hlast⟩
      have heq' : sn'.readAt = s.saves + 1 := heq
      have hle := hold.1
      omega
    applied := by
      intro id ha
      left
      show id ∈ idsOf (recordUp m sn.migrations).migrations
      refine (hmem id).mpr ?_
      rcases h.applied id ha with hrec | ⟨j, v, m', hv, hm', rfl⟩
      · exact Or.inl hrec
      · obtain rfl := h.same_worker hf hu hv hworking (working_of_unrecorded hm')
        obtain rfl : u = v := Option.some.inj (hu.symm.trans hv)
        rw [hph] at hm'
        obtain rfl : m = m' := Option.some.inj hm'
        exact Or.inr rfl
    recorded := by
      intro id hrec
      rcases (hmem id).mp hrec with hold | rfl
      · exact h.recorded id hold
      · exact h.window m.id ⟨i, u, m, hu, by rw [hph]; rfl, rfl⟩
    window := by
      intro id hun
      rcases unrecorded_putUp hun with ⟨m', hm', -⟩ | ⟨j, v, m', hj, hv, hm', -⟩
      · cases hm'
      · have hidle := honly j v hj hv
        rw [working_of_unrecorded hm'] at hidle
        cases hidle
    rolled := by
      intro j m' sn' hd heq
      obtain ⟨hold, -⟩ := h.downReads j _ m' sn' hd rfl
      have heq' : sn'.readAt = s.saves + 1 := heq
      have hle := hold.1
      omega
    once := h.once }

end Up

/-! ## Steps of `down()` -/

section Down

variable {s : State} {i : Nat} {d d' : DownCall}

theorem rolledBack_put_self (hd : s.downs[i]? = some d) (m : MigrationFile) (sn : Snapshot) :
    (s.putDown i (.undone m sn)).RolledBack m.id :=
  ⟨i, m, sn, List.getElem?_set_self (List.getElem?_eq_some_iff.mp hd).1, rfl⟩

theorem rolledBack_put_of_ne {j : Nat} {m : MigrationFile} {sn : Snapshot} (hj : j ≠ i)
    (hm : s.downs[j]? = some (.undone m sn)) : (s.putDown i d').RolledBack m.id :=
  ⟨j, m, sn, (List.getElem?_set_ne hj.symm).trans hm, rfl⟩

/-- `down()` reads the state and picks what it rolls back. -/
theorem Inv.planDown (h : Inv s) (hd : s.downs[i]? = some .start) (files : List MigrationFile) :
    Inv (s.putDown i (planDown files s.snapshot)) := by
  have hplan : ∀ m sn, MigrationRunner.planDown files s.snapshot ≠ .undone m sn := by
    intro m sn heq
    rw [MigrationRunner.planDown] at heq
    split at heq
    · cases heq
    · split at heq
      · cases heq
      · split at heq <;> cases heq
  have hback : ∀ id, s.RolledBack id →
      (s.putDown i (MigrationRunner.planDown files s.snapshot)).RolledBack id := by
    rintro id ⟨j, m, sn, hm, rfl⟩
    refine rolledBack_put_of_ne ?_ hm
    rintro rfl
    rw [hd] at hm
    cases hm
  exact { h with
    downReads := by
      intro j d m sn hd' hr
      rcases getElem?_set_cases hd' with ⟨-, rfl⟩ | ⟨-, hd''⟩
      · obtain ⟨rfl, hlast⟩ := planDown_read files s.snapshot m sn hr
        exact ⟨⟨Nat.le_refl _, fun _ => rfl⟩, hlast⟩
      · exact h.downReads j d m sn hd'' hr
    recorded := fun id hrec => (h.recorded id hrec).imp_right (hback id)
    window   := fun id hun => (h.window id hun).imp_right (hback id)
    rolled   := by
      intro j m sn hm hcur
      rcases getElem?_set_cases hm with ⟨-, heq⟩ | ⟨-, hm'⟩
      · exact absurd heq.symm (hplan m sn)
      · exact h.rolled j m sn hm' hcur }

/-- The body of `down` runs. -/
theorem Inv.runDownBody (h : Inv s) {m : MigrationFile} {sn : Snapshot}
    (hd : s.downs[i]? = some (.ready m sn)) :
    Inv ((s.execute m.id .down).putDown i (.undone m sn)) := by
  have hself : ((s.execute m.id .down).putDown i (.undone m sn)).RolledBack m.id :=
    rolledBack_put_self (s := s.execute m.id .down) hd m sn
  have hback : ∀ id, AppliedBy s.ran id ∨ s.RolledBack id →
      AppliedBy ((m.id, .down) :: s.ran) id ∨
        ((s.execute m.id .down).putDown i (.undone m sn)).RolledBack id := by
    rintro id (ha | ⟨j, m', sn', hm', rfl⟩)
    · by_cases hid : id = m.id
      · rw [hid]
        exact Or.inr hself
      · exact Or.inl ((appliedBy_down s.ran m.id id).mpr ⟨hid, ha⟩)
    · right
      refine rolledBack_put_of_ne (s := s.execute m.id .down) ?_ hm'
      rintro rfl
      rw [hd] at hm'
      cases hm'
  exact { h with
    downReads := by
      intro j d m' sn' hd' hr
      rcases getElem?_set_cases hd' with ⟨rfl, rfl⟩ | ⟨-, hd''⟩
      · exact h.downReads j _ m' sn' hd hr
      · exact h.downReads j d m' sn' hd'' hr
    applied  := fun id ha => h.applied id ((appliedBy_down s.ran m.id id).mp ha).2
    recorded := fun id hrec => hback id (h.recorded id hrec)
    window   := fun id hun => hback id (h.window id hun)
    rolled   := by
      intro j m' sn' hm' hcur ha
      obtain ⟨hne, ha'⟩ := (appliedBy_down s.ran m.id m'.id).mp ha
      rcases getElem?_set_cases hm' with ⟨-, heq⟩ | ⟨-, hm''⟩
      · cases heq
        exact hne rfl
      · exact h.rolled j m' sn' hm'' hcur ha'
    once := h.once }

/-- The migration that was rolled back leaves the record, which still is what
    the call had read. -/
theorem Inv.saveDown (h : Inv s) {m : MigrationFile} {sn : Snapshot}
    (hd : s.downs[i]? = some (.undone m sn)) (hcur : sn.readAt = s.saves) :
    Inv ((s.save (recordDown sn.migrations)).putDown i .done) := by
  obtain ⟨hread, last, hlast, hid⟩ := h.downReads i _ m sn hd rfl
  have hsn : sn.migrations = migrationsOf s.store := hread.2 hcur
  have hids : s.recordedIds = idsOf (recordDown sn.migrations).migrations ++ [m.id] := by
    have hsplit := List.dropLast_append_getLast? last hlast
    rw [idsOf_recordDown, ← hid, State.recordedIds, ← hsn, idsOf, ← List.map_dropLast]
    conv_lhs => rw [← hsplit]
    simp
  have hmem : ∀ id, id ∈ s.recordedIds ↔
      id ∈ idsOf (recordDown sn.migrations).migrations ∨ id = m.id := by
    intro id
    rw [hids, List.mem_append, List.mem_singleton]
  have hnodup := h.nodup
  rw [hids] at hnodup
  obtain ⟨hkept, -, hdisjoint⟩ := List.nodup_append.mp hnodup
  have hgone : m.id ∉ idsOf (recordDown sn.migrations).migrations :=
    fun hrec => hdisjoint m.id hrec m.id (List.mem_singleton_self _) rfl
  have hback : ∀ id, id ≠ m.id → s.RolledBack id →
      ((s.save (recordDown sn.migrations)).putDown i .done).RolledBack id := by
    rintro id hne ⟨j, m', sn', hm', rfl⟩
    refine rolledBack_put_of_ne (s := s.save (recordDown sn.migrations)) ?_ hm'
    rintro rfl
    rw [hd] at hm'
    cases hm'
    exact hne rfl
  have holder : ∀ sn' : Snapshot, sn'.readAt ≤ s.saves → sn'.readAt ≠ s.saves + 1 := by
    intro sn' hle
    omega
  exact {
    lock  := h.lock
    works := h.works
    nodup := hkept
    pending := by
      intro j u hu
      refine ⟨(h.pending j u hu).1, fun m' hm' hrec => ?_⟩
      exact (h.pending j u hu).2 m' hm' ((hmem m'.id).mpr (Or.inl hrec))
    upReads := by
      intro j u sn' hu hr
      obtain ⟨hle, -⟩ := h.upReads j u sn' hu hr
      exact ⟨Nat.le_succ_of_le hle, fun heq => absurd heq (holder sn' hle)⟩
    downReads := by
      intro j d m' sn' hd' hr
      rcases getElem?_set_cases hd' with ⟨-, rfl⟩ | ⟨-, hd''⟩
      · cases hr
      · obtain ⟨hold, hlast'⟩ := h.downReads j d m' sn' hd'' hr
        exact ⟨⟨Nat.le_succ_of_le hold.1, fun heq => absurd heq (holder sn' hold.1)⟩, hlast'⟩
    applied := by
      intro id ha
      rcases h.applied id ha with hrec | hun
      · rcases (hmem id).mp hrec with hkeep | rfl
        · exact Or.inl hkeep
        · exact absurd ha (h.rolled i m sn hd hcur)
      · exact Or.inr hun
    recorded := by
      intro id hrec
      have hne : id ≠ m.id := fun heq => hgone (heq ▸ hrec)
      exact (h.recorded id ((hmem id).mpr (Or.inl hrec))).imp_right (hback id hne)
    window := by
      rintro _ ⟨j, u, m', hu, hm', rfl⟩
      -- what is pending is not recorded, so it is not what was rolled back
      have hne : m'.id ≠ m.id := by
        intro heq
        have hin : m' ∈ u.phase.remaining := by
          cases hp : u.phase <;> rw [hp] at hm' <;> cases hm' <;> exact List.mem_cons_self
        exact (h.pending j u hu).2 m' hin ((hmem m'.id).mpr (Or.inr heq))
      exact (h.window m'.id ⟨j, u, m', hu, hm', rfl⟩).imp_right (hback m'.id hne)
    rolled := by
      intro j m' sn' hm' heq
      rcases getElem?_set_cases hm' with ⟨-, hdone⟩ | ⟨-, hm''⟩
      · cases hdone
      · obtain ⟨hold, -⟩ := h.downReads j _ m' sn' hm'' rfl
        exact absurd heq (holder sn' hold.1)
    once := h.once }

end Down

/-! ## Every synchronized step keeps the invariant -/

theorem Inv.addUp {s : State} (h : Inv s) (strict : Bool) :
    Inv { s with ups := s.ups ++ [⟨strict, .start⟩] } := by
  have hgrow : ∀ {i : Nat} {u : UpCall}, s.ups[i]? = some u →
      (s.ups ++ [⟨strict, .start⟩])[i]? = some u := by
    intro i u hu
    exact (List.getElem?_append_left (List.getElem?_eq_some_iff.mp hu).1).trans hu
  exact { h with
    works := by
      intro i u hu hw
      rcases getElem?_append_cases hu with hu' | ⟨-, rfl⟩
      · exact h.works i u hu' hw
      · cases hw
    pending := by
      intro i u hu
      rcases getElem?_append_cases hu with hu' | ⟨-, rfl⟩
      · exact h.pending i u hu'
      · exact ⟨List.nodup_nil, fun m hm => by cases hm⟩
    upReads := by
      intro i u sn hu hr
      rcases getElem?_append_cases hu with hu' | ⟨-, rfl⟩
      · exact h.upReads i u sn hu' hr
      · cases hr
    applied := by
      intro id ha
      refine (h.applied id ha).imp_right ?_
      rintro ⟨i, u, m, hu, hm, hid⟩
      exact ⟨i, u, m, hgrow hu, hm, hid⟩
    window := by
      rintro id ⟨i, u, m, hu, hm, hid⟩
      rcases getElem?_append_cases hu with hu' | ⟨-, rfl⟩
      · exact h.window id ⟨i, u, m, hu', hm, hid⟩
      · cases hm }

theorem Inv.addDown {s : State} (h : Inv s) : Inv { s with downs := s.downs ++ [.start] } := by
  have hback : ∀ id, s.RolledBack id →
      ({ s with downs := s.downs ++ [.start] } : State).RolledBack id := by
    rintro id ⟨i, m, sn, hm, hid⟩
    exact ⟨i, m, sn,
      (List.getElem?_append_left (List.getElem?_eq_some_iff.mp hm).1).trans hm, hid⟩
  exact { h with
    downReads := by
      intro i d m sn hd hr
      rcases getElem?_append_cases hd with hd' | ⟨-, rfl⟩
      · exact h.downReads i d m sn hd' hr
      · cases hr
    recorded := fun id hrec => (h.recorded id hrec).imp_right (hback id)
    window   := fun id hun => (h.window id hun).imp_right (hback id)
    rolled   := by
      intro i m sn hm hcur
      rcases getElem?_append_cases hm with hm' | ⟨-, heq⟩
      · exact h.rolled i m sn hm' hcur
      · cases heq }

theorem inv_stepUp {files : List MigrationFile} {s s' : State} {i : Nat} {u : UpCall} (h : Inv s)
    (hc : Synchronized s (.runUp i)) (hu : s.ups[i]? = some u)
    (hx : ∃ x, s.lock.sessions[i]? = some x ∧ x.phase = .holding)
    (hs : s.stepUp files i u = some s') : Inv s' := by
  have hpend := h.pending i u hu
  rw [State.stepUp] at hs
  cases hph : u.phase with
  | start =>
      rw [hph] at hs
      rw [← Option.some.inj hs]
      refine h.moveUp hu hx ?_ (planUp_remaining files u.strict _) ?_
      · rw [hph, planUp]
        split <;> rfl
      · intro sn hr
        rw [planUp] at hr
        split at hr <;> cases hr
  | running pending =>
      rw [hph] at hs hpend
      cases pending with
      | nil =>
          rw [← Option.some.inj hs]
          exact h.moveUp hu hx (by rw [hph]; rfl) hpend (fun sn hr => by cases hr)
      | cons m rest =>
          rw [← Option.some.inj hs]
          exact h.runBody hc.1 hu hx hph
  | applied m rest =>
      rw [hph] at hs hpend
      rw [← Option.some.inj hs]
      refine h.moveUp hu hx (by rw [hph]; rfl) hpend ?_
      rintro sn ⟨⟩
      exact ⟨Nat.le_refl _, fun _ => rfl⟩
  | reread m sn rest =>
      rw [hph] at hs
      rw [← Option.some.inj hs]
      refine h.saveUp hc.1 hu hx hph (hc.2 sn ?_)
      obtain ⟨strict, phase⟩ := u
      rw [State.savedFrom, hu]
      dsimp only at hph
      rw [hph]
  | done =>
      rw [hph] at hs
      cases hs

theorem inv_step {files : List MigrationFile} {s s' : State} {e : Action} (h : Inv s)
    (hc : Synchronized s e) (hs : step files s e = some s') : Inv s' := by
  cases e with
  | up strict token =>
      obtain ⟨lock, hlock, rfl⟩ := Option.map_eq_some_iff.mp hs
      have hlocked : Inv { s with lock } :=
        h.relock (MigrationLock.step_wf h.lock hlock) fun i u x _ _ hx hp =>
          lock_step_holding hlock hx hp (by simp) (by simp)
      exact hlocked.addUp strict
  | lock a => exact inv_lockStep h hs
  | runUp i =>
      obtain ⟨u, hu, hs'⟩ := Option.bind_eq_some_iff.mp hs
      obtain ⟨x, hx, hs''⟩ := Option.bind_eq_some_iff.mp hs'
      split at hs''
      · rename_i hp
        exact inv_stepUp h hc hu ⟨x, hx, hp⟩ hs''
      · cases hs''
  | down =>
      rw [← Option.some.inj hs]
      exact h.addDown
  | runDown i =>
      obtain ⟨d, hd, hs'⟩ := Option.bind_eq_some_iff.mp hs
      cases d with
      | start =>
          rw [← Option.some.inj hs']
          exact h.planDown hd files
      | ready m sn =>
          rw [← Option.some.inj hs']
          exact h.runDownBody hd
      | undone m sn =>
          rw [← Option.some.inj hs']
          refine h.saveDown hd (hc.2 sn ?_)
          rw [State.savedFrom, hd]
      | done => cases hs'

/-! ## Agreement -/

/-- Where no call is in between, the two halves of the invariant meet. -/
theorem Inv.consistent {s : State} (h : Inv s) : s.Consistent := by
  refine ⟨?_, h.nodup, h.once⟩
  rintro ⟨hsessions, hdowns⟩ id
  constructor
  · intro hrec
    rcases h.recorded id hrec with ha | ⟨i, m, sn, hm, -⟩
    · exact ha
    · cases hdowns _ (List.mem_of_getElem? hm)
  · intro ha
    rcases h.applied id ha with hrec | ⟨i, u, m, hu, hm, -⟩
    · exact hrec
    · obtain ⟨x, hx, hp⟩ := h.works i u hu (working_of_unrecorded hm)
      rcases hsessions x (List.mem_of_getElem? hx) with hq | hq <;> rw [hp] at hq <;> cases hq

/-- The lock excludes at every step of a run whose lock holders refresh. -/
theorem synchronized_of_refreshed {s : State} {e : Action} (h : Inv s) (hf : s.lock.Refreshed)
    (hsave : SavesCurrent s e) : Synchronized s e :=
  ⟨h.lock.exclusive hf, hsave⟩

/-- **Migration state agrees with applied migrations.** In a run whose saves
    are all computed from the state as it is, and whose lock excludes, every
    state is consistent. -/
theorem migrations_consistent (files : List MigrationFile) {s : State} (hstart : Start s)
    (es : List Action) (hc : Meets (step files) Synchronized s es) :
    Always (step files) State.Consistent s es :=
  always_of_meets (step files) (fun _ _ _ h hc hs => inv_step h hc hs) (fun _ h => h.consistent) es
    s (inv_start hstart) hc

section Examples

/-- Two migrations, the first of which ran before. -/
def twoFiles : List MigrationFile := [⟨"1-a.ts", 1, true, true⟩, ⟨"2-b.ts", 2, true, true⟩]

def firstApplied : State :=
  { lock := ⟨0, ⟨none, 0⟩, []⟩, store := some ⟨some "1-a.ts", [⟨1, "1-a.ts"⟩]⟩, saves := 0,
    ran := [("1-a", .up)], ups := [], downs := [] }

theorem start_firstApplied : Start firstApplied where
  lock   := ⟨rfl, by simp [firstApplied]⟩
  ups    := rfl
  downs  := rfl
  agrees := by
    intro id
    have hids : firstApplied.recordedIds = ["1-a"] := by decide
    rw [hids, List.mem_singleton]
    show id = "1-a" ↔ AppliedBy [("1-a", .up)] id
    rw [appliedBy_up]
    simp [AppliedBy]
  nodup  := by decide
  once   := by simp [NeverReapplied, firstApplied, AppliedBy]

/-- A call of `up()` from its lock to its release. -/
def wholeUp : List Action :=
  [.up false "t", .lock (.serve 0), .lock (.resume 0), .runUp 0, .runUp 0, .runUp 0, .runUp 0,
    .runUp 0, .lock (.finish 0), .lock (.serve 0)]

/-- One call after the other. -/
theorem migrations_consistent_in_turn :
    Always (step twoFiles) State.Consistent firstApplied
      (wholeUp ++ [.down, .runDown 0, .runDown 0, .runDown 0]) :=
  migrations_consistent twoFiles start_firstApplied _ (by decide)

/-- A `down()` that read the state before an `up()` drops what that recorded:
    in the end no call is left, the second migration is applied, and the record
    is empty. -/
theorem rollback_loses_migration :
    let es := [.down, .runDown 0] ++ wholeUp ++ [.runDown 0, .runDown 0]
    Start firstApplied ∧ Always (step twoFiles) (fun s => s.lock.Refreshed) firstApplied es ∧
      ∃ t, run (step twoFiles) firstApplied es = some t ∧ t.Quiescent ∧ ¬ t.Agrees := by
  refine ⟨start_firstApplied, by decide, _, rfl, by decide, ?_⟩
  intro hagrees
  exact absurd ((hagrees "2-b").mpr (by decide)) (by decide)

end Examples

end MigrationRunner
