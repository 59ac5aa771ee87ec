import NestServer.Migration.LockSafety

/-! # The migration runner

    Several replicas call `MigrationRunner.up()` and `MigrationRunner.down()`
    on one store.  `up()` works inside `withMigrationLock`, `down()` does not.
    Each read of the recorded state, each migration body and each save is one
    step; all other steps may come between.

    No process is killed while it works: the bodies succeed and the store
    answers. -/

namespace MigrationRunner

open Runs

/-! ## Migration files -/

/-- The title without a trailing `.ts` or `.js`. -/
def migrationId (title : String) : String :=
  match title.toList.reverse with
  | 's' :: 't' :: '.' :: stem => String.ofList stem.reverse
  | 's' :: 'j' :: '.' :: stem => String.ofList stem.reverse
  | _                         => title

/-- A file of the migrations directory and what its module exports. -/
structure MigrationFile where
  title     : String
  timestamp : Nat
  hasUp     : Bool
  hasDown   : Bool
deriving DecidableEq, Repr

namespace MigrationFile

def id (m : MigrationFile) : String := migrationId m.title

end MigrationFile

/-- `loadMigrationFiles` over the sorted directory: the first file of an
    identity wins, and a file without `up` is skipped. -/
def loadMigrationFiles : List MigrationFile → List String → List MigrationFile
  | [], _ => []
  | m :: files, seenIds =>
      if m.id ∈ seenIds then loadMigrationFiles files seenIds
      else if !m.hasUp then loadMigrationFiles files seenIds
      else m :: loadMigrationFiles files (m.id :: seenIds)

/-! ## The recorded state -/

/-- An entry of the recorded migrations. -/
structure Recorded where
  timestamp : Nat
  title     : String
deriving DecidableEq, Repr

def Recorded.id (m : Recorded) : String := migrationId m.title

/-- The one document of the state collection. -/
structure MigrationSet where
  lastRun    : Option String
  migrations : List Recorded
deriving DecidableEq, Repr

/-- `state.migrations || []`: a collection without a document loads as `{}`. -/
def migrationsOf (state : Option MigrationSet) : List Recorded :=
  (state.map MigrationSet.migrations).getD []

def idsOf (migrations : List Recorded) : List String := migrations.map Recorded.id

/-! ## Calls -/

/-- A read of the recorded migrations.  `readAt` is history: how often the
    state had been saved by then. -/
structure Snapshot where
  migrations : List Recorded
  readAt     : Nat
deriving DecidableEq, Repr

/-- Where a call of `up()` stands inside its lock. -/
inductive UpPhase where
  | start
  /-- before the body of the first pending migration -/
  | running (pending : List MigrationFile)
  /-- its body has run -/
  | applied (migration : MigrationFile) (rest : List MigrationFile)
  /-- the state is read again, to be saved with the migration -/
  | reread (migration : MigrationFile) (newState : Snapshot) (rest : List MigrationFile)
  | done
deriving DecidableEq, Repr

/-- A call of `up()`; the lock session of the same index runs it. -/
structure UpCall where
  strict : Bool
  phase  : UpPhase
deriving DecidableEq, Repr

/-- Where a call of `down()` stands. -/
inductive DownCall where
  | start
  /-- before the body of the migration to roll back -/
  | ready (migration : MigrationFile) (state : Snapshot)
  /-- its body has run -/
  | undone (migration : MigrationFile) (state : Snapshot)
  | done
deriving DecidableEq, Repr

/-- `runUp` after its first read: a strict runner throws for a recorded
    migration without a file, else what is not recorded is pending. -/
def planUp (files : List MigrationFile) (strict : Bool) (recorded : List Recorded) : UpPhase :=
  let allMigrations := loadMigrationFiles files []
  let missing := recorded.filter fun m => m.id ∉ allMigrations.map MigrationFile.id
  if strict && !missing.isEmpty then .done
  else .running (allMigrations.filter fun m => m.id ∉ idsOf recorded)

/-- `down` after its read: the last recorded migration, if it has a file with
    a `down` function. -/
def planDown (files : List MigrationFile) (state : Snapshot) : DownCall :=
  match state.migrations.getLast? with
  | none => .done
  | some lastMigration =>
      match (loadMigrationFiles files []).find? fun m => m.id = lastMigration.id with
      | none => .done
      | some m => if m.hasDown then .ready m state else .done

/-- What `runUp` saves after a body. -/
def recordUp (m : MigrationFile) (newState : List Recorded) : MigrationSet :=
  { lastRun := some m.title, migrations := newState ++ [⟨m.timestamp, m.title⟩] }

/-- What `down` saves after a body. -/
def recordDown (completed : List Recorded) : MigrationSet :=
  { lastRun := completed.dropLast.getLast?.map Recorded.title, migrations := completed.dropLast }

/-! ## The system -/

inductive Body where
  | up
  | down
deriving DecidableEq, Repr

structure State where
  lock  : MigrationLock.State
  store : Option MigrationSet
  /-- history: how often the state has been saved -/
  saves : Nat
  /-- history: the bodies that ran, the last one first -/
  ran   : List (String × Body)
  ups   : List UpCall
  downs : List DownCall
deriving DecidableEq, Repr

inductive Action where
  /-- a replica calls `up()`, and so `acquireLock` -/
  | up (strict : Bool) (token : String)
  /-- a step of the lock -/
  | lock (a : MigrationLock.Action)
  /-- the next step of a call of `up()` that holds the lock -/
  | runUp (i : Nat)
  /-- a replica calls `down()` -/
  | down
  /-- the next step of a call of `down()` -/
  | runDown (i : Nat)
deriving DecidableEq, Repr

/-- The state is replaced. -/
def State.save (s : State) (set : MigrationSet) : State :=
  { s with store := some set, saves := s.saves + 1 }

/-- A body runs to its end. -/
def State.execute (s : State) (id : String) (body : Body) : State :=
  { s with ran := (id, body) :: s.ran }

def State.snapshot (s : State) : Snapshot := ⟨migrationsOf s.store, s.saves⟩

def State.putUp (s : State) (i : Nat) (u : UpCall) (phase : UpPhase) : State :=
  { s with ups := s.ups.set i { u with phase } }

def State.putDown (s : State) (i : Nat) (d : DownCall) : State :=
  { s with downs := s.downs.set i d }

/-- The lock steps that the calls leave open: a call releases the lock when its
    work is done, and is not killed in between. -/
def State.lockStep (s : State) : MigrationLock.Action → Option State
  | .acquireLock _ => none
  | .finish i =>
      s.ups[i]?.bind fun u =>
        if u.phase = .done then
          (MigrationLock.step s.lock (.finish i)).map fun lock => { s with lock }
        else none
  | .fail i =>
      s.lock.sessions[i]?.bind fun x =>
        if x.phase = .holding then none
        else (MigrationLock.step s.lock (.fail i)).map fun lock => { s with lock }
  | a => (MigrationLock.step s.lock a).map fun lock => { s with lock }

/-- The next step of `runUp`. -/
def State.stepUp (files : List MigrationFile) (s : State) (i : Nat) (u : UpCall) : Option State :=
  match u.phase with
  | .start => some (s.putUp i u (planUp files u.strict (migrationsOf s.store)))
  | .running [] => some (s.putUp i u .done)
  | .running (m :: rest) => some ((s.execute m.id .up).putUp i u (.applied m rest))
  | .applied m rest => some (s.putUp i u (.reread m s.snapshot rest))
  | .reread m newState rest =>
      some ((s.save (recordUp m newState.migrations)).putUp i u (.running rest))
  | .done => none

/-- The next step of `down`. -/
def State.stepDown (files : List MigrationFile) (s : State) (i : Nat) : DownCall → Option State
  | .start => some (s.putDown i (planDown files s.snapshot))
  | .ready m state => some ((s.execute m.id .down).putDown i (.undone m state))
  | .undone _ state => some ((s.save (recordDown state.migrations)).putDown i .done)
  | .done => none

def step (files : List MigrationFile) (s : State) : Action → Option State
  | .up strict token =>
      (MigrationLock.step s.lock (.acquireLock token)).map fun lock =>
        { s with lock, ups := s.ups ++ [⟨strict, .start⟩] }
  | .lock a => s.lockStep a
  | .runUp i =>
      s.ups[i]?.bind fun u =>
        s.lock.sessions[i]?.bind fun x =>
          if x.phase = .holding then s.stepUp files i u else none
  | .down => some { s with downs := s.downs ++ [.start] }
  | .runDown i => s.downs[i]?.bind fun d => s.stepDown files i d

/-! ## The property -/

/-- The last body of the migration that ran was `up()`. -/
def AppliedBy (ran : List (String × Body)) (id : String) : Prop :=
  (ran.find? fun e => e.1 = id).map Prod.snd = some .up

instance (ran : List (String × Body)) (id : String) : Decidable (AppliedBy ran id) :=
  inferInstanceAs (Decidable ((ran.find? fun e => e.1 = id).map Prod.snd = some .up))

/-- No `up()` ran while its migration was applied. -/
def NeverReapplied : List (String × Body) → Prop
  | []               => True
  | (id, .up) :: ran => ¬ AppliedBy ran id ∧ NeverReapplied ran
  | _ :: ran         => NeverReapplied ran

def State.recordedIds (s : State) : List String := idsOf (migrationsOf s.store)

/-- Every call has returned or thrown. -/
def State.Quiescent (s : State) : Prop :=
  (∀ x ∈ s.lock.sessions, x.phase = .finished ∨ x.phase = .failed) ∧ ∀ d ∈ s.downs, d = .done

instance : DecidablePred State.Quiescent := fun s =>
  inferInstanceAs (Decidable ((∀ x ∈ s.lock.sessions, x.phase = .finished ∨ x.phase = .failed) ∧
    ∀ d ∈ s.downs, d = .done))

/-- The recorded identities are those whose last body was `up()`. -/
def State.Agrees (s : State) : Prop :=
  ∀ id, id ∈ s.recordedIds ↔ AppliedBy s.ran id

structure State.Consistent (s : State) : Prop where
  agrees : s.Quiescent → s.Agrees
  nodup  : s.recordedIds.Nodup
  once   : NeverReapplied s.ran

/-- Before the first call: the record agrees with what ran so far. -/
structure Start (s : State) : Prop where
  lock   : MigrationLock.Start s.lock
  ups    : s.ups = []
  downs  : s.downs = []
  agrees : s.Agrees
  nodup  : s.recordedIds.Nodup
  once   : NeverReapplied s.ran

/-- The read from which the step computes what it saves. -/
def State.savedFrom (s : State) : Action → Option Snapshot
  | .runUp i =>
      match s.ups[i]? with
      | some ⟨_, .reread _ newState _⟩ => some newState
      | _ => none
  | .runDown i =>
      match s.downs[i]? with
      | some (.undone _ state) => some state
      | _ => none
  | _ => none

/-- No other call has saved the state since the read from which this step
    computes its save. -/
def SavesCurrent (s : State) (e : Action) : Prop :=
  ∀ snapshot, s.savedFrom e = some snapshot → snapshot.readAt = s.saves

/-- The lock excludes, as it does while its holders refresh it in time, and no
    save is computed from an old read. -/
def Synchronized (s : State) (e : Action) : Prop :=
  s.lock.Exclusive ∧ SavesCurrent s e

instance (s : State) (e : Action) : Decidable (SavesCurrent s e) :=
  match h : s.savedFrom e with
  | none          => isTrue fun _ hsn => by rw [h] at hsn; cases hsn
  | some snapshot =>
      if heq : snapshot.readAt = s.saves then
        isTrue fun sn hsn => by rw [h] at hsn; exact Option.some.inj hsn ▸ heq
      else isFalse fun hc => heq (hc snapshot h)

instance (s : State) (e : Action) : Decidable (Synchronized s e) :=
  inferInstanceAs (Decidable (s.lock.Exclusive ∧ SavesCurrent s e))

end MigrationRunner
