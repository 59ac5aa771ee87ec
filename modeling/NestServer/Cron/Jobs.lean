import NestServer.Runs

/-! # Cron jobs of many replicas

    `core-cron-jobs.service.ts`: timers and BullMQ schedulers, and the leases that a tick
    has to win before it runs.  Times are in milliseconds. -/

namespace Cron

/-! ## Jobs -/

/-- `runParallel` -/
inductive RunParallel where
  | no
  | unlimited
  | upTo (n : Int)
deriving DecidableEq

inductive Registered where
  | timer (distributed : Bool)
  /-- a BullMQ scheduler, and a stopped timer in the registry -/
  | bull
deriving DecidableEq

structure Job where
  registered  : Registered
  runParallel : RunParallel := .no

/-- Replicas run the same application. -/
structure Fleet where
  pid  : Nat → Nat
  jobs : String → Option Job

/-- Whether `dates.length` running ones leave no room. -/
def RunParallel.blocks (runParallel : RunParallel) (running : Nat) : Bool :=
  running ≠ 0 && match runParallel with
    | .no        => true
    | .unlimited => false
    | .upTo n    => n = 0 || n ≤ running

/-! ## Leases -/

/-- `Date | 'init' | 'manual'` -/
inductive FireTime where
  | date (time : Int)
  | init
  | manual

inductive LeaseKey where
  | init (name : String)
  | manual (name : String) (now : Int) (pid : Nat)
  | tick (name : String) (second : Int)
deriving DecidableEq

/-- `Math.floor(fireTime.getTime() / 1000)` -/
def secondOf (time : Int) : Int := time / 1000

def leaseKey (name : String) (now : Int) (pid : Nat) : FireTime → LeaseKey
  | .manual    => .manual name now pid
  | .init      => .init name
  | .date time => .tick name (secondOf time)

/-! ## Ticks -/

inductive Cause where
  | scheduled (time : Int)
  | startup
  | manual
deriving DecidableEq

inductive Phase where
  /-- waits for its lease -/
  | asked
  | granted
  | ran
  | finished
  /-- another tick has the lease -/
  | refused
  /-- the job is running already -/
  | skipped
deriving DecidableEq

structure Tick where
  replica : Nat
  name    : String
  cause   : Cause
  key     : Option LeaseKey
  /-- the job was not running on this replica -/
  alone   : Bool
  phase   : Phase
deriving DecidableEq

structure State where
  lastDate   : Nat → String → Option Int := fun _ _ => none
  /-- `lastLeasedFireTime` -/
  lastLeased : Nat → String → Option Int := fun _ _ => none
  /-- how many are in `runningJobs` -/
  running    : Nat → String → Nat := fun _ _ => 0
  leases     : List LeaseKey := []
  /-- leases that are over -/
  expired    : List LeaseKey := []
  ticks      : List Tick := []
  /-- the ticks that started the body of a job, in order -/
  starts     : List Nat := []
  /-- what BullMQ has delivered -/
  delivered  : List (String × Int) := []

/-- A field of a replica and a job. -/
def put {α : Type} (f : Nat → String → α) (replica : Nat) (name : String) (a : α) : Nat → String →
    α :=
  fun r n => if r = replica ∧ n = name then a else f r n

def State.setPhase (s : State) (i : Nat) (tick : Tick) (phase : Phase) : State :=
  { s with ticks := s.ticks.set i { tick with phase := phase } }

variable (fleet : Fleet)

/-- `runTick`, up to the call of the job. -/
def runTick (s : State) (i : Nat) (tick : Tick) : State :=
  match fleet.jobs tick.name with
  | none     => s.setPhase i tick .skipped
  | some job =>
      if job.runParallel.blocks (s.running tick.replica tick.name) then s.setPhase i tick .skipped
      else { s.setPhase i tick .ran with
        running := put s.running tick.replica tick.name (s.running tick.replica tick.name + 1)
        starts  := s.starts ++ [i] }

/-- A tick that comes up. -/
def State.tick (s : State) (replica : Nat) (name : String) (cause : Cause) (key : Option LeaseKey)
    (phase : Phase) : Tick :=
  { replica := replica, name := name, cause := cause, key := key,
    alone := s.running replica name = 0, phase := phase }

/-- `runDistributedTick`, up to the answer on the lease. -/
def runDistributedTick (s : State) (replica : Nat) (name : String) (cause : Cause) (now : Int)
    (fireTime : FireTime) : State :=
  { s with ticks := s.ticks ++
    [s.tick replica name cause (some (leaseKey name now (fleet.pid replica) fireTime)) .asked] }

/-- A tick without a lease. -/
def runDirectly (s : State) (replica : Nat) (name : String) (cause : Cause) : State :=
  let tick := s.tick replica name cause none .granted
  runTick fleet { s with ticks := s.ticks ++ [tick] } s.ticks.length tick

/-- What a timer calls. -/
def onTick (s : State) (replica : Nat) (name : String) (distributed : Bool) (cause : Cause)
    (now : Int) :
    State :=
  if distributed then
    match s.lastDate replica name with
    | none           => runDistributedTick fleet s replica name cause now .init
    | some scheduled =>
        if s.lastLeased replica name = some scheduled then
          runDistributedTick fleet s replica name cause now .manual
        else
          runDistributedTick fleet
            { s with lastLeased := put s.lastLeased replica name (some scheduled) }
            replica name cause now (.date scheduled)
  else runDirectly fleet s replica name cause

/-! ## Events -/

inductive Event where
  /-- a timer of a replica -/
  | fires (replica : Nat) (name : String) (time : Int)
  /-- the worker of a replica gets a job of the queue -/
  | delivers (replica : Nat) (name : String) (time : Int)
  /-- `runOnInit` -/
  | startup (replica : Nat) (name : String) (now : Int)
  /-- `fireOnTick` of the registered job -/
  | triggers (replica : Nat) (name : String) (now : Int)
  /-- the lease of a tick is granted, or refused -/
  | leases (i : Nat)
  | runs (i : Nat)
  | finishes (i : Nat)
  | expires (key : LeaseKey)
deriving DecidableEq

def step (s : State) : Event → Option State
  | .fires replica name time =>
      match (fleet.jobs name).map Job.registered with
      | some (.timer distributed) =>
          -- the next instant of the schedule
          if (s.lastDate replica name).all fun last => last < time then
            some (onTick fleet { s with lastDate := put s.lastDate replica name (some time) }
              replica name distributed (.scheduled time) time)
          else none
      | _                         => none
  | .delivers replica name time =>
      match (fleet.jobs name).map Job.registered with
      | some .bull =>
          -- each instant once
          if (name, secondOf time) ∉ s.delivered then
            some (runDirectly fleet { s with delivered := s.delivered ++ [(name, secondOf time)] }
              replica name (.scheduled time))
          else none
      | _          => none
  | .startup replica name now =>
      match (fleet.jobs name).map Job.registered with
      | some (.timer true)  => some (runDistributedTick fleet s replica name .startup now .init)
      | some (.timer false) => some (runDirectly fleet s replica name .startup)
      | some .bull          => some (runDistributedTick fleet s replica name .startup now .init)
      | none                => none
  | .triggers replica name now =>
      match (fleet.jobs name).map Job.registered with
      | some (.timer distributed) => some (onTick fleet s replica name distributed .manual now)
      | some .bull                =>
          some (runDistributedTick fleet s replica name .manual now .init)
      | none                      => none
  | .leases i =>
      match s.ticks[i]? with
      | some tick =>
          match tick.phase, tick.key with
          | .asked, some key =>
              if key ∈ s.leases then some (s.setPhase i tick .refused)
              else some { s.setPhase i tick .granted with leases := key :: s.leases }
          | _, _             => none
      | none      => none
  | .runs i =>
      match s.ticks[i]? with
      | some tick => if tick.phase = .granted then some (runTick fleet s i tick) else none
      | none      => none
  | .finishes i =>
      match s.ticks[i]? with
      | some tick =>
          if tick.phase = .ran then
            some { s.setPhase i tick .finished with
              running := put s.running tick.replica tick.name
                (s.running tick.replica tick.name - 1) }
          else none
      | none      => none
  | .expires key =>
      some { s with leases := s.leases.filter fun k => k ≠ key, expired := key :: s.expired }

end Cron
