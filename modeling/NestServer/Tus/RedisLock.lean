import Mathlib.Data.Rat.Defs
import Mathlib.Logic.Function.Basic
import NestServer.Runs

/-! # The upload lock

    `tus-redis-locker.ts`: lock objects of any replicas over one Redis.  A key may vanish
    at any time; a command takes any time to arrive, and may never do. -/

namespace Tus

/-! ## Lock objects -/

/-- `TusRedisLock` -/
structure LockObject where
  key       : String
  /-- the acquisition that is held -/
  token     : Option Nat := none
  heartbeat : Option Nat := none
  /-- the intervals that are not cleared -/
  timers    : List Nat := []
deriving DecidableEq

inductive Phase where
  | trying
  /-- the key is set, and `lock` has not returned -/
  | won
  | returned
  | failed
deriving DecidableEq

/-- A call of `lock`: its place among all calls is its token. -/
structure Attempt where
  object : Nat
  phase  : Phase
deriving DecidableEq

/-- What is at a key. -/
structure Entry where
  token    : Nat
  deadline : ℚ
deriving DecidableEq

/-- The two scripts: both compare the token first. -/
inductive Script where
  | release
  | extend
deriving DecidableEq

structure Command where
  object : Nat
  key    : String
  token  : Nat
  script : Script
deriving DecidableEq

structure State where
  db       : String → Option Entry := fun _ => none
  objects  : List LockObject := []
  attempts : List Attempt := []
  sent     : List Command := []
  /-- the acquisitions whose key has vanished -/
  lost     : List Nat := []

/-! ## Steps -/

/-- `startHeartbeat` -/
def LockObject.startHeartbeat (object : LockObject) (handle : Nat) : LockObject :=
  { object with heartbeat := some handle, timers := handle :: object.timers }

/-- `stopHeartbeat` -/
def LockObject.stopHeartbeat (object : LockObject) : LockObject :=
  match object.heartbeat with
  | none        => object
  | some handle => { object with heartbeat := none, timers := object.timers.erase handle }

namespace State

variable (s : State)

def setPhase (i : Nat) (attempt : Attempt) (phase : Phase) : State :=
  { s with attempts := s.attempts.set i { attempt with phase := phase } }

/-- A script in Redis. -/
def eval (ttlMs now : ℚ) (command : Command) : State :=
  match s.db command.key with
  | none       => s
  | some entry =>
      if entry.token = command.token then
        match command.script with
        | .release => { s with db := Function.update s.db command.key none }
        | .extend  =>
            { s with db := Function.update s.db command.key (some { entry with deadline := now + ttlMs }) }
      else s

end State

inductive Event where
  | newLock (key : String)
  | lock (object : Nat)
  /-- `SET key token PX ttl NX` -/
  | set (attempt : Nat) (now : ℚ)
  /-- aborted, or too late -/
  | fails (attempt : Nat)
  | returns (attempt : Nat)
  | beats (object : Nat) (handle : Nat)
  | unlock (object : Nat)
  | arrives (j : Nat) (now : ℚ)
  | drops (j : Nat)
  /-- its time is over, or it is evicted -/
  | vanishes (key : String)
deriving DecidableEq

def step (ttlMs : ℚ) (s : State) : Event → Option State
  | .newLock key      => some { s with objects := s.objects ++ [{ key := key }] }
  | .lock o           =>
      s.objects[o]?.map fun _ =>
        { s with attempts := s.attempts ++ [{ object := o, phase := .trying }] }
  | .set i now        =>
      match s.attempts[i]? with
      | some attempt =>
          match attempt.phase, s.objects[attempt.object]? with
          | .trying, some object =>
              match s.db object.key with
              | none   => some { s.setPhase i attempt .won with
                  db := Function.update s.db object.key
                    (some { token := i, deadline := now + ttlMs }) }
              | some _ => some s
          | _, _                 => none
      | none         => none
  | .fails i          =>
      match s.attempts[i]? with
      | some attempt => if attempt.phase = .trying then some (s.setPhase i attempt .failed)
          else none
      | none         => none
  | .returns i        =>
      match s.attempts[i]? with
      | some attempt =>
          match attempt.phase, s.objects[attempt.object]? with
          | .won, some object => some { s.setPhase i attempt .returned with
              objects := s.objects.set attempt.object { object.startHeartbeat i with
                token := some i } }
          | _, _              => none
      | none         => none
  | .beats o handle   =>
      match s.objects[o]? with
      | some object =>
          if handle ∈ object.timers then
            match object.token with
            | none   => some s
            | some i => some { s with sent := s.sent ++ [⟨o, object.key, i, .extend⟩] }
          else none
      | none        => none
  | .unlock o         =>
      match s.objects[o]? with
      | some object =>
          let stopped := { s with
            objects := s.objects.set o { object.stopHeartbeat with token := none } }
          match object.token with
          | none   => some stopped
          | some i => some { stopped with sent := s.sent ++ [⟨o, object.key, i, .release⟩] }
      | none        => none
  | .arrives j now    =>
      s.sent[j]?.map fun command => { s.eval ttlMs now command with sent := s.sent.eraseIdx j }
  | .drops j          => s.sent[j]?.map fun _ => { s with sent := s.sent.eraseIdx j }
  | .vanishes key     =>
      (s.db key).map fun entry =>
        { s with db := Function.update s.db key none, lost := entry.token :: s.lost }

/-! ## What is safe -/

/-- **Safety.** What holds in every state. -/
structure Safe (ttlMs : ℚ) (s : State) : Prop where
  /-- a script touches no key but that of the acquisition that sent it, and only while it is there
  -/
  scripts   : ∀ (j : Nat) now command t, s.sent[j]? = some command →
    step ttlMs s (.arrives j now) = some t →
    ∀ key, t.db key ≠ s.db key → (∃ entry, s.db key = some entry ∧ entry.token = command.token) ∧
      (∃ attempt, s.attempts[command.token]? = some attempt ∧ attempt.object = command.object) ∧
      command.token ∉ s.lost
  /-- no two objects have one upload, unless a key has vanished -/
  exclusive : ∀ (o o' : Nat) (object object' : LockObject) i i', s.objects[o]? = some object →
    s.objects[o']? = some object' → object.key = object'.key → object.token = some i →
    object'.token = some i' → i ∉ s.lost → i' ∉ s.lost → o = o'

/-! ## The invariant -/

structure Good (s : State) : Prop where
  held     : ∀ (o : Nat) (object : LockObject) i, s.objects[o]? = some object →
    object.token = some i →
    s.attempts[i]? = some { object := o, phase := .returned }
  sent     : ∀ command ∈ s.sent,
    s.attempts[command.token]? = some { object := command.object, phase := .returned } ∧
    (command.script = .release → ∀ object, s.objects[command.object]? = some object →
      object.token ≠ some command.token)
  /-- the attempts are of objects that are there -/
  attempts : ∀ (i : Nat) (attempt : Attempt), s.attempts[i]? = some attempt →
    attempt.object < s.objects.length
  lost     : ∀ i ∈ s.lost, ∃ attempt, s.attempts[i]? = some attempt ∧ attempt.phase ≠ .trying
  /-- a key has the token of an acquisition of its own -/
  db       : ∀ key entry, s.db key = some entry → entry.token ∉ s.lost ∧ ∃ attempt object,
    s.attempts[entry.token]? = some attempt ∧ s.objects[attempt.object]? = some object ∧
    object.key = key ∧ (attempt.phase = .won ∨ attempt.phase = .returned)
  /-- whoever has won, and has not let go, has the key until it vanishes -/
  keeps    : ∀ (i : Nat) (attempt : Attempt) (object : LockObject), s.attempts[i]? = some attempt →
    s.objects[attempt.object]? = some object → (attempt.phase = .won ∨ object.token = some i) →
    i ∉ s.lost →
    ∃ entry, s.db object.key = some entry ∧ entry.token = i

theorem Good.exclusive {s : State} (h : Good s) {o o' : Nat} {object object' : LockObject}
    {i i' : Nat}
    (ho : s.objects[o]? = some object) (ho' : s.objects[o']? = some object')
      (hkey : object.key = object'.key)
    (hi : object.token = some i) (hi' : object'.token = some i') (hlost : i ∉ s.lost)
      (hlost' : i' ∉ s.lost) :
    o = o' := by
  have hattempt := h.held o object i ho hi
  have hattempt' := h.held o' object' i' ho' hi'
  obtain ⟨entry, hentry, rfl⟩ := h.keeps i _ object hattempt ho (Or.inr hi) hlost
  obtain ⟨entry', hentry', rfl⟩ := h.keeps i' _ object' hattempt' ho' (Or.inr hi') hlost'
  rw [hkey, hentry'] at hentry
  cases hentry
  rw [hattempt] at hattempt'
  cases hattempt'
  rfl

/-! ## One step -/

variable {s : State}

theorem good_newLock (h : Good s) (key : String) :
    Good { s with objects := s.objects ++ [{ key := key }] } := by
  refine ⟨?_, ?_, ?_, h.lost, ?_, ?_⟩
  · intro o object i hobject htoken
    rcases Runs.getElem?_append_cases hobject with hold | ⟨_, rfl⟩
    · exact h.held o object i hold htoken
    · cases htoken
  · intro command hcommand
    refine ⟨(h.sent command hcommand).1, fun hrelease object hobject => ?_⟩
    rcases Runs.getElem?_append_cases hobject with hold | ⟨_, rfl⟩
    · exact (h.sent command hcommand).2 hrelease object hold
    · rintro ⟨⟩
  · intro i attempt hattempt
    rw [List.length_append]
    exact Nat.lt_add_right _ (h.attempts i attempt hattempt)
  · intro key' entry hentry
    obtain ⟨hlost, attempt, object, hattempt, hobject, hkey, hphase⟩ := h.db key' entry hentry
    refine ⟨hlost, attempt, object, hattempt, ?_, hkey, hphase⟩
    exact (List.getElem?_append_left (h.attempts _ attempt hattempt)).trans hobject
  · intro i attempt object hattempt hobject
    have hold : s.objects[attempt.object]? = some object :=
      (List.getElem?_append_left (h.attempts i attempt hattempt)).symm.trans hobject
    exact h.keeps i attempt object hattempt hold

theorem good_lock (h : Good s) {o : Nat} (ho : o < s.objects.length) :
    Good { s with attempts := s.attempts ++ [{ object := o, phase := .trying }] } := by
  have hold : ∀ (i : Nat) (attempt : Attempt), s.attempts[i]? = some attempt →
      (s.attempts ++ [{ object := o, phase := .trying }])[i]? = some attempt :=
        fun i attempt hattempt =>
    (List.getElem?_append_left (List.getElem?_eq_some_iff.mp hattempt).1).trans hattempt
  refine ⟨?_, ?_, ?_, ?_, ?_, ?_⟩
  · exact fun o object i hobject htoken => hold _ _ (h.held o object i hobject htoken)
  · exact fun command hcommand =>
      ⟨hold _ _ (h.sent command hcommand).1, (h.sent command hcommand).2⟩
  · intro i attempt hattempt
    rcases Runs.getElem?_append_cases hattempt with hattempt | ⟨_, rfl⟩
    · exact h.attempts i attempt hattempt
    · exact ho
  · intro i hi
    obtain ⟨attempt, hattempt, hphase⟩ := h.lost i hi
    exact ⟨attempt, hold _ _ hattempt, hphase⟩
  · intro key entry hentry
    obtain ⟨hlost, attempt, object, hattempt, hrest⟩ := h.db key entry hentry
    exact ⟨hlost, attempt, object, hold _ _ hattempt, hrest⟩
  · intro i attempt object hattempt hobject hwon hlost
    rcases Runs.getElem?_append_cases hattempt with hattempt | ⟨rfl, rfl⟩
    · exact h.keeps i attempt object hattempt hobject hwon hlost
    · rcases hwon with hwon | htoken
      · cases hwon
      · have hheld := h.held o object _ hobject htoken
        exact absurd (List.getElem?_eq_some_iff.mp hheld).1 (Nat.lt_irrefl _)

/-- An attempt that goes on leaves the others alone. -/
theorem attempts_set {i : Nat} {attempt : Attempt} (hattempt : s.attempts[i]? = some attempt)
    (phase : Phase)
    {j : Nat} {other : Attempt} (hother : s.attempts[j]? = some other)
      (hne : other.phase ≠ attempt.phase) :
    (s.setPhase i attempt phase).attempts[j]? = some other := by
  have hj : i ≠ j := by
    rintro rfl
    rw [hattempt] at hother
    cases hother
    exact hne rfl
  exact (List.getElem?_set_ne hj).trans hother

/-- An acquisition that has a key is past its attempt. -/
theorem ne_trying {phase : Phase} (h : phase = .won ∨ phase = .returned) : phase ≠ .trying := by
  rcases h with rfl | rfl
  · rintro ⟨⟩
  · rintro ⟨⟩

/-- An object that changes keeps its key. -/
theorem objects_set {o : Nat} {object changed : LockObject} (hobject : s.objects[o]? = some object)
    (hkey : changed.key = object.key) {o' : Nat} {other : LockObject}
      (hother : s.objects[o']? = some other) :
    ∃ other', (s.objects.set o changed)[o']? = some other' ∧ other'.key = other.key := by
  by_cases hsame : o' = o
  · subst hsame
    rw [hobject] at hother
    cases hother
    exact ⟨changed, List.getElem?_set_self (List.getElem?_eq_some_iff.mp hobject).1, hkey⟩
  · exact ⟨other, (List.getElem?_set_ne (Ne.symm hsame)).trans hother, rfl⟩

theorem good_fails (h : Good s) {i : Nat} {attempt : Attempt}
    (hattempt : s.attempts[i]? = some attempt)
    (hphase : attempt.phase = .trying) : Good (s.setPhase i attempt .failed) := by
  have hold : ∀ (j : Nat) (other : Attempt), s.attempts[j]? = some other → other.phase ≠ .trying →
      (s.setPhase i attempt .failed).attempts[j]? = some other := fun j other hother hne =>
    attempts_set hattempt .failed hother (hphase ▸ hne)
  refine ⟨?_, ?_, ?_, ?_, ?_, ?_⟩
  · exact fun o object j hobject htoken =>
      hold _ _ (h.held o object j hobject htoken) (by rintro ⟨⟩)
  · exact fun command hcommand =>
      ⟨hold _ _ (h.sent command hcommand).1 (by rintro ⟨⟩), (h.sent command hcommand).2⟩
  · intro j other hother
    rcases Runs.getElem?_set_cases hother with ⟨_, rfl⟩ | ⟨_, hother⟩
    · exact h.attempts i attempt hattempt
    · exact h.attempts j other hother
  · intro j hj
    obtain ⟨other, hother, hne⟩ := h.lost j hj
    exact ⟨other, hold _ _ hother hne, hne⟩
  · intro key entry hentry
    obtain ⟨hlost, other, object, hother, hobject, hkey, hphase'⟩ := h.db key entry hentry
    exact ⟨hlost, other, object, hold _ _ hother (ne_trying hphase'), hobject, hkey, hphase'⟩
  · intro j other object hother hobject hwon hlost
    rcases Runs.getElem?_set_cases hother with ⟨rfl, rfl⟩ | ⟨_, hother⟩
    · rcases hwon with hwon | htoken
      · cases hwon
      · have hheld := h.held _ object j hobject htoken
        rw [hattempt] at hheld
        have hreturned := congrArg Attempt.phase (Option.some.inj hheld)
        rw [hphase] at hreturned
        cases hreturned
    · exact h.keeps j other object hother hobject hwon hlost

/-- The key was free: it is of this acquisition now. -/
theorem good_set (h : Good s) {i : Nat} {attempt : Attempt}
    (hattempt : s.attempts[i]? = some attempt)
    (hphase : attempt.phase = .trying) {object : LockObject}
      (hobject : s.objects[attempt.object]? = some object)
    (hfree : s.db object.key = none) (deadline : ℚ) :
    Good { s.setPhase i attempt .won with
      db := Function.update s.db object.key (some { token := i, deadline := deadline }) } := by
  have hself : (s.setPhase i attempt .won).attempts[i]? = some { attempt with phase := .won } :=
    List.getElem?_set_self (List.getElem?_eq_some_iff.mp hattempt).1
  have hold : ∀ (j : Nat) (other : Attempt), s.attempts[j]? = some other → other.phase ≠ .trying →
      (s.setPhase i attempt .won).attempts[j]? = some other := fun j other hother hne =>
    attempts_set hattempt .won hother (hphase ▸ hne)
  have hnew : i ∉ s.lost := by
    intro hi
    obtain ⟨other, hother, hne⟩ := h.lost i hi
    rw [hattempt] at hother
    cases hother
    exact hne hphase
  refine ⟨?_, ?_, ?_, ?_, ?_, ?_⟩
  · exact fun o other j hother htoken => hold _ _ (h.held o other j hother htoken) (by rintro ⟨⟩)
  · exact fun command hcommand =>
      ⟨hold _ _ (h.sent command hcommand).1 (by rintro ⟨⟩), (h.sent command hcommand).2⟩
  · intro j other hother
    rcases Runs.getElem?_set_cases hother with ⟨_, rfl⟩ | ⟨_, hother⟩
    · exact h.attempts i attempt hattempt
    · exact h.attempts j other hother
  · intro j hj
    obtain ⟨other, hother, hne⟩ := h.lost j hj
    exact ⟨other, hold _ _ hother hne, hne⟩
  · intro key entry hentry
    by_cases hkey : key = object.key
    · subst hkey
      dsimp only at hentry
      rw [Function.update_self] at hentry
      cases hentry
      exact ⟨hnew, _, object, hself, hobject, rfl, Or.inl rfl⟩
    · dsimp only at hentry
      rw [Function.update_of_ne hkey] at hentry
      obtain ⟨hlost, other, object', hother, hobject', hkey', hphase'⟩ := h.db key entry hentry
      exact ⟨hlost, other, object', hold _ _ hother (ne_trying hphase'), hobject', hkey', hphase'⟩
  · intro j other object' hother hobject' hwon hlost
    rcases Runs.getElem?_set_cases hother with ⟨rfl, rfl⟩ | ⟨_, hother⟩
    · change s.objects[attempt.object]? = some object' at hobject'
      rw [hobject] at hobject'
      cases hobject'
      exact ⟨_, Function.update_self .., rfl⟩
    · obtain ⟨entry, hentry, htoken⟩ := h.keeps j other object' hother hobject' hwon hlost
      refine ⟨entry, ?_, htoken⟩
      dsimp only
      rw [Function.update_of_ne]
      · exact hentry
      · intro hkey
        rw [hkey, hfree] at hentry
        cases hentry

/-- `lock` returns: its object has the token that it has won. -/
theorem good_returns (h : Good s) {i : Nat} {attempt : Attempt}
    (hattempt : s.attempts[i]? = some attempt)
    (hphase : attempt.phase = .won) {object : LockObject}
      (hobject : s.objects[attempt.object]? = some object)
    {changed : LockObject} (hkey : changed.key = object.key) (htoken : changed.token = some i) :
    Good { s.setPhase i attempt .returned with
      objects := s.objects.set attempt.object changed } := by
  have hself : (s.setPhase i attempt .returned).attempts[i]? =
      some { object := attempt.object, phase := .returned } :=
    List.getElem?_set_self (List.getElem?_eq_some_iff.mp hattempt).1
  have hold : ∀ (j : Nat) (other : Attempt), s.attempts[j]? = some other → other.phase ≠ .won →
      (s.setPhase i attempt .returned).attempts[j]? = some other := fun j other hother hne =>
    attempts_set hattempt .returned hother (hphase ▸ hne)
  refine ⟨?_, ?_, ?_, ?_, ?_, ?_⟩
  · intro o other j hother hj
    rcases Runs.getElem?_set_cases hother with ⟨rfl, rfl⟩ | ⟨_, hother⟩
    · rw [htoken] at hj
      cases hj
      exact hself
    · exact hold _ _ (h.held o other j hother hj) (by rintro ⟨⟩)
  · intro command hcommand
    obtain ⟨hreturned, hrelease⟩ := h.sent command hcommand
    refine ⟨hold _ _ hreturned (by rintro ⟨⟩), fun hscript other hother => ?_⟩
    rcases Runs.getElem?_set_cases hother with ⟨_, rfl⟩ | ⟨_, hother⟩
    · -- what was sent is of another acquisition
      rw [htoken]
      rintro ⟨⟩
      rw [hattempt] at hreturned
      have hwas := congrArg Attempt.phase (Option.some.inj hreturned)
      rw [hphase] at hwas
      cases hwas
    · exact hrelease hscript other hother
  · intro j other hother
    show other.object < (s.objects.set attempt.object changed).length
    rw [List.length_set]
    rcases Runs.getElem?_set_cases hother with ⟨_, rfl⟩ | ⟨_, hother⟩
    · exact h.attempts i attempt hattempt
    · exact h.attempts j other hother
  · intro j hj
    obtain ⟨other, hother, hne⟩ := h.lost j hj
    by_cases hsame : j = i
    · subst hsame
      exact ⟨_, hself, by rintro ⟨⟩⟩
    · exact ⟨other, (List.getElem?_set_ne (Ne.symm hsame)).trans hother, hne⟩
  · intro key entry hentry
    obtain ⟨hlost, other, object', hother, hobject', hkey', hphase'⟩ := h.db key entry hentry
    obtain ⟨object'', hthere, hsamekey⟩ := objects_set hobject hkey hobject'
    have hkey'' : object''.key = key := hsamekey.trans hkey'
    by_cases hsame : entry.token = i
    · rw [hsame, hattempt] at hother
      cases hother
      refine ⟨hlost, { object := attempt.object, phase := .returned }, object'', ?_, hthere, hkey'',
        Or.inr rfl⟩
      rw [hsame]
      exact hself
    · exact ⟨hlost, other, object'', (List.getElem?_set_ne (Ne.symm hsame)).trans hother, hthere,
        hkey'', hphase'⟩
  · intro j other object' hother hobject' hwon hlost
    rcases Runs.getElem?_set_cases hother with ⟨rfl, rfl⟩ | ⟨hj, hbefore⟩
    · rcases Runs.getElem?_set_cases hobject' with ⟨_, rfl⟩ | ⟨hne, _⟩
      · rw [hkey]
        exact h.keeps _ attempt object hattempt hobject (Or.inl hphase) hlost
      · exact absurd rfl hne
    · rcases Runs.getElem?_set_cases hobject' with ⟨hsame, hchanged⟩ | ⟨_, hobject'⟩
      · subst hchanged
        rw [hkey]
        refine h.keeps j other object hbefore (hsame ▸ hobject) (hwon.imp_right fun hj' => ?_) hlost
        rw [htoken] at hj'
        exact absurd (Option.some.inj hj').symm hj
      · exact h.keeps j other object' hbefore hobject' hwon hlost

theorem good_sent (h : Good s) {command : Command}
    (hattempt : s.attempts[command.token]? = some { object := command.object, phase := .returned })
    (hrelease : command.script = .release → ∀ object, s.objects[command.object]? = some object →
      object.token ≠ some command.token) : Good { s with sent := s.sent ++ [command] } := by
  refine ⟨h.held, ?_, h.attempts, h.lost, h.db, h.keeps⟩
  intro other hother
  rcases List.mem_append.mp hother with hother | hother
  · exact h.sent other hother
  · rw [List.mem_singleton.mp hother]
    exact ⟨hattempt, hrelease⟩

/-- An object that lets go. -/
theorem good_stopped (h : Good s) {o : Nat} {object : LockObject}
    (hobject : s.objects[o]? = some object)
    {changed : LockObject} (hkey : changed.key = object.key) (htoken : changed.token = none) :
    Good { s with objects := s.objects.set o changed } := by
  refine ⟨?_, ?_, ?_, h.lost, ?_, ?_⟩
  · intro o' other i hother hi
    rcases Runs.getElem?_set_cases hother with ⟨_, rfl⟩ | ⟨_, hother⟩
    · rw [htoken] at hi
      cases hi
    · exact h.held o' other i hother hi
  · intro command hcommand
    refine ⟨(h.sent command hcommand).1, fun hscript other hother => ?_⟩
    rcases Runs.getElem?_set_cases hother with ⟨_, rfl⟩ | ⟨_, hother⟩
    · rw [htoken]
      rintro ⟨⟩
    · exact (h.sent command hcommand).2 hscript other hother
  · intro i attempt hattempt
    rw [List.length_set]
    exact h.attempts i attempt hattempt
  · intro key entry hentry
    obtain ⟨hlost, attempt, object', hattempt, hobject', hkey', hphase⟩ := h.db key entry hentry
    obtain ⟨object'', hthere, hsamekey⟩ := objects_set hobject hkey hobject'
    exact ⟨hlost, attempt, object'', hattempt, hthere, hsamekey.trans hkey', hphase⟩
  · intro i attempt object' hattempt hobject' hwon hlost
    rcases Runs.getElem?_set_cases hobject' with ⟨hsame, rfl⟩ | ⟨_, hobject'⟩
    · rw [hkey]
      refine h.keeps i attempt object hattempt (hsame ▸ hobject) (hwon.imp_right fun hi => ?_) hlost
      rw [htoken] at hi
      cases hi
    · exact h.keeps i attempt object' hattempt hobject' hwon hlost

/-- What a script does: nothing, or something to the key of the acquisition that sent it. -/
theorem eval_cases (s : State) (ttlMs now : ℚ) (command : Command) :
    s.eval ttlMs now command = s ∨ ∃ entry, s.db command.key = some entry ∧
      entry.token = command.token ∧
      ∃ value : Option Entry, s.eval ttlMs now command =
        { s with db := Function.update s.db command.key value } ∧
        (value = none ∧ command.script = .release ∨ ∃ entry', value = some entry' ∧
          entry'.token = command.token) := by
  rw [State.eval]
  cases hentry : s.db command.key with
  | none => exact Or.inl rfl
  | some entry =>
      dsimp only
      by_cases htoken : entry.token = command.token
      · rw [if_pos htoken]
        refine Or.inr ⟨entry, rfl, htoken, ?_⟩
        cases hscript : command.script with
        | release => exact ⟨none, rfl, Or.inl ⟨rfl, rfl⟩⟩
        | extend => exact ⟨_, rfl, Or.inr ⟨_, rfl, htoken⟩⟩
      · rw [if_neg htoken]
        exact Or.inl rfl

theorem good_eval (h : Good s) (ttlMs now : ℚ) {command : Command} (hcommand : command ∈ s.sent) :
    Good (s.eval ttlMs now command) := by
  rcases eval_cases s ttlMs now command with heq | ⟨entry, hentry, htoken, value, heq, hvalue⟩
  · rw [heq]
    exact h
  · rw [heq]
    refine ⟨h.held, h.sent, h.attempts, h.lost, ?_, ?_⟩
    · intro key other hother
      by_cases hkey : key = command.key
      · subst hkey
        dsimp only at hother
        rw [Function.update_self] at hother
        rcases hvalue with ⟨rfl, _⟩ | ⟨entry', rfl, htoken'⟩
        · cases hother
        · cases hother
          have hold := h.db _ entry hentry
          rw [htoken, ← htoken'] at hold
          exact hold
      · dsimp only at hother
        rw [Function.update_of_ne hkey] at hother
        exact h.db key other hother
    · intro i attempt object hattempt hobject hwon hlost
      obtain ⟨other, hother, htoken'⟩ := h.keeps i attempt object hattempt hobject hwon hlost
      by_cases hkey : object.key = command.key
      · dsimp only
        rw [hkey, Function.update_self]
        rw [hkey, hentry] at hother
        cases hother
        rcases hvalue with ⟨rfl, hscript⟩ | ⟨entry', rfl, hsame⟩
        · -- a release is not sent before its object lets go
          obtain ⟨hreturned, hrelease⟩ := h.sent command hcommand
          rw [← htoken, htoken', hattempt] at hreturned
          have hattempt' := Option.some.inj hreturned
          rcases hwon with hwon | hi
          · rw [hattempt'] at hwon
            cases hwon
          · have hnot := hrelease hscript object (by rw [← hobject, hattempt'])
            rw [hi, ← htoken', htoken] at hnot
            exact absurd rfl hnot
        · exact ⟨entry', rfl, by rw [hsame, ← htoken, htoken']⟩
      · refine ⟨other, ?_, htoken'⟩
        dsimp only
        rw [Function.update_of_ne hkey]
        exact hother

theorem good_erased (h : Good s) {sent : List Command}
    (hsent : ∀ command ∈ sent, command ∈ s.sent) :
    Good { s with sent := sent } :=
  ⟨h.held, fun command hcommand => h.sent command (hsent command hcommand), h.attempts, h.lost,
    h.db, h.keeps⟩

theorem good_vanishes (h : Good s) {key : String} {entry : Entry} (hentry : s.db key = some entry) :
    Good { s with db := Function.update s.db key none, lost := entry.token :: s.lost } := by
  obtain ⟨_, attempt, object, hattempt, hobject, hkey, hphase⟩ := h.db key entry hentry
  refine ⟨h.held, h.sent, h.attempts, ?_, ?_, ?_⟩
  · intro i hi
    rcases List.mem_cons.mp hi with rfl | hi
    · exact ⟨attempt, hattempt, ne_trying hphase⟩
    · exact h.lost i hi
  · intro key' other hother
    by_cases hsame : key' = key
    · subst hsame
      dsimp only at hother
      rw [Function.update_self] at hother
      cases hother
    · dsimp only at hother
      rw [Function.update_of_ne hsame] at hother
      obtain ⟨hlost, attempt', object', hattempt', hobject', hkey', hphase'⟩ :=
        h.db key' other hother
      refine ⟨?_, attempt', object', hattempt', hobject', hkey', hphase'⟩
      rw [List.mem_cons, not_or]
      refine ⟨fun htoken => hsame ?_, hlost⟩
      -- one token is at one key
      rw [htoken, hattempt] at hattempt'
      cases hattempt'
      rw [hobject] at hobject'
      cases hobject'
      rw [← hkey, hkey']
  · intro i other object' hother hobject' hwon hlost
    rw [List.mem_cons, not_or] at hlost
    obtain ⟨entry', hentry', htoken⟩ := h.keeps i other object' hother hobject' hwon hlost.2
    refine ⟨entry', ?_, htoken⟩
    dsimp only
    rw [Function.update_of_ne]
    · exact hentry'
    · intro hsame
      rw [hsame, hentry] at hentry'
      cases hentry'
      exact hlost.1 htoken.symm

theorem LockObject.stopHeartbeat_key (object : LockObject) :
    object.stopHeartbeat.key = object.key := by
  rw [LockObject.stopHeartbeat]
  split <;> rfl

theorem good_step (ttlMs : ℚ) (h : Good s) (event : Event) (t : State)
    (hstep : step ttlMs s event = some t) :
    Good t := by
  cases event with
  | newLock key =>
      cases hstep
      exact good_newLock h key
  | lock o =>
      obtain ⟨object, hobject, rfl⟩ := Option.map_eq_some_iff.mp hstep
      exact good_lock h (List.getElem?_eq_some_iff.mp hobject).1
  | set i now =>
      rw [step] at hstep
      split at hstep
      case h_1 attempt hattempt =>
        split at hstep
        case h_1 object hphase hobject =>
          split at hstep
          case h_1 hfree =>
            cases hstep
            exact good_set h hattempt hphase hobject hfree (now + ttlMs)
          case h_2 =>
            cases hstep
            exact h
        case h_2 => cases hstep
      case h_2 => cases hstep
  | fails i =>
      rw [step] at hstep
      split at hstep
      case h_1 attempt hattempt =>
        split at hstep
        case isTrue hphase =>
          cases hstep
          exact good_fails h hattempt hphase
        case isFalse => cases hstep
      case h_2 => cases hstep
  | returns i =>
      rw [step] at hstep
      split at hstep
      case h_1 attempt hattempt =>
        split at hstep
        case h_1 object hphase hobject =>
          cases hstep
          exact good_returns h hattempt hphase hobject rfl rfl
        case h_2 => cases hstep
      case h_2 => cases hstep
  | beats o handle =>
      rw [step] at hstep
      split at hstep
      case h_1 object hobject =>
        split at hstep
        case isTrue =>
          split at hstep
          case h_1 =>
            cases hstep
            exact h
          case h_2 i htoken =>
            cases hstep
            refine good_sent h (h.held o object i hobject htoken) ?_
            rintro ⟨⟩
        case isFalse => cases hstep
      case h_2 => cases hstep
  | unlock o =>
      rw [step] at hstep
      split at hstep
      case h_1 object hobject =>
        have hkey : ({ object.stopHeartbeat with token := none } : LockObject).key = object.key :=
          object.stopHeartbeat_key
        have hstopped := good_stopped h hobject hkey rfl
        dsimp only at hstep
        split at hstep
        case h_1 =>
          cases hstep
          exact hstopped
        case h_2 i htoken =>
          cases hstep
          refine good_sent hstopped (h.held o object i hobject htoken) ?_
          -- the object has let go before the script is sent
          intro _ other hother
          rcases Runs.getElem?_set_cases hother with ⟨_, rfl⟩ | ⟨hne, _⟩
          · rintro ⟨⟩
          · exact absurd rfl hne
      case h_2 => cases hstep
  | arrives j now =>
      obtain ⟨command, hcommand, rfl⟩ := Option.map_eq_some_iff.mp hstep
      have heval := good_eval h ttlMs now (List.mem_of_getElem? hcommand)
      refine good_erased heval ?_
      intro other hother
      have hmem := List.mem_of_mem_eraseIdx hother
      rcases eval_cases s ttlMs now command with heq | ⟨_, _, _, _, heq, _⟩
      · rw [heq]
        exact hmem
      · rw [heq]
        exact hmem
  | drops j =>
      obtain ⟨command, _, rfl⟩ := Option.map_eq_some_iff.mp hstep
      exact good_erased h fun _ => List.mem_of_mem_eraseIdx
  | vanishes key =>
      obtain ⟨entry, hentry, rfl⟩ := Option.map_eq_some_iff.mp hstep
      exact good_vanishes h hentry

theorem good_start : Good {} := by
  refine ⟨?_, ?_, ?_, ?_, ?_, ?_⟩
  · rintro o object i ⟨⟩
  · rintro command ⟨⟩
  · rintro i attempt ⟨⟩
  · rintro i ⟨⟩
  · rintro key entry ⟨⟩
  · rintro i attempt object ⟨⟩

theorem Good.safe (ttlMs : ℚ) (h : Good s) : Safe ttlMs s := by
  refine ⟨?_, fun o o' object object' i i' => h.exclusive⟩
  intro j now command t hcommand hstep key hne
  obtain ⟨command', hcommand', rfl⟩ := Option.map_eq_some_iff.mp hstep
  rw [hcommand] at hcommand'
  cases hcommand'
  rcases eval_cases s ttlMs now command with heq | ⟨entry, hentry, htoken, value, heq, _⟩
  · dsimp only at hne
    rw [heq] at hne
    exact absurd rfl hne
  · have hkey : key = command.key := by
      by_contra hkey
      dsimp only at hne
      rw [heq] at hne
      exact hne (Function.update_of_ne hkey value s.db)
    subst hkey
    refine ⟨⟨entry, hentry, htoken⟩, ⟨_, (h.sent command (List.mem_of_getElem? hcommand)).1, rfl⟩,
      ?_⟩
    rw [← htoken]
    exact (h.db _ entry hentry).1

/-- **The lock is safe.** Whatever is sent, delayed, lost or expired, in every order. -/
theorem lock_safe (ttlMs : ℚ) (events : List Event) (s : State)
    (hrun : Runs.run (step ttlMs) {} events = some s) : Safe ttlMs s :=
  (Runs.run_invariant_all (step ttlMs) (fun _ event t h hstep => good_step ttlMs h event t hstep)
    good_start hrun).safe ttlMs

/-- The first key expires, a second replica takes over, and the release of the first comes late. -/
def takeover : List Event :=
  [.newLock "tus-lock:a", .newLock "tus-lock:a", .lock 0, .set 0 0, .returns 0, .beats 0 0,
   .vanishes "tus-lock:a", .lock 1, .set 1 31, .returns 1, .unlock 0, .arrives 0 32, .arrives 0 33]

theorem lock_safe_takeover : ∃ s, Runs.run (step 30) {} takeover = some s ∧ Safe 30 s := by
  have hrun : Runs.run (step 30) {} takeover = some _ := rfl
  exact ⟨_, hrun, lock_safe 30 takeover _ hrun⟩

end Tus
