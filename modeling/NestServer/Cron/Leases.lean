import NestServer.Cron.Jobs

/-! # One run for each tick

    A lease has one holder, so a second of the schedule has one run.  A run by hand needs
    a lease of its own, and the key of the startup run is not one. -/

namespace Cron

variable {fleet : Fleet} {s t : State} {tick : Tick} {i : Nat}

/-- The tick has its lease, or needed none. -/
def Phase.passed : Phase → Bool
  | .granted | .ran | .finished | .skipped => true
  | .asked | .refused                      => false

/-- The tick has started the job. -/
def Phase.started : Phase → Bool
  | .ran | .finished => true
  | _                => false

/-- It is known what becomes of the tick. -/
def Phase.decided : Phase → Bool
  | .asked | .granted => false
  | _                 => true

/-! ## What is promised -/

/-- A tick of a second of the schedule of a job. -/
def Tick.At (tick : Tick) (name : String) (second : Int) : Prop :=
  tick.name = name ∧ ∃ time, tick.cause = .scheduled time ∧ secondOf time = second

/-- No two ticks of a second start a job that all replicas share. -/
structure Exclusive (fleet : Fleet) (s : State) : Prop where
  once : s.starts.Nodup
  one  : ∀ name second (i j : Nat) (tick other : Tick),
    (fleet.jobs name).map Job.registered ≠ some (.timer false) →
    LeaseKey.tick name second ∉ s.expired → i ∈ s.starts → j ∈ s.starts →
    s.ticks[i]? = some tick → s.ticks[j]? = some other →
    tick.At name second → other.At name second → i = j

/-- A run by hand of a job that was not running starts it, once. -/
def Obeyed (s : State) : Prop :=
  ∀ (i : Nat) (tick : Tick), s.ticks[i]? = some tick → tick.cause = .manual → tick.alone = true →
    tick.phase.decided = true → s.starts.count i = 1

/-! ## The invariant -/

/-- A lease is there, or its time is over. -/
def Lost (s : State) (key : LeaseKey) : Prop := key ∈ s.leases ∨ key ∈ s.expired

structure Good (fleet : Fleet) (s : State) : Prop where
  leased  : ∀ replica name, (fleet.jobs name).map Job.registered = some (.timer true) →
    s.lastLeased replica name = s.lastDate replica name
  /-- a tick of a timer asks for the lease of its second -/
  keyed   : ∀ (i : Nat) (tick : Tick) name second, s.ticks[i]? = some tick → tick.At name second →
    (fleet.jobs name).map Job.registered = some (.timer true) → tick.key = some (.tick name second)
  /-- a tick of the queue was delivered, and no other one was -/
  queued  : ∀ (i : Nat) (tick : Tick) name second, s.ticks[i]? = some tick → tick.At name second →
    (fleet.jobs name).map Job.registered = some .bull → (name, second) ∈ s.delivered ∧
    ∀ (j : Nat) (other : Tick), s.ticks[j]? = some other → other.At name second → j = i
  /-- it is of a timer, or of the queue -/
  known   : ∀ (i : Nat) (tick : Tick) name second, s.ticks[i]? = some tick → tick.At name second →
    ∃ registered, (fleet.jobs name).map Job.registered = some registered
  held    : ∀ (i : Nat) (tick : Tick) key, s.ticks[i]? = some tick → tick.key = some key →
    tick.phase.passed = true → Lost s key
  /-- a lease has one holder at most -/
  unique  : ∀ (i j : Nat) (tick other : Tick) key, s.ticks[i]? = some tick →
    s.ticks[j]? = some other →
    tick.key = some key → other.key = some key → tick.phase.passed = true →
    other.phase.passed = true →
    key ∉ s.expired → i = j
  starts  : ∀ i : Nat, s.starts.count i = if s.ticks[i]?.any (fun tick => tick.phase.started) then 1
    else 0

theorem Good.mem_starts (h : Good fleet s) {i : Nat} (hi : i ∈ s.starts) :
    ∃ tick, s.ticks[i]? = some tick ∧ tick.phase.started = true := by
  have hcount := h.starts i
  have hpos := List.count_pos_iff.mpr hi
  split at hcount
  · rename_i hany
    obtain ⟨tick, htick, hstarted⟩ := (Option.any_eq_true _ _).mp hany
    exact ⟨tick, htick, hstarted⟩
  · omega

theorem passed_of_started {phase : Phase} (h : phase.started = true) : phase.passed = true := by
  cases phase <;> first | rfl | cases h

/-- One holder, one run. -/
theorem Good.exclusive (h : Good fleet s) : Exclusive fleet s := by
  constructor
  · refine List.nodup_iff_count_le_one.mpr fun i => ?_
    rw [h.starts i]
    split <;> omega
  · intro name second i j tick other hshared hlease hi hj htick hother hat hat'
    obtain ⟨_, htick', hstarted⟩ := h.mem_starts hi
    obtain ⟨_, hother', hstarted'⟩ := h.mem_starts hj
    rw [htick] at htick'
    rw [hother] at hother'
    cases htick'
    cases hother'
    obtain ⟨registered, hregistered⟩ := h.known i tick name second htick hat
    cases registered with
    | bull => exact ((h.queued i tick name second htick hat hregistered).2 j other hother hat').symm
    | timer distributed =>
        cases distributed with
        | false => exact absurd hregistered hshared
        | true =>
            exact h.unique i j tick other _ htick hother
              (h.keyed i tick name second htick hat hregistered)
              (h.keyed j other name second hother hat' hregistered) (passed_of_started hstarted)
              (passed_of_started hstarted') hlease

/-! ## A tick that comes up -/

/-- What a new tick has to be. -/
structure Fresh (fleet : Fleet) (s t : State) (tick : Tick) : Prop where
  ticks     : t.ticks = s.ticks ++ [tick]
  leases    : t.leases = s.leases
  expired   : t.expired = s.expired
  starts    : t.starts = s.starts
  delivered : ∀ d ∈ s.delivered, d ∈ t.delivered
  leased    : ∀ replica name, (fleet.jobs name).map Job.registered = some (.timer true) →
    t.lastLeased replica name = t.lastDate replica name
  waits     : tick.phase = .asked ∨ (tick.phase = .granted ∧ tick.key = none)
  keyed     : ∀ name second, tick.At name second →
    (fleet.jobs name).map Job.registered = some (.timer true) → tick.key = some (.tick name second)
  queued    : ∀ name second, tick.At name second →
    (fleet.jobs name).map Job.registered = some .bull →
    (name, second) ∈ t.delivered ∧ (name, second) ∉ s.delivered
  known     : ∀ name second, tick.At name second →
    ∃ registered, (fleet.jobs name).map Job.registered = some registered

theorem Fresh.passed (h : Fresh fleet s t tick) {key : LeaseKey} (hkey : tick.key = some key) :
    tick.phase.passed = false := by
  rcases h.waits with hphase | ⟨_, hnone⟩
  · rw [hphase]
    rfl
  · rw [hkey] at hnone
    cases hnone

theorem Fresh.undecided (h : Fresh fleet s t tick) :
    tick.phase.started = false ∧ tick.phase.decided = false := by
  rcases h.waits with hphase | ⟨hphase, _⟩
  · rw [hphase]
    exact ⟨rfl, rfl⟩
  · rw [hphase]
    exact ⟨rfl, rfl⟩

theorem Fresh.cases (h : Fresh fleet s t tick) {j : Nat} {other : Tick}
    (hother : t.ticks[j]? = some other) :
    s.ticks[j]? = some other ∨ (j = s.ticks.length ∧ other = tick) :=
  Runs.getElem?_append_cases (h.ticks ▸ hother)

theorem Good.fresh (hs : Good fleet s) (h : Fresh fleet s t tick) : Good fleet t := by
  refine ⟨h.leased, ?_, ?_, ?_, ?_, ?_, ?_⟩
  · intro j other name second hother hat hjob
    rcases h.cases hother with hold | ⟨_, rfl⟩
    · exact hs.keyed j other name second hold hat hjob
    · exact h.keyed name second hat hjob
  · intro j other name second hother hat hjob
    rcases h.cases hother with hold | ⟨rfl, rfl⟩
    · obtain ⟨hdelivered, hone⟩ := hs.queued j other name second hold hat hjob
      refine ⟨h.delivered _ hdelivered, fun k another hanother hat' => ?_⟩
      rcases h.cases hanother with hold' | ⟨_, rfl⟩
      · exact hone k another hold' hat'
      · exact absurd hdelivered (h.queued name second hat' hjob).2
    · obtain ⟨hdelivered, hnew⟩ := h.queued name second hat hjob
      refine ⟨hdelivered, fun k another hanother hat' => ?_⟩
      rcases h.cases hanother with hold' | ⟨hk, _⟩
      · exact absurd (hs.queued k another name second hold' hat' hjob).1 hnew
      · exact hk
  · intro j other name second hother hat
    rcases h.cases hother with hold | ⟨_, rfl⟩
    · exact hs.known j other name second hold hat
    · exact h.known name second hat
  · intro j other key hother hkey hpassed
    rw [Lost, h.leases, h.expired]
    rcases h.cases hother with hold | ⟨_, rfl⟩
    · exact hs.held j other key hold hkey hpassed
    · rw [h.passed hkey] at hpassed
      cases hpassed
  · intro j k one two key hone htwo hkey hkey' hpassed hpassed' hexpired
    rw [h.expired] at hexpired
    rcases h.cases hone with hold | ⟨_, rfl⟩
    · rcases h.cases htwo with hold' | ⟨_, rfl⟩
      · exact hs.unique j k one two key hold hold' hkey hkey' hpassed hpassed' hexpired
      · rw [h.passed hkey'] at hpassed'
        cases hpassed'
    · rw [h.passed hkey] at hpassed
      cases hpassed
  · intro j
    rw [h.starts, hs.starts j, h.ticks]
    rcases Nat.lt_or_ge j s.ticks.length with hlt | hge
    · rw [List.getElem?_append_left hlt]
    · rw [List.getElem?_eq_none hge]
      rcases Nat.lt_or_ge s.ticks.length j with hlt' | hge'
      · rw [List.getElem?_eq_none (by rw [List.length_append, List.length_singleton]; omega)]
      · obtain rfl : j = s.ticks.length := by omega
        rw [List.getElem?_concat_length, Option.any_some, h.undecided.1]
        rfl

/-- A tick that comes up is not decided. -/
theorem obeyed_fresh (h : Fresh fleet s t tick) : Obeyed t ↔ Obeyed s := by
  constructor
  · intro ht i other hother hmanual halone hdecided
    rw [← h.starts]
    refine ht i other ?_ hmanual halone hdecided
    rw [h.ticks]
    exact (List.getElem?_append_left (List.getElem?_eq_some_iff.mp hother).1).trans hother
  · intro hs i other hother hmanual halone hdecided
    rw [h.starts]
    rcases h.cases hother with hold | ⟨_, rfl⟩
    · exact hs i other hold hmanual halone hdecided
    · rw [h.undecided.2] at hdecided
      cases hdecided

/-! ## A tick that goes on -/

/-- What becomes of a tick that is there. -/
structure Goes (s t : State) (i : Nat) (tick : Tick) (phase : Phase) : Prop where
  there     : s.ticks[i]? = some tick
  ticks     : t.ticks = s.ticks.set i { tick with phase := phase }
  dates     : t.lastDate = s.lastDate ∧ t.lastLeased = s.lastLeased ∧ t.delivered = s.delivered
  expired   : t.expired = s.expired
  lost      : ∀ key, Lost s key → Lost t key
  /-- it gets its lease now, or had it -/
  passes    : phase.passed = true → tick.phase.passed = true ∨
    ∃ key, tick.key = some key ∧ key ∉ s.leases ∧ key ∈ t.leases
  starts    : ∀ j, t.starts.count j =
    if j = i then (if phase.started = true then 1 else 0) else s.starts.count j

variable {phase : Phase}

theorem Goes.cases (h : Goes s t i tick phase) {j : Nat} {other : Tick}
    (hother : t.ticks[j]? = some other) :
    (j = i ∧ other = { tick with phase := phase }) ∨ (j ≠ i ∧ s.ticks[j]? = some other) :=
  Runs.getElem?_set_cases (h.ticks ▸ hother)

/-- All that is said of a tick but its phase was said before. -/
theorem Goes.old (h : Goes s t i tick phase) {j : Nat} {other : Tick}
    (hother : t.ticks[j]? = some other) :
    ∃ old, s.ticks[j]? = some old ∧ (∀ name second, other.At name second → old.At name second) ∧
      other.key = old.key := by
  rcases h.cases hother with ⟨rfl, rfl⟩ | ⟨_, hold⟩
  · exact ⟨tick, h.there, fun _ _ hat => hat, rfl⟩
  · exact ⟨other, hold, fun _ _ hat => hat, rfl⟩

theorem Goes.self (h : Goes s t i tick phase) : t.ticks[i]? = some
    { tick with phase := phase } := by
  rw [h.ticks]
  exact List.getElem?_set_self (List.getElem?_eq_some_iff.mp h.there).1

/-- A lease that is there and counts no more is not given to a second one. -/
theorem Goes.alone (hs : Good fleet s) (h : Goes s t i tick phase) {j : Nat} {other : Tick}
    {key : LeaseKey}
    (hne : j ≠ i) (hother : s.ticks[j]? = some other) (hkey : other.key = some key)
    (hkey' : tick.key = some key) (hpassed : other.phase.passed = true)
      (hpassed' : phase.passed = true)
    (hexpired : key ∉ s.expired) : False := by
  rcases h.passes hpassed' with hold | ⟨key', hown, hfree, _⟩
  · exact hne (hs.unique j i other tick key hother h.there hkey hkey' hpassed hold hexpired)
  · rw [hkey'] at hown
    cases hown
    rcases hs.held j other key hother hkey hpassed with hheld | hgone
    · exact hfree hheld
    · exact hexpired hgone

theorem Good.goes (hs : Good fleet s) (h : Goes s t i tick phase) : Good fleet t := by
  obtain ⟨hdate, hleased, hdelivered⟩ := h.dates
  refine ⟨?_, ?_, ?_, ?_, ?_, ?_, ?_⟩
  · rw [hdate, hleased]
    exact hs.leased
  · intro j other name second hother hat hjob
    obtain ⟨old, hold, hat', hkey⟩ := h.old hother
    rw [hkey]
    exact hs.keyed j old name second hold (hat' _ _ hat) hjob
  · intro j other name second hother hat hjob
    obtain ⟨old, hold, hat', _⟩ := h.old hother
    obtain ⟨hin, hone⟩ := hs.queued j old name second hold (hat' _ _ hat) hjob
    refine ⟨hdelivered ▸ hin, fun k another hanother hat'' => ?_⟩
    obtain ⟨old', hold', hbefore, _⟩ := h.old hanother
    exact hone k old' hold' (hbefore _ _ hat'')
  · intro j other name second hother hat
    obtain ⟨old, hold, hat', _⟩ := h.old hother
    exact hs.known j old name second hold (hat' _ _ hat)
  · intro j other key hother hkey hpassed
    rcases h.cases hother with ⟨rfl, rfl⟩ | ⟨_, hold⟩
    · rcases h.passes hpassed with hold | ⟨key', hown, _, hin⟩
      · exact h.lost key (hs.held j tick key h.there hkey hold)
      · rw [show tick.key = some key from hkey] at hown
        cases hown
        exact Or.inl hin
    · exact h.lost key (hs.held j other key hold hkey hpassed)
  · intro j k one two key hone htwo hkey hkey' hpassed hpassed' hexpired
    rw [h.expired] at hexpired
    rcases h.cases hone with ⟨rfl, rfl⟩ | ⟨hj, hold⟩
    · rcases h.cases htwo with ⟨rfl, rfl⟩ | ⟨hk, hold'⟩
      · rfl
      · exact (h.alone hs hk hold' hkey' hkey hpassed' hpassed hexpired).elim
    · rcases h.cases htwo with ⟨rfl, rfl⟩ | ⟨hk, hold'⟩
      · exact (h.alone hs hj hold hkey hkey' hpassed hpassed' hexpired).elim
      · exact hs.unique j k one two key hold hold' hkey hkey' hpassed hpassed' hexpired
  · intro j
    rw [h.starts j]
    by_cases hj : j = i
    · subst hj
      rw [if_pos rfl, h.self, Option.any_some]
    · rw [if_neg hj, hs.starts j, h.ticks, List.getElem?_set_ne (Ne.symm hj)]

/-- A tick that was open is obeyed, or it is none that has to be. -/
theorem obeyed_goes (h : Goes s t i tick phase) (hopen : tick.phase.decided = false) :
    Obeyed t ↔ Obeyed s ∧ (tick.cause = .manual → tick.alone = true → phase.decided = true →
      phase.started = true) := by
  have hcount : t.starts.count i = if phase.started = true then 1 else 0 := by
    rw [h.starts i, if_pos rfl]
  constructor
  · intro ht
    constructor
    · intro j other hother hmanual halone hdecided
      by_cases hj : j = i
      · subst hj
        rw [h.there] at hother
        cases hother
        rw [hopen] at hdecided
        cases hdecided
      · have hsame := h.starts j
        rw [if_neg hj] at hsame
        rw [← hsame]
        refine ht j other ?_ hmanual halone hdecided
        rw [h.ticks, List.getElem?_set_ne (Ne.symm hj)]
        exact hother
    · intro hmanual halone hdecided
      have hone := ht i _ h.self hmanual halone hdecided
      rw [hcount] at hone
      by_contra hnot
      rw [if_neg hnot] at hone
      cases hone
  · rintro ⟨hs, hnew⟩ j other hother hmanual halone hdecided
    rcases h.cases hother with ⟨rfl, rfl⟩ | ⟨hj, hold⟩
    · rw [hcount, if_pos (hnew hmanual halone hdecided)]
    · rw [h.starts j, if_neg hj]
      exact hs j other hold hmanual halone hdecided

/-! ## Runs of a tick -/

/-- A granted tick runs, or is skipped. -/
theorem goes_runTick (hs : Good fleet s) (htick : s.ticks[i]? = some tick)
    (hphase : tick.phase = .granted) :
    ∃ phase, Goes s (runTick fleet s i tick) i tick phase ∧ phase.decided = true ∧
      (phase.started = true ↔ ∃ job, fleet.jobs tick.name = some job ∧
        job.runParallel.blocks (s.running tick.replica tick.name) = false) := by
  have hcount : s.starts.count i = 0 := by
    rw [hs.starts i, htick, Option.any_some, hphase]
    rfl
  have hskipped : Goes s (s.setPhase i tick .skipped) i tick .skipped := by
    refine ⟨htick, rfl, ⟨rfl, rfl, rfl⟩, rfl, fun _ hlost => hlost, fun _ => Or.inl ?_, fun j => ?_⟩
    · rw [hphase]
      rfl
    · by_cases hj : j = i
      · rw [if_pos hj, hj]
        exact hcount
      · rw [if_neg hj]
        rfl
  rw [runTick]
  cases hjob : fleet.jobs tick.name with
  | none =>
      refine ⟨.skipped, hskipped, rfl, iff_of_false Bool.false_ne_true ?_⟩
      rintro ⟨job, hsome, _⟩
      cases hsome
  | some job =>
      dsimp only
      cases hblocks : job.runParallel.blocks (s.running tick.replica tick.name) with
      | true =>
          refine ⟨.skipped, hskipped, rfl, iff_of_false Bool.false_ne_true ?_⟩
          rintro ⟨other, hsome, hfree⟩
          cases hsome
          rw [hblocks] at hfree
          cases hfree
      | false =>
          refine ⟨.ran, ?_, rfl, iff_of_true rfl ⟨job, rfl, hblocks⟩⟩
          refine ⟨htick, rfl, ⟨rfl, rfl, rfl⟩, rfl, fun _ hlost => hlost, fun _ => Or.inl ?_,
            fun j => ?_⟩
          · rw [hphase]
            rfl
          · rw [if_neg Bool.false_ne_true]
            show (s.starts ++ [i]).count j = _
            rw [List.count_append, List.count_singleton]
            by_cases hj : j = i
            · subst hj
              rw [if_pos rfl, hcount, if_pos (beq_self_eq_true j)]
              rfl
            · rw [if_neg hj, if_neg (by simpa using Ne.symm hj), Nat.add_zero]

/-! ## One step -/

/-- **The condition.** What a run by hand meets when it asks for its lease, and when it runs:
    the lease is not there, and the job has not begun to run. -/
def Undisturbed (fleet : Fleet) (s : State) : Event → Prop
  | .leases i => ∀ tick key, s.ticks[i]? = some tick → tick.cause = .manual → tick.alone = true →
      tick.phase = .asked → tick.key = some key → key ∉ s.leases
  | .runs i   => ∀ tick, s.ticks[i]? = some tick → tick.cause = .manual → tick.alone = true →
      tick.phase = .granted → ∃ job, fleet.jobs tick.name = some job ∧
        job.runParallel.blocks (s.running tick.replica tick.name) = false
  | _         => True

/-- A step keeps the invariant, and what it does to runs by hand is known. -/
structure Exact (fleet : Fleet) (s t : State) (condition : Prop) : Prop where
  good   : Good fleet t
  obeyed : Obeyed t ↔ Obeyed s ∧ condition

theorem exact_fresh (hs : Good fleet s) (h : Fresh fleet s t tick) : Exact fleet s t True :=
  ⟨hs.fresh h, by rw [obeyed_fresh h, and_true]⟩

/-- A tick of a timer or of the queue, which asks for a lease. -/
theorem fresh_distributed {s' : State} {replica : Nat} {name : String} {cause : Cause} {now : Int}
    {fireTime : FireTime} (hsame : s' =
      { s with lastDate := s'.lastDate, lastLeased := s'.lastLeased })
    (hleased : ∀ replica name, (fleet.jobs name).map Job.registered = some (.timer true) →
      s'.lastLeased replica name = s'.lastDate replica name)
    {registered : Registered} (hjob : (fleet.jobs name).map Job.registered = some registered)
    (hcause : ∀ time, cause = .scheduled time → registered = .timer true ∧ fireTime = .date time) :
    Fresh fleet s (runDistributedTick fleet s' replica name cause now fireTime)
      (s'.tick replica name cause (some (leaseKey name now (fleet.pid replica) fireTime))
        .asked) := by
  rw [hsame]
  refine ⟨rfl, rfl, rfl, rfl, fun _ hd => hd, hleased, Or.inl rfl, ?_, ?_, ?_⟩
  · rintro other second ⟨rfl, time, htime, rfl⟩ _
    obtain ⟨_, rfl⟩ := hcause time htime
    rfl
  · rintro other second ⟨rfl, time, htime, rfl⟩ hbull
    obtain ⟨rfl, _⟩ := hcause time htime
    change (fleet.jobs name).map Job.registered = _ at hbull
    rw [hjob] at hbull
    cases hbull
  · rintro other second ⟨rfl, _⟩
    exact ⟨registered, hjob⟩

/-- A tick that needs no lease runs at once: by hand, it finds that no other one does. -/
theorem exact_directly (hs : Good fleet s) {s' : State} {replica : Nat} {name : String}
    {cause : Cause}
    (h : Fresh fleet s { s' with ticks := s'.ticks ++ [s'.tick replica name cause none .granted] }
      (s'.tick replica name cause none .granted))
    {job : Job} (hjob : fleet.jobs name = some job) :
    Exact fleet s (runDirectly fleet s' replica name cause) True := by
  have hgood := hs.fresh h
  have hlength : s'.ticks.length = s.ticks.length := by
    have hticks := congrArg List.length h.ticks
    rw [List.length_append, List.length_append] at hticks
    exact Nat.add_right_cancel hticks
  have hget : ({ s' with ticks := s'.ticks ++
      [s'.tick replica name cause none .granted] } : State).ticks[
      s'.ticks.length]? = some (s'.tick replica name cause none .granted) :=
    List.getElem?_concat_length
  obtain ⟨phase, hgoes, _, hstarted⟩ := goes_runTick hgood hget rfl
  refine ⟨hgood.goes hgoes, ?_⟩
  rw [runDirectly, obeyed_goes hgoes rfl, obeyed_fresh h]
  refine and_congr_right fun _ => iff_of_true ?_ trivial
  intro _ halone _
  refine hstarted.mpr ⟨job, hjob, ?_⟩
  have hzero : s'.running replica name = 0 := of_decide_eq_true halone
  show job.runParallel.blocks (s'.running replica name) = false
  rw [hzero]
  rfl

theorem put_self {α : Type} (f : Nat → String → α) (replica : Nat) (name : String) (a : α) :
    put f replica name a replica name = a := if_pos ⟨rfl, rfl⟩

theorem exact_fires (hs : Good fleet s) {replica : Nat} {name : String} {time : Int}
    (h : step fleet s (.fires replica name time) = some t) : Exact fleet s t True := by
  rw [step] at h
  cases hjob : fleet.jobs name with
  | none =>
      rw [hjob] at h
      cases h
  | some job =>
      have hregistered : (fleet.jobs name).map Job.registered = some job.registered := by
        rw [hjob]; rfl
      rw [hregistered] at h
      cases hkind : job.registered with
      | bull =>
          rw [hkind] at h
          cases h
      | timer distributed =>
          rw [hkind] at h hregistered
          dsimp only at h
          split at h
          · rename_i hnext
            cases h
            rw [onTick]
            cases distributed with
            | false =>
                rw [if_neg Bool.false_ne_true]
                refine exact_directly hs ⟨rfl, rfl, rfl, rfl, fun _ hd => hd, ?_, Or.inr ⟨rfl, rfl⟩,
                  ?_, ?_, ?_⟩ hjob
                · intro r n htimer
                  show s.lastLeased r n = put s.lastDate replica name (some time) r n
                  rw [put, if_neg, hs.leased r n htimer]
                  rintro ⟨_, rfl⟩
                  rw [hregistered] at htimer
                  cases htimer
                · rintro other second ⟨rfl, _⟩ htimer
                  exact absurd (hregistered.symm.trans htimer) (by decide)
                · rintro other second ⟨rfl, _⟩ hbull
                  exact absurd (hregistered.symm.trans hbull) (by decide)
                · rintro other second ⟨rfl, _⟩
                  exact ⟨_, hregistered⟩
            | true =>
                -- the instant is new, so the lease is that of its second
                have hnew : s.lastLeased replica name ≠ some time := by
                  rw [hs.leased replica name hregistered]
                  intro heq
                  rw [heq, Option.all_some, decide_eq_true_eq] at hnext
                  exact Int.lt_irrefl time hnext
                rw [if_pos rfl]
                dsimp only
                rw [put_self]
                dsimp only
                rw [if_neg hnew]
                refine exact_fresh hs (fresh_distributed rfl ?_ hregistered ?_)
                · intro r n htimer
                  show put s.lastLeased replica name (some time) r n =
                      put s.lastDate replica name (some time) r n
                  rw [put, put, hs.leased r n htimer]
                · rintro other ⟨⟩
                  exact ⟨rfl, rfl⟩
          · cases h

theorem exact_delivers (hs : Good fleet s) {replica : Nat} {name : String} {time : Int}
    (h : step fleet s (.delivers replica name time) = some t) : Exact fleet s t True := by
  rw [step] at h
  cases hjob : fleet.jobs name with
  | none =>
      rw [hjob] at h
      cases h
  | some job =>
      have hregistered : (fleet.jobs name).map Job.registered = some job.registered := by
        rw [hjob]; rfl
      rw [hregistered] at h
      cases hkind : job.registered with
      | timer distributed =>
          rw [hkind] at h
          cases h
      | bull =>
          rw [hkind] at h hregistered
          dsimp only at h
          split at h
          · rename_i hnew
            cases h
            refine exact_directly hs ⟨rfl, rfl, rfl, rfl, fun _ hd => List.mem_append_left _ hd,
              hs.leased, Or.inr ⟨rfl, rfl⟩, ?_, ?_, ?_⟩ hjob
            · rintro other second ⟨rfl, _⟩ htimer
              exact absurd (hregistered.symm.trans htimer) (by decide)
            · rintro other second ⟨rfl, instant, hinstant, rfl⟩ _
              cases hinstant
              exact ⟨List.mem_append_right _ (List.mem_singleton.mpr rfl), hnew⟩
            · rintro other second ⟨rfl, _⟩
              exact ⟨_, hregistered⟩
          · cases h

/-- A tick that is not of the schedule needs nothing to come up. -/
theorem fresh_unscheduled (hs : Good fleet s) {replica : Nat} {name : String} {cause : Cause}
    {key : Option LeaseKey} {phase : Phase} (hcause : ∀ time, cause ≠ .scheduled time)
    (hphase : phase = .asked ∨ (phase = .granted ∧ key = none)) :
    Fresh fleet s { s with ticks := s.ticks ++ [s.tick replica name cause key phase] }
      (s.tick replica name cause key phase) := by
  refine ⟨rfl, rfl, rfl, rfl, fun _ hd => hd, hs.leased, hphase, ?_, ?_, ?_⟩
  · rintro other second ⟨_, time, htime, _⟩
    exact absurd htime (hcause time)
  · rintro other second ⟨_, time, htime, _⟩
    exact absurd htime (hcause time)
  · rintro other second ⟨_, time, htime, _⟩
    exact absurd htime (hcause time)

theorem exact_startup (hs : Good fleet s) {replica : Nat} {name : String} {now : Int}
    (h : step fleet s (.startup replica name now) = some t) : Exact fleet s t True := by
  rw [step] at h
  have hcause : ∀ time, Cause.startup ≠ .scheduled time := by rintro time ⟨⟩
  split at h
  · cases h
    exact exact_fresh hs (fresh_unscheduled hs hcause (Or.inl rfl))
  · rename_i hregistered
    cases h
    obtain ⟨job, hjob, _⟩ := Option.map_eq_some_iff.mp hregistered
    exact exact_directly hs (fresh_unscheduled hs hcause (Or.inr ⟨rfl, rfl⟩)) hjob
  · cases h
    exact exact_fresh hs (fresh_unscheduled hs hcause (Or.inl rfl))
  · cases h

theorem exact_triggers (hs : Good fleet s) {replica : Nat} {name : String} {now : Int}
    (h : step fleet s (.triggers replica name now) = some t) : Exact fleet s t True := by
  rw [step] at h
  have hcause : ∀ time, Cause.manual ≠ .scheduled time := by rintro time ⟨⟩
  split at h
  · rename_i distributed hregistered
    cases h
    rw [onTick]
    cases distributed with
    | false =>
        obtain ⟨job, hjob, _⟩ := Option.map_eq_some_iff.mp hregistered
        exact exact_directly hs (fresh_unscheduled hs hcause (Or.inr ⟨rfl, rfl⟩)) hjob
    | true =>
        rw [if_pos rfl]
        cases hlast : s.lastDate replica name with
        | none => exact exact_fresh hs (fresh_unscheduled hs hcause (Or.inl rfl))
        | some scheduled =>
            -- the last instant was leased, so the run is taken for one by hand
            dsimp only
            rw [hs.leased replica name hregistered, hlast, if_pos rfl]
            exact exact_fresh hs (fresh_unscheduled hs hcause (Or.inl rfl))
  · cases h
    exact exact_fresh hs (fresh_unscheduled hs hcause (Or.inl rfl))
  · cases h

theorem exact_leases (hs : Good fleet s) {i : Nat} (h : step fleet s (.leases i) = some t) :
    Exact fleet s t (Undisturbed fleet s (.leases i)) := by
  rw [step] at h
  split at h
  · rename_i tick htick
    split at h
    · rename_i key hphase hkey
      have hopen : tick.phase.decided = false := by rw [hphase]; rfl
      have hcount : s.starts.count i = 0 := by
        rw [hs.starts i, htick, Option.any_some, hphase]
        rfl
      have hstarts : ∀ j, s.starts.count j = if j = i then 0 else s.starts.count j := by
        intro j
        by_cases hj : j = i
        · rw [if_pos hj, hj, hcount]
        · rw [if_neg hj]
      split at h
      · rename_i hheld
        cases h
        have hgoes : Goes s (s.setPhase i tick .refused) i tick .refused :=
          ⟨htick, rfl, ⟨rfl, rfl, rfl⟩, rfl, fun _ hlost => hlost, by rintro ⟨⟩, hstarts⟩
        refine ⟨hs.goes hgoes, ?_⟩
        rw [obeyed_goes hgoes hopen]
        refine and_congr_right fun _ => ?_
        constructor
        · intro hnot tick' key' htick' hmanual halone _ _
          rw [htick] at htick'
          cases htick'
          cases hnot hmanual halone rfl
        · intro hfree hmanual halone _
          exact absurd hheld (hfree tick key htick hmanual halone hphase hkey)
      · rename_i hfree
        cases h
        have hgoes : Goes s { s.setPhase i tick .granted with leases := key ::
            s.leases } i tick .granted := by
          refine ⟨htick, rfl, ⟨rfl, rfl, rfl⟩, rfl, ?_, ?_, hstarts⟩
          · rintro other (hin | hgone)
            · exact Or.inl (List.mem_cons_of_mem key hin)
            · exact Or.inr hgone
          · exact fun _ => Or.inr ⟨key, hkey, hfree, List.mem_cons_self⟩
        refine ⟨hs.goes hgoes, ?_⟩
        rw [obeyed_goes hgoes hopen]
        refine and_congr_right fun _ => iff_of_true (fun _ _ hdecided => hdecided) ?_
        intro tick' key' htick' _ _ _ hkey'
        rw [htick] at htick'
        cases htick'
        rw [hkey] at hkey'
        cases hkey'
        exact hfree
    · cases h
  · cases h

theorem exact_runs (hs : Good fleet s) {i : Nat} (h : step fleet s (.runs i) = some t) :
    Exact fleet s t (Undisturbed fleet s (.runs i)) := by
  rw [step] at h
  split at h
  · rename_i tick htick
    split at h
    · rename_i hphase
      cases h
      obtain ⟨phase, hgoes, hdecided, hstarted⟩ := goes_runTick hs htick hphase
      refine ⟨hs.goes hgoes, ?_⟩
      rw [obeyed_goes hgoes (by rw [hphase]; rfl), hdecided, hstarted]
      refine and_congr_right fun _ => ?_
      constructor
      · intro hruns tick' htick' hmanual halone _
        rw [htick] at htick'
        cases htick'
        exact hruns hmanual halone rfl
      · intro hruns hmanual halone _
        exact hruns tick htick hmanual halone hphase
    · cases h
  · cases h

theorem exact_finishes (hs : Good fleet s) {i : Nat} (h : step fleet s (.finishes i) = some t) :
    Exact fleet s t True := by
  rw [step] at h
  split at h
  · rename_i tick htick
    split at h
    · rename_i hphase
      cases h
      have hcount : s.starts.count i = 1 := by
        rw [hs.starts i, htick, Option.any_some, hphase]
        rfl
      have hgoes : Goes s { s.setPhase i tick .finished with
          running := put s.running tick.replica tick.name (s.running tick.replica tick.name - 1) }
          i tick .finished := by
        refine ⟨htick, rfl, ⟨rfl, rfl, rfl⟩, rfl, fun _ hlost => hlost, fun _ => Or.inl ?_, fun j =>
          ?_⟩
        · rw [hphase]
          rfl
        · by_cases hj : j = i
          · rw [if_pos hj, hj]
            exact hcount
          · rw [if_neg hj]
            rfl
      refine ⟨hs.goes hgoes, ?_⟩
      rw [and_true]
      -- it was decided before, and it has started
      constructor
      · intro ht j other hother hmanual halone hdecided
        by_cases hj : j = i
        · rw [hj]
          exact hcount
        · refine ht j other ?_ hmanual halone hdecided
          rw [hgoes.ticks, List.getElem?_set_ne (Ne.symm hj)]
          exact hother
      · intro hobeyed j other hother hmanual halone hdecided
        rcases hgoes.cases hother with ⟨rfl, rfl⟩ | ⟨_, hold⟩
        · exact hcount
        · exact hobeyed j other hold hmanual halone hdecided
    · cases h
  · cases h

theorem exact_expires (hs : Good fleet s) {key : LeaseKey}
    (h : step fleet s (.expires key) = some t) :
    Exact fleet s t True := by
  cases h
  refine ⟨⟨hs.leased, hs.keyed, hs.queued, hs.known, ?_, ?_, hs.starts⟩, by rw [and_true]; rfl⟩
  · intro j other key' hother hkey hpassed
    rcases hs.held j other key' hother hkey hpassed with hin | hgone
    · by_cases hsame : key' = key
      · rw [hsame]
        exact Or.inr List.mem_cons_self
      · exact Or.inl (List.mem_filter.mpr ⟨hin, decide_eq_true hsame⟩)
    · exact Or.inr (List.mem_cons_of_mem key hgone)
  · intro j k one two key' hone htwo hkey hkey' hpassed hpassed' hexpired
    exact hs.unique j k one two key' hone htwo hkey hkey' hpassed hpassed'
      fun hin => hexpired (List.mem_cons_of_mem key hin)

theorem exact_step (hs : Good fleet s) {e : Event} (h : step fleet s e = some t) :
    Exact fleet s t (Undisturbed fleet s e) := by
  cases e with
  | fires replica name time => exact exact_fires hs h
  | delivers replica name time => exact exact_delivers hs h
  | startup replica name now => exact exact_startup hs h
  | triggers replica name now => exact exact_triggers hs h
  | leases i => exact exact_leases hs h
  | runs i => exact exact_runs hs h
  | finishes i => exact exact_finishes hs h
  | expires key => exact exact_expires hs h

theorem good_start (fleet : Fleet) : Good fleet {} :=
  ⟨fun _ _ _ => rfl, by rintro i tick name second ⟨⟩, by rintro i tick name second ⟨⟩,
    by rintro i tick name second ⟨⟩, by rintro i tick key ⟨⟩, by rintro i j tick other key ⟨⟩, fun _ => rfl⟩

/-! ## Runs -/

/-- What is promised of jobs and their ticks. -/
structure Promised (fleet : Fleet) (s : State) : Prop where
  exclusive : Exclusive fleet s
  obeyed    : Obeyed s

/-- **Leases.** A second of the schedule has one run, always; and runs by hand are obeyed exactly
    as long as no other tick disturbs them. -/
theorem promised_iff (fleet : Fleet) {events : List Event} {t : State}
    (h : Runs.run (step fleet) {} events = some t) :
    Runs.Always (step fleet) (Promised fleet) {} events ↔
      Runs.Meets (step fleet) (Undisturbed fleet) {} events := by
  refine Runs.always_iff (step fleet) (I := Good fleet) (fun _ _ _ hs hstep =>
    (exact_step hs hstep).good)
    ?_ events {} t (good_start fleet) ⟨(good_start fleet).exclusive, by rintro i tick ⟨⟩⟩ h
  intro s e s' hs hp hstep
  obtain ⟨hgood, hobeyed⟩ := exact_step hs hstep
  constructor
  · intro hp'
    exact (hobeyed.mp hp'.obeyed).2
  · intro hcondition
    exact ⟨hgood.exclusive, hobeyed.mpr ⟨hp.obeyed, hcondition⟩⟩

/-! ## Before the first tick -/

/-- One job, on replicas of one process id each. -/
def reports : Fleet where
  pid replica := replica + 1
  jobs name   := if name = "report" then some { registered := .timer true } else none

/-- The first tick, and a run by hand after it. -/
def obeyedEvents : List Event :=
  [.fires 0 "report" 60000, .leases 0, .runs 0, .finishes 0, .triggers 0 "report" 61000, .leases 1,
    .runs 1]

theorem promised_iff_obeyed : Runs.Always (step reports) (Promised reports) {} obeyedEvents := by
  have hrun : Runs.run (step reports) {} obeyedEvents = some _ := rfl
  refine (promised_iff reports hrun).mpr ?_
  refine Runs.meets_cons _ _ rfl trivial (Runs.meets_cons _ _ rfl ?_ (Runs.meets_cons _ _ rfl ?_
    (Runs.meets_cons _ _ rfl trivial (Runs.meets_cons _ _ rfl trivial (Runs.meets_cons _ _ rfl ?_
      (Runs.meets_cons _ _ rfl ?_ trivial))))))
  · rintro tick key ⟨⟩ ⟨⟩
  · rintro tick ⟨⟩ ⟨⟩
  · rintro tick key ⟨⟩ _ _ _ ⟨⟩
    decide
  · rintro tick ⟨⟩ _ _ _
    exact ⟨_, rfl, rfl⟩

/-- Two runs by hand before the first tick. -/
def swallowedEvents : List Event :=
  [.triggers 0 "report" 1000, .leases 0, .runs 0, .finishes 0, .triggers 0 "report" 5000, .leases 1]

theorem trigger_swallowed : ∃ t, Runs.run (step reports) {} swallowedEvents = some t ∧
    ¬ Promised reports t := by
  have hrun : Runs.run (step reports) {} swallowedEvents = some _ := rfl
  refine ⟨_, hrun, fun h => ?_⟩
  have hone := h.obeyed 1 _ rfl rfl rfl rfl
  cases hone

end Cron
