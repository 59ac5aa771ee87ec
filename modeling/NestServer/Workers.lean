import NestServer.Promise
import NestServer.Runs

/-! # Workers on one document

    Each worker does its calls one after the other.  A call takes its own copy of
    the document, and from there on its awaits alternate with those of the other
    workers.

    `undisturbed` is the rule: if no call stores from a copy that is behind in
    what belongs to others, every worker leaves of its own part what it would
    have left alone. -/

namespace Workers

variable {δ ω α κ γ : Type}

structure Worker (δ ω α κ γ : Type) where
  key   : κ
  calls : List γ
  /-- the call under way, and the copy of the document that it has taken -/
  task  : Option (δ × Promise δ ω α) := none
  /-- all its calls, from the beginning -/
  all   : List γ

structure State (δ ω α κ γ : Type) where
  document : δ
  workers  : List (Worker δ ω α κ γ)

variable (apply : ω → δ → δ) (start : γ → δ → Promise δ ω α)

/-- One await of a worker. -/
def Worker.move (w : Worker δ ω α κ γ) (d : δ) : Option (δ × Worker δ ω α κ γ) :=
  match w.task with
  | some (copy, .get next)         => some (d, { w with task := some (copy, next d) })
  | some (copy, .update data next) => some (apply data d, { w with task := some (copy, next) })
  | some (_, .returned _)          => some (d, { w with task := none })
  | none =>
      match w.calls with
      | []      => none
      | c :: cs => some (d, { w with calls := cs, task := some (d, start c d) })

/-- The worker at an index goes on. -/
def move (s : State δ ω α κ γ) (i : Nat) : Option (State δ ω α κ γ) :=
  s.workers[i]?.bind fun w =>
    (w.move apply start s.document).map fun r =>
      { document := r.1, workers := s.workers.set i r.2 }

/-- Calls with nobody in between. -/
def alone (calls : List γ) (d : δ) : δ :=
  calls.foldl (fun d c => ((start c d).finish apply d).1) d

/-- What a worker would leave if it went on alone. -/
def Worker.rest (w : Worker δ ω α κ γ) (d : δ) : δ :=
  match w.task with
  | some (_, task) => alone apply start w.calls (task.finish apply d).1
  | none           => alone apply start w.calls d

/-- The workers, each with its calls. -/
def begin (d : δ) (ws : List (κ × List γ)) : State δ ω α κ γ where
  document := d
  workers  := ws.map fun w => { key := w.1, calls := w.2, all := w.2 }

/-- A worker as it was in the beginning. -/
def Worker.origin (w : Worker δ ω α κ γ) : κ × List γ := (w.key, w.all)

/-- All calls are done. -/
def Worker.Done (w : Worker δ ω α κ γ) : Prop := w.task.isNone = true ∧ w.calls = []

/-- To go on alone does not change what is left in the end. -/
theorem rest_move {w w' : Worker δ ω α κ γ} {d d' : δ}
    (h : w.move apply start d = some (d', w')) :
    w'.rest apply start d' = w.rest apply start d := by
  obtain ⟨key, calls, task, all⟩ := w
  cases task with
  | none =>
      cases calls with
      | nil => cases h
      | cons c cs =>
          obtain ⟨rfl, rfl⟩ := Prod.mk.inj (Option.some.inj h)
          rfl
  | some t =>
      obtain ⟨copy, t⟩ := t
      cases t with
      | returned r =>
          obtain ⟨rfl, rfl⟩ := Prod.mk.inj (Option.some.inj h)
          rfl
      | get next =>
          obtain ⟨rfl, rfl⟩ := Prod.mk.inj (Option.some.inj h)
          rfl
      | update data next =>
          obtain ⟨rfl, rfl⟩ := Prod.mk.inj (Option.some.inj h)
          rfl

/-! ## Parts of the document -/

section Parts

variable {ν : Type} (view : κ → δ → ν) (allowed : κ → γ → Prop)

/-- The rules that a call obeys: it sees its own part only, and what it stores is
    its copy outside that part. -/
structure Disciplined : Prop where
  sees   : ∀ k c, allowed k c → ∀ d d', view k d = view k d' →
    Promise.Local apply (view k) (fun _ _ => True) (start c d) (start c d')
  stores : ∀ k c, allowed k c → ∀ copy, (start c copy).All
    (fun data => ∀ j, j ≠ k → ∀ d, view j copy = view j d → view j (apply data d) = view j d)
    (fun _ => True)

/-- A worker that stores has a copy that is up to date in all other parts. -/
def UpToDate (s : State δ ω α κ γ) (i : Nat) : Prop :=
  ∀ w, s.workers[i]? = some w → ∀ copy data next, w.task = some (copy, .update data next) →
    ∀ j, j ≠ w.key → view j copy = view j s.document

/-- The parts of the others stay as they are. -/
def LeavesOthers (s : State δ ω α κ γ) (i : Nat) : Prop :=
  ∀ w s', s.workers[i]? = some w → move apply start s i = some s' →
    ∀ j, j ≠ w.key → view j s'.document = view j s.document

/-- A worker whose calls obey the rules, with the part it leaves if it goes on
    alone. -/
structure Orderly (d₀ d : δ) (w : Worker δ ω α κ γ) : Prop where
  calls : ∀ c ∈ w.calls, allowed w.key c
  sees  : ∀ copy t, w.task = some (copy, t) → Promise.Local apply (view w.key) (fun _ _ => True) t t
  -- what is still to be stored
  stores : ∀ copy t, w.task = some (copy, t) → t.All
    (fun data => ∀ j, j ≠ w.key → ∀ d, view j copy = view j d → view j (apply data d) = view j d)
    (fun _ => True)
  rest : view w.key (w.rest apply start d) = view w.key (alone apply start w.all d₀)

/-- The workers as they began, each of them orderly. -/
structure System (d₀ : δ) (ws : List (κ × List γ)) (s : State δ ω α κ γ) : Prop where
  origin  : s.workers.map Worker.origin = ws
  orderly : ∀ w ∈ s.workers, Orderly apply start view allowed d₀ s.document w

variable {apply start view allowed}

theorem view_alone (h : Disciplined apply start view allowed) {k : κ} {calls : List γ}
    (hc : ∀ c ∈ calls, allowed k c) : ∀ {d d' : δ}, view k d = view k d' →
      view k (alone apply start calls d) = view k (alone apply start calls d') := by
  induction calls with
  | nil => exact fun hd => hd
  | cons c cs ih =>
      intro d d' hd
      have hlocal := h.sees k c (hc c List.mem_cons_self) d d' hd
      exact ih (fun c' hc' => hc c' (List.mem_cons_of_mem c hc')) (hlocal.finish hd)

/-- What others do outside the part of a worker does not matter to it. -/
theorem Orderly.congr (h : Disciplined apply start view allowed) {d₀ d d' : δ}
    {w : Worker δ ω α κ γ} (hw : Orderly apply start view allowed d₀ d w)
    (hd : view w.key d' = view w.key d) : Orderly apply start view allowed d₀ d' w := by
  refine ⟨hw.calls, hw.sees, hw.stores, ?_⟩
  rw [← hw.rest]
  have hsees := hw.sees
  have hcalls := hw.calls
  rw [Worker.rest.eq_def, Worker.rest.eq_def]
  cases htask : w.task with
  | none => exact view_alone h hcalls hd
  | some t => exact view_alone h hcalls ((hsees t.1 t.2 htask).finish hd)

/-- A step of the worker itself. -/
theorem Orderly.move (h : Disciplined apply start view allowed) {d₀ d d' : δ}
    {w w' : Worker δ ω α κ γ} (hw : Orderly apply start view allowed d₀ d w)
    (hm : w.move apply start d = some (d', w')) :
    w'.key = w.key ∧ w'.all = w.all ∧ Orderly apply start view allowed d₀ d' w' := by
  have hrest := rest_move apply start hm
  obtain ⟨hcalls, hsees, hstores, halone⟩ := hw
  obtain ⟨key, calls, task, all⟩ := w
  cases task with
  | none =>
      cases calls with
      | nil => cases hm
      | cons c cs =>
          obtain ⟨rfl, rfl⟩ := Prod.mk.inj (Option.some.inj hm)
          have hc := hcalls c List.mem_cons_self
          refine ⟨rfl, rfl, fun c' hc' => hcalls c' (List.mem_cons_of_mem c hc'), ?_, ?_, ?_⟩
          · rintro copy t ⟨⟩
            exact h.sees key c hc d d rfl
          · rintro copy t ⟨⟩
            exact h.stores key c hc d
          · rw [hrest]
            exact halone
  | some t =>
      obtain ⟨copy, t⟩ := t
      have hsee := hsees copy t rfl
      have hstore := hstores copy t rfl
      cases t with
      | returned r =>
          obtain ⟨rfl, rfl⟩ := Prod.mk.inj (Option.some.inj hm)
          refine ⟨rfl, rfl, hcalls, ?_, ?_, ?_⟩
          · rintro copy' t ⟨⟩
          · rintro copy' t ⟨⟩
          · rw [hrest]
            exact halone
      | get next =>
          obtain ⟨rfl, rfl⟩ := Prod.mk.inj (Option.some.inj hm)
          refine ⟨rfl, rfl, hcalls, ?_, ?_, ?_⟩
          · rintro copy' t ⟨⟩
            cases hsee with
            | get hnext => exact hnext d d rfl
          · rintro copy' t ⟨⟩
            exact hstore d
          · rw [hrest]
            exact halone
      | update data next =>
          obtain ⟨rfl, rfl⟩ := Prod.mk.inj (Option.some.inj hm)
          refine ⟨rfl, rfl, hcalls, ?_, ?_, ?_⟩
          · rintro copy' t ⟨⟩
            cases hsee with
            | update _ hnext => exact hnext
          · rintro copy' t ⟨⟩
            exact hstore.2
          · rw [hrest]
            exact halone

/-- A step that stores from a copy that is up to date leaves the other parts. -/
theorem Orderly.leaves {d₀ d d' : δ} {w w' : Worker δ ω α κ γ}
    (hw : Orderly apply start view allowed d₀ d w)
    (hup : ∀ copy data next, w.task = some (copy, .update data next) →
      ∀ j, j ≠ w.key → view j copy = view j d)
    (hm : w.move apply start d = some (d', w')) (j : κ) (hj : j ≠ w.key) :
      view j d' = view j d := by
  obtain ⟨key, calls, task, all⟩ := w
  cases task with
  | none =>
      cases calls with
      | nil => cases hm
      | cons c cs =>
          obtain ⟨rfl, rfl⟩ := Prod.mk.inj (Option.some.inj hm)
          rfl
  | some t =>
      obtain ⟨copy, t⟩ := t
      cases t with
      | returned r =>
          obtain ⟨rfl, rfl⟩ := Prod.mk.inj (Option.some.inj hm)
          rfl
      | get next =>
          obtain ⟨rfl, rfl⟩ := Prod.mk.inj (Option.some.inj hm)
          rfl
      | update data next =>
          obtain ⟨rfl, rfl⟩ := Prod.mk.inj (Option.some.inj hm)
          exact (hw.stores copy _ rfl).1 j hj d (hup copy data next rfl j hj)

/-! ## The workers together -/

theorem system_begin (d : δ) {ws : List (κ × List γ)}
    (hallowed : ∀ w ∈ ws, ∀ c ∈ w.2, allowed w.1 c) :
    System apply start view allowed d ws
      (begin d ws) := by
  constructor
  · rw [begin, List.map_map]
    exact List.map_id ws
  · intro w hw
    obtain ⟨v, hv, rfl⟩ := List.mem_map.mp hw
    exact ⟨hallowed v hv, by rintro copy t ⟨⟩, by rintro copy t ⟨⟩, rfl⟩

/-- What one step of a worker that is up to date does. -/
theorem system_step (h : Disciplined apply start view allowed) {d₀ : δ} {ws : List (κ × List γ)}
    (hnodup : (ws.map Prod.fst).Nodup) {s s' : State δ ω α κ γ} {i : Nat}
    (hs : System apply start view allowed d₀ ws s)
    (hup : UpToDate view s i) (hm : move apply start s i = some s') :
    System apply start view allowed d₀ ws s' ∧
      LeavesOthers apply start view s i := by
  obtain ⟨w, hw, hm'⟩ := Option.bind_eq_some_iff.mp hm
  obtain ⟨⟨d', w'⟩, hmove, rfl⟩ := Option.map_eq_some_iff.mp hm'
  have hworker := hs.orderly w (List.mem_of_getElem? hw)
  obtain ⟨hkey, hall, horderly⟩ := hworker.move h hmove
  have hleaves := hworker.leaves (hup w hw) hmove
  refine ⟨⟨?_, ?_⟩, ?_⟩
  · rw [← hs.origin]
    exact Runs.map_set_of_eq hw (by rw [Worker.origin, Worker.origin, hkey, hall])
  · intro v hv
    obtain ⟨j, hj⟩ := List.mem_iff_getElem?.mp hv
    rcases Runs.getElem?_set_cases hj with ⟨_, rfl⟩ | ⟨hji, hj⟩
    · exact horderly
    · -- another worker has another key
      have hne : v.key ≠ w.key := by
        intro heq
        have hkeys : (s.workers.map Worker.key).Nodup := by
          rw [← hs.origin, List.map_map] at hnodup
          exact hnodup
        have hlt : j < (s.workers.map Worker.key).length := by
          rw [List.length_map]
          exact (List.getElem?_eq_some_iff.mp hj).1
        refine hji ((List.getElem?_inj hlt hkeys).mp ?_)
        rw [List.getElem?_map, List.getElem?_map, hj, hw, Option.map_some, Option.map_some, heq]
      exact (hs.orderly v (List.mem_of_getElem? hj)).congr h (hleaves v.key hne)
  · intro v t hv ht j hj
    rw [hw] at hv
    rw [hm] at ht
    obtain rfl := Option.some.inj hv
    obtain rfl := Option.some.inj ht
    exact hleaves j hj

/-- A step that is not possible leaves everything. -/
theorem leavesOthers_of_none {s : State δ ω α κ γ} {i : Nat} (h : move apply start s i = none) :
    LeavesOthers apply start view s i := by
  intro w s' _ hs'
  rw [h] at hs'
  cases hs'

/-- **The rule for workers on one document.** -/
theorem undisturbed (h : Disciplined apply start view allowed) (d : δ) {ws : List (κ × List γ)}
    (hnodup : (ws.map Prod.fst).Nodup) (hallowed : ∀ w ∈ ws, ∀ c ∈ w.2, allowed w.1 c)
    {steps : List Nat} {t : State δ ω α κ γ}
    (hr : Runs.run (move apply start) (begin d ws) steps = some t)
    (hm : Runs.Meets (move apply start) (UpToDate view) (begin d ws) steps) :
    Runs.Meets (move apply start) (LeavesOthers apply start view) (begin d ws) steps ∧
      ((∀ w ∈ t.workers, w.Done) →
        ∀ w ∈ ws, view w.1 t.document = view w.1 (alone apply start w.2 d)) := by
  have hbegin : System apply start view allowed d ws (begin d ws) := system_begin d hallowed
  have hstep : ∀ s i s', System apply start view allowed d ws s → UpToDate view s i →
      move apply start s i = some s' →
      System apply start view allowed d ws s' :=
    fun s i s' hs hup hmove => (system_step h hnodup hs hup hmove).1
  constructor
  · refine Runs.meets_of_invariant (move apply start) hstep ?_ steps _ hbegin hm
    intro s i hs hup
    cases hmove : move apply start s i with
    | none => exact leavesOthers_of_none hmove
    | some s' => exact (system_step h hnodup hs hup hmove).2
  · intro hdone w hw
    have hsystem := Runs.run_invariant (move apply start) hstep steps _ t hbegin hm hr
    rw [← hsystem.origin] at hw
    obtain ⟨v, hv, rfl⟩ := List.mem_map.mp hw
    have hrest := (hsystem.orderly v hv).rest
    obtain ⟨htask, hcalls⟩ := hdone v hv
    rw [Worker.rest.eq_def, Option.isNone_iff_eq_none.mp htask, hcalls] at hrest
    exact hrest

end Parts

end Workers
