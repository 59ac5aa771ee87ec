import NestServer.SharedOptions

/-! # Calls on a shared options object do not leak

    The objects drift from how the caller left them only by what the calls made
    so far have written.  A harmless step starts no call that such a write would
    reach, so each call still works with the settings it has alone. -/

namespace SharedOptions

open Runs

/-! ## What one call reads and writes -/

section Calls

variable {caller : Heap}

theorem mark_eq (v : Variant) (o : ServiceOptions) :
    v.mark o = { o with force := o.force || v != .plain, raw := o.raw || v == .raw } := by
  have hplain : (Variant.plain == Variant.raw) = false := rfl
  have hforce : (Variant.force == Variant.raw) = false := rfl
  cases v <;> simp [Variant.mark, hplain, hforce]

theorem arrive_shared (h : Heap) (c : Call) :
    (arrive h c).shared = { h.shared with
      force := h.shared.force || c.variant != .plain,
      raw := h.shared.raw || c.variant == .raw,
      prepareInput := if c.method = .create then .given else h.shared.prepareInput } := by
  rw [arrive, mark_eq]
  by_cases hc : c.method = .create
  · rw [if_pos hc, if_pos hc, prepareServiceOptionsForCreate]
    by_cases hg : h.shared.prepareInput = .given
    · simp only [hg, if_true]
      split <;> rfl
    · simp [hg]
  · rw [if_neg hc, if_neg hc]

theorem arrive_prepareOutput (h : Heap) (c : Call) :
    (arrive h c).prepareOutput = h.prepareOutput := by
  rw [arrive]
  split
  · rw [prepareServiceOptionsForCreate]
    dsimp only
    split <;> split <;> rfl
  · rfl

theorem arrive_current (h : Heap) (c : Call) :
    current (arrive h c) =
      if c.method = .create then
        { current h with create := (current h).create.or (some true) }
      else current h := by
  by_cases hc : c.method = .create
  · rw [if_pos hc, current, arrive_shared, if_pos hc, if_pos rfl, arrive, if_pos hc,
      prepareServiceOptionsForCreate, current]
    by_cases hg : h.shared.prepareInput = .given
    · rw [mark_eq]
      simp only [hg, if_true]
      cases hcr : h.prepareInput.create with
      | none => simp
      | some b =>
          simp only [reduceCtorEq, if_false, Option.some_or]
          rw [← hcr]
    · rw [mark_eq]
      simp [hg]
  · rw [if_neg hc, current, arrive_shared, if_neg hc, arrive, if_neg hc]
    rfl

/-- The object that reaches `process`, apart from what a copy overrides. -/
theorem options_eq (c : Call) (o : ServiceOptions) :
    c.options o = { o with
      prepareInput :=
        if c.copies o = true ∧ o.prepareInput = .unset then .off else o.prepareInput,
      inputType := if c.copies o then none else o.inputType } := by
  rw [Call.options]
  cases c.copies o <;> simp

theorem options_given {c : Call} {o : ServiceOptions}
    (h : (configure (c.options o)).prepareInput = .given) :
    o.raw = false ∧ o.prepareInput = .given := by
  rw [configure, options_eq] at h
  dsimp only at h
  split at h
  · cases h
  · split at h
    · cases h
    · exact ⟨by simpa using ‹¬ o.raw = true›, h⟩

theorem enter_shared (h : Heap) (c : Call) (b : Bool) :
    (enter h c b).1.shared = (arrive h c).shared := rfl

theorem enter_current (h : Heap) (c : Call) (b : Bool) :
    current (enter h c b).1 =
      if (configure (c.options (arrive h c).shared)).prepareInput = .given then
        inputOptions (configure (c.options (arrive h c).shared)) (current (arrive h c))
      else current (arrive h c) := by
  rw [current, enter_shared]
  by_cases hg : (configure (c.options (arrive h c).shared)).prepareInput = .given
  · have hgiven := (options_given hg).2
    rw [if_pos hg, if_pos hgiven, current, if_pos hgiven, enter, process]
    exact if_pos hg
  · rw [if_neg hg, current, enter, process]
    simp only [if_neg hg]

theorem enter_prepareOutput (h : Heap) (c : Call) (b : Bool) :
    (enter h c b).1.prepareOutput =
      if (configure (arrive h c).shared).prepareOutput = .given then
        relaxOutput (arrive h c).shared.force h.prepareOutput
      else h.prepareOutput := by
  rw [enter, process, options_eq, ← arrive_prepareOutput h c]
  rfl

/-- Two calls that reach `process` with the same configuration work with the
    same settings, if they find the same input options. -/
theorem process_seen {h h' : Heap} {o o' : ServiceOptions} {b b' : Bool}
    (hconfig : configure o = configure o') (hb : (b || o.force) = (b' || o'.force))
    (hinput : (configure o).prepareInput = .given →
      inputOptions (configure o) h.prepareInput = inputOptions (configure o) h'.prepareInput) :
    (process h o b).2 = (process h' o' b').2 := by
  have hbypass : (b || (configure o).force) = (b' || (configure o').force) := hb
  rw [process, process]
  dsimp only
  rw [hbypass, ← hconfig]
  cases hp : (configure o).prepareInput with
  | unset => rfl
  | off => rfl
  | given => rw [hinput hp]

end Calls

/-! ## The invariant -/

section Invariant

variable {caller : Heap} {s s' : State}

/-- How far calls take the objects from how the caller left them: the flags are
    the caller's or those of the calls made so far, and a nested object differs
    only where one of these calls has written. -/
structure Drift (caller h : Heap) (started : List Call) : Prop where
  shared     : h.shared = { caller.shared with
    force        := caller.shared.force || started.any (·.variant != .plain),
    raw          := caller.shared.raw || started.any (·.variant == .raw),
    prepareInput :=
      if started.any (·.method = .create) then .given else caller.shared.prepareInput }
  checkRoles : (current h).checkRoles = (current caller).checkRoles ∨
    ∃ d ∈ started, asksForce caller d = true
  create     : (current h).create =
    if started.any (·.method = .create) then (current caller).create.or (some true)
    else (current caller).create
  target     : (current h).targetModel.or caller.shared.inputType =
    (current caller).targetModel.or caller.shared.inputType
  untyped    : (current caller).targetModel ≠ none ∨
    (∀ d ∈ started, d.copies caller.shared = true ∨ d.misses = true) →
    (current h).targetModel = (current caller).targetModel
  secrets    : h.prepareOutput.removeSecrets = caller.prepareOutput.removeSecrets ∨
    ∃ d ∈ started, asksForce caller d = true
  mapping    : h.prepareOutput.targetModel.orType caller.shared.outputType =
    caller.prepareOutput.targetModel.orType caller.shared.outputType

/-- What holds between the steps of a harmless run. -/
structure Inv (caller : Heap) (s : State) : Prop extends Drift caller s.heap s.started where
  calls    : ∀ f ∈ s.running, f.call ∈ s.started
  kept     : ∀ f ∈ s.running, asksRaw caller f.call = false →
    caller.shared.prepareOutput = .given →
    s.heap.prepareOutput.removeSecrets =
      (relaxOutput (asksForce caller f.call) caller.prepareOutput).removeSecrets
  isolated : Isolated caller s

theorem inv_start (h : Start caller s) : Inv caller s := by
  obtain ⟨rfl, hrunning, hdone, hstarted⟩ := h
  refine ⟨⟨by simp [hstarted], Or.inl rfl, by simp [hstarted], rfl, fun _ => rfl, Or.inl rfl, rfl⟩,
    by simp [hrunning], by simp [hrunning], ⟨by simp [hrunning], by simp [hdone]⟩⟩

/-- Arriving at `process` changes no input option but `create`. -/
theorem arrive_input (h : Heap) (c : Call) :
    (current (arrive h c)).checkRoles = (current h).checkRoles ∧
      (current (arrive h c)).targetModel = (current h).targetModel := by
  rw [arrive_current]
  split <;> exact ⟨rfl, rfl⟩

theorem drift_arrive {h : Heap} {l : List Call} (hd : Drift caller h l) (c : Call) :
    Drift caller (arrive h c) (c :: l) := by
  obtain ⟨hroles, htarget⟩ := arrive_input h c
  have hmem : ∀ {p : Call → Prop}, (∃ d ∈ l, p d) → ∃ d ∈ c :: l, p d := by
    rintro p ⟨d, hd, hp⟩
    exact ⟨d, List.mem_cons_of_mem c hd, hp⟩
  refine ⟨?_, ?_, ?_, ?_, ?_, ?_, ?_⟩
  · rw [arrive_shared, hd.shared, List.any_cons, List.any_cons, List.any_cons]
    have hswap : ∀ a b d : Bool, ((a || b) || d) = (a || (d || b)) := by decide
    by_cases hc : c.method = .create <;> simp [hswap, hc]
  · rw [hroles]
    exact hd.checkRoles.imp_right hmem
  · rw [arrive_current, List.any_cons]
    by_cases hc : c.method = .create
    · rw [if_pos hc, hd.create]
      cases l.any (·.method = .create) <;> cases (current caller).create <;> simp [hc]
    · rw [if_neg hc, hd.create]
      simp [hc]
  · rw [htarget]
    exact hd.target
  · intro hun
    rw [htarget]
    exact hd.untyped (hun.imp_right fun hall d hd => hall d (List.mem_cons_of_mem c hd))
  · rw [arrive_prepareOutput]
    exact hd.secrets.imp_right hmem
  · rw [arrive_prepareOutput]
    exact hd.mapping

/-- What `process` writes into the objects. -/
theorem drift_enter {h : Heap} {c : Call} {l : List Call} (hd : Drift caller (arrive h c) (c :: l))
    (hc : c.misses = false) (b : Bool) : Drift caller (enter h c b).1 (c :: l) := by
  have hforce : (arrive h c).shared.force = true →
      ∃ d ∈ c :: l, asksForce caller d = true := by
    intro hf
    rw [hd.shared, Bool.or_eq_true] at hf
    rcases hf with hf | hf
    · exact ⟨c, List.mem_cons_self, by rw [asksForce, hf]; rfl⟩
    · obtain ⟨d, hmem, hv⟩ := List.any_eq_true.mp hf
      exact ⟨d, hmem, by rw [asksForce, hv, Bool.or_true]⟩
  have htype : (configure (c.options (arrive h c).shared)).inputType =
      if c.copies caller.shared then none else caller.shared.inputType := by
    rw [configure, options_eq, hd.shared]
    rfl
  have hflag : (configure (c.options (arrive h c).shared)).force =
      (arrive h c).shared.force := by
    rw [configure, options_eq]
  refine ⟨hd.shared, ?_, ?_, ?_, ?_, ?_, ?_⟩
  · rw [enter_current]
    split
    · rw [inputOptions, hflag]
      cases hf : (arrive h c).shared.force with
      | true => exact Or.inr (hforce hf)
      | false => exact hd.checkRoles
    · exact hd.checkRoles
  · rw [enter_current]
    split <;> exact hd.create
  · rw [enter_current, ← hd.target]
    split
    · rw [inputOptions, htype]
      cases c.copies caller.shared <;>
        cases (current (arrive h c)).targetModel <;> simp
    · rfl
  · intro hun
    rw [enter_current, ← hd.untyped hun]
    split
    · rw [inputOptions, htype, hd.untyped hun]
      rcases hun with hsome | hall
      · obtain ⟨m, hm⟩ := Option.ne_none_iff_exists'.mp hsome
        rw [hm]
        rfl
      · rcases hall c List.mem_cons_self with hcopies | hmiss
        · simp [hcopies]
        · rw [hc] at hmiss
          cases hmiss
    · rfl
  · rw [enter_prepareOutput, ← arrive_prepareOutput h c]
    split
    · rw [relaxOutput]
      cases hf : (arrive h c).shared.force with
      | true => exact Or.inr (hforce hf)
      | false => exact hd.secrets
    · exact hd.secrets
  · rw [enter_prepareOutput, ← arrive_prepareOutput h c]
    split <;> exact hd.mapping

/-- After calls that did not ask for it, the flag is up exactly if this one
    does. -/
theorem any_asks (flag : Bool) (p : Call → Bool) {l : List Call} (c : Call)
    (h : (flag || p c) = false → ∀ d ∈ l, (flag || p d) = false) :
    (flag || (c :: l).any p) = (flag || p c) := by
  rw [List.any_cons]
  cases hc : flag || p c with
  | true =>
      rw [Bool.or_eq_true] at hc ⊢
      rw [Bool.or_eq_true]
      exact hc.imp_right Or.inl
  | false =>
      have hnone : l.any p = false := by
        rw [List.any_eq_false]
        intro d hd
        simp [(Bool.or_eq_false_iff.mp (h hc d hd)).2]
      rw [hnone, Bool.or_false, hc]

/-- The caller's object under the flags that the call asks for. -/
theorem alone_shared (caller : Heap) (c : Call) : (arrive caller c).shared = { caller.shared with
    force        := asksForce caller c,
    raw          := asksRaw caller c,
    prepareInput := if c.method = .create then .given else caller.shared.prepareInput } :=
  arrive_shared caller c

theorem given_of_create {h : Heap} (hc : (current h).create ≠ none) :
    h.shared.prepareInput = .given := by
  by_contra hg
  rw [current, if_neg hg] at hc
  exact hc rfl

/-- An undisturbed call finds a `create` option exactly if it is its own or the
    caller's. -/
theorem Undisturbed.any_create {c : Call} (hu : Undisturbed caller s c)
    (hraw : asksRaw caller c = false) (hnone : (current caller).create = none) :
    (c :: s.started).any (·.method = .create) = decide (c.method = .create) := by
  rw [List.any_cons]
  by_cases hc : c.method = .create
  · simp [hc]
  · have hall := hu.create hraw hc hnone
    simpa [hc] using hall

section Undisturbed

variable {c : Call} (h : Inv caller s) (hu : Undisturbed caller s c)
include h hu

theorem Inv.arrived_prepareInput (hraw : asksRaw caller c = false) :
    (arrive s.heap c).shared.prepareInput = (arrive caller c).shared.prepareInput := by
  rw [(drift_arrive h.toDrift c).shared, alone_shared caller]
  dsimp only
  by_cases hnone : (current caller).create = none
  · rw [hu.any_create hraw hnone]
    simp
  · rw [given_of_create hnone]
    simp

/-- An undisturbed call comes to `process` with the caller's options and its own
    flags. -/
theorem Inv.arrived_shared : (arrive s.heap c).shared = { (arrive caller c).shared with
    prepareInput := (arrive s.heap c).shared.prepareInput } := by
  rw [alone_shared caller, (drift_arrive h.toDrift c).shared]
  have hforce : (caller.shared.force || (c :: s.started).any (·.variant != .plain)) =
      asksForce caller c := any_asks caller.shared.force (·.variant != .plain) c hu.force
  have hraw : (caller.shared.raw || (c :: s.started).any (·.variant == .raw)) =
      asksRaw caller c := any_asks caller.shared.raw (·.variant == .raw) c hu.raw
  rw [hforce, hraw]

theorem Inv.config_eq :
    configure (c.options (arrive s.heap c).shared) =
      configure (c.options (arrive caller c).shared) := by
  cases hraw : asksRaw caller c with
  | true =>
      -- the input options are not looked at
      have hr : (arrive caller c).shared.raw = true := by rw [alone_shared]; exact hraw
      have hcopies : c.copies (arrive s.heap c).shared = c.copies (arrive caller c).shared := by
        rw [h.arrived_shared hu]
        rfl
      rw [configure, configure, options_eq, options_eq, hcopies, h.arrived_shared hu]
      simp [hr]
  | false =>
      have heq : (arrive s.heap c).shared = (arrive caller c).shared := by
        rw [h.arrived_shared hu, h.arrived_prepareInput hu hraw]
      rw [heq]

/-- The target of an undisturbed call.  A copy has no input type of its own to
    put there, so it is the caller's only if nobody has put one there. -/
theorem Inv.typed_eq (hraw : asksRaw caller c = false)
    (hg : (arrive caller c).shared.prepareInput = .given) :
    (current s.heap).targetModel.or (configure (c.options (arrive caller c).shared)).inputType =
      (current caller).targetModel.or
        (configure (c.options (arrive caller c).shared)).inputType := by
  have hcopies : c.copies (arrive caller c).shared = c.copies caller.shared := by
    rw [alone_shared]
    rfl
  have htype : (configure (c.options (arrive caller c).shared)).inputType =
      if c.copies caller.shared then none else caller.shared.inputType := by
    rw [← hcopies, configure, options_eq, alone_shared]
  rw [htype]
  cases hc : c.copies caller.shared with
  | false => exact h.target
  | true =>
      have hmethod : c.method ≠ .create := by
        intro hm
        simp [Call.copies, hm] at hc
      have hgiven : caller.shared.prepareInput = .given := by
        rw [alone_shared] at hg
        simpa [hmethod] using hg
      have hcurrent : current caller = caller.prepareInput := by rw [current, if_pos hgiven]
      refine congrArg (·.or none) (h.untyped ?_)
      rw [hcurrent]
      by_cases hnone : caller.prepareInput.targetModel = none
      · exact Or.inr (hu.typed hraw hc hgiven hnone)
      · exact Or.inl hnone

theorem Inv.input_eq (hg : (configure (c.options (arrive s.heap c).shared)).prepareInput = .given) :
    inputOptions (configure (c.options (arrive s.heap c).shared)) (arrive s.heap c).prepareInput =
      inputOptions (configure (c.options (arrive s.heap c).shared))
        (arrive caller c).prepareInput := by
  have hgiven := options_given hg
  have hgiven' := options_given (h.config_eq hu ▸ hg)
  have hraw : asksRaw caller c = false := by
    rw [← hgiven'.1, alone_shared]
  have hcur : (arrive s.heap c).prepareInput = current (arrive s.heap c) := by
    rw [current, if_pos hgiven.2]
  have hcur' : (arrive caller c).prepareInput = current (arrive caller c) := by
    rw [current, if_pos hgiven'.2]
  rw [hcur, hcur', h.config_eq hu]
  obtain ⟨hroles, htarget⟩ := arrive_input s.heap c
  obtain ⟨hroles', htarget'⟩ := arrive_input caller c
  have hforce : (configure (c.options (arrive caller c).shared)).force = asksForce caller c := by
    rw [configure, options_eq, alone_shared]
  have hcreate : (current (arrive s.heap c)).create = (current (arrive caller c)).create := by
    rw [(drift_arrive h.toDrift c).create, arrive_current]
    cases hnone : (current caller).create with
    | none =>
        rw [hu.any_create hraw hnone]
        by_cases hc : c.method = .create <;> simp [hc, hnone]
    | some b => by_cases hc : c.method = .create <;> simp [hc, hnone]
  have hchecked : (if asksForce caller c then some false else (current s.heap).checkRoles) =
      if asksForce caller c then some false else (current caller).checkRoles := by
    cases hf : asksForce caller c with
    | true => rfl
    | false =>
        rcases h.checkRoles with heq | ⟨d, hd, hdf⟩
        · rw [heq]
        · rw [hu.force hf d hd] at hdf
          cases hdf
  rw [inputOptions, inputOptions, hforce, hroles, hroles', htarget, htarget', hcreate, hchecked,
    h.typed_eq hu hraw (hgiven'.2)]

/-- An undisturbed call works with the settings it has alone. -/
theorem Inv.seen_eq {bypass : Bool} (hb : bypass = true → asksForce caller c = true) :
    (enter s.heap c bypass).2 = alone caller c := by
  have hconfig := h.config_eq hu
  have hforce' : (c.options (arrive caller c).shared).force = asksForce caller c := by
    rw [options_eq, alone_shared]
  have hforce : (c.options (arrive s.heap c).shared).force = asksForce caller c :=
    (congrArg ServiceOptions.force hconfig).trans hforce'
  refine process_seen hconfig ?_ (h.input_eq hu)
  rw [hforce, hforce', Bool.false_or]
  cases bypass with
  | false => rfl
  | true => rw [hb rfl]; rfl

end Undisturbed

end Invariant

/-! ## What a call alone skips -/

section Alone

variable {caller : Heap}

theorem alone_config (caller : Heap) (c : Call) :
    (alone caller c).config = configure (c.options (arrive caller c).shared) := rfl

theorem alone_checkRights (c : Call) :
    (alone caller c).config.checkRights =
      (caller.shared.checkRights && !asksForce caller c) := by
  rw [alone_config, configure, options_eq, alone_shared]

theorem alone_bypass (c : Call) : (alone caller c).bypassRoleGuard = asksForce caller c := by
  show (false || (c.options (arrive caller c).shared).force) = _
  rw [Bool.false_or, options_eq, alone_shared]

theorem alone_force (c : Call) : (alone caller c).config.force = asksForce caller c := by
  rw [alone_config, configure, options_eq, alone_shared]

theorem alone_output (c : Call) :
    (alone caller c).config.prepareOutput =
      if asksRaw caller c then .off else caller.shared.prepareOutput := by
  rw [alone_config, configure, options_eq, alone_shared]

/-- The role check of a call alone. -/
theorem alone_roles (c : Call) :
    (alone caller c).prepareInput.bind (·.checkRoles) = some true ↔
      asksForce caller c = false ∧ asksRaw caller c = false ∧
        caller.shared.prepareInput = .given ∧ caller.prepareInput.checkRoles = some true := by
  have hsetting : (alone caller c).config.prepareInput =
      if asksRaw caller c then .off else (c.options (arrive caller c).shared).prepareInput := by
    rw [alone_config, configure, options_eq, alone_shared]
  have hinput : (alone caller c).prepareInput =
      if (alone caller c).config.prepareInput = .off then none
      else some (inputOptions (alone caller c).config
        (if (alone caller c).config.prepareInput = .given then (arrive caller c).prepareInput
          else {})) := by
    rw [alone, enter, process]
    dsimp only
    cases (configure (c.options (arrive caller c).shared)).prepareInput <;> rfl
  have hroles : ∀ i : PrepareInputOptions, (inputOptions (alone caller c).config i).checkRoles =
      if asksForce caller c then some false else i.checkRoles := by
    intro i
    rw [inputOptions, alone_force]
  cases hraw : asksRaw caller c with
  | true =>
      rw [hinput, hsetting, hraw]
      simp
  | false =>
      cases hf : asksForce caller c with
      | true =>
          rw [hinput]
          by_cases hoff : (alone caller c).config.prepareInput = .off
          · simp [hoff]
          · simp [hoff, hroles, hf]
      | false =>
          have hset : (c.options (arrive caller c).shared).prepareInput = .given →
              (arrive caller c).prepareInput.checkRoles = (current caller).checkRoles := by
            intro hg
            have hconfig : (configure (c.options (arrive caller c).shared)).prepareInput = .given :=
              (hsetting.trans (by simp [hraw])).trans hg
            rw [← (arrive_input caller c).1, current, if_pos (options_given hconfig).2]
          rw [hinput, hsetting, hraw]
          by_cases hg : caller.shared.prepareInput = .given
          · have hp : (c.options (arrive caller c).shared).prepareInput = .given := by
              rw [options_eq, alone_shared]
              simp [hg]
            have hcur : current caller = caller.prepareInput := by rw [current, if_pos hg]
            simp [hp, hroles, hf, hset hp, hcur, hg]
          · have hcur : (current caller).checkRoles = none := by rw [current, if_neg hg]
            simp only [Bool.false_eq_true, if_false, hg, false_and, and_false, iff_false]
            cases hp : (c.options (arrive caller c).shared).prepareInput with
            | unset => simp [hroles, hf]
            | off => simp
            | given => simp [hroles, hf, hset hp, hcur]

theorem inputAsAsked_alone (c : Call) (nested : Bool) :
    InputAsAsked caller ⟨c, nested, alone caller c⟩ := by
  refine ⟨?_, ?_, ?_⟩
  · rw [alone_checkRights]
    cases asksForce caller c <;> simp
  · rw [alone_bypass]
  · rw [Ne, alone_roles]
    cases asksForce caller c <;> cases asksRaw caller c <;> simp

theorem orType_eq_undefined (t : TargetModel) (o : Option String) :
    t.orType o = .undefined ↔ t = .undefined ∧ o = none := by
  cases t <;> cases o <;> simp [TargetModel.orType]

@[simp] theorem orType_orType (t : TargetModel) (o : Option String) :
    (t.orType o).orType o = t.orType o := by
  cases t <;> cases o <;> rfl

theorem leave_snd (h : Heap) (x : Seen) (nested : Bool) :
    (leave h x nested).2 =
      match x.config.prepareOutput with
      | .off   => none
      | .unset => some (outputOptions x.config nested x.ownOutput)
      | .given => some (outputOptions x.config nested h.prepareOutput) := by
  rw [leave]
  cases x.config.prepareOutput <;> rfl

/-- The output options of a call alone. -/
theorem aloneOutput_eq (caller : Heap) (c : Call) (nested : Bool) :
    aloneOutput caller c nested =
      match (alone caller c).config.prepareOutput with
      | .off   => none
      | .unset => some (outputOptions (alone caller c).config nested
          (relaxOutput (asksForce caller c) {}))
      | .given => some (outputOptions (alone caller c).config nested
          (relaxOutput (asksForce caller c) caller.prepareOutput)) := by
  have hown : (alone caller c).ownOutput = relaxOutput (alone caller c).config.force {} := rfl
  have hgiven : (alone caller c).config.prepareOutput = .given →
      (enter caller c false).1.prepareOutput =
        relaxOutput (asksForce caller c) caller.prepareOutput := by
    intro hg
    rw [enter_prepareOutput]
    have hg' : (configure (arrive caller c).shared).prepareOutput = .given := by
      rw [← hg, alone_config, configure, configure, options_eq]
    rw [if_pos hg', alone_shared]
  rw [aloneOutput, leave_snd, hown, alone_force]
  cases hp : (alone caller c).config.prepareOutput with
  | off => rfl
  | unset => rfl
  | given =>
      dsimp only
      rw [hgiven hp]

theorem outputOptions_target (c : Call) (nested : Bool) (o : PrepareOutputOptions) :
    (outputOptions (alone caller c).config nested o).targetModel = .undefined ↔
      (nested = true ∧ caller.shared.populate = false) ∨
        (o.targetModel = .undefined ∧ caller.shared.outputType = none) := by
  have hpopulate : (alone caller c).config.populate = caller.shared.populate := by
    rw [alone_config, configure, options_eq, alone_shared]
  have htype : (alone caller c).config.outputType = caller.shared.outputType := by
    rw [alone_config, configure, options_eq, alone_shared]
  rw [outputOptions, hpopulate, htype]
  cases nested <;> cases caller.shared.populate <;> simp [orType_eq_undefined]

/-- What a call alone skips of its output, if no output path takes the options
    away from it. -/
theorem outputAsAsked_alone {f : Frame} (hpath : pathed caller f.call →
      asksRaw caller f.call = false → caller.shared.prepareOutput ≠ .off →
      asksForce caller f.call = false ∧
        (caller.shared.prepareOutput = .given → caller.prepareOutput.removeSecrets ≠ some false)) :
    OutputAsAsked caller ⟨f, aloneOutput caller f.call f.nested⟩ := by
  have hkeeps : ∀ o : PrepareOutputOptions,
      (outputOptions (alone caller f.call).config f.nested
        (relaxOutput (asksForce caller f.call) o)).removeSecrets = some false ↔
        asksForce caller f.call = true ∨ o.removeSecrets = some false := by
    intro o
    rw [outputOptions, relaxOutput]
    cases asksForce caller f.call <;> simp
  have hskips : ∀ o : PrepareOutputOptions,
      (relaxOutput (asksForce caller f.call) o).targetModel = o.targetModel := fun _ => rfl
  constructor
  · rw [Ran.keepsSecrets]
    dsimp only
    rw [aloneOutput_eq, alone_output]
    cases hraw : asksRaw caller f.call with
    | true => simp
    | false =>
        cases hp : caller.shared.prepareOutput with
        | off => simp
        | unset =>
            by_cases hpathed : pathed caller f.call
            · have hf := (hpath hpathed hraw (by simp [hp])).1
              simp [hpathed, hf]
            · simp [hpathed, hkeeps]
        | given =>
            by_cases hpathed : pathed caller f.call
            · obtain ⟨hf, hs⟩ := hpath hpathed hraw (by simp [hp])
              simp [hpathed, hf, hs hp]
            · simp [hpathed, hkeeps]
  · rw [Ran.skipsMapping]
    dsimp only
    rw [aloneOutput_eq, alone_output]
    cases hraw : asksRaw caller f.call with
    | true => simp
    | false =>
        cases hp : caller.shared.prepareOutput with
        | off => simp
        | unset => simp [outputOptions_target, hskips]
        | given => simp [outputOptions_target, hskips, and_comm]

end Alone

/-! ## Steps -/

section Steps

variable {caller : Heap} {s s' : State}

theorem inputAsAsked_of_seen {f : Frame} (h : f.seen = alone caller f.call) :
    InputAsAsked caller f := by
  obtain ⟨c, nested, seen⟩ := f
  obtain rfl : seen = alone caller c := h
  exact inputAsAsked_alone c nested

/-- A call that does not come to its `process`. -/
theorem Inv.miss (h : Inv caller s) (c : Call) :
    Inv caller { s with heap := arrive s.heap c, started := c :: s.started } := by
  refine ⟨drift_arrive h.toDrift c, ?_, ?_, h.isolated.running, h.isolated.done⟩
  · intro f hf
    exact List.mem_cons_of_mem c (h.calls f hf)
  · intro f hf
    show asksRaw caller f.call = false → _ → (arrive s.heap c).prepareOutput.removeSecrets = _
    rw [arrive_prepareOutput]
    exact h.kept f hf

/-- The role guard is bypassed inside a forced call, and a call inside it asks
    for that itself. -/
theorem Inv.bypass {c : Call} (h : Inv caller s) (hu : Undisturbed caller s c)
    (hb : s.bypass = true) : asksForce caller c = true := by
  rw [State.bypass] at hb
  cases hrun : s.running with
  | nil =>
      rw [hrun] at hb
      cases hb
  | cons f rest =>
      rw [hrun] at hb
      have hf : f ∈ s.running := by
        rw [hrun]
        exact List.mem_cons_self
      have hguard : asksForce caller f.call = true := by
        rw [← alone_bypass, ← (h.isolated.running f hf).1]
        exact hb
      by_contra hc
      rw [hu.force (Bool.eq_false_iff.mpr hc) f.call (h.calls f hf)] at hguard
      cases hguard

/-- What an undisturbed call writes into the output options. -/
theorem Inv.entered_output {c : Call} (h : Inv caller s) (hu : Undisturbed caller s c) (b : Bool) :
    (enter s.heap c b).1.prepareOutput =
      if asksRaw caller c = false ∧ caller.shared.prepareOutput = .given then
        relaxOutput (asksForce caller c) s.heap.prepareOutput
      else s.heap.prepareOutput := by
  rw [enter_prepareOutput, configure, h.arrived_shared hu, alone_shared]
  cases asksRaw caller c <;> simp

theorem Inv.call {c : Call} (h : Inv caller s) (hu : Undisturbed caller s c)
    (hc : c.misses = false) :
    Inv caller { s with heap := (enter s.heap c s.bypass).1,
                        running := ⟨c, !s.running.isEmpty, (enter s.heap c s.bypass).2⟩ ::
                          s.running, started := c :: s.started } := by
  have hseen : (enter s.heap c s.bypass).2 = alone caller c := h.seen_eq hu (h.bypass hu)
  refine ⟨drift_enter (drift_arrive h.toDrift c) hc s.bypass, ?_, ?_, ?_, h.isolated.done⟩
  · intro f hf
    rcases List.mem_cons.mp hf with rfl | hf'
    · exact List.mem_cons_self
    · exact List.mem_cons_of_mem c (h.calls f hf')
  · intro f hf hraw hgiven
    show (enter s.heap c s.bypass).1.prepareOutput.removeSecrets = _
    rw [h.entered_output hu]
    rcases List.mem_cons.mp hf with rfl | hf'
    · -- the call itself: nobody before it has written, unless it writes as well
      rw [if_pos ⟨hraw, hgiven⟩, relaxOutput, relaxOutput]
      cases hforce : asksForce caller c with
      | true => rfl
      | false =>
          rcases h.secrets with heq | ⟨d, hd, hdf⟩
          · exact heq
          · rw [hu.force hforce d hd] at hdf
            cases hdf
    · -- a running call: what is written is what it has anyway
      have hkept := h.kept f hf' hraw hgiven
      split
      · next hwrite =>
          cases hforce : asksForce caller c with
          | false => exact hkept
          | true =>
              rw [relaxOutput, relaxOutput]
              by_cases hs : caller.prepareOutput.removeSecrets = some false
              · rw [hs]
                cases asksForce caller f.call <;> rfl
              · rcases hu.secrets hforce hwrite.1 hgiven hs f hf' with hff | hfr
                · rw [hff]
                  rfl
                · rw [hraw] at hfr
                  cases hfr
      · exact hkept
  · intro f hf
    rcases List.mem_cons.mp hf with rfl | hf'
    · exact ⟨hseen, inputAsAsked_of_seen hseen⟩
    · exact h.isolated.running f hf'

/-- The innermost call goes on with the output options it has alone. -/
theorem Inv.leave_eq {f : Frame} (h : Inv caller s) (hf : f ∈ s.running) :
    (leave s.heap f.seen f.nested).2 = aloneOutput caller f.call f.nested := by
  rw [(h.isolated.running f hf).1, leave_snd, aloneOutput_eq]
  cases hp : (alone caller f.call).config.prepareOutput with
  | off => rfl
  | unset =>
      dsimp only
      rw [show (alone caller f.call).ownOutput =
        relaxOutput (alone caller f.call).config.force {} from rfl, alone_force]
  | given =>
      rw [alone_output] at hp
      have hraw : asksRaw caller f.call = false := by
        cases hraw : asksRaw caller f.call with
        | false => rfl
        | true =>
            rw [hraw] at hp
            cases hp
      rw [hraw] at hp
      have hkept := h.kept f hf hraw hp
      have htype : (alone caller f.call).config.outputType = caller.shared.outputType := by
        rw [alone_config, configure, options_eq, alone_shared]
      dsimp only
      rw [outputOptions, outputOptions, htype, h.mapping, hkept]
      rfl

/-- What a returning call writes keeps the target of the mapping, unless it is
    nested. -/
theorem Inv.left_output {f : Frame} (h : Inv caller s) (hf : f ∈ s.running)
    (hkept : OutputKept caller f) :
    (leave s.heap f.seen f.nested).1.prepareOutput.removeSecrets =
        s.heap.prepareOutput.removeSecrets ∧
      (leave s.heap f.seen f.nested).1.prepareOutput.targetModel.orType caller.shared.outputType =
        caller.prepareOutput.targetModel.orType caller.shared.outputType := by
  rw [leave, (h.isolated.running f hf).1]
  cases hp : (alone caller f.call).config.prepareOutput with
  | off => exact ⟨rfl, h.mapping⟩
  | unset => exact ⟨rfl, h.mapping⟩
  | given =>
      refine ⟨rfl, ?_⟩
      have htype : (alone caller f.call).config.outputType = caller.shared.outputType := by
        rw [alone_config, configure, options_eq, alone_shared]
      have hpopulate : (alone caller f.call).config.populate = caller.shared.populate := by
        rw [alone_config, configure, options_eq, alone_shared]
      rw [alone_output] at hp
      dsimp only
      rw [outputOptions, htype, hpopulate]
      split
      · next hskip =>
          rw [Bool.and_eq_true] at hskip
          cases hraw : asksRaw caller f.call with
          | true =>
              rw [hraw] at hp
              cases hp
          | false =>
              rw [hraw] at hp
              exact hkept.target hskip.1 hraw hp (by simpa using hskip.2)
      · rw [orType_orType, h.mapping]

theorem leave_rest (h : Heap) (x : Seen) (nested : Bool) :
    (leave h x nested).1 = { h with prepareOutput := (leave h x nested).1.prepareOutput } := by
  rw [leave]
  cases x.config.prepareOutput <;> rfl

theorem Inv.return {f : Frame} {rest : List Frame} (h : Inv caller s) (hrun : s.running = f :: rest)
    (hkept : OutputKept caller f) :
    Inv caller { s with heap := (leave s.heap f.seen f.nested).1, running := rest,
                        done := ⟨f, (leave s.heap f.seen f.nested).2⟩ :: s.done } := by
  have hf : f ∈ s.running := by
    rw [hrun]
    exact List.mem_cons_self
  have hrest : ∀ g ∈ rest, g ∈ s.running := by
    intro g hg
    rw [hrun]
    exact List.mem_cons_of_mem f hg
  obtain ⟨hsecrets, hmapping⟩ := h.left_output hf hkept
  have hcurrent : current (leave s.heap f.seen f.nested).1 = current s.heap := by
    rw [leave_rest]
    rfl
  refine ⟨⟨?_, ?_, ?_, ?_, ?_, ?_, hmapping⟩, fun g hg => h.calls g (hrest g hg), ?_, ?_, ?_⟩
  · rw [leave_rest]
    exact h.shared
  · rw [hcurrent]
    exact h.checkRoles
  · rw [hcurrent]
    exact h.create
  · rw [hcurrent]
    exact h.target
  · rw [hcurrent]
    exact h.untyped
  · rw [hsecrets]
    exact h.secrets
  · intro g hg
    rw [hsecrets]
    exact h.kept g (hrest g hg)
  · exact fun g hg => h.isolated.running g (hrest g hg)
  · intro r hr
    rcases List.mem_cons.mp hr with rfl | hr'
    · have hout := h.leave_eq hf
      refine ⟨(h.isolated.running f hf).1, (h.isolated.running f hf).2, hout, ?_⟩
      rw [hout]
      exact outputAsAsked_alone hkept.path
    · exact h.isolated.done r hr'

theorem Inv.throw {f : Frame} {rest : List Frame} (h : Inv caller s)
    (hrun : s.running = f :: rest) : Inv caller { s with running := rest } := by
  have hrest : ∀ g ∈ rest, g ∈ s.running := by
    intro g hg
    rw [hrun]
    exact List.mem_cons_of_mem f hg
  exact ⟨h.toDrift, fun g hg => h.calls g (hrest g hg), fun g hg => h.kept g (hrest g hg),
    ⟨fun g hg => h.isolated.running g (hrest g hg), h.isolated.done⟩⟩

theorem inv_step {e : Event} (h : Inv caller s) (he : Harmless caller s e)
    (hs : step s e = some s') : Inv caller s' := by
  cases e with
  | call c =>
      cases hc : c.misses with
      | true =>
          simp only [step, hc, if_true] at hs
          rw [← Option.some.inj hs]
          exact h.miss c
      | false =>
          have hu : Undisturbed caller s c := by
            rcases he with hmiss | hu
            · rw [hc] at hmiss
              cases hmiss
            · exact hu
          simp only [step, hc] at hs
          rw [← Option.some.inj hs]
          exact h.call hu hc
  | «return» =>
      cases hrun : s.running with
      | nil => simp [step, hrun] at hs
      | cons f rest =>
          simp only [step, hrun] at hs
          rw [← Option.some.inj hs]
          exact h.return hrun (he f (by rw [hrun]; rfl))
  | throw =>
      cases hrun : s.running with
      | nil => simp [step, hrun] at hs
      | cons f rest =>
          simp only [step, hrun] at hs
          rw [← Option.some.inj hs]
          exact h.throw hrun

end Steps

/-- **Force and Raw do not leak.** In a run of calls on one options object, one
    after the other or nested, whose steps are all harmless, every call works
    with the settings that the caller and its own variant ask for. -/
theorem calls_isolated {caller : Heap} {s : State} (hstart : Start caller s) (es : List Event)
    (hharmless : Meets step (Harmless caller) s es) : Always step (Isolated caller) s es :=
  always_of_meets step (fun _ _ _ h hc hs => inv_step h hc hs) (fun _ h => h.isolated) es s
    (inv_start hstart) hharmless

section Examples

/-- A caller with output options of its own. -/
def outputCaller : Heap := { shared := { prepareOutput := .given } }

/-- The forced calls come last. -/
def forcedLast : List Event :=
  [.call ⟨.create, .plain, false, true⟩, .return, .call ⟨.create, .force, false, true⟩, .return,
    .call ⟨.delete, .raw, false, true⟩, .return]

theorem harmless_forcedLast :
    Meets step (Harmless outputCaller) { heap := outputCaller } forcedLast := by
  iterate 3
    refine meets_cons step _ rfl (Or.inr ?_) (meets_cons step _ rfl ?_ ?_)
    · constructor <;> decide
    · rintro f ⟨⟩
      constructor <;> decide
  trivial

theorem calls_isolated_forced_last :
    Always step (Isolated outputCaller) { heap := outputCaller } forcedLast := by
  have hstart : Start outputCaller { heap := outputCaller } := ⟨rfl, rfl, rfl, rfl⟩
  exact calls_isolated hstart forcedLast harmless_forcedLast

/-- `getForce` and then `get` on the same empty object: the rights of `get` are
    not checked, its role guard is bypassed and its result keeps the secrets. -/
theorem get_after_getForce :
    Start { shared := {} } { heap := { shared := {} } } ∧
    ∃ t, run step { heap := { shared := {} } }
        [.call ⟨.get, .force, false, true⟩, .return, .call ⟨.get, .plain, false, true⟩, .return] =
          some t ∧
      (∃ r ∈ t.done, r.call.variant = .plain ∧ asksForce { shared := {} } r.call = false ∧
        r.seen.config.checkRights = false ∧ r.seen.bypassRoleGuard = true ∧
        r.keepsSecrets { shared := {} }) ∧
      ¬ Isolated { shared := {} } t := by
  refine ⟨⟨rfl, rfl, rfl, rfl⟩, _, rfl, ⟨_, List.mem_cons_self, rfl, rfl, rfl, rfl, ?_⟩, ?_⟩
  · rintro o ⟨⟩
    exact ⟨by decide, rfl⟩
  · intro h
    obtain ⟨-, hasked, -⟩ := h.done _ List.mem_cons_self
    exact absurd (hasked.guard.mp rfl) (by decide)

end Examples

end SharedOptions
