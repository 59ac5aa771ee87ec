import NestServer.Runs

/-! # Calls that share one options object

    The methods of `CrudService` hand the caller's `serviceOptions` on by
    reference: the `Force` and `Raw` variants set their flags in it, and
    `process` writes into the objects that it holds.  A state has that object,
    the calls that are running, innermost first, and those that have returned;
    calls start one after the other or inside the service function of a
    running one.

    `alone` is a call on the object as the caller left it.  A run is `Isolated`
    if each of its calls works with the settings it has alone. -/

namespace SharedOptions

open Runs

/-! ## The options -/

/-- The value under a key that stands for a nested options object. -/
inductive Setting where
  /-- no such key, `process` makes an object of its own -/
  | unset
  /-- falsy, the stage is skipped -/
  | off
  /-- the object that the caller or an earlier `create` has put there -/
  | given
deriving DecidableEq

structure PrepareInputOptions where
  checkRoles  : Option Bool   := none
  create      : Option Bool   := none
  targetModel : Option String := none
deriving DecidableEq

/-- A key with the value `undefined` overrides a default, a missing key does
    not. -/
inductive TargetModel where
  | unset
  | undefined
  | model (name : String)
deriving DecidableEq

structure PrepareOutputOptions where
  removeSecrets : Option Bool := none
  targetModel   : TargetModel := .unset
deriving DecidableEq

structure ServiceOptions where
  force         : Bool          := false
  raw           : Bool          := false
  checkRights   : Bool          := true
  prepareInput  : Setting       := .unset
  prepareOutput : Setting       := .unset
  inputType     : Option String := none
  outputType    : Option String := none
  populate      : Bool          := false
  outputPath    : Bool          := false
deriving DecidableEq

/-- The shared object, and what the nested objects hold that it refers to. -/
structure Heap where
  shared        : ServiceOptions
  prepareInput  : PrepareInputOptions  := {}
  prepareOutput : PrepareOutputOptions := {}
deriving DecidableEq

/-! ## Calls -/

inductive Method where
  | get
  | find
  | findOne
  | findAndCount
  | create
  | update
  | delete
  | aggregate
deriving DecidableEq

inductive Variant where
  | plain
  | force
  | raw
deriving DecidableEq

/-- A call; `filterArgs` says whether its filter is a `FilterArgs`, `found`
    whether there is a document with its ID. -/
structure Call where
  method     : Method
  variant    : Variant
  filterArgs : Bool := false
  found      : Bool := true
deriving DecidableEq

/-- `NotFoundException`, before `process` runs -/
def Call.misses (c : Call) : Bool :=
  !c.found && (c.method = .get || c.method = .update || c.method = .delete)

/-- What the `Force` and `Raw` variants set before they call the plain one. -/
def Variant.mark : Variant → ServiceOptions → ServiceOptions
  | .plain, o => o
  | .force, o => { o with force := true }
  | .raw, o   => { o with raw := true, force := true }

def prepareServiceOptionsForCreate (h : Heap) : Heap :=
  let h :=
    if h.shared.prepareInput = .given then h
    else { h with shared := { h.shared with prepareInput := .given }, prepareInput := {} }
  if h.prepareInput.create = none then
    { h with prepareInput := { h.prepareInput with create := some true } }
  else h

/-- What a call writes before it comes to its `process`. -/
def arrive (h : Heap) (c : Call) : Heap :=
  let h := { h with shared := c.variant.mark h.shared }
  if c.method = .create then prepareServiceOptionsForCreate h else h

/-- A simple filter is not to be processed as `FilterArgs`. -/
def Call.copies (c : Call) (o : ServiceOptions) : Bool :=
  (c.method = .find || c.method = .findOne || c.method = .findAndCount) &&
    !c.filterArgs && o.inputType = some "FilterArgs"

/-- The options that a method hands to `process`:
    `Object.assign({ prepareInput: null }, serviceOptions, { inputType: null })`
    or the object itself. -/
def Call.options (c : Call) (o : ServiceOptions) : ServiceOptions :=
  if c.copies o then
    { o with prepareInput := if o.prepareInput = .unset then .off else o.prepareInput,
             inputType    := none }
  else o

/-! ## The pipeline -/

/-- The configuration of `process` after its raw and force handling. -/
def configure (o : ServiceOptions) : ServiceOptions :=
  { o with checkRights   := o.checkRights && !o.force,
           prepareInput  := if o.raw then .off else o.prepareInput,
           prepareOutput := if o.raw then .off else o.prepareOutput }

/-- `config.prepareInput` when `prepareInput` is called -/
def inputOptions (config : ServiceOptions) (i : PrepareInputOptions) : PrepareInputOptions :=
  { i with checkRoles  := if config.force then some false else i.checkRoles,
           targetModel := i.targetModel.or config.inputType }

/-- `config.prepareOutput` after the force handling -/
def relaxOutput (force : Bool) (o : PrepareOutputOptions) : PrepareOutputOptions :=
  { o with removeSecrets := if force then some false else o.removeSecrets }

def TargetModel.orType : TargetModel → Option String → TargetModel
  | .model m, _   => .model m
  | _, some m     => .model m
  | t, none       => t

/-- `config.prepareOutput` when `prepareOutput` is called: a nested call without
    populate skips the mapping. -/
def outputOptions (config : ServiceOptions) (nested : Bool) (o : PrepareOutputOptions) :
    PrepareOutputOptions :=
  { o with targetModel :=
      if nested && !config.populate then .undefined else o.targetModel.orType config.outputType }

/-- The settings that a call works with up to its service function. -/
structure Seen where
  config          : ServiceOptions
  bypassRoleGuard : Bool
  /-- what `prepareInput` gets, unless it is skipped -/
  prepareInput    : Option PrepareInputOptions
  /-- the output options that `process` makes itself -/
  ownOutput       : PrepareOutputOptions
deriving DecidableEq

structure Frame where
  call   : Call
  nested : Bool
  seen   : Seen
deriving DecidableEq

/-- A call that has returned, with the options its `prepareOutput` stage had. -/
structure Ran extends Frame where
  prepareOutput : Option PrepareOutputOptions
deriving DecidableEq

/-- The part of `process` up to the service function. -/
def process (h : Heap) (o : ServiceOptions) (bypass : Bool) : Heap × Seen :=
  let config := configure o
  let input := inputOptions config h.prepareInput
  ({ h with
      prepareInput  := if config.prepareInput = .given then input else h.prepareInput,
      prepareOutput :=
        if config.prepareOutput = .given then relaxOutput config.force h.prepareOutput
        else h.prepareOutput },
    { config,
      bypassRoleGuard := bypass || config.force,
      prepareInput    :=
        match config.prepareInput with
        | .unset => some (inputOptions config {})
        | .off   => none
        | .given => some input,
      ownOutput       := relaxOutput config.force {} })

/-- A method up to the service function. -/
def enter (h : Heap) (c : Call) (bypass : Bool) : Heap × Seen :=
  let h := arrive h c
  process h (c.options h.shared) bypass

/-- The rest of `process`, after the service function. -/
def leave (h : Heap) (x : Seen) (nested : Bool) : Heap × Option PrepareOutputOptions :=
  match x.config.prepareOutput with
  | .off   => (h, none)
  | .unset => (h, some (outputOptions x.config nested x.ownOutput))
  | .given =>
      let o := outputOptions x.config nested h.prepareOutput
      ({ h with prepareOutput := o }, some o)

/-! ## Runs -/

/-- The shared objects, the running calls, the calls that have returned, and as
    history all calls made on the object.  The `findAndCount` inside a `find`
    with samples is a nested call of the variant of the `find`, whose flags are
    already set. -/
structure State where
  heap    : Heap
  running : List Frame := []
  done    : List Ran   := []
  started : List Call  := []
deriving DecidableEq

inductive Event where
  | call (c : Call)
  | return
  /-- an exception leaves the innermost call -/
  | throw

def State.bypass (s : State) : Bool := s.running.head?.any (·.seen.bypassRoleGuard)

def step (s : State) : Event → Option State
  | .call c =>
      if c.misses then
        some { s with heap := arrive s.heap c, started := c :: s.started }
      else
        let (heap, seen) := enter s.heap c s.bypass
        some { s with heap,
                      running := ⟨c, !s.running.isEmpty, seen⟩ :: s.running,
                      started := c :: s.started }
  | .return =>
      match s.running with
      | []        => none
      | f :: rest =>
          let (heap, prepareOutput) := leave s.heap f.seen f.nested
          some { s with heap, running := rest, done := ⟨f, prepareOutput⟩ :: s.done }
  | .throw =>
      match s.running with
      | []        => none
      | _ :: rest => some { s with running := rest }

structure Start (caller : Heap) (s : State) : Prop where
  heap    : s.heap = caller
  running : s.running = []
  done    : s.done = []
  started : s.started = []

/-! ## The property -/

section Property

variable (caller : Heap)

/-- The call is a `Force` or `Raw` variant, or the caller set the flag. -/
def asksForce (c : Call) : Bool := caller.shared.force || c.variant != .plain

/-- The call is a `Raw` variant, or the caller set the flag. -/
def asksRaw (c : Call) : Bool := caller.shared.raw || c.variant == .raw

/-- The call on the object as the caller left it. -/
def alone (c : Call) : Seen := (enter caller c false).2

/-- What `prepareOutput` gets in the call alone. -/
def aloneOutput (c : Call) (nested : Bool) : Option PrepareOutputOptions :=
  (leave (enter caller c false).1 (alone caller c) nested).2

/-- With an output path, the `prepareOutput` of a service gets the nested object
    in the place of the options, and finds no `prepareOutput` in it. -/
def pathed (c : Call) : Prop := caller.shared.outputPath = true ∨ c.method = .findAndCount

instance (c : Call) : Decidable (pathed caller c) :=
  inferInstanceAs (Decidable (caller.shared.outputPath = true ∨ c.method = .findAndCount))

/-- Rights and roles are unchecked exactly if the call or its caller asks for it. -/
structure InputAsAsked (f : Frame) : Prop where
  rights : f.seen.config.checkRights = false ↔
    asksForce caller f.call = true ∨ caller.shared.checkRights = false
  guard  : f.seen.bypassRoleGuard = true ↔ asksForce caller f.call = true
  roles  : f.seen.prepareInput.bind (·.checkRoles) ≠ some true ↔
    asksForce caller f.call = true ∨ asksRaw caller f.call = true ∨
      ¬ (caller.shared.prepareInput = .given ∧ caller.prepareInput.checkRoles = some true)

def Ran.keepsSecrets (r : Ran) : Prop :=
  ∀ o ∈ r.prepareOutput, ¬ pathed caller r.call ∧ o.removeSecrets = some false

def Ran.skipsMapping (r : Ran) : Prop :=
  ∀ o ∈ r.prepareOutput, ¬ pathed caller r.call ∧ o.targetModel = .undefined

/-- Secrets are kept and models are not mapped exactly if the call or its caller
    asks for it; nested calls without populate leave the mapping to the outer
    one. -/
structure OutputAsAsked (r : Ran) : Prop where
  secrets : r.keepsSecrets caller ↔
    asksForce caller r.call = true ∨ asksRaw caller r.call = true ∨
      caller.shared.prepareOutput = .off ∨
      (caller.shared.prepareOutput = .given ∧ caller.prepareOutput.removeSecrets = some false)
  mapping : r.skipsMapping caller ↔
    asksRaw caller r.call = true ∨ caller.shared.prepareOutput = .off ∨
      (¬ pathed caller r.call ∧
        ((r.nested = true ∧ caller.shared.populate = false) ∨
          (caller.shared.prepareOutput = .given ∧ caller.shared.outputType = none ∧
            caller.prepareOutput.targetModel = .undefined)))

/-- **No call leaks into another one.** Every call works with the settings it
    has alone, and skips exactly what it or the caller asks to skip. -/
structure Isolated (s : State) : Prop where
  running : ∀ f ∈ s.running, f.seen = alone caller f.call ∧ InputAsAsked caller f
  done    : ∀ r ∈ s.done, r.seen = alone caller r.call ∧ InputAsAsked caller r.toFrame ∧
    r.prepareOutput = aloneOutput caller r.call r.nested ∧ OutputAsAsked caller r

/-! ## The condition -/

/-- The input options as `create` would find them. -/
def current (h : Heap) : PrepareInputOptions :=
  if h.shared.prepareInput = .given then h.prepareInput else {}

/-- The calls made so far leave the settings of the new one alone, and it those
    of the running ones. -/
structure Undisturbed (s : State) (c : Call) : Prop where
  force   : asksForce caller c = false → ∀ d ∈ s.started, asksForce caller d = false
  raw     : asksRaw caller c = false → ∀ d ∈ s.started, asksRaw caller d = false
  create  : asksRaw caller c = false → c.method ≠ .create → (current caller).create = none →
    ∀ d ∈ s.started, d.method ≠ .create
  typed   : asksRaw caller c = false → c.copies caller.shared = true →
    caller.shared.prepareInput = .given → caller.prepareInput.targetModel = none →
    ∀ d ∈ s.started, d.copies caller.shared = true ∨ d.misses = true
  secrets : asksForce caller c = true → asksRaw caller c = false →
    caller.shared.prepareOutput = .given → caller.prepareOutput.removeSecrets ≠ some false →
    ∀ f ∈ s.running, asksForce caller f.call = true ∨ asksRaw caller f.call = true

/-- A nested call that returns does not change the target of the mapping, and
    no call whose secrets are to be kept has an output path. -/
structure OutputKept (f : Frame) : Prop where
  target : f.nested = true → asksRaw caller f.call = false →
    caller.shared.prepareOutput = .given → caller.shared.populate = false →
    TargetModel.undefined.orType caller.shared.outputType =
      caller.prepareOutput.targetModel.orType caller.shared.outputType
  path   : pathed caller f.call → asksRaw caller f.call = false →
    caller.shared.prepareOutput ≠ .off → asksForce caller f.call = false ∧
      (caller.shared.prepareOutput = .given → caller.prepareOutput.removeSecrets ≠ some false)

def Harmless (s : State) : Event → Prop
  | .call c  => c.misses = true ∨ Undisturbed caller s c
  | .return  => ∀ f ∈ s.running.head?, OutputKept caller f
  | .throw   => True

end Property

end SharedOptions
