import NestServer.Interleaving
import NestServer.OrderedMap

/-! # The default connection

    `create` and `update` of `core-ai-connection.service.ts`: a call that sets the
    default writes its own connection first and then clears all others.  What is the
    default in the end is a matter of the order of these writes. -/

namespace AiConnections

open Dialogue Interleaving

/-! ## The calls -/

structure ConnectionInput where
  /-- the connection of an update, or the id that a new one gets -/
  id        : String
  isDefault : Option Bool := none
  apiKey    : Option String := none
  /-- a capability flag was left undefined, and there is a provider factory -/
  detects   : Bool := false
deriving DecidableEq, Repr

inductive Operation where
  /-- `prepareInput` and the rights, before the write of `CrudService` -/
  | prepare
  | save (id : String) (isDefault : Option Bool)
  | findByIdAndUpdate (id : String) (isDefault : Option Bool)
  /-- what `process` does after the write -/
  | finish
  | unsetOtherDefaults (id : String)
  | applyApiKey (id : String)
  | detectAndPersistCapabilities (id : String)
  | get (id : String)
deriving DecidableEq, Repr

inductive Query where
  | findById (id : String)
  | operation (op : Operation)
deriving DecidableEq, Repr

/-- Of a document that is read only `isDefault` matters. -/
abbrev Answer : Query → Type
  | .findById _  => Except String (Option (Option Bool))
  | .operation _ => Except String Unit

abbrev Calls := Dialogue Query Answer

abbrev await (q : Query) : Calls (Answer q) := Dialogue.query q

abbrev History := Dialogue.History Query Answer

def attempt (op : Operation) : Calls Unit := do
  let done : Except String Unit ← await (.operation op)
  orThrow done

/-- `CrudService.create` -/
def superCreate (input : ConnectionInput) : Calls Unit := do
  attempt .prepare
  attempt (.save input.id input.isDefault)
  attempt .finish

/-- `CrudService.update`: it writes the document that it has read, with the input. -/
def superUpdate (input : ConnectionInput) : Calls Unit := do
  let found : Except String (Option (Option Bool)) ← await (.findById input.id)
  match ← orThrow found with
  | none        => .failed "NotFoundException"
  | some stored => do
      attempt .prepare
      attempt (.findByIdAndUpdate input.id (input.isDefault.or stored))
      attempt .finish

/-- What follows in both methods. -/
def afterWrite (input : ConnectionInput) : Calls Unit := do
  if input.isDefault = some true then attempt (.unsetOtherDefaults input.id) else pure ()
  if input.apiKey.isSome then do
    attempt (.applyApiKey input.id)
    attempt (.get input.id)
  else pure ()

def create (input : ConnectionInput) : Calls Unit := do
  superCreate input
  afterWrite input
  if input.detects then do
    let _ : Except String Unit ← await (.operation (.detectAndPersistCapabilities input.id))
    attempt (.get input.id)
  else pure ()

def update (input : ConnectionInput) : Calls Unit := do
  superUpdate input
  afterWrite input

inductive Request where
  | create (input : ConnectionInput)
  | update (input : ConnectionInput)
deriving DecidableEq, Repr

def Request.input : Request → ConnectionInput
  | .create input => input
  | .update input => input

def Request.program : Request → Calls Unit
  | .create input => AiConnections.create input
  | .update input => AiConnections.update input

/-! ## The collection -/

/-- A write: what one connection has from now on, or that all others are no default. -/
inductive Write where
  | set (id : String) (isDefault : Option Bool)
  | clear (id : String)
deriving DecidableEq, Repr

/-- `isDefault` of every connection, and as history the writes. -/
structure Store where
  connections : OrderedMap String (Option Bool)
  written     : List Write := []

/-- How an operation ends: it may also fail after it was done. -/
inductive Outcome where
  | done | failed | lost
deriving DecidableEq, Repr

def Outcome.settle (outcome : Outcome) (store done : Store) : Except String Unit × Store :=
  match outcome with
  | .done   => (.ok (), done)
  | .failed => (.error "MongoServerError", store)
  | .lost   => (.error "MongoServerError", done)

def Store.put (store : Store) (id : String) (isDefault : Option Bool) : Store where
  connections := store.connections.set id isDefault
  written     := store.written ++ [.set id isDefault]

/-- `updateMany({ _id: { $ne: id } }, { $set: { isDefault: false } })` -/
def Store.clearOthers (store : Store) (id : String) : Store where
  connections := store.connections.mapValues fun key isDefault =>
    if key = id then isDefault else some false
  written     := store.written ++ [.clear id]

/-- What an operation does to the collection. -/
def Operation.run (store : Store) : Operation → Store
  | .save id isDefault              => store.put id isDefault
  | .findByIdAndUpdate id isDefault =>
      match store.connections.get? id with
      | none     => store
      | some old => store.put id (isDefault.or old)
  | .unsetOtherDefaults id          => store.clearOthers id
  | _                               => store

def exec (store : Store) (outcome : Outcome) : (q : Query) → Option (Answer q × Store)
  | .findById id                => some (if outcome = .done then .ok (store.connections.get? id)
      else .error "MongoServerError", store)
  | .operation (.save id isDefault) =>
      if (store.connections.get? id).isSome then some (.error "E11000", store)
      else some (outcome.settle store (store.put id isDefault))
  | .operation op               => some (outcome.settle store (op.run store))

def system : Interleaving.System Store Request Empty Outcome Query Answer Unit where
  program := Request.program
  exec    := exec
  outside := fun _ event => event.elim

abbrev Thread := Interleaving.Thread Request Query Answer Unit

abbrev State := Interleaving.State Store Request Query Answer Unit

/-! ## What the writes come to -/

/-- The connections that are marked, after one more write. -/
def mark (marked : String → Prop) : Write → String → Prop
  | .set id isDefault => fun key => if key = id then isDefault = some true else marked key
  | .clear id         => fun key => key = id ∧ marked key

def Store.marked (store : Store) (id : String) : Prop :=
  store.connections.get? id = some (some true)

theorem marked_put (store : Store) (id : String) (isDefault : Option Bool) :
    (store.put id isDefault).marked = mark store.marked (.set id isDefault) := by
  funext key
  show ((store.connections.set id isDefault).get? key = some (some true)) = _
  by_cases hkey : key = id
  · subst hkey
    simp only [mark, if_true, OrderedMap.get?_set_self, Option.some.injEq]
  · rw [OrderedMap.get?_set_of_ne _ _ hkey]
    simp only [mark, if_neg hkey, Store.marked]

theorem marked_clearOthers (store : Store) (id : String) :
    (store.clearOthers id).marked = mark store.marked (.clear id) := by
  funext key
  show ((store.connections.mapValues _).get? key = some (some true)) = _
  rw [OrderedMap.get?_mapValues]
  by_cases hkey : key = id
  · simp only [mark, hkey, if_true, Option.map_id', true_and, Store.marked]
  · refine propext (iff_of_false ?_ fun h => hkey h.1)
    intro h
    obtain ⟨old, _, hold⟩ := Option.map_eq_some_iff.mp h
    rw [if_neg hkey] at hold
    cases hold

section Writes

variable {marked : String → Prop} {writes : List Write} {id : String}

/-- A connection that no write sets stays marked until another one clears it. -/
theorem foldl_mark_of_notSet (hset : ∀ v, .set id v ∉ writes) (hclear : .clear id ∉ writes) :
    writes.foldl mark marked id ↔ marked id ∧ ∀ k, .clear k ∉ writes := by
  induction writes generalizing marked with
  | nil => exact (and_iff_left fun k => List.not_mem_nil).symm
  | cons w ws ih =>
      rw [List.foldl_cons, ih (fun v h => hset v (List.mem_cons_of_mem w h))
        fun h => hclear (List.mem_cons_of_mem w h)]
      cases w with
      | set k v =>
          have hne : id ≠ k := by
            rintro rfl
            exact hset v List.mem_cons_self
          simp only [mark, if_neg hne, List.mem_cons, reduceCtorEq, false_or]
      | clear k =>
          have hne : id ≠ k := by
            rintro rfl
            exact hclear List.mem_cons_self
          refine iff_of_false (fun h => hne h.1.1) fun h => h.2 k List.mem_cons_self

/-- Without clears, what is set is added. -/
theorem foldl_mark_of_sets (hsets : ∀ w ∈ writes, ∃ k, w = .set k (some true)) :
    writes.foldl mark marked id ↔ marked id ∨ .set id (some true) ∈ writes := by
  induction writes generalizing marked with
  | nil => exact (or_iff_left List.not_mem_nil).symm
  | cons w ws ih =>
      obtain ⟨k, rfl⟩ := hsets w List.mem_cons_self
      rw [List.foldl_cons, ih fun w' h => hsets w' (List.mem_cons_of_mem _ h)]
      by_cases hkey : id = k
      · simp only [mark, hkey, if_true, true_or, List.mem_cons, or_true]
      · have hne : Write.set id (some true) ≠ .set k (some true) := fun h =>
            hkey (Write.set.inj h).1
        simp only [mark, if_neg hkey, List.mem_cons, hne, false_or]

end Writes

/-! ## The order of the writes -/

def Write.id : Write → String
  | .set id _ => id
  | .clear id => id

/-- Of one connection only the clear comes later, after its set. -/
def Follows (first second : Write) : Prop :=
  first.id = second.id → (∃ v, first = .set first.id v) ∧ second = .clear second.id

/-- What calls write that all set their connection as the default. -/
structure Log (writes : List Write) : Prop where
  follows : writes.Pairwise Follows
  sets    : ∀ id v, .set id v ∈ writes → v = some true
  marked  : ∀ id, .clear id ∈ writes → .set id (some true) ∈ writes

/-- Nobody has cleared since the connection was set. -/
def Undisturbed (id : String) (writes : List Write) : Prop :=
  ∃ earlier later, writes = earlier ++ .set id (some true) :: later ∧ ∀ k, .clear k ∉ later

/-- The last one to clear was not disturbed and nobody has set after it, or it was and
    one has set after it. -/
def Settled (writes : List Write) : Prop :=
  ∃ before id after, writes = before ++ .clear id :: after ∧ (∀ k, .clear k ∉ after) ∧
    ((Undisturbed id before ∧ after = []) ∨ (¬ Undisturbed id before ∧ after.length = 1))

theorem exists_last_clear {writes : List Write} (h : ∃ k, .clear k ∈ writes) :
    ∃ before id after, writes = before ++ .clear id :: after ∧ ∀ k, .clear k ∉ after := by
  induction writes with
  | nil =>
      obtain ⟨k, hk⟩ := h
      cases hk
  | cons w ws ih =>
      by_cases hrest : ∃ k, .clear k ∈ ws
      · obtain ⟨before, id, after, rfl, hafter⟩ := ih hrest
        exact ⟨w :: before, id, after, rfl, hafter⟩
      · obtain ⟨k, hk⟩ := h
        rcases List.mem_cons.mp hk with rfl | hk
        · exact ⟨[], k, ws, rfl, fun k' hk' => hrest ⟨k', hk'⟩⟩
        · exact absurd ⟨k, hk⟩ hrest

section LastClear

variable {before after : List Write} {id : String} (hlog : Log (before ++ .clear id :: after))

include hlog

/-- The last one to clear had set its connection before. -/
theorem Log.mem_before : .set id (some true) ∈ before := by
  have hpair := (List.pairwise_append.mp hlog.follows).2.1
  have hmem := hlog.marked id (List.mem_append_right _ List.mem_cons_self)
  rcases List.mem_append.mp hmem with hmem | hmem
  · exact hmem
  · rcases List.mem_cons.mp hmem with heq | hmem
    · cases heq
    · have hfollows := (List.rel_of_pairwise_cons hpair hmem rfl).2
      cases hfollows

/-- Whether the last one to clear was marked then. -/
theorem Log.marked_before {earlier later : List Write}
    (hbefore : before = earlier ++ .set id (some true) :: later) (marked : String → Prop) :
    before.foldl mark marked id ↔ ∀ k, .clear k ∉ later := by
  subst hbefore
  have hpair := (List.pairwise_append.mp hlog.follows).1
  have hlater := (List.pairwise_append.mp hpair).2.1
  have hset : ∀ v, .set id v ∉ later := by
    intro v hmem
    cases (List.rel_of_pairwise_cons hlater hmem rfl).2
  have hclear : .clear id ∉ later := by
    intro hmem
    have hmem' : .clear id ∈ earlier ++ .set id (some true) :: later :=
      List.mem_append_right _ (List.mem_cons_of_mem _ hmem)
    obtain ⟨v, hv⟩ := ((List.pairwise_append.mp hlog.follows).2.2 _ hmem' _ List.mem_cons_self
      rfl).1
    cases hv
  rw [List.foldl_append, List.foldl_cons, foldl_mark_of_notSet hset hclear]
  refine and_iff_right ?_
  simp only [mark, if_true]

theorem Log.undisturbed_iff (marked : String → Prop) :
    before.foldl mark marked id ↔ Undisturbed id before := by
  constructor
  · intro hmarked
    obtain ⟨earlier, later, hbefore⟩ := List.append_of_mem hlog.mem_before
    exact ⟨earlier, later, hbefore, (hlog.marked_before hbefore marked).mp hmarked⟩
  · rintro ⟨earlier, later, hbefore, hclear⟩
    exact (hlog.marked_before hbefore marked).mpr hclear

/-- What is marked in the end: the last one to clear, if it was, and what is set after. -/
theorem Log.marked_iff (hafter : ∀ k, .clear k ∉ after) (marked : String → Prop) (key : String) :
    (before ++ .clear id :: after).foldl mark marked key ↔
      (key = id ∧ Undisturbed id before) ∨ .set key (some true) ∈ after := by
  have hsets : ∀ w ∈ after, ∃ k, w = .set k (some true) := by
    intro w hw
    cases w with
    | set k v =>
        obtain rfl := hlog.sets k v (List.mem_append_right _ (List.mem_cons_of_mem _ hw))
        exact ⟨k, rfl⟩
    | clear k => exact absurd hw (hafter k)
  rw [List.foldl_append, List.foldl_cons, foldl_mark_of_sets hsets]
  refine or_congr_left ?_
  show key = id ∧ _ ↔ _
  refine and_congr_right fun hkey => ?_
  rw [hkey]
  exact hlog.undisturbed_iff marked

/-- One is marked in the end exactly when the writes came in such an order. -/
theorem Log.existsUnique_iff (hafter : ∀ k, .clear k ∉ after) (marked : String → Prop) :
    (∃! key, (before ++ .clear id :: after).foldl mark marked key) ↔
      (Undisturbed id before ∧ after = []) ∨ (¬ Undisturbed id before ∧ after.length = 1) := by
  have hmarked := hlog.marked_iff hafter marked
  have hpair := (List.pairwise_append.mp hlog.follows).2.1
  -- whoever sets after the last clear is another one
  have hother : ∀ key v, .set key v ∈ after → key ≠ id := by
    rintro key v hmem rfl
    cases (List.rel_of_pairwise_cons hpair hmem rfl).2
  match after, hafter, hmarked, hpair, hother with
  | [], _, hmarked, _, _ =>
      constructor
      · rintro ⟨key, hkey, _⟩
        rcases (hmarked key).mp hkey with ⟨_, hundisturbed⟩ | hmem
        · exact Or.inl ⟨hundisturbed, rfl⟩
        · cases hmem
      · rintro (⟨hundisturbed, _⟩ | ⟨_, hlength⟩)
        · refine ⟨id, (hmarked id).mpr (Or.inl ⟨rfl, hundisturbed⟩), fun key hkey => ?_⟩
          rcases (hmarked key).mp hkey with ⟨heq, _⟩ | hmem
          · exact heq
          · cases hmem
        · cases hlength
  | [.clear k], hafter, _, _, _ => exact absurd List.mem_cons_self (hafter k)
  | [.set k v], _, hmarked, _, hother =>
      obtain rfl : v = some true :=
        hlog.sets k v (List.mem_append_right _ (List.mem_cons_of_mem _ List.mem_cons_self))
      have hk : (before ++ Write.clear id :: [Write.set k (some true)]).foldl mark marked k :=
        (hmarked k).mpr (Or.inr List.mem_cons_self)
      constructor
      · intro hunique
        refine Or.inr ⟨fun hundisturbed => ?_, rfl⟩
        have hid := (hmarked id).mpr (Or.inl ⟨rfl, hundisturbed⟩)
        exact hother k _ List.mem_cons_self (hunique.unique hk hid)
      · rintro (⟨_, hnil⟩ | ⟨hdisturbed, _⟩)
        · cases hnil
        · refine ⟨k, hk, fun key hkey => ?_⟩
          rcases (hmarked key).mp hkey with ⟨_, hundisturbed⟩ | hmem
          · exact absurd hundisturbed hdisturbed
          · exact (Write.set.inj (List.mem_singleton.mp hmem)).1
  | w :: w' :: rest, hafter, hmarked, hpair, hother =>
      refine iff_of_false ?_ ?_
      · intro hunique
        -- two that are set are two that are marked
        have hset : ∀ w'' ∈ w :: w' :: rest, w'' = .set w''.id (some true) := by
          intro w'' hw''
          cases w'' with
          | set k v =>
              rw [hlog.sets k v (List.mem_append_right _ (List.mem_cons_of_mem _ hw''))]
              rfl
          | clear k => exact absurd hw'' (hafter k)
        have hw := hset w List.mem_cons_self
        have hw' := hset w' (List.mem_cons_of_mem _ List.mem_cons_self)
        have hid : w.id = w'.id := by
          refine hunique.unique ((hmarked w.id).mpr (Or.inr ?_)) ((hmarked w'.id).mpr (Or.inr ?_))
          · exact hw ▸ List.mem_cons_self
          · exact hw' ▸ List.mem_cons_of_mem _ List.mem_cons_self
        have hfollows := List.rel_of_pairwise_cons (List.pairwise_cons.mp hpair).2
            List.mem_cons_self hid
        rw [hw'] at hfollows
        cases hfollows.2
      · rintro (⟨_, hnil⟩ | ⟨_, hlength⟩)
        · cases hnil
        · cases hlength

end LastClear

theorem Log.existsUnique_iff_settled {writes : List Write} (hlog : Log writes)
    (hclear : ∃ k, .clear k ∈ writes) (marked : String → Prop) :
    (∃! key, writes.foldl mark marked key) ↔ Settled writes := by
  constructor
  · intro hunique
    obtain ⟨before, id, after, rfl, hafter⟩ := exists_last_clear hclear
    exact ⟨before, id, after, rfl, hafter, (hlog.existsUnique_iff hafter marked).mp hunique⟩
  · rintro ⟨before, id, after, rfl, hafter, hcases⟩
    exact (hlog.existsUnique_iff hafter marked).mpr hcases

/-! ## What a call does alone -/

abbrev Exchange := Dialogue.Exchange Query Answer

/-- The write of its own connection. -/
def Query.sets : Query → Option (String × Option Bool)
  | .operation (.save id isDefault)              => some (id, isDefault)
  | .operation (.findByIdAndUpdate id isDefault) => some (id, isDefault)
  | _                                            => none

def Query.clears : Query → Option String
  | .operation (.unsetOtherDefaults id) => some id
  | _                                   => none

def ok : Exchange → Bool
  | ⟨.operation _, .ok _⟩ => true
  | _                     => false

/-- The connection was set, and the call was told so. -/
def HasSet (id : String) (x : Exchange) : Prop := x.1.sets = some (id, some true) ∧ ok x = true

def HasCleared (id : String) (x : Exchange) : Prop := x.1.clears = some id ∧ ok x = true

/-- The connection that a read has found. -/
def finds : Exchange → Option String
  | ⟨.findById id, .ok (some _)⟩ => some id
  | _                            => none

/-- What a call that sets the default asks, and when. -/
structure Asks (r : Request) (h : History) (q : Query) : Prop where
  sets   : ∀ id d, q.sets = some (id, d) → id = r.input.id ∧ d = some true ∧
    ∀ x ∈ h, x.1.sets = none ∧ x.1.clears = none
  clears : ∀ id, q.clears = some id → id = r.input.id ∧ (∃ x ∈ h, HasSet id x) ∧
    ∀ x ∈ h, x.1.clears = none
  found  : ∀ id d, q = .operation (.findByIdAndUpdate id d) → ∃ x ∈ h, finds x = some id

def law : Law Request Query Answer Unit where
  asks   := fun r h q => r.input.isDefault = some true → Asks r h q
  result := fun r _ h => r.input.isDefault = some true → ∃ x ∈ h, HasCleared r.input.id x

/-- A question that writes nothing of these. -/
theorem asks_other {r : Request} {h : History} {q : Query} (hsets : q.sets = none)
    (hclears : q.clears = none) : Asks r h q := by
  refine ⟨fun id d hq => ?_, fun id hq => ?_, ?_⟩
  · rw [hsets] at hq
    cases hq
  · rw [hclears] at hq
    cases hq
  · rintro id d rfl
    cases hsets

section Programs

variable {r : Request} {h : History}

/-- The rule for an operation that has to succeed. -/
theorem wp_attempt {op : Operation} {R : Unit → History → Prop} (hasks : Asks r h (.operation op))
    (hR : R () (h ++ [⟨.operation op, .ok ()⟩])) :
      wp (Asks r) (fun _ => True) (attempt op) R h := by
  refine wp_bind (wp_query (R := fun done h' => h' = h ++ [⟨.operation op, done⟩]) hasks
    fun _ => rfl) ?_
  rintro done _ rfl
  refine wp_orThrow ?_ fun _ _ => trivial
  rintro ⟨⟩ rfl
  exact hR

/-- The connection is set, and the others are not cleared yet. -/
structure IsSet (id : String) (h : History) : Prop where
  set     : ∃ x ∈ h, HasSet id x
  pending : ∀ x ∈ h, x.1.clears = none

theorem wp_superCreate {input : ConnectionInput} (hinput : r.input = input)
    (hdefault : input.isDefault = some true) :
    wp (Asks r) (fun _ => True) (superCreate input) (fun _ h => IsSet input.id h) [] := by
  refine wp_bind (wp_attempt (asks_other rfl rfl) (R := fun _ h =>
    h = [⟨.operation .prepare, .ok ()⟩]) rfl) ?_
  rintro ⟨⟩ h rfl
  rw [hdefault]
  refine wp_bind (wp_attempt (R := fun _ h => h = [⟨.operation .prepare, .ok ()⟩,
    ⟨.operation (.save input.id (some true)), .ok ()⟩]) ?_ rfl) ?_
  · refine ⟨?_, by rintro id ⟨⟩, by rintro id d ⟨⟩⟩
    rintro id d ⟨⟩
    refine ⟨congrArg ConnectionInput.id hinput.symm, rfl, fun x hx => ?_⟩
    rw [List.mem_singleton.mp hx]
    exact ⟨rfl, rfl⟩
  · rintro ⟨⟩ h rfl
    refine wp_attempt (asks_other rfl rfl)
      ⟨⟨⟨.operation (.save input.id (some true)), .ok ()⟩, ?_, rfl, rfl⟩, ?_⟩
    · exact List.mem_append_left _ (List.mem_cons_of_mem _ List.mem_cons_self)
    · simp only [List.cons_append, List.nil_append, List.forall_mem_cons]
      exact ⟨rfl, rfl, rfl, fun _ h => by cases h⟩

theorem wp_superUpdate {input : ConnectionInput} (hinput : r.input = input)
    (hdefault : input.isDefault = some true) :
    wp (Asks r) (fun _ => True) (superUpdate input) (fun _ h => IsSet input.id h) [] := by
  refine wp_bind (wp_query (asks_other rfl rfl) (R := fun found h =>
    h = [⟨.findById input.id, found⟩])
    fun _ => rfl) ?_
  rintro found h rfl
  refine wp_bind (wp_orThrow (R := fun doc h => h = [⟨.findById input.id, .ok doc⟩]) ?_
    fun _ _ => trivial) ?_
  · rintro doc rfl
    rfl
  · rintro doc h rfl
    cases doc with
    | none => exact wp_failed_iff.mpr trivial
    | some stored =>
        rw [hdefault]
        refine wp_bind (wp_attempt (asks_other rfl rfl) (R := fun _ h => h =
          [⟨.findById input.id, .ok (some stored)⟩, ⟨.operation .prepare, .ok ()⟩]) rfl) ?_
        rintro ⟨⟩ h rfl
        refine wp_bind (wp_attempt (R := fun _ h => h = [⟨.findById input.id, .ok (some stored)⟩,
          ⟨.operation .prepare, .ok ()⟩,
          ⟨.operation (.findByIdAndUpdate input.id (some true)), .ok ()⟩])
          ?_ rfl) ?_
        · refine ⟨?_, by rintro id ⟨⟩, ?_⟩
          · rintro id d ⟨⟩
            refine ⟨congrArg ConnectionInput.id hinput.symm, rfl, ?_⟩
            simp only [List.forall_mem_cons]
            exact ⟨⟨rfl, rfl⟩, ⟨rfl, rfl⟩, fun _ h => by cases h⟩
          · rintro id d ⟨⟩
            exact ⟨_, List.mem_cons_self, rfl⟩
        · rintro ⟨⟩ h rfl
          refine wp_attempt (asks_other rfl rfl)
            ⟨⟨⟨.operation (.findByIdAndUpdate input.id (some true)), .ok ()⟩, ?_, rfl, rfl⟩, ?_⟩
          · exact List.mem_append_left _
              (List.mem_cons_of_mem _ (List.mem_cons_of_mem _ List.mem_cons_self))
          · simp only [List.cons_append, List.nil_append, List.forall_mem_cons]
            exact ⟨rfl, rfl, rfl, rfl, fun _ h => by cases h⟩

/-- The others are cleared. -/
abbrev IsCleared (id : String) (h : History) : Prop := ∃ x ∈ h, HasCleared id x

theorem IsCleared.append {id : String} (hcleared : IsCleared id h) (x : Exchange) :
    IsCleared id (h ++ [x]) := by
  obtain ⟨y, hy, hhas⟩ := hcleared
  exact ⟨y, List.mem_append_left _ hy, hhas⟩

theorem wp_afterWrite {input : ConnectionInput} (hinput : r.input = input)
    (hdefault : input.isDefault = some true) (hset : IsSet input.id h) :
    wp (Asks r) (fun _ => True) (afterWrite input) (fun _ h => IsCleared input.id h) h := by
  rw [afterWrite, if_pos hdefault]
  refine wp_bind (wp_attempt (R := fun _ h => IsCleared input.id h) ?_ ?_) ?_
  · refine ⟨by rintro id d ⟨⟩, ?_, by rintro id d ⟨⟩⟩
    rintro id ⟨⟩
    exact ⟨congrArg ConnectionInput.id hinput.symm, hset.set, hset.pending⟩
  · exact ⟨_, List.mem_append_right _ (List.mem_singleton.mpr rfl), rfl, rfl⟩
  · intro _ h hcleared
    split
    · refine wp_bind (wp_attempt (R := fun _ h => IsCleared input.id h) (asks_other rfl rfl)
        (hcleared.append _)) ?_
      exact fun _ h hcleared => wp_attempt (asks_other rfl rfl) (hcleared.append _)
    · exact wp_pure hcleared

theorem wp_create {input : ConnectionInput} (hinput : r.input = input)
    (hdefault : input.isDefault = some true) :
    wp (Asks r) (fun _ => True) (create input) (fun _ h => IsCleared input.id h) [] := by
  refine wp_bind (wp_superCreate hinput hdefault) fun _ h hset => ?_
  refine wp_bind (wp_afterWrite hinput hdefault hset) fun _ h hcleared => ?_
  split
  · refine wp_bind (wp_query (R := fun _ h => IsCleared input.id h) (asks_other rfl rfl)
      fun _ => hcleared.append _) ?_
    exact fun _ h hcleared => wp_attempt (asks_other rfl rfl) (hcleared.append _)
  · exact wp_pure hcleared

theorem wp_update {input : ConnectionInput} (hinput : r.input = input)
    (hdefault : input.isDefault = some true) :
    wp (Asks r) (fun _ => True) (update input) (fun _ h => IsCleared input.id h) [] :=
  wp_bind (wp_superUpdate hinput hdefault) fun _ _ hset => wp_afterWrite hinput hdefault hset

end Programs

theorem wp_program (r : Request) :
    wp (law.asks r) (law.fails r) (system.program r) (law.result r) [] := by
  by_cases hdefault : r.input.isDefault = some true
  · have hwp : wp (Asks r) (fun _ => True) (system.program r) (fun _ h =>
        IsCleared r.input.id h) [] := by
      cases r with
      | create input => exact wp_create rfl hdefault
      | update input => exact wp_update rfl hdefault
    refine wp_weaken ?_ (fun _ _ _ => trivial) ?_ hwp
    · exact fun _ _ _ hasks _ => hasks
    · exact fun _ _ _ hcleared _ => hcleared
  · exact wp_of_forall (fun _ _ h => absurd h hdefault) (fun _ => trivial) fun _ _ h =>
      absurd h hdefault

/-! ## What all calls keep -/

theorem exec_operation {store store' : Store} {outcome : Outcome} {op : Operation}
    {a : Except String Unit} (h : exec store outcome (.operation op) = some (a, store')) :
    store' = op.run store ∨ (store' = store ∧ ok ⟨.operation op, a⟩ = false) := by
  have hsettle : outcome.settle store (op.run store) = (a, store') →
      store' = op.run store ∨ (store' = store ∧ ok ⟨.operation op, a⟩ = false) := by
    intro h
    cases outcome with
    | done => cases h; exact Or.inl rfl
    | failed => cases h; exact Or.inr ⟨rfl, rfl⟩
    | lost => cases h; exact Or.inl rfl
  cases op with
  | save id isDefault =>
      rw [exec] at h
      split at h
      · cases h
        exact Or.inr ⟨rfl, rfl⟩
      · exact hsettle (Option.some.inj h)
  | _ => exact hsettle (Option.some.inj h)

theorem finds_eq {id key : String} {found : Except String (Option (Option Bool))}
    (h : finds ⟨.findById id, found⟩ = some key) : key = id ∧
      ∃ stored, found = .ok (some stored) := by
  cases found with
  | error e => cases h
  | ok doc =>
      cases doc with
      | none => cases h
      | some stored => exact ⟨(Option.some.inj h).symm, stored, rfl⟩

/-- All calls set the default, each on a connection of its own. -/
structure Defaults (s : State) : Prop where
  distinct : (s.threads.map fun τ : Thread => τ.request.input.id).Nodup
  default  : ∀ τ ∈ s.threads, τ.request.input.isDefault = some true

/-- The call on a connection has said something of the kind. -/
def Spoke (s : State) (id : String) (P : Exchange → Prop) : Prop :=
  ∃ (i : Nat) (τ : Thread), s.threads[i]? = some τ ∧ τ.request.input.id = id ∧ ∃ x ∈ τ.said, P x

structure Inv (start : String → Prop) (s : State) : Prop where
  marked  : s.store.marked = s.store.written.foldl mark start
  log     : Log s.store.written
  sets    : ∀ id v, .set id v ∈ s.store.written → Spoke s id fun x => x.1.sets ≠ none
  clears  : ∀ id, .clear id ∈ s.store.written → Spoke s id fun x => x.1.clears ≠ none
  found   : ∀ i id, Says s i (fun x => finds x = some id) →
    (s.store.connections.get? id).isSome = true
  set     : ∀ i id, Says s i (HasSet id) → .set id (some true) ∈ s.store.written
  cleared : ∀ i id, Says s i (HasCleared id) → .clear id ∈ s.store.written

theorem Spoke.call {s : State} {id : String} {P : Exchange → Prop} (h : Spoke s id P) (r : Request)
    (p : Calls Unit) :
    Spoke { s with threads := s.threads ++ [{ request := r, program := p }] } id P := by
  obtain ⟨i, τ, hτ, hid, hx⟩ := h
  exact ⟨i, τ, (List.getElem?_append_left (List.getElem?_eq_some_iff.mp hτ).1).trans hτ, hid, hx⟩

theorem Spoke.resume {s : State} {id : String} {P : Exchange → Prop} (h : Spoke s id P) {i : Nat}
    {τ : Thread} (hτ : s.threads[i]? = some τ) {store : Store} {q : Query} {a : Answer q}
    {next : Calls Unit} :
    Spoke { store := store, threads := s.threads.set i (τ.heard q a next) } id P := by
  obtain ⟨j, τ', hτ', hid, x, hx, hP⟩ := h
  by_cases hij : i = j
  · subst hij
    rw [hτ] at hτ'
    obtain rfl := Option.some.inj hτ'
    exact ⟨i, _, List.getElem?_set_self (List.getElem?_eq_some_iff.mp hτ).1, hid, x,
      List.mem_append_left _ hx, hP⟩
  · exact ⟨j, τ', (List.getElem?_set_ne hij).trans hτ', hid, x, hx, hP⟩

/-- What the call at an index has just said. -/
theorem spoke_now {s : State} {i : Nat} {τ : Thread} (hτ : s.threads[i]? = some τ) {store : Store}
    {q : Query} {a : Answer q} {next : Calls Unit} {P : Exchange → Prop} (hP : P ⟨q, a⟩) :
    Spoke { store := store, threads := s.threads.set i (τ.heard q a next) } τ.request.input.id P :=
  ⟨i, _, List.getElem?_set_self (List.getElem?_eq_some_iff.mp hτ).1, rfl, _,
    List.mem_append_right _ (List.mem_singleton.mpr rfl), hP⟩

/-- On the connection of a call nobody else has spoken. -/
theorem Spoke.own {s : State} (hd : Defaults s) {P : Exchange → Prop} {i : Nat} {τ : Thread}
    (hτ : s.threads[i]? = some τ) (h : Spoke s τ.request.input.id P) : ∃ x ∈ τ.said, P x := by
  obtain ⟨j, τ', hτ', hid, hx⟩ := h
  have hi : (s.threads.map fun τ : Thread => τ.request.input.id)[i]? = some τ.request.input.id := by
    rw [List.getElem?_map, hτ]
    rfl
  have hj : (s.threads.map fun τ : Thread => τ.request.input.id)[j]? = some τ.request.input.id := by
    rw [List.getElem?_map, hτ', Option.map_some, hid]
  have hij : i = j :=
    (List.getElem?_inj (List.getElem?_eq_some_iff.mp hi).1 hd.distinct).mp (hi.trans hj.symm)
  rw [← hij, hτ] at hτ'
  rw [Option.some.inj hτ']
  exact hx

theorem Log.append {writes : List Write} (hlog : Log writes) {w : Write}
    (hfollows : ∀ first ∈ writes, Follows first w) (hsets : ∀ id v, w = .set id v → v = some true)
    (hmarked : ∀ id, w = .clear id → .set id (some true) ∈ writes) : Log (writes ++ [w]) := by
  refine ⟨List.pairwise_append.mpr ⟨hlog.follows, List.pairwise_singleton _ _, ?_⟩, ?_, ?_⟩
  · intro first hfirst second hsecond
    rw [List.mem_singleton.mp hsecond]
    exact hfollows first hfirst
  · intro id v hmem
    rcases List.mem_append.mp hmem with hmem | hmem
    · exact hlog.sets id v hmem
    · exact hsets id v (List.mem_singleton.mp hmem).symm
  · intro id hmem
    refine List.mem_append_left _ ?_
    rcases List.mem_append.mp hmem with hmem | hmem
    · exact hlog.marked id hmem
    · exact hmarked id (List.mem_singleton.mp hmem).symm

section Step

variable {start : String → Prop} {s : State} (hI : Inv start s) (hd : Defaults s) {i : Nat}
  {τ : Thread}
  (hτ : s.threads[i]? = some τ) {q : Query} (hasks : Asks τ.request τ.said q) {a : Answer q}
  {next : Calls Unit}

include hI hτ

/-- A question after which the collection is as it was. -/
theorem inv_same (hfinds : ∀ id, finds ⟨q, a⟩ = some id →
    (s.store.connections.get? id).isSome = true)
    (hset : ∀ id, ¬ HasSet id ⟨q, a⟩) (hcleared : ∀ id, ¬ HasCleared id ⟨q, a⟩) :
    Inv start { store := s.store, threads := s.threads.set i (τ.heard q a next) } := by
  refine ⟨hI.marked, hI.log, fun id v h => (hI.sets id v h).resume hτ,
    fun id h => (hI.clears id h).resume hτ, ?_, ?_, ?_⟩
  · intro j id h
    rcases (says_resume hτ).mp h with hold | ⟨_, hnew⟩
    · exact hI.found j id hold
    · exact hfinds id hnew
  · intro j id h
    rcases (says_resume hτ).mp h with hold | ⟨_, hnew⟩
    · exact hI.set j id hold
    · exact absurd hnew (hset id)
  · intro j id h
    rcases (says_resume hτ).mp h with hold | ⟨_, hnew⟩
    · exact hI.cleared j id hold
    · exact absurd hnew (hcleared id)

include hd hasks

/-- A call sets its connection. -/
theorem inv_set {id : String} {d : Option Bool} (hq : q.sets = some (id, d)) :
    Inv start { store := s.store.put id (some true), threads :=
      s.threads.set i (τ.heard q a next) } := by
  obtain ⟨rfl, rfl, hquiet⟩ := hasks.sets id d hq
  have hclears : q.clears = none := by
    cases q with
    | findById id => rfl
    | operation op => cases op <;> first | rfl | cases hq
  have hfinds : finds ⟨q, a⟩ = none := by
    cases q with
    | findById id => cases hq
    | operation op => rfl
  -- nothing has been written for this connection
  have hnew : ∀ first ∈ s.store.written, first.id ≠ τ.request.input.id := by
    intro first hfirst hid
    cases first with
    | set key v =>
        obtain rfl : key = τ.request.input.id := hid
        obtain ⟨x, hx, hsets⟩ := (hI.sets _ v hfirst).own hd hτ
        exact hsets (hquiet x hx).1
    | clear key =>
        obtain rfl : key = τ.request.input.id := hid
        obtain ⟨x, hx, hsays⟩ := (hI.clears _ hfirst).own hd hτ
        exact hsays (hquiet x hx).2
  refine ⟨?_, ?_, ?_, ?_, ?_, ?_, ?_⟩
  · show (s.store.put _ _).marked = (s.store.written ++ [_]).foldl mark start
    rw [marked_put, List.foldl_append, hI.marked]
    rfl
  · refine hI.log.append (fun first hfirst hid => absurd hid (hnew first hfirst)) ?_
      (by rintro id ⟨⟩)
    rintro id v ⟨⟩
    rfl
  · intro id v hmem
    rcases List.mem_append.mp hmem with hmem | hmem
    · exact (hI.sets id v hmem).resume hτ
    · obtain ⟨rfl, _⟩ := Write.set.inj (List.mem_singleton.mp hmem)
      refine spoke_now hτ ?_
      show q.sets ≠ none
      rw [hq]
      exact Option.some_ne_none _
  · intro id hmem
    rcases List.mem_append.mp hmem with hmem | hmem
    · exact (hI.clears id hmem).resume hτ
    · cases List.mem_singleton.mp hmem
  · intro j id h
    show ((s.store.connections.set _ _).get? id).isSome = true
    rcases (says_resume hτ).mp h with hold | ⟨_, hnow⟩
    · by_cases hid : id = τ.request.input.id
      · rw [hid, OrderedMap.get?_set_self]
        rfl
      · rw [OrderedMap.get?_set_of_ne _ _ hid]
        exact hI.found j id hold
    · rw [hfinds] at hnow
      cases hnow
  · intro j id h
    rcases (says_resume hτ).mp h with hold | ⟨_, hnow⟩
    · exact List.mem_append_left _ (hI.set j id hold)
    · refine List.mem_append_right _ (List.mem_singleton.mpr ?_)
      have hid := hnow.1
      rw [show (⟨q, a⟩ : Exchange).1 = q from rfl, hq] at hid
      rw [(Prod.mk.inj (Option.some.inj hid)).1]
  · intro j id h
    rcases (says_resume hτ).mp h with hold | ⟨_, hnow⟩
    · exact List.mem_append_left _ (hI.cleared j id hold)
    · rw [HasCleared, show (⟨q, a⟩ : Exchange).1 = q from rfl, hclears] at hnow
      cases hnow.1

/-- A call clears the others. -/
theorem inv_clear {id : String} (hq : q.clears = some id) :
    Inv start { store := s.store.clearOthers id, threads :=
      s.threads.set i (τ.heard q a next) } := by
  obtain ⟨rfl, ⟨x, hx, hset⟩, hpending⟩ := hasks.clears id hq
  have hsets : q.sets = none := by
    cases q with
    | findById id => rfl
    | operation op => cases op <;> first | rfl | cases hq
  have hfinds : finds ⟨q, a⟩ = none := by
    cases q with
    | findById id => cases hq
    | operation op => rfl
  refine ⟨?_, ?_, ?_, ?_, ?_, ?_, ?_⟩
  · show (s.store.clearOthers _).marked = (s.store.written ++ [_]).foldl mark start
    rw [marked_clearOthers, List.foldl_append, hI.marked]
    rfl
  · refine hI.log.append ?_ (by rintro id v ⟨⟩) ?_
    · -- it has set its connection, and has not cleared before
      intro first hfirst hid
      refine ⟨?_, rfl⟩
      cases first with
      | set key v => exact ⟨v, rfl⟩
      | clear key =>
          obtain rfl : key = τ.request.input.id := hid
          obtain ⟨y, hy, hsays⟩ := (hI.clears _ hfirst).own hd hτ
          exact absurd (hpending y hy) hsays
    · rintro id ⟨⟩
      exact hI.set i _ ⟨τ, hτ, x, hx, hset⟩
  · intro id v hmem
    rcases List.mem_append.mp hmem with hmem | hmem
    · exact (hI.sets id v hmem).resume hτ
    · cases List.mem_singleton.mp hmem
  · intro id hmem
    rcases List.mem_append.mp hmem with hmem | hmem
    · exact (hI.clears id hmem).resume hτ
    · obtain rfl := Write.clear.inj (List.mem_singleton.mp hmem)
      refine spoke_now hτ ?_
      show q.clears ≠ none
      rw [hq]
      exact Option.some_ne_none _
  · intro j id h
    show ((s.store.connections.mapValues _).get? id).isSome = true
    rw [OrderedMap.get?_mapValues, Option.isSome_map]
    rcases (says_resume hτ).mp h with hold | ⟨_, hnow⟩
    · exact hI.found j id hold
    · rw [hfinds] at hnow
      cases hnow
  · intro j id h
    rcases (says_resume hτ).mp h with hold | ⟨_, hnow⟩
    · exact List.mem_append_left _ (hI.set j id hold)
    · rw [HasSet, show (⟨q, a⟩ : Exchange).1 = q from rfl, hsets] at hnow
      cases hnow.1
  · intro j id h
    rcases (says_resume hτ).mp h with hold | ⟨_, hnow⟩
    · exact List.mem_append_left _ (hI.cleared j id hold)
    · refine List.mem_append_right _ (List.mem_singleton.mpr ?_)
      have hid := hnow.1
      rw [show (⟨q, a⟩ : Exchange).1 = q from rfl, hq] at hid
      rw [Option.some.inj hid]

theorem inv_resume {store' : Store} {outcome : Outcome}
    (hexec : exec s.store outcome q = some (a, store')) :
    Inv start { store := store', threads := s.threads.set i (τ.heard q a next) } := by
  cases q with
  | findById id =>
      cases hexec
      refine inv_same hI hτ (fun key hfinds => ?_) (fun _ h => ?_) fun _ h => ?_
      · obtain ⟨rfl, stored, hfound⟩ := finds_eq hfinds
        split at hfound
        · rw [Except.ok.inj hfound]
          rfl
        · cases hfound
      · cases h.1
      · cases h.1
  | operation op =>
      have hfinds : ∀ id, finds ⟨.operation op, a⟩ = some id →
          (s.store.connections.get? id).isSome = true := by
        rintro id ⟨⟩
      rcases exec_operation hexec with hrun | ⟨hsame, hnot⟩
      · rw [hrun]
        cases op with
        | save id d =>
            obtain ⟨_, rfl, _⟩ := hasks.sets id d rfl
            exact inv_set hI hd hτ hasks rfl
        | findByIdAndUpdate id d =>
            obtain ⟨_, rfl, _⟩ := hasks.sets id d rfl
            obtain ⟨x, hx, hfound⟩ := hasks.found id _ rfl
            obtain ⟨old, hold⟩ := Option.isSome_iff_exists.mp (hI.found i id ⟨τ, hτ, x, hx, hfound⟩)
            have hput : Operation.run s.store (.findByIdAndUpdate id (some true)) =
                s.store.put id (some true) := by
              rw [Operation.run, hold]
              rfl
            rw [hput]
            exact inv_set hI hd hτ hasks rfl
        | unsetOtherDefaults id => exact inv_clear hI hd hτ hasks rfl
        | _ =>
            refine inv_same hI hτ hfinds (fun _ h => ?_) fun _ h => ?_
            · cases h.1
            · cases h.1
      · rw [hsame]
        refine inv_same hI hτ hfinds (fun _ h => ?_) fun _ h => ?_
        · rw [h.2] at hnot
          cases hnot
        · rw [h.2] at hnot
          cases hnot

end Step

theorem defaults_of_call {s : State} {r : Request} {p : Calls Unit}
    (hd : Defaults { s with threads := s.threads ++ [{ request := r, program := p }] }) :
      Defaults s := by
  refine ⟨?_, fun τ hτ => hd.default τ (List.mem_append_left _ hτ)⟩
  exact ((List.sublist_append_left _ _).map _).nodup hd.distinct

theorem defaults_of_resume {s : State} {i : Nat} {τ : Thread} (hτ : s.threads[i]? = some τ)
    {store : Store}
    {q : Query} {a : Answer q} {next : Calls Unit}
    (hd : Defaults { store := store, threads := s.threads.set i (τ.heard q a next) }) :
      Defaults s := by
  refine ⟨?_, fun τ' hτ' => ?_⟩
  · have hsame := Runs.map_set_of_eq (f := fun τ : Thread =>
        τ.request.input.id) (b := τ.heard q a next)
      hτ rfl
    rw [← hsame]
    exact hd.distinct
  · -- the request of the one that went on is the same
    obtain ⟨j, hj⟩ := List.getElem?_of_mem hτ'
    by_cases hij : i = j
    · rw [← hij, hτ] at hj
      rw [← Option.some.inj hj]
      have hself := List.getElem?_set_self (a := τ.heard q a next)
          (List.getElem?_eq_some_iff.mp hτ).1
      exact hd.default (τ.heard q a next) (List.mem_of_getElem? hself)
    · exact hd.default τ' (List.mem_of_getElem? ((List.getElem?_set_ne hij).trans hj))

theorem kept (start : String → Prop) : Kept system law fun s => Defaults s → Inv start s := by
  refine ⟨?_, ?_, ?_⟩
  · intro s r hI _ hd
    have hI := hI (defaults_of_call hd)
    exact ⟨hI.marked, hI.log, fun id v h => (hI.sets id v h).call _ _, fun id h =>
      (hI.clears id h).call _ _, fun i id h => hI.found i id (says_call.mp h), fun i id h =>
      hI.set i id (says_call.mp h), fun i id h => hI.cleared i id (says_call.mp h)⟩
  · intro s i τ q next outcome a store' hI hs hτ hprogram hexec hd
    have hd := defaults_of_resume hτ hd
    have hmem := List.mem_of_getElem? hτ
    exact inv_resume (hI hd) hd hτ ((hs τ hmem).asks hprogram (hd.default τ hmem)) hexec
  · rintro s ⟨⟩

/-! ## One default -/

/-- All calls have ended, one at least without an error. -/
structure Completed (s : State) : Prop where
  ended     : ∀ τ ∈ s.threads, (τ.program matches .ask _ _) = false
  succeeded : ∃ τ ∈ s.threads, τ.program = .returned ()

/-- **One default.** When all calls have completed, one connection is the default exactly
    when the writes came in such an order. -/
theorem one_default_iff {connections : OrderedMap String (Option Bool)} {s : State}
    (hreach : Reachable system { store := { connections := connections } } s) (hd : Defaults s)
    (hcompleted : Completed s) : (∃! id, s.store.marked id) ↔ Settled s.store.written := by
  have hstart : Defaults { store := { connections := connections } } →
      Inv (Store.marked { connections := connections })
        { store := { connections := connections } } := by
    intro _
    refine ⟨rfl, ⟨List.Pairwise.nil, ?_, ?_⟩, ?_, ?_, ?_, ?_, ?_⟩
    · rintro id v ⟨⟩
    · rintro id ⟨⟩
    · rintro id v ⟨⟩
    · rintro id ⟨⟩
    · rintro i id ⟨τ, ⟨⟩, _⟩
    · rintro i id ⟨τ, ⟨⟩, _⟩
    · rintro i id ⟨τ, ⟨⟩, _⟩
  obtain ⟨hs, hI⟩ := run_invariant wp_program (kept _) (allLawful_nil _) hstart hreach
  have hI := hI hd
  -- who has succeeded has cleared the others
  obtain ⟨τ, hτ, hprogram⟩ := hcompleted.succeeded
  obtain ⟨i, hi⟩ := List.getElem?_of_mem hτ
  obtain ⟨x, hx, hcleared⟩ := (hs τ hτ).result hprogram (hd.default τ hτ)
  have hclear := hI.cleared i _ ⟨τ, hi, x, hx, hcleared⟩
  rw [hI.marked]
  exact hI.log.existsUnique_iff_settled ⟨_, hclear⟩ _

/-- A new default connection. -/
def newDefault (id : String) : Request := .create { id := id, isDefault := some true }

/-- Two of them, one after the other. -/
def oneAfterTheOther : List (Event Request Empty Outcome) :=
  [.call (newDefault "a"), .resume 0 .done, .resume 0 .done, .resume 0 .done, .resume 0 .done,
   .call (newDefault "b"), .resume 1 .done, .resume 1 .done, .resume 1 .done, .resume 1 .done]

theorem one_default_after_another : ∃ t, Reachable system
    { store := { connections := OrderedMap.empty } } t ∧
    Completed t ∧ ∃! id, t.store.marked id := by
  have hend : ∀ t, Runs.run (step system) { store := { connections := OrderedMap.empty } }
      oneAfterTheOther = some t → Defaults t ∧ Completed t ∧ Settled t.store.written := by
    rintro t ⟨⟩
    refine ⟨⟨by decide, by decide⟩, ⟨by decide, ⟨_, List.mem_cons_self, rfl⟩⟩, ?_⟩
    refine ⟨[.set "a" (some true), .clear "a", .set "b" (some true)], "b", [], rfl,
      fun _ => List.not_mem_nil, Or.inl ⟨?_, rfl⟩⟩
    exact ⟨[.set "a" (some true), .clear "a"], [], rfl, fun _ => List.not_mem_nil⟩
  have hrun : Runs.run (step system) { store := { connections := OrderedMap.empty } }
      oneAfterTheOther = some _ := rfl
  obtain ⟨hd, hcompleted, hsettled⟩ := hend _ hrun
  exact ⟨_, ⟨_, hrun⟩, hcompleted, (one_default_iff ⟨_, hrun⟩ hd hcompleted).mpr hsettled⟩

/-- Both are saved before either clears the other one. -/
def bothAtOnce : List (Event Request Empty Outcome) :=
  [.call (newDefault "a"), .call (newDefault "b"), .resume 0 .done, .resume 0 .done,
    .resume 0 .done, .resume 1 .done, .resume 1 .done, .resume 1 .done, .resume 0 .done,
    .resume 1 .done]

theorem no_default_left : ∃ t, Reachable system { store := { connections := OrderedMap.empty } } t ∧
    Defaults t ∧ Completed t ∧ ¬ ∃! id, t.store.marked id := by
  refine ⟨_, ⟨bothAtOnce, rfl⟩, ⟨by decide, by decide⟩, ⟨by decide, ⟨_, List.mem_cons_self, rfl⟩⟩,
    ?_⟩
  rintro ⟨id, hmarked, _⟩
  have hmem := OrderedMap.get?_eq_some_iff.mp hmarked
  rcases List.mem_cons.mp hmem with heq | hmem
  · cases heq
  · cases List.mem_singleton.mp hmem

end AiConnections
