import NestServer.Mongo.Document
import NestServer.Runs

/-! # Updates of one document

    `CrudService.update` reads the document, runs the service's pipeline over
    the input, and writes back the merge of the whole document it read with the
    input.  Any number of calls run on one document; between two awaits of one
    call the others go on. -/

namespace CrudService

open Mongo Runs

/-! ## Merging -/

/-- A plain object; `none` is a property that is `undefined`. -/
abbrev PlainInput := OrderedMap String (Option Value)

/-- The properties that are not `undefined`. -/
def filterDefined (item : PlainInput) : Document where
  entries := item.entries.filterMap fun e => e.2.map fun v => (e.1, v)
  nodup   := by
    have hsub : (item.entries.filterMap fun e => e.2.map fun v => (e.1, v)).map Prod.fst
        |>.Sublist (item.entries.map Prod.fst) := by
      induction item.entries with
      | nil => exact .slnil
      | cons e es ih =>
          rw [List.filterMap_cons, List.map_cons]
          cases e.2 with
          | none => exact ih.cons _
          | some v => exact ih.cons_cons _
    exact hsub.nodup item.nodup

/- A plain object is merged into a plain object, field by field; everything
   else replaces what is there, arrays by the customizer of `merge`.  An array
   keeps its elements when an object is merged into it. -/
mutual

def mergeValue (old : Option Value) : Value → Value
  | .doc fields =>
      match old with
      | some (.doc oldFields) => .doc (mergeFields oldFields fields)
      | some (.list vs)       => .list vs
      | _                     => .doc fields
  | v => v

def mergeFields (oldFields : List (String × Value)) : List (String × Value) → List (String × Value)
  | []             => oldFields
  | (k, v) :: rest =>
      mergeFields (OrderedMap.setEntries k (mergeValue (oldFields.lookup k) v) oldFields) rest

end

/-- `merge(target, item)` -/
def mergeInto (target item : Document) : Document :=
  item.entries.foldl (fun t e => t.set e.1 (mergeValue (t.get? e.1) e.2)) target

/-- `mergePlain(target, ...args)` -/
def mergePlain (target : Document) (args : List PlainInput) : Document :=
  (args.map filterDefined).foldl mergeInto target

/-! ## Calls -/

/-- The methods of a service that a subclass may override.  `checkRights` also
    gets the document; `none` is an exception. -/
structure Service where
  prepareInput : PlainInput → PlainInput
  checkRights  : Document → PlainInput → Option PlainInput

/-- A call of `update` with its arguments. -/
structure UpdateCall where
  input         : PlainInput
  currentUserId : Option Value
deriving DecidableEq

/-- Where a call stands. -/
inductive Phase where
  | start
  /-- the document is read -/
  | found (dbObject : Document)
  /-- `prepareInput` has returned -/
  | prepared (dbObject : Document) (input : PlainInput)
  /-- `checkRights` has returned, the service function runs -/
  | checked (dbObject : Document) (input : PlainInput)
  | done
  | failed
deriving DecidableEq

/-- What the service function merges into the document it has. -/
def UpdateCall.args (c : UpdateCall) (input : PlainInput) : List PlainInput :=
  [input, OrderedMap.empty.set "updatedBy" c.currentUserId]

/-- `findByIdAndUpdate(id, merged)`: a plain update sets each of its fields. -/
def findByIdAndUpdate (stored merged : Document) : Document := stored.spread merged

/-- The stored document, the calls, and as history the calls that have written,
    by their index, in the order of their writes. -/
structure State where
  doc     : Document
  calls   : List (UpdateCall × Phase)
  written : List Nat

def State.put (s : State) (i : Nat) (c : UpdateCall) (phase : Phase) : State :=
  { s with calls := s.calls.set i (c, phase) }

/-- The call with index `i` goes on to its next await. -/
def step (service : Service) (s : State) (i : Nat) : Option State :=
  match s.calls[i]? with
  | none => none
  | some (c, .start) => some (s.put i c (.found s.doc))
  | some (c, .found dbObject) =>
      some (s.put i c (.prepared dbObject (service.prepareInput c.input)))
  | some (c, .prepared dbObject input) =>
      match service.checkRights dbObject input with
      | none       => some (s.put i c .failed)
      | some input => some (s.put i c (.checked dbObject input))
  | some (c, .checked dbObject input) =>
      let merged := mergePlain dbObject (c.args input)
      some ({ s with doc := findByIdAndUpdate s.doc merged, written := s.written ++ [i] }.put i c
        .done)
  | some (_, .done) => none
  | some (_, .failed) => none

structure Start (s : State) : Prop where
  calls   : ∀ e ∈ s.calls, e.2 = .start
  written : s.written = []

/-! ## The property -/

/-- One call alone on a document. -/
def updateAlone (service : Service) (d : Document) (c : UpdateCall) : Document :=
  match service.checkRights d (service.prepareInput c.input) with
  | none       => d
  | some input => findByIdAndUpdate d (mergePlain d (c.args input))

/-- The calls one after the other. -/
def serial (service : Service) (d : Document) (order : List UpdateCall) : Document :=
  order.foldl (updateAlone service) d

/-- The documents have the same fields with the same values. -/
def SameFields (d d' : Document) : Prop :=
  ∀ k, d.get? k = d'.get? k

/-- The call passes all checks, with `data` as what they hand on. -/
def Passes (service : Service) (c : UpdateCall) (data : PlainInput) : Prop :=
  ∀ d, service.checkRights d (service.prepareInput c.input) = some data

/-- Apart from the audit field, the inputs set different fields. -/
def DisjointFields (data data' : PlainInput) : Prop :=
  ∀ k, k ≠ "updatedBy" → (filterDefined data).get? k = none ∨ (filterDefined data').get? k = none

/-- The document holds the field as the input sets it. -/
def Contains (d : Document) (k : String) (v : Value) : Prop :=
  ∃ old, d.get? k = some (mergeValue old v)

/-- A value that is not merged with an older one. -/
def Replaces : Value → Prop
  | .doc _ => False
  | _      => True

/-- The fields that a write puts back as it read them, or merges with what it
    read, are still as it read them. -/
def WritesCurrent (s : State) (i : Nat) : Prop :=
  ∀ c dbObject input, s.calls[i]? = some (c, .checked dbObject input) →
    ∀ k, s.doc.get? k = dbObject.get? k ∨
      (∃ item ∈ c.args input, ∃ v, (filterDefined item).get? k = some v ∧ Replaces v) ∨
      (dbObject.get? k = none ∧ ∀ item ∈ c.args input, (filterDefined item).get? k = none)

/-! ## What a merge makes of one field -/

/-- What the arguments of a merge make of the old value of a field. -/
def mergedField (args : List PlainInput) (k : String) (old : Option Value) : Option Value :=
  args.foldl (fun old item =>
    match (filterDefined item).get? k with
    | none   => old
    | some v => some (mergeValue old v)) old

theorem get?_mergeEntries {es : List (String × Value)} (hnd : (es.map Prod.fst).Nodup)
    (d : Document) (k : String) :
    (es.foldl (fun t e => t.set e.1 (mergeValue (t.get? e.1) e.2)) d).get? k =
      match (es.find? fun e => e.1 = k).map Prod.snd with
      | none   => d.get? k
      | some v => some (mergeValue (d.get? k) v) := by
  induction es generalizing d with
  | nil => rfl
  | cons e es ih =>
      rw [List.map_cons, List.nodup_cons] at hnd
      rw [List.foldl_cons, ih hnd.2, List.find?_cons]
      by_cases hk : e.1 = k
      · -- the other entries do not name the field
        have hnone : (es.find? fun e => e.1 = k) = none := by
          refine List.find?_eq_none.mpr ?_
          intro p hp heq
          exact hnd.1 (List.mem_map.mpr ⟨p, hp, (of_decide_eq_true heq).trans hk.symm⟩)
        rw [hnone, ← hk, OrderedMap.get?_set_self, decide_eq_true rfl]
        rfl
      · rw [decide_eq_false hk, OrderedMap.get?_set_of_ne _ _ (Ne.symm hk)]

theorem get?_mergeInto (d item : Document) (k : String) :
    (mergeInto d item).get? k =
      match item.get? k with
      | none   => d.get? k
      | some v => some (mergeValue (d.get? k) v) :=
  get?_mergeEntries item.nodup d k

theorem get?_mergePlain (d : Document) (args : List PlainInput) (k : String) :
    (mergePlain d args).get? k = mergedField args k (d.get? k) := by
  rw [mergePlain, mergedField]
  induction args generalizing d with
  | nil => rfl
  | cons item args ih =>
      rw [List.map_cons, List.foldl_cons, List.foldl_cons, ih, get?_mergeInto]

/-- A value that replaces makes the old one irrelevant. -/
theorem mergedField_replaced {args : List PlainInput} {k : String}
    (h : ∃ item ∈ args, ∃ v, (filterDefined item).get? k = some v ∧ Replaces v)
    (old old' : Option Value) : mergedField args k old = mergedField args k old' := by
  induction args generalizing old old' with
  | nil =>
      obtain ⟨_, hmem, -⟩ := h
      cases hmem
  | cons item args ih =>
      rw [mergedField, mergedField, List.foldl_cons, List.foldl_cons]
      obtain ⟨x, hx, v, hv, hrep⟩ := h
      rcases List.mem_cons.mp hx with rfl | hx'
      · have hsame : ∀ old : Option Value, mergeValue old v = v := by
          intro old
          cases v with
          | doc fields => exact hrep.elim
          | _ => rw [mergeValue]; all_goals simp
        rw [hv]
        dsimp only
        rw [hsame, hsame]
      · exact ih ⟨x, hx', v, hv, hrep⟩ _ _

theorem mergedField_unnamed {args : List PlainInput} {k : String}
    (h : ∀ item ∈ args, (filterDefined item).get? k = none) (old : Option Value) :
    mergedField args k old = old := by
  induction args generalizing old with
  | nil => rfl
  | cons item args ih =>
      rw [mergedField, List.foldl_cons, h item List.mem_cons_self]
      exact ih (fun x hx => h x (List.mem_cons_of_mem _ hx)) old

theorem mergedField_isSome (args : List PlainInput) (k : String) {old : Option Value}
    (h : old.isSome = true) : (mergedField args k old).isSome = true := by
  induction args generalizing old with
  | nil => exact h
  | cons item args ih =>
      rw [mergedField, List.foldl_cons]
      refine ih ?_
      cases (filterDefined item).get? k with
      | none => exact h
      | some v => rfl

/-- A field that the merge does not have is one that neither side named. -/
theorem mergedField_eq_none {args : List PlainInput} {k : String} {old : Option Value}
    (h : mergedField args k old = none) : old = none := by
  cases old with
  | none => rfl
  | some v =>
      have hsome : (mergedField args k (some v)).isSome = true := mergedField_isSome args k rfl
      rw [h] at hsome
      cases hsome

/-! ## One write -/

/-- What a write makes of the stored fields, from the document it has read. -/
theorem get?_write (stored dbObject : Document) (args : List PlainInput) (k : String) :
    (findByIdAndUpdate stored (mergePlain dbObject args)).get? k =
      (mergedField args k (dbObject.get? k)).or (stored.get? k) := by
  rw [findByIdAndUpdate, OrderedMap.get?_spread, get?_mergePlain]

/-- An update alone merges into what is stored. -/
theorem get?_write_alone (d : Document) (args : List PlainInput) (k : String) :
    (findByIdAndUpdate d (mergePlain d args)).get? k = mergedField args k (d.get? k) := by
  rw [get?_write]
  cases h : mergedField args k (d.get? k) with
  | some v => rfl
  | none =>
      rw [mergedField_eq_none h]
      rfl

/-- A current write does what it would do on the document as it is stored. -/
theorem write_current {stored dbObject : Document} {args : List PlainInput}
    (h : ∀ k, stored.get? k = dbObject.get? k ∨
      (∃ item ∈ args, ∃ v, (filterDefined item).get? k = some v ∧ Replaces v) ∨
      (dbObject.get? k = none ∧ ∀ item ∈ args, (filterDefined item).get? k = none)) :
    SameFields (findByIdAndUpdate stored (mergePlain dbObject args))
      (findByIdAndUpdate stored (mergePlain stored args)) := by
  intro k
  rw [get?_write, get?_write]
  rcases h k with hsame | hrep | ⟨hnone, hun⟩
  · rw [hsame]
  · rw [mergedField_replaced hrep (dbObject.get? k) (stored.get? k)]
  · rw [mergedField_unnamed hun, mergedField_unnamed hun, hnone, Option.none_or, Option.or_self]

theorem sameFields_write {d d' : Document} (h : SameFields d d') (args : List PlainInput) :
    SameFields (findByIdAndUpdate d (mergePlain d args))
      (findByIdAndUpdate d' (mergePlain d' args)) := by
  intro k
  rw [get?_write_alone, get?_write_alone, h k]

/-! ## Runs -/

section Serial

variable {service : Service} {data : UpdateCall → PlainInput}

theorem updateAlone_of_passes {c : UpdateCall} (h : Passes service c (data c)) (d : Document) :
    updateAlone service d c = findByIdAndUpdate d (mergePlain d (c.args (data c))) := by
  rw [updateAlone, h d]

/-- What holds between the steps: the stored document is what the calls that
    have written make of the first one, in the order of their writes. -/
structure Inv (service : Service) (data : UpdateCall → PlainInput) (calls : List UpdateCall)
    (d : Document) (s : State) : Prop where
  same     : s.calls.map Prod.fst = calls
  prepared : ∀ (i : Nat) (c : UpdateCall) (dbObject : Document) (input : PlainInput),
    s.calls[i]? = some (c, .prepared dbObject input) → input = service.prepareInput c.input
  checked  : ∀ (i : Nat) (c : UpdateCall) (dbObject : Document) (input : PlainInput),
    s.calls[i]? = some (c, .checked dbObject input) → input = data c
  nodup    : s.written.Nodup
  written  : ∀ i : Nat, i ∈ s.written ↔ ∃ c, s.calls[i]? = some (c, .done)
  doc      : SameFields s.doc (serial service d (s.written.filterMap fun i => calls[i]?))

theorem inv_start {s : State} (h : Start s) :
    Inv service data (s.calls.map Prod.fst) s.doc s := by
  have hphase : ∀ (i : Nat) (e : UpdateCall × Phase), s.calls[i]? = some e → e.2 = .start :=
    fun i e he => h.calls e (List.mem_of_getElem? he)
  refine ⟨rfl, ?_, ?_, by rw [h.written]; exact List.nodup_nil, ?_, ?_⟩
  · intro i c dbObject input hc
    cases hphase i _ hc
  · intro i c dbObject input hc
    cases hphase i _ hc
  · intro i
    rw [h.written]
    constructor
    · intro hmem
      cases hmem
    · rintro ⟨c, hc⟩
      cases hphase i _ hc
  · rw [h.written]
    exact fun _ => rfl

/-- A step that does not write. -/
theorem Inv.put {calls : List UpdateCall} {d : Document} {s : State} {i : Nat} {c : UpdateCall}
    {phase phase' : Phase} (h : Inv service data calls d s) (hc : s.calls[i]? = some (c, phase))
    (hopen : phase ≠ .done) (hnext : phase' ≠ .done)
    (hprepared : ∀ dbObject input, phase' = .prepared dbObject input →
      input = service.prepareInput c.input)
    (hchecked : ∀ dbObject input, phase' = .checked dbObject input → input = data c) :
    Inv service data calls d (s.put i c phase') := by
  have hfst : (s.calls.set i (c, phase')).map Prod.fst = s.calls.map Prod.fst :=
    map_set_of_eq hc rfl
  refine ⟨hfst.trans h.same, ?_, ?_, h.nodup, ?_, h.doc⟩
  · intro j c' dbObject input hj
    rcases getElem?_set_cases hj with ⟨-, heq⟩ | ⟨-, hj'⟩
    · cases heq
      exact hprepared dbObject input rfl
    · exact h.prepared j c' dbObject input hj'
  · intro j c' dbObject input hj
    rcases getElem?_set_cases hj with ⟨-, heq⟩ | ⟨-, hj'⟩
    · cases heq
      exact hchecked dbObject input rfl
    · exact h.checked j c' dbObject input hj'
  · intro j
    rw [show (s.put i c phase').written = s.written from rfl, h.written j]
    constructor
    · rintro ⟨c', hj⟩
      have hne : i ≠ j := by
        rintro rfl
        rw [hc] at hj
        exact hopen (Prod.mk.inj (Option.some.inj hj)).2
      exact ⟨c', (List.getElem?_set_ne hne).trans hj⟩
    · rintro ⟨c', hj⟩
      rcases getElem?_set_cases hj with ⟨-, heq⟩ | ⟨-, hj'⟩
      · exact absurd (Prod.mk.inj heq).2.symm hnext
      · exact ⟨c', hj'⟩

theorem Inv.write {calls : List UpdateCall} {d : Document} {s : State} {i : Nat} {c : UpdateCall}
    {dbObject : Document} {input : PlainInput} (h : Inv service data calls d s)
    (hpass : ∀ c ∈ calls, Passes service c (data c))
    (hc : s.calls[i]? = some (c, .checked dbObject input)) (hcur : WritesCurrent s i) :
    Inv service data calls d
      ({ s with doc := findByIdAndUpdate s.doc (mergePlain dbObject (c.args input)),
                written := s.written ++ [i] }.put i c .done) := by
  have hfst : (s.calls.set i (c, .done)).map Prod.fst = s.calls.map Prod.fst :=
    map_set_of_eq hc rfl
  have hget : calls[i]? = some c := by
    rw [← h.same, List.getElem?_map, hc]
    rfl
  have hnew : i ∉ s.written := by
    intro hmem
    obtain ⟨c', hc'⟩ := (h.written i).mp hmem
    rw [hc] at hc'
    cases hc'
  obtain rfl : input = data c := h.checked i c dbObject input hc
  refine ⟨hfst.trans h.same, ?_, ?_, ?_, ?_, ?_⟩
  · intro j c' dbObject' input' hj
    rcases getElem?_set_cases hj with ⟨-, heq⟩ | ⟨-, hj'⟩
    · cases heq
    · exact h.prepared j c' dbObject' input' hj'
  · intro j c' dbObject' input' hj
    rcases getElem?_set_cases hj with ⟨-, heq⟩ | ⟨-, hj'⟩
    · cases heq
    · exact h.checked j c' dbObject' input' hj'
  · refine List.nodup_append.mpr ⟨h.nodup, List.nodup_singleton i, ?_⟩
    intro a ha b hb heq
    exact hnew (List.mem_singleton.mp hb ▸ heq ▸ ha)
  · intro j
    show j ∈ s.written ++ [i] ↔ _
    rw [List.mem_append, List.mem_singleton, h.written j]
    constructor
    · rintro (⟨c', hj⟩ | rfl)
      · have hne : i ≠ j := by
          rintro rfl
          rw [hc] at hj
          cases hj
        exact ⟨c', (List.getElem?_set_ne hne).trans hj⟩
      · exact ⟨c, List.getElem?_set_self (List.getElem?_eq_some_iff.mp hc).1⟩
    · rintro ⟨c', hj⟩
      rcases getElem?_set_cases hj with ⟨rfl, -⟩ | ⟨-, hj'⟩
      · exact Or.inr rfl
      · exact Or.inl ⟨c', hj'⟩
  · -- the write comes last in the serial order
    have hserial : serial service d ((s.written ++ [i]).filterMap fun i => calls[i]?) =
        updateAlone service (serial service d (s.written.filterMap fun i => calls[i]?)) c := by
      rw [List.filterMap_append, serial, List.foldl_append]
      simp [hget, serial]
    show SameFields (findByIdAndUpdate s.doc _)
      (serial service d ((s.written ++ [i]).filterMap fun i => calls[i]?))
    rw [hserial, updateAlone_of_passes (hpass c (List.mem_of_getElem? hget))]
    intro k
    rw [write_current (hcur c dbObject (data c) hc) k]
    exact sameFields_write h.doc _ k

theorem inv_step {calls : List UpdateCall} {d : Document} {s s' : State} {i : Nat}
    (h : Inv service data calls d s) (hpass : ∀ c ∈ calls, Passes service c (data c))
    (hcur : WritesCurrent s i) (hs : step service s i = some s') :
    Inv service data calls d s' := by
  rw [step] at hs
  cases he : s.calls[i]? with
  | none =>
      rw [he] at hs
      cases hs
  | some e =>
      obtain ⟨c, phase⟩ := e
      have hmem : c ∈ calls := by
        rw [← h.same]
        exact List.mem_map_of_mem (List.mem_of_getElem? he)
      rw [he] at hs
      cases phase with
      | start =>
          rw [← Option.some.inj hs]
          refine h.put he ?_ ?_ ?_ ?_ <;> simp
      | found dbObject =>
          rw [← Option.some.inj hs]
          refine h.put he (by simp) (by simp) ?_ (by simp)
          rintro dbObject' input ⟨⟩
          rfl
      | prepared dbObject input =>
          have hinput := h.prepared i c dbObject input he
          have hcheck : service.checkRights dbObject input = some (data c) := by
            rw [hinput]
            exact hpass c hmem dbObject
          dsimp only at hs
          rw [hcheck] at hs
          rw [← Option.some.inj hs]
          refine h.put he (by simp) (by simp) (by simp) ?_
          rintro dbObject' input' ⟨⟩
          rfl
      | checked dbObject input =>
          rw [← Option.some.inj hs]
          exact h.write hpass he hcur
      | done => cases hs
      | failed => cases hs

end Serial

/-! ## No lost update -/

section Fields

variable {service : Service} {data : UpdateCall → PlainInput}

theorem updatedBy_named {user : Option Value} {k : String} (hk : k ≠ "updatedBy") :
    (filterDefined (OrderedMap.empty.set "updatedBy" user)).get? k = none := by
  cases user with
  | none => rfl
  | some v =>
      show (List.find? (fun e => decide (e.1 = k)) [("updatedBy", v)]).map Prod.snd = none
      simp [Ne.symm hk]

/-- A call sets the fields of its input and leaves the fields it does not name. -/
theorem get?_updateAlone {c : UpdateCall} (h : Passes service c (data c)) (d : Document)
    {k : String} (hk : k ≠ "updatedBy") :
    (updateAlone service d c).get? k =
      match (filterDefined (data c)).get? k with
      | none   => d.get? k
      | some v => some (mergeValue (d.get? k) v) := by
  rw [updateAlone_of_passes h, get?_write_alone, UpdateCall.args, mergedField, List.foldl_cons,
    List.foldl_cons, List.foldl_nil, updatedBy_named hk]

theorem get?_serial_unnamed {order : List UpdateCall}
    (hpass : ∀ c ∈ order, Passes service c (data c)) (d : Document) {k : String}
    (hk : k ≠ "updatedBy") (hun : ∀ c ∈ order, (filterDefined (data c)).get? k = none) :
    (serial service d order).get? k = d.get? k := by
  induction order generalizing d with
  | nil => rfl
  | cons c order ih =>
      rw [serial, List.foldl_cons, ← serial,
        ih (fun x hx => hpass x (List.mem_cons_of_mem _ hx)) _
          (fun x hx => hun x (List.mem_cons_of_mem _ hx)),
        get?_updateAlone (hpass c List.mem_cons_self) d hk, hun c List.mem_cons_self]

/-- In a serial order of disjoint inputs every input's fields survive. -/
theorem contains_serial {order : List UpdateCall}
    (hpass : ∀ c ∈ order, Passes service c (data c))
    (hdisjoint : order.Pairwise fun c c' => DisjointFields (data c) (data c')) (d : Document)
    {c : UpdateCall} (hc : c ∈ order) {k : String} {v : Value} (hk : k ≠ "updatedBy")
    (hv : (filterDefined (data c)).get? k = some v) :
    Contains (serial service d order) k v := by
  induction order generalizing d with
  | nil => cases hc
  | cons x order ih =>
      obtain ⟨hfirst, hrest⟩ := List.pairwise_cons.mp hdisjoint
      have hpass' : ∀ c ∈ order, Passes service c (data c) :=
        fun y hy => hpass y (List.mem_cons_of_mem _ hy)
      rcases List.mem_cons.mp hc with rfl | hc'
      · -- nobody after it names the field
        have hun : ∀ y ∈ order, (filterDefined (data y)).get? k = none := by
          intro y hy
          rcases hfirst y hy k hk with hnone | hnone
          · rw [hv] at hnone
            cases hnone
          · exact hnone
        refine ⟨d.get? k, ?_⟩
        rw [serial, List.foldl_cons, ← serial, get?_serial_unnamed hpass' _ hk hun,
          get?_updateAlone (hpass c List.mem_cons_self) d hk, hv]
      · exact ih hpass' hrest _ hc'

theorem DisjointFields.symm {a b : PlainInput} (h : DisjointFields a b) : DisjointFields b a :=
  fun k hk => (h k hk).symm

end Fields

/-- **No lost update.** In a run whose writes put back no field that changed
    since they read it, the document finally stored is that of a serial order
    of the calls; and if the inputs are disjoint, it holds the fields of all. -/
theorem updates_serialize (service : Service) (data : UpdateCall → PlainInput) {s t : State}
    (hstart : Start s) (hpass : ∀ c ∈ s.calls.map Prod.fst, Passes service c (data c))
    (es : List Nat) (hcur : Meets (step service) WritesCurrent s es)
    (hrun : run (step service) s es = some t) (hdone : ∀ e ∈ t.calls, e.2 = .done) :
    (∃ order, order.Perm (s.calls.map Prod.fst) ∧
      SameFields t.doc (serial service s.doc order)) ∧
    ((s.calls.map Prod.fst).Pairwise (fun c c' => DisjointFields (data c) (data c')) →
      ∀ c ∈ s.calls.map Prod.fst, ∀ k v, k ≠ "updatedBy" →
        (filterDefined (data c)).get? k = some v → Contains t.doc k v) := by
  have hinv : Inv service data (s.calls.map Prod.fst) s.doc t :=
    run_invariant (step service) (fun _ _ _ h hc hs => inv_step h hpass hc hs) es s t
      (inv_start hstart) hcur hrun
  have hperm : (t.written.filterMap fun i => (s.calls.map Prod.fst)[i]?).Perm
      (s.calls.map Prod.fst) := by
    have hrange : t.written.Perm (List.range (s.calls.map Prod.fst).length) := by
      refine (List.perm_ext_iff_of_nodup hinv.nodup List.nodup_range).mpr ?_
      intro i
      rw [hinv.written i, List.mem_range, ← hinv.same, List.length_map]
      constructor
      · rintro ⟨c, hc⟩
        exact (List.getElem?_eq_some_iff.mp hc).1
      · intro hlt
        refine ⟨t.calls[i].1, ?_⟩
        rw [List.getElem?_eq_getElem hlt, ← hdone _ (List.getElem_mem hlt)]
    exact (hrange.filterMap _).trans (.of_eq (filterMap_range_getElem? _))
  refine ⟨⟨_, hperm, hinv.doc⟩, ?_⟩
  intro hdisjoint c hc k v hk hv
  have hdisjoint' := (hperm.pairwise_iff fun h => DisjointFields.symm h).mpr hdisjoint
  obtain ⟨old, hold⟩ := contains_serial (fun x hx => hpass x (hperm.subset hx)) hdisjoint' s.doc
    (hperm.symm.subset hc) hk hv
  exact ⟨old, (hinv.doc k).trans hold⟩

section Examples

/-- A service that lets every input pass as it is. -/
def permissive : Service := ⟨fun input => input, fun _ input => some input⟩

def twoUpdates : State :=
  { doc     := (OrderedMap.empty.set "name" (.str "a")).set "mail" (.str "b")
    calls   := [(⟨OrderedMap.empty.set "name" (some (.str "x")), some (.str "u")⟩, .start),
                (⟨OrderedMap.empty.set "mail" (some (.str "y")), some (.str "v")⟩, .start)]
    written := [] }

theorem start_twoUpdates : Start twoUpdates := ⟨by simp [twoUpdates], rfl⟩

def renamed (c : UpdateCall) : PlainInput := c.input

theorem passes_permissive (c : UpdateCall) : Passes permissive c (renamed c) := fun _ => rfl

theorem disjoint_twoUpdates : (twoUpdates.calls.map Prod.fst).Pairwise
    fun c c' => DisjointFields (renamed c) (renamed c') := by
  refine .cons ?_ (.cons (by simp) .nil)
  intro c hc k _
  obtain rfl := List.mem_singleton.mp hc
  show (List.find? (fun e => decide (e.1 = k)) [("name", Value.str "x")]).map Prod.snd = none ∨
    (List.find? (fun e => decide (e.1 = k)) [("mail", Value.str "y")]).map Prod.snd = none
  by_cases hk : k = "name"
  · right
    simp [hk]
  · left
    simp [Ne.symm hk]

/-- A call that wrote right after it read is current. -/
theorem current_of_same {s : State} {i : Nat}
    (h : ∀ c dbObject input, s.calls[i]? = some (c, .checked dbObject input) → dbObject = s.doc) :
    WritesCurrent s i := by
  intro c dbObject input hc k
  rw [h c dbObject input hc]
  exact Or.inl rfl

/-- The second call starts when the first one is done. -/
theorem updates_serialize_in_turn :
    ∃ t, run (step permissive) twoUpdates [0, 0, 0, 0, 1, 1, 1, 1] = some t ∧
      Contains t.doc "name" (.str "x") ∧ Contains t.doc "mail" (.str "y") := by
  have hcur : Meets (step permissive) WritesCurrent twoUpdates [0, 0, 0, 0, 1, 1, 1, 1] := by
    iterate 8
      refine meets_cons _ ?_ ?_ (current_of_same ?_) ?_
      rotate_left
      · rfl
      · rintro c dbObject input ⟨⟩ <;> rfl
    trivial
  refine ⟨_, rfl, ?_⟩
  obtain ⟨-, hfields⟩ := updates_serialize permissive renamed start_twoUpdates
    (fun c _ => passes_permissive c) _ hcur rfl (by decide)
  have hall := hfields disjoint_twoUpdates
  exact ⟨hall _ (.head _) "name" (.str "x") (by decide) rfl,
    hall _ (.tail _ (.head _)) "mail" (.str "y") (by decide) rfl⟩

/-- Every serial order of the two calls keeps the new name. -/
theorem not_serial_of_lost {t : State} (h : ¬ Contains t.doc "name" (.str "x")) :
    ¬ ∃ order, order.Perm (twoUpdates.calls.map Prod.fst) ∧
      SameFields t.doc (serial permissive twoUpdates.doc order) := by
  rintro ⟨order, hperm, hsame⟩
  have hdisjoint := (hperm.pairwise_iff fun h => DisjointFields.symm h).mpr disjoint_twoUpdates
  have hpass : ∀ c ∈ order, Passes permissive c (renamed c) := fun c _ => passes_permissive c
  obtain ⟨old, hold⟩ := contains_serial hpass hdisjoint twoUpdates.doc
    (hperm.symm.subset (.head _)) (k := "name") (v := .str "x") (by decide) rfl
  exact h ⟨old, (hsame "name").trans hold⟩

/-- Both calls read before one writes: the later write puts back the old name,
    which no serial order does. -/
theorem update_loses_name :
    (∀ c ∈ twoUpdates.calls.map Prod.fst, Passes permissive c (renamed c)) ∧
    (twoUpdates.calls.map Prod.fst).Pairwise
      (fun c c' => DisjointFields (renamed c) (renamed c')) ∧
    ∃ t, run (step permissive) twoUpdates [0, 1, 0, 0, 1, 1, 0, 1] = some t ∧
      (∀ e ∈ t.calls, e.2 = .done) ∧ ¬ Contains t.doc "name" (.str "x") ∧
      ¬ ∃ order, order.Perm (twoUpdates.calls.map Prod.fst) ∧
        SameFields t.doc (serial permissive twoUpdates.doc order) := by
  refine ⟨fun c _ => passes_permissive c, disjoint_twoUpdates, _, rfl, by decide, ?_⟩
  refine (and_iff_left_of_imp not_serial_of_lost).mpr ?_
  rintro ⟨old, h⟩
  have hnew : mergeValue old (.str "x") = .str "x" := by
    rw [mergeValue]
    simp
  rw [hnew] at h
  exact absurd h (by decide)

end Examples

end CrudService
