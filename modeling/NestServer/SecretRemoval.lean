import NestServer.DepthFirst
import NestServer.ObjectGraph

/-! # Removal of secret fields

    `removeSecrets` of `check-security.interceptor.ts` goes through the arrays and the
    plain objects of a response and sets the secret fields it meets to undefined.
    Whether it enters an object is decided by the object's own keys (`isPlainLike`).

    The walk is a depth-first search (`process_eq_searchAll`), so `removeSecrets_iff`
    can say which secrets it comes to: those of the objects on paths where nothing looks
    like a Mongoose document or a BSON value. -/

open Relation (ReflTransGen)

namespace CheckSecurity

variable {κ : Type}

abbrev GObject := List (String × GVal)

structure Config where
  removeSecretFields : Bool         := true
  secretFields       : List String  :=
    ["password", "verificationToken", "passwordResetToken", "refreshTokens", "tempTokens",
      "apiKeyEncrypted"]

/-- The heap, and the objects and arrays in `visited`. -/
structure State (κ : Type) where
  heap    : Heap κ
  visited : List Nat

namespace State

def enter (s : State κ) (r : Nat) : State κ := { s with visited := r :: s.visited }

def write (s : State κ) (r : Nat) (cell : Cell κ) : State κ :=
  { s with heap := s.heap.set r cell }

end State

/-! ## The code -/

/-- `data[key] !== undefined`, by the own keys. -/
def isDefinedAt (fields : GObject) (key : String) : Bool :=
  fields.any fun e => e.1 = key && !e.2.isUndefined

/-- JSON has no functions, streams, buffers, dates, maps and sets; what is left of the
    tests are the own keys and the prototype. -/
def isPlainLike (proto : List κ) (fields : GObject) : Bool :=
  !isDefinedAt fields "$__" && !isDefinedAt fields "_bsontype" && proto.isEmpty

/-- `if (field in data && data[field] !== undefined) data[field] = undefined`; for
    `__proto__` the assignment has no effect. -/
def removeField (fields : GObject) (field : String) : GObject :=
  if fields.any fun e => e.1 = field then
    fields.map fun e => if e.1 = field then (field, .prim .undefined) else e
  else if objectPrototype.contains field then fields ++ [(field, .prim .undefined)]
  else fields

/-- The loop over the secret fields. -/
def stripSecrets (secretFields : List String) (fields : GObject) : GObject :=
  secretFields.foldl removeField fields

/-- The array is walked through, or the object entered. -/
def isEntered : Cell κ → Bool
  | .arr _            => true
  | .obj proto fields => isPlainLike proto fields

section

variable (config : Config)

/-- The returns at the top; `process` is what follows them. -/
def guarded (process : Nat → State κ → Option (State κ)) (data : GVal) (s : State κ) :
    Option (State κ) :=
  if !config.removeSecretFields then some s
  else match data with
    | .ref r => match s.heap[r]? with
        | some cell => if !isEntered cell || s.visited.contains r then some s else process r s
        | none      => some s
    | _      => some s

/-- From `visited.add(data)` on, within a call stack that takes so many nested calls. -/
def process : Nat → Nat → State κ → Option (State κ)
  | 0, _, _     => none
  | n + 1, r, s => match s.heap[r]? with
      | some (.arr items) =>
          items.foldlM (fun s item => guarded config (process n) item s) (s.enter r)
      | some (.obj proto fields) =>
          let fields := stripSecrets config.secretFields fields
          -- no call changes the object again: it is visited
          fields.foldlM (fun s e =>
            if config.secretFields.contains e.1 then some s else guarded config (process n) e.2 s)
            ((s.enter r).write r (.obj proto fields))
      | none => some s

/-- `removeSecrets(data)` -/
def removeSecrets (n : Nat) (data : GVal) (s : State κ) : Option (State κ) :=
  guarded config (process config n) data s

end

/-! ## What it is for -/

section

variable (secretFields : List String) (h : Heap κ)

/-- From an array to its items, from a plain object to its values under other keys. -/
def Leads (r r' : Nat) : Prop :=
  (∃ items, h[r]? = some (.arr items) ∧ .ref r' ∈ items)
    ∨ ∃ fields key, h[r]? = some (.obj [] fields) ∧ key ∉ secretFields ∧ (key, .ref r') ∈ fields

/-- Reachable from the response over non-secret keys. -/
def Reaches (data : GVal) (r : Nat) : Prop :=
  ∃ r₀, data = .ref r₀ ∧ ReflTransGen (Leads secretFields h) r₀ r

/-- A plain object with a defined value under a secret field name. -/
def HasSecret (r : Nat) : Prop :=
  ∃ fields e, h[r]? = some (.obj [] fields) ∧ e ∈ fields ∧ e.1 ∈ secretFields
    ∧ e.2.isUndefined = false

def SecretFree (data : GVal) : Prop := ∀ r, Reaches secretFields h data r →
    ¬ HasSecret secretFields h r

/-- The keys that are not secret, with their values. -/
def others (fields : GObject) : GObject := fields.filter fun e => !secretFields.contains e.1

/-- `h'` differs from `h` at most under the secret keys of the plain objects that are
    reachable. -/
structure OthersUnchanged (data : GVal) (h' : Heap κ) : Prop where
  length    : h'.length = h.length
  elsewhere : ∀ r : Nat, ¬ Reaches secretFields h data r → h'[r]? = h[r]?
  arrays    : ∀ (r : Nat) items, h[r]? = some (.arr items) → h'[r]? = h[r]?
  instances : ∀ (r : Nat) c proto fields, h[r]? = some (.obj (c :: proto) fields) → h'[r]? = h[r]?
  objects   : ∀ (r : Nat) fields, h[r]? = some (.obj [] fields) → ∃ fields',
    h'[r]? = some (.obj [] fields') ∧ others secretFields fields' = others secretFields fields

/-- The array or object at an address is one that the walk enters. -/
def Enterable (r : Nat) : Prop := ∃ cell, h[r]? = some cell ∧ isEntered cell = true

/-- Reachable over objects none of which looks like a document. -/
def ReachesPlainly (data : GVal) (r : Nat) : Prop :=
  ∃ r₀, data = .ref r₀ ∧ Enterable h r₀
    ∧ ReflTransGen (fun a b => Leads secretFields h a b ∧ Enterable h b) r₀ r

end

/-! ## One object -/

section

variable {secretFields : List String}

theorem removeField_undefined {names : List String} {fields : GObject} {field : String}
    (h : ∀ e ∈ fields, e.1 ∈ names → e.2.isUndefined = true) :
    ∀ e ∈ removeField fields field, e.1 ∈ names ∨ e.1 = field → e.2.isUndefined = true := by
  intro e he hname
  rw [removeField] at he
  by_cases hown : (fields.any fun e => e.1 = field) = true
  · rw [if_pos hown] at he
    obtain ⟨e₀, he₀, rfl⟩ := List.mem_map.mp he
    by_cases hfield : e₀.1 = field
    · rw [if_pos hfield]
      rfl
    · rw [if_neg hfield] at hname ⊢
      exact h e₀ he₀ (hname.resolve_right hfield)
  · rw [if_neg hown] at he
    have hnot : ∀ e ∈ fields, e.1 ≠ field := by
      intro e he heq
      exact hown (List.any_eq_true.mpr ⟨e, he, decide_eq_true heq⟩)
    by_cases hinherited : objectPrototype.contains field = true
    · rw [if_pos hinherited] at he
      rcases List.mem_append.mp he with he | he
      · exact h e he (hname.resolve_right (hnot e he))
      · rw [List.mem_singleton.mp he]
        rfl
    · rw [if_neg hinherited] at he
      exact h e he (hname.resolve_right (hnot e he))

/-- No secret field is defined afterwards. -/
theorem stripSecrets_undefined (fields : GObject) :
    ∀ e ∈ stripSecrets secretFields fields, e.1 ∈ secretFields → e.2.isUndefined = true := by
  have hrun : ∀ (rest names : List String) (fields : GObject),
      (∀ e ∈ fields, e.1 ∈ names → e.2.isUndefined = true) →
      ∀ e ∈ rest.foldl removeField fields, e.1 ∈ names ∨ e.1 ∈ rest → e.2.isUndefined = true := by
    intro rest
    induction rest with
    | nil => exact fun names fields h e he hname => h e he (hname.resolve_right List.not_mem_nil)
    | cons field rest ih =>
        intro names fields h e he hname
        refine ih (field :: names) _ ?_ e he ?_
        · intro e he hname
          refine removeField_undefined h e he ?_
          exact (List.mem_cons.mp hname).symm
        · rw [List.mem_cons] at hname ⊢
          rcases hname with hname | rfl | hname
          · exact Or.inl (Or.inr hname)
          · exact Or.inl (Or.inl rfl)
          · exact Or.inr hname
  intro e he hname
  exact hrun secretFields [] fields (fun e _ h => absurd h List.not_mem_nil) e he (Or.inr hname)

theorem others_removeField {field : String} (hfield : field ∈ secretFields) (fields : GObject) :
    others secretFields (removeField fields field) = others secretFields fields := by
  have hsecret : secretFields.contains field = true := by simpa using hfield
  rw [removeField]
  by_cases hown : (fields.any fun e => e.1 = field) = true
  · rw [if_pos hown]
    clear hown
    induction fields with
    | nil => rfl
    | cons e fields ih =>
        rw [others, others, List.map_cons, List.filter_cons, List.filter_cons]
        by_cases he : e.1 = field
        · rw [if_pos he, if_neg (by rw [hsecret]; decide), if_neg (by rw [he, hsecret]; decide)]
          exact ih
        · rw [if_neg he]
          have htail : (fields.map fun e => if e.1 = field then (field, GVal.prim .undefined)
              else e).filter
              (fun e => !secretFields.contains e.1)
              = fields.filter fun e => !secretFields.contains e.1 := ih
          rw [htail]
  · rw [if_neg hown]
    by_cases hinherited : objectPrototype.contains field = true
    · rw [if_pos hinherited, others, List.filter_append, List.filter_singleton, hsecret]
      exact List.append_nil _
    · rw [if_neg hinherited]

/-- The other keys are as they were, in their order. -/
theorem others_stripSecrets (fields : GObject) :
    others secretFields (stripSecrets secretFields fields) = others secretFields fields := by
  have hrun : ∀ (rest : List String) (fields : GObject), (∀ field ∈ rest, field ∈ secretFields) →
      others secretFields (rest.foldl removeField fields) = others secretFields fields := by
    intro rest
    induction rest with
    | nil => exact fun _ _ => rfl
    | cons field rest ih =>
        intro fields hrest
        rw [List.foldl_cons, ih _ fun f hf => hrest f (List.mem_cons_of_mem _ hf)]
        exact others_removeField (hrest field List.mem_cons_self) fields
  exact hrun secretFields fields fun _ h => h

end

/-! ## The walk is a search -/

section

variable (secretFields : List String) (h : Heap κ)

/-- The cell afterwards, if it is visited. -/
def stripCell : Cell κ → Cell κ
  | .arr items        => .arr items
  | .obj proto fields => .obj proto (stripSecrets secretFields fields)

/-- The state in which just these addresses are visited. -/
def stateOf (visited : List Nat) : State κ where
  heap    := h.mapIdx fun r cell => if r ∈ visited then stripCell secretFields cell else cell
  visited := visited

/-- The addresses at a value that the walk enters. -/
def targets (data : GVal) : List Nat :=
  data.address?.filter fun r => h[r]?.any isEntered

/-- The values a cell leads to. -/
def children : Cell κ → List GVal
  | .arr items    => items
  | .obj _ fields => (others secretFields fields).map Prod.snd

/-- The addresses the walk goes on to. -/
def next (r : Nat) : List Nat :=
  (h[r]?.elim [] (children secretFields)).flatMap (targets h)

end

section

variable {secretFields : List String} {h : Heap κ}

theorem stateOf_heap_get (visited : List Nat) (r : Nat) :
    (stateOf secretFields h visited).heap[r]?
      = h[r]?.map fun cell => if r ∈ visited then stripCell secretFields cell else cell := by
  rw [stateOf, List.getElem?_mapIdx]

/-- Entering an array or object gives the state in which it is visited too. -/
theorem enter_write {visited : List Nat} {r : Nat} {cell : Cell κ} (hcell : h[r]? = some cell) :
    ((stateOf secretFields h visited).enter r).write r (stripCell secretFields cell)
      = stateOf secretFields h (r :: visited) := by
  rw [State.write, State.enter, stateOf, stateOf]
  congr 1
  refine List.ext_getElem? fun a => ?_
  rw [List.getElem?_set, List.getElem?_mapIdx, List.getElem?_mapIdx, List.length_mapIdx]
  by_cases ha : r = a
  · subst ha
    have hlt : r < h.length := (List.getElem?_eq_some_iff.mp hcell).1
    rw [if_pos rfl, if_pos hlt, hcell, Option.map_some, if_pos List.mem_cons_self]
  · rw [if_neg ha]
    congr 1
    funext c
    have hiff : a ∈ r :: visited ↔ a ∈ visited := by
      rw [List.mem_cons]
      exact or_iff_right fun h => ha h.symm
    rw [if_congr hiff rfl rfl]

/-- An array is not changed. -/
theorem enter_array {visited : List Nat} {r : Nat} {items : List GVal}
    (hcell : h[r]? = some (.arr items)) (hnew : r ∉ visited) :
    (stateOf secretFields h visited).enter r = stateOf secretFields h (r :: visited) := by
  rw [← enter_write hcell, State.write, State.enter]
  congr 1
  refine List.ext_getElem? fun a => ?_
  rw [List.getElem?_set]
  by_cases ha : r = a
  · subst ha
    have hlt : r < (stateOf secretFields h visited).heap.length := by
      rw [stateOf, List.length_mapIdx]
      exact (List.getElem?_eq_some_iff.mp hcell).1
    rw [if_pos rfl, if_pos hlt, stateOf_heap_get, hcell, Option.map_some, if_neg hnew]
    rfl
  · rw [if_neg ha]

/-- Turns of a loop, each of which is some searches. -/
theorem foldlM_eq_searchAll {α : Type} {n : Nat} {f : State κ → α → Option (State κ)}
    {nodes : α → List Nat} {items : List α}
    (hf : ∀ item ∈ items, ∀ visited, f (stateOf secretFields h visited) item
      = (DepthFirst.searchAll (next secretFields h) n (nodes item) visited).map
        (stateOf secretFields h)) (visited : List Nat) :
    items.foldlM f (stateOf secretFields h visited)
      = (DepthFirst.searchAll (next secretFields h) n (items.flatMap nodes) visited).map
        (stateOf secretFields h) := by
  induction items generalizing visited with
  | nil => rfl
  | cons item items ih =>
      rw [List.foldlM_cons, hf item List.mem_cons_self, List.flatMap_cons, DepthFirst.searchAll,
        DepthFirst.searchAll, List.foldlM_append]
      cases hfirst : (nodes item).foldlM
          (fun marked w => DepthFirst.search (next secretFields h) n w marked) visited with
      | none => rfl
      | some visited' =>
          exact ih (fun i hi => hf i (List.mem_cons_of_mem _ hi)) visited'

theorem children_obj {proto : List κ} {fields : GObject} (n : Nat) (visited : List Nat)
    {f : State κ → GVal → Option (State κ)}
    (hf : ∀ data visited, f (stateOf secretFields h visited) data
      = (DepthFirst.searchAll (next secretFields h) n (targets h data) visited).map
        (stateOf secretFields h)) :
    (stripSecrets secretFields fields).foldlM
        (fun s e => if secretFields.contains e.1 then some s else f s e.2)
        (stateOf secretFields h visited)
      = (DepthFirst.searchAll (next secretFields h) n
          ((children secretFields (.obj proto fields)).flatMap (targets h)) visited).map
        (stateOf secretFields h) := by
  have hnodes : (children secretFields (.obj proto fields)).flatMap (targets h)
      = (stripSecrets secretFields fields).flatMap fun e =>
        if secretFields.contains e.1 then [] else targets h e.2 := by
    rw [children, ← others_stripSecrets, others]
    induction stripSecrets secretFields fields with
    | nil => rfl
    | cons e rest ih =>
        rw [List.flatMap_cons, ← ih, List.filter_cons]
        by_cases he : secretFields.contains e.1 = true
        · rw [if_pos he, if_neg (by rw [he]; decide)]
          rfl
        · rw [if_neg he, if_pos (by simpa using he)]
          rfl
  rw [hnodes]
  refine foldlM_eq_searchAll (fun e _ visited => ?_) visited
  by_cases he : secretFields.contains e.1 = true
  · rw [if_pos he, if_pos he]
    rfl
  · rw [if_neg he, if_neg he]
    exact hf e.2 visited

/-- A value has at most one address to enter. -/
theorem targets_cases (data : GVal) : targets h data = []
    ∨ ∃ r cell, data = .ref r ∧ targets h data = [r] ∧ h[r]? = some cell
      ∧ isEntered cell = true := by
  cases data with
  | prim p  => exact Or.inl rfl
  | oid hex => exact Or.inl rfl
  | ref r =>
      rw [targets, GVal.address?, List.filter_singleton]
      cases hcell : h[r]? with
      | none => exact Or.inl rfl
      | some cell =>
          rw [Option.any_some]
          cases hentered : isEntered cell with
          | false => exact Or.inl rfl
          | true  => exact Or.inr ⟨r, cell, rfl, rfl, hcell, hentered⟩

section

variable {process : Nat → State κ → Option (State κ)} {visited : List Nat}

/-- Nothing is done where there is nothing to enter. -/
theorem guarded_of_no_target {data : GVal} (ht : targets h data = []) :
    guarded ⟨true, secretFields⟩ process data (stateOf secretFields h visited)
      = some (stateOf secretFields h visited) := by
  cases data with
  | prim p  => rfl
  | oid hex => rfl
  | ref r =>
      rw [targets, GVal.address?, List.filter_singleton] at ht
      rw [guarded, if_neg (by exact Bool.false_ne_true)]
      rw [stateOf_heap_get]
      cases hcell : h[r]? with
      | none => rfl
      | some cell =>
          rw [hcell, Option.any_some] at ht
          rw [Option.map_some]
          dsimp only
          by_cases hvisited : r ∈ visited
          · have hcontains : (stateOf secretFields h visited).visited.contains r = true := by
              simpa [stateOf] using hvisited
            rw [hcontains, Bool.or_true, if_pos rfl]
          · rw [if_neg hvisited]
            cases hentered : isEntered cell with
            | false => rfl
            | true =>
                rw [hentered] at ht
                cases ht

theorem guarded_of_target {r : Nat} {cell : Cell κ} (hcell : h[r]? = some cell)
    (hentered : isEntered cell = true) :
    guarded ⟨true, secretFields⟩ process (.ref r) (stateOf secretFields h visited)
      = if r ∈ visited then some (stateOf secretFields h visited)
        else process r (stateOf secretFields h visited) := by
  rw [guarded, if_neg (by exact Bool.false_ne_true)]
  rw [stateOf_heap_get, hcell, Option.map_some]
  have hcontains : (stateOf secretFields h visited).visited.contains r = decide (r ∈ visited) :=
    List.contains_eq_mem r visited
  dsimp only
  rw [hcontains]
  by_cases hvisited : r ∈ visited
  · rw [decide_eq_true hvisited, Bool.or_true, if_pos rfl, if_pos hvisited]
  · rw [decide_eq_false hvisited, if_neg hvisited, if_neg hvisited, hentered]
    rfl

end

/-- **The walk.**  It does what the search marks. -/
theorem removeSecrets_eq_searchAll (n : Nat) (data : GVal) (visited : List Nat) :
    removeSecrets ⟨true, secretFields⟩ n data (stateOf secretFields h visited)
      = (DepthFirst.searchAll (next secretFields h) n (targets h data) visited).map
        (stateOf secretFields h) := by
  induction n generalizing data visited with
  | zero =>
      rcases targets_cases (h := h) data with ht | ⟨r, cell, rfl, ht, hcell, hentered⟩
      · rw [removeSecrets, guarded_of_no_target ht, ht]
        rfl
      · rw [removeSecrets, guarded_of_target hcell hentered, ht, DepthFirst.searchAll,
          List.foldlM_cons, DepthFirst.search]
        by_cases hvisited : r ∈ visited
        · rw [if_pos hvisited, if_pos hvisited]
          rfl
        · rw [if_neg hvisited, if_neg hvisited]
          rfl
  | succ n ih =>
      rcases targets_cases (h := h) data with ht | ⟨r, cell, rfl, ht, hcell, hentered⟩
      · rw [removeSecrets, guarded_of_no_target ht, ht]
        rfl
      · have hsingle : DepthFirst.searchAll (next secretFields h) (n + 1) [r] visited
            = DepthFirst.search (next secretFields h) (n + 1) r visited := bind_pure _
        rw [removeSecrets, guarded_of_target hcell hentered, ht, hsingle, DepthFirst.search]
        by_cases hvisited : r ∈ visited
        · rw [if_pos hvisited, if_pos hvisited]
          rfl
        · have hnext : next secretFields h r =
              (children secretFields cell).flatMap (targets h) := by
            rw [next, hcell]
            rfl
          rw [if_neg hvisited, if_neg hvisited, process, stateOf_heap_get, hcell, Option.map_some,
            if_neg hvisited, hnext]
          cases cell with
          | arr items =>
              dsimp only
              rw [enter_array hcell hvisited]
              exact foldlM_eq_searchAll (fun item _ => ih item) (r :: visited)
          | obj proto fields =>
              dsimp only
              have hwrite : ((stateOf secretFields h visited).enter r).write r
                  (.obj proto (stripSecrets secretFields fields))
                  = stateOf secretFields h (r :: visited) := enter_write hcell
              rw [hwrite]
              exact children_obj (f := fun s data => removeSecrets ⟨true, secretFields⟩ n data s) n
                (r :: visited) ih

/-! ## What is reached -/

theorem mem_targets {data : GVal} {r : Nat} :
    r ∈ targets h data ↔ data = .ref r ∧ Enterable h r := by
  have henterable : h[r]?.any isEntered = true ↔ Enterable h r := by
    rw [Option.any_eq_true]
    rfl
  rw [targets, List.mem_filter, henterable]
  refine and_congr_left fun _ => ?_
  cases data with
  | prim p  => exact iff_of_false List.not_mem_nil (fun h => GVal.noConfusion h)
  | oid hex => exact iff_of_false List.not_mem_nil (fun h => GVal.noConfusion h)
  | ref a   =>
      rw [GVal.address?, List.mem_singleton]
      exact ⟨fun h => h ▸ rfl, fun h => (GVal.ref.inj h).symm⟩

/-- From an array or object that is entered, the search goes where the keys lead. -/
theorem edge_iff {a b : Nat} (ha : Enterable h a) :
    DepthFirst.Edge (next secretFields h) a b ↔ Leads secretFields h a b ∧ Enterable h b := by
  obtain ⟨cell, hcell, hentered⟩ := ha
  have hmem : DepthFirst.Edge (next secretFields h) a b
      ↔ .ref b ∈ children secretFields cell ∧ Enterable h b := by
    rw [DepthFirst.Edge, next, hcell]
    show b ∈ (children secretFields cell).flatMap (targets h) ↔ _
    rw [List.mem_flatMap]
    constructor
    · rintro ⟨v, hv, hb⟩
      obtain ⟨rfl, henterable⟩ := mem_targets.mp hb
      exact ⟨hv, henterable⟩
    · exact fun hb => ⟨.ref b, hb.1, mem_targets.mpr ⟨rfl, hb.2⟩⟩
  rw [hmem]
  refine and_congr_left fun _ => ?_
  rw [Leads, hcell]
  cases cell with
  | arr items =>
      constructor
      · exact fun hb => Or.inl ⟨items, rfl, hb⟩
      · rintro (⟨items', hsame, hb⟩ | ⟨fields, key, hsame, -⟩)
        · cases hsame
          exact hb
        · cases hsame
  | obj proto fields =>
      have hproto : proto = [] := by
        rw [isEntered, isPlainLike, Bool.and_eq_true] at hentered
        exact List.isEmpty_iff.mp hentered.2
      subst hproto
      have hchildren : .ref b ∈ children secretFields (.obj ([] : List κ) fields)
          ↔ ∃ key, key ∉ secretFields ∧ (key, .ref b) ∈ fields := by
        rw [children, List.mem_map]
        constructor
        · rintro ⟨⟨key, v⟩, he, rfl⟩
          obtain ⟨hmem, hkey⟩ := List.mem_filter.mp he
          exact ⟨key, by simpa using hkey, hmem⟩
        · rintro ⟨key, hkey, hmem⟩
          exact ⟨(key, .ref b), List.mem_filter.mpr ⟨hmem, by simpa using hkey⟩, rfl⟩
      rw [hchildren]
      constructor
      · rintro ⟨key, hkey, hmem⟩
        exact Or.inr ⟨fields, key, rfl, hkey, hmem⟩
      · rintro (⟨items, hsame, -⟩ | ⟨fields', key, hsame, hkey, hmem⟩)
        · cases hsame
        · cases hsame
          exact ⟨key, hkey, hmem⟩

/-- Reachable over objects that are entered is what the search reaches. -/
theorem reachesPlainly_iff (data : GVal) (r : Nat) :
    ReachesPlainly secretFields h data r
      ↔ ∃ v ∈ targets h data, ReflTransGen (DepthFirst.Edge (next secretFields h)) v r := by
  constructor
  · rintro ⟨r₀, rfl, hr₀, hreach⟩
    refine ⟨r₀, mem_targets.mpr ⟨rfl, hr₀⟩, ?_⟩
    have hboth : ReflTransGen (DepthFirst.Edge (next secretFields h)) r₀ r ∧ Enterable h r := by
      induction hreach with
      | refl => exact ⟨ReflTransGen.refl, hr₀⟩
      | tail _ hstep ih => exact ⟨ih.1.tail ((edge_iff ih.2).mpr hstep), hstep.2⟩
    exact hboth.1
  · rintro ⟨r₀, hr₀, hreach⟩
    obtain ⟨hdata, henterable⟩ := mem_targets.mp hr₀
    refine ⟨r₀, hdata, henterable, ?_⟩
    have hboth : ReflTransGen (fun a b => Leads secretFields h a b ∧ Enterable h b) r₀ r
        ∧ Enterable h r := by
      induction hreach with
      | refl => exact ⟨ReflTransGen.refl, henterable⟩
      | tail _ hstep ih =>
          have hleads := (edge_iff ih.2).mp hstep
          exact ⟨ih.1.tail hleads, hleads.2⟩
    exact hboth.1

theorem ReachesPlainly.reaches {data : GVal} {r : Nat} (hr : ReachesPlainly secretFields h data r) :
    Reaches secretFields h data r := by
  obtain ⟨r₀, hdata, -, hreach⟩ := hr
  exact ⟨r₀, hdata, hreach.lift id fun _ _ hstep => hstep.1⟩

/-- The search may go to every address of the heap. -/
theorem next_lt {a b : Nat} (hb : b ∈ next secretFields h a) : b < h.length := by
  obtain ⟨v, -, hv⟩ := List.mem_flatMap.mp hb
  obtain ⟨-, cell, hcell, -⟩ := mem_targets.mp hv
  exact (List.getElem?_eq_some_iff.mp hcell).1

/-! ## What is removed -/

theorem stateOf_nil : stateOf secretFields h [] = ⟨h, []⟩ := by
  rw [stateOf]
  congr 1
  refine List.ext_getElem? fun r => ?_
  rw [List.getElem?_mapIdx]
  cases h[r]? with
  | none      => rfl
  | some cell => exact congrArg some (if_neg List.not_mem_nil)

/-- The keys lead where they led before. -/
theorem leads_stateOf (marked : List Nat) (a b : Nat) :
    Leads secretFields (stateOf secretFields h marked).heap a b ↔ Leads secretFields h a b := by
  rw [Leads, Leads, stateOf_heap_get]
  cases h[a]? with
  | none => exact Iff.rfl
  | some cell =>
      rw [Option.map_some]
      cases cell with
      | arr items => rw [stripCell, ite_self]
      | obj proto fields =>
          by_cases ha : a ∈ marked
          · rw [if_pos ha, stripCell]
            have hmem : ∀ key, key ∉ secretFields →
                ((key, GVal.ref b) ∈ stripSecrets secretFields fields
                ↔ (key, GVal.ref b) ∈ fields) := by
              intro key hkey
              have hothers : ∀ fields : GObject, (key, GVal.ref b) ∈ fields
                  ↔ (key, GVal.ref b) ∈ others secretFields fields := by
                intro fields
                rw [others, List.mem_filter]
                exact (and_iff_left (by simpa using hkey)).symm
              rw [hothers, others_stripSecrets, ← hothers]
            constructor
            · rintro (⟨items, hsame, -⟩ | ⟨fields', key, hsame, hkey, hb⟩)
              · cases hsame
              · cases hsame
                exact Or.inr ⟨fields, key, rfl, hkey, (hmem key hkey).mp hb⟩
            · rintro (⟨items, hsame, -⟩ | ⟨fields', key, hsame, hkey, hb⟩)
              · cases hsame
              · cases hsame
                exact Or.inr ⟨_, key, rfl, hkey, (hmem key hkey).mpr hb⟩
          · rw [if_neg ha]

theorem reaches_stateOf (marked : List Nat) (data : GVal) (r : Nat) :
    Reaches secretFields (stateOf secretFields h marked).heap data r
      ↔ Reaches secretFields h data r := by
  have hsame : Leads secretFields (stateOf secretFields h marked).heap = Leads secretFields h :=
    funext₂ fun a b => propext (leads_stateOf marked a b)
  rw [Reaches, Reaches, hsame]

/-- An object has a secret afterwards if it had one and is not marked. -/
theorem hasSecret_stateOf (marked : List Nat) (r : Nat) :
    HasSecret secretFields (stateOf secretFields h marked).heap r
      ↔ HasSecret secretFields h r ∧ r ∉ marked := by
  by_cases hr : r ∈ marked
  · refine iff_of_false ?_ fun hboth => hboth.2 hr
    rintro ⟨fields, e, hcell, he, hsecret, hdefined⟩
    rw [stateOf_heap_get] at hcell
    obtain ⟨cell, -, hstrip⟩ := Option.map_eq_some_iff.mp hcell
    rw [if_pos hr] at hstrip
    cases cell with
    | arr items => cases hstrip
    | obj proto fields₀ =>
        cases hstrip
        rw [stripSecrets_undefined fields₀ e he hsecret] at hdefined
        cases hdefined
  · have hget : (stateOf secretFields h marked).heap[r]? = h[r]? := by
      rw [stateOf_heap_get]
      cases h[r]? with
      | none      => rfl
      | some cell => exact congrArg some (if_neg hr)
    rw [HasSecret, hget]
    exact (and_iff_left hr).symm

/-- Nothing else is changed, as long as only reachable addresses are marked that the walk
    enters. -/
theorem othersUnchanged_stateOf {marked : List Nat} {data : GVal}
    (hreaches : ∀ r ∈ marked, Reaches secretFields h data r)
    (hentered : ∀ r ∈ marked, Enterable h r) :
    OthersUnchanged secretFields h data (stateOf secretFields h marked).heap where
  length := List.length_mapIdx
  elsewhere r hr := by
    have hnot : r ∉ marked := fun hmem => hr (hreaches r hmem)
    rw [stateOf_heap_get]
    cases h[r]? with
    | none      => rfl
    | some cell => exact congrArg some (if_neg hnot)
  arrays r items hcell := by
    rw [stateOf_heap_get, hcell, Option.map_some, stripCell, ite_self]
  instances r c proto fields hcell := by
    have hnot : r ∉ marked := by
      intro hmem
      obtain ⟨cell, hsame, henter⟩ := hentered r hmem
      rw [hcell] at hsame
      cases hsame
      rw [isEntered, isPlainLike, List.isEmpty_cons, Bool.and_false] at henter
      cases henter
    rw [stateOf_heap_get, hcell, Option.map_some, if_neg hnot]
  objects r fields hcell := by
    rw [stateOf_heap_get, hcell, Option.map_some]
    by_cases hmem : r ∈ marked
    · rw [if_pos hmem]
      exact ⟨_, rfl, others_stripSecrets fields⟩
    · rw [if_neg hmem]
      exact ⟨fields, rfl, rfl⟩

end

/-- **`removeSecrets`.** It ends, and leaves no secret in a plain object that can be
    reached, and everything else as it was, exactly if every object with a secret can be
    reached over objects that do not look like documents, itself included. -/
theorem removeSecrets_iff (secretFields : List String) (h : Heap κ) (data : GVal) (extra : Nat) :
    ∃ s, removeSecrets ⟨true, secretFields⟩ (h.length + extra) data ⟨h, []⟩ = some s
      ∧ (SecretFree secretFields s.heap data ∧ OthersUnchanged secretFields h data s.heap
        ↔ ∀ r, Reaches secretFields h data r → HasSecret secretFields h r →
          ReachesPlainly secretFields h data r) := by
  have hunmarked : DepthFirst.unmarked (List.range h.length) [] ≤ h.length + extra := by
    refine Nat.le_trans (List.length_filter_le _ _) ?_
    rw [List.length_range]
    exact Nat.le_add_right _ _
  obtain ⟨marked, hmarked⟩ : ∃ marked, DepthFirst.searchAll (next secretFields h)
      (h.length + extra) (targets h data) [] = some marked :=
    DepthFirst.searchAll_total
    (fun v hv m => DepthFirst.search_total (fun a _ b hb => List.mem_range.mpr (next_lt hb)) hv)
    (fun r hr => List.mem_range.mpr (by
      obtain ⟨-, cell, hcell, -⟩ := mem_targets.mp hr
      exact (List.getElem?_eq_some_iff.mp hcell).1)) hunmarked
  have hrun : removeSecrets ⟨true, secretFields⟩ (h.length + extra) data
      (stateOf secretFields h []) = some (stateOf secretFields h marked) := by
    rw [removeSecrets_eq_searchAll, hmarked]
    rfl
  rw [stateOf_nil] at hrun
  have hplainly : ∀ r, r ∈ marked ↔ ReachesPlainly secretFields h data r := fun r =>
    (DepthFirst.mem_searchAll_iff hmarked r).trans (reachesPlainly_iff data r).symm
  refine ⟨_, hrun, ?_⟩
  have hunchanged : OthersUnchanged secretFields h data (stateOf secretFields h marked).heap := by
    refine othersUnchanged_stateOf (fun r hr => ((hplainly r).mp hr).reaches) fun r hr => ?_
    obtain ⟨r₀, -, henter, hreach⟩ := (hplainly r).mp hr
    cases hreach with
    | refl         => exact henter
    | tail _ hstep => exact hstep.2
  rw [and_iff_left hunchanged]
  constructor
  · intro hfree r hr hsecret
    rw [← hplainly]
    by_contra hnot
    exact hfree r ((reaches_stateOf marked data r).mpr hr)
      ((hasSecret_stateOf marked r).mpr ⟨hsecret, hnot⟩)
  · intro hall r hr hsecret
    obtain ⟨hbefore, hnot⟩ := (hasSecret_stateOf marked r).mp hsecret
    exact hnot ((hplainly r).mpr (hall r ((reaches_stateOf marked data r).mp hr) hbefore))

/-- A stored object with a key `_bsontype`. -/
def storedObject : Heap Unit :=
  [.obj [] [("_bsontype", .prim (.str "Profile")), ("password", .prim (.str "secret"))]]

/-- It leaves with its password. -/
theorem removeSecrets_passes_over :
    ¬ ∀ (secretFields : List String) (h : Heap Unit) (data : GVal),
      ∃ n s, removeSecrets ⟨true, secretFields⟩ n data ⟨h, []⟩ = some s
        ∧ SecretFree secretFields s.heap data
        ∧ OthersUnchanged secretFields h data s.heap := by
  intro hclaim
  obtain ⟨n, s, hrun, hfree, -⟩ := hclaim ["password"] storedObject (.ref 0)
  have hkept : removeSecrets ⟨true, ["password"]⟩ n (.ref 0) ⟨storedObject, []⟩
      = some ⟨storedObject, []⟩ := rfl
  rw [hkept] at hrun
  obtain rfl := Option.some.inj hrun
  exact hfree 0 ⟨0, rfl, ReflTransGen.refl⟩
    ⟨_, ("password", .prim (.str "secret")), rfl, List.mem_cons_of_mem _ List.mem_cons_self,
      List.mem_cons_self, rfl⟩

end CheckSecurity
