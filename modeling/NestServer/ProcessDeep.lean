import NestServer.ObjectGraph

/-! # Deep processing

    `processDeep` of `input.helper.ts` applies a function to a value from the leaves to
    the root.  Objects keep their place and get the processed values assigned; arrays are
    copied.  An object with a special function is handed to the function as a whole.  What
    is met again (`processedObjects`) is returned as it is.

    `processTree` is the same on trees, where nothing is met again.  A function on the
    heap `Realizes` one on trees if it changes at most the object it is given, in place,
    and builds what else it needs.

    `processDeep_of_ready`: where nothing is shared, the two agree. -/

open JsTree Heap

namespace ProcessDeep

variable {κ : Type}

/-! ## The code -/

/-- What is asked about a class. -/
structure ClassTable (κ : Type) where
  name      : κ → String
  hasMethod : κ → String → Bool

/-- The options, apart from `processedObjects`. -/
structure Options (κ : Type) where
  classes           : ClassTable κ
  specialClasses    : List (String ⊕ κ) := []
  specialFunctions  : List String       := []
  specialProperties : List String       := []

/-- `typeof data[sF] === 'function'`; an own value is none. -/
def hasFunction (classes : ClassTable κ) (proto : List κ) (keys : List String) (sF : String) :
    Bool :=
  !keys.contains sF && (proto.any (fun c => classes.hasMethod c sF) || objectPrototype.contains sF)

/-- `data.constructor?.name`; an own value has none. -/
def constructorName (classes : ClassTable κ) (proto : List κ) (keys : List String) :
    Option String :=
  if keys.contains "constructor" then none else some (proto.head?.elim "Object" classes.name)

/-- Only the object itself is processed. -/
def isSpecial [DecidableEq κ] (o : Options κ) (proto : List κ) (keys : List String) : Bool :=
  (o.specialFunctions.any fun sF => hasFunction o.classes proto keys sF)
    || (o.specialProperties.any fun sP => keys.contains sP)
    || o.specialClasses.any fun
      | .inl name => constructorName o.classes proto keys = some name
      | .inr c    => proto.contains c

/-- The heap, and what is in `processedObjects`. -/
structure State (κ : Type) where
  heap      : Heap κ
  processed : List Nat

namespace State

def enter (s : State κ) (r : Nat) : State κ := { s with processed := r :: s.processed }

def write (s : State κ) (r : Nat) (cell : Cell κ) : State κ :=
  { s with heap := s.heap.set r cell }

/-- A new array. -/
def alloc (s : State κ) (items : List GVal) : State κ := { s with heap := s.heap ++ [.arr items] }

end State

/-- A function: what it returns, and the heap it leaves. -/
abbrev Func (κ : Type) := GVal → Heap κ → GVal × Heap κ

/-- `func(data)` -/
def call (func : Func κ) (data : GVal) (s : State κ) : GVal × State κ :=
  ((func data s.heap).1, { s with heap := (func data s.heap).2 })

/-- `data.map(f)` -/
def processItems (f : GVal → State κ → Option (GVal × State κ)) :
    List GVal → State κ → Option (List GVal × State κ)
  | [], s           => some ([], s)
  | item :: rest, s =>
      (f item s).bind fun first =>
        (processItems f rest first.2).map fun others => (first.1 :: others.1, others.2)

/-- The loop over the entries of the object `r`, which at every turn holds what is done
    and what is to come. -/
def processFields (f : GVal → State κ → Option (GVal × State κ)) (r : Nat) (proto : List κ)
    (done : List (String × GVal)) : List (String × GVal) → State κ → Option (State κ)
  | [], s                   => some s
  | (key, value) :: rest, s =>
      (f value s).bind fun first =>
        processFields f r proto (done ++ [(key, first.1)]) rest
          (first.2.write r (.obj proto (done ++ (key, first.1) :: rest)))

/-- `processDeepInternal(data, func, options)`, within a call stack that takes so many
    nested calls. -/
def processDeep [DecidableEq κ] (o : Options κ) (func : Func κ) : Nat → GVal → State κ →
    Option (GVal × State κ)
  | _, .prim p, s    => some (call func (.prim p) s)
  | _, .oid hex, s   => some (call func (.oid hex) s)
  | 0, .ref _, _     => none
  | n + 1, .ref r, s =>
      if s.processed.contains r then some (.ref r, s)
      else match s.heap[r]? with
        | none                      => some (.ref r, s.enter r)
        | some (.arr items)         =>
            (processItems (processDeep o func n) items (s.enter r)).map fun results =>
              call func (.ref results.2.heap.length) (results.2.alloc results.1)
        | some (.obj proto fields)  =>
            if isSpecial o proto (fields.map Prod.fst) then some (call func (.ref r) (s.enter r))
            else (processFields (processDeep o func n) r proto [] fields (s.enter r)).map
              (call func (.ref r))

/-! ## On trees -/

section

variable [DecidableEq κ] (o : Options κ) (F : JsTree κ → JsTree κ)

mutual

/-- What is meant: the function, from the leaves to the root. -/
def processTree : JsTree κ → JsTree κ
  | .prim p           => F (.prim p)
  | .oid hex          => F (.oid hex)
  | .arr items        => F (.arr (processTrees items))
  | .obj proto fields =>
      if isSpecial o proto (keys fields) then F (.obj proto fields)
      else F (.obj proto (processTreeFields fields))

def processTrees : List (JsTree κ) → List (JsTree κ)
  | []            => []
  | item :: items => processTree item :: processTrees items

def processTreeFields : Fields κ → Fields κ
  | []                   => []
  | (key, value) :: rest => (key, processTree value) :: processTreeFields rest

end

end

/-- The function does on the heap what `F` does on trees, and changes nothing that is
    there but the object it is given. -/
structure Realizes (func : Func κ) (F : JsTree κ → JsTree κ) : Prop where
  result : ∀ (S : Nat → Prop) h v t, Reads S h v t →
    Reads (fun r => S r ∨ h.length ≤ r) (func v h).2 (func v h).1 (F t)
  length : ∀ v h, h.length ≤ (func v h).2.length
  kept   : ∀ v h r, r < h.length → v ≠ .ref r → (func v h).2[r]? = h[r]?

/-! ## What is met, and what is hidden in special objects -/

/-- The values that are processed before the function is applied. -/
def opened [DecidableEq κ] (o : Options κ) : Cell κ → List GVal
  | .arr items        => items
  | .obj proto fields =>
      if isSpecial o proto (fields.map Prod.fst) then [] else fields.map Prod.snd

/-- The values in an object that is special. -/
def closed [DecidableEq κ] (o : Options κ) : Cell κ → List GVal
  | .arr _            => []
  | .obj proto fields =>
      if isSpecial o proto (fields.map Prod.fst) then fields.map Prod.snd else []

/-- The values in a cell. -/
def values : Cell κ → List GVal
  | .arr items    => items
  | .obj _ fields => fields.map Prod.snd

section

variable [DecidableEq κ] (o : Options κ) (h : Heap κ)

/-- The objects and arrays in a value, as often as they occur. -/
def passes : Nat → GVal → List Nat
  | n + 1, .ref r => r :: (h[r]?.elim [] values).flatMap (passes n)
  | _, _          => []

/-- The objects and arrays that are met, as often as they are. -/
def meets : Nat → GVal → List Nat
  | n + 1, .ref r => r :: (h[r]?.elim [] (opened o)).flatMap (meets n)
  | _, _          => []

/-- The objects and arrays in the special objects that are met. -/
def hidden : Nat → GVal → List Nat
  | n + 1, .ref r => (h[r]?.elim [] (opened o)).flatMap (hidden n)
      ++ (h[r]?.elim [] (closed o)).flatMap (passes h n)
  | _, _          => []

/-- There is an object, and no array, at the address. -/
def IsObject (r : Nat) : Prop := ∃ proto fields, h[r]? = some (.obj proto fields)

end

/-- Nothing is met twice, and no object that is met is also in a special object. -/
structure Unshared [DecidableEq κ] (o : Options κ) (g : Graph κ) : Prop where
  once  : (meets o g.heap g.depth g.root).Nodup
  apart : ∀ r ∈ hidden o g.heap g.depth g.root, IsObject g.heap r →
    r ∉ meets o g.heap g.depth g.root

/-! ## Without sharing the code does what is meant -/

section

variable [DecidableEq κ] {o : Options κ} {h₀ : Heap κ} {n : Nat} {v : GVal} {t : JsTree κ}

theorem processTrees_eq_map {F : JsTree κ → JsTree κ} (items : List (JsTree κ)) :
    processTrees o F items = items.map (processTree o F) := by
  induction items with
  | nil => rfl
  | cons item items ih => rw [processTrees, ih, List.map_cons]

theorem processTreeFields_eq_map {F : JsTree κ → JsTree κ} (fields : Fields κ) :
    processTreeFields o F fields = fields.map fun e => (e.1, processTree o F e.2) := by
  induction fields with
  | nil => rfl
  | cons e fields ih =>
      obtain ⟨key, value⟩ := e
      rw [processTreeFields, ih, List.map_cons]

end

/-! ### Lists that correspond -/

section

variable {α β : Type} {P Q : α → β → Prop}

theorem forall₂_exists {xs : List α} {ys : List β} (hall : List.Forall₂ P xs ys) {y : β}
    (hy : y ∈ ys) : ∃ x, P x y := by
  induction hall with
  | nil => exact absurd hy List.not_mem_nil
  | cons hhead _ ih =>
      rcases List.mem_cons.mp hy with rfl | hy
      · exact ⟨_, hhead⟩
      · exact ih hy

theorem forall₂_and {xs : List α} {ys : List β} (hP : List.Forall₂ P xs ys)
    (hQ : List.Forall₂ Q xs ys) : List.Forall₂ (fun x y => P x y ∧ Q x y) xs ys := by
  induction hP with
  | nil => exact .nil
  | cons hhead _ ih =>
      obtain ⟨hfirst, hothers⟩ := List.forall₂_cons.mp hQ
      exact .cons ⟨hhead, hfirst⟩ (ih hothers)

theorem forall₂_append_singleton {xs : List α} {ys : List β} {x : α} {y : β}
    (hall : List.Forall₂ P (xs ++ [x]) (ys ++ [y])) : List.Forall₂ P xs ys ∧ P x y := by
  have hlength : xs.length = ys.length := by
    have h := hall.length_eq
    rw [List.length_append, List.length_append] at h
    exact Nat.add_right_cancel h
  induction xs generalizing ys with
  | nil =>
      obtain rfl := List.length_eq_zero_iff.mp hlength.symm
      exact ⟨.nil, (List.forall₂_cons.mp hall).1⟩
  | cons a xs ih =>
      cases ys with
      | nil => cases hlength
      | cons b ys =>
          obtain ⟨hhead, htail⟩ := List.forall₂_cons.mp hall
          obtain ⟨hinit, hlast⟩ := ih htail (Nat.succ.inj hlength)
          exact ⟨.cons hhead hinit, hlast⟩

end

theorem forall₂_keys {P : GVal → JsTree κ → Prop} {fields : List (String × GVal)}
    {fields' : Fields κ} (hall : List.Forall₂ (fun e e' => e.1 = e'.1 ∧
      P e.2 e'.2) fields fields') :
    keys fields' = fields.map Prod.fst := by
  induction hall with
  | nil => rfl
  | cons hhead _ ih =>
      rw [List.map_cons, ← ih, hhead.1]
      rfl

/-! ### Values that read as trees -/

/-- The value reads as its view. -/
def Sound (h : Heap κ) (n : Nat) (v : GVal) : Prop :=
  Unfolds (fun _ => True) h n v (h.view n v)

section

variable {h₀ : Heap κ} {n : Nat} {v : GVal}

theorem sound_ref {r : Nat} (hs : Sound h₀ (n + 1) (.ref r)) :
    ∃ cell, h₀[r]? = some cell ∧ ∀ w ∈ values cell, Sound h₀ n w := by
  have hmember : ∀ {w : GVal} {t : JsTree κ}, Unfolds (fun _ => True) h₀ n w t → Sound h₀ n w := by
    intro w t hw
    rw [Sound, hw.view_eq]
    exact hw
  obtain ⟨-, ⟨proto, fields, fields', hcell, -, hall⟩ | ⟨items, items', hcell, -, hall⟩⟩ := hs
  · refine ⟨_, hcell, ?_⟩
    clear hcell
    rw [values]
    induction hall with
    | nil => exact fun w hw => absurd hw List.not_mem_nil
    | cons hhead _ ih =>
        intro w hw
        rcases List.mem_cons.mp hw with rfl | hw
        · exact hmember hhead.2
        · exact ih w hw
  · refine ⟨_, hcell, ?_⟩
    clear hcell
    rw [values]
    induction hall with
    | nil => exact fun w hw => absurd hw List.not_mem_nil
    | cons hhead _ ih =>
        intro w hw
        rcases List.mem_cons.mp hw with rfl | hw
        · exact hmember hhead
        · exact ih w hw

/-- A value reads over what it passes. -/
theorem unfolds_passes (hs : Sound h₀ n v) :
    Unfolds (fun r => r ∈ passes h₀ n v) h₀ n v (h₀.view n v) := by
  induction n generalizing v with
  | zero =>
      cases v with
      | ref r => exact hs.elim
      | _     => exact hs
  | succ n ih =>
      cases v with
      | prim p  => exact hs
      | oid hex => exact hs
      | ref r =>
          obtain ⟨cell, hcell, hchildren⟩ := sound_ref hs
          have hmore : ∀ w ∈ values cell,
              Unfolds (fun a => a ∈ passes h₀ (n + 1) (.ref r)) h₀ n w (h₀.view n w) := by
            intro w hw
            refine (ih (hchildren w hw)).frame (fun a ha => ?_) fun _ _ _ hc => hc
            rw [passes, hcell]
            exact List.mem_cons_of_mem _ (List.mem_flatMap.mpr ⟨w, hw, ha⟩)
          refine ⟨by rw [passes]; exact List.mem_cons_self, ?_⟩
          rw [Heap.view, hcell]
          cases cell with
          | obj proto fields =>
              refine .inl ⟨proto, fields, _, rfl, rfl, ?_⟩
              rw [List.forall₂_map_right_iff, List.forall₂_same]
              exact fun e he => ⟨rfl, hmore e.2 (List.mem_map_of_mem he)⟩
          | arr items =>
              refine .inr ⟨items, _, rfl, rfl, ?_⟩
              rw [List.forall₂_map_right_iff, List.forall₂_same]
              exact fun w hw => hmore w hw

/-- What is met or hidden lies in the heap. -/
theorem passes_lt (hs : Sound h₀ n v) : ∀ r ∈ passes h₀ n v, r < h₀.length := by
  induction n generalizing v with
  | zero => cases v <;> exact fun r hr => absurd hr List.not_mem_nil
  | succ n ih =>
      cases v with
      | prim p  => exact fun r hr => absurd hr List.not_mem_nil
      | oid hex => exact fun r hr => absurd hr List.not_mem_nil
      | ref a =>
          intro r hr
          obtain ⟨cell, hcell, hchildren⟩ := sound_ref hs
          rw [passes, hcell] at hr
          rcases List.mem_cons.mp hr with rfl | hr
          · exact (List.getElem?_eq_some_iff.mp hcell).1
          · obtain ⟨w, hw, hr⟩ := List.mem_flatMap.mp hr
            exact ih (hchildren w hw) r hr

section

variable [DecidableEq κ] {o : Options κ}

theorem opened_subset (cell : Cell κ) : ∀ w ∈ opened o cell, w ∈ values cell := by
  intro w hw
  cases cell with
  | arr items => exact hw
  | obj proto fields =>
      rw [opened] at hw
      split at hw
      · exact absurd hw List.not_mem_nil
      · exact hw

theorem closed_subset (cell : Cell κ) : ∀ w ∈ closed o cell, w ∈ values cell := by
  intro w hw
  cases cell with
  | arr items => exact absurd hw List.not_mem_nil
  | obj proto fields =>
      rw [closed] at hw
      split at hw
      · exact hw
      · exact absurd hw List.not_mem_nil

theorem mem_passes_of_met (n : Nat) (v : GVal) (r : Nat)
    (hr : r ∈ meets o h₀ n v ∨ r ∈ hidden o h₀ n v) : r ∈ passes h₀ n v := by
  induction n generalizing v with
  | zero => cases v <;> exact hr.elim (fun h => absurd h List.not_mem_nil) fun h => h
  | succ n ih =>
      cases v with
      | prim p  => exact hr.elim (fun h => absurd h List.not_mem_nil) fun h => h
      | oid hex => exact hr.elim (fun h => absurd h List.not_mem_nil) fun h => h
      | ref a =>
          rw [passes]
          rw [meets, hidden] at hr
          cases hcell : h₀[a]? with
          | none =>
              rw [hcell] at hr
              rcases hr with hr | hr
              · exact hr
              · exact absurd hr List.not_mem_nil
          | some cell =>
              rw [hcell] at hr
              have hopened : (∃ w ∈ opened o cell, r ∈ meets o h₀ n w ∨ r ∈ hidden o h₀ n w) →
                  r ∈ (values cell).flatMap (passes h₀ n) := by
                rintro ⟨w, hw, hr⟩
                exact List.mem_flatMap.mpr ⟨w, opened_subset cell w hw, ih w hr⟩
              rcases hr with hr | hr
              · rcases List.mem_cons.mp hr with rfl | hr
                · exact List.mem_cons_self
                · obtain ⟨w, hw, hr⟩ := List.mem_flatMap.mp hr
                  exact List.mem_cons_of_mem _ (hopened ⟨w, hw, Or.inl hr⟩)
              · rcases List.mem_append.mp hr with hr | hr
                · obtain ⟨w, hw, hr⟩ := List.mem_flatMap.mp hr
                  exact List.mem_cons_of_mem _ (hopened ⟨w, hw, Or.inr hr⟩)
                · obtain ⟨w, hw, hr⟩ := List.mem_flatMap.mp hr
                  exact List.mem_cons_of_mem _
                    (List.mem_flatMap.mpr ⟨w, closed_subset cell w hw, hr⟩)

end

end

/-! ### What a call needs and what it changes -/

/-- For what is going to be met (`M`) and what is hidden (`H`): it is as it was at the
    start, and nothing is met twice. -/
structure Ready (h₀ : Heap κ) (M H : List Nat) (s : State κ) : Prop where
  bounded : ∀ r, r ∈ M ∨ r ∈ H → r < h₀.length
  length  : h₀.length ≤ s.heap.length
  intact  : ∀ r, r ∈ M ∨ r ∈ H → s.heap[r]? = h₀[r]?
  nodup   : M.Nodup
  fresh   : ∀ r ∈ M, r ∉ s.processed
  apart   : ∀ r ∈ H, IsObject h₀ r → r ∉ M

/-- Only objects that are met have changed. -/
structure Step (h₀ : Heap κ) (M : List Nat) (s s' : State κ) : Prop where
  length    : s.heap.length ≤ s'.heap.length
  kept      : ∀ r < s.heap.length, (r ∈ M → ¬ IsObject h₀ r) → s'.heap[r]? = s.heap[r]?
  processed : ∀ r ∈ s'.processed, r ∈ s.processed ∨ r ∈ M

/-- What a result may pass: what was met or hidden, and what is new. -/
def Passed (M H : List Nat) (s : State κ) (r : Nat) : Prop :=
  r ∈ M ∨ r ∈ H ∨ s.heap.length ≤ r

section

variable {h₀ : Heap κ} {M M₁ M₂ H H₁ H₂ : List Nat} {s s₁ s₂ : State κ}

theorem Step.refl (s : State κ) : Step h₀ [] s s :=
  ⟨Nat.le_refl _, fun _ _ _ => rfl, fun _ h => Or.inl h⟩

theorem Step.trans (h₁ : Step h₀ M₁ s s₁) (h₂ : Step h₀ M₂ s₁ s₂) : Step h₀ (M₁ ++ M₂) s s₂ where
  length := Nat.le_trans h₁.length h₂.length
  kept r hr hnot := by
    rw [h₂.kept r (Nat.lt_of_lt_of_le hr h₁.length) fun h => hnot (List.mem_append_right _ h)]
    exact h₁.kept r hr fun h => hnot (List.mem_append_left _ h)
  processed r hr := by
    rcases h₂.processed r hr with hr | hr
    · exact (h₁.processed r hr).imp_right (List.mem_append_left _)
    · exact Or.inr (List.mem_append_right _ hr)

theorem Step.mono (h : Step h₀ M₁ s s₁) (hsub : ∀ r ∈ M₁, r ∈ M₂) : Step h₀ M₂ s s₁ where
  length := h.length
  kept r hr hnot := h.kept r hr fun hmem => hnot (hsub r hmem)
  processed r hr := (h.processed r hr).imp_right (hsub r)

theorem Ready.left (h : Ready h₀ (M₁ ++ M₂) (H₁ ++ H₂) s) : Ready h₀ M₁ H₁ s where
  bounded r hr := h.bounded r (hr.imp (List.mem_append_left _) (List.mem_append_left _))
  length := h.length
  intact r hr := h.intact r (hr.imp (List.mem_append_left _) (List.mem_append_left _))
  nodup := (List.nodup_append.mp h.nodup).1
  fresh r hr := h.fresh r (List.mem_append_left _ hr)
  apart r hr hobj hmem := h.apart r (List.mem_append_left _ hr) hobj (List.mem_append_left _ hmem)

theorem Ready.right (h : Ready h₀ (M₁ ++ M₂) (H₁ ++ H₂) s) (hstep : Step h₀ M₁ s s₁) :
    Ready h₀ M₂ H₂ s₁ where
  bounded r hr := h.bounded r (hr.imp (List.mem_append_right _) (List.mem_append_right _))
  length := Nat.le_trans h.length hstep.length
  intact r hr := by
    have hr' := hr.imp (List.mem_append_right M₁) (List.mem_append_right H₁)
    rw [← h.intact r hr']
    refine hstep.kept r (Nat.lt_of_lt_of_le (h.bounded r hr') h.length) fun hmem hobj => ?_
    rcases hr with hr | hr
    · exact (List.nodup_append.mp h.nodup).2.2 r hmem r hr rfl
    · exact h.apart r (List.mem_append_right _ hr) hobj (List.mem_append_left _ hmem)
  nodup := (List.nodup_append.mp h.nodup).2.1
  fresh r hr hmem := by
    rcases hstep.processed r hmem with hmem | hmem
    · exact h.fresh r (List.mem_append_right _ hr) hmem
    · exact (List.nodup_append.mp h.nodup).2.2 r hmem r hr rfl
  apart r hr hobj hmem := h.apart r (List.mem_append_right _ hr) hobj (List.mem_append_right _ hmem)

/-- A relation between results and values that depends only on the cells in `S`. -/
structure Framed (Q : (Nat → Prop) → Heap κ → GVal → GVal → Prop) : Prop where
  frame : ∀ {S S' : Nat → Prop} {heap heap' : Heap κ} {v' v : GVal}, Q S heap v' v →
    (∀ r, S r → S' r) → (∀ r c, S r → heap[r]? = some c → heap'[r]? = some c) → Q S' heap' v' v

section

variable {Q : (Nat → Prop) → Heap κ → GVal → GVal → Prop} {v' v : GVal}

/-- A result is not touched by what comes later. -/
theorem Framed.survives (hQ : Framed Q) (hresult : Q (Passed M₁ H₁ s) s₁.heap v' v)
    (hstep : Step h₀ M₂ s₁ s₂)
    (hapart : ∀ a ∈ M₂, IsObject h₀ a → a ∉ M₁ ∧ a ∉ H₁ ∧ a < s.heap.length) :
    Q (Passed M₁ H₁ s) s₂.heap v' v := by
  refine hQ.frame hresult (fun _ h => h) fun a c ha hc => ?_
  rw [hstep.kept a (List.getElem?_eq_some_iff.mp hc).1, hc]
  intro hmem hobj
  obtain ⟨hM, hH, hlt⟩ := hapart a hmem hobj
  rcases ha with ha | ha | ha
  · exact hM ha
  · exact hH ha
  · exact absurd hlt (Nat.not_lt.mpr ha)

theorem Framed.widen (hQ : Framed Q) {M' H' : List Nat} {s' : State κ} {heap : Heap κ}
    (hresult : Q (Passed M H s) heap v' v) (hM : ∀ r ∈ M, r ∈ M') (hH : ∀ r ∈ H, r ∈ H')
    (hlen : s'.heap.length ≤ s.heap.length) : Q (Passed M' H' s') heap v' v := by
  refine hQ.frame hresult (fun r hr => ?_) fun _ _ _ hc => hc
  rcases hr with hr | hr | hr
  · exact Or.inl (hM r hr)
  · exact Or.inr (Or.inl (hH r hr))
  · exact Or.inr (Or.inr (Nat.le_trans hlen hr))

end

/-- Two parts of a value, one after the other. -/
theorem Ready.separate (h : Ready h₀ (M₁ ++ M₂) (H₁ ++ H₂) s) :
    ∀ a ∈ M₂, IsObject h₀ a → a ∉ M₁ ∧ a ∉ H₁ ∧ a < s.heap.length := by
  intro a ha hobj
  refine ⟨?_, ?_, ?_⟩
  · exact fun hmem => (List.nodup_append.mp h.nodup).2.2 a hmem a ha rfl
  · exact fun hmem => h.apart a (List.mem_append_left _ hmem) hobj (List.mem_append_right _ ha)
  · exact Nat.lt_of_lt_of_le (h.bounded a (Or.inl (List.mem_append_right _ ha))) h.length

/-- Writing an object that is not among them. -/
theorem Ready.write (h : Ready h₀ M H s) {r : Nat} (hM : r ∉ M) (hH : r ∉ H) (cell : Cell κ) :
    Ready h₀ M H (s.write r cell) where
  bounded := h.bounded
  length := by rw [State.write, List.length_set]; exact h.length
  intact a ha := by
    have hne : r ≠ a := by
      rintro rfl
      exact ha.elim hM hH
    rw [State.write, List.getElem?_set_ne hne]
    exact h.intact a ha
  nodup := h.nodup
  fresh := h.fresh
  apart := h.apart

theorem step_write {r : Nat} (hobj : IsObject h₀ r) (s : State κ) (cell : Cell κ) :
    Step h₀ [r] s (s.write r cell) where
  length := Nat.le_of_eq (by rw [State.write, List.length_set])
  kept a _ hnot := by
    have hne : r ≠ a := by
      rintro rfl
      exact hnot List.mem_cons_self hobj
    rw [State.write, List.getElem?_set_ne hne]
  processed _ hr := Or.inl hr

end

/-! ### The run -/

section

variable {h₀ : Heap κ} {func : Func κ} {F : JsTree κ → JsTree κ}

/-- From a ready state into an object or array that has not been met. -/
theorem Ready.enter {r : Nat} {M H H' : List Nat} {s : State κ} (h : Ready h₀ (r :: M) H s)
    (hsub : ∀ a ∈ H', a ∈ H) : Ready h₀ M H' (s.enter r) where
  bounded a ha := h.bounded a (ha.imp (List.mem_cons_of_mem _) (hsub a))
  length := h.length
  intact a ha := h.intact a (ha.imp (List.mem_cons_of_mem _) (hsub a))
  nodup := (List.nodup_cons.mp h.nodup).2
  fresh a ha hmem := by
    rcases List.mem_cons.mp hmem with rfl | hmem
    · exact (List.nodup_cons.mp h.nodup).1 ha
    · exact h.fresh a (List.mem_cons_of_mem _ ha) hmem
  apart a ha hobj hmem := h.apart a (hsub a ha) hobj (List.mem_cons_of_mem _ hmem)

theorem Step.enter {r : Nat} {M : List Nat} {s s' : State κ} (h : Step h₀ M (s.enter r) s') :
    Step h₀ (r :: M) s s' where
  length := h.length
  kept a ha hnot := h.kept a ha fun hmem => hnot (List.mem_cons_of_mem _ hmem)
  processed a ha := by
    rcases h.processed a ha with ha | ha
    · rcases List.mem_cons.mp ha with rfl | ha
      · exact Or.inr List.mem_cons_self
      · exact Or.inl ha
    · exact Or.inr (List.mem_cons_of_mem _ ha)

theorem step_alloc {M : List Nat} {s s' : State κ} (h : Step h₀ M s s') (items : List GVal) :
    Step h₀ M s (s'.alloc items) where
  length := by
    rw [State.alloc, List.length_append]
    exact Nat.le_add_right_of_le h.length
  kept r hr hnot := by
    rw [State.alloc, List.getElem?_append_left (Nat.lt_of_lt_of_le hr h.length)]
    exact h.kept r hr hnot
  processed := h.processed

/-- Before and after a call for a value: what has been met may have changed, and the
    result is related to the value. -/
def Processes (h₀ : Heap κ) (Q : (Nat → Prop) → Heap κ → GVal → GVal → Prop)
    (met hid : GVal → List Nat) (f : GVal → State κ → Option (GVal × State κ)) (v : GVal) : Prop :=
  ∀ s, Ready h₀ (met v) (hid v) s → ∃ v' s', f v s = some (v', s')
    ∧ Step h₀ (met v) s s' ∧ Q (Passed (met v) (hid v) s) s'.heap v' v

section

variable {Q : (Nat → Prop) → Heap κ → GVal → GVal → Prop} {met hid : GVal → List Nat}
  {f : GVal → State κ → Option (GVal × State κ)}

/-- The items of an array. -/
theorem processItems_spec (hQ : Framed Q) {items : List GVal}
    (hf : ∀ w ∈ items, Processes h₀ Q met hid f w) {s : State κ}
    (hready : Ready h₀ (items.flatMap met) (items.flatMap hid) s) :
    ∃ results s', processItems f items s = some (results, s')
      ∧ Step h₀ (items.flatMap met) s s'
      ∧ List.Forall₂ (Q (Passed (items.flatMap met) (items.flatMap hid) s) s'.heap) results
        items := by
  induction items generalizing s with
  | nil => exact ⟨[], s, rfl, Step.refl s, .nil⟩
  | cons w rest ih =>
      rw [List.flatMap_cons, List.flatMap_cons] at hready
      obtain ⟨v', s₁, hrun₁, hstep₁, hfirst⟩ := hf w List.mem_cons_self s hready.left
      obtain ⟨results, s₂, hrun₂, hstep₂, hothers⟩ :=
        ih (fun w hw => hf w (List.mem_cons_of_mem _ hw)) (hready.right hstep₁)
      refine ⟨v' :: results, s₂, ?_, hstep₁.trans hstep₂, .cons ?_ (hothers.imp fun v w hr => ?_)⟩
      · rw [processItems, hrun₁, Option.bind_some, hrun₂]
        rfl
      · -- the first result passes nothing that is met later
        exact hQ.widen (hQ.survives hfirst hstep₂ hready.separate)
          (fun _ => List.mem_append_left _) (fun _ => List.mem_append_left _) (Nat.le_refl _)
      · exact hQ.widen hr (fun _ => List.mem_append_right _) (fun _ => List.mem_append_right _)
          hstep₁.length

/-- The entries of an object. -/
theorem processFields_spec (hQ : Framed Q) {r : Nat} {proto : List κ}
    {fields : List (String × GVal)} (hf : ∀ e ∈ fields, Processes h₀ Q met hid f e.2)
    (hobj : IsObject h₀ r) {s : State κ} {done : List (String × GVal)}
    (hcell : s.heap[r]? = some (.obj proto (done ++ fields)))
    (hready : Ready h₀ ((fields.map Prod.snd).flatMap met) ((fields.map Prod.snd).flatMap hid) s)
    (hM : r ∉ (fields.map Prod.snd).flatMap met) (hH : r ∉ (fields.map Prod.snd).flatMap hid) :
    ∃ fields' s', processFields f r proto done fields s = some s'
      ∧ Step h₀ (r :: (fields.map Prod.snd).flatMap met) s s'
      ∧ s'.heap[r]? = some (.obj proto (done ++ fields'))
      ∧ List.Forall₂ (fun e' e => e'.1 = e.1
          ∧ Q (Passed ((fields.map Prod.snd).flatMap met) ((fields.map Prod.snd).flatMap hid) s)
            s'.heap e'.2 e.2) fields' fields := by
  induction fields generalizing s done with
  | nil =>
      exact ⟨[], s, rfl, (Step.refl s).mono fun _ h => absurd h List.not_mem_nil, hcell, .nil⟩
  | cons e rest ih =>
      obtain ⟨key, w⟩ := e
      rw [List.map_cons, List.flatMap_cons] at hM hH
      rw [List.map_cons, List.flatMap_cons, List.flatMap_cons] at hready
      have hlt : r < h₀.length := by
        obtain ⟨proto', fields', hobj⟩ := hobj
        exact (List.getElem?_eq_some_iff.mp hobj).1
      have hlts : r < s.heap.length := Nat.lt_of_lt_of_le hlt hready.length
      obtain ⟨v', s₁, hrun₁, hstep₁, hfirst⟩ := hf _ List.mem_cons_self s hready.left
      have hM₂ : r ∉ (rest.map Prod.snd).flatMap met := fun h => hM (List.mem_append_right _ h)
      have hH₂ : r ∉ (rest.map Prod.snd).flatMap hid := fun h => hH (List.mem_append_right _ h)
      have hcell₂ : (s₁.write r (.obj proto (done ++ (key, v') :: rest))).heap[r]?
          = some (.obj proto ((done ++ [(key, v')]) ++ rest)) := by
        rw [State.write, List.getElem?_set_self (Nat.lt_of_lt_of_le hlts hstep₁.length),
          List.append_assoc]
        rfl
      obtain ⟨fields', s₂, hrun₂, hstep₂, hcell', hothers⟩ :=
        ih (fun e he => hf e (List.mem_cons_of_mem _ he)) hcell₂
          ((hready.right hstep₁).write hM₂ hH₂ _) hM₂ hH₂
      -- the object is written between two entries, and is in none of them
      have hwrite := step_write hobj s₁ (.obj proto (done ++ (key, v') :: rest))
      have hlater := hwrite.trans hstep₂
      refine ⟨(key, v') :: fields', s₂, ?_, ?_, ?_, .cons ⟨rfl, ?_⟩ (hothers.imp fun e' e he => ?_)⟩
      · rw [processFields, hrun₁, Option.bind_some]
        exact hrun₂
      · refine (hstep₁.trans hlater).mono fun a ha => ?_
        simp only [List.mem_append, List.mem_cons, List.map_cons, List.flatMap_cons] at ha ⊢
        grind
      · rw [hcell', List.append_assoc]
        rfl
      · refine hQ.widen (hQ.survives hfirst hlater fun a ha haobj => ?_) (fun _ => ?_) (fun _ => ?_)
          (Nat.le_refl _)
        · rcases List.mem_append.mp ha with ha | ha
          · rw [List.mem_singleton.mp ha]
            exact ⟨fun h => hM (List.mem_append_left _ h), fun h => hH (List.mem_append_left _ h),
              hlts⟩
          · rcases List.mem_cons.mp ha with rfl | ha
            · exact ⟨fun h => hM (List.mem_append_left _ h), fun h => hH (List.mem_append_left _ h),
                hlts⟩
            · exact hready.separate a ha haobj
        · rw [List.map_cons, List.flatMap_cons]
          exact List.mem_append_left _
        · rw [List.map_cons, List.flatMap_cons]
          exact List.mem_append_left _
      · refine ⟨he.1, hQ.widen he.2 (fun _ => ?_) (fun _ => ?_) (hstep₁.trans hwrite).length⟩
        · rw [List.map_cons, List.flatMap_cons]
          exact List.mem_append_right _
        · rw [List.map_cons, List.flatMap_cons]
          exact List.mem_append_right _

end

/-- The function, on a value that reads as meant. -/
theorem call_spec (hF : Realizes func F) {M H : List Nat} {s s' : State κ} {v : GVal}
    {t : JsTree κ} (hread : Reads (Passed M H s) s'.heap v t) (hstep : Step h₀ M s s')
    (hv : ∀ r, v = .ref r → r < s.heap.length → r ∈ M ∧ IsObject h₀ r) :
    Step h₀ M s (call func v s').2
      ∧ Reads (Passed M H s) (call func v s').2.heap (call func v s').1 (F t) := by
  refine ⟨⟨Nat.le_trans hstep.length (hF.length v s'.heap), fun r hr hnot => ?_, hstep.processed⟩,
    ?_⟩
  · rw [← hstep.kept r hr hnot]
    refine hF.kept v s'.heap r (Nat.lt_of_lt_of_le hr hstep.length) ?_
    rintro rfl
    obtain ⟨hmem, hobj⟩ := hv r rfl hr
    exact hnot hmem hobj
  · refine (hF.result _ _ _ _ hread).frame (fun r hr => ?_) fun _ _ _ hc => hc
    rcases hr with hr | hr
    · exact hr
    · exact Or.inr (Or.inr (Nat.le_trans hstep.length hr))

end

/-! ### One object or array -/

section

variable [DecidableEq κ] {o : Options κ} {h₀ : Heap κ} {func : Func κ} {n r : Nat} {cell : Cell κ}
  {proto : List κ} {fields : List (String × GVal)}

theorem meets_ref (hcell : h₀[r]? = some cell) :
    meets o h₀ (n + 1) (.ref r) = r :: (opened o cell).flatMap (meets o h₀ n) := by
  rw [meets, hcell]
  rfl

theorem hidden_ref (hcell : h₀[r]? = some cell) :
    hidden o h₀ (n + 1) (.ref r) = (opened o cell).flatMap (hidden o h₀ n)
      ++ (closed o cell).flatMap (passes h₀ n) := by
  rw [hidden, hcell]
  rfl

/-- Nothing is hidden in an array but in its items. -/
theorem hidden_arr {items : List GVal} (hcell : h₀[r]? = some (.arr items)) :
    hidden o h₀ (n + 1) (.ref r) = items.flatMap (hidden o h₀ n) := by
  rw [hidden_ref hcell]
  exact List.append_nil _

theorem opened_special (h : isSpecial o proto (fields.map Prod.fst) = true) :
    opened o (.obj proto fields) = [] := if_pos h

theorem opened_obj (h : ¬ isSpecial o proto (fields.map Prod.fst) = true) :
    opened o (.obj proto fields) = fields.map Prod.snd := if_neg h

theorem closed_special (h : isSpecial o proto (fields.map Prod.fst) = true) :
    closed o (.obj proto fields) = fields.map Prod.snd := if_pos h

theorem closed_obj (h : ¬ isSpecial o proto (fields.map Prod.fst) = true) :
    closed o (.obj proto fields) = [] := if_neg h

theorem hidden_special (hcell : h₀[r]? = some (.obj proto fields))
    (h : isSpecial o proto (fields.map Prod.fst) = true) :
    hidden o h₀ (n + 1) (.ref r) = (fields.map Prod.snd).flatMap (passes h₀ n) := by
  rw [hidden_ref hcell, opened_special h, closed_special h]
  rfl

theorem hidden_obj (hcell : h₀[r]? = some (.obj proto fields))
    (h : ¬ isSpecial o proto (fields.map Prod.fst) = true) :
    hidden o h₀ (n + 1) (.ref r) = (fields.map Prod.snd).flatMap (hidden o h₀ n) := by
  rw [hidden_ref hcell, opened_obj h, closed_obj h]
  exact List.append_nil _

variable {s : State κ}

theorem processDeep_arr {items : List GVal} (hnew : r ∉ s.processed)
    (hcell : s.heap[r]? = some (.arr items)) :
    processDeep o func (n + 1) (.ref r) s
      = (processItems (processDeep o func n) items (s.enter r)).map fun results =>
          call func (.ref results.2.heap.length) (results.2.alloc results.1) := by
  rw [processDeep, if_neg (by simpa using hnew), hcell]

theorem processDeep_special (hnew : r ∉ s.processed) (hcell : s.heap[r]? = some (.obj proto fields))
    (h : isSpecial o proto (fields.map Prod.fst) = true) :
    processDeep o func (n + 1) (.ref r) s = some (call func (.ref r) (s.enter r)) := by
  rw [processDeep, if_neg (by simpa using hnew), hcell]
  exact if_pos h

theorem processDeep_obj (hnew : r ∉ s.processed) (hcell : s.heap[r]? = some (.obj proto fields))
    (h : ¬ isSpecial o proto (fields.map Prod.fst) = true) :
    processDeep o func (n + 1) (.ref r) s
      = (processFields (processDeep o func n) r proto [] fields (s.enter r)).map
          (call func (.ref r)) := by
  rw [processDeep, if_neg (by simpa using hnew), hcell]
  exact if_neg h

variable {Q : (Nat → Prop) → Heap κ → GVal → GVal → Prop} {met hid : GVal → List Nat} {H : List Nat}

/-- An array: its items are processed, and the function gets the new array. -/
theorem enterItems_spec (hQ : Framed Q) {items : List GVal} (hcell : h₀[r]? = some (.arr items))
    (hf : ∀ w ∈ items, Processes h₀ Q met hid (processDeep o func n) w)
    (hH : ∀ a ∈ items.flatMap hid, a ∈ H) (hready : Ready h₀ (r :: items.flatMap met) H s) :
    ∃ (results : List GVal) (s₁ : State κ), processDeep o func (n + 1) (.ref r) s
        = some (call func (.ref s₁.heap.length) (s₁.alloc results))
      ∧ Step h₀ (r :: items.flatMap met) s (s₁.alloc results)
      ∧ s.heap.length ≤ s₁.heap.length
      ∧ (s₁.alloc results).heap[s₁.heap.length]? = some (.arr results)
      ∧ List.Forall₂ (Q (Passed (r :: items.flatMap met) H s) (s₁.alloc results).heap)
          results items := by
  obtain ⟨results, s₁, hrun, hstep, hall⟩ := processItems_spec hQ hf (hready.enter hH)
  refine ⟨results, s₁, ?_, step_alloc hstep.enter results, hstep.length, ?_,
    hall.imp fun v' w hw => ?_⟩
  · rw [processDeep_arr (hready.fresh r List.mem_cons_self)
      ((hready.intact r (Or.inl List.mem_cons_self)).trans hcell), hrun]
    rfl
  · rw [State.alloc]
    exact List.getElem?_concat_length
  · refine hQ.frame (hQ.widen hw (fun _ => List.mem_cons_of_mem _) hH (Nat.le_refl _))
      (fun _ ha => ha) fun a c _ hc => ?_
    rw [State.alloc, List.getElem?_append_left (List.getElem?_eq_some_iff.mp hc).1]
    exact hc

/-- An object that is not special: its entries are processed, and the function gets it. -/
theorem enterFields_spec (hQ : Framed Q) (hcell : h₀[r]? = some (.obj proto fields))
    (h : ¬ isSpecial o proto (fields.map Prod.fst) = true)
    (hf : ∀ e ∈ fields, Processes h₀ Q met hid (processDeep o func n) e.2)
    (hH : ∀ a ∈ (fields.map Prod.snd).flatMap hid, a ∈ H)
    (hready : Ready h₀ (r :: (fields.map Prod.snd).flatMap met) H s) :
    ∃ (fields' : List (String × GVal)) (s₁ : State κ),
      processDeep o func (n + 1) (.ref r) s = some (call func (.ref r) s₁)
      ∧ Step h₀ (r :: (fields.map Prod.snd).flatMap met) s s₁
      ∧ s₁.heap[r]? = some (.obj proto fields')
      ∧ List.Forall₂ (fun e' e => e'.1 = e.1
          ∧ Q (Passed ((fields.map Prod.snd).flatMap met) ((fields.map Prod.snd).flatMap hid) s)
            s₁.heap e'.2 e.2) fields' fields := by
  have hobj : IsObject h₀ r := ⟨proto, fields, hcell⟩
  have hsame : s.heap[r]? = some (.obj proto fields) :=
    (hready.intact r (Or.inl List.mem_cons_self)).trans hcell
  have hentered : (s.enter r).heap[r]? = some (.obj proto ([] ++ fields)) := hsame
  obtain ⟨fields', s₁, hrun, hstep, hcell₁, hall⟩ :=
    processFields_spec hQ hf hobj hentered (hready.enter hH) (List.nodup_cons.mp hready.nodup).1
      fun hmem => hready.apart r (hH r hmem) hobj List.mem_cons_self
  refine ⟨fields', s₁, ?_, hstep.enter.mono fun a ha => ?_, hcell₁, hall⟩
  · rw [processDeep_obj (hready.fresh r List.mem_cons_self) hsame h, hrun]
    rfl
  · rcases List.mem_cons.mp ha with rfl | ha
    · exact List.mem_cons_self
    · exact ha

end

/-! ### The run on a ready state -/

section

variable [DecidableEq κ] {o : Options κ} {h₀ : Heap κ} {func : Func κ} {F : JsTree κ → JsTree κ}
  {n : Nat}

/-- A value reads as meant. -/
def ReadsAs (o : Options κ) (F : JsTree κ → JsTree κ) (h₀ : Heap κ) (n : Nat) (S : Nat → Prop)
    (heap : Heap κ) (v' v : GVal) : Prop :=
  Reads S heap v' (processTree o F (h₀.view n v))

theorem framed_readsAs : Framed (ReadsAs o F h₀ n) := ⟨Reads.frame⟩

theorem processes_prim (hF : Realizes func F) (n : Nat) (p : Prim) :
    Processes h₀ (ReadsAs o F h₀ n) (meets o h₀ n) (hidden o h₀ n) (processDeep o func n)
      (.prim p) := by
  intro s hready
  have hread : Reads (Passed [] [] s) s.heap (.prim p) (.prim p) := reads_prim.mpr rfl
  cases n <;> exact ⟨_, _, rfl, call_spec hF hread (Step.refl s) (by rintro r ⟨⟩)⟩

theorem processes_oid (hF : Realizes func F) (n : Nat) (hex : String) :
    Processes h₀ (ReadsAs o F h₀ n) (meets o h₀ n) (hidden o h₀ n) (processDeep o func n)
      (.oid hex) := by
  intro s hready
  have hread : Reads (Passed [] [] s) s.heap (.oid hex) (.oid hex) := reads_oid.mpr rfl
  cases n <;> exact ⟨_, _, rfl, call_spec hF hread (Step.refl s) (by rintro r ⟨⟩)⟩

omit [DecidableEq κ] in
theorem keys_view (fields : List (String × GVal)) :
    keys (fields.map fun e => (e.1, h₀.view n e.2)) = fields.map Prod.fst := by
  rw [keys, List.map_map]
  rfl

section

variable {r : Nat} {s : State κ} {M H : List Nat}

theorem processArray_spec (hF : Realizes func F) {items : List GVal}
    (hcell : h₀[r]? = some (.arr items))
    (hf : ∀ w ∈ items, Processes h₀ (ReadsAs o F h₀ n) (meets o h₀ n) (hidden o h₀ n)
      (processDeep o func n) w) :
    Processes h₀ (ReadsAs o F h₀ (n + 1)) (meets o h₀ (n + 1)) (hidden o h₀ (n + 1))
      (processDeep o func (n + 1)) (.ref r) := by
  rw [Processes, meets_ref hcell, hidden_ref hcell]
  intro s hready
  obtain ⟨results, s₁, hrun, hstep, hlength, hcell₁, hall⟩ :=
    enterItems_spec framed_readsAs hcell hf (fun _ => List.mem_append_left _) hready
  have htree : processTree o F (h₀.view (n + 1) (.ref r))
      = F (.arr (processTrees o F (items.map (h₀.view n)))) := by
    rw [Heap.view, hcell, processTree]
  refine ⟨_, _, hrun, ?_⟩
  rw [ReadsAs, htree]
  refine call_spec hF ?_ hstep ?_
  · refine (reads_arr hcell₁).mpr ⟨Or.inr (Or.inr hlength), _, rfl, ?_⟩
    rw [processTrees_eq_map, List.map_map, List.forall₂_map_right_iff]
    exact hall
  · rintro a ha hlt
    cases ha
    exact absurd hlt (Nat.not_lt.mpr hlength)

/-- A special object is handed over as it was at the start. -/
theorem processSpecial_spec (hF : Realizes func F) {proto : List κ} {fields : List (String × GVal)}
    (hs : Sound h₀ (n + 1) (.ref r)) (hcell : h₀[r]? = some (.obj proto fields))
    (h : isSpecial o proto (fields.map Prod.fst) = true) :
    Processes h₀ (ReadsAs o F h₀ (n + 1)) (meets o h₀ (n + 1)) (hidden o h₀ (n + 1))
      (processDeep o func (n + 1)) (.ref r) := by
  rw [Processes, meets_ref hcell, hidden_ref hcell, opened_special h, closed_special h]
  intro s hready
  have hsame : s.heap[r]? = some (.obj proto fields) :=
    (hready.intact r (Or.inl List.mem_cons_self)).trans hcell
  have htree : processTree o F (h₀.view (n + 1) (.ref r)) = F (h₀.view (n + 1) (.ref r)) := by
    rw [Heap.view, hcell]
    dsimp only
    rw [processTree, keys_view, if_pos h]
  -- all that it reads over is met or hidden, and so has not changed
  have hmember : ∀ a ∈ passes h₀ (n + 1) (.ref r),
      a ∈ [r] ∨ a ∈ (fields.map Prod.snd).flatMap (passes h₀ n) := by
    intro a ha
    rw [passes, hcell] at ha
    rcases List.mem_cons.mp ha with rfl | ha
    · exact Or.inl List.mem_cons_self
    · exact Or.inr ha
  refine ⟨_, _, processDeep_special (hready.fresh r List.mem_cons_self) hsame h, ?_⟩
  rw [ReadsAs, htree]
  refine call_spec hF ?_ (Step.refl (s.enter r)).enter ?_
  · refine ⟨n + 1, (unfolds_passes hs).frame (fun a ha => ?_) fun a c ha hc => ?_⟩
    · exact (hmember a ha).imp_right Or.inl
    · exact (hready.intact a (hmember a ha)).trans hc
  · rintro a ha -
    cases ha
    exact ⟨List.mem_cons_self, proto, fields, hcell⟩

theorem processObject_spec (hF : Realizes func F) {proto : List κ} {fields : List (String × GVal)}
    (hcell : h₀[r]? = some (.obj proto fields))
    (h : ¬ isSpecial o proto (fields.map Prod.fst) = true)
    (hf : ∀ e ∈ fields, Processes h₀ (ReadsAs o F h₀ n) (meets o h₀ n) (hidden o h₀ n)
      (processDeep o func n) e.2) :
    Processes h₀ (ReadsAs o F h₀ (n + 1)) (meets o h₀ (n + 1)) (hidden o h₀ (n + 1))
      (processDeep o func (n + 1)) (.ref r) := by
  rw [Processes, meets_ref hcell, hidden_ref hcell, opened_obj h]
  intro s hready
  obtain ⟨fields', s₁, hrun, hstep, hcell₁, hall⟩ :=
    enterFields_spec framed_readsAs hcell h hf (fun _ => List.mem_append_left _) hready
  have htree : processTree o F (h₀.view (n + 1) (.ref r))
      = F (.obj proto (processTreeFields o F (fields.map fun e => (e.1, h₀.view n e.2)))) := by
    rw [Heap.view, hcell]
    dsimp only
    rw [processTree, keys_view, if_neg h]
  refine ⟨_, _, hrun, ?_⟩
  rw [ReadsAs, htree]
  refine call_spec hF ?_ hstep ?_
  · refine (reads_obj hcell₁).mpr ⟨Or.inl List.mem_cons_self, _, rfl, ?_⟩
    rw [processTreeFields_eq_map, List.map_map, List.forall₂_map_right_iff]
    exact hall.imp fun e' e he => ⟨he.1, framed_readsAs.widen he.2
      (fun _ => List.mem_cons_of_mem _) (fun _ => List.mem_append_left _) (Nat.le_refl _)⟩
  · rintro a ha -
    cases ha
    exact ⟨List.mem_cons_self, proto, fields, hcell⟩

end

/-- **Without sharing.**  A value of which nothing is met twice, and nothing that is met
    is hidden, is processed as its tree. -/
theorem processDeep_of_ready (hF : Realizes func F) (n : Nat) {v : GVal} (hs : Sound h₀ n v) :
    Processes h₀ (ReadsAs o F h₀ n) (meets o h₀ n) (hidden o h₀ n) (processDeep o func n) v := by
  induction n generalizing v with
  | zero =>
      cases v with
      | prim p  => exact processes_prim hF 0 p
      | oid hex => exact processes_oid hF 0 hex
      | ref r   => exact hs.elim
  | succ n ih =>
      cases v with
      | prim p  => exact processes_prim hF (n + 1) p
      | oid hex => exact processes_oid hF (n + 1) hex
      | ref r   =>
          obtain ⟨cell, hcell, hchildren⟩ := sound_ref hs
          cases cell with
          | arr items => exact processArray_spec hF hcell fun w hw => ih (hchildren w hw)
          | obj proto fields =>
              by_cases h : isSpecial o proto (fields.map Prod.fst) = true
              · exact processSpecial_spec hF hs hcell h
              · exact processObject_spec hF hcell h fun e he =>
                  ih (hchildren e.2 (List.mem_map_of_mem he))

end

end ProcessDeep
