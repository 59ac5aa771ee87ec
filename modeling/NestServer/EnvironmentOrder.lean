import NestServer.EnvironmentObject

/-! # Settings do not depend on their order

    A variable writes into cells that its name decides: it goes through some, where it
    finds or leaves an object, and ends in one.  As long as no variable ends where one goes
    through, and those that end in one cell have one value, what is written is the same
    in every order, and nothing fails.

    * `setValue_route` is the way of one variable, `Written.step` what it adds;
    * `wellDefined_of_compatible` is the run over all of them;
    * `compatible_of_wellDefined` goes back, from what is found when a variable comes last. -/

namespace EnvironmentObject

variable {φ ν : Type} [DecidableEq φ] (rt : Runtime φ ν) (keyPrefix : Text)

/-! ## Statements -/

/-- Neither path goes on from the other. -/
def NotPrefixes (a b : Entry ν) : Prop :=
  ∀ p q, path rt (a.1.drop keyPrefix.length) = .ok p →
    path rt (b.1.drop keyPrefix.length) = .ok q → ¬ p <+: q ∧ ¬ q <+: p

/-- The variables build one configuration. -/
structure WellDefined (processEnv : List (Entry ν)) : Prop where
  total : ∀ order, order.Perm processEnv →
    ∃ output, getEnvironmentObject rt keyPrefix order = .ok output
  unordered : ∀ order, order.Perm processEnv → ∀ output output',
    getEnvironmentObject rt keyPrefix order = .ok output →
      getEnvironmentObject rt keyPrefix processEnv = .ok output' →
        objectOf output = objectOf output'
  values : (settings keyPrefix processEnv).Pairwise (NotPrefixes rt keyPrefix) →
    ∀ output, getEnvironmentObject rt keyPrefix processEnv = .ok output →
      ∀ entry ∈ settings keyPrefix processEnv, ∀ p,
        path rt (entry.1.drop keyPrefix.length) = .ok p →
          objectOf output p = some (.prim (prepared rt entry.2))

/-- The object in which a path goes on, where nothing was written. -/
def nextObject (current : Place φ) (segment : Text) : Option (Place φ) :=
  match memberOf rt current segment with
  | .absent     => some (child current segment)
  | .function f => some (some f, [])
  | .locked     => none

/-- The cells that a path goes through and the one it ends in, where nothing was written. -/
def route (current : Place φ) : List Text → Option (List (Place φ) × Place φ)
  | []                      => none
  | [segment]               =>
      if memberOf rt current segment = .locked then none else some ([], child current segment)
  | segment :: next :: rest =>
      (nextObject rt current segment).bind fun object =>
        (route object (next :: rest)).map fun r => (child current segment :: r.1, r.2)

/-- What one variable writes. -/
structure Way (φ ν : Type) where
  path    : List Text
  visited : List (Place φ)
  target  : Place φ
  value   : Prim ν

def wayOf (entry : Entry ν) : Option (Way φ ν) :=
  match path rt (entry.1.drop keyPrefix.length) with
  | .error _ => none
  | .ok p    => (route rt root p).map fun r => ⟨p, r.1, r.2, prepared rt entry.2⟩

def ways (processEnv : List (Entry ν)) : List (Way φ ν) :=
  (settings keyPrefix processEnv).filterMap (wayOf rt keyPrefix)

/-- The variables keep out of each other's way. -/
structure Compatible (processEnv : List (Entry ν)) : Prop where
  /-- No part of a name ends with an underscore. -/
  names : ∀ entry ∈ settings keyPrefix processEnv,
    ∀ part ∈ splitDouble (entry.1.drop keyPrefix.length), part.getLast? ≠ some UNDERSCORE
  /-- No path meets a member that cannot be written. -/
  writable : ∀ entry ∈ settings keyPrefix processEnv, ∀ p,
    path rt (entry.1.drop keyPrefix.length) = .ok p → (route rt root p).isSome = true
  /-- No variable ends where one goes through. -/
  apart : ∀ w ∈ ways rt keyPrefix processEnv, ∀ w' ∈ ways rt keyPrefix processEnv,
    w.target ∉ w'.visited
  /-- Variables that end in one cell have one value. -/
  agree : ∀ w ∈ ways rt keyPrefix processEnv, ∀ w' ∈ ways rt keyPrefix processEnv,
    w.target = w'.target → w.value = w'.value

/-- A path that stays among new objects: it goes through no member that every object has. -/
def Plain (p : List Text) : Prop := ∀ s ∈ p.dropLast, rt.member none s = .absent

/-! ## One write -/

variable {rt keyPrefix}

/-- A cell is written and nothing else. -/
def write (heap : Heap φ ν) (place : Place φ) (slot : Slot φ ν) : Heap φ ν := fun q =>
  if q = place then some slot else heap q

@[simp] theorem write_self (heap : Heap φ ν) (place : Place φ) (slot : Slot φ ν) :
    write heap place slot place = some slot := if_pos rfl

theorem write_of_ne (heap : Heap φ ν) {place q : Place φ} (slot : Slot φ ν) (h : q ≠ place) :
    write heap place slot q = heap q := if_neg h

theorem write_eq_self {heap : Heap φ ν} {place : Place φ} {slot : Slot φ ν}
    (h : heap place = some slot) : write heap place slot = heap := by
  funext q
  by_cases hq : q = place
  · rw [hq, write_self, h]
  · exact write_of_ne heap slot hq

theorem put_eq_write {heap : Heap φ ν} {place : Place φ} (slot : Slot φ ν)
    (h : ∀ q, Below place q → heap q = none) : put heap place slot = write heap place slot := by
  funext q
  by_cases hq : q = place
  · simp [put, write, hq]
  · by_cases hbelow : Below place q
    · simp [put, write, hq, hbelow, h q hbelow]
    · simp [put, write, hq, hbelow]

@[simp] theorem put_self (heap : Heap φ ν) (place : Place φ) (slot : Slot φ ν) :
    put heap place slot place = some slot := if_pos rfl

/-- Only what is written and what is below it changes. -/
theorem put_of_not (heap : Heap φ ν) {place q : Place φ} (slot : Slot φ ν) (hne : q ≠ place)
    (hbelow : ¬ Below place q) : put heap place slot q = heap q := by
  rw [put, if_neg hne, if_neg hbelow]

omit [DecidableEq φ] in
theorem below_child_iff {above current : Place φ} {segment : Text} :
    Below above (child current segment) ↔ above.1 = current.1 ∧ above.2 <+: current.2 := by
  obtain ⟨owner, p⟩ := current
  obtain ⟨owner', p'⟩ := above
  show owner = owner' ∧ p' <+: p ++ [segment] ∧ (owner, p ++ [segment]) ≠ (owner', p') ↔ _
  rw [List.prefix_concat_iff, ne_eq, Prod.mk.injEq]
  constructor
  · rintro ⟨rfl, rfl | hp, hne⟩
    · exact absurd ⟨rfl, rfl⟩ hne
    · exact ⟨rfl, hp⟩
  · rintro ⟨rfl, hp⟩
    refine ⟨rfl, Or.inr hp, fun h => ?_⟩
    have hlen := hp.length_le
    rw [← h.2, List.length_append] at hlen
    exact Nat.not_succ_le_self _ hlen

/-- What is written stands in objects. -/
def Closed (heap : Heap φ ν) : Prop :=
  ∀ above q, Below above q → above.2 ≠ [] → heap q ≠ none → heap above = some .object

omit [DecidableEq φ] in
theorem Closed.nothing_below {heap : Heap φ ν} (hclosed : Closed heap) {place : Place φ}
    (hne : place.2 ≠ []) (hplace : heap place ≠ some .object) :
    ∀ q, Below place q → heap q = none := by
  intro q hbelow
  by_contra hq
  exact hplace (hclosed place q hbelow hne hq)

/-- A loop over a path may go on in this cell: it is an object, and what was written stands in
    objects. -/
structure StandsIn (heap : Heap φ ν) (current : Place φ) : Prop where
  closed : Closed heap
  object : current.2 ≠ [] → heap current = some .object

/-- An object gets a property. -/
theorem StandsIn.closed_write {heap : Heap φ ν} {current : Place φ} (h : StandsIn heap current)
    {segment : Text} {slot : Slot φ ν} (hcell : heap (child current segment) = none) :
    Closed (write heap (child current segment) slot) := by
  intro above q hbelow hne hq
  have habove : heap above = some .object := by
    by_cases hqc : q = child current segment
    · rw [hqc, below_child_iff] at hbelow
      have hcne : current.2 ≠ [] := fun hnil => hne (List.prefix_nil.mp (hnil ▸ hbelow.2))
      have hobject := h.object hcne
      by_cases heq : above = current
      · rw [heq]
        exact hobject
      · refine h.closed above current ⟨hbelow.1.symm, hbelow.2, Ne.symm heq⟩ hne ?_
        rw [hobject]
        exact Option.some_ne_none _
    · rw [write_of_ne heap slot hqc] at hq
      exact h.closed above q hbelow hne hq
  have hac : above ≠ child current segment := by
    intro h
    rw [h, hcell] at habove
    cases habove
  rw [write_of_ne heap slot hac, habove]

/-! ## The way of one variable -/

variable (rt) in
/-- What a cell holds when a path has gone through it. -/
def built (cell : Place φ) : Slot φ ν :=
  match cell.2.getLast? with
  | none         => .object
  | some segment =>
      match memberOf rt (cell.1, cell.2.dropLast) segment with
      | .function f => .function f
      | _           => .object

omit [DecidableEq φ] in
theorem built_child (current : Place φ) (segment : Text) :
    built rt (child current segment) = match memberOf rt current segment with
      | .function f => .function f
      | _           => .object := by
  simp only [built, child, List.getLast?_concat, List.dropLast_concat]

omit [DecidableEq φ] in
theorem child_ne_nil (current : Place φ) (segment : Text) : (child current segment).2 ≠ [] :=
  List.append_ne_nil_of_right_ne_nil _ (List.cons_ne_nil _ _)

omit [DecidableEq φ] in
/-- A path goes on in a new object or in a function of the language. -/
theorem nextObject_cases {current object : Place φ} {segment : Text}
    (h : nextObject rt current segment = some object) :
    (memberOf rt current segment = .absent ∧ object = child current segment ∧
        built (ν := ν) rt (child current segment) = .object) ∨
      ∃ f, memberOf rt current segment = .function f ∧ object = (some f, []) ∧
        built (ν := ν) rt (child current segment) = .function f := by
  rw [built_child]
  cases hmember : memberOf rt current segment with
  | absent =>
      rw [nextObject, hmember] at h
      exact Or.inl ⟨rfl, (Option.some.inj h).symm, rfl⟩
  | function f =>
      rw [nextObject, hmember] at h
      exact Or.inr ⟨f, rfl, (Option.some.inj h).symm, rfl⟩
  | locked =>
      rw [nextObject, hmember] at h
      cases h

theorem route_singleton {current target : Place φ} {segment : Text} {visited : List (Place φ)}
    (h : route rt current [segment] = some (visited, target)) :
    memberOf rt current segment ≠ .locked ∧ visited = [] ∧ target = child current segment := by
  rw [route] at h
  split at h
  · cases h
  · rename_i hlocked
    cases h
    exact ⟨hlocked, rfl, rfl⟩

theorem route_cons {current target : Place φ} {segment next : Text} {rest : List Text}
    {visited : List (Place φ)}
    (h : route rt current (segment :: next :: rest) = some (visited, target)) :
    ∃ object visited', nextObject rt current segment = some object ∧
      route rt object (next :: rest) = some (visited', target) ∧
      visited = child current segment :: visited' := by
  obtain ⟨object, hobject, h⟩ := Option.bind_eq_some_iff.mp h
  obtain ⟨r, hr, heq⟩ := Option.map_eq_some_iff.mp h
  obtain ⟨hvisited, htarget⟩ := Prod.mk.inj heq
  exact ⟨object, r.1, hobject, by rw [hr, ← htarget], hvisited.symm⟩

/-- Where nothing was written, or what a path leaves there, it goes on in the next object. -/
theorem setValue_cons {value : Prim ν} {heap : Heap φ ν} {current object : Place φ}
    {segment next : Text} {rest : List Text} (hclosed : Closed heap)
    (hobject : nextObject rt current segment = some object)
    (hcell : heap (child current segment) = none ∨
      heap (child current segment) = some (built rt (child current segment))) :
    setValue rt value heap current (segment :: next :: rest) =
      setValue rt value
        (write heap (child current segment) (built rt (child current segment))) object
        (next :: rest) := by
  rw [setValue]
  rcases hcell with hcell | hcell
  · have hput : ∀ slot, put heap (child current segment) slot =
        write heap (child current segment) slot := by
      intro slot
      refine put_eq_write slot (hclosed.nothing_below (child_ne_nil current segment) ?_)
      simp [hcell]
    rcases nextObject_cases (ν := ν) hobject with ⟨hmember, rfl, hbuilt⟩ | ⟨f, hmember, rfl, hbuilt⟩
    · simp only [hcell, hmember, hput, hbuilt]
    · simp only [hcell, hmember, hput, hbuilt]
  · rw [write_eq_self hcell]
    rcases nextObject_cases (ν := ν) hobject with ⟨hmember, rfl, hbuilt⟩ | ⟨f, hmember, rfl, hbuilt⟩
    · rw [hbuilt] at hcell
      simp only [hcell]
    · rw [hbuilt] at hcell
      simp only [hcell]

/-- The next object, once its cell is written. -/
theorem StandsIn.next {heap : Heap φ ν} {current object : Place φ} {segment : Text}
    (h : StandsIn heap current) (hobject : nextObject rt current segment = some object)
    (hcell : heap (child current segment) = none ∨
      heap (child current segment) = some (built rt (child current segment))) :
    StandsIn (write heap (child current segment)
      (built rt (child current segment))) object := by
  constructor
  · rcases hcell with hcell | hcell
    · exact h.closed_write hcell
    · rw [write_eq_self hcell]
      exact h.closed
  · intro hne
    rcases nextObject_cases (ν := ν) hobject with ⟨_, rfl, hbuilt⟩ | ⟨f, _, rfl, _⟩
    · rw [write_self, hbuilt]
    · exact absurd rfl hne

/-- **The way of one variable.** It fails nowhere, and writes what its path goes through and
    where it ends. -/
theorem setValue_route {value : Prim ν} {p : List Text} {heap : Heap φ ν} {current : Place φ}
    {visited : List (Place φ)} {target : Place φ}
    (hroute : route rt current p = some (visited, target)) (hstands : StandsIn heap current)
    (hvisited : ∀ c ∈ visited, heap c = none ∨ heap c = some (built rt c))
    (htarget : heap target ≠ some .object) (hapart : target ∉ visited) :
    ∃ heap', setValue rt value heap current p = .ok heap' ∧ ∀ c, heap' c =
      if c = target then some (.prim value)
      else if c ∈ visited then some (built rt c) else heap c := by
  induction p generalizing heap current visited with
  | nil => cases hroute
  | cons segment rest ih =>
      cases rest with
      | nil =>
          obtain ⟨hlocked, rfl, rfl⟩ := route_singleton hroute
          have hnothing := hstands.closed.nothing_below (child_ne_nil current segment) htarget
          rw [setValue, if_neg (fun h => hlocked h.2)]
          refine ⟨_, rfl, fun c => ?_⟩
          rw [put_eq_write _ hnothing, if_neg List.not_mem_nil]
          rfl
      | cons next rest =>
          obtain ⟨object, visited', hobject, hrest, rfl⟩ := route_cons hroute
          have hcell := hvisited _ List.mem_cons_self
          obtain ⟨hne, hapart'⟩ := not_or.mp (mt List.mem_cons.mpr hapart)
          -- the next object is there, and the rest of the way is as it was
          have hvisited' : ∀ c ∈ visited', write heap (child current segment)
              (built rt (child current segment)) c = none ∨
              write heap (child current segment) (built rt (child current segment)) c =
                some (built rt c) := by
            intro c hc
            by_cases hcc : c = child current segment
            · rw [hcc, write_self]
              exact Or.inr rfl
            · rw [write_of_ne _ _ hcc]
              exact hvisited c (List.mem_cons_of_mem _ hc)
          obtain ⟨heap', hheap', hcells⟩ := ih hrest (hstands.next hobject hcell) hvisited'
            (by rwa [write_of_ne _ _ hne]) hapart'
          rw [setValue_cons hstands.closed hobject hcell]
          refine ⟨heap', hheap', fun c => ?_⟩
          rw [hcells c]
          by_cases hct : c = target
          · rw [if_pos hct, if_pos hct]
          · rw [if_neg hct, if_neg hct]
            by_cases hcc : c = child current segment
            · rw [hcc, write_self, if_pos List.mem_cons_self]
              split
              · rfl
              · rfl
            · simp [hcc, write_of_ne]

/-- What a path writes stands in objects that it goes through, or in those it starts in. -/
theorem route_above {p : List Text} {current : Place φ} {visited : List (Place φ)}
    {target above q : Place φ} (hroute : route rt current p = some (visited, target))
    (hq : q ∈ visited ∨ q = target) (hbelow : Below above q) (hne : above.2 ≠ []) :
    (above ∈ visited ∧ built (ν := ν) rt above = .object) ∨
      (above.1 = current.1 ∧ above.2 <+: current.2) := by
  induction p generalizing current visited with
  | nil => cases hroute
  | cons segment rest ih =>
      cases rest with
      | nil =>
          obtain ⟨_, rfl, rfl⟩ := route_singleton hroute
          rcases hq with hq | rfl
          · cases hq
          · exact Or.inr (below_child_iff.mp hbelow)
      | cons next rest =>
          obtain ⟨object, visited', hobject, hrest, rfl⟩ := route_cons hroute
          by_cases hqc : q = child current segment
          · exact Or.inr (below_child_iff.mp (hqc ▸ hbelow))
          · have hq' : q ∈ visited' ∨ q = target :=
              hq.imp_left fun h => (List.mem_cons.mp h).resolve_left hqc
            rcases ih hrest hq' with ⟨hmem, hbuilt⟩ | ⟨howner, hpath⟩
            · exact Or.inl ⟨List.mem_cons_of_mem _ hmem, hbuilt⟩
            · rcases nextObject_cases (ν := ν) hobject with ⟨_, rfl, hbuilt⟩ | ⟨f, _, rfl, _⟩
              · by_cases heq : above = child current segment
                · exact Or.inl ⟨heq ▸ List.mem_cons_self, heq ▸ hbuilt⟩
                · exact Or.inr (below_child_iff.mp ⟨howner.symm, hpath, Ne.symm heq⟩)
              · exact absurd (List.prefix_nil.mp hpath) hne

/-- A variable is found where its path was written. -/
theorem found_route {p : List Text} {heap : Heap φ ν} {current : Place φ}
    {visited : List (Place φ)} {target : Place φ} {slot : Slot φ ν}
    (hroute : route rt current p = some (visited, target))
    (hvisited : ∀ c ∈ visited, heap c = some (built rt c)) (htarget : heap target = some slot) :
    found heap current p = some slot := by
  induction p generalizing current visited with
  | nil => cases hroute
  | cons segment rest ih =>
      cases rest with
      | nil =>
          obtain ⟨_, _, rfl⟩ := route_singleton hroute
          exact htarget
      | cons next rest =>
          obtain ⟨object, visited', hobject, hrest, rfl⟩ := route_cons hroute
          have hcell := hvisited _ List.mem_cons_self
          have hfound := ih hrest fun c hc => hvisited c (List.mem_cons_of_mem _ hc)
          rcases nextObject_cases (ν := ν) hobject with ⟨_, rfl, hbuilt⟩ | ⟨f, _, rfl, hbuilt⟩
          · rw [found, hcell, hbuilt]
            exact hfound
          · rw [found, hcell, hbuilt]
            exact hfound

/-! ## All the variables -/

/-- A way is the one that its path has. -/
def Way.Routed (rt : Runtime φ ν) (w : Way φ ν) : Prop :=
  route rt root w.path = some (w.visited, w.target)

/-- No way ends where one goes through, and those that end together have one value. -/
structure Apart (ws : List (Way φ ν)) : Prop where
  apart : ∀ w ∈ ws, ∀ w' ∈ ws, w.target ∉ w'.visited
  agree : ∀ w ∈ ws, ∀ w' ∈ ws, w.target = w'.target → w.value = w'.value

/-- What was written is what these ways write. -/
structure Written (rt : Runtime φ ν) (ws : List (Way φ ν)) (heap : Heap φ ν) : Prop where
  target : ∀ w ∈ ws, heap w.target = some (.prim w.value)
  visited : ∀ w ∈ ws, ∀ c ∈ w.visited, heap c = some (built rt c)
  empty : ∀ c, (∀ w ∈ ws, c ∉ w.visited ∧ c ≠ w.target) → heap c = none

omit [DecidableEq φ] in
theorem written_nil : Written rt [] (fun _ => none : Heap φ ν) where
  target := by
    intro w hw
    cases hw
  visited := by
    intro w hw
    cases hw
  empty := fun _ _ => rfl

/-- A cell that was written is one of some way. -/
theorem Written.exists_way {ws : List (Way φ ν)} {heap : Heap φ ν} (h : Written rt ws heap)
    {c : Place φ} (hc : heap c ≠ none) : ∃ w ∈ ws, c ∈ w.visited ∨ c = w.target := by
  by_contra hno
  refine hc (h.empty c fun w hw => not_or.mp fun hor => hno ⟨w, hw, hor⟩)

theorem Written.closed {ws : List (Way φ ν)} {heap : Heap φ ν} (h : Written rt ws heap)
    (hrouted : ∀ w ∈ ws, w.Routed rt) : Closed heap := by
  intro above q hbelow hne hq
  obtain ⟨w, hw, hor⟩ := h.exists_way hq
  rcases route_above (ν := ν) (hrouted w hw) hor hbelow hne with ⟨hmem, hbuilt⟩ | ⟨_, hpath⟩
  · rw [h.visited w hw above hmem, hbuilt]
  · exact absurd (List.prefix_nil.mp hpath) hne

/-- The heap depends on which ways there are, and on nothing else. -/
theorem Written.unique {ws ws' : List (Way φ ν)} {heap heap' : Heap φ ν}
    (h : Written rt ws heap) (h' : Written rt ws' heap') (hsame : ∀ w, w ∈ ws ↔ w ∈ ws') :
    heap = heap' := by
  funext c
  by_cases hc : heap c = none
  · rw [hc]
    by_contra hc'
    obtain ⟨w, hw, hor⟩ := h'.exists_way (Ne.symm hc')
    have hw := (hsame w).mpr hw
    rcases hor with hvisited | htarget
    · rw [h.visited w hw c hvisited] at hc
      cases hc
    · rw [htarget, h.target w hw] at hc
      cases hc
  · obtain ⟨w, hw, hvisited | htarget⟩ := h.exists_way hc
    · rw [h.visited w hw c hvisited, h'.visited w ((hsame w).mp hw) c hvisited]
    · rw [htarget, h.target w hw, h'.target w ((hsame w).mp hw)]

/-- **One more variable.** -/
theorem Written.step {ws : List (Way φ ν)} {w : Way φ ν} {heap : Heap φ ν}
    (h : Written rt ws heap) (hrouted : ∀ x ∈ ws, x.Routed rt) (hway : w.Routed rt)
    (hapart : Apart (ws ++ [w])) :
    ∃ heap', setValue rt w.value heap root w.path = .ok heap' ∧ Written rt (ws ++ [w]) heap' := by
  have hw : w ∈ ws ++ [w] := List.mem_append_right _ List.mem_cons_self
  have hold : ∀ x ∈ ws, x ∈ ws ++ [w] := fun x hx => List.mem_append_left _ hx
  have hvisited : ∀ c ∈ w.visited, heap c = none ∨ heap c = some (built rt c) := by
    intro c hc
    by_cases hnone : heap c = none
    · exact Or.inl hnone
    · obtain ⟨x, hx, hvisited | rfl⟩ := h.exists_way hnone
      · exact Or.inr (h.visited x hx c hvisited)
      · exact absurd hc (hapart.apart x (hold x hx) w hw)
  have htarget : heap w.target ≠ some .object := by
    intro hobject
    obtain ⟨x, hx, hvisited | heq⟩ := h.exists_way (hobject ▸ Option.some_ne_none _)
    · exact hapart.apart w hw x (hold x hx) hvisited
    · rw [heq, h.target x hx] at hobject
      cases hobject
  obtain ⟨heap', hheap', hcells⟩ := setValue_route hway
    ⟨h.closed hrouted, fun hne => absurd rfl hne⟩ hvisited htarget (hapart.apart w hw w hw)
  refine ⟨heap', hheap', ?_, ?_, ?_⟩
  · intro x hx
    rw [hcells]
    rcases List.mem_append.mp hx with hx | hx
    · by_cases heq : x.target = w.target
      · rw [if_pos heq, hapart.agree x (hold x hx) w hw heq]
      · rw [if_neg heq, if_neg (hapart.apart x (hold x hx) w hw), h.target x hx]
    · rw [List.mem_singleton.mp hx, if_pos rfl]
  · intro x hx c hc
    rw [hcells]
    have hne : c ≠ w.target := fun heq => hapart.apart w hw x hx (heq ▸ hc)
    rw [if_neg hne]
    rcases List.mem_append.mp hx with hx | hx
    · rw [h.visited x hx c hc]
      split
      · rfl
      · rfl
    · rw [List.mem_singleton.mp hx] at hc
      rw [if_pos hc]
  · intro c hno
    obtain ⟨hvis, hne⟩ := hno w hw
    rw [hcells, if_neg hne, if_neg hvis]
    exact h.empty c fun x hx => hno x (hold x hx)

section Runs

variable {processEnv order : List (Entry ν)}

theorem wayOf_eq_some {entry : Entry ν} {w : Way φ ν} (h : wayOf rt keyPrefix entry = some w) :
    path rt (entry.1.drop keyPrefix.length) = .ok w.path ∧ w.Routed rt ∧
      w.value = prepared rt entry.2 := by
  rw [wayOf] at h
  cases hpath : path rt (entry.1.drop keyPrefix.length) with
  | error e =>
      rw [hpath] at h
      cases h
  | ok p =>
      rw [hpath] at h
      obtain ⟨r, hr, rfl⟩ := Option.map_eq_some_iff.mp h
      exact ⟨rfl, hr, rfl⟩

theorem route_isSome_of_wayOf {entry : Entry ν} {p : List Text}
    (h : (wayOf rt keyPrefix entry).isSome = true)
    (hp : path rt (entry.1.drop keyPrefix.length) = .ok p) : (route rt root p).isSome = true := by
  rw [wayOf, hp, Option.isSome_map] at h
  exact h

theorem mem_ways {w : Way φ ν} :
    w ∈ ways rt keyPrefix processEnv ↔
      ∃ entry ∈ settings keyPrefix processEnv, wayOf rt keyPrefix entry = some w :=
  List.mem_filterMap

/-- A variable that has a path and a way along it. -/
theorem Compatible.exists_wayOf (h : Compatible rt keyPrefix processEnv) {entry : Entry ν}
    (hentry : entry ∈ settings keyPrefix processEnv) :
    ∃ w, wayOf rt keyPrefix entry = some w := by
  obtain ⟨p, hp⟩ := (path_isOk_iff rt _).mpr (h.names entry hentry)
  obtain ⟨r, hr⟩ := Option.isSome_iff_exists.mp (h.writable entry hentry p hp)
  refine ⟨⟨p, r.1, r.2, prepared rt entry.2⟩, ?_⟩
  rw [wayOf, hp]
  exact Option.map_eq_some_iff.mpr ⟨r, hr, rfl⟩

theorem settings_perm (h : order.Perm processEnv) :
    (settings keyPrefix order).Perm (settings keyPrefix processEnv) := h.filter _

/-- **A run.** Variables that are compatible are all written, in every order. -/
theorem Compatible.run (h : Compatible rt keyPrefix processEnv) (horder : order.Perm processEnv) :
    ∃ output, getEnvironmentObject rt keyPrefix order = .ok output ∧
      Written rt (ways rt keyPrefix order) output := by
  have hmem : ∀ {entry}, entry ∈ settings keyPrefix order →
      entry ∈ settings keyPrefix processEnv := fun hentry =>
    (settings_perm horder).mem_iff.mp hentry
  have hways : ∀ {entries : List (Entry ν)}, (∀ x ∈ entries, x ∈ settings keyPrefix order) →
      ∀ w ∈ entries.filterMap (wayOf rt keyPrefix), w ∈ ways rt keyPrefix processEnv := by
    intro entries hentries w hw
    obtain ⟨entry, hentry, hway⟩ := List.mem_filterMap.mp hw
    exact mem_ways.mpr ⟨entry, hmem (hentries entry hentry), hway⟩
  have hrouted : ∀ w ∈ ways rt keyPrefix processEnv, w.Routed rt := by
    intro w hw
    obtain ⟨entry, _, hway⟩ := mem_ways.mp hw
    exact (wayOf_eq_some hway).2.1
  refine @Fallible.foldlM_total _ _ _ (addEntry rt keyPrefix)
    (fun done heap => Written rt (done.filterMap (wayOf rt keyPrefix)) heap)
    (settings keyPrefix order) ?_ _ written_nil
  intro done entry heap hentry hdone hwritten
  obtain ⟨w, hway⟩ := h.exists_wayOf (hmem hentry)
  obtain ⟨hpath, hroute, hvalue⟩ := wayOf_eq_some hway
  have happend : (done ++ [entry]).filterMap (wayOf rt keyPrefix) =
      done.filterMap (wayOf rt keyPrefix) ++ [w] := by
    rw [List.filterMap_append, List.filterMap_cons_some hway]
    rfl
  have hall : ∀ x ∈ done.filterMap (wayOf rt keyPrefix) ++ [w],
      x ∈ ways rt keyPrefix processEnv := by
    rw [← happend]
    refine hways fun x hx => ?_
    rcases List.mem_append.mp hx with hx | hx
    · exact hdone x hx
    · rwa [List.mem_singleton.mp hx]
  obtain ⟨heap', hheap', hwritten'⟩ := hwritten.step
    (fun x hx => hrouted x (hall x (List.mem_append_left _ hx))) hroute
    ⟨fun x hx y hy => h.apart x (hall x hx) y (hall y hy),
      fun x hx y hy => h.agree x (hall x hx) y (hall y hy)⟩
  refine ⟨heap', ?_, ?_⟩
  · rw [addEntry, Fallible.bind_eq_ok]
    exact ⟨w.path, hpath, hvalue ▸ hheap'⟩
  · show Written rt ((done ++ [entry]).filterMap (wayOf rt keyPrefix)) heap'
    rw [happend]
    exact hwritten'

/-- **Compatible variables build one configuration.** -/
theorem wellDefined_of_compatible (h : Compatible rt keyPrefix processEnv) :
    WellDefined rt keyPrefix processEnv := by
  refine ⟨?_, ?_, ?_⟩
  · intro order horder
    obtain ⟨output, houtput, _⟩ := h.run horder
    exact ⟨output, houtput⟩
  · intro order horder output output' hout hout'
    obtain ⟨heap, hheap, hwritten⟩ := h.run horder
    obtain ⟨heap', hheap', hwritten'⟩ := h.run (List.Perm.refl processEnv)
    have hsame : ∀ w, w ∈ ways rt keyPrefix order ↔ w ∈ ways rt keyPrefix processEnv :=
      fun w => ((settings_perm horder).filterMap _).mem_iff
    cases hout.symm.trans hheap
    cases hout'.symm.trans hheap'
    rw [hwritten.unique hwritten' hsame]
  · intro _ output hout entry hentry p hp
    obtain ⟨heap, hheap, hwritten⟩ := h.run (List.Perm.refl processEnv)
    cases hout.symm.trans hheap
    obtain ⟨w, hway⟩ := h.exists_wayOf hentry
    obtain ⟨hpath, hroute, hvalue⟩ := wayOf_eq_some hway
    have hw := mem_ways.mpr ⟨entry, hentry, hway⟩
    cases hp.symm.trans hpath
    rw [objectOf, ← hvalue]
    exact found_route hroute (hwritten.visited w hw) (hwritten.target w hw)

/-! ## Back from what is found -/

/-- Nothing that was written is a function of the language. -/
def NoFunction (heap : Heap φ ν) : Prop := ∀ c f, heap c ≠ some (.function f)

theorem NoFunction.put {heap : Heap φ ν} (h : NoFunction heap) {place : Place φ}
    {slot : Slot φ ν} (hslot : ∀ f, slot ≠ .function f) : NoFunction (put heap place slot) := by
  intro c f hc
  unfold EnvironmentObject.put at hc
  split at hc
  · exact hslot f (Option.some.inj hc)
  · split at hc
    · cases hc
    · exact h c f hc

omit [DecidableEq φ] in
theorem memberOf_plain (q : List Text) (segment : Text) :
    memberOf rt (none, q) segment = rt.member none segment := by
  unfold memberOf
  split
  · rfl
  · rfl

omit [DecidableEq φ] in
theorem below_child (current : Place φ) (segment : Text) :
    Below current (child current segment) :=
  below_child_iff.mpr ⟨rfl, List.prefix_refl _⟩

omit [DecidableEq φ] in
theorem not_below_self (place : Place φ) : ¬ Below place place := fun h => h.2.2 rfl

omit [DecidableEq φ] in
theorem below_of_child {current c : Place φ} {segment : Text}
    (h : Below (child current segment) c) : Below current c := by
  refine ⟨h.1, (List.prefix_append _ _).trans h.2.1, ?_⟩
  rintro rfl
  have hlen := h.2.1.length_le
  rw [show (child c segment).2 = c.2 ++ [segment] from rfl, List.length_append] at hlen
  exact Nat.not_succ_le_self _ hlen

/-- A round that is not the last leaves an object and goes on in it. -/
theorem setValue_cons_plain {value : Prim ν} {heap heap' : Heap φ ν} {q : List Text}
    {segment next : Text} {rest : List Text} (habsent : rt.member none segment = .absent)
    (hheap : NoFunction heap)
    (h : setValue rt value heap (none, q) (segment :: next :: rest) = .ok heap') :
    ∃ heap₁, NoFunction heap₁ ∧ heap₁ (child (none, q) segment) = some .object ∧
      (∀ c, ¬ Below (none, q) c → heap₁ c = heap c) ∧
      setValue rt value heap₁ (child (none, q) segment) (next :: rest) = .ok heap' := by
  have hput : NoFunction (put heap (child (none, q) segment) .object) ∧
      put heap (child (none, q) segment) .object (child (none, q) segment) = some .object ∧
      ∀ c, ¬ Below (none, q) c → put heap (child (none, q) segment) .object c = heap c := by
    refine ⟨hheap.put (fun _ hf => by cases hf), put_self _ _ _, fun c hc => ?_⟩
    refine put_of_not heap _ ?_ fun hbelow => hc (below_of_child hbelow)
    rintro rfl
    exact hc (below_child _ _)
  rw [setValue] at h
  cases hcell : heap (child (none, q) segment) with
  | none =>
      simp only [hcell, memberOf_plain, habsent] at h
      exact ⟨_, hput.1, hput.2.1, hput.2.2, h⟩
  | some slot =>
      cases slot with
      | prim v =>
          simp only [hcell] at h
          split at h
          · cases h
          · exact ⟨_, hput.1, hput.2.1, hput.2.2, h⟩
      | object =>
          simp only [hcell] at h
          exact ⟨heap, hheap, hcell, fun _ _ => rfl, h⟩
      | function f => exact absurd hcell (hheap _ f)

/-- What a variable with a plain path writes is found there, and above it nothing changes. -/
theorem setValue_plain {value : Prim ν} {p q : List Text} {heap heap' : Heap φ ν}
    (hp : p ≠ []) (hplain : Plain rt p) (hheap : NoFunction heap)
    (h : setValue rt value heap (none, q) p = .ok heap') :
    NoFunction heap' ∧ (∀ c, ¬ Below (none, q) c → heap' c = heap c) ∧
      found heap' (none, q) p = some (.prim value) := by
  induction p generalizing q heap with
  | nil => exact absurd rfl hp
  | cons segment rest ih =>
      cases rest with
      | nil =>
          rw [setValue] at h
          split at h
          · cases h
          · cases h
            refine ⟨hheap.put (fun _ hf => by cases hf), fun c hc => ?_, put_self _ _ _⟩
            refine put_of_not heap _ ?_ fun hbelow => hc (below_of_child hbelow)
            rintro rfl
            exact hc (below_child _ _)
      | cons next rest =>
          have habsent := hplain segment List.mem_cons_self
          obtain ⟨heap₁, hheap₁, hcell, hframe₁, h⟩ := setValue_cons_plain habsent hheap h
          have hplain' : Plain rt (next :: rest) :=
            fun s hs => hplain s (List.mem_cons_of_mem _ hs)
          obtain ⟨hheap', hframe, hfound⟩ := ih (List.cons_ne_nil _ _) hplain' hheap₁ h
          refine ⟨hheap', fun c hc => ?_, ?_⟩
          · rw [← hframe₁ c hc]
            exact hframe c fun hbelow => hc (below_of_child hbelow)
          · have hcell' : heap' (child (none, q) segment) = some .object :=
              (hframe _ (not_below_self _)).trans hcell
            rw [found, hcell']
            exact hfound

theorem addEntry_plain {entry : Entry ν} {heap heap' : Heap φ ν}
    (hplain : ∀ p, path rt (entry.1.drop keyPrefix.length) = .ok p → Plain rt p)
    (hheap : NoFunction heap) (h : addEntry rt keyPrefix heap entry = .ok heap') :
    NoFunction heap' ∧ ∃ p, path rt (entry.1.drop keyPrefix.length) = .ok p ∧
      objectOf heap' p = some (.prim (prepared rt entry.2)) := by
  obtain ⟨p, hp, hset⟩ := Fallible.bind_eq_ok.mp h
  obtain ⟨hheap', _, hfound⟩ := setValue_plain (path_ne_nil rt hp) (hplain p hp) hheap hset
  exact ⟨hheap', p, hp, hfound⟩

/-- **Every variable is found**, since it could have come last. -/
theorem WellDefined.found (h : WellDefined rt keyPrefix processEnv)
    (hplain : ∀ entry ∈ settings keyPrefix processEnv, ∀ p,
      path rt (entry.1.drop keyPrefix.length) = .ok p → Plain rt p) :
    ∃ output, getEnvironmentObject rt keyPrefix processEnv = .ok output ∧
      ∀ entry ∈ settings keyPrefix processEnv, ∃ p,
        path rt (entry.1.drop keyPrefix.length) = .ok p ∧
          objectOf output p = some (.prim (prepared rt entry.2)) := by
  obtain ⟨output, houtput⟩ := h.total processEnv (List.Perm.refl _)
  refine ⟨output, houtput, fun entry hentry => ?_⟩
  obtain ⟨hmem, hkey⟩ := List.mem_filter.mp hentry
  obtain ⟨before, after, rfl⟩ := List.append_of_mem hmem
  have horder : ((before ++ after) ++ [entry]).Perm (before ++ entry :: after) := by
    rw [List.append_assoc]
    exact (List.perm_append_singleton entry after).append_left before
  obtain ⟨last, hlast⟩ := h.total _ horder
  have hsettings : settings keyPrefix ((before ++ after) ++ [entry]) =
      settings keyPrefix (before ++ after) ++ [entry] := by
    have hlast : [entry].filter (fun e => keyPrefix.isPrefixOf e.1) = [entry] :=
      List.filter_eq_self.mpr fun e he => List.mem_singleton.mp he ▸ hkey
    rw [settings, List.filter_append, hlast]
    rfl
  have hrun := hlast
  rw [getEnvironmentObject, hsettings, List.foldlM_append] at hrun
  obtain ⟨heap, hheap, hstep⟩ := Fallible.bind_eq_ok.mp hrun
  rw [List.foldlM_cons] at hstep
  obtain ⟨heap', hadd, hnil⟩ := Fallible.bind_eq_ok.mp hstep
  cases hnil
  have hplainHeap : NoFunction heap := by
    refine Fallible.foldlM_preserves (I := NoFunction) ?_ (fun _ _ h => by cases h) hheap
    intro x hx s s' hs hs'
    have hx' : x ∈ settings keyPrefix (before ++ entry :: after) := by
      refine (settings_perm horder).mem_iff.mp ?_
      rw [hsettings]
      exact List.mem_append_left _ hx
    exact (addEntry_plain (hplain x hx') hs hs').1
  obtain ⟨_, p, hp, hfound⟩ := addEntry_plain (hplain entry hentry) hplainHeap hadd
  exact ⟨p, hp, h.unordered _ horder _ _ hlast houtput ▸ hfound⟩

/-- The way of a plain path stays in the result. -/
theorem route_plain {p q : List Text} (hp : p ≠ []) (hplain : Plain rt p)
    (hclean : ∀ s ∈ p, UNDERSCORE ∉ s) :
    ∃ visited, route rt (none, q) p = some (visited, (none, q ++ p)) ∧
      ∀ c ∈ visited, ∃ a b, b ≠ [] ∧ p = a ++ b ∧ c = (none, q ++ a) := by
  induction p generalizing q with
  | nil => exact absurd rfl hp
  | cons segment rest ih =>
      cases rest with
      | nil =>
          refine ⟨[], ?_, fun c hc => by cases hc⟩
          rw [route, memberOf_plain,
            if_neg (rt.plain_unlocked segment (hclean segment List.mem_cons_self))]
          rfl
      | cons next rest =>
          have habsent := hplain segment List.mem_cons_self
          obtain ⟨visited, hroute, hvisited⟩ := @ih (q ++ [segment]) (List.cons_ne_nil _ _)
            (fun s hs => hplain s (List.mem_cons_of_mem _ hs))
            fun s hs => hclean s (List.mem_cons_of_mem _ hs)
          have hobject : nextObject rt (none, q) segment = some (none, q ++ [segment]) := by
            rw [nextObject, memberOf_plain, habsent]
            rfl
          refine ⟨(none, q ++ [segment]) :: visited, ?_, ?_⟩
          · rw [route, hobject, Option.bind_some, hroute, List.append_assoc]
            rfl
          · intro c hc
            rcases List.mem_cons.mp hc with rfl | hc
            · exact ⟨[segment], next :: rest, List.cons_ne_nil _ _, rfl, rfl⟩
            · obtain ⟨a, b, hb, hab, rfl⟩ := hvisited c hc
              exact ⟨segment :: a, b, hb, by rw [hab]; rfl, by rw [List.append_assoc]; rfl⟩

omit [DecidableEq φ] in
/-- Below a value nothing is found. -/
theorem found_append {heap : Heap φ ν} {a b : List Text} {v : Prim ν} {current : Place φ}
    (h : found heap current a = some (.prim v)) (hb : b ≠ []) :
    found heap current (a ++ b) = none := by
  induction a generalizing current with
  | nil => cases h
  | cons segment rest ih =>
      cases rest with
      | nil =>
          obtain ⟨next, more, rfl⟩ := List.exists_cons_of_ne_nil hb
          have hcell : heap (child current segment) = some (.prim v) := h
          show found heap current (segment :: next :: more) = none
          rw [found, hcell]
      | cons next rest =>
          show found heap current (segment :: next :: (rest ++ b)) = none
          rw [found] at h ⊢
          cases hcell : heap (child current segment) with
          | none => rfl
          | some slot =>
              rw [hcell] at h
              cases slot with
              | prim v' => rfl
              | object => exact ih h
              | function f => exact ih h

/-- **One configuration is built from compatible variables.** -/
theorem compatible_of_wellDefined (h : WellDefined rt keyPrefix processEnv)
    (hplain : ∀ entry ∈ settings keyPrefix processEnv, ∀ p,
      path rt (entry.1.drop keyPrefix.length) = .ok p → Plain rt p) :
    Compatible rt keyPrefix processEnv := by
  obtain ⟨output, _, hfound⟩ := h.found hplain
  have hway : ∀ w ∈ ways rt keyPrefix processEnv,
      w.target = (none, w.path) ∧ objectOf output w.path = some (.prim w.value) ∧
        ∀ c ∈ w.visited, ∃ a b, b ≠ [] ∧ w.path = a ++ b ∧ c = (none, a) := by
    intro w hw
    obtain ⟨entry, hentry, hway⟩ := mem_ways.mp hw
    obtain ⟨hpath, hroute, hvalue⟩ := wayOf_eq_some hway
    obtain ⟨p, hp, hp'⟩ := hfound entry hentry
    cases hpath.symm.trans hp
    obtain ⟨visited, hroute', hvisited⟩ := @route_plain φ ν _ rt w.path [] (path_ne_nil rt hpath)
      (hplain entry hentry _ hpath) (path_clean rt hpath)
    obtain ⟨rfl, htarget⟩ := Prod.mk.inj (Option.some.inj (hroute.symm.trans hroute'))
    exact ⟨htarget, hvalue ▸ hp', hvisited⟩
  refine ⟨?_, ?_, ?_, ?_⟩
  · intro entry hentry
    obtain ⟨p, hp, _⟩ := hfound entry hentry
    exact (path_isOk_iff rt _).mp ⟨p, hp⟩
  · intro entry hentry p hp
    obtain ⟨visited, hroute, _⟩ := @route_plain φ ν _ rt p [] (path_ne_nil rt hp)
      (hplain entry hentry p hp) (path_clean rt hp)
    exact Option.isSome_iff_exists.mpr ⟨_, hroute⟩
  · intro w hw w' hw' hmem
    obtain ⟨htarget, hvalue, _⟩ := hway w hw
    obtain ⟨_, hvalue', hvisited⟩ := hway w' hw'
    obtain ⟨a, b, hb, hab, hc⟩ := hvisited _ hmem
    rw [htarget] at hc
    rw [hab, ← (Prod.mk.inj hc).2, objectOf, found_append hvalue hb] at hvalue'
    cases hvalue'
  · intro w hw w' hw' heq
    obtain ⟨htarget, hvalue, _⟩ := hway w hw
    obtain ⟨htarget', hvalue', _⟩ := hway w' hw'
    rw [htarget, htarget'] at heq
    rw [(Prod.mk.inj heq).2, hvalue'] at hvalue
    exact (Slot.prim.inj (Option.some.inj hvalue)).symm

end Runs

/-- **Environment variables.** Compatible variables build one configuration.  Where no name
    goes through a member that every object has, others do not. -/
theorem environment_wellDefined (rt : Runtime φ ν) (keyPrefix : Text)
    (processEnv : List (Entry ν)) :
    (Compatible rt keyPrefix processEnv → WellDefined rt keyPrefix processEnv) ∧
      ((∀ entry ∈ settings keyPrefix processEnv, ∀ p,
          path rt (entry.1.drop keyPrefix.length) = .ok p → Plain rt p) →
        WellDefined rt keyPrefix processEnv → Compatible rt keyPrefix processEnv) :=
  ⟨wellDefined_of_compatible, fun hplain h => compatible_of_wellDefined h hplain⟩

/-! ## Names in ASCII -/

/-- What `Object.prototype` has. -/
def objectMembers : List Text :=
  ["constructor", "hasOwnProperty", "isPrototypeOf", "propertyIsEnumerable", "toLocaleString",
    "toString", "valueOf"].map JsText.utf16

def isDigit (u : Nat) : Bool := 48 ≤ u && u ≤ 57

/-- The runtime as it is for ASCII names and whole numbers; `none` is `NaN`. -/
def asciiRuntime : Runtime Text (Option Nat) where
  toLowerCase t := t.map fun u => if 65 ≤ u ∧ u ≤ 90 then u + 32 else u
  toUpperCase t := t.map fun u => if 97 ≤ u ∧ u ≤ 122 then u - 32 else u
  numberOfText t := if t.all isDigit then some (t.foldl (fun n u => 10 * n + (u - 48)) 0) else none
  numberOfBool b := some b.toNat
  isNaN n := n.isNone
  isZero n := n = some 0
  member f t :=
    if f.isNone then if t ∈ objectMembers then .function t else .absent
    else if t ∈ ["name", "length", "prototype"].map JsText.utf16 then .locked else .absent
  lower_clean t ht hmem := by
    obtain ⟨u, hu, heq⟩ := List.mem_map.mp hmem
    have hne : u ≠ UNDERSCORE := fun h => ht (h ▸ hu)
    simp only [UNDERSCORE] at heq hne
    split at heq
    · omega
    · exact hne heq
  upper_clean t ht hmem := by
    obtain ⟨u, hu, heq⟩ := List.mem_map.mp hmem
    have hne : u ≠ UNDERSCORE := fun h => ht (h ▸ hu)
    simp only [UNDERSCORE] at heq hne
    split at heq
    · omega
    · exact hne heq
  plain_unlocked t _ := by
    show (if t ∈ objectMembers then Member.function t else .absent) ≠ .locked
    split
    · exact fun h => by cases h
    · exact fun h => by cases h

/-- A variable with a text. -/
def textEntry (name value : String) : Entry (Option Nat) :=
  (JsText.utf16 name, .text (JsText.utf16 value))

def NSC : Text := JsText.utf16 "NSC__"

/-- Two settings of one object. -/
def smtpEntries : List (Entry (Option Nat)) :=
  [textEntry "NSC__EMAIL__SMTP_HOST" "localhost", textEntry "NSC__EMAIL__PORT" "25"]

/-- A setting, and one below it. -/
def nestedEntries : List (Entry (Option Nat)) := [textEntry "NSC__A" "1", textEntry "NSC__A__B" "2"]

/-- The first are compatible, the second are not. -/
theorem environment_smtp :
    WellDefined asciiRuntime NSC smtpEntries ∧ ¬ WellDefined asciiRuntime NSC nestedEntries := by
  have hways : ∀ entry ∈ settings NSC smtpEntries,
      (wayOf asciiRuntime NSC entry).isSome = true := by decide +kernel
  have hplain : ∀ entry ∈ settings NSC nestedEntries,
      (path asciiRuntime (entry.1.drop NSC.length)).toOption.all (fun p =>
        p.dropLast.all fun s => asciiRuntime.member none s = .absent) = true := by decide +kernel
  constructor
  · refine (environment_wellDefined asciiRuntime NSC smtpEntries).1
      ⟨by decide +kernel, ?_, by decide +kernel, by decide +kernel⟩
    intro entry hentry p hp
    exact route_isSome_of_wayOf (hways entry hentry) hp
  · intro h
    have hcompatible := (environment_wellDefined asciiRuntime NSC nestedEntries).2
      (by
        intro entry hentry p hp s hs
        have hall := hplain entry hentry
        rw [hp] at hall
        exact of_decide_eq_true (List.all_eq_true.mp hall s hs)) h
    have hmeet : ∃ w ∈ ways asciiRuntime NSC nestedEntries,
        ∃ w' ∈ ways asciiRuntime NSC nestedEntries, w.target ∈ w'.visited := by decide +kernel
    obtain ⟨w, hw, w', hw', hmem⟩ := hmeet
    exact hcompatible.apart w hw w' hw' hmem

/-- A name that ends with an underscore, or a setting below another, stops the loop. -/
theorem environment_stops :
    ¬ WellDefined asciiRuntime NSC [textEntry "NSC__FOO_" "x"] ∧
      ¬ WellDefined asciiRuntime NSC [textEntry "NSC__A" "1", textEntry "NSC__A__B" "2"] := by
  constructor
  · intro h
    obtain ⟨output, houtput⟩ := h.total _ (List.Perm.refl _)
    have hstop : getEnvironmentObject asciiRuntime NSC [textEntry "NSC__FOO_" "x"] =
        .error .noCharacter := rfl
    rw [hstop] at houtput
    cases houtput
  · intro h
    obtain ⟨output, houtput⟩ := h.total _ (List.Perm.refl _)
    have hstop : getEnvironmentObject asciiRuntime NSC
        [textEntry "NSC__A" "1", textEntry "NSC__A__B" "2"] = .error .noProperty := rfl
    rw [hstop] at houtput
    cases houtput

end EnvironmentObject
