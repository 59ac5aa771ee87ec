import NestServer.RestrictedCheck

/-! # Payloads that name their own class

    Where the metadata of an object lives is read off the object itself: a truthy
    own key `constructor` takes the place of the declared type.  The reference is
    the same walk with that key not looked at (`declaredConstructor`), so that
    declared types alone decide.  `restrictionsHold_iff` says which JSON values
    cannot keep a key the reference takes away: exactly those in which no object
    has a truthy key `constructor`.

    One direction is a congruence of the walk (`check_congr`).  The other runs
    both walks under `probe`, a declared type that hides the key `constructor`
    everywhere. -/

open RoleEnum JsTree

namespace Restricted

/-- Own constructors as the declared types would have them: nothing a payload says
    can name a class. -/
def declaredConstructor (fields : Object) : Option OwnConstructor :=
  match ownConstructor fields with
  | some .falsy => some .falsy
  | _           => none

/-- The object does not name its own class. -/
def NamesNoClass (fields : Object) : Prop :=
  ∀ c, fields.lookup "constructor" = some c → c.truthy = false

theorem ownConstructor_of_namesNoClass {fields : Object} (h : NamesNoClass fields) :
    ownConstructor fields = declaredConstructor fields := by
  rw [declaredConstructor, ownConstructor]
  cases hc : fields.lookup "constructor" with
  | none => rfl
  | some c =>
      have hfalsy := h c hc
      cases c with
      | prim p =>
          rw [JsTree.truthy] at hfalsy
          simp only [Option.map_some, hfalsy, Bool.false_eq_true, ↓reduceIte]
      | _ => exact Bool.noConfusion hfalsy

/-- An object that names its class either hides the declared one, or makes the
    metadata lookup throw. -/
theorem ownConstructor_of_namesClass {fields : Object} (h : ¬ NamesNoClass fields) :
    ownConstructor fields = some .value ∨ ownConstructor fields = some .primitive := by
  simp only [NamesNoClass, not_forall] at h
  obtain ⟨c, hc, htruthy⟩ := h
  rw [ownConstructor, hc, Option.map_some]
  cases c with
  | prim p =>
      have hp : p.truthy = true := Bool.not_eq_false _ ▸ htruthy
      exact .inr (by dsimp only; rw [if_pos hp])
  | oid hex => exact .inl rfl
  | arr items => exact .inl rfl
  | obj proto inner =>
      dsimp only
      split
      · split
        · exact .inr rfl
        · exact .inl rfl
      · exact .inl rfl

theorem declaredConstructor_ne_primitive (fields : Object) :
    declaredConstructor fields = some .falsy ∨ declaredConstructor fields = none := by
  rw [declaredConstructor]
  split
  · exact .inl rfl
  · exact .inr rfl

/-! ## The walk depends on own constructors only through what it reads -/

section Congruence

variable {own own' : Object → Option OwnConstructor} {a : Access}

theorem checkFields_congr (m : Metadata) :
    ∀ (rest : Object), (∀ e ∈ rest, ∀ f d, check own a f e.2 d = check own' a f e.2 d) →
      ∀ (done : Object) (flag : Bool),
        checkFields own a m flag done rest = checkFields own' a m flag done rest := by
  intro rest
  induction rest with
  | nil => intro _ done flag; rfl
  | cons e rest ih =>
      obtain ⟨key, v⟩ := e
      intro h done flag
      have hrest := ih fun e he => h e (List.mem_cons_of_mem _ he)
      rw [checkFields, checkFields]
      dsimp only
      rw [h (key, v) List.mem_cons_self]
      simp only [hrest]

theorem checkItems_congr {declared : Class} {flag : Bool} :
    ∀ {items : List Value},
      (∀ t ∈ items, check own a flag t declared = check own' a flag t declared) →
        checkItems own a flag items declared = checkItems own' a flag items declared := by
  intro items
  induction items with
  | nil => intro _; rfl
  | cons item rest ih =>
      intro h
      rw [checkItems, checkItems, h item List.mem_cons_self,
        ih fun t ht => h t (List.mem_cons_of_mem _ ht)]

/-- **Congruence of the walk.** Two readings of own constructors that agree on
    every object of a value give it the same result. -/
theorem check_congr {v : Value} (h : ForObjects (fun fields => own fields = own' fields) v) :
    ∀ (flag : Bool) (declared : Class),
      check own a flag v declared = check own' a flag v declared := by
  induction v using JsTree.induction with
  | prim p  => intro flag declared; rfl
  | oid hex => intro flag declared; rfl
  | obj proto fields ih =>
      intro flag declared
      obtain ⟨hown, hfields⟩ : own fields = own' fields
          ∧ ∀ e ∈ fields, ForObjects (fun fields => own fields = own' fields) e.2 := by
        cases h with
        | obj hown hfields => exact ⟨hown, hfields⟩
      have hloop := fun m => checkFields_congr m fields fun e he => ih e he (hfields e he)
      rw [check, check, hown]
      simp only [hloop]
  | arr items ih =>
      intro flag declared
      have hitems : ∀ t ∈ items, ForObjects (fun fields => own fields = own' fields) t := by
        cases h with
        | arr hitems => exact hitems
      cases items with
      | nil => rfl
      | cons sample rest =>
          have hsample := hitems sample List.mem_cons_self
          have hdecides : sampleDecides own sample declared
              = sampleDecides own' sample declared := by
            cases hsample with
            | obj hown _ => rw [sampleDecides, sampleDecides, hown]
            | _ => rfl
          rw [check, check, hdecides, ih sample List.mem_cons_self hsample,
            checkItems_congr fun t ht => ih t (List.mem_cons_of_mem _ ht)
              (hitems t (List.mem_cons_of_mem _ ht)) flag declared]

end Congruence

/-! ## The reference always answers -/

section Reference

variable {a : Access}

/-- On output, a walk whose metadata lookups never throw returns. -/
theorem check_returns (own : Object → Option OwnConstructor)
    (hout : a.config.throwsError = false) (hown : ∀ fields, own fields ≠ some .primitive)
    (v : Value) :
    ∀ (flag : Bool) (declared : Class), ∃ r, check own a flag v declared = .ok r := by
  induction v using JsTree.induction with
  | prim p  => exact fun flag declared => ⟨_, rfl⟩
  | oid hex => exact fun flag declared => ⟨_, rfl⟩
  | obj proto fields ih =>
      intro flag declared
      obtain ⟨m, hm⟩ : ∃ m, metadataOf (own fields) proto declared = .ok m := by
        cases hc : own fields with
        | none => exact ⟨_, rfl⟩
        | some c =>
            cases c with
            | primitive => exact absurd hc (hown fields)
            | _ => exact ⟨_, rfl⟩
      obtain ⟨fields', hfields'⟩ := checkFields_returns (m := m) (.inl hout) fields
        (fun e he f => ih e he f _) [] flag
      rw [check, hm]
      dsimp only
      split
      · rw [if_neg (by rw [hout]; exact Bool.false_ne_true)]
        exact ⟨_, rfl⟩
      · rw [hfields']
        exact ⟨_, rfl⟩
  | arr items ih =>
      intro flag declared
      cases items with
      | nil => exact ⟨_, rfl⟩
      | cons sample rest =>
          obtain ⟨decides, hdecides⟩ : ∃ d, sampleDecides own sample declared = .ok d := by
            cases sample with
            | obj proto fields =>
                rw [sampleDecides]
                split
                · exact absurd ‹_› (hown fields)
                · exact ⟨_, rfl⟩
                · exact ⟨_, rfl⟩
            | _ => exact ⟨_, rfl⟩
          obtain ⟨result, hresult⟩ := ih sample List.mem_cons_self flag declared
          obtain ⟨results, hresults⟩ := checkItems_returns rest
            fun t ht => ih t (List.mem_cons_of_mem _ ht) flag declared
          rw [check, hdecides, hresult]
          dsimp only
          split
          · rw [if_neg (by rw [hout]; exact Bool.false_ne_true)]
            split
            · exact ⟨_, rfl⟩
            · exact ⟨_, rfl⟩
          · rw [hresults]
            exact ⟨_, rfl⟩

end Reference

/-! ## Paths -/

inductive Step where
  | key (name : String)
  | index (i : Nat)
deriving DecidableEq, Repr

/-- There is something at the path. -/
def HasPath : List Step → Value → Prop
  | [], _                           => True
  | .key name :: path, .obj _ fields => ∃ v, (name, v) ∈ fields ∧ HasPath path v
  | .index i :: path, .arr items    => ∃ v, items[i]? = some v ∧ HasPath path v
  | _ :: _, _                       => False

/-- The key occurs somewhere in the value. -/
def Shows (name : String) (v : Value) : Prop := ∃ path, HasPath (path ++ [.key name]) v

theorem Shows.of_mem {name : String} {proto : Class} {fields : Object} {v : Value}
    (h : (name, v) ∈ fields) : Shows name (.obj proto fields) :=
  ⟨[], v, h, trivial⟩

theorem Shows.obj {name key : String} {proto : Class} {fields : Object} {v : Value}
    (hmem : (key, v) ∈ fields) (h : Shows name v) : Shows name (.obj proto fields) := by
  obtain ⟨path, hpath⟩ := h
  exact ⟨.key key :: path, v, hmem, hpath⟩

theorem Shows.arr {name : String} {items : List Value} {v : Value}
    (hmem : v ∈ items) (h : Shows name v) : Shows name (.arr items) := by
  obtain ⟨path, hpath⟩ := h
  obtain ⟨i, hi⟩ := List.mem_iff_getElem?.mp hmem
  exact ⟨.index i :: path, v, hi, hpath⟩

/-- What shows a key is an object or an array. -/
theorem Shows.not_undefined {name : String} {v : Value} (h : Shows name v) :
    v.isUndefined = false := by
  obtain ⟨path, hpath⟩ := h
  cases v with
  | prim p =>
      cases path with
      | nil => exact hpath.elim
      | cons s path => cases s <;> exact hpath.elim
  | _ => rfl

/-- Where no object has the key, it does not show. -/
theorem not_shows {name : String} {v : Value}
    (h : ForObjects (fun fields => name ∉ keys fields) v) : ¬ Shows name v := by
  rintro ⟨path, hpath⟩
  induction path generalizing v with
  | nil =>
      cases h with
      | obj hkeys _ =>
          obtain ⟨w, hw, -⟩ := hpath
          exact hkeys (List.mem_map.mpr ⟨_, hw, rfl⟩)
      | _ => exact hpath.elim
  | cons s path ih =>
      cases h with
      | obj _ hfields =>
          cases s with
          | key k =>
              obtain ⟨w, hw, hpath⟩ := hpath
              exact ih (hfields _ hw) hpath
          | index i => exact hpath.elim
      | arr hitems =>
          cases s with
          | key k => exact hpath.elim
          | index i =>
              obtain ⟨w, hw, hpath⟩ := hpath
              exact ih (hitems _ (List.mem_of_getElem? hw)) hpath
      | _ => cases s <;> exact hpath.elim

/-! ## The claim -/

/-- Under every declared class, for every user and every output configuration, the
    check returns, and whatever key is left at whatever depth is left by the walk
    in which declared types alone decide. -/
def RestrictionsHold (v : Value) : Prop :=
  ∀ (a : Access) (isCreatorOfParent : Bool) (D : Class), D ≠ [] → a.config.throwsError = false →
    ∃ r r₀, checkRestricted a isCreatorOfParent v D = .ok r
      ∧ check declaredConstructor a isCreatorOfParent v D = .ok r₀
      ∧ ∀ path, HasPath path r → HasPath path r₀

/-- Declared types that hide the key `constructor`, and nothing else. -/
def Hiding : ClassDecl where
  name       := "Hiding"
  properties := [("constructor", [.role S_NO_ONE.value])]

/-- A request in which every property declares `Hiding`. -/
def probe : Access where
  registry   := fun _ => some [Hiding]
  vocabulary := { multiTenancy := none }
  user       := none
  config     := { throwsError := false }

namespace probe

theorem hides (o : Ownership) (flag : Bool) :
    probe.admits (probe.restrictionsOf ⟨[Hiding], [Hiding]⟩ "constructor") o flag = false := rfl

theorem shows {key : String} (hkey : key ≠ "constructor") (o : Ownership) (flag : Bool) :
    probe.admits (probe.restrictionsOf ⟨[Hiding], [Hiding]⟩ key) o flag = true := by
  have hnone : probe.restrictionsOf ⟨[Hiding], [Hiding]⟩ key = [] := by
    have hlookup : ([("constructor", [.role S_NO_ONE.value])] :
        List (String × RestrictedType)).lookup key = none := by
      rw [List.lookup_cons, beq_eq_false_iff_ne.mpr hkey]
      rfl
    simp [Access.restrictionsOf, Metadata.propertyRestricted, classRestrictions,
      propertyRestrictions, Hiding, hlookup]
  rw [hnone]
  rfl

theorem shows_undeclared (key : String) (o : Ownership) (flag : Bool) :
    probe.admits (probe.restrictionsOf ⟨[], []⟩ key) o flag = true := by
  have hnone : probe.restrictionsOf ⟨[], []⟩ key = [] := by
    simp [Access.restrictionsOf, Metadata.propertyRestricted, classRestrictions,
      propertyRestrictions]
  rw [hnone]
  rfl

theorem metadataOf_declared (fields : Object) :
    metadataOf (declaredConstructor fields) [] [Hiding] = .ok ⟨[Hiding], [Hiding]⟩ := by
  rcases declaredConstructor_ne_primitive fields with hc | hc
  · rw [hc]
    rfl
  · rw [hc]
    rfl

/-- The reference takes `constructor` away everywhere. -/
theorem reference_hides {v : Value} (hv : IsJson v) :
    ∀ (flag : Bool) (r : Value), check declaredConstructor probe flag v [Hiding] = .ok r →
      ForObjects (fun fields => "constructor" ∉ keys fields) r := by
  induction v using JsTree.induction with
  | prim p =>
      intro flag r h
      exact Except.ok.inj h ▸ .prim p
  | oid hex =>
      intro flag r h
      exact Except.ok.inj h ▸ .oid hex
  | obj proto fields ih =>
      intro flag r h
      cases hv with
      | obj _ hfields =>
        obtain ⟨fields', hloop, rfl⟩ := check_obj_ok rfl (metadataOf_declared fields) h
        -- what is left was admitted and checked
        have hleft : ∀ {key : String} {v' : Value}, (key, v') ∈ fields' →
            key ≠ "constructor" ∧ ForObjects (fun fields => "constructor" ∉ keys fields) v' := by
          intro key v' hmem
          rcases mem_checkFields hloop hmem with hdone | ⟨v, hv, ⟨hs, -⟩ | ⟨o, f, f', ha, hc⟩⟩
          · cases hdone
          · rw [skips_json (hfields _ hv)] at hs
            cases hs
          · refine ⟨?_, ih _ hv (hfields _ hv) f' v' hc⟩
            rintro rfl
            rw [hides] at ha
            cases ha
        refine .obj ?_ fun e he => (hleft he).2
        intro hkey
        obtain ⟨e, he, hname⟩ := List.mem_map.mp hkey
        exact (hleft he).1 hname
  | arr items ih =>
      intro flag r h
      cases hv with
      | arr hitems =>
        cases items with
        | nil => exact Except.ok.inj h ▸ .arr fun t ht => by cases ht
        | cons sample rest =>
            rcases check_arr_ok h with hd | ⟨results, hresults, rfl⟩
            · exact absurd hd (not_sampleDecides (hitems sample List.mem_cons_self) rfl)
            · refine .arr fun r' hr' => ?_
              obtain ⟨t, ht, hc⟩ := mem_results hresults (List.mem_of_mem_filter hr')
              exact ih t ht (hitems t ht) flag r' hc

/-- The source's walk leaves `constructor` wherever it names a class. -/
theorem source_shows {v : Value} (hv : IsJson v) :
    ∀ (flag : Bool) (r : Value), ¬ ForObjects NamesNoClass v →
      check ownConstructor probe flag v [Hiding] = .ok r → Shows "constructor" r := by
  induction v using JsTree.induction with
  | prim p => exact fun flag r hnot _ => absurd (.prim p) hnot
  | oid hex => exact fun flag r hnot _ => absurd (.oid hex) hnot
  | obj proto fields ih =>
      intro flag r hnot h
      cases hv with
      | obj hnodup hfields =>
        by_cases hnames : NamesNoClass fields
        · -- the declared type governs, and the offender is further down
          have hm : metadataOf (ownConstructor fields) [] [Hiding]
              = .ok ⟨[Hiding], [Hiding]⟩ := by
            rw [ownConstructor_of_namesNoClass hnames]
            exact metadataOf_declared fields
          obtain ⟨fields', hloop, rfl⟩ := check_obj_ok rfl hm h
          obtain ⟨⟨key, w⟩, hmem, hw⟩ : ∃ e ∈ fields, ¬ ForObjects NamesNoClass e.2 := by
            by_contra hall
            simp only [not_exists, not_and, not_not] at hall
            exact hnot (.obj hnames hall)
          have hkey : key ≠ "constructor" := by
            rintro rfl
            have hfalsy := hnames w (lookup_of_mem hnodup hmem)
            cases w with
            | prim p => exact hw (.prim p)
            | _ => exact Bool.noConfusion hfalsy
          obtain ⟨f, w', hmem', hc⟩ :=
            checkFields_keeps (skips_json (hfields _ hmem)) (shows hkey) hmem hloop
          exact (ih _ hmem (hfields _ hmem) f w' hw hc).obj hmem'
        · rcases ownConstructor_of_namesClass hnames with hc | hc
          · -- nothing is declared any more, so the key itself stays
            have hm : metadataOf (ownConstructor fields) [] [Hiding] = .ok ⟨[], []⟩ := by
              rw [hc]
              rfl
            obtain ⟨fields', hloop, rfl⟩ := check_obj_ok rfl hm h
            simp only [NamesNoClass, not_forall] at hnames
            obtain ⟨c, hlookup, -⟩ := hnames
            have hmem := mem_of_lookup hlookup
            obtain ⟨f, c', hmem', -⟩ := checkFields_keeps (skips_json (hfields _ hmem))
              (shows_undeclared "constructor") hmem hloop
            exact .of_mem hmem'
          · rw [check, hc] at h
            cases h
  | arr items ih =>
      intro flag r hnot h
      cases hv with
      | arr hitems =>
        cases items with
        | nil => exact absurd (.arr fun t ht => by cases ht) hnot
        | cons sample rest =>
            rcases check_arr_ok h with hd | ⟨results, hresults, rfl⟩
            · exact absurd hd (not_sampleDecides (hitems sample List.mem_cons_self) rfl)
            · obtain ⟨t, ht, hnott⟩ :
                  ∃ t ∈ sample :: rest, ¬ ForObjects NamesNoClass t := by
                by_contra hall
                simp only [not_exists, not_and, not_not] at hall
                exact hnot (.arr hall)
              obtain ⟨r', hr', hc⟩ := result_mem hresults ht
              have hshows := ih t ht (hitems t ht) flag r' hnott hc
              refine hshows.arr (List.mem_filter.mpr ⟨hr', ?_⟩)
              rw [hshows.not_undefined]
              rfl

end probe

/-- **Which payloads keep their restrictions.** -/
theorem restrictionsHold_iff {v : Value} (hv : IsJson v) :
    RestrictionsHold v ↔ ForObjects NamesNoClass v := by
  constructor
  · intro hold
    by_contra hnot
    obtain ⟨r, r₀, hr, hr₀, hwithin⟩ := hold probe false [Hiding] (List.cons_ne_nil _ _) rfl
    obtain ⟨path, hpath⟩ := probe.source_shows hv false r hnot hr
    exact not_shows (probe.reference_hides hv false r₀ hr₀) ⟨path, hwithin _ hpath⟩
  · intro hall a flag D _ hout
    have hown : ForObjects (fun fields => ownConstructor fields = declaredConstructor fields) v :=
      hall.mono fun fields => ownConstructor_of_namesNoClass
    obtain ⟨r, hr⟩ := check_returns declaredConstructor hout (fun fields h => by
      rcases declaredConstructor_ne_primitive fields with hc | hc
      · rw [hc] at h; cases h
      · rw [hc] at h; cases h) v flag D
    exact ⟨r, r, (check_congr hown flag D).trans hr, hr, fun _ h => h⟩

/-- A card without a key `constructor`. -/
theorem restrictionsHold_iff_card :
    RestrictionsHold (.obj [] [("number", .prim (.str "4111"))])
      ↔ ForObjects NamesNoClass (.obj [] [("number", .prim (.str "4111"))]) :=
  restrictionsHold_iff (.obj (by decide) fun e he => by
    rw [List.mem_singleton.mp he]
    exact .prim (fun h => by cases h))

/-- A payload with an object under `constructor` keeps its hidden number. -/
theorem constructor_key_keeps_hidden_field :
    ¬ ∀ v : Value, IsJson v → RestrictionsHold v := by
  intro h
  have hjson : IsJson (.obj [] [("constructor", .obj [] []), ("number", .prim (.str "4111"))]
      : Value) := by
    refine .obj (by decide) fun e he => ?_
    rcases List.mem_cons.mp he with rfl | he
    · exact .obj List.nodup_nil fun e he => by cases he
    · rw [List.mem_singleton.mp he]
      exact .prim fun h => by cases h
  obtain ⟨r, r₀, hr, hr₀, hwithin⟩ := h _ hjson
    { registry := fun _ => none, vocabulary := { multiTenancy := none }, user := none,
      config := { throwsError := false } } false
    [{ name := "Card", properties := [("number", [.role S_NO_ONE.value])] }]
    (List.cons_ne_nil _ _) rfl
  obtain rfl := Except.ok.inj hr
  obtain rfl := Except.ok.inj hr₀
  obtain ⟨w, hmem, -⟩ := hwithin [.key "number"]
    ⟨_, List.mem_cons_of_mem _ List.mem_cons_self, trivial⟩
  exact absurd (Prod.mk.inj (List.mem_singleton.mp hmem)).1 (by decide)

end Restricted
