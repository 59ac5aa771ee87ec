import NestServer.RestrictedCheck

/-! # Input ownership and the values of a payload

    On input, ownership comes from the persisted object, so the values a caller
    sends should not decide whether the check throws.  `decidedByDbObject_iff` says
    for which shapes of payload they do not: exactly those in which no object has a
    leaf under the key `constructor`.

    Two payloads of one shape are walked side by side (`check_agree`): the done
    keys differ, the decisions do not.  For the other direction a truthy leaf under
    `constructor` throws even where nothing is restricted. -/

open RoleEnum JsTree

namespace Restricted

/-! ## Payloads of one shape -/

mutual

/-- The same keys and the same nesting, whatever the leaves. -/
def SameShape : Value → Value → Prop
  | .prim _, q     => ∃ leaf, q = .prim leaf
  | .oid _, q      => ∃ hex, q = .oid hex
  | .obj _ fields, q => ∃ proto fields', q = .obj proto fields' ∧ SameFields fields fields'
  | .arr items, q  => ∃ items', q = .arr items' ∧ SameItems items items'

def SameFields : Object → Object → Prop
  | [], fields'             => fields' = []
  | (key, v) :: rest, fields' =>
      ∃ v' rest', fields' = (key, v') :: rest' ∧ SameShape v v' ∧ SameFields rest rest'

def SameItems : List Value → List Value → Prop
  | [], items'        => items' = []
  | item :: rest, items' =>
      ∃ item' rest', items' = item' :: rest' ∧ SameShape item item' ∧ SameItems rest rest'

end

/-- No leaf of the object stands under `constructor`. -/
def NoConstructorLeaf (fields : Object) : Prop :=
  ∀ leaf, fields.lookup "constructor" ≠ some (.prim leaf)

/-- Objects of one shape have the same kind of value under every key. -/
theorem SameFields.lookup (key : String) :
    ∀ {fields fields' : Object}, SameFields fields fields' →
      (fields.lookup key = none ∧ fields'.lookup key = none)
        ∨ ∃ v v', fields.lookup key = some v ∧ fields'.lookup key = some v' ∧ SameShape v v' := by
  intro fields
  induction fields with
  | nil =>
      intro fields' h
      rw [SameFields] at h
      exact .inl ⟨rfl, by rw [h]; rfl⟩
  | cons e rest ih =>
      obtain ⟨k, v⟩ := e
      intro fields' h
      rw [SameFields] at h
      obtain ⟨v', rest', rfl, hv, hrest⟩ := h
      rw [List.lookup_cons, List.lookup_cons]
      cases key == k with
      | true  => exact .inr ⟨v, v', rfl, rfl, hv⟩
      | false => exact ih hrest

/-- Without a leaf under `constructor`, the shape decides what an object says about
    its class. -/
theorem ownConstructor_of_sameFields {fields fields' : Object}
    (h : SameFields fields fields') (hleaf : NoConstructorLeaf fields)
    (hinner : ∀ e ∈ fields, ForObjects NoConstructorLeaf e.2) :
    ownConstructor fields = ownConstructor fields' := by
  rw [ownConstructor, ownConstructor]
  rcases h.lookup "constructor" with ⟨h₁, h₂⟩ | ⟨v, v', h₁, h₂, hv⟩
  · rw [h₁, h₂]
  · rw [h₁, h₂, Option.map_some, Option.map_some]
    have hobj := hinner _ (mem_of_lookup h₁)
    cases v with
    | prim leaf => exact absurd h₁ (hleaf leaf)
    | oid hex =>
        rw [SameShape] at hv
        obtain ⟨hex', rfl⟩ := hv
        rfl
    | arr items =>
        rw [SameShape] at hv
        obtain ⟨items', rfl, -⟩ := hv
        rfl
    | obj proto inner =>
        rw [SameShape] at hv
        obtain ⟨proto', inner', rfl, hsame⟩ := hv
        have hno : NoConstructorLeaf inner := by
          cases hobj with
          | obj hno _ => exact hno
        dsimp only
        rcases hsame.lookup "constructor" with ⟨h₃, h₄⟩ | ⟨w, w', h₃, h₄, hw⟩
        · rw [h₃, h₄]
        · rw [h₃, h₄]
          cases w with
          | prim leaf => exact absurd h₃ (hno leaf)
          | oid hex =>
              rw [SameShape] at hw
              obtain ⟨hex', rfl⟩ := hw
              rfl
          | obj _ _ =>
              rw [SameShape] at hw
              obtain ⟨_, _, rfl, -⟩ := hw
              rfl
          | arr items =>
              rw [SameShape] at hw
              obtain ⟨_, rfl, -⟩ := hw
              rfl

/-! ## Two runs side by side -/

section TwoRuns

variable {a : Access}

theorem isOk_iff {α : Type} {x : Except Failure α} : x.isOk = true ↔ ∃ r, x = .ok r := by
  cases x with
  | error e => exact iff_of_false Bool.false_ne_true (by rintro ⟨_, ⟨⟩⟩)
  | ok r    => exact iff_of_true rfl ⟨r, rfl⟩

theorem isOk_bind_congr {α β : Type} {x y : Except Failure α} {f g : α → Except Failure β}
    (h : x.isOk = y.isOk) (hfg : ∀ r s, (f r).isOk = (g s).isOk) :
    (x.bind f).isOk = (y.bind g).isOk := by
  cases x with
  | error e =>
      cases y with
      | error e' => rfl
      | ok s     => cases h
  | ok r =>
      cases y with
      | error e' => cases h
      | ok s     => exact hfg r s

/-- On input the ownership facts are the persisted object's, whatever the data. -/
theorem ownership_input (hin : a.config.processType = some .INPUT) (data data' : Object) :
    a.ownership data = a.ownership data' := by
  rw [Access.ownership, Access.ownership, if_pos hin, if_pos hin]

/-- **The side-by-side rule of the property loop.** If the values of the keys agree,
    so do the loops, whatever they have done before. -/
theorem checkFields_agree (hin : a.config.processType = some .INPUT)
    (hthrow : a.config.throwsError = true) (m : Metadata) :
    ∀ (rest rest' : Object), SameFields rest rest' →
      (∀ e ∈ rest, IsJson e.2) → (∀ e ∈ rest', IsJson e.2) →
      (∀ e ∈ rest, ∀ q f d, IsJson q → SameShape e.2 q →
        (checkRestricted a f e.2 d).isOk = (checkRestricted a f q d).isOk) →
      ∀ (done done' : Object) (flag : Bool),
        (checkFields ownConstructor a m flag done rest).isOk
          = (checkFields ownConstructor a m flag done' rest').isOk := by
  intro rest
  induction rest with
  | nil =>
      intro rest' hsame _ _ _ done done' flag
      rw [SameFields] at hsame
      rw [hsame, checkFields_nil, checkFields_nil]
      rfl
  | cons e rest ih =>
      obtain ⟨key, v⟩ := e
      intro rest' hsame hjson hjson' hvalues done done' flag
      rw [SameFields] at hsame
      obtain ⟨v', rest', rfl, hv, hrest⟩ := hsame
      have hs := skips_json (a := a) (hjson _ List.mem_cons_self)
      have hs' := skips_json (a := a) (hjson' _ List.mem_cons_self)
      have hnext := ih rest' hrest (fun e he => hjson e (List.mem_cons_of_mem _ he))
        (fun e he => hjson' e (List.mem_cons_of_mem _ he))
        (fun e he => hvalues e (List.mem_cons_of_mem _ he))
      -- one decision for both: same restrictions, same owner, same flag
      have howner := ownership_input hin (done ++ (key, v) :: rest) (done' ++ (key, v') :: rest')
      cases ha : a.admits (a.restrictionsOf m key)
          (a.ownership (done ++ (key, v) :: rest)) flag with
      | false =>
          rw [checkFields_deny _ hs ha, checkFields_deny _ hs' (howner ▸ ha), if_pos hthrow,
            if_pos hthrow]
      | true =>
          rw [checkFields_admitted _ hs ha, checkFields_admitted _ hs' (howner ▸ ha), ← howner]
          have hvalue := hvalues _ List.mem_cons_self v'
            ((a.ownership (done ++ (key, v) :: rest)).creatorOfParent flag)
            (resolveNestedType a.registry key m.owner) (hjson' _ List.mem_cons_self) hv
          exact isOk_bind_congr hvalue fun _ _ => hnext _ _ _

theorem checkItems_agree {flag : Bool} {declared : Class} :
    ∀ (items items' : List Value), SameItems items items' →
      (∀ t ∈ items', IsJson t) →
      (∀ t ∈ items, ∀ q, IsJson q → SameShape t q →
        (checkRestricted a flag t declared).isOk = (checkRestricted a flag q declared).isOk) →
      (checkItems ownConstructor a flag items declared).isOk
        = (checkItems ownConstructor a flag items' declared).isOk := by
  intro items
  induction items with
  | nil =>
      intro items' hsame _ _
      rw [SameItems] at hsame
      rw [hsame]
  | cons item rest ih =>
      intro items' hsame hjson' hvalues
      rw [SameItems] at hsame
      obtain ⟨item', rest', rfl, hitem, hrest⟩ := hsame
      rw [checkItems_cons, checkItems_cons]
      refine isOk_bind_congr ?_ fun _ _ => isOk_bind_congr ?_ fun _ _ => rfl
      · exact hvalues item List.mem_cons_self item' (hjson' _ List.mem_cons_self) hitem
      · exact ih rest' hrest (fun t ht => hjson' t (List.mem_cons_of_mem _ ht))
          fun t ht => hvalues t (List.mem_cons_of_mem _ ht)

/-- On input nothing is nulled out: an object that is checked stays an object. -/
theorem check_obj_not_nullish {own : Object → Option OwnConstructor} {flag : Bool}
    {proto declared : Class} {fields : Object} {r : Value}
    (hthrow : a.config.throwsError = true)
    (h : check own a flag (.obj proto fields) declared = .ok r) : r.isNullish = false := by
  rw [check] at h
  split at h
  · cases h
  · split at h
    · cases h
    · split at h
      · cases h
      · exact Except.ok.inj h ▸ rfl

/-- On input an array is checked item by item, its first item as any other. -/
theorem check_arr_isOk {own : Object → Option OwnConstructor} {flag : Bool} {declared : Class}
    {sample : Value} {rest : List Value} (hthrow : a.config.throwsError = true) :
    (check own a flag (.arr (sample :: rest)) declared).isOk
      = (checkItems own a flag (sample :: rest) declared).isOk := by
  rw [check, checkItems_cons]
  cases hsample : check own a flag sample declared with
  | error e => cases sampleDecides own sample declared <;> rfl
  | ok result =>
      -- where the first item answers for all it is an object
      obtain ⟨d, hd, hnullish⟩ : ∃ d, sampleDecides own sample declared = .ok d
          ∧ (d && result.isNullish) = false := by
        cases sample with
        | obj proto fields =>
            rw [sampleDecides]
            have hnot := check_obj_not_nullish hthrow hsample
            cases hown : own fields with
            | none => exact ⟨_, rfl, by rw [hnot, Bool.and_false]⟩
            | some c =>
                cases c with
                | primitive =>
                    rw [check, hown] at hsample
                    cases hsample
                | _ => exact ⟨false, rfl, rfl⟩
        | _ => exact ⟨false, rfl, rfl⟩
      rw [hd]
      dsimp only
      rw [hnullish, if_neg Bool.false_ne_true]
      cases checkItems own a flag rest declared with
      | error e    => rfl
      | ok results => rfl

/-- **Two payloads of one shape are admitted alike.** -/
theorem check_agree (hin : a.config.processType = some .INPUT)
    (hthrow : a.config.throwsError = true) {p : Value} (hp : IsJson p)
    (hleaf : ForObjects NoConstructorLeaf p) :
    ∀ (q : Value) (flag : Bool) (declared : Class), IsJson q → SameShape p q →
      (checkRestricted a flag p declared).isOk = (checkRestricted a flag q declared).isOk := by
  induction p using JsTree.induction with
  | prim leaf =>
      intro q flag declared _ hsame
      rw [SameShape] at hsame
      obtain ⟨leaf', rfl⟩ := hsame
      rfl
  | oid hex => cases hp
  | obj proto fields ih =>
      intro q flag declared hq hsame
      rw [SameShape] at hsame
      obtain ⟨proto', fields', rfl, hfields⟩ := hsame
      cases hp with
      | obj _ hjson =>
      cases hq with
      | obj _ hjson' =>
      cases hleaf with
      | obj hno hinner =>
      rw [checkRestricted, checkRestricted, check, check,
        ← ownConstructor_of_sameFields hfields hno hinner]
      cases metadataOf (ownConstructor fields) [] declared with
      | error e => rfl
      | ok m =>
          dsimp only
          rw [ownership_input hin fields' fields]
          split
          · rfl
          · have hloop := checkFields_agree hin hthrow m fields fields' hfields hjson hjson'
              (fun e he q f d => ih e he (hjson e he) (hinner e he) q f d) [] [] flag
            cases h₁ : checkFields ownConstructor a m flag [] fields with
            | error e =>
                cases h₂ : checkFields ownConstructor a m flag [] fields' with
                | error e' => rfl
                | ok r     => rw [h₁, h₂] at hloop; cases hloop
            | ok r =>
                cases h₂ : checkFields ownConstructor a m flag [] fields' with
                | error e' => rw [h₁, h₂] at hloop; cases hloop
                | ok r'    => rfl
  | arr items ih =>
      intro q flag declared hq hsame
      rw [SameShape] at hsame
      obtain ⟨items', rfl, hitems⟩ := hsame
      cases hp with
      | arr hjson =>
      cases hq with
      | arr hjson' =>
      cases hleaf with
      | arr hinner =>
      cases items with
      | nil =>
          rw [SameItems] at hitems
          rw [hitems]
      | cons sample rest =>
          have hagree := checkItems_agree (sample :: rest) items' hitems hjson'
            fun t ht q => ih t ht (hjson t ht) (hinner t ht) q flag declared
          rw [SameItems] at hitems
          obtain ⟨sample', rest', rfl, -, -⟩ := hitems
          rw [checkRestricted, checkRestricted, check_arr_isOk hthrow, check_arr_isOk hthrow]
          exact hagree

end TwoRuns

/-! ## The claim -/

/-- For every user, every persisted object and all declared types, two payloads of
    this shape are both admitted or both rejected. -/
def DecidedByDbObject (p : Value) : Prop :=
  ∀ (a : Access) (isCreatorOfParent : Bool) (declared : Class) (dbObject : Object),
    a.config.processType = some .INPUT → a.config.throwsError = true →
    a.config.dbObject = some dbObject →
    ∀ q r : Value, IsJson q → IsJson r → SameShape p q → SameShape p r →
      (checkRestricted a isCreatorOfParent q declared).isOk
        = (checkRestricted a isCreatorOfParent r declared).isOk

/-! ### A leaf under `constructor` -/

mutual

/-- The payload of this shape with one leaf everywhere. -/
def fill (leaf : Prim) : Value → Value
  | .prim _          => .prim leaf
  | .oid hex         => .oid hex
  | .obj proto fields => .obj proto (fillFields leaf fields)
  | .arr items       => .arr (fillItems leaf items)

def fillFields (leaf : Prim) : Object → Object
  | []               => []
  | (key, v) :: rest => (key, fill leaf v) :: fillFields leaf rest

def fillItems (leaf : Prim) : List Value → List Value
  | []           => []
  | item :: rest => fill leaf item :: fillItems leaf rest

end

section Fill

variable (leaf : Prim)

theorem fillFields_eq_map (fields : Object) :
    fillFields leaf fields = fields.map fun e => (e.1, fill leaf e.2) := by
  induction fields with
  | nil => rfl
  | cons e rest ih => rw [fillFields, ih, List.map_cons]

theorem fillItems_eq_map (items : List Value) :
    fillItems leaf items = items.map (fill leaf) := by
  induction items with
  | nil => rfl
  | cons t rest ih => rw [fillItems, ih, List.map_cons]

theorem sameShape_fill (p : Value) : SameShape p (fill leaf p) := by
  induction p using JsTree.induction with
  | prim p  => exact ⟨leaf, rfl⟩
  | oid hex => exact ⟨hex, rfl⟩
  | obj proto fields ih =>
      refine ⟨proto, fillFields leaf fields, rfl, ?_⟩
      induction fields with
      | nil => rfl
      | cons e rest ihrest =>
          exact ⟨_, _, rfl, ih e List.mem_cons_self,
            ihrest fun e' he' => ih e' (List.mem_cons_of_mem _ he')⟩
  | arr items ih =>
      refine ⟨fillItems leaf items, rfl, ?_⟩
      induction items with
      | nil => rfl
      | cons t rest ihrest =>
          exact ⟨_, _, rfl, ih t List.mem_cons_self,
            ihrest fun t' ht' => ih t' (List.mem_cons_of_mem _ ht')⟩

theorem lookup_fillFields (key : String) (fields : Object) :
    (fillFields leaf fields).lookup key = (fields.lookup key).map (fill leaf) := by
  induction fields with
  | nil => rfl
  | cons e rest ih =>
      obtain ⟨k, v⟩ := e
      rw [fillFields, List.lookup_cons, List.lookup_cons, ih]
      cases key == k <;> rfl

theorem isJson_fill {p : Value} (hleaf : leaf ≠ .undefined) (hp : IsJson p) :
    IsJson (fill leaf p) := by
  induction p using JsTree.induction with
  | prim p  => exact .prim hleaf
  | oid hex => cases hp
  | obj proto fields ih =>
      cases hp with
      | obj hnodup hfields =>
          rw [fill, fillFields_eq_map]
          refine .obj (by rw [keys, List.map_map]; exact hnodup) fun e he => ?_
          obtain ⟨e', he', rfl⟩ := List.mem_map.mp he
          exact ih e' he' (hfields e' he')
  | arr items ih =>
      cases hp with
      | arr hitems =>
          rw [fill, fillItems_eq_map]
          refine .arr fun t ht => ?_
          obtain ⟨t', ht', rfl⟩ := List.mem_map.mp ht
          exact ih t' ht' (hitems t' ht')

end Fill

/-- An input request in which nothing is restricted. -/
def unrestricted : Access where
  registry   := fun _ => none
  vocabulary := { multiTenancy := none }
  user       := none
  config     := { processType := some .INPUT, dbObject := some [] }

namespace unrestricted

theorem admits_all (key : String) (o : Ownership) (flag : Bool) :
    unrestricted.admits (unrestricted.restrictionsOf ⟨[], []⟩ key) o flag = true := by
  have hnone : unrestricted.restrictionsOf ⟨[], []⟩ key = [] := by
    simp [Access.restrictionsOf, Metadata.propertyRestricted, classRestrictions,
      propertyRestrictions]
  rw [hnone]
  rfl

/-- Where metadata is found at all, it is nobody's. -/
theorem metadata_eq {c : Option OwnConstructor} (hc : c ≠ some .primitive) :
    metadataOf c [] [] = .ok ⟨[], []⟩ := by
  cases c with
  | none => rfl
  | some c =>
      cases c with
      | primitive => exact absurd rfl hc
      | _ => rfl

/-- With `null` under every leaf no metadata lookup throws. -/
theorem ownConstructor_fill_null (fields : Object) :
    ownConstructor (fillFields .null fields) ≠ some .primitive := by
  rw [ownConstructor, lookup_fillFields]
  cases fields.lookup "constructor" with
  | none => rintro ⟨⟩
  | some c =>
      cases c with
      | obj proto inner =>
          rw [Option.map_some, Option.map_some, fill]
          dsimp only
          rw [lookup_fillFields]
          cases inner.lookup "constructor" with
          | none => rintro ⟨⟩
          | some w => cases w <;> rintro ⟨⟩
      | _ => rintro ⟨⟩

theorem fill_null_returns {p : Value} (hp : IsJson p) :
    ∀ flag : Bool, ∃ r, checkRestricted unrestricted flag (fill .null p) [] = .ok r := by
  induction p using JsTree.induction with
  | prim leaf => exact fun flag => ⟨_, rfl⟩
  | oid hex => cases hp
  | obj proto fields ih =>
      intro flag
      cases hp with
      | obj _ hfields =>
          have hvalues : ∀ e ∈ fillFields .null fields, ∀ f,
              ∃ r, checkRestricted unrestricted f e.2 [] = .ok r := by
            intro e he f
            rw [fillFields_eq_map] at he
            obtain ⟨e', he', rfl⟩ := List.mem_map.mp he
            exact ih e' he' (hfields e' he') f
          obtain ⟨fields', hloop⟩ :=
            checkFields_returns (.inr admits_all) (fillFields .null fields) hvalues [] flag
          rw [checkRestricted, fill, check, metadata_eq (ownConstructor_fill_null fields)]
          dsimp only
          rw [show unrestricted.config.checkObjectItself = false from rfl, Bool.false_and,
            if_neg Bool.false_ne_true, hloop]
          exact ⟨_, rfl⟩
  | arr items ih =>
      intro flag
      cases hp with
      | arr hitems =>
          cases items with
          | nil => exact ⟨_, rfl⟩
          | cons sample rest =>
              obtain ⟨results, hresults⟩ : ∃ results, checkItems ownConstructor unrestricted flag
                  (fillItems .null (sample :: rest)) [] = .ok results := by
                refine checkItems_returns _ fun t ht => ?_
                rw [fillItems_eq_map] at ht
                obtain ⟨t', ht', rfl⟩ := List.mem_map.mp ht
                exact ih t' ht' (hitems t' ht') flag
              rw [checkRestricted, fill, fillItems, ← isOk_iff, check_arr_isOk rfl, isOk_iff]
              exact ⟨results, hresults⟩

/-- With `true` under every leaf, one under `constructor` throws. -/
theorem fill_true_throws {p : Value} (hp : IsJson p) (hnot : ¬ ForObjects NoConstructorLeaf p) :
    ∀ (flag : Bool) (r : Value),
      checkRestricted unrestricted flag (fill (.bool true) p) [] ≠ .ok r := by
  induction p using JsTree.induction with
  | prim leaf => exact absurd (.prim leaf) hnot
  | oid hex => cases hp
  | obj proto fields ih =>
      intro flag r h
      cases hp with
      | obj hnodup hfields =>
          by_cases hno : NoConstructorLeaf fields
          · -- the offender is further down, and nothing keeps the walk from it
            obtain ⟨e, hmem, hoffends⟩ : ∃ e ∈ fields, ¬ ForObjects NoConstructorLeaf e.2 := by
              by_contra hall
              simp only [not_exists, not_and, not_not] at hall
              exact hnot (.obj hno hall)
            rw [checkRestricted, fill] at h
            by_cases hprim : ownConstructor (fillFields (.bool true) fields) = some .primitive
            · rw [check, hprim] at h
              cases h
            · obtain ⟨fields', hloop, -⟩ := check_obj_ok rfl (metadata_eq hprim) h
              have hmem' : (e.1, fill (.bool true) e.2) ∈ fillFields (.bool true) fields := by
                rw [fillFields_eq_map]
                exact List.mem_map.mpr ⟨e, hmem, rfl⟩
              have hjson := isJson_fill (.bool true) (fun h => by cases h) (hfields e hmem)
              obtain ⟨f, v', -, hc⟩ :=
                checkFields_keeps (skips_json hjson) (admits_all e.1) hmem' hloop
              exact ih e hmem (hfields e hmem) hoffends f v' hc
          · simp only [NoConstructorLeaf, not_forall, not_not] at hno
            obtain ⟨leaf, hleaf⟩ := hno
            rw [checkRestricted, fill, check, ownConstructor, lookup_fillFields, hleaf] at h
            cases h
  | arr items ih =>
      intro flag r h
      cases hp with
      | arr hitems =>
          cases items with
          | nil => exact hnot (.arr fun t ht => by cases ht)
          | cons sample rest =>
              have hjson := isJson_fill (.bool true) (fun h => by cases h)
                (hitems sample List.mem_cons_self)
              rcases check_arr_ok h with hd | ⟨results, hresults, -⟩
              · exact not_sampleDecides hjson rfl hd
              · obtain ⟨t, ht, hoffends⟩ :
                    ∃ t ∈ sample :: rest, ¬ ForObjects NoConstructorLeaf t := by
                  by_contra hall
                  simp only [not_exists, not_and, not_not] at hall
                  exact hnot (.arr hall)
                have hmem : fill (.bool true) t ∈ fillItems (.bool true) (sample :: rest) := by
                  rw [fillItems_eq_map]
                  exact List.mem_map.mpr ⟨t, ht, rfl⟩
                obtain ⟨r', -, hc⟩ := result_mem hresults hmem
                exact ih t ht (hitems t ht) hoffends flag r' hc

end unrestricted

/-- **For which payloads the persisted object alone decides.** -/
theorem decidedByDbObject_iff {p : Value} (hp : IsJson p) :
    DecidedByDbObject p ↔ ForObjects NoConstructorLeaf p := by
  constructor
  · intro hdecided
    by_contra hnot
    have hagree := hdecided unrestricted false [] [] rfl rfl rfl
      (fill .null p) (fill (.bool true) p)
      (isJson_fill .null (fun h => by cases h) hp)
        (isJson_fill (.bool true) (fun h => by cases h) hp)
      (sameShape_fill .null p) (sameShape_fill (.bool true) p)
    obtain ⟨r, hr⟩ := unrestricted.fill_null_returns hp false
    cases htrue : checkRestricted unrestricted false (fill (.bool true) p) [] with
    | error e => rw [hr, htrue] at hagree; cases hagree
    | ok r'   => exact unrestricted.fill_true_throws hp hnot false r' htrue
  · intro hleaf a flag declared dbObject hin hthrow _ q r hq hr hpq hpr
    exact (check_agree hin hthrow hp hleaf q flag declared hq hpq).symm.trans
      (check_agree hin hthrow hp hleaf r flag declared hr hpr)

/-- A payload without a leaf under `constructor`. -/
theorem decidedByDbObject_iff_name :
    DecidedByDbObject (.obj [] [("name", .prim (.str "x"))])
      ↔ ForObjects NoConstructorLeaf (.obj [] [("name", .prim (.str "x"))]) :=
  decidedByDbObject_iff (.obj (by decide) fun e he => by
    rw [List.mem_singleton.mp he]
    exact .prim fun h => by cases h)

/-- The value under `constructor` decides whether the check throws. -/
theorem constructor_leaf_decides : ¬ ∀ p : Value, IsJson p → DecidedByDbObject p := by
  intro h
  have hjson : ∀ s : String, IsJson (.obj [] [("constructor", .prim (.str s))] : Value) := by
    intro s
    refine .obj (List.nodup_singleton _) fun e he => ?_
    rw [List.mem_singleton.mp he]
    exact .prim fun h => by cases h
  have hagree := h _ (hjson "x") unrestricted false [] [] rfl rfl rfl
    (.obj [] [("constructor", .prim (.str "x"))]) (.obj [] [("constructor", .prim (.str ""))])
    (hjson "x") (hjson "") ⟨_, _, rfl, _, _, rfl, ⟨_, rfl⟩, rfl⟩ ⟨_, _, rfl, _, _, rfl, ⟨_, rfl⟩,
      rfl⟩
  exact absurd hagree (by decide)

end Restricted
