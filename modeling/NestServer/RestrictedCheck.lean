import NestServer.Fallible
import NestServer.TenantGuard
import NestServer.IdHelper

/-! # Field-level access control

    `restricted.decorator.ts` and `nested-type.registry.ts`: `checkRestricted`
    walks a value and takes out what the requesting user may not see (output),
    or throws at what he may not set (input).

    * `metadataOf` says whose `@Restricted` metadata governs an object: its
      constructor's, or that of the class its property declares;
    * `admits` is `validateRestricted`;
    * `check` is the walk.  Every key is decided on the object as the keys before
      it left it, under a creator-of-parent flag they may have rewritten. -/

open RoleEnum JsTree

namespace Restricted

inductive ProcessType where
  | INPUT | OUTPUT
deriving DecidableEq, Repr

/-- An argument of `@Restricted(...)`. -/
inductive RestrictedItem where
  | role (name : String)
  | roles (names : List String)
  | entry (memberOf roles : List String) (processType : Option ProcessType)
deriving DecidableEq, Repr

abbrev RestrictedType := List RestrictedItem

/-- What the decorators recorded on one class. -/
structure ClassDecl where
  name       : String
  restricted : Option RestrictedType := none
  properties : List (String × RestrictedType) := []
deriving DecidableEq, Repr

/-- A class with its base classes; empty for no class. -/
abbrev Class := List ClassDecl

abbrev Value := JsTree ClassDecl
abbrev Object := Fields ClassDecl

/-- `getRestricted(cls)` -/
def classRestrictions : Class → RestrictedType
  | []         => []
  | c :: bases => c.restricted.getD (classRestrictions bases)

/-- `getRestricted(cls.prototype, key)` -/
def propertyRestrictions (key : String) : Class → RestrictedType
  | []         => []
  | c :: bases => (c.properties.lookup key).getD (propertyRestrictions key bases)

/-- `nestedTypeRegistry`, from `${className}.${propertyName}` to the class. -/
abbrev NestedTypeRegistry := String → Option Class

/-- `resolveNestedType(ownerClass, propertyKey)` -/
def resolveNestedType (registry : NestedTypeRegistry) (key : String) : Class → Class
  | []         => []
  | c :: bases => (registry (c.name ++ "." ++ key)).getD (resolveNestedType registry key bases)

/-- The requesting user; `hasRole` where the user object has that method. -/
structure User where
  fields  : Object
  hasRole : Option (List String → Bool) := none
  roles   : Option (List String) := none

/-- `user[key]` is truthy. -/
def User.has (u : User) (key : String) : Bool := (u.fields.lookup key).any JsTree.truthy

/-- The options of `checkRestricted`, filled with their defaults; the
    creator-of-parent flag is passed beside them, because the walk rewrites it. -/
structure Config where
  allowCreatorOfParent           : Bool := true
  checkObjectItself              : Bool := false
  dbObject                       : Option Object := none
  ignoreUndefined                : Bool := true
  mergeRoles                     : Bool := true
  processType                    : Option ProcessType := none
  removeUndefinedFromResultArray : Bool := true
  throwsError                    : Bool := true

/-- What one call reads beside its data. -/
structure Access where
  registry   : NestedTypeRegistry
  vocabulary : Vocabulary
  tenantRole : Option String := none
  user       : Option User
  config     : Config := {}

inductive Failure where
  | denied (e : TenantGuard.HttpException)
  | typeError
  | rangeError
deriving DecidableEq, Repr

/-! ## Whose metadata governs an object -/

/-- An own key `constructor` hides the class of an object: `falsy` counts as no
    class, and metadata lookup throws on a `primitive`. -/
inductive OwnConstructor where
  | falsy | value | primitive
deriving DecidableEq, Repr

/-- `data.constructor`, where `data` has that key itself. -/
def ownConstructor (fields : Object) : Option OwnConstructor :=
  (fields.lookup "constructor").map fun c => match c with
    | .prim p => if p.truthy then .primitive else .falsy
    | .obj _ inner => match inner.lookup "constructor" with
        -- the metadata cache is keyed by the constructor's own constructor
        | some (.prim p) => if p.truthy then .primitive else .value
        | _ => .value
    | _ => .value

/-- `metadataOwner`, where it is a class, and what property lookups walk. -/
structure Metadata where
  owner  : Class
  target : Class
deriving DecidableEq, Repr

/-- `metadataOwner` and `metadataTarget` of an object under a declared type. -/
def metadataOf (own : Option OwnConstructor) (proto declared : Class) :
    Except Failure Metadata :=
  match own with
  | some .primitive => .error .typeError
  | some .value     => .ok ⟨[], proto⟩
  | some .falsy     => .ok (if declared ≠ [] then ⟨declared, declared⟩ else ⟨[], proto⟩)
  | none            => .ok (if proto ≠ [] then ⟨proto, proto⟩ else ⟨declared, declared⟩)

/-- `getRestricted(metadataTarget, key) || []`: the class-level list is cached
    under `__class__`, which the empty key falls back to. -/
def Metadata.propertyRestricted (m : Metadata) (key : String) : RestrictedType :=
  if key = "" ∨ key = "__class__" then classRestrictions m.owner
  else propertyRestrictions key m.target

/-- `_.uniq(items)`: two role strings may be the same, two objects are not. -/
def uniq (items : RestrictedType) : RestrictedType :=
  items.foldl (fun kept item => match item with
    | .role name => if kept.contains (.role name) then kept else kept ++ [.role name]
    | _          => kept ++ [item]) []

/-! ## The decision -/

/-- The ownership facts a decision reads off the owner: `createdBy` is the answer
    for that key, where the owner has it. -/
structure Ownership where
  present   : Bool
  self      : Bool
  createdBy : Option Bool
deriving DecidableEq, Repr

/-- `config.isCreatorOfParent` as an admitted key leaves it. -/
def Ownership.creatorOfParent (o : Ownership) (isCreatorOfParent : Bool) : Bool :=
  o.self || o.createdBy.getD isCreatorOfParent

def ownershipOf (owner : Option Object) (userId : Option String) : Ownership :=
  match owner with
  | none => ⟨false, false, none⟩
  | some fields =>
      ⟨true, equalIds (.obj [] fields : Value) userId,
        (fields.lookup "createdBy").map fun v => equalIds v userId⟩

/-- `config.processType && item.processType ? config.processType === item.processType : true` -/
def Config.appliesTo (config : Config) (processType : Option ProcessType) : Bool :=
  match config.processType, processType with
  | some p, some q => p = q
  | _, _           => true

/-- The role names an item contributes. -/
def Config.rolesOf (config : Config) : RestrictedItem → List String
  | .role name          => [name]
  | .roles names        => names
  | .entry _ roles type => if config.appliesTo type then roles else []

/-- The member properties an item contributes. -/
def Config.memberOf (config : Config) : RestrictedItem → List String
  | .entry memberOf _ type => if config.appliesTo type then memberOf else []
  | _                      => []

/-- `config.dbObject?.[property]`, as a list. -/
def Config.membersIn (config : Config) (property : String) : List Value :=
  match config.dbObject.bind (List.lookup property) with
  | none => []
  | some (.arr items) => items
  | some v => if v.truthy then [v] else []

namespace Access

variable (a : Access)

/-- The text the user's id is compared by. -/
def userId : Option String :=
  a.user.bind fun u => getStringId (.obj [] u.fields : Value)

/-- `user?.id` -/
def hasId : Bool := a.user.any fun u => u.has "id"

/-- `accessDeniedException(user)`: an id that is present counts as authenticated. -/
def accessDeniedException : Failure :=
  let id := a.user.bind fun u => u.fields.lookup "id"
  if id.any fun v => !v.isNullish then .denied (.Forbidden TenantGuard.ACCESS_DENIED)
  else .denied (.Unauthorized TenantGuard.UNAUTHORIZED)

/-- Ownership is decided from the persisted object: `dbObject` on input, the data
    themselves on output. -/
def ownership (data : Object) : Ownership :=
  ownershipOf (if a.config.processType = some .INPUT then a.config.dbObject else some data) a.userId

/-- The creator test: the owner's `createdBy`, or without one the parent's. -/
def isCreator (o : Ownership) (isCreatorOfParent : Bool) : Bool :=
  match o.createdBy with
  | some equal => equal
  | none       => a.config.allowCreatorOfParent && o.present && isCreatorOfParent

/-- The access rights any of the roles gives. -/
def hasRight (roles : List String) (o : Ownership) (isCreatorOfParent : Bool) : Bool :=
  roles.contains S_EVERYONE.value
    || (a.user.bind User.hasRole).any (fun hasRole => hasRole roles)
    || (a.hasId && roles.contains S_USER.value)
    || (roles.contains S_SELF.value && o.self)
    || (roles.contains S_CREATOR.value && a.isCreator o isCreatorOfParent)
    || (roles.contains S_VERIFIED.value
        && a.user.any fun u => u.has "verified" || u.has "verifiedAt" || u.has "emailVerified")
    || (a.hasId && a.vocabulary.checkFieldRoleAccess roles (a.user.bind User.roles) a.tenantRole)

/-- `validateRestricted(restricted)` -/
def admits (restricted : RestrictedType) (o : Ownership) (isCreatorOfParent : Bool) : Bool :=
  let roles := restricted.flatMap a.config.rolesOf
  let groups := restricted.flatMap a.config.memberOf
  if restricted = [] then true
  else if roles.contains S_NO_ONE.value then false
  else (roles ≠ [] && a.hasRight roles o isCreatorOfParent)
    || (groups ≠ [] && includesId (groups.flatMap a.config.membersIn) a.userId)
    || (roles = [] && groups = [])

/-- The restrictions a key is checked against. -/
def restrictionsOf (m : Metadata) (key : String) : RestrictedType :=
  let objectRestrictions := classRestrictions m.owner
  let restricted := m.propertyRestricted key
  if a.config.mergeRoles && objectRestrictions ≠ [] then uniq (objectRestrictions ++ restricted)
  else restricted

/-- `config.ignoreUndefined` passes over a key without a value. -/
def skips (v : Value) : Bool := a.config.ignoreUndefined && v.isUndefined

/-- `result.filter((item) => item !== undefined)`, for output. -/
def dropUndefined (items : List Value) : List Value :=
  if !a.config.throwsError && a.config.removeUndefinedFromResultArray then
    items.filter fun v => !v.isUndefined
  else items

end Access

/-! ## The walk

    `own` reads an object's own key `constructor`; the source's reading is
    `ownConstructor`. -/

/-- An item that names `S_CREATOR` or `S_SELF`, which differ from item to item. -/
def RestrictedItem.isOwnership : RestrictedItem → Bool
  | .role name       => name = S_CREATOR.value || name = S_SELF.value
  | .roles names     => names.contains S_CREATOR.value || names.contains S_SELF.value
  | .entry _ names _ => names.contains S_CREATOR.value || names.contains S_SELF.value

section Walk

variable (own : Object → Option OwnConstructor)

/-- Whether the first item of an array answers for all of them: its class is
    restricted, and no restriction is about ownership. -/
def sampleDecides (sample : Value) (declared : Class) : Except Failure Bool :=
  let decides (c : Class) : Bool :=
    classRestrictions c ≠ [] && !(classRestrictions c).any RestrictedItem.isOwnership
  match sample with
  | .obj proto fields => match own fields with
      | some .primitive => .error .typeError
      | some _          => .ok false
      | none            => .ok (decides (if proto ≠ [] then proto else declared))
  | _ => .ok false

mutual

/-- `checkRestricted(data, user, options, processedObjects, declaredType)` on a
    tree, where no object is met twice. -/
def check (a : Access) (isCreatorOfParent : Bool) : Value → Class → Except Failure Value
  | .prim p, _  => .ok (.prim p)
  | .oid hex, _ => .ok (.oid hex)
  | .arr [], _  => .ok (.arr [])
  | .arr (sample :: rest), declared =>
      match sampleDecides own sample declared, check a isCreatorOfParent sample declared with
      | .error e, _ => .error e
      | _, .error e => .error e
      | .ok decides, .ok result =>
          if decides && result.isNullish then
            if a.config.throwsError then .ok (.arr (sample :: rest))
            else if a.config.removeUndefinedFromResultArray then .ok (.arr [])
            else .ok (.arr ((sample :: rest).map fun _ => .prim .undefined))
          else match checkItems a isCreatorOfParent rest declared with
            | .error e => .error e
            | .ok results => .ok (.arr (a.dropUndefined (result :: results)))
  | .obj proto fields, declared =>
      match metadataOf (own fields) proto declared with
      | .error e => .error e
      | .ok m =>
          if a.config.checkObjectItself
              && !a.admits (classRestrictions m.owner) (a.ownership fields) isCreatorOfParent then
            if a.config.throwsError then .error a.accessDeniedException else .ok (.prim .null)
          else match checkFields a m isCreatorOfParent [] fields with
            | .error e => .error e
            | .ok fields' => .ok (.obj proto fields')

/-- The items of an array, one by one. -/
def checkItems (a : Access) (isCreatorOfParent : Bool) :
    List Value → Class → Except Failure (List Value)
  | [], _ => .ok []
  | item :: rest, declared =>
      match check a isCreatorOfParent item declared with
      | .error e => .error e
      | .ok result => match checkItems a isCreatorOfParent rest declared with
          | .error e => .error e
          | .ok results => .ok (result :: results)

/-- The property loop: `done` are the keys already decided, as they are left. -/
def checkFields (a : Access) (m : Metadata) (isCreatorOfParent : Bool) (done : Object) :
    Object → Except Failure Object
  | [] => .ok done
  | (key, v) :: rest =>
      if a.skips v then checkFields a m isCreatorOfParent (done ++ [(key, v)]) rest
      else
        let o := a.ownership (done ++ (key, v) :: rest)
        if a.admits (a.restrictionsOf m key) o isCreatorOfParent then
          match check a (o.creatorOfParent isCreatorOfParent) v
              (resolveNestedType a.registry key m.owner) with
          | .error e => .error e
          | .ok v' =>
              checkFields a m (o.creatorOfParent isCreatorOfParent) (done ++ [(key, v')]) rest
        else if a.config.throwsError then .error a.accessDeniedException
        else checkFields a m isCreatorOfParent done rest

end

/-! ### One turn of the property loop -/

variable {a : Access} {m : Metadata} {isCreatorOfParent : Bool} {done rest : Object}
  {key : String} {v : Value}

@[simp] theorem checkFields_nil :
    checkFields own a m isCreatorOfParent done [] = .ok done := rfl

theorem checkFields_skip (hs : a.skips v = true) :
    checkFields own a m isCreatorOfParent done ((key, v) :: rest)
      = checkFields own a m isCreatorOfParent (done ++ [(key, v)]) rest := if_pos hs

theorem checkFields_admitted (hs : a.skips v = false)
    (ha : a.admits (a.restrictionsOf m key) (a.ownership (done ++ (key, v) :: rest))
      isCreatorOfParent = true) :
    checkFields own a m isCreatorOfParent done ((key, v) :: rest)
      = (check own a ((a.ownership (done ++ (key, v) :: rest)).creatorOfParent isCreatorOfParent) v
          (resolveNestedType a.registry key m.owner)).bind fun v' =>
        checkFields own a m
          ((a.ownership (done ++ (key, v) :: rest)).creatorOfParent isCreatorOfParent)
          (done ++ [(key, v')]) rest := by
  rw [checkFields, if_neg (by rw [hs]; exact Bool.false_ne_true)]
  dsimp only
  rw [if_pos ha]
  cases check own a ((a.ownership (done ++ (key, v) :: rest)).creatorOfParent isCreatorOfParent) v
      (resolveNestedType a.registry key m.owner) with
  | error e => rfl
  | ok v'   => rfl

theorem checkFields_deny (hs : a.skips v = false)
    (ha : a.admits (a.restrictionsOf m key) (a.ownership (done ++ (key, v) :: rest))
      isCreatorOfParent = false) :
    checkFields own a m isCreatorOfParent done ((key, v) :: rest)
      = if a.config.throwsError then .error a.accessDeniedException
        else checkFields own a m isCreatorOfParent done rest := by
  have hkept : ¬ a.skips v = true := by rw [hs]; exact Bool.false_ne_true
  have hdenied : ¬ a.admits (a.restrictionsOf m key) (a.ownership (done ++ (key, v) :: rest))
      isCreatorOfParent = true := by rw [ha]; exact Bool.false_ne_true
  exact (if_neg hkept).trans (if_neg hdenied)

/-- What one turn of a loop that returns can do. -/
theorem checkFields_cons_ok {own} {flag : Bool} {fields' : Object}
    (h : checkFields own a m flag done ((key, v) :: rest) = .ok fields') :
    (a.skips v = true ∧ checkFields own a m flag (done ++ [(key, v)]) rest = .ok fields')
      ∨ (∃ o f v', a.admits (a.restrictionsOf m key) o flag = true
          ∧ check own a f v (resolveNestedType a.registry key m.owner) = .ok v'
          ∧ checkFields own a m f (done ++ [(key, v')]) rest = .ok fields')
      ∨ (∃ o, a.skips v = false ∧ a.admits (a.restrictionsOf m key) o flag = false
          ∧ checkFields own a m flag done rest = .ok fields') := by
  cases hs : a.skips v with
  | true =>
      rw [checkFields_skip own hs] at h
      exact .inl ⟨rfl, h⟩
  | false =>
      cases ha : a.admits (a.restrictionsOf m key)
          (a.ownership (done ++ (key, v) :: rest)) flag with
      | true =>
          rw [checkFields_admitted own hs ha] at h
          obtain ⟨v', hv', h'⟩ := Fallible.bind_eq_ok.mp h
          exact .inr (.inl ⟨_, _, v', ha, hv', h'⟩)
      | false =>
          rw [checkFields_deny own hs ha] at h
          split at h
          · cases h
          · exact .inr (.inr ⟨_, rfl, ha, h⟩)

/-! ### Where the results of a walk come from -/

/-- What the loop returns starts with what was decided before it. -/
theorem checkFields_prefix {own} :
    ∀ {rest done : Object} {flag : Bool} {fields' : Object},
      checkFields own a m flag done rest = .ok fields' →
        ∃ kept, fields' = done ++ kept ∧ (keys kept).Sublist (keys rest) := by
  intro rest
  induction rest with
  | nil =>
      intro done flag fields' h
      rw [checkFields_nil] at h
      exact ⟨[], by rw [← Except.ok.inj h, List.append_nil], List.Sublist.refl _⟩
  | cons e rest ih =>
      obtain ⟨key, v⟩ := e
      intro done flag fields' h
      -- a key that stays, with whatever value
      have stays : ∀ {v' : Value} {flag' : Bool},
          checkFields own a m flag' (done ++ [(key, v')]) rest = .ok fields' →
          ∃ kept, fields' = done ++ kept ∧ (keys kept).Sublist (keys ((key, v) :: rest)) := by
        intro v' flag' h'
        obtain ⟨kept, hf, hk⟩ := ih h'
        exact ⟨(key, v') :: kept, by rw [hf, List.append_assoc]; rfl, hk.cons_cons key⟩
      rcases checkFields_cons_ok h with ⟨-, h'⟩ | ⟨_, _, _, -, -, h'⟩ | ⟨_, -, -, h'⟩
      · exact stays h'
      · exact stays h'
      · obtain ⟨kept, hf, hk⟩ := ih h'
        exact ⟨kept, hf, hk.cons key⟩

/-- What is left of an object is what was decided before, what was passed over, and
    what an admitted key's check returned. -/
theorem mem_checkFields {own} {v' : Value} :
    ∀ {rest done : Object} {flag : Bool} {fields' : Object},
      checkFields own a m flag done rest = .ok fields' → (key, v') ∈ fields' →
        (key, v') ∈ done ∨ ∃ v, (key, v) ∈ rest ∧ ((a.skips v = true ∧ v' = v)
          ∨ ∃ o f f', a.admits (a.restrictionsOf m key) o f = true
            ∧ check own a f' v (resolveNestedType a.registry key m.owner) = .ok v') := by
  intro rest
  induction rest with
  | nil =>
      intro done flag fields' h hmem
      rw [checkFields_nil] at h
      exact .inl (Except.ok.inj h ▸ hmem)
  | cons e rest ih =>
      obtain ⟨k, w⟩ := e
      intro done flag fields' h hmem
      rcases checkFields_cons_ok h with ⟨hs, h'⟩ | ⟨o, f, w', ha, hw, h'⟩ | ⟨_, -, -, h'⟩
      · rcases ih h' hmem with hdone | ⟨v, hv, hcases⟩
        · rcases List.mem_append.mp hdone with hdone | hhead
          · exact .inl hdone
          · obtain ⟨rfl, rfl⟩ := Prod.mk.inj (List.mem_singleton.mp hhead)
            exact .inr ⟨v', List.mem_cons_self, .inl ⟨hs, rfl⟩⟩
        · exact .inr ⟨v, List.mem_cons_of_mem _ hv, hcases⟩
      · rcases ih h' hmem with hdone | ⟨v, hv, hcases⟩
        · rcases List.mem_append.mp hdone with hdone | hhead
          · exact .inl hdone
          · obtain ⟨rfl, rfl⟩ := Prod.mk.inj (List.mem_singleton.mp hhead)
            exact .inr ⟨w, List.mem_cons_self, .inr ⟨o, _, f, ha, hw⟩⟩
        · exact .inr ⟨v, List.mem_cons_of_mem _ hv, hcases⟩
      · rcases ih h' hmem with hdone | ⟨v, hv, hcases⟩
        · exact .inl hdone
        · exact .inr ⟨v, List.mem_cons_of_mem _ hv, hcases⟩

/-- A key that is always admitted stays, with what its check returned. -/
theorem checkFields_keeps {own} (hs : a.skips v = false)
    (ha : ∀ o f, a.admits (a.restrictionsOf m key) o f = true) :
    ∀ {rest done : Object} {flag : Bool} {fields' : Object}, (key, v) ∈ rest →
      checkFields own a m flag done rest = .ok fields' →
        ∃ f v', (key, v') ∈ fields'
          ∧ check own a f v (resolveNestedType a.registry key m.owner) = .ok v' := by
  intro rest
  induction rest with
  | nil =>
      intro done flag fields' hmem
      cases hmem
  | cons e rest ih =>
      obtain ⟨k, w⟩ := e
      intro done flag fields' hmem h
      rcases List.mem_cons.mp hmem with hhead | hrest
      · obtain ⟨rfl, rfl⟩ := Prod.mk.inj hhead
        rw [checkFields_admitted own hs (ha _ _)] at h
        obtain ⟨v', hv', h'⟩ := Fallible.bind_eq_ok.mp h
        obtain ⟨kept, rfl, -⟩ := checkFields_prefix h'
        exact ⟨_, v', by simp, hv'⟩
      · rcases checkFields_cons_ok h with ⟨-, h'⟩ | ⟨_, _, _, -, -, h'⟩ | ⟨_, -, -, h'⟩
        · exact ih hrest h'
        · exact ih hrest h'
        · exact ih hrest h'

theorem checkItems_cons {own} {declared : Class} {item : Value} {rest : List Value} :
    checkItems own a isCreatorOfParent (item :: rest) declared
      = (check own a isCreatorOfParent item declared).bind fun result =>
        (checkItems own a isCreatorOfParent rest declared).bind fun results =>
          .ok (result :: results) := by
  rw [checkItems]
  cases check own a isCreatorOfParent item declared with
  | error e => rfl
  | ok result =>
      cases checkItems own a isCreatorOfParent rest declared with
      | error e    => rfl
      | ok results => rfl

/-- The items of an array are checked one by one. -/
theorem checkItems_eq_ok {own} {declared : Class} :
    ∀ {items results : List Value},
      checkItems own a isCreatorOfParent items declared = .ok results ↔
        List.Forall₂ (fun item result =>
          check own a isCreatorOfParent item declared = .ok result) items results := by
  intro items
  induction items with
  | nil =>
      intro results
      rw [List.forall₂_nil_left_iff]
      exact ⟨fun h => (Except.ok.inj h).symm, fun h => by rw [h]; rfl⟩
  | cons item rest ih =>
      intro results
      rw [checkItems_cons, List.forall₂_cons_left_iff]
      constructor
      · intro h
        obtain ⟨result, hitem, h⟩ := Fallible.bind_eq_ok.mp h
        obtain ⟨results', hrest, h⟩ := Fallible.bind_eq_ok.mp h
        exact ⟨result, results', hitem, ih.mp hrest, (Except.ok.inj h).symm⟩
      · rintro ⟨result, results', hitem, hrest, rfl⟩
        rw [hitem, ih.mpr hrest]
        rfl

/-! ### The branches as sequences of steps -/

/-- An array that has a first item. -/
theorem check_arr {own} {declared : Class} {sample : Value} {items : List Value} :
    check own a isCreatorOfParent (.arr (sample :: items)) declared
      = (sampleDecides own sample declared).bind fun decides =>
        (check own a isCreatorOfParent sample declared).bind fun result =>
          if decides && result.isNullish then
            if a.config.throwsError then .ok (.arr (sample :: items))
            else if a.config.removeUndefinedFromResultArray then .ok (.arr [])
            else .ok (.arr ((sample :: items).map fun _ => .prim .undefined))
          else (checkItems own a isCreatorOfParent items declared).bind fun results =>
            .ok (.arr (a.dropUndefined (result :: results))) := by
  rw [check]
  cases sampleDecides own sample declared with
  | error e => rfl
  | ok decides =>
      cases check own a isCreatorOfParent sample declared with
      | error e => rfl
      | ok result =>
          dsimp only [Except.bind]
          cases checkItems own a isCreatorOfParent items declared with
          | error e    => rfl
          | ok results => rfl

theorem check_arr_error {own} {declared : Class} {sample : Value} {items : List Value} {e : Failure}
    (hd : sampleDecides own sample declared = .error e) :
    check own a isCreatorOfParent (.arr (sample :: items)) declared = .error e := by
  rw [check_arr, hd]
  rfl

theorem check_arr_cons {own} {declared : Class} {sample : Value} {items : List Value}
    {decides : Bool} (hd : sampleDecides own sample declared = .ok decides) :
    check own a isCreatorOfParent (.arr (sample :: items)) declared
      = (check own a isCreatorOfParent sample declared).bind fun result =>
          if decides && result.isNullish then
            if a.config.throwsError then .ok (.arr (sample :: items))
            else if a.config.removeUndefinedFromResultArray then .ok (.arr [])
            else .ok (.arr ((sample :: items).map fun _ => .prim .undefined))
          else (checkItems own a isCreatorOfParent items declared).bind fun results =>
            .ok (.arr (a.dropUndefined (result :: results))) := by
  rw [check_arr, hd]
  rfl

/-- An object whose metadata is found and that is not denied itself. -/
theorem check_obj_eq {own} {proto declared : Class} {fields : Object}
    (hm : metadataOf (own fields) proto declared = .ok m) :
    check own a isCreatorOfParent (.obj proto fields) declared
      = if a.config.checkObjectItself
            && !a.admits (classRestrictions m.owner) (a.ownership fields) isCreatorOfParent then
          if a.config.throwsError then .error a.accessDeniedException else .ok (.prim .null)
        else (checkFields own a m isCreatorOfParent [] fields).bind fun fields' =>
          .ok (.obj proto fields') := by
  rw [check, hm]
  dsimp only
  cases checkFields own a m isCreatorOfParent [] fields with
  | error e    => rfl
  | ok fields' => rfl

/-! ### When a walk returns -/

/-- The loop returns if the values do, and it never has to throw. -/
theorem checkFields_returns {own}
    (hquiet : a.config.throwsError = false
      ∨ ∀ key o f, a.admits (a.restrictionsOf m key) o f = true) :
    ∀ (rest : Object),
      (∀ e ∈ rest, ∀ f, ∃ r, check own a f e.2 (resolveNestedType a.registry e.1 m.owner) = .ok r) →
      ∀ (done : Object) (flag : Bool), ∃ fields',
        checkFields own a m flag done rest = .ok fields' := by
  intro rest
  induction rest with
  | nil => exact fun _ done flag => ⟨done, rfl⟩
  | cons e rest ih =>
      obtain ⟨key, v⟩ := e
      intro h done flag
      have hrest := ih fun e he => h e (List.mem_cons_of_mem _ he)
      cases hs : a.skips v with
      | true =>
          rw [checkFields_skip own hs]
          exact hrest _ _
      | false =>
          cases ha : a.admits (a.restrictionsOf m key)
              (a.ownership (done ++ (key, v) :: rest)) flag with
          | true =>
              obtain ⟨v', hv'⟩ := h (key, v) List.mem_cons_self
                ((a.ownership (done ++ (key, v) :: rest)).creatorOfParent flag)
              rw [checkFields_admitted own hs ha, hv']
              exact hrest _ _
          | false =>
              rw [checkFields_deny own hs ha]
              rcases hquiet with hout | hall
              · rw [if_neg (by rw [hout]; exact Bool.false_ne_true)]
                exact hrest _ _
              · rw [hall] at ha
                cases ha

theorem checkItems_returns {own} {declared : Class} {flag : Bool} :
    ∀ (items : List Value), (∀ t ∈ items, ∃ r, check own a flag t declared = .ok r) →
      ∃ results, checkItems own a flag items declared = .ok results := by
  intro items
  induction items with
  | nil => exact fun _ => ⟨[], rfl⟩
  | cons item rest ih =>
      intro h
      obtain ⟨r, hr⟩ := h item List.mem_cons_self
      obtain ⟨results, hresults⟩ := ih fun t ht => h t (List.mem_cons_of_mem _ ht)
      exact ⟨r :: results, by rw [checkItems_cons, hr, hresults]; rfl⟩

/-- Items of a checked array are results of items. -/
theorem mem_results {own} {declared : Class} {items results : List Value} {r : Value}
    (h : checkItems own a isCreatorOfParent items declared = .ok results) (hr : r ∈ results) :
    ∃ t ∈ items, check own a isCreatorOfParent t declared = .ok r := by
  have hall := checkItems_eq_ok.mp h
  obtain ⟨i, hi, rfl⟩ := List.mem_iff_getElem.mp hr
  have hlen := hall.length_eq
  exact ⟨items[i], List.getElem_mem _, hall.get (by omega) hi⟩

/-- Every item of a checked array has its result. -/
theorem result_mem {own} {declared : Class} {items results : List Value} {t : Value}
    (h : checkItems own a isCreatorOfParent items declared = .ok results) (ht : t ∈ items) :
    ∃ r ∈ results, check own a isCreatorOfParent t declared = .ok r := by
  have hall := checkItems_eq_ok.mp h
  obtain ⟨i, hi, rfl⟩ := List.mem_iff_getElem.mp ht
  have hlen := hall.length_eq
  exact ⟨results[i], List.getElem_mem _, hall.get hi (by omega)⟩

/-- A plain item answers for the others only under a restricted declared class. -/
theorem not_sampleDecides {own} {declared : Class} {sample : Value} (h : IsJson sample)
    (hfree : classRestrictions declared = []) : sampleDecides own sample declared ≠ .ok true := by
  cases h with
  | obj _ _ =>
      rw [sampleDecides]
      split
      · rintro ⟨⟩
      · rintro ⟨⟩
      · rw [if_neg (fun h => h rfl)]
        dsimp only
        rw [hfree]
        rintro ⟨⟩
  | _ => rintro ⟨⟩

/-- The loop passes over no key of a JSON object. -/
theorem skips_json {v : Value} (h : IsJson v) : a.skips v = false := by
  rw [Access.skips, h.not_undefined, Bool.and_false]

/-- The object a checked object leaves, where it is not checked itself. -/
theorem check_obj_ok {own} {proto declared : Class} {fields : Object} {r : Value}
    (hself : a.config.checkObjectItself = false)
    (hm : metadataOf (own fields) proto declared = .ok m)
    (h : check own a isCreatorOfParent (.obj proto fields) declared = .ok r) :
    ∃ fields', checkFields own a m isCreatorOfParent [] fields = .ok fields'
      ∧ r = .obj proto fields' := by
  rw [check_obj_eq hm, hself, Bool.false_and, if_neg Bool.false_ne_true] at h
  obtain ⟨fields', hloop, h⟩ := Fallible.bind_eq_ok.mp h
  exact ⟨fields', hloop, (Except.ok.inj h).symm⟩

/-- An array that is checked without a throw: its first item answers for all, or
    every item is checked. -/
theorem check_arr_ok {own} {flag : Bool} {declared : Class} {sample r : Value}
    {rest : List Value} (h : check own a flag (.arr (sample :: rest)) declared = .ok r) :
    sampleDecides own sample declared = .ok true
      ∨ ∃ results, checkItems own a flag (sample :: rest) declared = .ok results
          ∧ r = .arr (a.dropUndefined results) := by
  cases hd : sampleDecides own sample declared with
  | error e =>
      rw [check_arr_error hd] at h
      cases h
  | ok d =>
      cases d with
      | true => exact .inl rfl
      | false =>
          right
          rw [check_arr_cons hd] at h
          obtain ⟨result, hs, h⟩ := Fallible.bind_eq_ok.mp h
          rw [Bool.false_and, if_neg Bool.false_ne_true] at h
          obtain ⟨results, hr, h⟩ := Fallible.bind_eq_ok.mp h
          exact ⟨result :: results, by rw [checkItems_cons, hs, hr]; rfl, (Except.ok.inj h).symm⟩

end Walk

/-- The walk as the source reads own constructors. -/
abbrev checkRestricted (a : Access) (isCreatorOfParent : Bool) (data : Value) (declared : Class) :
    Except Failure Value :=
  check ownConstructor a isCreatorOfParent data declared

end Restricted
