import NestServer.ClassHierarchy
import NestServer.OrderedMap
import Mathlib.Data.List.Induction

/-! # The nested-type registry

    `nested-type.registry.ts` and its writer in `unified-field.decorator.ts`: one
    map for all classes, keyed by the name of a class and a property.  What a
    class declares itself is the last type it registered for the property;
    `resolveNestedType_iff` says when the lookup by names finds what the nearest
    class of the chain declares. -/

/-- `@UnifiedField()` on a property of a class, with the type it resolved. -/
structure Registration (Class Ty : Type) where
  target      : Class
  propertyKey : String
  baseType    : Ty
deriving DecidableEq, Repr

namespace NestedTypeRegistry

/-- `${className}.${propertyName}` -/
def registryKey (className propertyKey : String) : String := className ++ "." ++ propertyKey

variable {Class Ty : Type}

/-- The names under which a walk from `ownerClass` looks: those of its chain, and
    behind the last class `Function.prototype`, a function without a name. -/
def namesFrom (h : ClassHierarchy Class) (name : Class → String) (ownerClass : Class) :
    List String :=
  (h.chain ownerClass).map name ++ [""]

/-- `resolveNestedType(ownerClass, propertyKey)` -/
def resolveNestedType (h : ClassHierarchy Class) (name : Class → String)
    (nestedTypeRegistry : OrderedMap String Ty) (ownerClass : Class) (propertyKey : String) :
    Option Ty :=
  (namesFrom h name ownerClass).findSome? fun n =>
    nestedTypeRegistry.get? (registryKey n propertyKey)

/-- `nestedTypeRegistry.set(registryKey, baseType)` -/
def register (name : Class → String) (nestedTypeRegistry : OrderedMap String Ty)
    (r : Registration Class Ty) : OrderedMap String Ty :=
  nestedTypeRegistry.set (registryKey (name r.target) r.propertyKey) r.baseType

/-- The registry after a sequence of registrations. -/
def registry (name : Class → String) (rs : List (Registration Class Ty)) : OrderedMap String Ty :=
  rs.foldl (register name) .empty

/-! ## What the classes declare -/

section Declared

variable [DecidableEq Class]

/-- The last registration of a class for a property. -/
def declaration (rs : List (Registration Class Ty)) (propertyKey : String) (c : Class) :
    Option (Registration Class Ty) :=
  rs.reverse.find? fun r => r.target = c ∧ r.propertyKey = propertyKey

/-- The type that the nearest class of the chain registered for a property. -/
def declaredType (h : ClassHierarchy Class) (rs : List (Registration Class Ty)) (c : Class)
    (propertyKey : String) : Option Ty :=
  (h.nearest (declaration rs propertyKey) c).map Registration.baseType

end Declared

/-! ## What the registry holds -/

variable (name : Class → String) (rs : List (Registration Class Ty))

/-- The last registration under a key, by whichever class. -/
def lastUnder (key : String) : Option (Registration Class Ty) :=
  rs.reverse.find? fun r => registryKey (name r.target) r.propertyKey = key

/-- The last registration under the first key of a walk that has any. -/
def deciding (h : ClassHierarchy Class) (c : Class) (propertyKey : String) :
    Option (Registration Class Ty) :=
  (namesFrom h name c).findSome? fun n => lastUnder name rs (registryKey n propertyKey)

theorem registry_get? (key : String) :
    (registry name rs).get? key = (lastUnder name rs key).map Registration.baseType := by
  induction rs using List.reverseRecOn with
  | nil => rfl
  | append_singleton rs r ih =>
      rw [registry, List.foldl_append, List.foldl_cons, List.foldl_nil, register, lastUnder,
        List.reverse_append, List.reverse_singleton, List.singleton_append]
      by_cases hk : registryKey (name r.target) r.propertyKey = key
      · rw [hk, OrderedMap.get?_set_self, List.find?_cons_of_pos (by simpa using hk)]
        rfl
      · rw [OrderedMap.get?_set_of_ne _ _ (Ne.symm hk),
          List.find?_cons_of_neg (by simpa using hk)]
        exact ih

/-- The walk ends at the deciding registration. -/
theorem resolveNestedType_eq (h : ClassHierarchy Class) (c : Class) (propertyKey : String) :
    resolveNestedType h name (registry name rs) c propertyKey
      = (deciding name rs h c propertyKey).map Registration.baseType := by
  rw [resolveNestedType, deciding]
  induction namesFrom h name c with
  | nil => rfl
  | cons n ns ih =>
      rw [List.findSome?_cons, List.findSome?_cons, registry_get?, ih]
      cases lastUnder name rs (registryKey n propertyKey) with
      | none => rfl
      | some r => rfl

variable [DecidableEq Class] {name rs} {h : ClassHierarchy Class} {c : Class} {propertyKey : String}

variable (name) in
/-- What a class of the chain registered is under a key of the walk. -/
theorem deciding_isSome {r : Registration Class Ty}
    (hr : h.nearest (declaration rs propertyKey) c = some r) :
    (deciding name rs h c propertyKey).isSome = true := by
  obtain ⟨d, hd, hfind⟩ := List.exists_of_findSome?_eq_some hr
  have hmem := List.mem_of_find?_eq_some hfind
  obtain ⟨htarget, hkey⟩ : r.target = d ∧ r.propertyKey = propertyKey := by
    simpa using List.find?_some hfind
  rw [deciding, List.findSome?_isSome_iff]
  refine ⟨name d, List.mem_append_left _ (List.mem_map_of_mem hd), ?_⟩
  rw [lastUnder, List.find?_isSome]
  exact ⟨r, hmem, by simp [htarget, hkey]⟩

/-- **Nested types resolve to the class that declared them** exactly when the
    registration that decides a walk is of the type that the nearest class of the
    chain registered: no other class has written under its key, nor under a key
    that the walk tries before. -/
theorem resolveNestedType_iff (h : ClassHierarchy Class) (name : Class → String)
    (rs : List (Registration Class Ty)) (c : Class) (propertyKey : String) :
    resolveNestedType h name (registry name rs) c propertyKey = declaredType h rs c propertyKey
      ↔ ∀ r, deciding name rs h c propertyKey = some r →
          ∃ own, h.nearest (declaration rs propertyKey) c = some own ∧
          own.baseType = r.baseType := by
  rw [resolveNestedType_eq, declaredType]
  cases hd : deciding name rs h c propertyKey with
  | none =>
      have hnone : h.nearest (declaration rs propertyKey) c = none := by
        cases hn : h.nearest (declaration rs propertyKey) c with
        | none => rfl
        | some own =>
            have hsome := deciding_isSome name hn
            rw [hd] at hsome
            cases hsome
      rw [hnone]
      exact iff_of_true rfl nofun
  | some r =>
      constructor
      · intro heq r' hr'
        cases hr'
        exact Option.map_eq_some_iff.mp heq.symm
      · intro hown
        exact (Option.map_eq_some_iff.mpr (hown r rfl)).symm

/-- Two modules with a class `Entry` each: the later one decides for both. -/
theorem same_name_overwrites :
    resolveNestedType (.flat Bool) (fun _ => "Entry")
        (registry (fun _ => "Entry") [⟨true, "item", "Drug"⟩, ⟨false, "item", "Task"⟩]) true "item"
      ≠ declaredType (.flat Bool) [⟨true, "item", "Drug"⟩,
        ⟨false, "item", "Task"⟩] true "item" := by
  decide

/-! ## Classes with names of their own -/

/-- No two classes share a key of the registry, and none is without a name. -/
structure Unambiguous (name : Class → String) : Prop where
  separate : ∀ c d p q, registryKey (name c) p = registryKey (name d) q → c = d ∧ p = q
  named    : ∀ c p q, registryKey (name c) p ≠ registryKey "" q

theorem lastUnder_eq (hname : Unambiguous name) (rs : List (Registration Class Ty)) (d : Class)
    (propertyKey : String) :
    lastUnder name rs (registryKey (name d) propertyKey) = declaration rs propertyKey d := by
  refine congrArg (fun p => rs.reverse.find? p) (funext fun r => ?_)
  refine decide_eq_decide.mpr ⟨fun hk => hname.separate _ _ _ _ hk, ?_⟩
  rintro ⟨rfl, rfl⟩
  rfl

omit [DecidableEq Class] in
theorem lastUnder_anonymous (hname : Unambiguous name) (rs : List (Registration Class Ty))
    (propertyKey : String) : lastUnder name rs (registryKey "" propertyKey) = none := by
  refine List.find?_eq_none.mpr ?_
  intro r _
  simpa using hname.named r.target r.propertyKey propertyKey

/-- With unambiguous names every lookup finds the declared type. -/
theorem resolveNestedType_of_unambiguous (hname : Unambiguous name)
    (rs : List (Registration Class Ty)) :
    resolveNestedType h name (registry name rs) c propertyKey =
      declaredType h rs c propertyKey := by
  have hdeciding : deciding name rs h c propertyKey = h.nearest (declaration rs propertyKey) c := by
    rw [deciding, namesFrom, List.findSome?_append, List.findSome?_map, List.findSome?_cons,
      lastUnder_anonymous hname]
    have hwalk : (fun d => lastUnder name rs (registryKey (name d) propertyKey))
        = declaration rs propertyKey := funext fun d => lastUnder_eq hname rs d propertyKey
    show ((h.chain c).findSome? fun d => lastUnder name rs (registryKey (name d) propertyKey)).or
        none = _
    rw [hwalk, Option.or_none]
    rfl
  rw [resolveNestedType_eq, hdeciding, declaredType]

end NestedTypeRegistry
