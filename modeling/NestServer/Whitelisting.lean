import NestServer.Ai.Json
import NestServer.NestedTypeRegistry

/-! # Whitelisting of input fields

    `processNonWhitelistedFields` of `map-and-validate.pipe.ts` walks a payload
    along the declared types of its properties.  In `strip` mode it takes out what
    no `@UnifiedField` declares, in `error` mode it lists it.

    The two modes agree at every depth (`errors_eq_removed`).  They are complete
    (`whitelisting_complete_iff`) except for arrays that stand inside arrays: the
    walk passes those over. -/

/-- Input classes, with what the decorators recorded on the prototype of each and
    the registry of nested types. -/
structure InputClasses (Class : Type) extends ClassHierarchy Class where
  name               : Class → String
  included           : Class → List String
  excluded           : Class → List String
  forceIncluded      : Class → List String
  nestedTypeRegistry : OrderedMap String Class

namespace InputClasses

variable {Class : Type} (F : InputClasses Class)

/-- `exclude: false` or `exclude: true`, at the nearest class that says either. -/
def explicitly (key : String) (c : Class) : Option Bool :=
  F.nearest (fun d => if key ∈ F.forceIncluded d then some true
    else if key ∈ F.excluded d then some false else none) c

def isWhitelisted (c : Class) (key : String) : Bool :=
  (F.explicitly key c).getD ((F.chain c).any fun d => (F.included d).contains key)

/-- `getUnifiedFieldKeys(metatype)` -/
def getUnifiedFieldKeys (c : Class) : List String :=
  ((F.chain c).flatMap fun d => F.included d ++ F.forceIncluded d).filter (F.isWhitelisted c)

/-- The walk for a nested type: along the chain, over `Function.prototype`, to
    `Object.prototype`, which has no `name`. -/
def nestedType (c : Class) (key : String) : Option Class :=
  (NestedTypeRegistry.namesFrom F.toClassHierarchy F.name c ++ ["undefined"]).findSome? fun n =>
    F.nestedTypeRegistry.get? (NestedTypeRegistry.registryKey n key)

end InputClasses

/-- Input classes that each declare a property. -/
structure InputFamily (Class : Type) extends InputClasses Class where
  declares : ∀ c, toInputClasses.getUnifiedFieldKeys c ≠ []

namespace Whitelisting

inductive Mode where
  | strip | error
deriving DecidableEq, Repr

/-- `path ? path + '.' + key : key` -/
def fullPath (path key : String) : String := if path = "" then key else path ++ "." ++ key

/-- `${fullPath}[${i}]` -/
def itemPath (path : String) (i : Nat) : String := path ++ "[" ++ toString i ++ "]"

section Walk

variable {Class : Type} (F : InputClasses Class)

mutual

/-- The loop over the keys of `plainValue`: what is left of it, and the forbidden
    keys. -/
def processFields (mode : Mode) (path : String) (c : Class) :
    List (String × Json) → List (String × Json) × List String
  | [] => ([], [])
  | (key, v) :: rest =>
      let others := processFields mode path c rest
      if (F.getUnifiedFieldKeys c).contains key then
        match F.nestedType c key with
        | none => ((key, v) :: others.1, others.2)
        | some nestedType =>
            let value := processValue mode (fullPath path key) nestedType v
            ((key, value.1) :: others.1, value.2 ++ others.2)
      else match mode with
        | .strip => others
        | .error => ((key, v) :: others.1, fullPath path key :: others.2)

/-- A value of a property with a nested type. -/
def processValue (mode : Mode) (path : String) (c : Class) : Json → Json × List String
  | .obj fields =>
      if F.getUnifiedFieldKeys c = [] then (.obj fields, [])
      else
        let object := processFields mode path c fields
        (.obj object.1, object.2)
  | .arr items =>
      let array := processItems mode path c 0 items
      (.arr array.1, array.2)
  | .null => (.null, [])
  | .bool b => (.bool b, [])
  | .num t => (.num t, [])
  | .str s => (.str s, [])

/-- The items of an array from the `i`th on: only objects are looked into. -/
def processItems (mode : Mode) (path : String) (c : Class) (i : Nat) :
    List Json → List Json × List String
  | [] => ([], [])
  | .obj fields :: rest =>
      let others := processItems mode path c (i + 1) rest
      if F.getUnifiedFieldKeys c = [] then (.obj fields :: others.1, others.2)
      else
        let object := processFields mode (itemPath path i) c fields
        (.obj object.1 :: others.1, object.2 ++ others.2)
  | item :: rest =>
      let others := processItems mode path c (i + 1) rest
      (item :: others.1, others.2)

end

/-- `processNonWhitelistedFields(plainValue, metatype, mode)`: what is left of the
    object, and the returned list. -/
def processNonWhitelistedFields (plainValue : List (String × Json)) (metatype : Class)
    (mode : Mode) : List (String × Json) × List String :=
  if F.getUnifiedFieldKeys metatype = [] then (plainValue, [])
  else processFields F mode "" metatype plainValue

end Walk

/-! ## What the classes declare -/

section Declared

variable {Class : Type} (F : InputClasses Class)

mutual

/-- No object under a value, through arrays of any depth, has a key that its class
    does not declare. -/
def Clean (c : Class) : Json → Prop
  | .obj fields => CleanFields c fields
  | .arr items  => CleanItems c items
  | .null | .bool _ | .num _ | .str _ => True

def CleanFields (c : Class) : List (String × Json) → Prop
  | [] => True
  | (key, v) :: rest =>
      (F.getUnifiedFieldKeys c).contains key = true
        ∧ (match F.nestedType c key with
          | none => True
          | some nestedType => Clean nestedType v)
        ∧ CleanFields c rest

def CleanItems (c : Class) : List Json → Prop
  | []           => True
  | item :: rest => Clean c item ∧ CleanItems c rest

end

mutual

/-- The declared part of a value, through arrays of any depth. -/
def declared (c : Class) : Json → Json
  | .obj fields => .obj (declaredFields c fields)
  | .arr items  => .arr (declaredItems c items)
  | .null   => .null
  | .bool b => .bool b
  | .num t  => .num t
  | .str s  => .str s

def declaredFields (c : Class) : List (String × Json) → List (String × Json)
  | [] => []
  | (key, v) :: rest =>
      if (F.getUnifiedFieldKeys c).contains key then
        (key, match F.nestedType c key with
          | none => v
          | some nestedType => declared nestedType v) :: declaredFields c rest
      else declaredFields c rest

def declaredItems (c : Class) : List Json → List Json
  | []           => []
  | item :: rest => declared c item :: declaredItems c rest

end

end Declared

mutual

/-- The paths of the keys that one value has and what was left of it has not. -/
def removed (path : String) : Json → Json → List String
  | .obj fields, .obj left => removedFields path fields left
  | .arr items, .arr left  => removedItems path 0 items left
  | _, _                   => []

def removedFields (path : String) : List (String × Json) → List (String × Json) → List String
  | [], _ => []
  | (key, _) :: rest, [] => fullPath path key :: removedFields path rest []
  | (key, v) :: rest, (k, w) :: left =>
      if key = k then removed (fullPath path key) v w ++ removedFields path rest left
      else fullPath path key :: removedFields path rest ((k, w) :: left)

def removedItems (path : String) (i : Nat) : List Json → List Json → List String
  | item :: rest, l :: left => removed (itemPath path i) item l ++
      removedItems path (i + 1) rest left
  | _, _ => []

end

/-! ## One turn of the loop -/

section Turns

variable {Class : Type} {F : InputClasses Class} {mode : Mode} {path key : String} {c d : Class}
  {v : Json} {rest : List (String × Json)}

theorem processFields_plain (hk : (F.getUnifiedFieldKeys c).contains key = true)
    (hn : F.nestedType c key = none) :
    processFields F mode path c ((key, v) :: rest)
      = ((key, v) :: (processFields F mode path c rest).1,
        (processFields F mode path c rest).2) := by
  rw [processFields.eq_def]
  dsimp only
  rw [if_pos hk, hn]

theorem processFields_nested (hk : (F.getUnifiedFieldKeys c).contains key = true)
    (hn : F.nestedType c key = some d) :
    processFields F mode path c ((key, v) :: rest)
      = ((key, (processValue F mode (fullPath path key) d v).1) ::
        (processFields F mode path c rest).1, (processValue F mode (fullPath path key) d v).2 ++
        (processFields F mode path c rest).2) := by
  rw [processFields.eq_def]
  dsimp only
  rw [if_pos hk, hn]

theorem strip_forbidden (hk : (F.getUnifiedFieldKeys c).contains key = false) :
    processFields F .strip path c ((key, v) :: rest) = processFields F .strip path c rest := by
  rw [processFields.eq_def]
  exact if_neg (Bool.eq_false_iff.mp hk)

theorem error_forbidden (hk : (F.getUnifiedFieldKeys c).contains key = false) :
    processFields F .error path c ((key, v) :: rest)
      = ((key, v) :: (processFields F .error path c rest).1,
        fullPath path key :: (processFields F .error path c rest).2) := by
  rw [processFields.eq_def]
  exact if_neg (Bool.eq_false_iff.mp hk)

theorem processItems_obj (hc : F.getUnifiedFieldKeys c ≠ []) (i : Nat)
    (fields : List (String × Json)) (items : List Json) :
    processItems F mode path c i (.obj fields :: items)
      = (.obj (processFields F mode (itemPath path i) c fields).1
          :: (processItems F mode path c (i + 1) items).1,
        (processFields F mode (itemPath path i) c fields).2
          ++ (processItems F mode path c (i + 1) items).2) :=
  if_neg hc

/-- Any other item is passed over, an array as well. -/
theorem processItems_other {item : Json} (h : ∀ fields, item ≠ .obj fields) (i : Nat)
    (items : List Json) :
    processItems F mode path c i (item :: items)
      = (item :: (processItems F mode path c (i + 1) items).1,
        (processItems F mode path c (i + 1) items).2) := by
  cases item with
  | obj fields => exact absurd rfl (h fields)
  | _ => rfl

/-- What stripping leaves has declared keys only. -/
theorem declared_of_stripped {e : String × Json} (h : e ∈ (processFields F .strip path c rest).1) :
    (F.getUnifiedFieldKeys c).contains e.1 = true := by
  induction rest with
  | nil => exact absurd h List.not_mem_nil
  | cons e' rest ih =>
      obtain ⟨key, v⟩ := e'
      cases hk : (F.getUnifiedFieldKeys c).contains key with
      | false =>
          rw [strip_forbidden hk] at h
          exact ih h
      | true =>
          cases hn : F.nestedType c key with
          | none =>
              rw [processFields_plain hk hn] at h
              rcases List.mem_cons.mp h with rfl | h
              · exact hk
              · exact ih h
          | some d =>
              rw [processFields_nested hk hn] at h
              rcases List.mem_cons.mp h with rfl | h
              · exact hk
              · exact ih h

/-- A key that stripping takes out is not the first of what it leaves. -/
theorem removedFields_forbidden (p : String) (hk : (F.getUnifiedFieldKeys c).contains key = false) :
    removedFields path ((key, v) :: rest) (processFields F .strip p c rest).1
      = fullPath path key :: removedFields path rest (processFields F .strip p c rest).1 := by
  cases hleft : (processFields F .strip p c rest).1 with
  | nil => rw [removedFields]
  | cons e left =>
      obtain ⟨k, w⟩ := e
      rw [removedFields, if_neg]
      rintro rfl
      have hdeclared := declared_of_stripped (hleft ▸ List.mem_cons_self)
      rw [hk] at hdeclared
      cases hdeclared

end Turns

mutual

theorem removed_self : ∀ (path : String) (v : Json), removed path v v = []
  | _, .obj fields => by
      rw [removed]
      exact removedFields_self _ fields
  | _, .arr items => by
      rw [removed]
      exact removedItems_self _ 0 items
  | _, .null => rfl
  | _, .bool _ => rfl
  | _, .num _ => rfl
  | _, .str _ => rfl

theorem removedFields_self : ∀ (path : String) (fields : List (String × Json)),
    removedFields path fields fields = []
  | _, [] => rfl
  | path, (key, v) :: rest => by
      rw [removedFields, if_pos rfl, removed_self _ v, removedFields_self path rest]
      rfl

theorem removedItems_self : ∀ (path : String) (i : Nat) (items : List Json),
    removedItems path i items items = []
  | _, _, [] => rfl
  | path, i, item :: rest => by
      rw [removedItems, removed_self _ item, removedItems_self path (i + 1) rest]
      rfl

end

/-! ## The two modes agree -/

section Agree

variable {Class : Type} (F : InputFamily Class)

mutual

/-- **`error` mode lists what `strip` mode takes out**, whatever the paths. -/
theorem errors_eq_removed (p : String) : ∀ (path : String) (c : Class)
    (fields : List (String × Json)),
    (processFields F.toInputClasses .error path c fields).2
      = removedFields path fields (processFields F.toInputClasses .strip p c fields).1
  | _, _, [] => rfl
  | path, c, (key, v) :: rest => by
      have ih := errors_eq_removed p path c rest
      cases hk : (F.getUnifiedFieldKeys c).contains key with
      | false => rw [error_forbidden hk, strip_forbidden hk, removedFields_forbidden p hk, ih]
      | true =>
          cases hn : F.nestedType c key with
          | none =>
              rw [processFields_plain hk hn, processFields_plain hk hn, removedFields, if_pos rfl,
                removed_self, List.nil_append, ih]
          | some d =>
              rw [processFields_nested hk hn, processFields_nested hk hn, removedFields, if_pos rfl,
                errorsValue_eq_removed _ _ d v, ih]

theorem errorsValue_eq_removed (p : String) : ∀ (path : String) (c : Class) (v : Json),
    (processValue F.toInputClasses .error path c v).2
      = removed path v (processValue F.toInputClasses .strip p c v).1
  | path, c, .obj fields => by
      rw [processValue, processValue, if_neg (F.declares c), if_neg (F.declares c), removed]
      exact errors_eq_removed p path c fields
  | path, c, .arr items => by
      rw [processValue, processValue, removed]
      exact errorsItems_eq_removed p path c 0 0 items
  | _, _, .null => rfl
  | _, _, .bool _ => rfl
  | _, _, .num _ => rfl
  | _, _, .str _ => rfl

theorem errorsItems_eq_removed (p : String) : ∀ (path : String) (c : Class) (i j : Nat)
    (items : List Json),
    (processItems F.toInputClasses .error path c i items).2
      = removedItems path i items (processItems F.toInputClasses .strip p c j items).1
  | _, _, _, _, [] => rfl
  | path, c, i, j, .obj fields :: rest => by
      rw [processItems_obj (F.declares c), processItems_obj (F.declares c), removedItems, removed,
        errors_eq_removed (itemPath p j) _ c fields,
        errorsItems_eq_removed p path c (i + 1) (j + 1) rest]
  | path, c, i, j, .null :: rest | path, c, i, j, .bool _ :: rest | path, c, i, j, .num _ :: rest
  | path, c, i, j, .str _ :: rest | path, c, i, j, .arr _ :: rest => by
      rw [processItems_other (by nofun), processItems_other (by nofun), removedItems, removed_self,
        List.nil_append]
      exact errorsItems_eq_removed p path c (i + 1) (j + 1) rest

end

mutual

/-- Nothing is removed exactly where stripping changes nothing. -/
theorem removedFields_eq_nil_iff (p : String) : ∀ (path : String) (c : Class)
    (fields : List (String × Json)),
    removedFields path fields (processFields F.toInputClasses .strip p c fields).1 = []
      ↔ (processFields F.toInputClasses .strip p c fields).1 = fields
  | _, _, [] => iff_of_true rfl rfl
  | path, c, (key, v) :: rest => by
      have ih := removedFields_eq_nil_iff p path c rest
      cases hk : (F.getUnifiedFieldKeys c).contains key with
      | false =>
          rw [strip_forbidden hk, removedFields_forbidden p hk]
          refine iff_of_false (List.cons_ne_nil _ _) ?_
          intro hsame
          have hdeclared := declared_of_stripped (hsame ▸ List.mem_cons_self :
            (key, v) ∈ (processFields F.toInputClasses .strip p c rest).1)
          rw [hk] at hdeclared
          cases hdeclared
      | true =>
          cases hn : F.nestedType c key with
          | none =>
              rw [processFields_plain hk hn, removedFields, if_pos rfl, removed_self,
                List.nil_append, ih, List.cons.injEq, and_iff_right rfl]
          | some d =>
              rw [processFields_nested hk hn, removedFields, if_pos rfl, List.append_eq_nil_iff, ih,
                removed_eq_nil_iff _ _ d v, List.cons.injEq, Prod.mk.injEq, and_iff_right rfl]

theorem removed_eq_nil_iff (p : String) : ∀ (path : String) (c : Class) (v : Json),
    removed path v (processValue F.toInputClasses .strip p c v).1 = []
      ↔ (processValue F.toInputClasses .strip p c v).1 = v
  | path, c, .obj fields => by
      rw [processValue, if_neg (F.declares c), removed, Json.obj.injEq]
      exact removedFields_eq_nil_iff p path c fields
  | path, c, .arr items => by
      rw [processValue, removed, Json.arr.injEq]
      exact removedItems_eq_nil_iff p path c 0 0 items
  | _, _, .null => iff_of_true rfl rfl
  | _, _, .bool _ => iff_of_true rfl rfl
  | _, _, .num _ => iff_of_true rfl rfl
  | _, _, .str _ => iff_of_true rfl rfl

theorem removedItems_eq_nil_iff (p : String) : ∀ (path : String) (c : Class) (i j : Nat)
    (items : List Json),
    removedItems path i items (processItems F.toInputClasses .strip p c j items).1 = []
      ↔ (processItems F.toInputClasses .strip p c j items).1 = items
  | _, _, _, _, [] => iff_of_true rfl rfl
  | path, c, i, j, .obj fields :: rest => by
      rw [processItems_obj (F.declares c), removedItems, removed, List.append_eq_nil_iff,
        removedFields_eq_nil_iff (itemPath p j) _ c fields,
        removedItems_eq_nil_iff p path c (i + 1) (j + 1) rest, List.cons.injEq, Json.obj.injEq]
  | path, c, i, j, .null :: rest | path, c, i, j, .bool _ :: rest | path, c, i, j, .num _ :: rest
  | path, c, i, j, .str _ :: rest | path, c, i, j, .arr _ :: rest => by
      rw [processItems_other (by nofun), removedItems, removed_self, List.nil_append,
        List.cons.injEq, and_iff_right rfl]
      exact removedItems_eq_nil_iff p path c (i + 1) (j + 1) rest

end

end Agree

/-! ## Completeness -/

section Complete

variable {Class : Type} (F : InputClasses Class)

mutual

/-- Every array that stands inside an array under a declared nested property is
    clean as it is. -/
def InnerArraysClean (c : Class) : Json → Prop
  | .obj fields => FieldsInnerArraysClean c fields
  | .arr items  => ItemsInnerArraysClean c items
  | .null | .bool _ | .num _ | .str _ => True

def FieldsInnerArraysClean (c : Class) : List (String × Json) → Prop
  | [] => True
  | (key, v) :: rest =>
      ((F.getUnifiedFieldKeys c).contains key = true →
        match F.nestedType c key with
        | none => True
        | some nestedType => InnerArraysClean nestedType v)
      ∧ FieldsInnerArraysClean c rest

def ItemsInnerArraysClean (c : Class) : List Json → Prop
  | [] => True
  | .obj fields :: rest => FieldsInnerArraysClean c fields ∧ ItemsInnerArraysClean c rest
  | item :: rest => Clean F c item ∧ ItemsInnerArraysClean c rest

end

/-- What whitelisting promises of what is left of an object, and of the list. -/
structure Whitelisted (c : Class) (plainValue left : List (String × Json))
    (forbiddenKeys : List String) : Prop where
  clean  : CleanFields F c left
  kept   : declaredFields F c left = declaredFields F c plainValue
  listed : forbiddenKeys = removedFields "" plainValue left
  silent : forbiddenKeys = [] ↔ left = plainValue

end Complete

section Complete

variable {Class : Type} (F : InputFamily Class)

mutual

theorem clean_stripped_iff (p : String) : ∀ (c : Class) (fields : List (String × Json)),
    CleanFields F.toInputClasses c (processFields F.toInputClasses .strip p c fields).1
      ↔ FieldsInnerArraysClean F.toInputClasses c fields
  | _, [] => Iff.rfl
  | c, (key, v) :: rest => by
      have ih := clean_stripped_iff p c rest
      rw [FieldsInnerArraysClean]
      cases hk : (F.getUnifiedFieldKeys c).contains key with
      | false =>
          rw [strip_forbidden hk, ih]
          exact (and_iff_right fun h => nomatch h).symm
      | true =>
          cases hn : F.nestedType c key with
          | none =>
              rw [processFields_plain hk hn, CleanFields, ih, hk, hn]
              simp
          | some d =>
              rw [processFields_nested hk hn, CleanFields, ih, hk, hn]
              simp [cleanValue_stripped_iff _ d v]

theorem cleanValue_stripped_iff (p : String) : ∀ (c : Class) (v : Json),
    Clean F.toInputClasses c (processValue F.toInputClasses .strip p c v).1
      ↔ InnerArraysClean F.toInputClasses c v
  | c, .obj fields => by
      rw [processValue, if_neg (F.declares c), Clean, InnerArraysClean]
      exact clean_stripped_iff p c fields
  | c, .arr items => by
      rw [processValue, Clean, InnerArraysClean]
      exact cleanItems_stripped_iff p c 0 items
  | _, .null | _, .bool _ | _, .num _ | _, .str _ => Iff.rfl

theorem cleanItems_stripped_iff (p : String) : ∀ (c : Class) (i : Nat) (items : List Json),
    CleanItems F.toInputClasses c (processItems F.toInputClasses .strip p c i items).1
      ↔ ItemsInnerArraysClean F.toInputClasses c items
  | _, _, [] => Iff.rfl
  | c, i, .obj fields :: rest => by
      rw [processItems_obj (F.declares c), CleanItems, Clean, ItemsInnerArraysClean,
        clean_stripped_iff _ c fields, cleanItems_stripped_iff p c (i + 1) rest]
  | c, i, .null :: rest | c, i, .bool _ :: rest | c, i, .num _ :: rest | c, i, .str _ :: rest
  | c, i, .arr _ :: rest => by
      rw [processItems_other (by nofun), CleanItems, ItemsInnerArraysClean,
        cleanItems_stripped_iff p c (i + 1) rest]
      nofun

end

mutual

/-- Stripping leaves the declared part as it is. -/
theorem declared_stripped (p : String) : ∀ (c : Class) (fields : List (String × Json)),
    declaredFields F.toInputClasses c (processFields F.toInputClasses .strip p c fields).1
      = declaredFields F.toInputClasses c fields
  | _, [] => rfl
  | c, (key, v) :: rest => by
      have ih := declared_stripped p c rest
      cases hk : (F.getUnifiedFieldKeys c).contains key with
      | false => rw [strip_forbidden hk, ih, declaredFields, if_neg (Bool.eq_false_iff.mp hk)]
      | true =>
          cases hn : F.nestedType c key with
          | none =>
              rw [processFields_plain hk hn, declaredFields, declaredFields, if_pos hk, if_pos hk,
                ih]
          | some d =>
              rw [processFields_nested hk hn, declaredFields, declaredFields, if_pos hk, if_pos hk,
                hn, ih]
              dsimp only
              rw [declaredValue_stripped _ d v]

theorem declaredValue_stripped (p : String) : ∀ (c : Class) (v : Json),
    declared F.toInputClasses c (processValue F.toInputClasses .strip p c v).1
      = declared F.toInputClasses c v
  | c, .obj fields => by
      rw [processValue, if_neg (F.declares c), declared, declared, declared_stripped p c fields]
  | c, .arr items => by
      rw [processValue, declared, declared, declaredItems_stripped p c 0 items]
  | _, .null | _, .bool _ | _, .num _ | _, .str _ => rfl

theorem declaredItems_stripped (p : String) : ∀ (c : Class) (i : Nat) (items : List Json),
    declaredItems F.toInputClasses c (processItems F.toInputClasses .strip p c i items).1
      = declaredItems F.toInputClasses c items
  | _, _, [] => rfl
  | c, i, .obj fields :: rest => by
      rw [processItems_obj (F.declares c), declaredItems, declaredItems, declared, declared,
        declared_stripped _ c fields, declaredItems_stripped p c (i + 1) rest]
  | c, i, .null :: rest | c, i, .bool _ :: rest | c, i, .num _ :: rest | c, i, .str _ :: rest
  | c, i, .arr _ :: rest => by
      rw [processItems_other (by nofun), declaredItems, declaredItems,
        declaredItems_stripped p c (i + 1) rest]

end

/-- **Whitelisting is complete** exactly where every array inside an array, under
    the declared nested properties, has nothing to strip. -/
theorem whitelisting_complete_iff (c : Class) (plainValue : List (String × Json)) :
    Whitelisted F.toInputClasses c plainValue
        (processNonWhitelistedFields F.toInputClasses plainValue c .strip).1
        (processNonWhitelistedFields F.toInputClasses plainValue c .error).2
      ↔ FieldsInnerArraysClean F.toInputClasses c plainValue := by
  rw [processNonWhitelistedFields, processNonWhitelistedFields, if_neg (F.declares c),
    if_neg (F.declares c)]
  have hlisted := errors_eq_removed F "" "" c plainValue
  constructor
  · intro h
    exact (clean_stripped_iff F "" c plainValue).mp h.clean
  · intro h
    refine ⟨(clean_stripped_iff F "" c plainValue).mpr h, declared_stripped F "" c plainValue,
      hlisted, ?_⟩
    rw [hlisted]
    exact removedFields_eq_nil_iff F "" "" c plainValue

/-- A grid of cells: its rows are arrays inside an array. -/
def grid : InputFamily Bool where
  toClassHierarchy   := .flat Bool
  name c             := if c then "Grid" else "Cell"
  included c         := if c then ["rows"] else ["value"]
  excluded _         := []
  forceIncluded _    := []
  nestedTypeRegistry := OrderedMap.empty.set "Grid.rows" false
  declares c         := by
    cases c
    · decide
    · decide

/-- A key that no cell declares passes inside a row. -/
theorem row_is_not_stripped :
    ¬ Whitelisted grid.toInputClasses true
        [("rows", .arr [.arr [.obj [("value", .num "1"), ("isAdmin", .bool true)]]])]
        (processNonWhitelistedFields grid.toInputClasses
          [("rows", .arr [.arr [.obj [("value", .num "1"), ("isAdmin", .bool true)]]])] true
            .strip).1
        (processNonWhitelistedFields grid.toInputClasses
          [("rows", .arr [.arr [.obj [("value", .num "1"), ("isAdmin", .bool true)]]])] true
            .error).2 := by
  intro h
  have hinner := (clean_stripped_iff grid "" true _).mp h.clean
  obtain ⟨⟨-, -, hadmin, -⟩, -⟩ := (hinner.1 rfl).1
  cases hadmin

end Complete

/-! ## The declared part -/

section Declared

variable {Class : Type} {F : InputClasses Class}

mutual

theorem declared_of_clean : ∀ {c : Class} {fields : List (String × Json)},
    CleanFields F c fields → declaredFields F c fields = fields
  | _, [], _ => rfl
  | c, (key, v) :: rest, h => by
      obtain ⟨hk, hv, hrest⟩ := h
      rw [declaredFields, if_pos hk, declared_of_clean hrest]
      cases hn : F.nestedType c key with
      | none => rfl
      | some d =>
          rw [hn] at hv
          dsimp only
          rw [declaredValue_of_clean hv]

theorem declaredValue_of_clean : ∀ {c : Class} {v : Json}, Clean F c v → declared F c v = v
  | _, .obj _, h => by rw [declared, declared_of_clean h]
  | _, .arr _, h => by rw [declared, declaredItems_of_clean h]
  | _, .null, _ | _, .bool _, _ | _, .num _, _ | _, .str _, _ => rfl

theorem declaredItems_of_clean : ∀ {c : Class} {items : List Json},
    CleanItems F c items → declaredItems F c items = items
  | _, [], _ => rfl
  | _, _ :: _, h => by
      rw [declaredItems, declaredValue_of_clean h.1, declaredItems_of_clean h.2]

end

/-- What is promised leaves exactly the declared part. -/
theorem Whitelisted.left_eq {c : Class} {plainValue left : List (String × Json)}
    {forbiddenKeys : List String} (h : Whitelisted F c plainValue left forbiddenKeys) :
    left = declaredFields F c plainValue := by
  rw [← h.kept, declared_of_clean h.clean]

end Declared

end Whitelisting
