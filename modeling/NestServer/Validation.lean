import NestServer.NestedTypeRegistry

/-! # Validation with inheritance

    `validateWithInheritance` of `map-and-validate.pipe.ts` goes from the class of an
    object to its base classes.  A property counts as validated when its constraints
    have been looked at; two exits come before that.  What the nearest class skips,
    a base class validates.

    `validateWithInheritance_iff` says when the nearest class that declares a property
    is the only one that decides about it. -/

namespace Validation

/-! ## Values and metadata -/

/-- What an input consists of, and what `plainToInstance` makes of it. -/
inductive Value (Class : Type) where
  | undefined
  | null
  | bool (b : Bool)
  | num (text : String)
  | str (s : String)
  | date (time : Int)
  | arr (items : List (Value Class))
  | obj (constructor : Option Class) (fields : List (String × Value Class))

namespace Value

variable {Class : Type}

def isNullish : Value Class → Bool
  | undefined | null => true
  | _                => false

/-- `value && typeof value === 'object'` -/
def isObject : Value Class → Bool
  | date _ | arr _ | obj _ _ => true
  | _                        => false

/-- The own keys, with their values. -/
def fields : Value Class → List (String × Value Class)
  | obj _ fields => fields
  | _            => []

def constructor? : Value Class → Option Class
  | obj constructor _ => constructor
  | _                 => none

/-- `value.constructor` is `Object`, or missing. -/
def isPlain : Value Class → Bool
  | obj none _ => true
  | _          => false

end Value

abbrev Fields (Class : Type) := List (String × Value Class)

/-- `fields[key]` -/
def get {Class : Type} (fields : Fields Class) (key : String) : Value Class :=
  ((fields.find? fun f => f.1 = key).map Prod.snd).getD .undefined

/-- The constraints the pipe has a case for. -/
inductive BuiltIn where
  | arrayMaxSize | arrayMinSize | isArray | isBoolean | isDate | isDateString | isDefined
  | isEmail | isEnum | isInt | isNotEmpty | isNumber | isString | isUrl
  | max | maxLength | min | minLength
deriving DecidableEq, Repr

namespace BuiltIn

def key : BuiltIn → String
  | arrayMaxSize => "arrayMaxSize"
  | arrayMinSize => "arrayMinSize"
  | isArray      => "isArray"
  | isBoolean    => "isBoolean"
  | isDate       => "isDate"
  | isDateString => "isDateString"
  | isDefined    => "isDefined"
  | isEmail      => "isEmail"
  | isEnum       => "isEnum"
  | isInt        => "isInt"
  | isNotEmpty   => "isNotEmpty"
  | isNumber     => "isNumber"
  | isString     => "isString"
  | isUrl        => "isUrl"
  | max          => "max"
  | maxLength    => "maxLength"
  | min          => "min"
  | minLength    => "minLength"

/-- Whether the case looks at the elements of an array. -/
def takesEach : BuiltIn → Bool
  | arrayMaxSize | arrayMinSize | isArray | isDefined => false
  | _                                                 => true

/-- `errorMessage`; the second text is that of `constraints?.[0]`. -/
def message (propertyName constraint : String) : BuiltIn → String
  | arrayMaxSize => s!"{propertyName} must contain no more than {constraint} elements"
  | arrayMinSize => s!"{propertyName} must contain at least {constraint} elements"
  | isArray      => s!"{propertyName} must be an array"
  | isBoolean    => s!"{propertyName} must be a boolean value"
  | isDate       => s!"{propertyName} must be a Date instance"
  | isDateString => s!"{propertyName} must be a valid ISO 8601 date string"
  | isDefined    => s!"{propertyName} should not be null or undefined"
  | isEmail      => s!"{propertyName} must be an email"
  | isEnum       => s!"{propertyName} must be a valid enum value"
  | isInt        => s!"{propertyName} must be an integer number"
  | isNotEmpty   => s!"{propertyName} should not be empty"
  | isNumber     => s!"{propertyName} must be a number conforming to the specified constraints"
  | isString     => s!"{propertyName} must be a string"
  | isUrl        => s!"{propertyName} must be an URL address"
  | max          => s!"{propertyName} must not be greater than {constraint}"
  | maxLength    =>
      s!"{propertyName} must be shorter than or equal to {constraint} characters"
  | min          => s!"{propertyName} must not be less than {constraint}"
  | minLength    =>
      s!"{propertyName} must be longer than or equal to {constraint} characters"

end BuiltIn

/-- The class of a custom constraint: `none` where a method throws. -/
structure Constraint (Class : Type) where
  validate       : Option (Value Class → Fields Class → Option Bool)
  defaultMessage : Option (Value Class → Option String) := none

/-- What a decorator registers, by the `type` of its metadata. -/
inductive Rule (Class : Type) where
  /-- `@IsOptional()` -/
  | isOptional
  /-- `@ValidateIf(condition)`; a condition may throw -/
  | validateIf (condition : Option (Fields Class → Value Class → Option Bool))
  | builtIn (type : BuiltIn) (constraint : Option (Value Class))
  | customValidation (name : Option String) (constraintCls : Option (Constraint Class))
  | nestedValidation
  /-- a type the pipe has no case for -/
  | other

/-- `ValidationMetadata` -/
structure ValidationMetadata (Class : Type) where
  propertyName : String
  rule         : Rule Class
  each         : Bool := false
  /-- a message of the validation options, with its tokens replaced -/
  message      : Option (Value Class → String) := none

/-- `ValidationError`, without the value and the target. -/
inductive ValidationError where
  | mk (property : String) (constraints : List (String × String)) (children : List ValidationError)

namespace ValidationError

def property : ValidationError → String
  | mk property _ _ => property

def constraints : ValidationError → List (String × String)
  | mk _ constraints _ => constraints

def children : ValidationError → List ValidationError
  | mk _ _ children => children

/-- `err.property = i + '.' + err.property` -/
def under (i : Nat) : ValidationError → ValidationError
  | mk property constraints children => mk (toString i ++ "." ++ property) constraints children

end ValidationError

/-- The classes, what is registered for each of them, and the libraries. -/
structure Registry (Class : Type) extends ClassHierarchy Class where
  name               : Class → String
  /-- the metadata registered directly on a class -/
  metadata           : Class → List (ValidationMetadata Class)
  /-- whether `design:type` of a property is `Date` -/
  isDateType         : Class → String → Bool
  /-- `new Date(text)`, where that is a date -/
  parseDate          : String → Option Int
  nestedTypeRegistry : OrderedMap String Class
  plainToInstance    : Class → Value Class → Value Class
  /-- the functions of the validator library, with `constraints?.[0]` -/
  isValid            : BuiltIn → Value Class → Option (Value Class) → Bool
  /-- the text of a constraint in a message -/
  textOf             : Option (Value Class) → String

variable {Class : Type} (R : Registry Class)

/-! ## One property -/

/-- The instance a class validates: the keys of the plain input with their transformed
    values. -/
def tempInstance (c : Class) (object : Fields Class) (originalPlainValue : Option (Fields Class)) :
    Fields Class :=
  (originalPlainValue.getD []).map fun entry =>
    let value := ((object.find? fun f => f.1 = entry.1).map Prod.snd).getD entry.2
    (entry.1, match value with
      | .str s => if R.isDateType c entry.1 then ((R.parseDate s).map .date).getD value else value
      | _      => value)

/-- The metadata of a class for a property. -/
def metadataFor (c : Class) (propertyName : String) : List (ValidationMetadata Class) :=
  (R.metadata c).filter fun m => m.propertyName = propertyName

/-- The properties a class has metadata for, in the order of their first one. -/
def propertiesOf (c : Class) : List String :=
  (R.metadata c).foldl (fun names m =>
    if names.contains m.propertyName then names else names ++ [m.propertyName]) []

def Rule.isOptional? : Rule Class → Bool
  | .isOptional => true
  | _           => false

def Rule.isDefined? : Rule Class → Bool
  | .builtIn .isDefined _ => true
  | _                     => false

/-- The condition of the first `@ValidateIf()` of a property. -/
def conditionOf (metadataList : List (ValidationMetadata Class)) :
    Option (Fields Class → Value Class → Option Bool) :=
  (metadataList.findSome? fun m => match m.rule with
    | .validateIf condition => some condition
    | _                     => none).join

/-- The two early exits: a condition that does not hold, or that throws, and an
    optional property without a value. -/
def isSkipped (metadataList : List (ValidationMetadata Class)) (instanceFields : Fields Class)
    (value : Value Class) : Bool :=
  let isOptional := metadataList.any fun m => m.rule.isOptional?
  let hasIsDefined := metadataList.any fun m => m.rule.isDefined?
  ((conditionOf metadataList).any fun condition =>
    !(condition instanceFields value).getD false)
    || (!hasIsDefined && isOptional && value.isNullish)

/-- `constraints[key] = message` -/
def setConstraint (constraints : List (String × String)) (key message : String) :
    List (String × String) :=
  if constraints.any fun e => e.1 = key then
    constraints.map fun e => if e.1 = key then (key, message) else e
  else constraints ++ [(key, message)]

/-- A case of the switch that calls the library. -/
def failsBuiltIn (m : ValidationMetadata Class) (type : BuiltIn) (constraint : Option (Value Class))
    (value : Value Class) : Bool :=
  match value with
  | .arr items =>
      if type.takesEach && m.each then !items.all fun item => R.isValid type item constraint
      else !R.isValid type value constraint
  | _          => !R.isValid type value constraint

/-- `customValidation`: what is added to the constraints. -/
def customError (m : ValidationMetadata Class) (name : Option String)
    (constraintCls : Option (Constraint Class)) (instanceFields : Fields Class)
    (value : Value Class) : Option (String × String) := do
  let cls ← constraintCls
  let validate ← cls.validate
  let valid ← match value with
    | .arr items =>
        if m.each then (items.mapM fun item => validate item instanceFields).map (·.all id)
        else validate value instanceFields
    | _          => validate value instanceFields
  if valid then none
  else
    let key := (name.filter (· ≠ "")).getD "customValidation"
    match m.message, cls.defaultMessage with
    | some message, _              => some (key, message value)
    | none, some defaultMessage    => (defaultMessage value).map fun text =>
        (key, if text = "" then s!"{m.propertyName} failed custom validation" else text)
    | none, none                   => some (key, s!"{m.propertyName} failed custom validation")

/-- The instance that a nested object is validated as. -/
def transformItem (nestedType : Class) (item : Value Class) : Value Class :=
  if item.isPlain then R.plainToInstance nestedType item else item

section

variable (nested : Value Class → Value Class → List ValidationError)

/-- `nestedValidation`; `nested` is the validation of an instance and its plain value. -/
def nestedErrors (c : Class) (propertyName : String) (value : Value Class) : List ValidationError :=
  match R.nestedTypeRegistry.get? (NestedTypeRegistry.registryKey (R.name c) propertyName) with
  | none            => []
  | some nestedType =>
      match value with
      | .arr items => items.zipIdx.flatMap fun e =>
          if e.1.isObject && (transformItem R nestedType e.1).isObject then
            (nested (transformItem R nestedType e.1) e.1).map (ValidationError.under e.2)
          else []
      | item       =>
          if item.isObject && (transformItem R nestedType item).isObject then
            nested (transformItem R nestedType item) item
          else []

/-- One constraint of the loop over the metadata of a property. -/
def applyConstraint (c : Class) (instanceFields : Fields Class) (value : Value Class)
    (error : ValidationError) (m : ValidationMetadata Class) : ValidationError :=
  match m.rule with
  | .builtIn type constraint =>
      if failsBuiltIn R m type constraint value then
        .mk error.property (setConstraint error.constraints type.key
          (match m.message with
            | some message => message value
            | none         => type.message m.propertyName (R.textOf constraint))) error.children
      else error
  | .customValidation name constraintCls =>
      match customError m name constraintCls instanceFields value with
      | some (key, message) =>
          .mk error.property (setConstraint error.constraints key message) error.children
      | none                => error
  | .nestedValidation =>
      match nestedErrors R nested c m.propertyName value with
      | []     => error
      | errors => .mk error.property error.constraints errors
  | _ => error

/-- The value of a property in the instance of a class. -/
def valueOf (c : Class) (object : Fields Class) (original : Option (Fields Class))
    (propertyName : String) : Value Class :=
  get (tempInstance R c object original) propertyName

/-- Whether a class skips a property. -/
def skips (object : Fields Class) (original : Option (Fields Class)) (c : Class)
    (propertyName : String) : Bool :=
  isSkipped (metadataFor R c propertyName) (tempInstance R c object original)
    (valueOf R c object original propertyName)

/-- The error of a property by the metadata of a class, unless the class skips it. -/
def errorOf (object : Fields Class) (original : Option (Fields Class)) (c : Class)
    (propertyName : String) : Option ValidationError :=
  if skips R object original c propertyName then none
  else
    let error := (metadataFor R c propertyName).foldl
      (applyConstraint R nested c (tempInstance R c object original)
        (valueOf R c object original propertyName)) (.mk propertyName [] [])
    if error.constraints.isEmpty && error.children.isEmpty then none else some error

/-! ## The loops -/

/-- The loop over the properties of a class: `validatedProperties` and the errors. -/
def validateProperties (object : Fields Class) (original : Option (Fields Class)) (c : Class) :
    List String → List String → List String × List ValidationError
  | validated, []                => (validated, [])
  | validated, propertyName :: rest =>
      if validated.contains propertyName then validateProperties object original c validated rest
      else if skips R object original c propertyName then
        validateProperties object original c validated rest
      else
        let others := validateProperties object original c (propertyName :: validated) rest
        (others.1, (errorOf R nested object original c propertyName).toList ++ others.2)

/-- The loop over the prototype chain. -/
def validateChain (object : Fields Class) (original : Option (Fields Class)) :
    List String → List Class → List ValidationError
  | _, []              => []
  | validated, c :: chain =>
      let own := validateProperties R nested object original c validated (propertiesOf R c)
      own.2 ++ validateChain object original own.1 chain

/-- One object: `Object` has no metadata. -/
def validateObject (object : Value Class) (original : Option (Fields Class)) :
    List ValidationError :=
  match object.constructor? with
  | none   => []
  | some c => validateChain R nested object.fields original [] (R.chain c)

end

/-- `validateWithInheritance(object, originalPlainValue)`, down to a depth. -/
def validateWithInheritance : Nat → Value Class → Option (Fields Class) → List ValidationError
  | 0, _, _                  => []
  | depth + 1, object, original =>
      validateObject R (fun item plain => validateWithInheritance depth item (some plain.fields))
        object original

/-! ## Who decides about a property -/

/-- A class that has metadata for a property, and the more derived classes. -/
structure Declaration (Class : Type) where
  derived      : List Class
  target       : Class
  propertyName : String

/-- The declarations of a chain, from the most derived class on. -/
def declarations (derived : List Class) : List Class → List (Declaration Class)
  | []         => []
  | c :: chain =>
      (propertiesOf R c).map (fun p => ⟨derived, c, p⟩) ++ declarations (derived ++ [c]) chain

/-- Whether a class has metadata for a property. -/
def declares (c : Class) (propertyName : String) : Bool := (propertiesOf R c).contains propertyName

section

variable (nested : Value Class → Value Class → List ValidationError)
  (object : Fields Class) (original : Option (Fields Class))

/-- A class that declares the property has looked at its constraints. -/
def validates (c : Class) (propertyName : String) : Bool :=
  declares R c propertyName && !skips R object original c propertyName

/-- The errors where the most derived class that declares a property is the only one that
    decides about it. -/
def errorsByNearest (chain : List Class) : List ValidationError :=
  (declarations R [] chain).filterMap fun d =>
    if d.derived.any fun c => declares R c d.propertyName then none
    else errorOf R nested object original d.target d.propertyName

/-- No class finds an error in a property that the more derived classes with metadata
    for it have skipped. -/
def NothingRevived (chain : List Class) : Prop :=
  ∀ d ∈ declarations R [] chain, (∃ c ∈ d.derived, declares R c d.propertyName = true) →
    (∀ c ∈ d.derived, declares R c d.propertyName = true →
      skips R object original c d.propertyName = true) →
    errorOf R nested object original d.target d.propertyName = none

end

/-! ## The loop over the properties -/

theorem propertiesOf_nodup (c : Class) : (propertiesOf R c).Nodup := by
  have hstep : ∀ (ms : List (ValidationMetadata Class)) (names : List String), names.Nodup →
      (ms.foldl (fun names m => if names.contains m.propertyName then names
        else names ++ [m.propertyName]) names).Nodup := by
    intro ms
    induction ms with
    | nil => exact fun names h => h
    | cons m ms ih =>
        intro names h
        rw [List.foldl_cons]
        by_cases hm : names.contains m.propertyName = true
        · rw [if_pos hm]
          exact ih names h
        · rw [if_neg hm]
          refine ih _ (List.nodup_append.mpr ⟨h, List.nodup_singleton _, ?_⟩)
          rintro p hp _ hsame rfl
          rw [List.mem_singleton.mp hsame] at hp
          exact hm (by simpa using hp)
  exact hstep (R.metadata c) [] List.nodup_nil

section

variable {R} {nested : Value Class → Value Class → List ValidationError} {object : Fields Class}
  {original : Option (Fields Class)} {c : Class}

/-- The errors are those of the properties that are not validated yet. -/
theorem validateProperties_errors {names : List String} (hnodup : names.Nodup)
    (validated : List String) :
    (validateProperties R nested object original c validated names).2 = names.filterMap fun p =>
      if validated.contains p then none else errorOf R nested object original c p := by
  induction names generalizing validated with
  | nil => rfl
  | cons p rest ih =>
      obtain ⟨hp, hrest⟩ := List.nodup_cons.mp hnodup
      rw [validateProperties, List.filterMap_cons]
      by_cases hvalidated : validated.contains p = true
      · rw [if_pos hvalidated, if_pos hvalidated, ih hrest]
      · rw [if_neg hvalidated, if_neg hvalidated]
        by_cases hskips : skips R object original c p = true
        · have herror : errorOf R nested object original c p = none := if_pos hskips
          rw [if_pos hskips, herror, ih hrest]
        · rw [if_neg hskips]
          -- the property is marked, and does not occur again
          have hmark : (validateProperties R nested object original c (p :: validated) rest).2
              = rest.filterMap fun q =>
                if validated.contains q then none else errorOf R nested object original c q := by
            rw [ih hrest]
            refine List.filterMap_congr fun q hq => ?_
            have hne : q ≠ p := fun h => hp (h ▸ hq)
            rw [List.contains_cons, beq_false_of_ne hne, Bool.false_or]
          dsimp only
          rw [hmark]
          cases errorOf R nested object original c p <;> rfl

/-- A property is validated afterwards if it was, or if the class does not skip it. -/
theorem validateProperties_validated (names validated : List String) (p : String) :
    p ∈ (validateProperties R nested object original c validated names).1
      ↔ p ∈ validated ∨ p ∈ names ∧ skips R object original c p = false := by
  induction names generalizing validated with
  | nil => simp [validateProperties]
  | cons q rest ih =>
      rw [validateProperties]
      by_cases hvalidated : validated.contains q = true
      · have hq : q ∈ validated := by simpa using hvalidated
        rw [if_pos hvalidated, ih]
        constructor
        · exact Or.imp_right fun h => ⟨List.mem_cons_of_mem _ h.1, h.2⟩
        · rintro (h | ⟨hmem, hskips⟩)
          · exact Or.inl h
          · rcases List.mem_cons.mp hmem with rfl | hmem
            · exact Or.inl hq
            · exact Or.inr ⟨hmem, hskips⟩
      · rw [if_neg hvalidated]
        by_cases hskips : skips R object original c q = true
        · rw [if_pos hskips, ih]
          constructor
          · exact Or.imp_right fun h => ⟨List.mem_cons_of_mem _ h.1, h.2⟩
          · rintro (h | ⟨hmem, hp⟩)
            · exact Or.inl h
            · rcases List.mem_cons.mp hmem with rfl | hmem
              · rw [hskips] at hp
                cases hp
              · exact Or.inr ⟨hmem, hp⟩
        · rw [if_neg hskips]
          dsimp only
          rw [ih, List.mem_cons, List.mem_cons]
          constructor
          · rintro ((rfl | h) | h)
            · exact Or.inr ⟨Or.inl rfl, by simpa using hskips⟩
            · exact Or.inl h
            · exact Or.inr ⟨Or.inr h.1, h.2⟩
          · rintro (h | ⟨rfl | h, hp⟩)
            · exact Or.inl (Or.inr h)
            · exact Or.inl (Or.inl rfl)
            · exact Or.inr ⟨h, hp⟩

/-! ## The loop over the chain -/

/-- What the code reports: what no more derived class has validated. -/
theorem validateChain_eq (derived : List Class) (validated : List String) (chain : List Class)
    (hvalidated : ∀ p, p ∈ validated ↔
      (derived.any fun c => validates R object original c p) = true) :
    validateChain R nested object original validated chain
      = (declarations R derived chain).filterMap fun d =>
        if d.derived.any fun c => validates R object original c d.propertyName then none
        else errorOf R nested object original d.target d.propertyName := by
  induction chain generalizing derived validated with
  | nil => rfl
  | cons c chain ih =>
      rw [validateChain, declarations, List.filterMap_append, List.filterMap_map,
        validateProperties_errors (propertiesOf_nodup R c), ih (derived ++ [c])]
      · congr 1
        refine List.filterMap_congr fun p _ => ?_
        show _ = if derived.any fun c => validates R object original c p then none else _
        by_cases hp : p ∈ validated
        · rw [if_pos (by simpa using hp), if_pos ((hvalidated p).mp hp)]
        · rw [if_neg (by simpa using hp), if_neg (mt (hvalidated p).mpr hp)]
      · intro p
        rw [validateProperties_validated, hvalidated, List.any_append, Bool.or_eq_true]
        refine or_congr_right ?_
        rw [List.any_cons, List.any_nil, Bool.or_false, validates, Bool.and_eq_true, declares]
        simp

end

/-! ## The most derived class decides -/

/-- Two selections, of which the first leaves something out, agree as a whole only if
    they agree on each element. -/
theorem filterMap_eq_filterMap_iff {α β : Type} {f g : α → Option β} {l : List α}
    (h : ∀ a ∈ l, f a = none ∨ f a = g a) :
    l.filterMap f = l.filterMap g ↔ ∀ a ∈ l, f a = g a := by
  refine ⟨?_, List.filterMap_congr⟩
  have hshorter : ∀ l : List α, (∀ a ∈ l, f a = none ∨ f a = g a) →
      (l.filterMap f).length ≤ (l.filterMap g).length := by
    intro l h
    induction l with
    | nil => exact Nat.le_refl _
    | cons a l ih =>
        have hrest := ih fun b hb => h b (List.mem_cons_of_mem _ hb)
        rw [List.filterMap_cons, List.filterMap_cons]
        rcases h a List.mem_cons_self with hnone | hsame
        · rw [hnone]
          cases g a with
          | none   => exact hrest
          | some b => exact Nat.le_succ_of_le hrest
        · rw [hsame]
          cases g a with
          | none   => exact hrest
          | some b => exact Nat.succ_le_succ hrest
  induction l with
  | nil => exact fun _ _ ha => absurd ha List.not_mem_nil
  | cons a l ih =>
      have hrest : ∀ b ∈ l, f b = none ∨ f b = g b := fun b hb => h b (List.mem_cons_of_mem _ hb)
      intro heq
      rw [List.filterMap_cons, List.filterMap_cons] at heq
      have ha : f a = g a ∧ l.filterMap f = l.filterMap g := by
        rcases h a List.mem_cons_self with hnone | hsame
        · rw [hnone] at heq
          cases hg : g a with
          | none =>
              rw [hg] at heq
              exact ⟨hnone, heq⟩
          | some b =>
              -- the second one is longer
              rw [hg] at heq
              have hle := hshorter l hrest
              have hlength := congrArg List.length heq
              dsimp only [List.length_cons] at hlength
              omega
        · rw [hsame] at heq
          refine ⟨hsame, ?_⟩
          cases hg : g a with
          | none   => rwa [hg] at heq
          | some b =>
              rw [hg] at heq
              exact List.cons_injective heq
      intro b hb
      rcases List.mem_cons.mp hb with rfl | hb
      · exact ha.1
      · exact ih hrest ha.2 b hb

section

variable (nested : Value Class → Value Class → List ValidationError)
  (object : Fields Class) (original : Option (Fields Class))

/-- For one declaration: it is decided by the nearest class exactly if nothing is
    revived. -/
theorem decided_iff (d : Declaration Class) :
    (if d.derived.any fun c => declares R c d.propertyName then none
        else errorOf R nested object original d.target d.propertyName)
      = (if d.derived.any fun c => validates R object original c d.propertyName then none
        else errorOf R nested object original d.target d.propertyName)
    ↔ ((∃ c ∈ d.derived, declares R c d.propertyName = true) →
        (∀ c ∈ d.derived, declares R c d.propertyName = true →
          skips R object original c d.propertyName = true) →
        errorOf R nested object original d.target d.propertyName = none) := by
  by_cases hdeclares : (d.derived.any fun c => declares R c d.propertyName) = true
  · rw [if_pos hdeclares]
    have hexists : ∃ c ∈ d.derived, declares R c d.propertyName = true :=
      List.any_eq_true.mp hdeclares
    by_cases hvalidates : (d.derived.any fun c => validates R object original c d.propertyName) =
      true
    · rw [if_pos hvalidates]
      refine iff_of_true rfl fun _ hskips => ?_
      obtain ⟨c, hc, hvalidated⟩ := List.any_eq_true.mp hvalidates
      rw [validates, Bool.and_eq_true] at hvalidated
      rw [hskips c hc hvalidated.1] at hvalidated
      cases hvalidated.2
    · rw [if_neg hvalidates]
      have hskips : ∀ c ∈ d.derived, declares R c d.propertyName = true →
          skips R object original c d.propertyName = true := by
        intro c hc hdeclared
        by_contra hnot
        refine hvalidates (List.any_eq_true.mpr ⟨c, hc, ?_⟩)
        rw [validates, hdeclared, Bool.true_and, Bool.not_eq_true']
        simpa using hnot
      exact ⟨fun h _ _ => h.symm, fun h => (h hexists hskips).symm⟩
  · have hvalidates : ¬ (d.derived.any fun c => validates R object original c d.propertyName) =
        true := by
      intro h
      obtain ⟨c, hc, hvalidated⟩ := List.any_eq_true.mp h
      rw [validates, Bool.and_eq_true] at hvalidated
      exact hdeclares (List.any_eq_true.mpr ⟨c, hc, hvalidated.1⟩)
    rw [if_neg hdeclares, if_neg hvalidates]
    refine iff_of_true rfl fun hexists => ?_
    exact absurd (List.any_eq_true.mpr hexists) hdeclares

end

/-- The prototype chain of an object; that of a plain one has no metadata. -/
def chainOf (object : Value Class) : List Class := (object.constructor?.map R.chain).getD []

/-- **`validateWithInheritance`.** Exactly the most derived class that declares a property
    decides about it, if and only if no class finds an error in a property that the more
    derived classes with metadata for it have skipped. -/
theorem validateWithInheritance_iff (depth : Nat) (object : Value Class)
    (original : Option (Fields Class)) :
    validateWithInheritance R (depth + 1) object original
        = errorsByNearest R
          (fun item plain => validateWithInheritance R depth item (some plain.fields))
          object.fields original (chainOf R object)
      ↔ NothingRevived R
          (fun item plain => validateWithInheritance R depth item (some plain.fields))
          object.fields original (chainOf R object) := by
  generalize hnested :
    (fun item plain => validateWithInheritance R depth item (some (Value.fields plain))) = nested
  have hcode : validateWithInheritance R (depth + 1) object original
      = validateChain R nested object.fields original [] (chainOf R object) := by
    rw [validateWithInheritance, hnested, validateObject, chainOf]
    cases object.constructor? <;> rfl
  have hempty : ∀ p, p ∈ ([] : List String)
      ↔ (([] : List Class).any fun c => validates R object.fields original c p) = true :=
    fun p => iff_of_false List.not_mem_nil Bool.false_ne_true
  rw [hcode, validateChain_eq [] [] _ hempty, eq_comm, errorsByNearest, filterMap_eq_filterMap_iff]
  · exact forall₂_congr fun d _ => decided_iff R nested object.fields original d
  · intro d _
    by_cases hdeclares : (d.derived.any fun c => declares R c d.propertyName) = true
    · exact Or.inl (if_pos hdeclares)
    · refine Or.inr ((decided_iff R nested object.fields original d).mpr fun hexists => ?_)
      exact absurd (List.any_eq_true.mpr hexists) hdeclares

/-- An input class that makes optional what its base class requires. -/
def optionalName : Registry Bool where
  parent             := fun derived => if derived then some false else none
  chain              := fun derived => if derived then [true, false] else [false]
  chain_eq           := by decide
  name               := fun derived => if derived then "UserInput" else "UserCreateInput"
  metadata           := fun derived =>
    if derived then [{ propertyName := "name", rule := .isOptional }]
    else [{ propertyName := "name", rule := .builtIn .isString none }]
  isDateType         := fun _ _ => false
  parseDate          := fun _ => none
  nestedTypeRegistry := ⟨[], List.nodup_nil⟩
  plainToInstance    := fun c value => .obj (some c) value.fields
  isValid            := fun _ value _ => match value with
    | .str _ => true
    | _      => false
  textOf             := fun _ => ""

/-- The base class reports the name that the derived class makes optional. -/
theorem base_class_reports :
    ¬ ∀ (R : Registry Bool) (depth : Nat) (object : Value Bool) (original : Option (Fields Bool)),
      validateWithInheritance R (depth + 1) object original
        = errorsByNearest R
          (fun item plain => validateWithInheritance R depth item (some plain.fields))
          object.fields original (chainOf R object) := by
  intro h
  have heq := congrArg List.length (h optionalName 0 (.obj (some true) []) (some []))
  have hcode : (validateWithInheritance optionalName 1 (.obj (some true) []) (some [])).length =
      1 := by
    decide +kernel
  have hmeant : (errorsByNearest optionalName
      (fun item plain => validateWithInheritance optionalName 0 item (some plain.fields))
      [] (some []) [true, false]).length = 0 := by decide +kernel
  rw [hcode] at heq
  exact absurd (heq.trans hmeant) (by decide)

end Validation
