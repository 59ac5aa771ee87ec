import Mathlib.Data.List.Chain
import Mathlib.Data.List.Infix
import NestServer.Fallible
import NestServer.RoleEnum

/-! # Settings from environment variables

    `getEnvironmentObject` of `config.helper.ts` writes each variable whose name starts
    with `NSC__` into one object, along a path that is made of the name.

    Objects are cells: an object is where it is written.  Below the result, which is the
    cell without an owner, there are new objects only; but a path can leave it through a
    member that every object has, as `constructor`, and then goes on in a function of the
    language, which all objects share.

    * `getEnvironmentObject` is the loop, `setValue` the way of one variable;
    * `path_isOk_iff` says which names have a path. -/

namespace EnvironmentObject

/-- A text by its UTF-16 units. -/
abbrev Text := List Nat

/-- `_` -/
def UNDERSCORE : Nat := 0x5F

/-! ## What the language does -/

/-- What an object answers for a name that was not written. -/
inductive Member (φ : Type) where
  | absent
  | function (f : φ)
  | locked
deriving DecidableEq

/-- The methods of texts, `Number`, and the members of objects: those that a function `f` has,
    for `some f`, and those that every object has. -/
structure Runtime (φ ν : Type) where
  toLowerCase : Text → Text
  toUpperCase : Text → Text
  numberOfText : Text → ν
  numberOfBool : Bool → ν
  isNaN : ν → Bool
  isZero : ν → Bool
  member : Option φ → Text → Member φ
  /-- No letter has an underscore for a capital or a small one. -/
  lower_clean : ∀ t, UNDERSCORE ∉ t → UNDERSCORE ∉ toLowerCase t
  upper_clean : ∀ t, UNDERSCORE ∉ t → UNDERSCORE ∉ toUpperCase t
  /-- `__proto__` is the one member of every object that is more than a property to write. -/
  plain_unlocked : ∀ t, UNDERSCORE ∉ t → member none t ≠ .locked

inductive Prim (ν : Type) where
  | bool (b : Bool)
  | number (n : ν)
  | text (t : Text)
deriving DecidableEq

/-- What a property holds. -/
inductive Slot (φ ν : Type) where
  | prim (v : Prim ν)
  | object
  | function (f : φ)
deriving DecidableEq

inductive TypeError where
  | noCharacter
  | noProperty
  | readOnly
deriving DecidableEq

variable {φ ν : Type} (rt : Runtime φ ν)

def truthy : Prim ν → Bool
  | .bool b   => b
  | .number n => !(rt.isZero n || rt.isNaN n)
  | .text t   => t ≠ []

/-! ## The path of a name -/

/-- `key.split('__')` -/
def splitDouble : Text → List Text
  | []             => [[]]
  | [u]            => [[u]]
  | u :: v :: rest =>
      if u = UNDERSCORE ∧ v = UNDERSCORE then [] :: splitDouble rest
      else (splitDouble (v :: rest)).modifyHead fun part => u :: part

/-- `s[0].toUpperCase() + s.slice(1).toLowerCase()` -/
def capitalized : Text → Except TypeError Text
  | []        => .error .noCharacter
  | u :: rest => .ok (rt.toUpperCase [u] ++ rt.toLowerCase rest)

/-- The segment of a part, in camel case. -/
def segment (part : Text) : Except TypeError Text :=
  match part.splitOn UNDERSCORE with
  | []           => .ok []
  | first :: more => do
      let words ← more.mapM (capitalized rt)
      return rt.toLowerCase first ++ words.flatten

def path (adjustedKey : Text) : Except TypeError (List Text) :=
  (splitDouble adjustedKey).mapM (segment rt)

/-! ## Names -/

/-- No two underscores stand together. -/
def Single (part : Text) : Prop := part.IsChain fun u v => ¬(u = UNDERSCORE ∧ v = UNDERSCORE)

theorem splitDouble_ne_nil (t : Text) : splitDouble t ≠ [] := by
  induction t using splitDouble.induct with
  | case1 => exact List.cons_ne_nil _ _
  | case2 u => exact List.cons_ne_nil _ _
  | case3 u v rest hsep ih =>
      rw [splitDouble, if_pos hsep]
      exact List.cons_ne_nil _ _
  | case4 u v rest hsep ih =>
      rw [splitDouble, if_neg hsep]
      intro hnil
      exact ih (List.modifyHead_eq_nil_iff.mp hnil)

/-- The first part of a text is empty or starts as the text does. -/
theorem splitDouble_head (v : Nat) (rest : Text) :
    ∃ part parts, splitDouble (v :: rest) = part :: parts ∧
      (part = [] ∨ part.head? = some v) := by
  cases rest with
  | nil => exact ⟨[v], [], rfl, Or.inr rfl⟩
  | cons w rest =>
      rw [splitDouble]
      split
      · exact ⟨[], _, rfl, Or.inl rfl⟩
      · obtain ⟨part, parts, hparts⟩ := List.exists_cons_of_ne_nil (splitDouble_ne_nil (w :: rest))
        rw [hparts]
        exact ⟨v :: part, parts, rfl, Or.inr rfl⟩

theorem splitDouble_single {t part : Text} (h : part ∈ splitDouble t) : Single part := by
  induction t using splitDouble.induct generalizing part with
  | case1 =>
      rw [List.mem_singleton.mp h]
      exact List.IsChain.nil
  | case2 u =>
      rw [List.mem_singleton.mp h]
      exact List.IsChain.singleton u
  | case3 u v rest hsep ih =>
      rw [splitDouble, if_pos hsep] at h
      rcases List.mem_cons.mp h with rfl | h
      · exact List.IsChain.nil
      · exact ih h
  | case4 u v rest hsep ih =>
      obtain ⟨first, parts, hparts, hfirst⟩ := splitDouble_head v rest
      rw [splitDouble, if_neg hsep, hparts] at h
      rw [hparts] at ih
      rcases List.mem_cons.mp h with rfl | h
      · refine List.isChain_cons.mpr ⟨?_, ih List.mem_cons_self⟩
        intro w hw
        rcases hfirst with rfl | hfirst
        · cases hw
        · rw [hfirst] at hw
          cases hw
          exact hsep
      · exact ih (List.mem_cons_of_mem _ h)

theorem splitOn_underscore (u : Nat) (rest : Text) :
    (u :: rest).splitOn UNDERSCORE =
      if u = UNDERSCORE then [] :: rest.splitOn UNDERSCORE
      else (rest.splitOn UNDERSCORE).modifyHead (List.cons u) := by
  rw [List.splitOn_cons_eq_if_modifyHead]
  simp only [beq_iff_eq]

theorem exists_splitOn (t : Text) : ∃ first more, t.splitOn UNDERSCORE = first :: more := by
  induction t with
  | nil => exact ⟨[], [], rfl⟩
  | cons u rest ih =>
      obtain ⟨first, more, hsplit⟩ := ih
      rw [splitOn_underscore, hsplit]
      split
      · exact ⟨[], _, rfl⟩
      · exact ⟨u :: first, more, rfl⟩

/-- A piece after the first is empty exactly when the part ends with an underscore. -/
theorem nil_mem_pieces_iff {part : Text} (hsingle : Single part) :
    [] ∈ (part.splitOn UNDERSCORE).tail ↔ part.getLast? = some UNDERSCORE := by
  induction part with
  | nil => simp
  | cons u rest ih =>
      obtain ⟨hnext, hrest⟩ := List.isChain_cons.mp hsingle
      obtain ⟨first, more, hsplit⟩ := exists_splitOn rest
      have ih := ih hrest
      rw [splitOn_underscore]
      rw [hsplit, List.tail_cons] at ih
      by_cases hu : u = UNDERSCORE
      · rw [if_pos hu, List.tail_cons]
        cases rest with
        | nil => simp [hu]
        | cons v rest =>
            have hv : v ≠ UNDERSCORE := fun hv => hnext v rfl ⟨hu, hv⟩
            have hfirst : first ≠ [] := by
              rw [splitOn_underscore, if_neg hv] at hsplit
              obtain ⟨first', more', hsplit'⟩ := exists_splitOn rest
              rw [hsplit'] at hsplit
              cases hsplit
              exact List.cons_ne_nil _ _
            rw [hsplit, List.mem_cons, List.getLast?_cons_cons, ← ih]
            exact or_iff_right (Ne.symm hfirst)
      · rw [if_neg hu, hsplit]
        show [] ∈ more ↔ _
        rw [ih]
        cases rest with
        | nil => simp [hu]
        | cons v rest => rw [List.getLast?_cons_cons]

theorem capitalized_isOk_iff {s : Text} : (∃ word, capitalized rt s = .ok word) ↔ s ≠ [] := by
  cases s with
  | nil => simp [capitalized]
  | cons u rest => exact iff_of_true ⟨_, rfl⟩ (List.cons_ne_nil _ _)

theorem segment_isOk_iff {part : Text} (hsingle : Single part) :
    (∃ s, segment rt part = .ok s) ↔ part.getLast? ≠ some UNDERSCORE := by
  rw [ne_eq, ← nil_mem_pieces_iff hsingle]
  obtain ⟨first, more, hsplit⟩ := exists_splitOn part
  rw [segment, hsplit, List.tail_cons]
  have hwords : (∃ words, more.mapM (capitalized rt) = .ok words) ↔ [] ∉ more := by
    rw [Fallible.exists_mapM_ok_iff]
    simp only [capitalized_isOk_iff]
    constructor
    · intro h hmem
      exact h [] hmem rfl
    · intro h s hs hnil
      exact h (hnil ▸ hs)
  rw [← hwords]
  constructor
  · rintro ⟨s, hs⟩
    obtain ⟨words, hmore, _⟩ := Fallible.bind_eq_ok.mp hs
    exact ⟨words, hmore⟩
  · rintro ⟨words, hmore⟩
    exact ⟨_, Fallible.bind_eq_ok.mpr ⟨words, hmore, rfl⟩⟩

/-- **Names.** A name has a path exactly when none of its parts ends with an underscore. -/
theorem path_isOk_iff (adjustedKey : Text) :
    (∃ p, path rt adjustedKey = .ok p) ↔
      ∀ part ∈ splitDouble adjustedKey, part.getLast? ≠ some UNDERSCORE := by
  rw [path, Fallible.exists_mapM_ok_iff]
  exact forall₂_congr fun part hpart => segment_isOk_iff rt (splitDouble_single hpart)

theorem path_ne_nil {adjustedKey : Text} {p : List Text} (h : path rt adjustedKey = .ok p) :
    p ≠ [] := by
  rintro rfl
  have hnil := List.forall₂_nil_right_iff.mp (Fallible.mapM_eq_ok.mp h)
  exact splitDouble_ne_nil _ hnil

theorem notMem_piece {t piece : Text} (h : piece ∈ t.splitOn UNDERSCORE) : UNDERSCORE ∉ piece := by
  induction t generalizing piece with
  | nil =>
      rw [List.mem_singleton.mp h]
      exact List.not_mem_nil
  | cons u rest ih =>
      obtain ⟨first, more, hsplit⟩ := exists_splitOn rest
      rw [splitOn_underscore, hsplit] at h
      rw [hsplit] at ih
      split at h
      · rcases List.mem_cons.mp h with rfl | h
        · exact List.not_mem_nil
        · exact ih h
      · rename_i hu
        rcases List.mem_cons.mp h with rfl | h
        · rw [List.mem_cons, not_or]
          exact ⟨Ne.symm hu, ih List.mem_cons_self⟩
        · exact ih (List.mem_cons_of_mem _ h)

theorem capitalized_clean {s word : Text} (hs : UNDERSCORE ∉ s)
    (h : capitalized rt s = .ok word) : UNDERSCORE ∉ word := by
  cases s with
  | nil => cases h
  | cons u rest =>
      cases h
      rw [List.mem_cons, not_or] at hs
      rw [List.mem_append, not_or]
      exact ⟨rt.upper_clean _ (by simpa using hs.1), rt.lower_clean _ hs.2⟩

/-- A segment has no underscore: `__proto__` is none. -/
theorem segment_clean {part s : Text} (h : segment rt part = .ok s) : UNDERSCORE ∉ s := by
  obtain ⟨first, more, hsplit⟩ := exists_splitOn part
  have hpiece : ∀ piece ∈ first :: more, UNDERSCORE ∉ piece := by
    intro piece hmem
    exact notMem_piece (hsplit ▸ hmem)
  rw [segment, hsplit] at h
  obtain ⟨words, hwords, h⟩ := Fallible.bind_eq_ok.mp h
  cases h
  rw [List.mem_append, not_or, List.mem_flatten]
  refine ⟨rt.lower_clean _ (hpiece first List.mem_cons_self), ?_⟩
  rintro ⟨word, hword, hmem⟩
  obtain ⟨piece, hp, hok⟩ := Fallible.exists_of_mem_mapM hwords hword
  exact capitalized_clean rt (hpiece piece (List.mem_cons_of_mem _ hp)) hok hmem

theorem path_clean {adjustedKey : Text} {p : List Text} (h : path rt adjustedKey = .ok p) :
    ∀ s ∈ p, UNDERSCORE ∉ s := by
  intro s hs
  obtain ⟨part, _, hok⟩ := Fallible.exists_of_mem_mapM h hs
  exact segment_clean rt hok

/-! ## The value of a variable -/

/-- What `processEnv` holds. -/
abbrev EnvValue (ν : Type) := Prim ν

/-- `Number(value)` -/
def number : EnvValue ν → ν
  | .bool b   => rt.numberOfBool b
  | .number n => n
  | .text t   => rt.numberOfText t

def textIs (value : EnvValue ν) (text : String) : Bool :=
  match value with
  | .text t => t = JsText.utf16 text
  | _       => false

/-- Value preparation. -/
def prepared (value : EnvValue ν) : Prim ν :=
  if textIs value "true" then .bool true
  else if textIs value "false" then .bool false
  else if rt.isNaN (number rt value) then value
  else .number (number rt value)

/-! ## The object -/

variable [DecidableEq φ]

/-- A cell: below the result (`none`) or a function of the language, and the way to it. -/
abbrev Place (φ : Type) := Option φ × List Text

/-- The result itself. -/
def root : Place φ := (none, [])

/-- The cell of a property. -/
def child (current : Place φ) (segment : Text) : Place φ := (current.1, current.2 ++ [segment])

/-- What was written, by its cell. -/
abbrev Heap (φ ν : Type) := Place φ → Option (Slot φ ν)

/-- The cell is strictly below the other. -/
def Below (above q : Place φ) : Prop := q.1 = above.1 ∧ above.2 <+: q.2 ∧ q ≠ above

instance (above q : Place φ) : Decidable (Below above q) :=
  inferInstanceAs (Decidable (_ ∧ _ ∧ _))

/-- A property is written.  What was below it is not reached from it any more. -/
def put (heap : Heap φ ν) (place : Place φ) (slot : Slot φ ν) : Heap φ ν := fun q =>
  if q = place then some slot else if Below place q then none else heap q

/-- What the object in a cell answers for a name that was not written. -/
def memberOf (current : Place φ) (segment : Text) : Member φ :=
  rt.member (if current.2 = [] then current.1 else none) segment

/-- The loop over a path, from the object `current` on. -/
def setValue (value : Prim ν) (heap : Heap φ ν) (current : Place φ) :
    List Text → Except TypeError (Heap φ ν)
  | []                      => .ok heap
  | [segment]               =>
      if (heap (child current segment)).isNone ∧ memberOf rt current segment = .locked then
        .error .readOnly
      else .ok (put heap (child current segment) (.prim value))
  | segment :: next :: rest =>
      let cell := child current segment
      match heap cell with
      | some (.prim v)     =>
          -- a value that is not an object takes no property, which the next round finds
          if truthy rt v then .error .noProperty
          else setValue value (put heap cell .object) cell (next :: rest)
      | some .object       => setValue value heap cell (next :: rest)
      | some (.function f) => setValue value heap (some f, []) (next :: rest)
      | none               =>
          match memberOf rt current segment with
          | .absent     => setValue value (put heap cell .object) cell (next :: rest)
          | .function f => setValue value (put heap cell (.function f)) (some f, []) (next :: rest)
          | .locked     => .error .readOnly

/-- A variable. -/
abbrev Entry (ν : Type) := Text × EnvValue ν

/-- One round over the variables. -/
def addEntry (keyPrefix : Text) (output : Heap φ ν) (entry : Entry ν) :
    Except TypeError (Heap φ ν) := do
  let path ← path rt (entry.1.drop keyPrefix.length)
  setValue rt (prepared rt entry.2) output root path

/-- Those that are for the configuration. -/
def settings (keyPrefix : Text) (processEnv : List (Entry ν)) : List (Entry ν) :=
  processEnv.filter fun entry => keyPrefix.isPrefixOf entry.1

def getEnvironmentObject (keyPrefix : Text) (processEnv : List (Entry ν)) :
    Except TypeError (Heap φ ν) :=
  (settings keyPrefix processEnv).foldlM (addEntry rt keyPrefix) fun _ => none

/-- What is found at a path, among the properties that were written. -/
def found (heap : Heap φ ν) (current : Place φ) : List Text → Option (Slot φ ν)
  | []                      => none
  | [segment]               => heap (child current segment)
  | segment :: next :: rest =>
      match heap (child current segment) with
      | some .object       => found heap (child current segment) (next :: rest)
      | some (.function f) => found heap (some f, []) (next :: rest)
      | _                  => none

/-- The object that is returned, as everything that can be found in it. -/
def objectOf (heap : Heap φ ν) : List Text → Option (Slot φ ν) := found heap root

end EnvironmentObject
