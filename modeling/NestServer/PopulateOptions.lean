import Mathlib.Data.List.Forall2

/-! # Populate options of a selection

    `getPopulateOptions` of `db.helper.ts` goes down a dot-separated path through
    the selections of a GraphQL request and translates what it finds there.  The
    path loses a segment in every round, the cursor moves only where the segment is
    selected: a segment that is not is passed over.

    * `names_options`: the options name the selected object fields and, for each of
      them, its selected scalars;
    * `getPopulateOptions_iff` says when the walk answers for the path. -/

namespace DbHelper

/-! ## Selections -/

/-- A name is never empty. -/
structure FieldName where
  value    : String
  nonempty : value ≠ ""
deriving DecidableEq

/-- A field of a selection; a scalar selects nothing. -/
inductive FieldNode where
  | mk (name : FieldName) (selections : List FieldNode)

namespace FieldNode

def name : FieldNode → FieldName
  | mk name _ => name

def selections : FieldNode → List FieldNode
  | mk _ selections => selections

/-- An object field, as opposed to a scalar. -/
def isObject (node : FieldNode) : Bool := !node.selections.isEmpty

/-- `name.value === segment` -/
def isNamed (segment : String) (node : FieldNode) : Bool := node.name.value = segment

end FieldNode

/-- `PopulateOptions`, as far as it is built here. -/
inductive PopulateOptions where
  | mk (path : String) (select : Option (List String)) (populate : Option (List PopulateOptions))

namespace PopulateOptions

def path : PopulateOptions → String
  | mk path _ _ => path

def select : PopulateOptions → Option (List String)
  | mk _ select _ => select

def populate : PopulateOptions → Option (List PopulateOptions)
  | mk _ _ populate => populate

/-- `option.select ? option.select.push(name) : (option.select = [name])` -/
def addSelect (option : PopulateOptions) (name : String) : PopulateOptions :=
  mk option.path (some (option.select.getD [] ++ [name])) option.populate

/-- `option.populate ? option.populate.concat(inner) : inner` -/
def addPopulate (option : PopulateOptions) (inner : List PopulateOptions) : PopulateOptions :=
  mk option.path option.select (some (option.populate.getD [] ++ inner))

end PopulateOptions

/-! ## From selections to options -/

mutual

/-- One round of the loop: the option of a node, if it has any content. -/
def optionsOfNode : FieldNode → List PopulateOptions
  | .mk name selections =>
      let option := addSelections (.mk name.value none none) selections
      if option.select.isSome || option.populate.isSome then [option] else []

/-- The inner loop: subfields that are primitive are selected, objects are populated. -/
def addSelections (option : PopulateOptions) : List FieldNode → PopulateOptions
  | []                             => option
  | .mk name [] :: rest            => addSelections (option.addSelect name.value) rest
  | .mk name (inner :: more) :: rest =>
      addSelections (option.addPopulate (optionsOfNode (.mk name (inner :: more)))) rest

end

/-- `getPopulatOptionsFromSelections` -/
def getPopulatOptionsFromSelections (selectionNodes : List FieldNode) : List PopulateOptions :=
  selectionNodes.flatMap optionsOfNode

/-! ## The way down -/

/-- The loop over the segments behind the first one. -/
def descend : List FieldNode → List String → Option (List FieldNode)
  | _, []                         => none
  | [], _ :: _                    => none
  | selections, select :: selects =>
      match selections.find? (FieldNode.isNamed select) with
      | some selection =>
          if selects.isEmpty then some selection.selections
          else descend selection.selections selects
      | none           => descend selections selects

/-- A root field, for the path. -/
def descendFrom (fieldNode : FieldNode) : List String → Option (List FieldNode)
  | []                      => none
  | fieldNodeName :: selects =>
      if fieldNode.isNamed fieldNodeName && fieldNode.isObject then
        if selects.isEmpty then some fieldNode.selections else descend fieldNode.selections selects
      else none

def segments (path : String) : List String := (path.toList.splitOn '.').map String.ofList

/-- `getPopulateOptions`: `fieldNodes` are those of the resolve info. -/
def getPopulateOptions (fieldNodes : List FieldNode) (dotSeparatedSelect : String) :
    List PopulateOptions :=
  if dotSeparatedSelect = "" then []
  else
    match fieldNodes.findSome? fun f => descendFrom f (segments dotSeparatedSelect) with
    | some selections => getPopulatOptionsFromSelections selections
    | none            => []

/-! ## What is selected -/

/-- The option names the object field, its scalars, and so on for its object fields. -/
inductive Names : PopulateOptions → FieldNode → Prop where
  | mk {option : PopulateOptions} {node : FieldNode} (path : option.path = node.name.value)
      (select : option.select.getD []
        = (node.selections.filter fun n => !n.isObject).map fun n => n.name.value)
      (populate : List.Forall₂ Names (option.populate.getD [])
        (node.selections.filter FieldNode.isObject)) : Names option node

/-- The selections at the end of a path, each segment selected at its level. -/
def selectionsAt : List FieldNode → List String → Option (List FieldNode)
  | _, []                         => none
  | selections, select :: selects =>
      (selections.find? (FieldNode.isNamed select)).bind fun selection =>
        if selects.isEmpty then some selection.selections
        else selectionsAt selection.selections selects

/-- What the path selects below the object fields at the root. -/
def selectionsOnPath (fieldNodes : List FieldNode) (path : String) : Option (List FieldNode) :=
  (fieldNodes.filter FieldNode.isObject).findSome? fun f => selectionsAt [f] (segments path)

/-- The populate options of the selections on the path; none, if a segment is not
    selected at its level. -/
def optionsOnPath (fieldNodes : List FieldNode) (path : String) : List PopulateOptions :=
  ((selectionsOnPath fieldNodes path).map getPopulatOptionsFromSelections).getD []

/-- The path without the segments that are not selected where they are met, unless the
    last one is among them. -/
def shortened : List FieldNode → List String → Option (List String)
  | _, []                         => none
  | [], _ :: _                    => none
  | selections, select :: selects =>
      match selections.find? (FieldNode.isNamed select) with
      | some selection =>
          if selects.isEmpty then some [select]
          else (shortened selection.selections selects).map (select :: ·)
      | none           => shortened selections selects

def shortenedFrom (fieldNode : FieldNode) : List String → Option (List String)
  | []                      => none
  | fieldNodeName :: selects =>
      if fieldNode.isNamed fieldNodeName && fieldNode.isObject then
        if selects.isEmpty then some [fieldNodeName]
        else (shortened fieldNode.selections selects).map (fieldNodeName :: ·)
      else none

/-- The first root field below which anything is left of the path, and what is left. -/
def leftOfPath (fieldNodes : List FieldNode) (path : String) : Option (FieldNode × List String) :=
  fieldNodes.findSome? fun f => (shortenedFrom f (segments path)).map fun left => (f, left)

/-- What is left of the path is all of it, or leads to the same options. -/
def Straight (fieldNodes : List FieldNode) (path : String) : Prop :=
  ∀ f left, leftOfPath fieldNodes path = some (f, left) → left ≠ segments path →
    getPopulatOptionsFromSelections ((selectionsAt [f] left).getD []) = optionsOnPath fieldNodes path

/-! ## The translation -/

namespace PopulateOptions

@[simp] theorem path_addSelect (option : PopulateOptions) (name : String) :
    (option.addSelect name).path = option.path := rfl

@[simp] theorem select_addSelect (option : PopulateOptions) (name : String) :
    (option.addSelect name).select = some (option.select.getD [] ++ [name]) := rfl

@[simp] theorem populate_addSelect (option : PopulateOptions) (name : String) :
    (option.addSelect name).populate = option.populate := rfl

@[simp] theorem path_addPopulate (option : PopulateOptions) (inner : List PopulateOptions) :
    (option.addPopulate inner).path = option.path := rfl

@[simp] theorem select_addPopulate (option : PopulateOptions) (inner : List PopulateOptions) :
    (option.addPopulate inner).select = option.select := rfl

@[simp] theorem populate_addPopulate (option : PopulateOptions) (inner : List PopulateOptions) :
    (option.addPopulate inner).populate = some (option.populate.getD [] ++ inner) := rfl

end PopulateOptions

theorem isObject_mk (name : FieldName) (selections : List FieldNode) :
    (FieldNode.mk name selections).isObject = !selections.isEmpty := rfl

theorem path_addSelections (selections : List FieldNode) (option : PopulateOptions) :
    (addSelections option selections).path = option.path := by
  induction selections generalizing option with
  | nil => rw [addSelections]
  | cons node rest ih =>
      obtain ⟨name, _ | ⟨inner, more⟩⟩ := node
      · rw [addSelections, ih, PopulateOptions.path_addSelect]
      · rw [addSelections, ih, PopulateOptions.path_addPopulate]

theorem select_addSelections (selections : List FieldNode) (option : PopulateOptions) :
    (addSelections option selections).select.getD [] = option.select.getD []
      ++ (selections.filter fun n => !n.isObject).map fun n => n.name.value := by
  induction selections generalizing option with
  | nil =>
      rw [addSelections]
      exact (List.append_nil _).symm
  | cons node rest ih =>
      obtain ⟨name, _ | ⟨inner, more⟩⟩ := node
      · rw [addSelections, ih, PopulateOptions.select_addSelect, Option.getD_some,
          List.append_assoc, List.filter_cons_of_pos rfl]
        rfl
      · rw [addSelections, ih, PopulateOptions.select_addPopulate,
          List.filter_cons_of_neg (by simp [isObject_mk])]

theorem populate_addSelections (selections : List FieldNode) (option : PopulateOptions) :
    (addSelections option selections).populate.getD [] = option.populate.getD []
      ++ (selections.filter FieldNode.isObject).flatMap optionsOfNode := by
  induction selections generalizing option with
  | nil =>
      rw [addSelections]
      exact (List.append_nil _).symm
  | cons node rest ih =>
      obtain ⟨name, _ | ⟨inner, more⟩⟩ := node
      · rw [addSelections, ih, PopulateOptions.populate_addSelect,
          List.filter_cons_of_neg (by simp [isObject_mk])]
      · rw [addSelections, ih, PopulateOptions.populate_addPopulate, Option.getD_some,
          List.append_assoc, List.filter_cons_of_pos rfl, List.flatMap_cons]

/-- An option that has any content keeps some. -/
theorem content_addSelections (selections : List FieldNode) (option : PopulateOptions)
    (h : option.select.isSome = true ∨ option.populate.isSome = true ∨ selections ≠ []) :
    ((addSelections option selections).select.isSome
      || (addSelections option selections).populate.isSome) = true := by
  induction selections generalizing option with
  | nil =>
      rw [addSelections, Bool.or_eq_true]
      exact h.imp_right fun h => h.resolve_right fun h => h rfl
  | cons node rest ih =>
      obtain ⟨name, _ | ⟨inner, more⟩⟩ := node
      · rw [addSelections]
        exact ih _ (Or.inl rfl)
      · rw [addSelections]
        exact ih _ (Or.inr (Or.inl rfl))

/-- A scalar asks for nothing, an object field for one option. -/
theorem optionsOfNode_eq (name : FieldName) (selections : List FieldNode) :
    optionsOfNode (.mk name selections)
      = if (FieldNode.mk name selections).isObject
        then [addSelections (.mk name.value none none) selections] else [] := by
  cases selections with
  | nil => rfl
  | cons inner more =>
      rw [optionsOfNode, if_pos (content_addSelections _ _ (Or.inr (Or.inr (by simp))))]
      rfl

mutual

theorem names_optionsOfNode : (node : FieldNode) → node.isObject = true →
    ∃ option, optionsOfNode node = [option] ∧ Names option node
  | .mk name selections, h => by
      refine ⟨_, (optionsOfNode_eq name selections).trans (if_pos h), ?_, ?_, ?_⟩
      · exact path_addSelections selections _
      · exact select_addSelections selections _
      · rw [populate_addSelections]
        exact names_flatMap selections

theorem names_flatMap : (selections : List FieldNode) →
    List.Forall₂ Names ((selections.filter FieldNode.isObject).flatMap optionsOfNode)
      (selections.filter FieldNode.isObject)
  | []           => .nil
  | node :: rest => by
      by_cases hnode : node.isObject = true
      · obtain ⟨option, hoption, hnames⟩ := names_optionsOfNode node hnode
        rw [List.filter_cons_of_pos hnode, List.flatMap_cons, hoption]
        exact .cons hnames (names_flatMap rest)
      · rw [List.filter_cons_of_neg hnode]
        exact names_flatMap rest

end

/-- **The translation.** The options name exactly what is selected. -/
theorem names_options (selections : List FieldNode) :
    List.Forall₂ Names (getPopulatOptionsFromSelections selections)
      (selections.filter FieldNode.isObject) := by
  have hfilter : getPopulatOptionsFromSelections selections
      = (selections.filter FieldNode.isObject).flatMap optionsOfNode := by
    induction selections with
    | nil => rfl
    | cons node rest ih =>
        rw [getPopulatOptionsFromSelections, List.flatMap_cons]
        by_cases hnode : node.isObject = true
        · rw [List.filter_cons_of_pos hnode, List.flatMap_cons, ← ih]
          rfl
        · obtain ⟨name, children⟩ := node
          rw [List.filter_cons_of_neg hnode, optionsOfNode_eq, if_neg hnode, ← ih]
          rfl
  rw [hfilter]
  exact names_flatMap selections

/-! ## The walk -/

theorem shortened_nil (segs : List String) : shortened [] segs = none := by
  cases segs <;> rfl

theorem shortened_found {selections : List FieldNode} {select : String} {selection : FieldNode}
    (h : selections.find? (FieldNode.isNamed select) = some selection) (selects : List String) :
    shortened selections (select :: selects) = if selects.isEmpty then some [select]
      else (shortened selection.selections selects).map (select :: ·) := by
  cases selections with
  | nil => cases h
  | cons node rest => rw [shortened, h]; intro h; cases h

theorem shortened_passed {selections : List FieldNode} {select : String}
    (h : selections.find? (FieldNode.isNamed select) = none) (selects : List String) :
    shortened selections (select :: selects) = shortened selections selects := by
  cases selections with
  | nil => rw [shortened_nil, shortened_nil]
  | cons node rest => rw [shortened, h]; intro h; cases h

/-- A segment is left, and no segment is added. -/
theorem shortened_length {selections : List FieldNode} {segs left : List String}
    (h : shortened selections segs = some left) : left ≠ [] ∧ left.length ≤ segs.length := by
  induction segs generalizing selections left with
  | nil => cases selections <;> cases h
  | cons select selects ih =>
      cases hfind : selections.find? (FieldNode.isNamed select) with
      | none =>
          rw [shortened_passed hfind] at h
          exact ⟨(ih h).1, Nat.le_succ_of_le (ih h).2⟩
      | some selection =>
          rw [shortened_found hfind] at h
          by_cases hlast : selects.isEmpty = true
          · rw [if_pos hlast] at h
            cases h
            exact ⟨List.cons_ne_nil _ _, Nat.le_add_left _ _⟩
          · rw [if_neg hlast, Option.map_eq_some_iff] at h
            obtain ⟨left', hleft, rfl⟩ := h
            exact ⟨List.cons_ne_nil _ _, Nat.succ_le_succ (ih hleft).2⟩

theorem selectionsAt_cons {select : String} {selects : List String} (hne : selects ≠ [])
    (selections : List FieldNode) : selectionsAt selections (select :: selects)
      = (selections.find? (FieldNode.isNamed select)).bind fun n =>
        selectionsAt n.selections selects := by
  rw [selectionsAt]
  congr 1
  funext n
  exact if_neg (by simpa using hne)

/-- The walk goes along what is left of the path. -/
theorem descend_eq (selections : List FieldNode) (segs : List String) :
    descend selections segs = (shortened selections segs).bind (selectionsAt selections) := by
  induction segs generalizing selections with
  | nil => cases selections <;> rfl
  | cons select selects ih =>
      cases selections with
      | nil => rfl
      | cons node rest =>
          cases hfind : (node :: rest).find? (FieldNode.isNamed select) with
          | none =>
              rw [shortened_passed hfind, ← ih, descend, hfind]
              intro h
              cases h
          | some selection =>
              rw [shortened_found hfind, descend, hfind]
              · by_cases hlast : selects.isEmpty = true
                · rw [if_pos hlast]
                  dsimp only
                  rw [if_pos hlast, Option.bind_some, selectionsAt, hfind]
                  rfl
                · rw [if_neg hlast]
                  dsimp only
                  rw [if_neg hlast, ih]
                  cases hleft : shortened selection.selections selects with
                  | none => rfl
                  | some left =>
                      rw [Option.map_some, Option.bind_some, Option.bind_some,
                        selectionsAt_cons (shortened_length hleft).1, hfind]
                      rfl
              · intro h
                cases h

/-- What is left of a path is selected. -/
theorem selectionsAt_shortened {selections : List FieldNode} {segs left : List String}
    (h : shortened selections segs = some left) : (selectionsAt selections left).isSome = true := by
  induction segs generalizing selections left with
  | nil => cases selections <;> cases h
  | cons select selects ih =>
      cases hfind : selections.find? (FieldNode.isNamed select) with
      | none =>
          rw [shortened_passed hfind] at h
          exact ih h
      | some selection =>
          rw [shortened_found hfind] at h
          by_cases hlast : selects.isEmpty = true
          · rw [if_pos hlast] at h
            cases h
            rw [selectionsAt, hfind]
            rfl
          · rw [if_neg hlast, Option.map_eq_some_iff] at h
            obtain ⟨left', hleft, rfl⟩ := h
            rw [selectionsAt_cons (shortened_length hleft).1, hfind]
            exact ih hleft

/-- Nothing is dropped exactly if each segment is selected at its level. -/
theorem shortened_eq_self_iff {selections : List FieldNode} {segs : List String} :
    shortened selections segs = some segs ↔ (selectionsAt selections segs).isSome = true := by
  constructor
  · exact selectionsAt_shortened
  · induction segs generalizing selections with
    | nil => intro h; cases h
    | cons select selects ih =>
        cases hfind : selections.find? (FieldNode.isNamed select) with
        | none =>
            rw [selectionsAt, hfind]
            intro h
            cases h
        | some selection =>
            intro h
            rw [shortened_found hfind]
            by_cases hlast : selects.isEmpty = true
            · rw [if_pos hlast, List.isEmpty_iff.mp hlast]
            · rw [selectionsAt_cons (by simpa using hlast), hfind] at h
              rw [if_neg hlast, ih h]
              rfl

/-! ## The root fields -/

variable {f : FieldNode} {segs left : List String}

theorem shortenedFrom_cons {seg : String} (h : (f.isNamed seg && f.isObject) = true)
    (selects : List String) : shortenedFrom f (seg :: selects)
      = if selects.isEmpty then some [seg] else (shortened f.selections selects).map (seg :: ·) :=
  if_pos h

/-- A root field as a selection of its own. -/
theorem selectionsAt_root {seg : String} (h : f.isNamed seg = true) (selects : List String) :
    selectionsAt [f] (seg :: selects)
      = if selects.isEmpty then some f.selections else selectionsAt f.selections selects := by
  rw [selectionsAt, List.find?_cons_of_pos h]
  rfl

theorem descendFrom_eq (f : FieldNode) (segs : List String) :
    descendFrom f segs = (shortenedFrom f segs).bind (selectionsAt [f]) := by
  cases segs with
  | nil => rfl
  | cons seg selects =>
      by_cases hroot : (f.isNamed seg && f.isObject) = true
      · have hname := (Bool.and_eq_true_iff.mp hroot).1
        rw [shortenedFrom_cons hroot, descendFrom, if_pos hroot]
        by_cases hlast : selects.isEmpty = true
        · rw [if_pos hlast, if_pos hlast, Option.bind_some, selectionsAt_root hname]
          rfl
        · rw [if_neg hlast, if_neg hlast, descend_eq]
          cases hleft : shortened f.selections selects with
          | none => rfl
          | some left =>
              rw [Option.map_some, Option.bind_some, Option.bind_some, selectionsAt_root hname,
                if_neg (by simpa using (shortened_length hleft).1)]
      · rw [descendFrom, shortenedFrom, if_neg hroot, if_neg hroot]
        rfl

theorem selectionsAt_shortenedFrom (h : shortenedFrom f segs = some left) :
    (selectionsAt [f] left).isSome = true := by
  cases segs with
  | nil => cases h
  | cons seg selects =>
      by_cases hroot : (f.isNamed seg && f.isObject) = true
      · have hname := (Bool.and_eq_true_iff.mp hroot).1
        rw [shortenedFrom_cons hroot] at h
        by_cases hlast : selects.isEmpty = true
        · rw [if_pos hlast] at h
          cases h
          rw [selectionsAt_root hname]
          rfl
        · rw [if_neg hlast, Option.map_eq_some_iff] at h
          obtain ⟨left', hleft, rfl⟩ := h
          rw [selectionsAt_root hname, if_neg (by simpa using (shortened_length hleft).1)]
          exact selectionsAt_shortened hleft
      · rw [shortenedFrom, if_neg hroot] at h
        cases h

/-- All of the path is left exactly below an object field in which it is selected. -/
theorem shortenedFrom_eq_self_iff :
    shortenedFrom f segs = some segs ↔ f.isObject = true ∧ (selectionsAt [f] segs).isSome = true := by
  cases segs with
  | nil => exact ⟨fun h => (nomatch h), fun h => (nomatch h.2)⟩
  | cons seg selects =>
      by_cases hroot : (f.isNamed seg && f.isObject) = true
      · obtain ⟨hname, hobject⟩ := Bool.and_eq_true_iff.mp hroot
        rw [shortenedFrom_cons hroot, selectionsAt_root hname]
        by_cases hlast : selects.isEmpty = true
        · rw [if_pos hlast, if_pos hlast, List.isEmpty_iff.mp hlast]
          exact ⟨fun _ => ⟨hobject, rfl⟩, fun _ => rfl⟩
        · rw [if_neg hlast, if_neg hlast, ← shortened_eq_self_iff, Option.map_eq_some_iff]
          constructor
          · rintro ⟨left, hleft, hcons⟩
            cases hcons
            exact ⟨hobject, hleft⟩
          · exact fun h => ⟨selects, h.2, rfl⟩
      · rw [shortenedFrom, if_neg hroot]
        refine ⟨fun h => (nomatch h), ?_⟩
        rintro ⟨hobject, hselected⟩
        rw [hobject, Bool.and_true] at hroot
        rw [selectionsAt, List.find?_cons_of_neg hroot] at hselected
        cases hselected

section

variable (path : String)

theorem findSome_descendFrom (fieldNodes : List FieldNode) :
    (fieldNodes.findSome? fun f => descendFrom f (segments path))
      = (leftOfPath fieldNodes path).bind fun e => selectionsAt [e.1] e.2 := by
  induction fieldNodes with
  | nil => rfl
  | cons f rest ih =>
      rw [leftOfPath, List.findSome?_cons, List.findSome?_cons, descendFrom_eq]
      cases hleft : shortenedFrom f (segments path) with
      | none => exact ih
      | some left =>
          obtain ⟨selections, hselections⟩ :=
            Option.isSome_iff_exists.mp (selectionsAt_shortenedFrom hleft)
          simp only [Option.bind_some, Option.map_some, hselections]

/-- Below the first root field with all of the path lies what the path selects. -/
theorem selectionsOnPath_of_left {fieldNodes : List FieldNode} {f : FieldNode}
    (h : leftOfPath fieldNodes path = some (f, segments path)) :
    selectionsOnPath fieldNodes path = selectionsAt [f] (segments path) := by
  induction fieldNodes with
  | nil => cases h
  | cons g rest ih =>
      rw [leftOfPath, List.findSome?_cons] at h
      cases hleft : shortenedFrom g (segments path) with
      | some left =>
          rw [hleft] at h
          cases h
          obtain ⟨hobject, hselected⟩ := shortenedFrom_eq_self_iff.mp hleft
          obtain ⟨selections, hselections⟩ := Option.isSome_iff_exists.mp hselected
          rw [selectionsOnPath, List.filter_cons_of_pos hobject, List.findSome?_cons, hselections]
      | none =>
          rw [hleft] at h
          rw [← ih h, selectionsOnPath, selectionsOnPath]
          by_cases hobject : g.isObject = true
          · have hnone : selectionsAt [g] (segments path) = none := by
              rw [← Option.not_isSome_iff_eq_none]
              intro hselected
              rw [shortenedFrom_eq_self_iff.mpr ⟨hobject, hselected⟩] at hleft
              cases hleft
            rw [List.filter_cons_of_pos hobject, List.findSome?_cons, hnone]
          · rw [List.filter_cons_of_neg hobject]

theorem selectionsOnPath_of_nothing_left {fieldNodes : List FieldNode}
    (h : leftOfPath fieldNodes path = none) : selectionsOnPath fieldNodes path = none := by
  refine List.findSome?_eq_none_iff.mpr ?_
  intro f hf
  obtain ⟨hf, hobject⟩ := List.mem_filter.mp hf
  rw [← Option.not_isSome_iff_eq_none]
  intro hselected
  have hleft := List.findSome?_eq_none_iff.mp h f hf
  rw [shortenedFrom_eq_self_iff.mpr ⟨hobject, hselected⟩] at hleft
  cases hleft

end

/-- The empty path selects nothing. -/
theorem leftOfPath_empty (fieldNodes : List FieldNode) : leftOfPath fieldNodes "" = none := by
  refine List.findSome?_eq_none_iff.mpr ?_
  intro f _
  have hroot : ¬ (f.isNamed "" && f.isObject) = true := by
    rw [FieldNode.isNamed, decide_eq_false f.name.nonempty]
    rintro ⟨⟩
  have hsegments : segments "" = [""] := by decide
  rw [hsegments, shortenedFrom, if_neg hroot]
  rfl

/-- **`getPopulateOptions`.** It answers for the path exactly if what is left of it, when
    the segments that are not selected are passed over, is all of it or asks for the
    same; and it always names just what is selected. -/
theorem getPopulateOptions_iff (fieldNodes : List FieldNode) (path : String) :
    (getPopulateOptions fieldNodes path = optionsOnPath fieldNodes path
      ↔ Straight fieldNodes path)
    ∧ ∀ selections, List.Forall₂ Names (getPopulatOptionsFromSelections selections)
        (selections.filter FieldNode.isObject) := by
  refine ⟨?_, names_options⟩
  have hcode : getPopulateOptions fieldNodes path
      = ((leftOfPath fieldNodes path).map fun e =>
          getPopulatOptionsFromSelections ((selectionsAt [e.1] e.2).getD [])).getD [] := by
    rw [getPopulateOptions]
    by_cases hempty : path = ""
    · rw [if_pos hempty, hempty, leftOfPath_empty]
      rfl
    · rw [if_neg hempty, findSome_descendFrom]
      cases hleft : leftOfPath fieldNodes path with
      | none => rfl
      | some e =>
          rw [Option.bind_some, Option.map_some, Option.getD_some]
          cases selectionsAt [e.1] e.2 <;> rfl
  rw [hcode]
  cases hleft : leftOfPath fieldNodes path with
  | none =>
      rw [optionsOnPath, selectionsOnPath_of_nothing_left path hleft]
      refine iff_of_true rfl ?_
      intro f left h
      rw [hleft] at h
      cases h
  | some e =>
      obtain ⟨f, left⟩ := e
      rw [Option.map_some, Option.getD_some]
      by_cases hall : left = segments path
      · subst hall
        refine iff_of_true ?_ ?_
        · rw [optionsOnPath, selectionsOnPath_of_left path hleft]
          cases selectionsAt [f] (segments path) <;> rfl
        · intro g left h hne
          rw [hleft] at h
          cases h
          exact absurd rfl hne
      · constructor
        · intro h g left' hleft' _
          rw [hleft] at hleft'
          cases hleft'
          exact h
        · exact fun h => h f left hleft hall

/-- The street of the address of the profile of a user. -/
def userFields : List FieldNode :=
  [.mk ⟨"user", by decide⟩ [.mk ⟨"profile", by decide⟩ [.mk ⟨"address", by decide⟩
    [.mk ⟨"street", by decide⟩ []]]]]

/-- A segment that is not selected is passed over. -/
theorem getPopulateOptions_passes_over :
    ¬ ∀ fieldNodes path, getPopulateOptions fieldNodes path = optionsOnPath fieldNodes path := by
  intro h
  have hpath := congrArg List.length (h userFields "user.company.profile")
  have hsegments : segments "user.company.profile" = ["user", "company", "profile"] := by
    decide +kernel
  have hcode : (getPopulateOptions userFields "user.company.profile").length = 1 := by
    rw [getPopulateOptions, if_neg (by decide), hsegments]
    decide +kernel
  have hmeant : (optionsOnPath userFields "user.company.profile").length = 0 := by
    rw [optionsOnPath, selectionsOnPath, hsegments]
    decide +kernel
  omega

end DbHelper
