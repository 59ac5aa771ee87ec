import NestServer.RestrictedCheck

/-! # The fast path of arrays

    `checkRestricted` looks at the first item of an array before it checks the
    items one by one: where the class of that item is restricted, and by nothing
    that differs from item to item, an item that may not be seen at all decides
    for the whole array.  `array_iff` says when the outcome is still that of the
    items on their own. -/

open RoleEnum JsTree

namespace Restricted

section

variable (own : Object → Option OwnConstructor)

/-- The first item is an object of a restricted class, no restriction of it is
    about ownership, and the object itself is refused. -/
def blocksAll (a : Access) (isCreatorOfParent : Bool) : List Value → Class → Bool
  | .obj proto fields :: _, declared =>
      let restrictions := classRestrictions (if proto ≠ [] then proto else declared)
      (own fields).isNone && a.config.checkObjectItself && restrictions ≠ []
        && !restrictions.any RestrictedItem.isOwnership
        && !a.admits restrictions (a.ownership fields) isCreatorOfParent
  | _, _ => false

variable {own} {a : Access} {isCreatorOfParent : Bool} {declared : Class} {sample result : Value}
  {rest : List Value}

/-- Only an object is ever refused as a whole. -/
theorem not_decides_of_not_obj {decides : Bool}
    (hd : sampleDecides own sample declared = .ok decides)
    (hobj : ∀ proto fields, sample ≠ .obj proto fields) : decides = false := by
  cases sample with
  | obj proto fields => exact absurd rfl (hobj proto fields)
  | prim p =>
      cases hd
      rfl
  | oid hex =>
      cases hd
      rfl
  | arr items =>
      cases hd
      rfl

/-- An own key `constructor` keeps the first item from deciding. -/
theorem sampleDecides_own {proto : Class} {fields : Object} {c : OwnConstructor}
    (hown : own fields = some c) :
    sampleDecides own (.obj proto fields) declared
      = if c = .primitive then .error .typeError else .ok false := by
  rw [sampleDecides, hown]
  cases c <;> rfl

/-- Whose restrictions govern an item without such a key. -/
theorem metadataOf_none (proto declared : Class) : metadataOf none proto declared
    = .ok ⟨if proto ≠ [] then proto else declared, if proto ≠ [] then proto else declared⟩ := by
  rw [metadataOf]
  split
  · rfl
  · rfl

variable (rest) in
/-- What the first item decides, and what its own check returned. -/
theorem decides_and_refused (hout : a.config.throwsError = false) {decides : Bool}
    (hd : sampleDecides own sample declared = .ok decides)
    (hr : check own a isCreatorOfParent sample declared = .ok result) :
    (decides && result.isNullish) =
      blocksAll own a isCreatorOfParent (sample :: rest) declared := by
  cases sample with
  | prim p =>
      rw [not_decides_of_not_obj hd nofun, Bool.false_and]
      rfl
  | oid hex =>
      rw [not_decides_of_not_obj hd nofun, Bool.false_and]
      rfl
  | arr items =>
      rw [not_decides_of_not_obj hd nofun, Bool.false_and]
      rfl
  | obj proto fields =>
      rw [blocksAll]
      cases hown : own fields with
      | some c =>
          rw [sampleDecides_own hown] at hd
          split at hd
          · cases hd
          · cases hd
            rfl
      | none =>
          have hm := metadataOf_none proto declared
          rw [← hown] at hm
          rw [sampleDecides, hown] at hd
          cases hd
          rw [check_obj_eq hm] at hr
          by_cases hrefused : (a.config.checkObjectItself
              && !a.admits (classRestrictions (if proto ≠ [] then proto else declared))
                (a.ownership fields) isCreatorOfParent) = true
          · rw [if_pos hrefused, if_neg (by rw [hout]; exact Bool.false_ne_true)] at hr
            cases hr
            rw [Bool.and_eq_true] at hrefused
            dsimp only
            rw [hrefused.1, hrefused.2, Bool.and_true, Option.isNone_none, Bool.and_true,
              Bool.true_and]
            exact Bool.and_true _
          · rw [if_neg hrefused] at hr
            obtain ⟨fields', -, hr⟩ := Fallible.bind_eq_ok.mp hr
            cases hr
            rw [Bool.not_eq_true, Bool.and_eq_false_iff] at hrefused
            refine (Bool.and_false _).trans ?_
            rcases hrefused with hoff | hadmits
            · rw [hoff, Bool.and_false, Bool.false_and, Bool.false_and, Bool.false_and]
            · rw [hadmits, Bool.and_false]

/-- An item that blocks the array is itself replaced by `null`. -/
theorem check_of_blocksAll (hout : a.config.throwsError = false)
    (h : blocksAll own a isCreatorOfParent (sample :: rest) declared = true) :
    check own a isCreatorOfParent sample declared = .ok (.prim .null) := by
  cases sample with
  | prim p => cases h
  | oid hex => cases h
  | arr items => cases h
  | obj proto fields =>
      rw [blocksAll] at h
      simp only [Bool.and_eq_true, Option.isNone_iff_eq_none] at h
      obtain ⟨⟨⟨⟨hown, hitself⟩, -⟩, -⟩, hrefused⟩ := h
      have hm := metadataOf_none proto declared
      rw [← hown] at hm
      rw [check_obj_eq hm, if_pos (by rw [hitself, hrefused]; rfl),
        if_neg (by rw [hout]; exact Bool.false_ne_true)]

/-- A first item whose check throws decides nothing. -/
theorem not_blocksAll_of_error (hout : a.config.throwsError = false) {e : Failure}
    (hr : check own a isCreatorOfParent sample declared = .error e) :
    blocksAll own a isCreatorOfParent (sample :: rest) declared = false := by
  refine Bool.eq_false_iff.mpr fun h => ?_
  rw [check_of_blocksAll hout h] at hr
  cases hr

variable (a isCreatorOfParent) in
/-- What lets the first item not decide throws in its own check as well. -/
theorem check_of_sampleDecides_error {e : Failure}
    (hd : sampleDecides own sample declared = .error e) :
    check own a isCreatorOfParent sample declared = .error e := by
  cases sample with
  | prim p => cases hd
  | oid hex => cases hd
  | arr items => cases hd
  | obj proto fields =>
      cases hown : own fields with
      | none =>
          rw [sampleDecides, hown] at hd
          cases hd
      | some c =>
          rw [sampleDecides_own hown] at hd
          split at hd
          · rename_i hc
            cases hd
            rw [check, hown, hc]
            rfl
          · cases hd

end

/-- The results of the items on their own, without the undefined ones where these
    are taken out. -/
def perItem (a : Access) (isCreatorOfParent : Bool) (items : List Value) (declared : Class) :
    Except Failure Value :=
  (items.mapM fun item => check ownConstructor a isCreatorOfParent item declared).map fun results =>
    JsTree.arr (if a.config.removeUndefinedFromResultArray then
      results.filter fun v => !v.isUndefined else results)

theorem checkItems_eq_mapM {own} (a : Access) (flag : Bool) (items : List Value)
    (declared : Class) :
    checkItems own a flag items declared = items.mapM fun item =>
      check own a flag item declared := by
  induction items with
  | nil => rfl
  | cons item rest ih =>
      rw [checkItems_cons, List.mapM_cons, ih]
      rfl

/-- The array that a blocking item leaves is not the one with its `null`. -/
theorem blocked_ne_perItem {a : Access} {sample : Value} {rest : List Value}
    {results : Except Failure (List Value)} (hout : a.config.throwsError = false) :
    (if a.config.removeUndefinedFromResultArray = true then
        (.ok (JsTree.arr []) : Except Failure Value)
      else .ok (JsTree.arr ((sample :: rest).map fun _ => .prim .undefined)))
      ≠ results.bind fun results =>
        .ok (JsTree.arr (a.dropUndefined (.prim .null :: results))) := by
  cases results with
  | error e =>
      split
      · nofun
      · nofun
  | ok results =>
      show _ ≠ Except.ok (JsTree.arr (a.dropUndefined (.prim .null :: results)))
      rw [Access.dropUndefined, hout]
      cases a.config.removeUndefinedFromResultArray with
      | true =>
          intro h
          simp [isUndefined] at h
      | false =>
          intro h
          simp at h

/-- On output only the list of results is filtered. -/
theorem dropUndefined_of_output {a : Access} (hout : a.config.throwsError = false)
    (results : List Value) :
    (if a.config.removeUndefinedFromResultArray then results.filter fun v => !v.isUndefined
      else results)
      = a.dropUndefined results := by
  rw [Access.dropUndefined, hout]
  rfl

/-- The first item on its own, and then the others. -/
theorem perItem_cons {a : Access} (hout : a.config.throwsError = false) (isCreatorOfParent : Bool)
    (sample : Value)
    (rest : List Value) (declared : Class) :
    perItem a isCreatorOfParent (sample :: rest) declared
      = (check ownConstructor a isCreatorOfParent sample declared).bind fun result =>
        (checkItems ownConstructor a isCreatorOfParent rest declared).bind fun results =>
          .ok (.arr (a.dropUndefined (result :: results))) := by
  simp only [perItem, dropUndefined_of_output hout]
  rw [← checkItems_eq_mapM, checkItems_cons]
  cases check ownConstructor a isCreatorOfParent sample declared with
  | error e => rfl
  | ok result =>
      cases checkItems ownConstructor a isCreatorOfParent rest declared with
      | error e => rfl
      | ok results => rfl

/-- **The array path is the per-item path** on output, exactly where the first
    item is not one that blocks the array. -/
theorem array_iff (a : Access) (isCreatorOfParent : Bool) (items : List Value) (declared : Class)
    (hout : a.config.throwsError = false) :
    check ownConstructor a isCreatorOfParent (.arr items) declared
        = perItem a isCreatorOfParent items declared
      ↔ blocksAll ownConstructor a isCreatorOfParent items declared = false := by
  cases items with
  | nil =>
      refine iff_of_true ?_ rfl
      show Except.ok (JsTree.arr []) = Except.ok (JsTree.arr _)
      rw [dropUndefined_of_output hout, Access.dropUndefined]
      simp
  | cons sample rest =>
      rw [perItem_cons hout]
      cases hd : sampleDecides ownConstructor sample declared with
      | error e =>
          have herror := check_of_sampleDecides_error a isCreatorOfParent hd
          rw [check_arr_error hd, herror]
          exact iff_of_true rfl (not_blocksAll_of_error hout herror)
      | ok decides =>
          rw [check_arr_cons hd]
          cases hr : check ownConstructor a isCreatorOfParent sample declared with
          | error e => exact iff_of_true rfl (not_blocksAll_of_error hout hr)
          | ok result =>
              have hblocks := decides_and_refused rest hout hd hr
              dsimp only [Except.bind]
              rw [hblocks]
              cases hb : blocksAll ownConstructor a isCreatorOfParent (sample :: rest) declared with
              | false =>
                  refine iff_of_true ?_ rfl
                  rw [if_neg Bool.false_ne_true]
              | true =>
                  refine iff_of_false ?_ (Bool.eq_false_iff.mp · rfl)
                  have hnull : result = .prim .null :=
                    Except.ok.inj (hr.symm.trans (check_of_blocksAll hout hb))
                  rw [hnull, if_pos rfl, if_neg (by rw [hout]; exact Bool.false_ne_true)]
                  exact blocked_ne_perItem hout

/-- A letter that nobody may see, in front of a note without restrictions. -/
def letterAndNote : List Value :=
  [.obj [{ name := "Letter", restricted := some [.role S_NO_ONE.value] }] [],
    .obj [{ name := "Note" }] [("text", .prim (.str "hello"))]]

/-- An output request without a user. -/
def anonymous (checkObjectItself : Bool) : Access where
  registry   := fun _ => none
  vocabulary := { multiTenancy := none }
  user       := none
  config     := { processType := some .OUTPUT, throwsError := false,
                  checkObjectItself := checkObjectItself }

/-- Where objects themselves are not checked, no item blocks the array. -/
theorem array_iff_letterAndNote :
    check ownConstructor (anonymous false) false (.arr letterAndNote) []
      = perItem (anonymous false) false letterAndNote [] :=
  (array_iff (anonymous false) false letterAndNote [] rfl).mpr rfl

/-- Where they are, the letter takes the note with it. -/
theorem letter_takes_note :
    check ownConstructor (anonymous true) false (.arr letterAndNote) []
      ≠ perItem (anonymous true) false letterAndNote [] := by
  have hblocks : blocksAll ownConstructor (anonymous true) false letterAndNote [] = true := rfl
  have hfirst := check_of_blocksAll rfl hblocks
  have harray : check ownConstructor (anonymous true) false (.arr letterAndNote) []
      = .ok (.arr []) := by
    rw [letterAndNote, check_arr_cons rfl, hfirst]
    rfl
  rw [harray]
  intro h
  cases h

end Restricted
