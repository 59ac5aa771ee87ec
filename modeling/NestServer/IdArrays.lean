import NestServer.DbHelper

/-! # When arrays of ids come out right

    The removals are judged by what they meet (`Splicing`): a position that was
    found in the list of texts is used in the array, where elements without an id
    count as well, and where the removals before it have moved what follows. -/

namespace DbHelper

open Splicing

variable {κ : Type} {source target ids array : List (JsTree κ)}

/-! ## Ids and their texts -/

theorem mem_getStringIds {s : String} : s ∈ getStringIds ids ↔ ∃ id ∈ ids, stringId id = some s :=
  List.mem_filterMap

theorem listedBy_iff {e : JsTree κ} : listedBy ids e = true ↔ ∃ s, stringId e = some s ∧
    s ∈ getStringIds ids := by
  simp [listedBy, Option.any_eq_true]

theorem getStringIds_append (xs ys : List (JsTree κ)) :
    getStringIds (xs ++ ys) = getStringIds xs ++ getStringIds ys := List.filterMap_append

theorem stringId_text {s : String} (hs : s ≠ "") :
    stringId (.prim (.str s) : JsTree κ) = some s := by
  simp [stringId, JsTree.getStringId, Prim.truthy, Prim.text, hs]

theorem stringId_oid {hex : String} (hhex : hex ≠ "") :
    stringId (.oid hex : JsTree κ) = some hex := by
  simp [stringId, JsTree.getStringId, hhex]

theorem stringId_eq {e : JsTree κ} (h : ∀ items, e ≠ .arr items) :
    stringId e = (JsTree.getStringId e).filter fun s => s ≠ "" := by
  cases e with
  | arr items => exact absurd rfl (h items)
  | _         => rfl

/-- A text that stands for an element is not empty, and is what `getStringId` answers. -/
theorem of_stringId {e : JsTree κ} {s : String} (h : stringId e = some s) :
    s ≠ "" ∧ JsTree.getStringId e = some s := by
  rw [stringId_eq (by rintro items rfl; cases h)] at h
  obtain ⟨hs, hne⟩ := Option.filter_eq_some_iff.mp h
  exact ⟨of_decide_eq_true hne, hs⟩

/-! ## `removeIds` -/

theorem removalPositions_eq : removalPositions source ids
    = (getStringIds ids).filterMap fun s => (getStringIds source).idxOf? s := by
  show _ = (ids.filterMap stringId).filterMap _
  rw [List.filterMap_filterMap]
  rfl

/-- **What `removeIds` leaves** is what is not listed, where each position meets a listed element.
-/
theorem removeIds_iff (source ids : List (JsTree κ)) :
    removeIds source ids = source.filter (fun e => !listedBy ids e)
      ↔ Meets (listedBy ids) source (removalPositions source ids) := removeAt_eq_filter_iff _ _

theorem getStringIds_getElem? (hids : ∀ e ∈ source, (stringId e).isSome = true) (p : Nat) :
    (getStringIds source)[p]? = source[p]?.bind stringId := by
  induction source generalizing p with
  | nil => rfl
  | cons e source ih =>
      obtain ⟨s, hs⟩ := Option.isSome_iff_exists.mp (hids e List.mem_cons_self)
      rw [getStringIds, List.filterMap_cons_some hs]
      cases p with
      | zero   => exact hs.symm
      | succ p => exact ih (fun e he => hids e (List.mem_cons_of_mem _ he)) p

theorem idxOf?_iff {l : List String} (hnodup : l.Nodup) {s : String} {p : Nat} :
    l.idxOf? s = some p ↔ l[p]? = some s := by
  rw [List.idxOf?_eq_some_iff, List.getElem?_eq_some_iff]
  constructor
  · rintro ⟨hp, hs, -⟩
    exact ⟨hp, hs⟩
  · rintro ⟨hp, hs⟩
    refine ⟨hp, hs, fun j hj hs' => ?_⟩
    exact Nat.ne_of_lt hj ((hnodup.getElem_inj_iff).mp (hs'.trans hs.symm))

/-- Where every element has an id of its own, and every id that is found is given once, the
positions
    are those of the listed elements. -/
theorem perm_positions (hids : ∀ e ∈ source, (stringId e).isSome = true)
    (hnodup : (getStringIds source).Nodup)
    (honce : ((getStringIds ids).filter fun s => (getStringIds source).contains s).Nodup) :
    (removalPositions source ids).Perm (positions (listedBy ids) source) := by
  have hfound : removalPositions source ids
      = ((getStringIds ids).filter fun s => (getStringIds source).contains s).filterMap
          fun s => (getStringIds source).idxOf? s := by
    rw [removalPositions_eq, List.filterMap_filter]
    refine List.filterMap_congr fun s _ => ?_
    by_cases hs : s ∈ getStringIds source
    · simp [hs]
    · simp [hs, List.idxOf?_eq_none_iff.mpr hs]
  refine (List.perm_ext_iff_of_nodup ?_ nodup_positions).mpr fun p => ?_
  · rw [hfound]
    refine honce.filterMap fun s s' p hs hs' => ?_
    have hs := (idxOf?_iff hnodup).mp hs
    have hs' := (idxOf?_iff hnodup).mp hs'
    exact Option.some.inj (hs.symm.trans hs')
  · rw [removalPositions_eq, List.mem_filterMap, mem_positions]
    simp only [idxOf?_iff hnodup, getStringIds_getElem? hids, Option.bind_eq_some_iff, listedBy_iff]
    constructor
    · rintro ⟨s, hs, e, he, hse⟩
      exact ⟨e, he, s, hse, hs⟩
    · rintro ⟨e, he, s, hse, hs⟩
      exact ⟨s, hs, e, he, hse⟩

/-! ## `addIds` -/

theorem removeIds_eq_self_iff : removeIds source ids = source ↔
    ∀ s ∈ getStringIds ids, s ∉ getStringIds source := by
  rw [removeIds, removeAt_eq_self_iff, removalPositions_eq]
  constructor
  · intro h s hs hmem
    obtain ⟨p, hp⟩ := Option.isSome_iff_exists.mp (List.isSome_idxOf?.mpr hmem)
    -- a position among the texts is one in the array
    have hle := h p (List.mem_filterMap.mpr ⟨s, hs, hp⟩)
    obtain ⟨hlt, -⟩ := List.idxOf?_eq_some_iff.mp hp
    have hlength : (getStringIds source).length ≤ source.length := List.length_filterMap_le _ _
    omega
  · intro h p hp
    obtain ⟨s, hs, hp⟩ := List.mem_filterMap.mp hp
    rw [List.idxOf?_eq_none_iff.mpr (h s hs)] at hp
    cases hp

theorem toLower_toLower (c : Char) : c.toLower.toLower = c.toLower := by
  by_cases h : c.val ≥ 'A'.val ∧ c.val ≤ 'Z'.val
  · have hlower : c.toLower.val = c.val + 32 := congrArg Char.val (dif_pos h)
    have hnot : ¬ (c.toLower.val ≥ 'A'.val ∧ c.toLower.val ≤ 'Z'.val) := by
      rw [hlower]
      simp only [ge_iff_le, UInt32.le_iff_toNat_le] at h ⊢
      have hA : ('A'.val).toNat = 65 := rfl
      have hZ : ('Z'.val).toNat = 90 := rfl
      have hstep : (32 : UInt32).toNat = 32 := rfl
      rw [hA, hZ] at h ⊢
      rw [UInt32.toNat_add]
      omega
    exact dif_neg hnot
  · have hself : c.toLower = c := dif_neg h
    rw [hself, hself]

theorem lowerHex_lowerHex (s : String) : FilterHelper.lowerHex
    (FilterHelper.lowerHex s) = FilterHelper.lowerHex s := by
  rw [FilterHelper.lowerHex, FilterHelper.lowerHex, String.toList_ofList, List.map_map]
  exact congrArg String.ofList (List.map_congr_left fun c _ => toLower_toLower c)

theorem objectIdOf_text {s : String} {e : JsTree κ} (h : objectIdOf s = .ok e) :
    stringId e = some (FilterHelper.lowerHex s) := by
  rw [objectIdOf] at h
  by_cases hhex : FilterHelper.isHexId s = true
  · rw [if_pos hhex] at h
    cases h
    refine stringId_oid fun hempty => ?_
    have hlength := congrArg (fun t => t.toList.length) hempty
    have h24 : s.toList.length = 24 := by
      simp only [FilterHelper.isHexId, Bool.and_eq_true, decide_eq_true_eq] at hhex
      exact hhex.1
    simp [FilterHelper.lowerHex, String.toList_ofList, h24] at hlength
  · rw [if_neg hhex] at h
    cases h

theorem newObjectId_eq {generated : String} {e : JsTree κ} (hstr : ∀ s, e ≠ .prim (.str s))
    (hbool : ∀ b, e ≠ .prim (.bool b)) :
    newObjectId generated e = (JsTree.getStringId e).elim (.ok (.oid generated)) objectIdOf := by
  cases e with
  | prim p =>
      cases p with
      | str s  => exact absurd rfl (hstr s)
      | bool b => exact absurd rfl (hbool b)
      | _      => rfl
  | _ => rfl

/-- An ObjectId has the text it was made of, in lower case. -/
theorem newObjectId_text {generated s : String} {e e' : JsTree κ} (h : stringId e = some s)
    (hnew : newObjectId generated e = .ok e') : stringId e' = some (FilterHelper.lowerHex s) := by
  obtain ⟨-, hs⟩ := of_stringId h
  by_cases hstr : ∃ t, e = .prim (.str t)
  · obtain ⟨t, rfl⟩ := hstr
    have ht : t = s := by
      rw [JsTree.getStringId] at hs
      split at hs
      · exact Option.some.inj hs
      · cases hs
    exact objectIdOf_text (ht ▸ hnew)
  · have hbool : ∀ b, e ≠ .prim (.bool b) := by
      rintro b rfl
      cases hnew
    rw [newObjectId_eq (not_exists.mp hstr) hbool, hs] at hnew
    exact objectIdOf_text hnew

theorem autoConverted_texts {generated : String} {first : Option (JsTree κ)}
    {added : List (JsTree κ)}
    (hids : ∀ id ∈ ids, (stringId id).isSome = true) (h : autoConverted generated first ids =
      .ok added) :
    getStringIds added = (getStringIds ids).map (if first.any isObjectId then FilterHelper.lowerHex
      else id) := by
  rw [autoConverted] at h
  by_cases hobject : first.any isObjectId = true
  · rw [if_pos hobject] at h ⊢
    have hpairs := Fallible.mapM_eq_ok.mp h
    clear h
    induction hpairs with
    | nil => rfl
    | @cons e e' es es' hnew hpairs ih =>
        obtain ⟨s, hs⟩ := Option.isSome_iff_exists.mp (hids e List.mem_cons_self)
        have ih := ih fun id hid => hids id (List.mem_cons_of_mem _ hid)
        rw [getStringIds, getStringIds, List.filterMap_cons_some (newObjectId_text hs hnew),
          List.filterMap_cons_some hs, List.map_cons]
        exact congrArg _ ih
  · rw [if_neg hobject] at h ⊢
    rw [List.map_id]
    by_cases hstring : first.any isString = true
    · rw [if_pos hstring] at h
      cases h
      show ((getStringIds ids).map fun s => JsTree.prim (Prim.str s)).filterMap stringId = _
      rw [List.filterMap_map]
      have htext : ∀ s ∈ getStringIds ids,
          (stringId ∘ fun s => (JsTree.prim (Prim.str s) : JsTree κ)) s = some s := by
        intro s hs
        obtain ⟨id, -, hid⟩ := mem_getStringIds.mp hs
        exact stringId_text (κ := κ) (of_stringId hid).1
      rw [List.filterMap_congr htext, List.filterMap_some]
    · rw [if_neg hstring] at h
      cases h
      rfl

/-- What `addIds` returns. -/
theorem addIds_ok {generated : String} {convert : Convert} {out : List (JsTree κ) × List (JsTree κ)}
    (hconvert : convert = .auto ∨
      convert = .no) (h : addIds generated target ids convert true = .ok out) :
    ∃ added, out = (target ++ added, removeIds ids target)
      ∧ (if (removeIds ids target).isEmpty then .ok []
          else if convert = .auto then autoConverted generated target.head? (removeIds ids target)
          else .ok (removeIds ids target)) = Except.ok added := by
  obtain ⟨added, hadded, h⟩ := Fallible.bind_eq_ok.mp h
  refine ⟨added, ?_, hadded⟩
  rcases hconvert with rfl | rfl
  · exact (Except.ok.inj h).symm
  · exact (Except.ok.inj h).symm

/-- What a call adds whose list of ids is left as it was. -/
theorem added_texts {generated : String} {convert : Convert} {added : List (JsTree κ)}
    (hids : ∀ id ∈ ids, (stringId id).isSome = true)
    (h : (if ids.isEmpty then .ok [] else if convert = .auto then
      autoConverted generated target.head? ids
      else .ok ids) = Except.ok added) :
    getStringIds added = (getStringIds ids).map
      (if convert = .auto ∧ target.head?.any isObjectId = true then FilterHelper.lowerHex
        else id) := by
  by_cases hempty : ids.isEmpty = true
  · rw [if_pos hempty] at h
    cases h
    rw [List.isEmpty_iff.mp hempty]
    rfl
  · rw [if_neg hempty] at h
    by_cases hauto : convert = .auto
    · rw [if_pos hauto] at h
      rw [autoConverted_texts hids h]
      by_cases hobject : target.head?.any isObjectId = true
      · rw [if_pos hobject, if_pos ⟨hauto, hobject⟩]
      · rw [if_neg hobject, if_neg fun h => hobject h.2]
    · rw [if_neg hauto] at h
      cases h
      rw [if_neg fun h => hauto h.1, List.map_id]

/-- **What `addIds` does to the array and to the list** is what the ids ask for where none is there
    already and none is given twice. -/
theorem addIds_iff {generated : String} {convert : Convert}
    {out : List (JsTree κ) × List (JsTree κ)}
    (hconvert : convert = .auto ∨ convert = .no) (hids : ∀ id ∈ ids, (stringId id).isSome = true)
    (h : addIds generated target ids convert true = .ok out) :
    (out.2 = ids ∧ target <+: out.1 ∧ ∀ s ∈ getStringIds ids, (getStringIds out.1).count s = 1)
      ↔ (∀ s ∈ getStringIds target, s ∉ getStringIds ids) ∧ (getStringIds ids).Nodup
        ∧ (convert = .auto → target.head?.any isObjectId = true →
            ∀ s ∈ getStringIds ids, FilterHelper.lowerHex s = s) := by
  obtain ⟨added, rfl, hadded⟩ := addIds_ok hconvert h
  rw [removeIds_eq_self_iff]
  refine and_congr_right fun hapart => ?_
  rw [removeIds_eq_self_iff.mpr hapart] at hadded
  rw [and_iff_right (List.prefix_append target added), getStringIds_append, added_texts hids hadded]
  have hcount : ∀ s ∈ getStringIds ids, (getStringIds target).count s = 0 :=
    fun s hs => List.count_eq_zero.mpr fun hmem => hapart s hmem hs
  generalize getStringIds ids = texts at hcount
  -- what was there before has none of the texts
  have hadd (added : List String) : (∀ s ∈ texts, (getStringIds target ++ added).count s = 1)
      ↔ ∀ s ∈ texts, added.count s = 1 :=
    forall₂_congr fun s hs => by rw [List.count_append, hcount s hs, Nat.zero_add]
  rw [hadd]
  by_cases hlower : convert = .auto ∧ target.head?.any isObjectId = true
  · rw [if_pos hlower]
    constructor
    · intro hone
      have hself : ∀ s ∈ texts, FilterHelper.lowerHex s = s := by
        intro s hs
        obtain ⟨t, -, ht⟩ := List.mem_map.mp (List.count_pos_iff.mp (hone s hs ▸ Nat.one_pos))
        rw [← ht, lowerHex_lowerHex]
      rw [List.map_congr_left hself, List.map_id'] at hone
      exact ⟨List.nodup_iff_count_eq_one.mpr hone, fun _ _ => hself⟩
    · rintro ⟨hnodup, hself⟩
      rw [List.map_congr_left (hself hlower.1 hlower.2), List.map_id']
      exact List.nodup_iff_count_eq_one.mp hnodup
  · rw [if_neg hlower, List.map_id, ← List.nodup_iff_count_eq_one]
    exact (and_iff_left fun hauto hobject => absurd ⟨hauto, hobject⟩ hlower).symm

/-- **When the two are set operations.** -/
theorem ids_iff :
    (∀ source ids : List (JsTree κ), removeIds source ids = source.filter (fun e => !listedBy ids e)
        ↔ Meets (listedBy ids) source (removalPositions source ids))
      ∧ (∀ source ids : List (JsTree κ), (∀ e ∈ source, (stringId e).isSome = true) →
          (getStringIds source).Nodup →
          ((getStringIds ids).filter fun s => (getStringIds source).contains s).Nodup →
          (removeIds source ids = source.filter (fun e => !listedBy ids e)
            ↔ (removalPositions source ids).Pairwise (· > ·)))
      ∧ ∀ (generated : String) (target ids : List (JsTree κ)) (convert : Convert)
          (out : List (JsTree κ) × List (JsTree κ)), convert = .auto ∨ convert = .no →
          (∀ id ∈ ids, (stringId id).isSome = true) →
          addIds generated target ids convert true = .ok out →
          ((out.2 = ids ∧ target <+: out.1 ∧
            ∀ s ∈ getStringIds ids, (getStringIds out.1).count s = 1)
            ↔ (∀ s ∈ getStringIds target, s ∉ getStringIds ids) ∧ (getStringIds ids).Nodup
              ∧ (convert = .auto → target.head?.any isObjectId = true →
                  ∀ s ∈ getStringIds ids, FilterHelper.lowerHex s = s)) := by
  refine ⟨removeIds_iff, ?_, fun _ _ _ _ _ => addIds_iff⟩
  intro source ids hids hnodup honce
  rw [removeIds_iff, meets_iff_decreasing (perm_positions hids hnodup honce)]

def text (s : String) : JsTree Unit := .prim (.str s)

/-- From the back to the front, and with ids that are new. -/
theorem removed_from_the_back :
    removeIds [text "a", text "b", text "c"] [text "c", text "a"]
        = [text "a", text "b", text "c"].filter (fun e => !listedBy [text "c", text "a"] e)
      ∧ (getStringIds [text "a", text "b"]).count "b" = 1 := by
  constructor
  · exact (ids_iff.2.1 [text "a", text "b", text "c"] [text "c",
      text "a"] (by decide +kernel) (by decide +kernel)
      (by decide +kernel)).mpr (by decide +kernel)
  · exact ((ids_iff.2.2 "" [text "a"] [text "b"] .auto ([text "a", text "b"], [text "b"]) (.inl rfl)
      (by decide +kernel) rfl).mpr
        ⟨by decide +kernel, by decide +kernel, fun _ h => by cases h⟩).2.2 "b"
      (by decide +kernel)

/-- From the front to the back every second one is missed. -/
theorem removed_from_the_front : ¬ ∀ source ids : List (JsTree Unit), (getStringIds source).Nodup →
    removeIds source ids = source.filter fun e => !listedBy ids e := by
  intro h
  have hlength := congrArg List.length
      (h [text "a", text "b"] [text "a", text "b"] (by decide +kernel))
  revert hlength
  decide +kernel

/-! ## `getElementsViaIds` -/

theorem equalIds_iff {id e : JsTree κ} : equalIds id e = true ↔ ∃ s, stringId id = some s ∧
    stringId e = some s := by
  simp [equalIds, Option.any_eq_true]

theorem listedBy_iff_equalIds {e : JsTree κ} : listedBy ids e = true ↔
    ∃ id ∈ ids, equalIds id e = true := by
  simp only [listedBy_iff, mem_getStringIds, equalIds_iff]
  constructor
  · rintro ⟨s, hs, id, hid, hids⟩
    exact ⟨id, hid, s, hids, hs⟩
  · rintro ⟨id, hid, s, hids, hs⟩
    exact ⟨s, hs, id, hid, hids⟩

theorem mem_getIndexesViaIds {p : Nat} : p ∈ getIndexesViaIds ids array ↔
    p ∈ positions (listedBy ids) array := by
  simp only [getIndexesViaIds, List.mem_flatMap, mem_positions, listedBy_iff_equalIds]
  constructor
  · rintro ⟨id, hid, e, he, heq⟩
    exact ⟨e, he, id, hid, heq⟩
  · rintro ⟨e, he, id, hid, heq⟩
    exact ⟨id, hid, e, he, heq⟩

/-- An id that is given, and that an element of the array has. -/
def Matched (ids array : List (JsTree κ)) (s : String) : Prop := s ∈ getStringIds ids ∧
    s ∈ getStringIds array

theorem listedBy_of_matched {s : String} (h : Matched ids array s) :
    ∃ e ∈ array, stringId e = some s ∧ listedBy ids e = true := by
  obtain ⟨e, he, hs⟩ := mem_getStringIds.mp h.2
  exact ⟨e, he, hs, listedBy_iff.mpr ⟨s, hs, h.1⟩⟩

theorem getIndexesViaIds_eq_nil_iff : getIndexesViaIds ids array = [] ↔
    ∀ e ∈ array, listedBy ids e = false := by
  rw [List.eq_nil_iff_forall_not_mem]
  simp only [mem_getIndexesViaIds, mem_positions, not_exists, not_and, Bool.not_eq_true]
  constructor
  · intro h e he
    obtain ⟨p, hp⟩ := List.mem_iff_getElem?.mp he
    exact h p e hp
  · intro h p e hp
    exact h e (List.mem_of_getElem? hp)

/-- One element for each id that is matched, and no other. -/
def OneForEach (ids array result : List (JsTree κ)) : Prop :=
  (∀ s, Matched ids array s → result.countP (fun e => stringId e = some s) = 1)
    ∧ ∀ e ∈ result, listedBy ids e = true

/-- What the options ask for, of the result and of the array afterwards. -/
def Selects (ids array : List (JsTree κ)) (splice unique : Bool)
    (out : List (JsTree κ) × List (JsTree κ)) : Prop :=
  (if unique then OneForEach ids array out.1
    else if splice then out.1.Perm (array.filter (listedBy ids))
    else out.1 = ids.flatMap fun id => array.filter (equalIds id))
  ∧ if splice then out.2 = array.filter (fun e => !listedBy ids e) else out.2 = array

/-- When they get it: with `unique`, if only one id is matched; with `splice`, if the positions meet
    what they were found for. -/
def Sound (ids array : List (JsTree κ)) (splice unique : Bool) : Prop :=
  if unique then
    (∀ s s', Matched ids array s → Matched ids array s' → s = s')
      ∧ (splice = true → Meets (listedBy ids) array (getIndexesViaIds ids array))
  else splice = true → (getIndexesViaIds ids array).Pairwise (· > ·)

/-! ### The elements at the positions -/

theorem find?_zipIdx (o : Option Nat) (l : List (JsTree κ)) (k : Nat) :
    ((l.zipIdx k).filter fun e => o = some e.2).map Prod.fst
      = (o.bind fun p => if k ≤ p then l[p - k]? else none).toList := by
  induction l generalizing k with
  | nil =>
      cases o with
      | none => rfl
      | some p => simp
  | cons e l ih =>
      rw [List.zipIdx_cons, List.filter_cons]
      cases o with
      | none => simp
      | some p =>
          have ih := ih (k + 1)
          by_cases hp : p = k
          · subst hp
            have hlt : ¬ p + 1 ≤ p := Nat.not_succ_le_self p
            rw [if_pos (by simp), List.map_cons, ih]
            simp [hlt]
          · rw [if_neg (by simpa using hp), ih]
            by_cases hle : k ≤ p
            · have hlt : k + 1 ≤ p := by omega
              have hsub : p - k = (p - (k + 1)) + 1 := by omega
              show (if k + 1 ≤ p then l[p - (k + 1)]? else none).toList
                = (if k ≤ p then (e :: l)[p - k]? else none).toList
              rw [if_pos hlt, if_pos hle, hsub, List.getElem?_cons_succ]
            · have hlt : ¬ k + 1 ≤ p := by omega
              show (if k + 1 ≤ p then l[p - (k + 1)]? else none).toList
                = (if k ≤ p then (e :: l)[p - k]? else none).toList
              rw [if_neg hlt, if_neg hle]

/-- Of the elements only the first one with an id is kept. -/
theorem uniqueElements_eq (elements : List (JsTree κ)) :
    uniqueElements elements = (elements.find? hasStringIds).toList := by
  rw [uniqueElements, find?_zipIdx]
  simp [List.find?_eq_bind_findIdx?_getElem?]

theorem hasStringIds_of_listed {e : JsTree κ} (h : listedBy ids e = true) :
    hasStringIds e = true := by
  obtain ⟨s, hs, -⟩ := listedBy_iff.mp h
  cases e with
  | arr items => rfl
  | _ =>
      show (stringId _).isSome = true
      rw [hs]
      rfl

theorem found_plain : (getIndexesViaIds ids array).map (fun i => array[i]?)
    = (ids.flatMap fun id => array.filter (equalIds id)).map some := by
  rw [getIndexesViaIds, List.map_flatMap, List.map_flatMap]
  exact congrArg (fun f => ids.flatMap f) (funext fun id => map_positions array)

/-- The elements before `unique`. -/
def foundElements (ids array : List (JsTree κ)) (splice : Bool) : List (JsTree κ) :=
  (if splice then taken array (getIndexesViaIds ids array)
    else (getIndexesViaIds ids array).map fun i => array[i]?).map fun e => e.getD (.prim .undefined)

theorem getElementsViaIds_eq (splice unique : Bool) :
    getElementsViaIds ids array splice unique
      = (if unique then uniqueElements (foundElements ids array splice)
        else foundElements ids array splice,
        if splice then removeAt array (getIndexesViaIds ids array) else array) := by
  rw [getElementsViaIds]
  by_cases hnil : getIndexesViaIds ids array = []
  · rw [foundElements, hnil]
    cases splice <;> cases unique <;> rfl
  · rw [if_neg (by simpa using hnil), foundElements]

/-- The first element is one that is listed. -/
theorem foundElements_first (splice : Bool) (hne : getIndexesViaIds ids array ≠ []) :
    ∃ e rest, foundElements ids array splice = e :: rest ∧ e ∈ array ∧ listedBy ids e = true := by
  obtain ⟨p, ps, hps⟩ := List.exists_cons_of_ne_nil hne
  have hp : p ∈ positions (listedBy ids) array := mem_getIndexesViaIds.mp (hps ▸ List.mem_cons_self)
  obtain ⟨e, he, hlisted⟩ := mem_positions.mp hp
  refine ⟨e, (foundElements ids array splice).tail, ?_, List.mem_of_getElem? he, hlisted⟩
  rw [foundElements, hps]
  cases splice with
  | false =>
      show (array[p]?).getD _ :: _ = e :: _
      rw [he]
      rfl
  | true =>
      show (array[p]?).getD _ :: _ = e :: _
      rw [he]
      rfl

/-! ### The options -/

theorem oneForEach_iff (splice : Bool) : OneForEach ids array
    (uniqueElements (foundElements ids array splice))
    ↔ ∀ s s', Matched ids array s → Matched ids array s' → s = s' := by
  rw [uniqueElements_eq]
  by_cases hnil : getIndexesViaIds ids array = []
  · have hnone : ∀ s, ¬ Matched ids array s := by
      intro s hs
      obtain ⟨e, he, -, hlisted⟩ := listedBy_of_matched hs
      rw [getIndexesViaIds_eq_nil_iff.mp hnil e he] at hlisted
      cases hlisted
    have hfound : foundElements ids array splice = [] := by
      rw [foundElements, hnil]
      cases splice <;> rfl
    rw [hfound]
    exact iff_of_true ⟨fun s hs => absurd hs (hnone s), fun e he => by cases he⟩ fun s _ hs =>
      absurd hs (hnone s)
  · obtain ⟨e, rest, hfound, he, hlisted⟩ := foundElements_first splice hnil
    obtain ⟨t, ht, htids⟩ := listedBy_iff.mp hlisted
    have htmatched : Matched ids array t := ⟨htids, mem_getStringIds.mpr ⟨e, he, ht⟩⟩
    rw [hfound, List.find?_cons_of_pos (hasStringIds_of_listed hlisted)]
    have hcount : ∀ s, [e].countP (fun e => stringId e = some s) = 1 ↔ t = s := by
      intro s
      rw [List.countP_singleton, ht]
      by_cases hts : t = s <;> simp [hts]
    constructor
    · intro hone s s' hs hs'
      exact ((hcount s).mp (hone.1 s hs)).symm.trans ((hcount s').mp (hone.1 s' hs'))
    · intro hsame
      refine ⟨fun s hs => (hcount s).mpr (hsame t s htmatched hs), fun e' he' => ?_⟩
      obtain rfl := List.mem_singleton.mp he'
      exact hlisted

/-- Taken out one after the other, the elements are the listed ones and the rest is left, exactly
    from the back to the front. -/
theorem spliced_iff : ((foundElements ids array true).Perm (array.filter (listedBy ids))
      ∧ removeAt array (getIndexesViaIds ids array) = array.filter fun e => !listedBy ids e)
    ↔ (getIndexesViaIds ids array).Pairwise (· > ·) := by
  have hmem : ∀ p, p ∈ getIndexesViaIds ids array ↔ p ∈ positions (listedBy ids) array :=
    fun p => mem_getIndexesViaIds
  have hfound : foundElements ids array true
      = (taken array (getIndexesViaIds ids array)).map fun e => e.getD (.prim .undefined) := rfl
  rw [removeAt_eq_filter_iff, hfound]
  generalize getIndexesViaIds ids array = ps at hmem
  have htaken : (taken array ps).length = ps.length := length_taken array ps
  constructor
  · rintro ⟨hperm, hmeets⟩
    -- as many positions as listed elements: each of them once
    have hlength : ps.length = (positions (listedBy ids) array).length := by
      rw [length_positions, List.countP_eq_length_filter, ← hperm.length_eq, List.length_map,
        htaken]
    have hsub : (positions (listedBy ids) array).Subperm ps :=
      List.subperm_of_subset nodup_positions fun p hp => (hmem p).mpr hp
    exact (meets_iff_decreasing (hsub.perm_of_length_le (Nat.le_of_eq hlength)).symm).mp hmeets
  · intro hps
    have hnodup : ps.Nodup := hps.imp fun h => Nat.ne_of_gt h
    have hperm : ps.Perm (positions (listedBy ids) array) :=
      (List.perm_ext_iff_of_nodup hnodup nodup_positions).mpr hmem
    have hmeets := (meets_iff_decreasing hperm).mpr hps
    obtain ⟨xs, hxs, hfilter⟩ := hmeets.taken (by rw [hperm.length_eq, length_positions])
    refine ⟨?_, hmeets⟩
    rw [hxs, List.map_map]
    have hid : ((fun e : Option (JsTree κ) => e.getD (.prim .undefined)) ∘ some) = id := rfl
    rw [hid, List.map_id]
    exact hfilter

/-- **What `getElementsViaIds` selects and leaves** is what its options ask for in exactly the sound
    cases; without options that is always. -/
theorem getElementsViaIds_iff (ids array : List (JsTree κ)) (splice unique : Bool) :
    Selects ids array splice unique (getElementsViaIds ids array splice unique) ↔
      Sound ids array splice unique := by
  rw [getElementsViaIds_eq, Selects, Sound]
  cases unique with
  | true =>
      rw [if_pos rfl, if_pos rfl, if_pos rfl, oneForEach_iff]
      refine and_congr_right fun _ => ?_
      cases splice with
      | true  =>
          show removeAt array _ = _ ↔ (true = true → _)
          rw [removeAt_eq_filter_iff]
          exact ⟨fun h _ => h, fun h => h rfl⟩
      | false => exact iff_of_true rfl fun h => by cases h
  | false =>
      rw [if_neg Bool.false_ne_true, if_neg Bool.false_ne_true, if_neg Bool.false_ne_true]
      cases splice with
      | true  =>
          refine spliced_iff.trans ?_
          simp
      | false =>
          refine iff_of_true ⟨?_, rfl⟩ fun h => by cases h
          show ((getIndexesViaIds ids array).map fun i => array[i]?).map _ = _
          rw [found_plain, List.map_map]
          exact List.map_id _

/-- The second element is not taken, and stays. -/
theorem getElementsViaIds_misses : ¬ ∀ ids array : List (JsTree Unit),
    Selects ids array true false (getElementsViaIds ids array true false) := by
  intro h
  have hafter := (h [text "a", text "b"] [text "a", text "b"]).2
  have hlength := congrArg List.length hafter
  revert hlength
  decide +kernel

end DbHelper
