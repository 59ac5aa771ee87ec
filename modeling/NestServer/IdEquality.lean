import NestServer.IdArrays

/-! # When two ids are equal

    `equalIds` and `getIncludedIds` of `id.helper.ts` compare texts.  The text of a
    value is that of the id to which `id`, and then `_id`, leads (`LeadsTo`).  An
    object at which the search ends has a text as well: that of `toString()`, which
    all of them share.

    * `stringId_iff` says which texts a value has;
    * `equalIds_iff_sameId` says when equal texts are equal ids. -/

namespace JsTree

variable {κ : Type} {a b v w : JsTree κ} {fields : Fields κ}

/-! ## Following `id` and `_id` -/

/-- `element.id`, or else `element._id`, where one is truthy. -/
def nextId (fields : Fields κ) : Option (JsTree κ) :=
  ((fields.lookup "id").filter truthy).or ((fields.lookup "_id").filter truthy)

/-- Where `id`, and then `_id`, leads in the end. -/
inductive LeadsTo : JsTree κ → JsTree κ → Prop
  | prim (p : Prim) : LeadsTo (prim p) (prim p)
  | oid (hex : String) : LeadsTo (oid hex) (oid hex)
  | arr (items : List (JsTree κ)) : LeadsTo (arr items) (arr items)
  | noId {proto : List κ} {fields : Fields κ} : nextId fields = none →
      LeadsTo (obj proto fields) (obj proto fields)
  | next {proto : List κ} {fields : Fields κ} {v w : JsTree κ} : nextId fields = some v →
      LeadsTo v w → LeadsTo (obj proto fields) w

theorem nextId_mem (h : nextId fields = some v) : ∃ key, (key, v) ∈ fields ∧
    (key = "id" ∨ key = "_id") ∧ v.truthy = true := by
  rcases Option.or_eq_some_iff.mp h with h | ⟨-, h⟩
  · obtain ⟨hlookup, htruthy⟩ := Option.filter_eq_some_iff.mp h
    exact ⟨"id", mem_of_lookup hlookup, .inl rfl, htruthy⟩
  · obtain ⟨hlookup, htruthy⟩ := Option.filter_eq_some_iff.mp h
    exact ⟨"_id", mem_of_lookup hlookup, .inr rfl, htruthy⟩

theorem exists_leadsTo (a : JsTree κ) : ∃ v, LeadsTo a v := by
  induction a using JsTree.induction with
  | prim p   => exact ⟨_, .prim p⟩
  | oid hex  => exact ⟨_, .oid hex⟩
  | arr items => exact ⟨_, .arr items⟩
  | obj proto fields ih =>
      cases hnext : nextId fields with
      | none   => exact ⟨_, .noId hnext⟩
      | some v =>
          obtain ⟨key, hmem, -⟩ := nextId_mem hnext
          obtain ⟨w, hw⟩ := ih _ hmem
          exact ⟨w, .next hnext hw⟩

theorem LeadsTo.unique (hv : LeadsTo a v) (hw : LeadsTo a w) : v = w := by
  induction hv with
  | prim p    => cases hw; rfl
  | oid hex   => cases hw; rfl
  | arr items => cases hw; rfl
  | noId hnone =>
      cases hw with
      | noId        => rfl
      | next hnext  => rw [hnone] at hnext; cases hnext
  | next hnext _ ih =>
      cases hw with
      | noId hnone      => rw [hnone] at hnext; cases hnext
      | next hnext' hw' =>
          rw [hnext] at hnext'
          cases hnext'
          exact ih hw'

/-! ## The text of a value -/

theorem idAt_eq (key : String) (fields : Fields κ) :
    idAt key fields = ((fields.lookup key).filter truthy).map getStringId := by
  induction fields with
  | nil => rfl
  | cons e rest ih =>
      obtain ⟨k, v⟩ := e
      rw [idAt, List.lookup_cons]
      by_cases hk : k = key
      · rw [if_pos hk, beq_iff_eq.mpr hk.symm]
        show _ = ((some v).filter truthy).map getStringId
        rw [Option.filter_some]
        cases v.truthy with
        | true  => rfl
        | false => rfl
      · rw [if_neg hk, beq_eq_false_iff_ne.mpr (Ne.symm hk), ih]

theorem getStringId_obj (proto : List κ) (fields : Fields κ) :
    getStringId (obj proto fields) = match nextId fields with
      | some v => getStringId v
      | none   => if (keys fields).contains "toString" then none else some "[object Object]" := by
  rw [getStringId, idAt_eq, idAt_eq, nextId]
  cases (fields.lookup "id").filter truthy with
  | some v => rfl
  | none   =>
      cases (fields.lookup "_id").filter truthy with
      | some v => rfl
      | none   => rfl

/-- A value has the text of what its `id` leads to. -/
theorem LeadsTo.getStringId_eq (h : LeadsTo a v) : getStringId a = getStringId v := by
  induction h with
  | next hnext _ ih => rw [getStringId_obj, hnext]; exact ih
  | _ => rfl

/-! ## Ids -/

/-- A string or an ObjectId is an id. -/
def idText : JsTree κ → Option String
  | prim (.str s) => some s
  | oid hex       => some hex
  | _             => none

/-- The value resolves to this id. -/
def HasId (a : JsTree κ) (s : String) : Prop := ∃ v, LeadsTo a v ∧ idText v = some s

def SameId (a b : JsTree κ) : Prop := ∃ s, HasId a s ∧ HasId b s

/-- The search ends at an object that has neither an id nor a `toString` of its own. -/
def Nameless (a : JsTree κ) : Prop :=
  ∃ proto fields, LeadsTo a (obj proto fields) ∧ "toString" ∉ keys fields

/-- The text of an object without an id is the text of the other value, too. -/
def Coincide (a b : JsTree κ) : Prop :=
  Nameless a ∧ (Nameless b ∨ HasId b "[object Object]") ∨ Nameless b ∧ HasId a "[object Object]"

/-- Values built from strings, ObjectIds and objects; an object may have any further keys. -/
inductive IsRecord : JsTree κ → Prop
  | str (s : String) : IsRecord (prim (.str s))
  | oid {hex : String} : hex ≠ "" → IsRecord (oid hex)
  | obj {proto : List κ} {fields : Fields κ} :
      (∀ e ∈ fields, e.1 = "id" ∨ e.1 = "_id" → e.2.isNullish = false → IsRecord e.2) →
      IsRecord (obj proto fields)

theorem isNullish_of_truthy (h : v.truthy = true) : v.isNullish = false := by
  cases v with
  | prim p =>
      cases p with
      | undefined => cases h
      | null      => cases h
      | _         => rfl
  | _ => rfl

/-- The search ends at a value of the same kind. -/
theorem IsRecord.leadsTo (ha : IsRecord a) (h : LeadsTo a v) : IsRecord v := by
  induction h with
  | next hnext _ ih =>
      cases ha with
      | obj hfields =>
          obtain ⟨key, hmem, hkey, htruthy⟩ := nextId_mem hnext
          exact ih (hfields _ hmem hkey (isNullish_of_truthy htruthy))
  | _ => exact ha

theorem LeadsTo.nextId_eq_none {proto : List κ} (h : LeadsTo a (obj proto fields)) :
    nextId fields = none := by
  generalize hv : obj proto fields = v at h
  induction h with
  | noId hnone     => cases hv; exact hnone
  | next _ _ ih    => exact ih hv
  | _ => cases hv

theorem HasId.unique {s t : String} (hs : HasId a s) (ht : HasId a t) : s = t := by
  obtain ⟨v, hv, hid⟩ := hs
  obtain ⟨w, hw, hid'⟩ := ht
  rw [hv.unique hw, hid'] at hid
  exact (Option.some.inj hid).symm

theorem HasId.not_nameless {s : String} (h : HasId a s) : ¬ Nameless a := by
  rintro ⟨proto, fields, hlead, -⟩
  obtain ⟨v, hv, hid⟩ := h
  rw [hv.unique hlead] at hid
  cases hid

theorem Coincide.not_sameId (h : Coincide a b) : ¬ SameId a b := by
  rintro ⟨s, ha, hb⟩
  rcases h with ⟨hnameless, -⟩ | ⟨hnameless, -⟩
  · exact ha.not_nameless hnameless
  · exact hb.not_nameless hnameless

/-- Only the empty string itself resolves to it: an empty `id` is passed over. -/
theorem hasId_empty (ha : IsRecord a) : HasId a "" ↔ a = prim (.str "") := by
  constructor
  · rintro ⟨v, hlead, hid⟩
    induction hlead with
    | prim p =>
        cases p with
        | str s => cases hid; rfl
        | _     => cases hid
    | oid hex =>
        cases hid
        cases ha with
        | oid hhex => exact absurd rfl hhex
    | arr items => cases hid
    | noId _    => cases hid
    | next hnext _ ih =>
        cases ha with
        | obj hfields =>
            obtain ⟨key, hmem, hkey, htruthy⟩ := nextId_mem hnext
            have hv := ih (hfields _ hmem hkey (isNullish_of_truthy htruthy)) hid
            rw [hv] at htruthy
            cases htruthy
  · rintro rfl
    exact ⟨_, .prim _, rfl⟩

theorem sameId_empty (ha : IsRecord a) : SameId a (prim (.str "")) ↔ a = prim (.str "") := by
  have hempty : HasId (prim (.str "") : JsTree κ) "" := ⟨_, .prim _, rfl⟩
  rw [← hasId_empty ha]
  constructor
  · rintro ⟨s, hid, hs⟩
    rwa [hs.unique hempty] at hid
  · exact fun hid => ⟨"", hid, hempty⟩

theorem Coincide.ne_empty (h : Coincide a b) : b ≠ prim (.str "") := by
  rintro rfl
  have hempty : HasId (prim (.str "") : JsTree κ) "" := ⟨_, .prim _, rfl⟩
  rcases h with ⟨-, hnameless | hid⟩ | ⟨hnameless, -⟩
  · exact hempty.not_nameless hnameless
  · exact absurd (hid.unique hempty) (by decide)
  · exact hempty.not_nameless hnameless

end JsTree

namespace DbHelper

open JsTree

variable {κ : Type} {a b : JsTree κ}

/-- **The texts of a value**: its id, and for an object without one the text of all of them. -/
theorem stringId_iff {s : String} (ha : IsRecord a) :
    stringId a = some s ↔ s ≠ "" ∧ (HasId a s ∨ Nameless a ∧ s = "[object Object]") := by
  obtain ⟨v, hlead⟩ := exists_leadsTo a
  have hnotArr : ∀ items, a ≠ arr items := by
    rintro items rfl
    cases ha
  have hid : HasId a s ↔ idText v = some s := by
    constructor
    · rintro ⟨w, hw, hid⟩
      rw [hlead.unique hw]
      exact hid
    · exact fun h => ⟨v, hlead, h⟩
  have hnameless : Nameless a ↔ ∃ proto fields, v = obj proto fields ∧
      "toString" ∉ keys fields := by
    constructor
    · rintro ⟨proto, fields, hw, htext⟩
      exact ⟨proto, fields, hlead.unique hw, htext⟩
    · rintro ⟨proto, fields, rfl, htext⟩
      exact ⟨proto, fields, hlead, htext⟩
  rw [stringId_eq hnotArr, Option.filter_eq_some_iff, decide_eq_true_eq, and_comm,
    hlead.getStringId_eq, hid, hnameless]
  refine and_congr_right fun hs => ?_
  cases ha.leadsTo hlead with
  | str t =>
      show (if (t ≠ "" : Bool) then some t else none) = some s ↔ some t = some s ∨ _
      by_cases ht : t = ""
      · subst ht
        simpa using Ne.symm hs
      · simp [ht]
  | oid hhex => simp [getStringId, idText]
  | obj hfields =>
      rw [getStringId_obj, hlead.nextId_eq_none]
      by_cases htext : "toString" ∈ keys ‹Fields κ›
      · simp [htext, idText]
      · simp [htext, idText, eq_comm]

/-- Equal are equal ids that are not empty, and values whose texts coincide. -/
theorem equalIds_records (ha : IsRecord a) (hb : IsRecord b) : equalIds a b = true ↔
    SameId a b ∧ b ≠ .prim (.str "") ∨ Coincide a b := by
  rw [equalIds_iff]
  constructor
  · rintro ⟨s, hsa, hsb⟩
    obtain ⟨hs, hidA | ⟨hA, rfl⟩⟩ := (stringId_iff ha).mp hsa
    · obtain ⟨-, hidB | ⟨hB, rfl⟩⟩ := (stringId_iff hb).mp hsb
      · refine .inl ⟨⟨s, hidA, hidB⟩, ?_⟩
        rintro rfl
        exact hs (hidB.unique ⟨_, .prim _, rfl⟩)
      · exact .inr (.inr ⟨hB, hidA⟩)
    · obtain ⟨-, hidB | ⟨hB, -⟩⟩ := (stringId_iff hb).mp hsb
      · exact .inr (.inl ⟨hA, .inr hidB⟩)
      · exact .inr (.inl ⟨hA, .inl hB⟩)
  · have hobject : "[object Object]" ≠ "" := by decide
    rintro (⟨⟨s, hidA, hidB⟩, hne⟩ | ⟨hA, hB | hidB⟩ | ⟨hB, hidA⟩)
    · have hs : s ≠ "" := by
        rintro rfl
        exact hne ((hasId_empty hb).mp hidB)
      exact ⟨s, (stringId_iff ha).mpr ⟨hs, .inl hidA⟩, (stringId_iff hb).mpr ⟨hs, .inl hidB⟩⟩
    · exact ⟨_, (stringId_iff ha).mpr ⟨hobject, .inr ⟨hA, rfl⟩⟩,
        (stringId_iff hb).mpr ⟨hobject, .inr ⟨hB, rfl⟩⟩⟩
    · exact ⟨_, (stringId_iff ha).mpr ⟨hobject, .inr ⟨hA, rfl⟩⟩,
        (stringId_iff hb).mpr ⟨hobject, .inl hidB⟩⟩
    · exact ⟨_, (stringId_iff ha).mpr ⟨hobject, .inl hidA⟩,
        (stringId_iff hb).mpr ⟨hobject, .inr ⟨hB, rfl⟩⟩⟩

/-! ## `getIncludedIds` -/

/-- The answer of `getIncludedIds`. -/
inductive Included (κ : Type) where
  | undefined
  | null
  | ids (found : List (JsTree κ))

/-- A list of ids was answered. -/
def Included.found : Included κ → Bool
  | .ids _ => true
  | _      => false

inductive IdForm where
  | object
  | string

/-- `Array.isArray(ids) ? ids : [ids]` -/
def asArray : JsTree κ → List (JsTree κ)
  | arr items => items
  | v         => [v]

def convertIds (generated : String) (convert : Option IdForm) (result : List (JsTree κ)) :
    Except IdError (List (JsTree κ)) :=
  match convert with
  | none         => .ok result
  | some .string => .ok ((getStringIds result).map fun s => .prim (.str s))
  | some .object => result.mapM (newObjectId generated)

def getIncludedIds (generated : String) (includes ids : JsTree κ) (convert : Option IdForm) :
    Except IdError (Included κ) :=
  if !includes.truthy || !ids.truthy then .ok .undefined
  else
    (convertIds generated convert ((asArray ids).filter (listedBy (asArray includes)))).map
      fun result => if result.isEmpty then .null else .ids result

/-- A list is answered where the id is not empty and equals one of those that are included. -/
theorem getIncludedIds_found (generated : String) {as : List (JsTree κ)} (hb : IsRecord b) :
    (∃ r, getIncludedIds generated (arr as) b none = .ok r ∧ r.found = true) ↔
      ∃ a ∈ as, equalIds a b = true := by
  have harray : asArray b = [b] := by
    cases hb with
    | _ => rfl
  have hlisted : listedBy as b = true ↔ ∃ a ∈ as, equalIds a b = true := by
    rw [listedBy_iff]
    simp only [mem_getStringIds, equalIds_iff]
    constructor
    · rintro ⟨s, hs, a, ha, hsa⟩
      exact ⟨a, ha, s, hsa, hs⟩
    · rintro ⟨a, ha, s, hsa, hs⟩
      exact ⟨s, hs, a, ha, hsa⟩
  rw [← hlisted]
  cases htruthy : b.truthy with
  | false =>
      have hanswer : getIncludedIds generated (arr as) b none = .ok .undefined := by
        rw [getIncludedIds, htruthy, Bool.not_false, Bool.or_true, if_pos rfl]
      have hnot : listedBy as b = false := by
        cases hb with
        | str s =>
            have hs : s = "" := by simpa [JsTree.truthy, Prim.truthy] using htruthy
            subst hs
            rfl
        | oid _ => cases htruthy
        | obj _ => cases htruthy
      rw [hanswer, hnot]
      constructor
      · rintro ⟨r, hr, hfound⟩
        cases hr
        cases hfound
      · exact fun h => by cases h
  | true =>
      have hanswer : getIncludedIds generated (arr as) b none
          = .ok (if (([b] : List (JsTree κ)).filter (listedBy as)).isEmpty then .null
              else .ids ([b].filter (listedBy as))) := by
        rw [getIncludedIds, htruthy, harray]
        rfl
      rw [hanswer]
      cases hlist : listedBy as b with
      | true  => simp [hlist, Included.found]
      | false => simp [hlist, Included.found]

/-! ## When equal texts are equal ids -/

/-- **`equalIds` compares ids** except for two empty strings, and for objects without an id: their
    text is the same for all of them. -/
theorem equalIds_iff_sameId (ha : IsRecord a) (hb : IsRecord b) :
    (equalIds a b = true ↔ SameId a b)
      ↔ ¬ Coincide a b ∧ ¬ (a = .prim (.str "") ∧ b = .prim (.str "")) := by
  rw [equalIds_records ha hb]
  constructor
  · intro h
    refine ⟨fun hcoincide => hcoincide.not_sameId (h.mp (.inr hcoincide)), ?_⟩
    rintro ⟨rfl, rfl⟩
    rcases h.mpr ((sameId_empty ha).mpr rfl) with ⟨-, hne⟩ | hcoincide
    · exact hne rfl
    · exact hcoincide.ne_empty rfl
  · rintro ⟨hcoincide, hempty⟩
    refine ⟨fun h => ?_, fun hsame => .inl ⟨hsame, ?_⟩⟩
    · rcases h with ⟨hsame, -⟩ | h
      · exact hsame
      · exact absurd h hcoincide
    · rintro rfl
      exact hempty ⟨(sameId_empty ha).mp hsame, rfl⟩

theorem getIncludedIds_iff_sameId (generated : String) {as : List (JsTree κ)}
    (has : ∀ a ∈ as, IsRecord a) (hb : IsRecord b) :
    ((∃ r, getIncludedIds generated (arr as) b none = .ok r ∧ r.found = true)
        ↔ ∃ a ∈ as, SameId a b)
      ↔ ((∃ a ∈ as, Coincide a b) → ∃ a ∈ as, SameId a b)
        ∧ ¬ (b = .prim (.str "") ∧ .prim (.str "") ∈ as) := by
  rw [getIncludedIds_found generated hb]
  have hequal : ∀ a ∈ as, (equalIds a b = true ↔ SameId a b ∧ b ≠ .prim (.str "") ∨ Coincide a b) :=
    fun a ha => equalIds_records (has a ha) hb
  constructor
  · intro h
    refine ⟨?_, ?_⟩
    · rintro ⟨a, ha, hcoincide⟩
      exact h.mp ⟨a, ha, (hequal a ha).mpr (.inr hcoincide)⟩
    · rintro ⟨rfl, hmem⟩
      obtain ⟨a, ha, ha'⟩ := h.mpr ⟨_, hmem, (sameId_empty (.str "")).mpr rfl⟩
      rcases (hequal a ha).mp ha' with ⟨-, hne⟩ | hcoincide
      · exact hne rfl
      · exact hcoincide.ne_empty rfl
  · rintro ⟨hcoincide, hempty⟩
    constructor
    · rintro ⟨a, ha, h⟩
      rcases (hequal a ha).mp h with ⟨hsame, -⟩ | h
      · exact ⟨a, ha, hsame⟩
      · exact hcoincide ⟨a, ha, h⟩
    · rintro ⟨a, ha, hsame⟩
      refine ⟨a, ha, (hequal a ha).mpr (.inl ⟨hsame, ?_⟩)⟩
      rintro rfl
      have hself := (sameId_empty (has a ha)).mp hsame
      exact hempty ⟨rfl, hself ▸ ha⟩

/-- **When equal is the same id.** -/
theorem ids_equal_iff :
    (∀ a b : JsTree κ, IsRecord a → IsRecord b →
        ((equalIds a b = true ↔ SameId a b)
          ↔ ¬ Coincide a b ∧ ¬ (a = .prim (.str "") ∧ b = .prim (.str ""))))
      ∧ ∀ (generated : String) (as : List (JsTree κ)) (b : JsTree κ),
          (∀ a ∈ as, IsRecord a) → IsRecord b →
          (((∃ r, getIncludedIds generated (arr as) b none = .ok r ∧ r.found = true)
              ↔ ∃ a ∈ as, SameId a b)
            ↔ ((∃ a ∈ as, Coincide a b) → ∃ a ∈ as, SameId a b)
              ∧ ¬ (b = .prim (.str "") ∧ .prim (.str "") ∈ as)) :=
  ⟨fun _ _ => equalIds_iff_sameId, fun generated _ _ => getIncludedIds_iff_sameId generated⟩

/-- A user whose `id` is null, and its id as an ObjectId. -/
theorem ids_equal_user :
    ((equalIds (.obj [] [("id", .prim .null), ("_id", .oid "65a")] : JsTree Empty) (.oid "65a") =
      true
        ↔ SameId (.obj [] [("id", .prim .null), ("_id", .oid "65a")] : JsTree Empty) (.oid "65a"))
      ↔ ¬ Coincide (.obj [] [("id", .prim .null), ("_id", .oid "65a")] : JsTree Empty) (.oid "65a")
        ∧ ¬ ((.obj [] [("id", .prim .null), ("_id", .oid "65a")] : JsTree Empty) = .prim (.str "")
          ∧ (.oid "65a" : JsTree Empty) = .prim (.str "")))
      ∧ (((∃ r, getIncludedIds "" (.arr [.prim (.str "65a")] : JsTree Empty) (.oid "65a") none =
        .ok r
            ∧ r.found = true)
          ↔ ∃ a ∈ [(.prim (.str "65a") : JsTree Empty)], SameId a (.oid "65a"))
        ↔ ((∃ a ∈ [(.prim (.str "65a") : JsTree Empty)], Coincide a (.oid "65a")) →
            ∃ a ∈ [(.prim (.str "65a") : JsTree Empty)], SameId a (.oid "65a"))
          ∧ ¬ ((.oid "65a" : JsTree Empty) = .prim (.str "")
            ∧ .prim (.str "") ∈ [(.prim (.str "65a") : JsTree Empty)])) := by
  have hid : IsRecord (.oid "65a" : JsTree Empty) := .oid (by decide)
  refine ⟨ids_equal_iff.1 _ _ (.obj ?_) hid, ids_equal_iff.2 "" _ _ ?_ hid⟩
  · intro e he _ hnullish
    rcases List.mem_cons.mp he with rfl | he
    · cases hnullish
    · cases List.mem_singleton.mp he
      exact hid
  · intro a ha
    cases List.mem_singleton.mp ha
    exact .str _

/-- Two objects without an id are equal, and one is found among the others. -/
theorem equalIds_without_id :
    ¬ ((equalIds (.obj [] [("name", .prim (.str "a"))] : JsTree Empty) (.obj [] []) = true
        ↔ SameId (.obj [] [("name", .prim (.str "a"))] : JsTree Empty) (.obj [] []))
      ∧ ((∃ r, getIncludedIds "" (.arr [.obj [] [("name", .prim (.str "a"))]] : JsTree Empty)
            (.obj [] []) none = .ok r ∧ r.found = true)
        ↔ ∃ a ∈ [(.obj [] [("name", .prim (.str "a"))] : JsTree Empty)],
            SameId a (.obj [] []))) := by
  rintro ⟨h, -⟩
  obtain ⟨s, -, v, hlead, hid⟩ := h.mp (by decide)
  cases hlead with
  | noId       => cases hid
  | next hnext => cases hnext

end DbHelper
