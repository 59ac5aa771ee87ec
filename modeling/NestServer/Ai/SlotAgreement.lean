import NestServer.Ai.Slots
import NestServer.StableSort

/-! # The prompt is what the admin sees, or it is not

    Both overlays put their slots in lines, defaults first, and sort them by order.  They
    agree when they have the same lines (`OverrideFits`, one default and its row at a time)
    and lines of one order do not change places (`TiesKeepPlace`): a row whose default is
    not for this run is listed in the place of the default, but goes to the end in the
    prompt.

    * `promptLines_perm_iff` is about the lines;
    * `pairwise_promptLines_iff` is about their places;
    * `resolveFragments_eq_listing_iff` puts the two together. -/

namespace CoreAiSlotService

variable (options : Options) (defaults : List ResolvedPromptFragment) (rows : List CoreAiSlot)

/-! ## Statements -/

/-- What a prompt shows of a slot. -/
structure Line where
  key     : String
  content : String
  order   : ℚ
deriving DecidableEq

/-- The order in which lines are assembled. -/
def Line.le (a b : Line) : Prop := a.order ≤ b.order

instance : DecidableRel Line.le := fun a b => inferInstanceAs (Decidable (a.order ≤ b.order))

instance : Std.Total Line.le := ⟨fun a b => le_total a.order b.order⟩

instance : IsTrans Line Line.le := ⟨fun _ _ _ hab hbc => le_trans (α := ℚ) hab hbc⟩

def fragmentLine (f : ResolvedPromptFragment) : Line := ⟨f.key, f.content, f.order⟩

def entryLine (slot : EffectiveSlot) : Line := ⟨slot.key, slot.content.getD "", slot.order⟩

/-- An entry that the prompt should have: enabled, with content, its filters apply. -/
def expected (slot : EffectiveSlot) : Bool :=
  slot.enabled && hasContent slot.content && options.applies slot.capability slot.scope

/-- The prompt that an admin expects from the list. -/
def listedPrompt : List Line :=
  (((listEffective defaults rows).filter (expected options)).map entryLine).insertionSort Line.le

/-- When a row changes its default in the prompt as it does in the list. -/
structure OverrideFits (d : ResolvedPromptFragment) (row : CoreAiSlot) : Prop where
  /-- A row that is shown is listed with the filters and the order of its default where it
      has none of its own. -/
  shown : options.applies row.capability row.scope = true → hasContent row.content = true →
    options.applies (row.capability.or d.capability) (row.scope.or d.scope) = true ∧
      (row.order = none → options.applies d.capability d.scope = true ∨ d.order = defaultOrder)
  /-- A row that is not shown hides no default. -/
  hidden : row.content.isSome = true →
    row.content = some "" ∨ options.applies row.capability row.scope = false →
      options.applies d.capability d.scope = true → hasContent (some d.content) = false
  /-- Nor does a row without content change where and whether a default is shown. -/
  kept : row.content = none → hasContent (some d.content) = true →
    options.applies (row.capability.or d.capability) (row.scope.or d.scope) =
        options.applies d.capability d.scope ∧
      (options.applies d.capability d.scope = true → row.order.getD d.order = d.order)

/-- The place of a key in the list before it is sorted. -/
def place (key : String) : Nat :=
  (defaults.map (fun d => d.key) ++ (keyed rows).map fun row => row.key).idxOf key

/-- A row that is shown and has no default that is for this run. -/
structure GoesLast (row : CoreAiSlot) : Prop where
  enabled   : row.enabled ≠ some false
  applies   : options.applies row.capability row.scope = true
  content   : hasContent row.content = true
  noDefault : ∀ d ∈ defaults, d.key = row.key → options.applies d.capability d.scope = false

/-- Slots of one order stay in the order of the list. -/
structure TiesKeepPlace : Prop where
  /-- A row that goes to the end was listed behind the defaults of its order. -/
  behindDefaults : ∀ d ∈ defaults, ∀ row ∈ keyed rows,
    options.applies d.capability d.scope = true →
      expected options (systemEntry d ((rowsByKey rows).get? d.key)) = true →
        GoesLast options defaults row →
          (systemEntry d ((rowsByKey rows).get? d.key)).order = row.order.getD defaultOrder →
            place defaults rows d.key < place defaults rows row.key
  /-- And behind the rows of its order that go to the end before it. -/
  amongRows : (keyed rows).Pairwise fun a b =>
    GoesLast options defaults a → GoesLast options defaults b →
      a.order.getD defaultOrder = b.order.getD defaultOrder →
        place defaults rows a.key < place defaults rows b.key

/-! ## The filters -/

variable {options defaults rows}

theorem fragmentApplies_none (runCapability : String) :
    fragmentApplies none runCapability = true := rfl

theorem scopeApplies_none (runScopes : List String) : scopeApplies none runScopes = true := rfl

/-- Filters that apply together with those of a default apply alone. -/
theorem applies_of_or {capability scope capability' scope' : Option String}
    (h : options.applies (capability.or capability') (scope.or scope') = true) :
    options.applies capability scope = true := by
  rw [Options.applies, Bool.and_eq_true] at h ⊢
  constructor
  · cases capability with
    | none => exact fragmentApplies_none _
    | some capability => exact h.1
  · cases scope with
    | none => exact scopeApplies_none _
    | some scope => exact h.2

theorem hasContent_isSome {content : Option String} (h : hasContent content = true) :
    (text? content).isSome = true := by
  cases content with
  | none => cases h
  | some text =>
      by_cases htext : text = ""
      · subst htext
        cases h
      · simp [text?, JsText.truthy, htext]

/-! ## One line -/

variable (options defaults)

/-- The line of a fragment, if it is assembled. -/
def fragmentLine? (f : ResolvedPromptFragment) : Option Line :=
  if hasContent (some f.content) then some (fragmentLine f) else none

/-- The line of an entry, if it is expected. -/
def entryLine? (slot : EffectiveSlot) : Option Line :=
  if expected options slot then some (entryLine slot) else none

/-- A row that the overlay puts over the defaults. -/
def shownRow (row : CoreAiSlot) : Bool := row.enabled ≠ some false && considered options row

/-- The line of a default, in its place. -/
def defaultLine? (d : ResolvedPromptFragment) (row? : Option CoreAiSlot) : Option Line :=
  if options.applies d.capability d.scope then
    match row? with
    | none     => fragmentLine? d
    | some row =>
        if row.enabled = some false then none
        else if considered options row then fragmentLine? (overlay d.key row (some d))
        else fragmentLine? d
  else none

/-- The line of a row, at the end. -/
def rowLine? (row : CoreAiSlot) : Option Line :=
  if shownRow options row && defaults.all fun d =>
      d.key ≠ row.key || !options.applies d.capability d.scope then
    fragmentLine? (overlay row.key row none)
  else none

/-! ## The maps of the overlay -/

variable {options defaults}

theorem mem_keyed {row : CoreAiSlot} :
    row ∈ keyed rows ↔ row ∈ rows ∧ JsText.truthy row.key = true := List.mem_filter

section Keyed

variable (hkeys : ((keyed rows).map fun row => row.key).Nodup)

include hkeys in
theorem rowsByKey_get? {key : String} {row : CoreAiSlot} :
    (rowsByKey rows).get? key = some row ↔ row ∈ keyed rows ∧ row.key = key :=
  OrderedMap.get?_foldl_keyed hkeys

include hkeys in
theorem rowsByKey_self {row : CoreAiSlot} (hrow : row ∈ keyed rows) :
    (rowsByKey rows).get? row.key = some row :=
  (rowsByKey_get? hkeys).mpr ⟨hrow, rfl⟩

end Keyed

theorem considered_key {row : CoreAiSlot} (h : considered options row = true) :
    JsText.truthy row.key = true := by
  simp only [considered, Bool.and_eq_true] at h
  exact h.1.1.1

/-- With one row a key, every row that is considered is chosen. -/
theorem entries_foldl_choose {stored : List CoreAiSlot}
    {chosen : OrderedMap String (Nat × CoreAiSlot)}
    (h : (chosen.entries.map Prod.fst ++
      (stored.filter (considered options)).map fun row => row.key).Nodup) :
    (stored.foldl (choose options) chosen).entries = chosen.entries ++
      (stored.filter (considered options)).map fun row => (row.key, (rank options row, row)) := by
  induction stored generalizing chosen with
  | nil => exact (List.append_nil _).symm
  | cons row stored ih =>
      rw [List.foldl_cons, choose]
      cases hrow : considered options row with
      | false =>
          have hskip : ¬ considered options row = true := by simp [hrow]
          rw [List.filter_cons_of_neg hskip] at h ⊢
          rw [if_neg Bool.false_ne_true]
          exact ih h
      | true =>
          rw [List.filter_cons_of_pos hrow, List.map_cons] at h
          have hnone : chosen.get? row.key = none := by
            cases hget : chosen.get? row.key with
            | none => rfl
            | some current =>
                have hmem :=
                  List.mem_map_of_mem (f := Prod.fst) (OrderedMap.get?_eq_some_iff.mp hget)
                exact absurd List.mem_cons_self (List.disjoint_of_nodup_append h hmem)
          have hset := OrderedMap.entries_set_of_none (rank options row, row) hnone
          have hnodup : (((chosen.set row.key (rank options row, row)).entries.map Prod.fst) ++
              (stored.filter (considered options)).map fun row => row.key).Nodup := by
            rw [hset, List.map_append, List.append_assoc]
            exact h
          rw [if_pos rfl, hnone, List.filter_cons_of_pos hrow, List.map_cons]
          show (stored.foldl (choose options) (chosen.set row.key _)).entries = _
          rw [ih hnodup, hset, List.append_assoc, List.singleton_append]

/-- The rows of the overlay. -/
theorem entries_chosen (hkeys : ((keyed rows).map fun row => row.key).Nodup) :
    ((rows.filter fun row => row.enabled ≠ some false).foldl (choose options) .empty).entries =
      (rows.filter (shownRow options)).map fun row => (row.key, (rank options row, row)) := by
  have hfilter : (rows.filter fun row => decide (row.enabled ≠ some false)).filter
      (considered options) = rows.filter (shownRow options) := by
    rw [List.filter_filter]
    refine List.filter_congr fun row _ => ?_
    rw [shownRow, Bool.and_comm]
  have hsub : (rows.filter (shownRow options)).Sublist (keyed rows) := by
    have hshown : rows.filter (shownRow options) = (keyed rows).filter (shownRow options) := by
      rw [keyed, List.filter_filter]
      refine List.filter_congr fun row _ => ?_
      cases hrow : shownRow options row with
      | false => rfl
      | true =>
          rw [shownRow, Bool.and_eq_true] at hrow
          rw [considered_key hrow.2]
          rfl
    rw [hshown]
    exact List.filter_sublist
  have hnodup : ((OrderedMap.empty (κ := String) (ν := Nat × CoreAiSlot)).entries.map Prod.fst ++
      ((rows.filter fun row => decide (row.enabled ≠ some false)).filter
        (considered options)).map fun row => row.key).Nodup := by
    rw [hfilter]
    exact (hsub.map _).nodup hkeys
  rw [entries_foldl_choose hnodup, hfilter]
  rfl

/-- What the overlay finds at a key. -/
theorem chosen_get? (hkeys : ((keyed rows).map fun row => row.key).Nodup) (key : String) :
    ((rows.filter fun row => row.enabled ≠ some false).foldl (choose options) .empty).get? key =
      (((rowsByKey rows).get? key).filter (shownRow options)).map
        fun row => (rank options row, row) := by
  apply Option.ext
  intro found
  rw [OrderedMap.get?_eq_some_iff, entries_chosen hkeys, List.mem_map, Option.map_eq_some_iff]
  constructor
  · rintro ⟨row, hrow, heq⟩
    cases heq
    obtain ⟨hmem, hshown⟩ := List.mem_filter.mp hrow
    have hkey : row ∈ keyed rows := by
      rw [shownRow, Bool.and_eq_true] at hshown
      exact mem_keyed.mpr ⟨hmem, considered_key hshown.2⟩
    exact ⟨row, Option.filter_eq_some_iff.mpr ⟨rowsByKey_self hkeys hkey, hshown⟩, rfl⟩
  · rintro ⟨row, hrow, rfl⟩
    obtain ⟨hget, hshown⟩ := Option.filter_eq_some_iff.mp hrow
    obtain ⟨hmem, rfl⟩ := (rowsByKey_get? hkeys).mp hget
    exact ⟨row, List.mem_filter.mpr ⟨(mem_keyed.mp hmem).1, hshown⟩, rfl⟩

/-- Keys that the tenant has switched off. -/
theorem foldl_disabled (disabled : List CoreAiSlot)
    (byKey : OrderedMap String ResolvedPromptFragment) :
    disabled.foldl
      (fun byKey row =>
        if JsText.truthy row.key && (byKey.get? row.key).isSome then byKey.delete row.key
        else byKey) byKey =
      ((keyed disabled).map fun row => row.key).foldl OrderedMap.delete byKey := by
  induction disabled generalizing byKey with
  | nil => rfl
  | cons row disabled ih =>
      rw [List.foldl_cons, ih]
      cases hkey : JsText.truthy row.key with
      | false =>
          have hskip : keyed (row :: disabled) = keyed disabled :=
            List.filter_cons_of_neg (by simp [hkey])
          rw [Bool.false_and, if_neg Bool.false_ne_true, hskip]
      | true =>
          have hkeep : keyed (row :: disabled) = row :: keyed disabled :=
            List.filter_cons_of_pos hkey
          rw [hkeep, List.map_cons, List.foldl_cons, Bool.true_and]
          cases hget : byKey.get? row.key with
          | none =>
              rw [OrderedMap.delete_eq_self hget]
              rfl
          | some f => rfl

theorem mem_disabled (hkeys : ((keyed rows).map fun row => row.key).Nodup) {key : String} :
    key ∈ (keyed (rows.filter fun row => row.enabled = some false)).map (fun row => row.key) ↔
      ∃ row, (rowsByKey rows).get? key = some row ∧ row.enabled = some false := by
  rw [List.mem_map]
  constructor
  · rintro ⟨row, hrow, rfl⟩
    obtain ⟨hmem, hkey⟩ := mem_keyed.mp hrow
    obtain ⟨hmem, hdisabled⟩ := List.mem_filter.mp hmem
    exact ⟨row, rowsByKey_self hkeys (mem_keyed.mpr ⟨hmem, hkey⟩), of_decide_eq_true hdisabled⟩
  · rintro ⟨row, hget, hdisabled⟩
    obtain ⟨hmem, rfl⟩ := (rowsByKey_get? hkeys).mp hget
    obtain ⟨hmem, hkey⟩ := mem_keyed.mp hmem
    refine ⟨row, mem_keyed.mpr ⟨List.mem_filter.mpr ⟨hmem, ?_⟩, hkey⟩, rfl⟩
    exact decide_eq_true hdisabled

/-! ## Both prompts as lines -/

variable (options defaults rows)

/-- The prompt before it is sorted. -/
def promptLines : List Line :=
  defaults.filterMap (fun d => defaultLine? options d ((rowsByKey rows).get? d.key)) ++
    (keyed rows).filterMap (rowLine? options defaults)

/-- The list before it is sorted. -/
def listedLines : List Line :=
  defaults.filterMap (fun d => entryLine? options (systemEntry d ((rowsByKey rows).get? d.key))) ++
    ((keyed rows).filter fun row => !(defaults.map fun d => d.key).contains row.key).filterMap
      fun row => entryLine? options (customEntry row)

variable {options defaults rows}

theorem map_filter_eq_filterMap {α β : Type} (p : α → Bool) (f : α → β) (xs : List α) :
    (xs.filter p).map f = xs.filterMap fun x => if p x then some (f x) else none := by
  rw [← List.filterMap_eq_map', List.filterMap_filter]

theorem listedPrompt_eq :
    listedPrompt options defaults rows =
      (listedLines options defaults rows).insertionSort Line.le := by
  have hmap : ∀ slots : List EffectiveSlot,
      (slots.insertionSort fun a b => a.order ≤ b.order).map entryLine =
        (slots.map entryLine).insertionSort Line.le := by
    intro slots
    exact List.map_insertionSort _ _ _ _ fun _ _ _ _ => Iff.rfl
  rw [listedPrompt, listEffective]
  have : Std.Total fun a b : EffectiveSlot => a.order ≤ b.order :=
    ⟨fun a b => le_total a.order b.order⟩
  have : IsTrans EffectiveSlot fun a b => a.order ≤ b.order :=
    ⟨fun _ _ _ hab hbc => le_trans (α := ℚ) hab hbc⟩
  rw [StableSort.filter_sort, hmap, StableSort.sort_sort, List.filter_append, List.map_append,
    map_filter_eq_filterMap, map_filter_eq_filterMap, List.filterMap_map, List.filterMap_map]
  rfl

theorem applyingDefaults_entries (hdefaults : (defaults.map fun d => d.key).Nodup) :
    (applyingDefaults options defaults).entries =
      (defaults.filter fun d => options.applies d.capability d.scope).map fun d => (d.key, d) :=
  OrderedMap.entries_foldl_keyed ((List.filter_sublist.map _).nodup hdefaults)

theorem applyingDefaults_isNone (hdefaults : (defaults.map fun d => d.key).Nodup) (key : String) :
    ((applyingDefaults options defaults).get? key).isNone =
      defaults.all fun d => d.key ≠ key || !options.applies d.capability d.scope := by
  rw [Bool.eq_iff_iff, Option.isNone_iff_eq_none, List.all_eq_true]
  constructor
  · intro hnone d hd
    cases happlies : options.applies d.capability d.scope with
    | false => simp
    | true =>
        have hne : d.key ≠ key := by
          intro hkey
          have hsome : (applyingDefaults options defaults).get? key = some d :=
            (OrderedMap.get?_foldl_keyed ((List.filter_sublist.map _).nodup hdefaults)).mpr
              ⟨List.mem_filter.mpr ⟨hd, happlies⟩, hkey⟩
          rw [hnone] at hsome
          cases hsome
        simp [hne]
  · intro hall
    cases hget : (applyingDefaults options defaults).get? key with
    | none => rfl
    | some d =>
        obtain ⟨hmem, rfl⟩ :=
          (OrderedMap.get?_foldl_keyed ((List.filter_sublist.map _).nodup hdefaults)).mp hget
        obtain ⟨hd, happlies⟩ := List.mem_filter.mp hmem
        have hno := hall d hd
        simp [happlies] at hno

/-- A default that is for this run: the row of its key is over it, hides it, or does neither. -/
theorem defaultLine?_eq (hkeys : ((keyed rows).map fun row => row.key).Nodup)
    {d : ResolvedPromptFragment} (happlies : options.applies d.capability d.scope = true) :
    (if d.key ∉ (keyed (rows.filter fun row => row.enabled = some false)).map (fun row => row.key)
      then fragmentLine? (((((rows.filter fun row => row.enabled ≠ some false).foldl
        (choose options) .empty).get? d.key).elim d fun u => overlay d.key u.2 (some d)))
      else none) = defaultLine? options d ((rowsByKey rows).get? d.key) := by
  rw [chosen_get? hkeys, defaultLine?.eq_def, if_pos happlies]
  cases hget : (rowsByKey rows).get? d.key with
  | none =>
      rw [if_pos]
      · rfl
      · intro hmem
        obtain ⟨row, hrow, _⟩ := (mem_disabled hkeys).mp hmem
        rw [hget] at hrow
        cases hrow
  | some row =>
      by_cases henabled : row.enabled = some false
      · rw [if_neg (not_not.mpr ((mem_disabled hkeys).mpr ⟨row, hget, henabled⟩))]
        exact (if_pos henabled).symm
      · rw [if_pos]
        · show fragmentLine? _ = if row.enabled = some false then none else _
          rw [if_neg henabled]
          cases hrow : considered options row with
          | false => simp [Option.filter, shownRow, hrow]
          | true => simp [Option.filter, shownRow, hrow, henabled]
        · intro hmem
          obtain ⟨other, hother, hdisabled⟩ := (mem_disabled hkeys).mp hmem
          rw [hget] at hother
          cases hother
          exact henabled hdisabled

/-- A row that goes to the end is not one of those that are switched off. -/
theorem rowLine?_eq (hdefaults : (defaults.map fun d => d.key).Nodup)
    (hkeys : ((keyed rows).map fun row => row.key).Nodup) {row : CoreAiSlot} (hrow : row ∈ rows)
    (hshown : shownRow options row = true) :
    (if ((applyingDefaults options defaults).get? row.key).isNone then
      if row.key ∉ (keyed (rows.filter fun row => row.enabled = some false)).map fun row => row.key
      then fragmentLine? (overlay row.key row none)
      else none
    else none) = rowLine? options defaults row := by
  have hnot : row.key ∉
      (keyed (rows.filter fun row => row.enabled = some false)).map fun row => row.key := by
    intro hmem
    obtain ⟨other, hother, hdisabled⟩ := (mem_disabled hkeys).mp hmem
    rw [shownRow, Bool.and_eq_true] at hshown
    rw [rowsByKey_self hkeys (mem_keyed.mpr ⟨hrow, considered_key hshown.2⟩)] at hother
    cases hother
    exact of_decide_eq_true hshown.1 hdisabled
  rw [if_pos hnot, rowLine?, hshown, Bool.true_and, applyingDefaults_isNone hdefaults]

theorem filterMap_rowLine? :
    (keyed rows).filterMap (rowLine? options defaults) =
      rows.filterMap (rowLine? options defaults) := by
  rw [keyed, List.filterMap_filter]
  refine List.filterMap_congr fun row _ => ?_
  cases hkey : JsText.truthy row.key with
  | true => rfl
  | false =>
      have hno : shownRow options row = false := by simp [shownRow, considered, hkey]
      simp [rowLine?, hno]

theorem resolveFragments_eq (hdefaults : (defaults.map fun d => d.key).Nodup)
    (hkeys : ((keyed rows).map fun row => row.key).Nodup) :
    (resolveFragments options defaults rows).map fragmentLine =
      (promptLines options defaults rows).insertionSort Line.le := by
  have hmap : ∀ fragments : List ResolvedPromptFragment,
      (fragments.insertionSort fun a b => a.order ≤ b.order).map fragmentLine =
        (fragments.map fragmentLine).insertionSort Line.le := by
    intro fragments
    exact List.map_insertionSort _ _ _ _ fun _ _ _ _ => Iff.rfl
  rw [resolveFragments, hmap]
  congr 1
  rw [foldl_disabled, OrderedMap.entries_foldl_delete, OrderedMap.entries_foldl_update
      (fun key (u : Nat × CoreAiSlot) current => overlay key u.2 current),
    applyingDefaults_entries hdefaults,
    map_filter_eq_filterMap, List.filterMap_map, List.filterMap_filter, List.filterMap_append,
    List.filterMap_map, List.filterMap_map, List.filterMap_filter, List.filterMap_map,
    List.filterMap_filter, entries_chosen hkeys, List.filterMap_map, List.filterMap_filter,
    promptLines]
  congr 1
  · refine List.filterMap_congr fun d _ => ?_
    cases happlies : options.applies d.capability d.scope with
    | false => simp [defaultLine?, happlies]
    | true =>
        rw [if_pos rfl, ← defaultLine?_eq hkeys happlies]
        simp
        rfl
  · rw [filterMap_rowLine?]
    refine List.filterMap_congr fun row hrow => ?_
    cases hshown : shownRow options row with
    | false => simp [rowLine?, hshown]
    | true =>
        rw [if_pos rfl, ← rowLine?_eq hdefaults hkeys hrow hshown]
        simp
        rfl

/-! ## The same lines -/

variable (options) in
/-- The line of a default and its row, wherever it stands. -/
def slotLine? (d : ResolvedPromptFragment) : Option CoreAiSlot → Option Line
  | none     => if options.applies d.capability d.scope then fragmentLine? d else none
  | some row =>
      if row.enabled = some false then none
      else if considered options row then
        fragmentLine? (overlay d.key row
          (if options.applies d.capability d.scope then some d else none))
      else if options.applies d.capability d.scope then fragmentLine? d
      else none

theorem defaultLine?_of_applies {d : ResolvedPromptFragment} (row? : Option CoreAiSlot)
    (happlies : options.applies d.capability d.scope = true) :
    defaultLine? options d row? = slotLine? options d row? := by
  cases row? with
  | none => rfl
  | some row => simp only [defaultLine?, slotLine?, happlies, if_true]

theorem defaultLine?_of_not {d : ResolvedPromptFragment} (row? : Option CoreAiSlot)
    (happlies : options.applies d.capability d.scope = false) :
    defaultLine? options d row? = none := by
  simp [defaultLine?, happlies]

theorem entryLine?_system (d : ResolvedPromptFragment) :
    entryLine? options (systemEntry d none) = slotLine? options d none := by
  cases happlies : options.applies d.capability d.scope with
  | false => simp [entryLine?, expected, systemEntry, slotLine?, happlies]
  | true =>
      simp [entryLine?, expected, systemEntry, slotLine?, happlies, fragmentLine?, entryLine,
        fragmentLine]

theorem entryLine?_disabled (d : ResolvedPromptFragment) {row : CoreAiSlot}
    (hdisabled : row.enabled = some false) :
    entryLine? options (systemEntry d (some row)) = slotLine? options d (some row) := by
  simp [entryLine?, expected, systemEntry, slotLine?, hdisabled]

theorem considered_eq {row : CoreAiSlot} (hkey : JsText.truthy row.key = true)
    (hlocale : text? row.locale = none) :
    considered options row =
      ((text? row.content).isSome && options.applies row.capability row.scope) := by
  simp [considered, hkey, hlocale]

/-- A row that names no content, or an empty one, or that is not for this run. -/
theorem fits_of_skipped {d : ResolvedPromptFragment} {row : CoreAiSlot} {content : String}
    (hcontent : row.content = some content)
    (hskip : content = "" ∨ options.applies row.capability row.scope = false) :
    OverrideFits options d row ↔
      (options.applies d.capability d.scope = true → hasContent (some d.content) = false) := by
  constructor
  · intro hfits happlies
    refine hfits.hidden (by rw [hcontent]; rfl) ?_ happlies
    rw [hcontent]
    exact hskip.imp_left fun h => congrArg some h
  · intro hhidden
    refine ⟨?_, fun _ _ => hhidden, ?_⟩
    · intro happlies hshown
      rcases hskip with rfl | hskip
      · rw [hcontent] at hshown
        cases hshown
      · rw [hskip] at happlies
        cases happlies
    · intro hnone
      rw [hcontent] at hnone
      cases hnone

theorem fits_of_content {d : ResolvedPromptFragment} {row : CoreAiSlot} {content : String}
    (hcontent : row.content = some content) (hne : content ≠ "")
    (happlies : options.applies row.capability row.scope = true) :
    OverrideFits options d row ↔
      (hasContent (some content) = true →
        options.applies (row.capability.or d.capability) (row.scope.or d.scope) = true ∧
          (row.order = none →
            options.applies d.capability d.scope = true ∨ d.order = defaultOrder)) := by
  constructor
  · intro hfits
    exact hcontent ▸ hfits.shown happlies
  · intro hshown
    refine ⟨fun _ => hcontent ▸ hshown, ?_, ?_⟩
    · intro _ hskip
      rcases hskip with hempty | hskip
      · rw [hcontent] at hempty
        exact absurd (Option.some.inj hempty) hne
      · rw [happlies] at hskip
        cases hskip
    · intro hnone
      rw [hcontent] at hnone
      cases hnone

theorem fits_of_none {d : ResolvedPromptFragment} {row : CoreAiSlot}
    (hcontent : row.content = none) :
    OverrideFits options d row ↔
      (hasContent (some d.content) = true →
        options.applies (row.capability.or d.capability) (row.scope.or d.scope) =
            options.applies d.capability d.scope ∧
          (options.applies d.capability d.scope = true → row.order.getD d.order = d.order)) := by
  constructor
  · intro hfits
    exact hfits.kept hcontent
  · intro hkept
    refine ⟨?_, ?_, fun _ => hkept⟩
    · intro _ hshown
      rw [hcontent] at hshown
      cases hshown
    · intro hsome
      rw [hcontent] at hsome
      cases hsome

/-- The line that the list has for a default and its row. -/
theorem entryLine?_override (d : ResolvedPromptFragment) {row : CoreAiSlot}
    (hsame : row.key = d.key) (henabled : row.enabled ≠ some false) :
    entryLine? options (systemEntry d (some row)) =
      if hasContent (some (row.content.getD d.content)) &&
          options.applies (row.capability.or d.capability) (row.scope.or d.scope) then
        some ⟨d.key, row.content.getD d.content, row.order.getD d.order⟩
      else none := by
  simp [entryLine?, expected, systemEntry, henabled, entryLine, hsame]

section Override

variable {d : ResolvedPromptFragment} {row : CoreAiSlot}
  (hkey : JsText.truthy row.key = true) (hsame : row.key = d.key)
  (hlocale : text? row.locale = none) (henabled : row.enabled ≠ some false)

include hkey hsame hlocale henabled

theorem override_iff_of_none (hcontent : row.content = none) :
    entryLine? options (systemEntry d (some row)) = slotLine? options d (some row) ↔
      OverrideFits options d row := by
  rw [fits_of_none hcontent, entryLine?_override d hsame henabled, slotLine?, if_neg henabled,
    considered_eq hkey hlocale, hcontent, Option.getD_none]
  show _ = (if (false && _) = true then _ else _) ↔ _
  rw [Bool.false_and, if_neg Bool.false_ne_true]
  simp only [fragmentLine?, fragmentLine]
  cases hasContent (some d.content) with
  | false => simp
  | true =>
      cases options.applies d.capability d.scope with
      | false => simp
      | true => simp

theorem override_iff_of_skipped {content : String} (hcontent : row.content = some content)
    (hskip : content = "" ∨ options.applies row.capability row.scope = false) :
    entryLine? options (systemEntry d (some row)) = slotLine? options d (some row) ↔
      OverrideFits options d row := by
  have hlisted : (hasContent (some content) &&
      options.applies (row.capability.or d.capability) (row.scope.or d.scope)) = false := by
    rcases hskip with rfl | hskip
    · rfl
    · rw [Bool.and_eq_false_iff, ← Bool.not_eq_true (options.applies _ _)]
      exact Or.inr fun hboth => Bool.eq_false_iff.mp hskip (applies_of_or hboth)
  have hconsidered : ((text? (some content)).isSome &&
      options.applies row.capability row.scope) = false := by
    rcases hskip with rfl | hskip
    · rfl
    · rw [hskip, Bool.and_false]
  rw [fits_of_skipped hcontent hskip, entryLine?_override d hsame henabled, slotLine?,
    if_neg henabled, considered_eq hkey hlocale, hcontent, Option.getD_some, hlisted, hconsidered]
  simp only [fragmentLine?, Bool.false_eq_true, if_false]
  cases options.applies d.capability d.scope with
  | false => simp
  | true =>
      cases hasContent (some d.content) with
      | false => simp
      | true => simp

theorem override_iff_of_content {content : String} (hcontent : row.content = some content)
    (hne : content ≠ "") (happlies : options.applies row.capability row.scope = true) :
    entryLine? options (systemEntry d (some row)) = slotLine? options d (some row) ↔
      OverrideFits options d row := by
  have hconsidered : ((text? (some content)).isSome &&
      options.applies row.capability row.scope) = true := by
    simp [text?, JsText.truthy, hne, happlies]
  rw [fits_of_content hcontent hne happlies, entryLine?_override d hsame henabled, slotLine?,
    if_neg henabled, considered_eq hkey hlocale, hcontent, Option.getD_some, hconsidered,
    if_pos rfl]
  simp only [fragmentLine?, fragmentLine, overlay, hcontent, Option.getD_some]
  cases hasContent (some content) with
  | false => simp
  | true =>
      cases options.applies (row.capability.or d.capability) (row.scope.or d.scope) with
      | false => simp
      | true =>
          cases row.order with
          | some order => simp
          | none =>
              cases options.applies d.capability d.scope with
              | false => simp
              | true => simp

/-- A default and its row have the same line in both prompts exactly when the row fits. -/
theorem entryLine?_override_iff :
    entryLine? options (systemEntry d (some row)) = slotLine? options d (some row) ↔
      OverrideFits options d row := by
  cases hcontent : row.content with
  | none => exact override_iff_of_none hkey hsame hlocale henabled hcontent
  | some content =>
      by_cases hskip : content = "" ∨ options.applies row.capability row.scope = false
      · exact override_iff_of_skipped hkey hsame hlocale henabled hcontent hskip
      · obtain ⟨hne, happlies⟩ := not_or.mp hskip
        rw [Bool.not_eq_false] at happlies
        exact override_iff_of_content hkey hsame hlocale henabled hcontent hne happlies

end Override

/-! ## All the lines -/

theorem fragmentLine?_key {f : ResolvedPromptFragment} {line : Line}
    (h : fragmentLine? f = some line) : line.key = f.key := by
  unfold fragmentLine? at h
  split at h
  · cases h
    rfl
  · cases h

theorem entryLine?_key {slot : EffectiveSlot} {line : Line}
    (h : entryLine? options slot = some line) : line.key = slot.key := by
  unfold entryLine? at h
  split at h
  · cases h
    rfl
  · cases h

theorem slotLine?_key {d : ResolvedPromptFragment} {row? : Option CoreAiSlot} {line : Line}
    (h : slotLine? options d row? = some line) : line.key = d.key := by
  unfold slotLine? at h
  split at h
  · split at h
    · exact fragmentLine?_key h
    · cases h
  · split at h
    · cases h
    · split at h
      · exact (fragmentLine?_key h).trans rfl
      · split at h
        · exact fragmentLine?_key h
        · cases h

theorem rowLine?_key {row : CoreAiSlot} {line : Line}
    (h : rowLine? options defaults row = some line) : line.key = row.key := by
  unfold rowLine? at h
  split at h
  · exact fragmentLine?_key h
  · cases h

/-- A row with a default that is not for this run has the line of the default. -/
theorem rowLine?_override (hdefaults : (defaults.map fun d => d.key).Nodup)
    {d : ResolvedPromptFragment} {row : CoreAiSlot} (hd : d ∈ defaults) (hsame : d.key = row.key) :
    rowLine? options defaults row =
      if options.applies d.capability d.scope then none else slotLine? options d (some row) := by
  have hall : (defaults.all fun d' => d'.key ≠ row.key || !options.applies d'.capability d'.scope) =
      !options.applies d.capability d.scope := by
    rw [Bool.eq_iff_iff, List.all_eq_true]
    constructor
    · intro hall
      simpa [hsame] using hall d hd
    · intro hno d' hd'
      by_cases hkey : d'.key = row.key
      · rw [List.inj_on_of_nodup_map hdefaults hd' hd (hkey.trans hsame.symm), hno, Bool.or_true]
      · simp [hkey]
  rw [rowLine?, hall]
  cases happlies : options.applies d.capability d.scope with
  | true => simp
  | false =>
      simp only [slotLine?, shownRow, happlies, hsame, Bool.not_false, Bool.and_true]
      by_cases henabled : row.enabled = some false
      · simp [henabled]
      · simp [henabled]

theorem hasContent_getD (content : Option String) :
    hasContent (some (content.getD "")) = hasContent content := by
  cases content with
  | none => rfl
  | some text => rfl

/-- A row of its own has the same line in both prompts. -/
theorem rowLine?_custom {row : CoreAiSlot} (hkey : JsText.truthy row.key = true)
    (hlocale : text? row.locale = none) (hcustom : row.key ∉ defaults.map fun d => d.key) :
    rowLine? options defaults row = entryLine? options (customEntry row) := by
  have hall : (defaults.all fun d =>
      d.key ≠ row.key || !options.applies d.capability d.scope) = true := by
    rw [List.all_eq_true]
    intro d hd
    have hne : d.key ≠ row.key := fun h => hcustom (List.mem_map.mpr ⟨d, hd, h⟩)
    simp [hne]
  rw [rowLine?, hall, Bool.and_true, shownRow, considered_eq hkey hlocale, entryLine?, expected]
  simp only [fragmentLine?, overlay, hasContent_getD]
  show _ = if (decide _ && hasContent row.content && options.applies row.capability row.scope)
      = true
    then some (entryLine (customEntry row)) else none
  by_cases henabled : row.enabled = some false
  · simp [henabled]
  · cases hcontent : hasContent row.content with
    | false => simp
    | true =>
        rw [hasContent_isSome hcontent]
        simp [henabled, fragmentLine, entryLine, customEntry]

section Lines

variable (hdefaults : (defaults.map fun d => d.key).Nodup)
  (hkeys : ((keyed rows).map fun row => row.key).Nodup)
  (hlocale : ∀ row ∈ rows, text? row.locale = none)

theorem mem_listedLines {line : Line} :
    line ∈ listedLines options defaults rows ↔
      (∃ d ∈ defaults,
        entryLine? options (systemEntry d ((rowsByKey rows).get? d.key)) = some line) ∨
      ∃ row ∈ keyed rows, row.key ∉ defaults.map (fun d => d.key) ∧
        entryLine? options (customEntry row) = some line := by
  rw [listedLines, List.mem_append, List.mem_filterMap, List.mem_filterMap]
  simp only [List.mem_filter, List.contains_iff_mem, Bool.not_eq_true', Bool.eq_false_iff, ne_eq,
    and_assoc]

include hdefaults hkeys hlocale in
theorem mem_promptLines {line : Line} :
    line ∈ promptLines options defaults rows ↔
      (∃ d ∈ defaults, slotLine? options d ((rowsByKey rows).get? d.key) = some line) ∨
      ∃ row ∈ keyed rows, row.key ∉ defaults.map (fun d => d.key) ∧
        entryLine? options (customEntry row) = some line := by
  rw [promptLines, List.mem_append, List.mem_filterMap, List.mem_filterMap]
  constructor
  · rintro (⟨d, hd, hline⟩ | ⟨row, hrow, hline⟩)
    · cases happlies : options.applies d.capability d.scope with
      | false =>
          rw [defaultLine?_of_not _ happlies] at hline
          cases hline
      | true =>
          rw [defaultLine?_of_applies _ happlies] at hline
          exact Or.inl ⟨d, hd, hline⟩
    · by_cases hcustom : row.key ∈ defaults.map fun d => d.key
      · obtain ⟨d, hd, hsame⟩ := List.mem_map.mp hcustom
        rw [rowLine?_override hdefaults hd hsame] at hline
        split at hline
        · cases hline
        · refine Or.inl ⟨d, hd, ?_⟩
          rw [hsame, rowsByKey_self hkeys hrow]
          exact hline
      · obtain ⟨hmem, hkey⟩ := mem_keyed.mp hrow
        rw [rowLine?_custom hkey (hlocale row hmem) hcustom] at hline
        exact Or.inr ⟨row, hrow, hcustom, hline⟩
  · rintro (⟨d, hd, hline⟩ | ⟨row, hrow, hcustom, hline⟩)
    · cases happlies : options.applies d.capability d.scope with
      | true =>
          rw [← defaultLine?_of_applies _ happlies] at hline
          exact Or.inl ⟨d, hd, hline⟩
      | false =>
          cases hget : (rowsByKey rows).get? d.key with
          | none =>
              rw [hget, slotLine?, if_neg (by simp [happlies])] at hline
              cases hline
          | some row =>
              obtain ⟨hrow, hsame⟩ := (rowsByKey_get? hkeys).mp hget
              refine Or.inr ⟨row, hrow, ?_⟩
              rw [rowLine?_override hdefaults hd hsame.symm, if_neg (by simp [happlies]), ← hget]
              exact hline
    · obtain ⟨hmem, hkey⟩ := mem_keyed.mp hrow
      rw [← rowLine?_custom hkey (hlocale row hmem) hcustom] at hline
      exact Or.inr ⟨row, hrow, hline⟩

include hkeys in
theorem systemEntry_key (d : ResolvedPromptFragment) :
    (systemEntry d ((rowsByKey rows).get? d.key)).key = d.key := by
  cases hget : (rowsByKey rows).get? d.key with
  | none => rfl
  | some row => exact ((rowsByKey_get? hkeys).mp hget).2

include hkeys in
theorem entryLine?_default_key {d : ResolvedPromptFragment} {line : Line}
    (h : entryLine? options (systemEntry d ((rowsByKey rows).get? d.key)) = some line) :
    line.key = d.key :=
  (entryLine?_key h).trans (systemEntry_key hkeys d)

/-! ## Places -/

theorem pairwise_idxOf {keys : List String} (h : keys.Nodup) :
    keys.Pairwise fun a b => keys.idxOf a < keys.idxOf b := by
  rw [List.pairwise_iff_getElem]
  intro i j hi hj hij
  rwa [h.idxOf_getElem i hi, h.idxOf_getElem j hj]

theorem place_default {d : ResolvedPromptFragment} (hd : d ∈ defaults) :
    place defaults rows d.key = (defaults.map fun d => d.key).idxOf d.key :=
  List.idxOf_append_of_mem (List.mem_map_of_mem hd)

theorem place_custom {key : String} (hcustom : key ∉ defaults.map fun d => d.key) :
    place defaults rows key = (defaults.map fun d => d.key).length +
      ((keyed rows).map fun row => row.key).idxOf key :=
  List.idxOf_append_of_notMem hcustom

include hdefaults in
theorem pairwise_place_defaults :
    defaults.Pairwise fun d d' => place defaults rows d.key < place defaults rows d'.key := by
  have hpairs := List.pairwise_map.mp (pairwise_idxOf hdefaults)
  refine hpairs.imp_of_mem fun {d d'} hd hd' hlt => ?_
  rwa [place_default hd, place_default hd']

theorem place_default_lt {d : ResolvedPromptFragment} (hd : d ∈ defaults) {key : String}
    (hcustom : key ∉ defaults.map fun d => d.key) :
    place defaults rows d.key < place defaults rows key := by
  rw [place_default hd, place_custom hcustom]
  exact Nat.lt_add_right _ (List.idxOf_lt_length_of_mem (List.mem_map_of_mem hd))

include hdefaults hkeys in
/-- The list is in the order of its places. -/
theorem pairwise_listedLines :
    (listedLines options defaults rows).Pairwise fun a b =>
      place defaults rows a.key < place defaults rows b.key := by
  rw [listedLines, List.pairwise_append, List.pairwise_filterMap, List.pairwise_filterMap]
  refine ⟨?_, ?_, ?_⟩
  · have hplace := @pairwise_place_defaults defaults rows hdefaults
    refine hplace.imp fun {d d'} hlt => ?_
    intro a ha b hb
    rwa [entryLine?_default_key hkeys ha, entryLine?_default_key hkeys hb]
  · have hrows := (List.pairwise_map.mp (pairwise_idxOf hkeys)).sublist
      (List.filter_sublist (p := fun row => !(defaults.map fun d => d.key).contains row.key))
    refine hrows.imp_of_mem fun {row row'} hrow hrow' hlt => ?_
    intro a ha b hb
    have hcustom : ∀ row ∈ (keyed rows).filter
        (fun row => !(defaults.map fun d => d.key).contains row.key),
        row.key ∉ defaults.map fun d => d.key := by
      intro row hrow
      simpa using (List.mem_filter.mp hrow).2
    rw [entryLine?_key ha, entryLine?_key hb]
    show place defaults rows row.key < place defaults rows row'.key
    rw [place_custom (hcustom row hrow), place_custom (hcustom row' hrow')]
    exact Nat.add_lt_add_left hlt _
  · intro a ha b hb
    obtain ⟨d, hd, ha⟩ := List.mem_filterMap.mp ha
    obtain ⟨row, hrow, hb⟩ := List.mem_filterMap.mp hb
    have hcustom : row.key ∉ defaults.map fun d => d.key := by
      simpa using (List.mem_filter.mp hrow).2
    rw [entryLine?_default_key hkeys ha, entryLine?_key hb]
    exact place_default_lt hd hcustom

include hdefaults hkeys in
theorem nodup_promptLines : (promptLines options defaults rows).Nodup := by
  have hne : (promptLines options defaults rows).Pairwise fun a b => a.key ≠ b.key := by
    rw [promptLines, List.pairwise_append, List.pairwise_filterMap, List.pairwise_filterMap]
    have hdefaultKey : ∀ {d row? line}, defaultLine? options d row? = some line →
        options.applies d.capability d.scope = true ∧ line.key = d.key := by
      intro d row? line hline
      cases happlies : options.applies d.capability d.scope with
      | false =>
          rw [defaultLine?_of_not _ happlies] at hline
          cases hline
      | true =>
          rw [defaultLine?_of_applies _ happlies] at hline
          exact ⟨rfl, slotLine?_key hline⟩
    refine ⟨?_, ?_, ?_⟩
    · refine (List.pairwise_map.mp hdefaults).imp fun {d d'} hne => ?_
      intro a ha b hb
      rwa [(hdefaultKey ha).2, (hdefaultKey hb).2]
    · refine (List.pairwise_map.mp hkeys).imp fun {row row'} hne => ?_
      intro a ha b hb
      rwa [rowLine?_key ha, rowLine?_key hb]
    · intro a ha b hb hkey
      obtain ⟨d, hd, ha⟩ := List.mem_filterMap.mp ha
      obtain ⟨row, hrow, hb⟩ := List.mem_filterMap.mp hb
      obtain ⟨happlies, hkeyd⟩ := hdefaultKey ha
      have hsame : d.key = row.key := by rw [← hkeyd, hkey, rowLine?_key hb]
      rw [rowLine?_override hdefaults hd hsame, if_pos happlies] at hb
      cases hb
  exact hne.imp fun hkey heq => hkey (congrArg Line.key heq)

include hkeys hlocale in
/-- One default after the other. -/
theorem slotLines_agree_iff :
    (∀ d ∈ defaults, entryLine? options (systemEntry d ((rowsByKey rows).get? d.key)) =
        slotLine? options d ((rowsByKey rows).get? d.key)) ↔
      ∀ d ∈ defaults, ∀ row ∈ keyed rows, row.key = d.key → row.enabled ≠ some false →
        OverrideFits options d row := by
  refine forall₂_congr fun d _ => ?_
  constructor
  · intro hsame row hrow hkey henabled
    obtain ⟨hmem, htruthy⟩ := mem_keyed.mp hrow
    rw [(rowsByKey_get? hkeys).mpr ⟨hrow, hkey⟩] at hsame
    exact (entryLine?_override_iff htruthy hkey (hlocale row hmem) henabled).mp hsame
  · intro hfit
    cases hget : (rowsByKey rows).get? d.key with
    | none => exact entryLine?_system d
    | some row =>
        obtain ⟨hrow, hkey⟩ := (rowsByKey_get? hkeys).mp hget
        obtain ⟨hmem, htruthy⟩ := mem_keyed.mp hrow
        by_cases henabled : row.enabled = some false
        · exact entryLine?_disabled d henabled
        · exact (entryLine?_override_iff htruthy hkey (hlocale row hmem) henabled).mpr
            (hfit row hrow hkey henabled)

include hdefaults hkeys hlocale in
/-- **The same lines.** Both prompts have the same lines when every row fits its default. -/
theorem promptLines_perm_iff :
    (listedLines options defaults rows).Perm (promptLines options defaults rows) ↔
      ∀ d ∈ defaults, ∀ row ∈ keyed rows, row.key = d.key → row.enabled ≠ some false →
        OverrideFits options d row := by
  have hnodup : (listedLines options defaults rows).Nodup :=
    (pairwise_listedLines hdefaults hkeys).imp fun hlt heq => by
      rw [heq] at hlt
      exact Nat.lt_irrefl _ hlt
  rw [List.perm_ext_iff_of_nodup hnodup (nodup_promptLines hdefaults hkeys),
    ← slotLines_agree_iff hkeys hlocale]
  simp only [mem_listedLines, mem_promptLines hdefaults hkeys hlocale]
  constructor
  · intro hlines d hd
    -- a line of the default's key comes from the default, whichever prompt it is in
    have hown : ∀ {line : Line}, line.key = d.key →
        ¬ ∃ row ∈ keyed rows, row.key ∉ defaults.map (fun d => d.key) ∧
          entryLine? options (customEntry row) = some line := by
      rintro line hkey ⟨row, hrow, hcustom, hline⟩
      refine hcustom (List.mem_map.mpr ⟨d, hd, ?_⟩)
      exact hkey.symm.trans (entryLine?_key hline)
    apply Option.ext
    intro line
    constructor
    · intro hline
      have hkey := entryLine?_default_key hkeys hline
      obtain ⟨d', hd', hline'⟩ := ((hlines line).mp (Or.inl ⟨d, hd, hline⟩)).resolve_right
        (hown hkey)
      have hd'' : d' = d := List.inj_on_of_nodup_map hdefaults hd' hd
        ((slotLine?_key hline').symm.trans hkey)
      exact hd'' ▸ hline'
    · intro hline
      have hkey := slotLine?_key hline
      obtain ⟨d', hd', hline'⟩ := ((hlines line).mpr (Or.inl ⟨d, hd, hline⟩)).resolve_right
        (hown hkey)
      have hd'' : d' = d := List.inj_on_of_nodup_map hdefaults hd' hd
        ((entryLine?_default_key hkeys hline').symm.trans hkey)
      exact hd'' ▸ hline'
  · intro hsame line
    refine or_congr_left (exists_congr fun d => and_congr_right fun hd => ?_)
    rw [hsame d hd]

/-- Which rows go to the end, and what they show there. -/
theorem rowLine?_eq_some_iff {row : CoreAiSlot} (hkey : JsText.truthy row.key = true)
    (hlocale : text? row.locale = none) {line : Line} :
    rowLine? options defaults row = some line ↔ GoesLast options defaults row ∧
      line = ⟨row.key, row.content.getD "", row.order.getD defaultOrder⟩ := by
  have hlast : GoesLast options defaults row ↔
      (shownRow options row && defaults.all fun d =>
        d.key ≠ row.key || !options.applies d.capability d.scope) = true ∧
      hasContent row.content = true := by
    rw [shownRow, considered_eq hkey hlocale, Bool.and_eq_true, List.all_eq_true]
    constructor
    · rintro ⟨henabled, happlies, hcontent, hno⟩
      refine ⟨⟨?_, fun d hd => ?_⟩, hcontent⟩
      · simp [henabled, hasContent_isSome hcontent, happlies]
      · by_cases hsame : d.key = row.key
        · simp [hno d hd hsame]
        · simp [hsame]
    · rintro ⟨⟨hshown, hno⟩, hcontent⟩
      simp only [Bool.and_eq_true, decide_eq_true_eq] at hshown
      refine ⟨hshown.1, hshown.2.2, hcontent, fun d hd hsame => ?_⟩
      simpa [hsame] using hno d hd
  rw [hlast, rowLine?]
  cases hrow : (shownRow options row && defaults.all fun d =>
      d.key ≠ row.key || !options.applies d.capability d.scope) with
  | false => simp
  | true =>
      simp only [fragmentLine?, overlay, hasContent_getD, if_true, true_and]
      cases hasContent row.content with
      | false => simp
      | true =>
          simp only [if_true, Option.some.injEq, true_and]
          exact eq_comm

theorem entryLine?_eq_some_iff {slot : EffectiveSlot} {line : Line} :
    entryLine? options slot = some line ↔ expected options slot = true ∧ line = entryLine slot := by
  rw [entryLine?, Option.ite_none_right_eq_some, Option.some.injEq, eq_comm (a := line)]

theorem le_both_iff {a b : Line} {s : Prop} :
    (a.le b → b.le a → s) ↔ (a.order = b.order → s) := by
  constructor
  · intro h heq
    exact h (le_of_eq heq) (le_of_eq heq.symm)
  · intro h hab hba
    exact h (le_antisymm hab hba)

/-- Which defaults stand in their places, and what they show there. -/
theorem defaultLine?_eq_some_iff {d : ResolvedPromptFragment} {row? : Option CoreAiSlot}
    (hsame : options.applies d.capability d.scope = true →
      entryLine? options (systemEntry d row?) = defaultLine? options d row?) {line : Line} :
    defaultLine? options d row? = some line ↔
      options.applies d.capability d.scope = true ∧
        expected options (systemEntry d row?) = true ∧ line = entryLine (systemEntry d row?) := by
  cases happlies : options.applies d.capability d.scope with
  | false => simp [defaultLine?_of_not _ happlies]
  | true => rw [← hsame happlies, entryLine?_eq_some_iff, eq_self_iff_true, true_and]

include hdefaults hkeys hlocale in
/-- **The same places.** With the same lines, those of one order are where the list has them
    unless a row that goes to the end was listed before one of them. -/
theorem pairwise_promptLines_iff
    (hsame : ∀ d ∈ defaults, options.applies d.capability d.scope = true →
      entryLine? options (systemEntry d ((rowsByKey rows).get? d.key)) =
        defaultLine? options d ((rowsByKey rows).get? d.key)) :
    ((promptLines options defaults rows).Pairwise fun a b =>
        a.le b → b.le a → place defaults rows a.key < place defaults rows b.key) ↔
      TiesKeepPlace options defaults rows := by
  have hrowLine : ∀ {row line}, row ∈ keyed rows →
      (rowLine? options defaults row = some line ↔ GoesLast options defaults row ∧
        line = ⟨row.key, row.content.getD "", row.order.getD defaultOrder⟩) := by
    intro row line hrow
    obtain ⟨hmem, hkey⟩ := mem_keyed.mp hrow
    exact rowLine?_eq_some_iff hkey (hlocale row hmem)
  simp only [le_both_iff]
  rw [promptLines, List.pairwise_append, List.pairwise_filterMap, List.pairwise_filterMap]
  constructor
  · rintro ⟨_, hrows, hcross⟩
    constructor
    · intro d hd row hrow happlies hexpected hlast horder
      have hline := (defaultLine?_eq_some_iff (hsame d hd)).mpr ⟨happlies, hexpected, rfl⟩
      have hline' := (hrowLine hrow).mpr ⟨hlast, rfl⟩
      have hlt := hcross _ (List.mem_filterMap.mpr ⟨d, hd, hline⟩) _
        (List.mem_filterMap.mpr ⟨row, hrow, hline'⟩) horder
      rwa [show (entryLine _).key = d.key from systemEntry_key hkeys d] at hlt
    · refine hrows.imp_of_mem fun {a b} ha hb hpair => ?_
      intro hlast hlast' horder
      exact hpair _ ((hrowLine ha).mpr ⟨hlast, rfl⟩) _ ((hrowLine hb).mpr ⟨hlast', rfl⟩) horder
  · intro hties
    refine ⟨?_, ?_, ?_⟩
    · have hplace := @pairwise_place_defaults defaults rows hdefaults
      refine hplace.imp_of_mem fun {d d'} hd hd' hlt => ?_
      intro a ha b hb _
      obtain ⟨_, _, rfl⟩ := (defaultLine?_eq_some_iff (hsame d hd)).mp ha
      obtain ⟨_, _, rfl⟩ := (defaultLine?_eq_some_iff (hsame d' hd')).mp hb
      show place defaults rows (systemEntry d _).key < place defaults rows (systemEntry d' _).key
      rwa [systemEntry_key hkeys, systemEntry_key hkeys]
    · refine hties.amongRows.imp_of_mem fun {a b} ha hb hpair => ?_
      intro line hline line' hline' horder
      obtain ⟨hlast, rfl⟩ := (hrowLine ha).mp hline
      obtain ⟨hlast', rfl⟩ := (hrowLine hb).mp hline'
      exact hpair hlast hlast' horder
    · intro line hline line' hline' horder
      obtain ⟨d, hd, hline⟩ := List.mem_filterMap.mp hline
      obtain ⟨row, hrow, hline'⟩ := List.mem_filterMap.mp hline'
      obtain ⟨happlies, hexpected, rfl⟩ := (defaultLine?_eq_some_iff (hsame d hd)).mp hline
      obtain ⟨hlast, rfl⟩ := (hrowLine hrow).mp hline'
      show place defaults rows (systemEntry d _).key < place defaults rows row.key
      rw [systemEntry_key hkeys]
      exact hties.behindDefaults d hd row hrow happlies hexpected hlast horder

end Lines

/-- **The prompt and the list.** What is resolved for a run is what the list shows exactly
    when every row that is not switched off fits its default and slots of one order keep
    their places. -/
theorem resolveFragments_eq_listing_iff (options : Options)
    (hdefaults : (defaults.map fun d => d.key).Nodup)
    (hkeys : ((keyed rows).map fun row => row.key).Nodup)
    (hlocale : ∀ row ∈ rows, text? row.locale = none) :
    (resolveFragments options defaults rows).map fragmentLine =
        listedPrompt options defaults rows ↔
      (∀ d ∈ defaults, ∀ row ∈ keyed rows, row.key = d.key → row.enabled ≠ some false →
        OverrideFits options d row) ∧ TiesKeepPlace options defaults rows := by
  rw [resolveFragments_eq hdefaults hkeys, listedPrompt_eq, eq_comm,
    StableSort.sort_eq_sort_iff Line.le (pairwise_listedLines hdefaults hkeys),
    promptLines_perm_iff hdefaults hkeys hlocale]
  refine and_congr_right fun hfits => ?_
  refine pairwise_promptLines_iff hdefaults hkeys hlocale fun d hd happlies => ?_
  rw [defaultLine?_of_applies _ happlies]
  exact (slotLines_agree_iff hkeys hlocale).mpr hfits d hd

/-- A slot that is for one kind of run. -/
def toolCatalog : ResolvedPromptFragment where
  capability := some "native"
  content := "Call a tool whenever it is needed."
  key := "tool_catalog"
  order := 50
  scope := none

/-- Another text for it, and nothing else. -/
def shorterCatalog : CoreAiSlot where
  id := none
  capability := none
  content := some "Use the tools."
  description := none
  enabled := none
  key := "tool_catalog"
  locale := none
  order := none
  scope := none
  tenantId := none

/-- In the runs that the default is for, the new text takes its place. -/
theorem resolveFragments_native :
    (resolveFragments ⟨some "native", none, none⟩ [toolCatalog] [shorterCatalog]).map fragmentLine =
      listedPrompt ⟨some "native", none, none⟩ [toolCatalog] [shorterCatalog] := by
  refine (resolveFragments_eq_listing_iff _ (by decide) (by decide) (by decide)).mpr ⟨?_, ?_⟩
  · intro d hd row hrow _ _
    obtain rfl := List.mem_singleton.mp hd
    obtain rfl : row = shorterCatalog := List.mem_singleton.mp (mem_keyed.mp hrow).1
    exact ⟨by decide, by decide, by decide⟩
  · constructor
    · intro d hd row hrow happlies _ hlast _
      obtain rfl := List.mem_singleton.mp hd
      obtain rfl : row = shorterCatalog := List.mem_singleton.mp (mem_keyed.mp hrow).1
      exact absurd happlies (by rw [hlast.noDefault _ hd rfl]; exact Bool.false_ne_true)
    · exact List.pairwise_singleton _ _

/-- In the other runs the list has no such slot, but the prompt has the new text. -/
theorem resolveFragments_emulated :
    (resolveFragments ⟨some "emulated", none, none⟩ [toolCatalog] [shorterCatalog]).map
        fragmentLine = [⟨"tool_catalog", "Use the tools.", 100⟩] ∧
      listedPrompt ⟨some "emulated", none, none⟩ [toolCatalog] [shorterCatalog] = [] := by
  decide +kernel

end CoreAiSlotService
