import NestServer.TenantRoles

/-! # Role access, pair by pair

    `checkRoleAccess` takes its lists apart and compares with a minimum. What
    it decides is said here without either: an available role answers a
    required one by its level, or, outside the hierarchy, by being the same
    name. -/

/-- The level of a minimum is reached where one of the levels is; a `NaN` among
    them is never reached. -/
theorem mathMin_eq_none {levels : List Level} (hne : levels ≠ []) :
    mathMin levels = none ↔ none ∈ levels := by
  induction levels with
  | nil => exact absurd rfl hne
  | cons x xs ih =>
      cases xs with
      | nil => simp [mathMin, eq_comm]
      | cons y ys =>
          have ih := ih (List.cons_ne_nil y ys)
          cases x with
          | none => simp [mathMin]
          | some a =>
              cases hmin : mathMin (y :: ys) with
              | none => simp [mathMin, hmin, ← ih]
              | some b => simp [mathMin, hmin, ← ih]

theorem Level.ge_min (a : Level) (b c : ℚ) :
    a.ge (some (min b c)) = true ↔ a.ge (some b) = true ∨ a.ge (some c) = true := by
  cases a with
  | none => simp [Level.ge]
  | some a => simp [Level.ge]

theorem Level.not_ge_none (a : Level) : a.ge none = false := by
  cases a <;> rfl

theorem Level.ge_mathMin (a : Level) {levels : List Level} (hne : levels ≠ []) :
    a.ge (mathMin levels) = true ↔ none ∉ levels ∧ ∃ b ∈ levels, a.ge b = true := by
  induction levels with
  | nil => exact absurd rfl hne
  | cons x xs ih =>
      cases xs with
      | nil =>
          cases x with
          | none => simp [mathMin, Level.not_ge_none]
          | some b => simp [mathMin]
      | cons y ys =>
          have ih := ih (List.cons_ne_nil y ys)
          cases x with
          | none => simp [mathMin, Level.not_ge_none]
          | some b =>
              cases hmin : mathMin (y :: ys) with
              | none =>
                  have hmem := (mathMin_eq_none (List.cons_ne_nil y ys)).mp hmin
                  simp only [mathMin, hmin, Level.not_ge_none, List.mem_cons]
                  simp only [List.mem_cons] at hmem
                  simp [hmem]
              | some c =>
                  rw [hmin] at ih
                  show a.ge (mathMin (some b :: y :: ys)) = true ↔ _
                  simp only [mathMin, hmin, Level.ge_min, ih, List.mem_cons, reduceCtorEq, false_or,
                    not_or]
                  have hno : none ∉ y :: ys := by
                    intro h
                    rw [(mathMin_eq_none (List.cons_ne_nil y ys)).mpr h] at hmin
                    cases hmin
                  simp only [List.mem_cons, not_or] at hno
                  simp [hno]

namespace Vocabulary

variable (v : Vocabulary)

/-- The levels `checkRoleAccess` compares with; without multi-tenancy there
    are none. -/
def levels : List (String × ℚ) := if v.isMultiTenancyActive then v.getRoleHierarchy else []

/-- `tenantRole ? [tenantRole] : (userRoles ?? [])` -/
def availableRoles (userRoles : Option (List String)) (tenantRole : Option String) : List String :=
  match tenantRole with
  | some role => if JsText.truthy role then [role] else userRoles.getD []
  | none      => userRoles.getD []

/-- An available role answers a required one. -/
def Answers (hierarchy : List (String × ℚ)) (required available : String) : Prop :=
  (∃ m n, hierarchy.lookup required = some m ∧ hierarchy.lookup available = some n ∧ m ≤ n)
    ∨ hierarchy.lookup required = none ∧ available = required

/-- What the required roles ask for: nothing, or one pair that answers. -/
def Granted (hierarchy : List (String × ℚ)) (required available : List String) : Prop :=
  required = [] ∨ ∃ r ∈ required, ∃ a ∈ available, Answers hierarchy r a

/-- The name of a member every object inherits that is no role of the
    hierarchy; `in` finds it there all the same. -/
def InheritedName (hierarchy : List (String × ℚ)) (role : String) : Prop :=
  role ∈ objectPrototypeKeys ∧ hierarchy.lookup role = none

/-! ## What the code compares -/

theorem inHierarchy_iff {hierarchy : List (String × ℚ)} {role : String} :
    inHierarchy hierarchy role = true ↔ (hierarchy.lookup role).isSome = true ∨
      role ∈ objectPrototypeKeys := by
  have hlookup : (hierarchy.lookup role).isSome = true ↔ role ∈ hierarchy.map Prod.fst := by
    rw [← not_iff_not, Bool.not_eq_true, Option.isSome_eq_false_iff, Option.isNone_iff_eq_none,
      List.lookup_eq_none_iff]
    simp only [List.mem_map, not_exists, not_and, bne_iff_ne, ne_eq]
    constructor
    · intro h e he heq
      exact h e he heq.symm
    · intro h e he heq
      exact h e he heq.symm
  rw [hlookup]
  simp [inHierarchy]

variable {v} {required : List String} {userRoles : Option (List String)}
  {tenantRole : Option String}

/-- The check without its partitions. -/
theorem checkRoleAccess_iff (havailable : availableRoles userRoles tenantRole ≠ []) :
    v.checkRoleAccess required userRoles tenantRole = true ↔
      required = []
        ∨ (∃ a ∈ availableRoles userRoles tenantRole, inHierarchy v.levels a = true
            ∧ (∀ r ∈ required, inHierarchy v.levels r = true → levelOf v.levels r ≠ none)
            ∧ ∃ r ∈ required, inHierarchy v.levels r = true ∧
              (levelOf v.levels a).ge (levelOf v.levels r) = true)
        ∨ ∃ r ∈ required, inHierarchy v.levels r = false ∧
          r ∈ availableRoles userRoles tenantRole := by
  have hcheck : v.checkRoleAccess required userRoles tenantRole
      = if availableRoles userRoles tenantRole = [] then false
        else if required.filter (inHierarchy v.levels) = []
            ∧ (required.filter fun r => !inHierarchy v.levels r) = [] then true
        else (required.filter (inHierarchy v.levels) ≠ [] &&
          (availableRoles userRoles tenantRole).any fun r =>
            inHierarchy v.levels r && (levelOf v.levels r).ge
              (mathMin ((required.filter (inHierarchy v.levels)).map (levelOf v.levels))))
          || ((required.filter fun r => !inHierarchy v.levels r).any fun r =>
            (availableRoles userRoles tenantRole).contains r) := rfl
  rw [hcheck, if_neg havailable]
  generalize availableRoles userRoles tenantRole = available
  generalize v.levels = hierarchy
  by_cases hempty : required.filter (inHierarchy hierarchy) = []
      ∧ (required.filter fun r => !inHierarchy hierarchy r) = []
  · rw [if_pos hempty]
    -- a role that neither part keeps is not there
    have hrequired : required = [] := by
      refine List.eq_nil_iff_forall_not_mem.mpr fun r hr => ?_
      have hin := List.filter_eq_nil_iff.mp hempty.1 r hr
      have hout := List.filter_eq_nil_iff.mp hempty.2 r hr
      cases hrole : inHierarchy hierarchy r with
      | true  => exact hin hrole
      | false => exact hout (by rw [hrole]; rfl)
    exact iff_of_true rfl (.inl hrequired)
  · rw [if_neg hempty]
    have hrequired : required ≠ [] := by
      rintro rfl
      exact hempty ⟨rfl, rfl⟩
    have hplain : ((required.filter fun r => !inHierarchy hierarchy r).any fun r =>
        available.contains r) = true
        ↔ ∃ r ∈ required, inHierarchy hierarchy r = false ∧ r ∈ available := by
      simp [List.any_eq_true]
    rw [Bool.or_eq_true, hplain, or_iff_right hrequired]
    refine or_congr ?_ Iff.rfl
    by_cases hlevels : required.filter (inHierarchy hierarchy) = []
    · have hnone : ¬ ∃ r ∈ required, inHierarchy hierarchy r = true := by
        rintro ⟨r, hr, hrole⟩
        exact List.filter_eq_nil_iff.mp hlevels r hr hrole
      rw [hlevels]
      refine iff_of_false (by simp) ?_
      rintro ⟨a, -, -, -, r, hr, hrole, -⟩
      exact hnone ⟨r, hr, hrole⟩
    · have hne : (required.filter (inHierarchy hierarchy)).map (levelOf hierarchy) ≠ [] := by
        rw [ne_eq, List.map_eq_nil_iff]
        exact hlevels
      simp only [hlevels, ne_eq, not_false_eq_true, decide_true, Bool.true_and, List.any_eq_true,
        Bool.and_eq_true, Level.ge_mathMin _ hne, List.mem_map, List.mem_filter]
      simp only [not_exists, not_and, and_imp]
      constructor
      · rintro ⟨a, ha, hin, hall, b, ⟨r, ⟨hr, hrole⟩, rfl⟩, hge⟩
        exact ⟨a, ha, hin, fun r' hr' hrole' => hall r' hr' hrole', r, hr, hrole, hge⟩
      · rintro ⟨a, ha, hin, hall, r, hr, hrole, hge⟩
        exact ⟨a, ha, hin, fun r' hr' hrole' => hall r' hr' hrole', _, ⟨r, ⟨hr, hrole⟩, rfl⟩, hge⟩

theorem ge_levelOf {hierarchy : List (String × ℚ)} {a r : String} :
    (levelOf hierarchy a).ge (levelOf hierarchy r) = true
      ↔ ∃ m n, hierarchy.lookup r = some m ∧ hierarchy.lookup a = some n ∧ m ≤ n := by
  rw [levelOf, levelOf]
  cases hierarchy.lookup a with
  | none => simp [Level.ge]
  | some n =>
      cases hierarchy.lookup r with
      | none => simp [Level.ge]
      | some m => simp [Level.ge]

/-- Where no required role is an inherited name, the check is the pairwise one. -/
theorem checkRoleAccess_iff_granted (havailable : availableRoles userRoles tenantRole ≠ [])
    (hown : ∀ r ∈ required, ¬ InheritedName v.levels r) :
    v.checkRoleAccess required userRoles tenantRole = true
      ↔ Granted v.levels required (availableRoles userRoles tenantRole) := by
  have hhas : ∀ r ∈ required, (inHierarchy v.levels r = true ↔
      (v.levels.lookup r).isSome = true) := by
    intro r hr
    rw [inHierarchy_iff]
    refine ⟨fun h => h.elim id fun hkey => ?_, .inl⟩
    by_contra hnone
    exact hown r hr ⟨hkey, Option.not_isSome_iff_eq_none.mp hnone⟩
  rw [checkRoleAccess_iff havailable, Granted]
  refine or_congr Iff.rfl ⟨?_, ?_⟩
  · rintro (⟨a, ha, -, -, r, hr, -, hge⟩ | ⟨r, hr, hrole, hmem⟩)
    · exact ⟨r, hr, a, ha, .inl (ge_levelOf.mp hge)⟩
    · have hnone : v.levels.lookup r = none := by
        rw [← Option.not_isSome_iff_eq_none, ← hhas r hr, hrole]
        exact Bool.false_ne_true
      exact ⟨r, hr, r, hmem, .inr ⟨hnone, rfl⟩⟩
  · rintro ⟨r, hr, a, ha, hlevel | ⟨hnone, rfl⟩⟩
    · left
      have hge := ge_levelOf.mpr hlevel
      obtain ⟨m, n, hm, hn, -⟩ := hlevel
      refine ⟨a, ha, inHierarchy_iff.mpr (.inl (by rw [hn]; rfl)), ?_, r, hr,
        inHierarchy_iff.mpr (.inl (by rw [hm]; rfl)), hge⟩
      intro r' hr' hrole'
      exact Option.isSome_iff_ne_none.mp ((hhas r' hr').mp hrole')
    · right
      refine ⟨a, hr, ?_, ha⟩
      rw [← Bool.not_eq_true, hhas a hr, hnone]
      exact Bool.false_ne_true

theorem Granted.mono {hierarchy : List (String × ℚ)}
    {required required' available available' : List String}
    (h : Granted hierarchy required available) (hempty : required = [] → required' = [])
    (hrequired : required ⊆ required') (havailable : available ⊆ available') :
    Granted hierarchy required' available' := by
  rcases h with h | ⟨r, hr, a, ha, hanswers⟩
  · exact .inl (hempty h)
  · exact .inr ⟨r, hrequired hr, a, havailable ha, hanswers⟩

/-- **Role access is decided pair by pair**, and more required roles or more available ones
    never take it away; only the first required role can. -/
theorem checkRoleAccess_pairwise (v : Vocabulary) (required : List String)
    (userRoles : Option (List String))
    (tenantRole : Option String) (havailable : availableRoles userRoles tenantRole ≠ [])
    (hown : ∀ r ∈ required, ¬ InheritedName v.levels r) :
    (v.checkRoleAccess required userRoles tenantRole = true
        ↔ Granted v.levels required (availableRoles userRoles tenantRole))
      ∧ ∀ (required' : List String) (userRoles' : Option (List String))
        (tenantRole' : Option String),
          (required = [] → required' = []) → required ⊆ required' →
          (∀ r ∈ required', ¬ InheritedName v.levels r) →
          availableRoles userRoles tenantRole ⊆ availableRoles userRoles' tenantRole' →
          v.checkRoleAccess required userRoles tenantRole = true →
          v.checkRoleAccess required' userRoles' tenantRole' = true := by
  refine ⟨checkRoleAccess_iff_granted havailable hown, ?_⟩
  intro required' userRoles' tenantRole' hempty hrequired hown' hmore h
  have havailable' : availableRoles userRoles' tenantRole' ≠ [] := by
    intro hnil
    exact havailable (List.subset_nil.mp (hnil ▸ hmore))
  have hgranted := (checkRoleAccess_iff_granted havailable hown).mp h
  exact (checkRoleAccess_iff_granted havailable' hown').mpr (hgranted.mono hempty hrequired hmore)

/-- Tenants with the default hierarchy. -/
def withDefaultLevels : Vocabulary := { multiTenancy := some {} }

theorem not_inheritedName_manager {role : String} (h : role ∈ ["manager", "editor"]) :
    ¬ InheritedName withDefaultLevels.levels role := by
  rintro ⟨hkey, -⟩
  revert role
  decide

/-- A manager passes where managers are asked for, and where editors would do as well. -/
theorem manager_passes :
    (withDefaultLevels.checkRoleAccess ["manager"] (some ["manager"]) none = true
        ↔ Granted withDefaultLevels.levels ["manager"] ["manager"])
      ∧ withDefaultLevels.checkRoleAccess ["manager", "editor"] (some ["manager", "member"]) none =
        true := by
  have h := checkRoleAccess_pairwise withDefaultLevels ["manager"] (some ["manager"]) none
      (by decide)
    (fun r hr => not_inheritedName_manager (List.mem_cons.mpr (.inl (List.mem_singleton.mp hr))))
  refine ⟨h.1, h.2 ["manager", "editor"] (some ["manager", "member"]) none (by decide) (by decide)
    (fun r hr => not_inheritedName_manager hr) (by decide) ?_⟩
  decide +kernel

/-- A role that is named like a member of every object is not answered by itself, and a list
    that asks for nothing is passed by those who do not pass a longer one. -/
theorem checkRoleAccess_not_pairwise :
    (¬ ∀ (v : Vocabulary) (required : List String) (userRoles : Option (List String))
      (tenantRole : Option String), availableRoles userRoles tenantRole ≠ [] →
        (v.checkRoleAccess required userRoles tenantRole = true
          ↔ Granted v.levels required (availableRoles userRoles tenantRole)))
      ∧ ¬ ∀ (v : Vocabulary) (required required' : List String) (userRoles : Option (List String))
          (tenantRole : Option String),
        availableRoles userRoles tenantRole ≠ [] → required ⊆ required' →
        v.checkRoleAccess required userRoles tenantRole = true →
        v.checkRoleAccess required' userRoles tenantRole = true := by
  constructor
  · intro h
    have hpass := (h { multiTenancy := none } ["constructor"] (some ["constructor"]) none
        (by decide)).mpr
      (.inr ⟨"constructor", by simp, "constructor", by simp [availableRoles], .inr ⟨rfl, rfl⟩⟩)
    revert hpass
    decide
  · intro h
    have hpass := h { multiTenancy := none } [] ["editor"] (some ["member"]) none (by decide)
        (by simp) rfl
    revert hpass
    decide

end Vocabulary
