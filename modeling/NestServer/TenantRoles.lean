import Mathlib.Data.List.Basic
import Mathlib.Algebra.Order.Ring.Rat
import NestServer.RoleEnum

/-! # Role scopes and role access

    `core-role-scope.registry.ts` and `core-tenant.helpers.ts`: where a role's
    authority comes from, which required roles a tenant membership may
    satisfy, and the access check both guards and `@Restricted` end in.

    * `scopeOf` and `resolveGlobalAndTenantRoles` split required roles into
      the ones the platform answers and the ones a membership answers;
    * `checkRoleAccess` compares levels for roles of the hierarchy and names
      for all others;
    * `declaredGlobal_scopeOf` says the boot check
      (`assertRoleVocabularyIsCoherent`) leaves every declared platform role
      with global scope. -/

open RoleEnum

/-- The `multiTenancy` section of the configuration; a missing setting is
    `none`. -/
structure MultiTenancy where
  enabled                   : Option Bool := none
  headerName                : Option String := none
  adminBypass               : Option Bool := none
  cacheTtlMs                : Option Int := none
  roleHierarchy             : Option (List (String × ℚ)) := none
  globalOnlyRoles           : Option (List String) := none
  additionalMembershipRoles : Option (List String) := none
  strictMembershipRoles     : Bool := false
  excludeSchemas            : Option (List String) := none
deriving DecidableEq, Repr

/-- `!config || config.enabled === false`, negated. -/
def MultiTenancy.active (config : MultiTenancy) : Bool := config.enabled != some false

/-- `DEFAULT_ROLE_HIERARCHY` -/
def DEFAULT_ROLE_HIERARCHY : List (String × ℚ) :=
  [("member", 1), ("manager", 2), ("owner", 3)]

/-- A further source of role scopes, registered beside the configuration. -/
structure RoleScopeSource where
  globalRoles : List String
  tenantRoles : List String

/-- What role decisions read: the configuration, read fresh on every call, and
    the sources registered in the process-wide registry. -/
structure Vocabulary where
  multiTenancy : Option MultiTenancy
  sources      : List RoleScopeSource := []

inductive RoleScope where
  | GLOBAL | SYSTEM | TENANT | UNKNOWN
deriving DecidableEq, Repr

namespace Vocabulary

variable (v : Vocabulary)

/-- `getRoleHierarchy()` -/
def getRoleHierarchy : List (String × ℚ) :=
  (v.multiTenancy.bind MultiTenancy.roleHierarchy).getD DEFAULT_ROLE_HIERARCHY

/-- `isMultiTenancyActive()` -/
def isMultiTenancyActive : Bool :=
  match v.multiTenancy with
  | none        => false
  | some config => config.active

/-- The configuration as a source: `configSource()`. -/
def configSource : RoleScopeSource where
  globalRoles := (v.multiTenancy.bind MultiTenancy.globalOnlyRoles).getD []
  tenantRoles := v.getRoleHierarchy.map Prod.fst
    ++ (v.multiTenancy.bind MultiTenancy.additionalMembershipRoles).getD []

/-- `collect(pick)`: the configuration is always consulted, empty names never
    count. -/
def collect (pick : RoleScopeSource → List String) : List String :=
  ((v.configSource :: v.sources).flatMap pick).filter JsText.truthy

/-- `scopeOf(role)`: system roles first, then global, then tenant. -/
def scopeOf (role : String) : RoleScope :=
  if isSystemRole role || looksLikeSystemRole role then .SYSTEM
  else if GLOBAL_ONLY_ROLES.contains role
      || (v.collect RoleScopeSource.globalRoles).contains role then .GLOBAL
  else if (v.collect RoleScopeSource.tenantRoles).contains role then .TENANT
  else .UNKNOWN

def isTenantRole (role : String) : Bool := v.scopeOf role = .TENANT

/-- The roles of a list only the platform can satisfy. -/
def isGlobal (role : String) : Bool := v.scopeOf role = .GLOBAL || isGlobalOnlyRole role

/-- `resolveGlobalAndTenantRoles(requiredRoles)`, as the pair (global, tenant). -/
def resolveGlobalAndTenantRoles (requiredRoles : List String) :
    List String × List String :=
  requiredRoles.partition v.isGlobal

/-- `tenantSatisfiableRoles(requiredRoles)` -/
def tenantSatisfiableRoles (requiredRoles : List String) : List String :=
  let candidates := (v.resolveGlobalAndTenantRoles requiredRoles).2
  if (v.multiTenancy.map MultiTenancy.strictMembershipRoles).getD false then
    candidates.filter v.isTenantRole
  else candidates

/-- `assertRoleVocabularyIsCoherent()`: the boot fails with the text. -/
def assertRoleVocabularyIsCoherent : Except String Unit :=
  match v.multiTenancy with
  | none => .ok ()
  | some config =>
      if config.active = false then .ok ()
      else
        let hierarchy := (config.roleHierarchy.getD DEFAULT_ROLE_HIERARCHY).map Prod.fst
        let additional := config.additionalMembershipRoles.getD []
        let declaredGlobal := config.globalOnlyRoles.getD []
        let reserved := (hierarchy ++ additional).filter isForbiddenMembershipRole
        let both := declaredGlobal.filter fun role =>
          hierarchy.contains role || additional.contains role
        let systemGlobals := declaredGlobal.filter looksLikeSystemRole
        if reserved ≠ [] then
          .error ("multiTenancy: tenant role(s) [" ++ ", ".intercalate reserved
            ++ "] use a reserved framework role name. "
            ++ "A tenant role of that name would be compared against the framework role by exact string match, "
            ++ "letting a tenant owner grant themselves platform authority. Rename them (e.g. \"tenantAdmin\") "
            ++ "and declare platform-wide roles via multiTenancy.globalOnlyRoles.")
        else if both ≠ [] then
          .error ("multiTenancy: role(s) [" ++ ", ".intercalate both
            ++ "] are declared BOTH in globalOnlyRoles and as tenant roles. "
            ++ "Each role must resolve against exactly one source (user.roles for global, membership.role for tenant).")
        else if systemGlobals ≠ [] then
          .error ("multiTenancy.globalOnlyRoles contains system role(s) [" ++
            ", ".intercalate systemGlobals
            ++ "]. System roles are runtime-context checks and are never stored or granted.")
        else .ok ()

end Vocabulary

/-! ## Levels

    A role hierarchy is an ordinary object, so `role in hierarchy` is also true
    of the members every object inherits, whose value is no number. -/

/-- The members of `Object.prototype`. -/
def objectPrototypeKeys : List String :=
  ["constructor", "__defineGetter__", "__defineSetter__", "hasOwnProperty",
   "__lookupGetter__", "__lookupSetter__", "isPrototypeOf",
   "propertyIsEnumerable", "toString", "valueOf", "__proto__", "toLocaleString"]

/-- A number as the level comparisons see it; `none` is `NaN`. -/
abbrev Level := Option ℚ

/-- `role in hierarchy` -/
def inHierarchy (hierarchy : List (String × ℚ)) (role : String) : Bool :=
  (hierarchy.map Prod.fst).contains role || objectPrototypeKeys.contains role

/-- `hierarchy[role]` for a role that is in the hierarchy. -/
def levelOf (hierarchy : List (String × ℚ)) (role : String) : Level :=
  hierarchy.lookup role

/-- `Math.min(...levels)` of a nonempty list: `NaN` swallows everything. -/
def mathMin : List Level → Level
  | []      => none
  | [x]     => x
  | x :: xs => match x, mathMin xs with
      | some a, some b => some (min a b)
      | _, _           => none

/-- `a >= b`: no comparison with `NaN` holds. -/
def Level.ge : Level → Level → Bool
  | some a, some b => b ≤ a
  | _, _           => false

namespace Vocabulary

variable (v : Vocabulary)

/-- `getMinRequiredLevel(roles)`; the outer `none` is `undefined`. -/
def getMinRequiredLevel (roles : List String) : Option Level :=
  let hierarchy := v.getRoleHierarchy
  let levels := (roles.filter (inHierarchy hierarchy)).map (levelOf hierarchy)
  if levels = [] then none else some (mathMin levels)

/-- `checkRoleAccess(requiredRoles, userRoles, tenantRole)` -/
def checkRoleAccess (requiredRoles : List String) (userRoles : Option (List String))
    (tenantRole : Option String) : Bool :=
  let availableRoles := match tenantRole with
    | some role => if JsText.truthy role then [role] else userRoles.getD []
    | none      => userRoles.getD []
  if availableRoles = [] then false
  else
    let hierarchy := if v.isMultiTenancyActive then v.getRoleHierarchy else []
    let hierarchyRequired := requiredRoles.filter (inHierarchy hierarchy)
    let nonHierarchyRequired := requiredRoles.filter fun r => !inHierarchy hierarchy r
    if hierarchyRequired = [] ∧ nonHierarchyRequired = [] then true
    else
      let minRequired := mathMin (hierarchyRequired.map (levelOf hierarchy))
      (hierarchyRequired ≠ [] && availableRoles.any fun r =>
          inHierarchy hierarchy r && (levelOf hierarchy r).ge minRequired)
        || (nonHierarchyRequired.any fun r => availableRoles.contains r)

/-- `checkFieldRoleAccess(roles, user)` of `restricted.decorator.ts`; the tenant
    role is the request context's. -/
def checkFieldRoleAccess (roles : List String) (userRoles : Option (List String))
    (tenantRole : Option String) : Bool :=
  let split := v.resolveGlobalAndTenantRoles (roles.filter fun role => !isSystemRole role)
  split.1.any (fun role => (userRoles.getD []).contains role)
    || (split.2 ≠ [] && v.checkRoleAccess split.2 userRoles tenantRole)

/-! ## What the split leaves to a membership -/

theorem mem_collect {pick : RoleScopeSource → List String} {role : String} :
    role ∈ v.collect pick ↔
      (role ∈ pick v.configSource ∨ ∃ s ∈ v.sources, role ∈ pick s) ∧ role ≠ "" := by
  simp [collect, JsText.truthy, or_and_right]

/-- A role of global scope never reaches the tenant half. -/
theorem resolve_tenant_eq_nil {roles : List String}
    (h : ∀ r ∈ roles, v.isGlobal r = true) :
    v.resolveGlobalAndTenantRoles roles = (roles, []) := by
  rw [resolveGlobalAndTenantRoles, List.partition_eq_filter_filter]
  refine Prod.ext (List.filter_eq_self.mpr h) (List.filter_eq_nil_iff.mpr ?_)
  intro r hr
  simp [h r hr]

theorem isGlobal_of_scope {role : String} (h : v.scopeOf role = .GLOBAL) :
    v.isGlobal role = true := by
  simp [isGlobal, h]

/-- No membership can satisfy a list of platform roles. -/
theorem tenantSatisfiable_eq_nil {roles : List String}
    (h : ∀ r ∈ roles, v.isGlobal r = true) : v.tenantSatisfiableRoles roles = [] := by
  rw [tenantSatisfiableRoles, resolve_tenant_eq_nil v h]
  show (if _ then List.filter v.isTenantRole [] else []) = []
  split <;> rfl

/-- The boot check accepts a vocabulary only if no declared platform role looks
    like a system role. -/
theorem coherent_global_not_system {config : MultiTenancy}
    (hv : v.multiTenancy = some config) (hact : config.active = true)
    (hcoh : v.assertRoleVocabularyIsCoherent = .ok ()) {role : String}
    (hr : role ∈ config.globalOnlyRoles.getD []) : looksLikeSystemRole role = false := by
  rw [assertRoleVocabularyIsCoherent, hv] at hcoh
  dsimp only at hcoh
  rw [if_neg (by simp [hact])] at hcoh
  split at hcoh
  · cases hcoh
  · split at hcoh
    · cases hcoh
    · split at hcoh
      · cases hcoh
      · next h3 =>
          have hnil := List.filter_eq_nil_iff.mp (not_not.mp h3) role hr
          simpa using hnil

/-- **Declared platform roles have global scope.** After the boot check,
    `admin` and every name in `globalOnlyRoles` is answered by the platform. -/
theorem declaredGlobal_scopeOf {config : MultiTenancy}
    (hv : v.multiTenancy = some config) (hact : config.active = true)
    (hcoh : v.assertRoleVocabularyIsCoherent = .ok ()) {role : String}
    (hne : role ≠ "")
    (hr : role = ADMIN.value ∨ role ∈ config.globalOnlyRoles.getD []) :
    v.scopeOf role = .GLOBAL := by
  have hlook : looksLikeSystemRole role = false := by
    rcases hr with h | h
    · rw [h]; exact looksLikeSystemRole_ADMIN
    · exact coherent_global_not_system v hv hact hcoh h
  have hsys : isSystemRole role = false := by
    cases hs : isSystemRole role with
    | false => rfl
    | true =>
        rw [looksLikeSystemRole_of_isSystemRole hs] at hlook
        exact Bool.noConfusion hlook
  have hmem : (GLOBAL_ONLY_ROLES.contains role
      || (v.collect RoleScopeSource.globalRoles).contains role) = true := by
    rcases hr with h | h
    · rw [h]; rfl
    · have hc : role ∈ v.collect RoleScopeSource.globalRoles := by
        refine v.mem_collect.mpr ⟨Or.inl ?_, hne⟩
        show role ∈ (v.multiTenancy.bind MultiTenancy.globalOnlyRoles).getD []
        rw [hv]
        exact h
      simp [hc]
  rw [scopeOf, hsys, hlook, if_neg (by simp), if_pos hmem]

end Vocabulary
