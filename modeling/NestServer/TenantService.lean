import Mathlib.Data.List.Lex
import Mathlib.Data.List.Nodup
import NestServer.Interleaving
import NestServer.TenantGuard

/-! # The tenant service

    `addMember`, `removeMember` and `updateMemberRole` over the membership table.  Each is
    a row of questions to the table with a check between them, and the table answers one
    question at a time. -/

namespace TenantService

open Dialogue TenantGuard

/-! ## The table -/

/-- A row, with what is noted of its origin. -/
structure Membership extends Member where
  invitedBy : Option String := none
  joinedAt  : Option Int := none
deriving DecidableEq

/-- There is one membership for a user in a tenant: the table has a unique index. -/
structure Table where
  rows   : List Membership
  unique : (rows.map fun m => (m.user, m.tenant)).Nodup

structure MemberFilter where
  role   : Option String := none
  status : Option TenantMemberStatus := none
  tenant : Option String := none
  user   : Option String := none

def MemberFilter.selects (f : MemberFilter) (m : Membership) : Bool :=
  f.role.all (· = m.role) && f.status.all (· = m.status) && f.tenant.all (· = m.tenant) &&
    f.user.all (· = m.user)

/-- What is `undefined` in an update is left out of it. -/
structure MemberUpdate where
  invitedBy : Option String := none
  joinedAt  : Option Int := none
  role      : Option String := none
  status    : Option TenantMemberStatus := none

def MemberUpdate.apply (u : MemberUpdate) (m : Membership) : Membership :=
  { m with
    invitedBy := u.invitedBy.or m.invitedBy
    joinedAt  := u.joinedAt.or m.joinedAt
    role      := u.role.getD m.role
    status    := u.status.getD m.status }

/-- The first row that is selected. -/
def updateFirst (f : MemberFilter) (u : MemberUpdate) : List Membership → List Membership
  | []      => []
  | m :: ms => if f.selects m then u.apply m :: ms else m :: updateFirst f u ms

theorem key_updateFirst (f : MemberFilter) (u : MemberUpdate) (rows : List Membership) :
    (updateFirst f u rows).map (fun m => (m.user, m.tenant)) = rows.map fun m =>
      (m.user, m.tenant) := by
  induction rows with
  | nil => rfl
  | cons m rows ih =>
      rw [updateFirst]
      split
      · rfl
      · rw [List.map_cons, ih, List.map_cons]

def Table.update (table : Table) (f : MemberFilter) (u : MemberUpdate) : Table where
  rows   := updateFirst f u table.rows
  unique := (key_updateFirst f u table.rows).symm ▸ table.unique

/-- The index refuses a second membership. -/
def Table.insert (table : Table) (m : Membership) : Option Table :=
  if h : (m.user, m.tenant) ∈ table.rows.map fun m => (m.user, m.tenant) then none
  else some
    { rows   := table.rows ++ [m]
      unique := by
        rw [List.map_append]
        refine List.nodup_append.mpr ⟨table.unique, List.nodup_singleton _, ?_⟩
        intro x hx y hy hxy
        rw [hxy, List.mem_singleton.mp hy] at hx
        exact h hx }

/-! ## Questions -/

inductive MemberQuery where
  | findOne (f : MemberFilter)
  | countDocuments (f : MemberFilter)
  | findOneAndUpdate (f : MemberFilter) (u : MemberUpdate)
  | create (m : Membership)

@[reducible] def MemberAnswer : MemberQuery → Type
  | .findOne _            => Option Membership
  | .countDocuments _     => Nat
  | .findOneAndUpdate _ _ => Option Membership
  | .create _             => Option Membership

def exec (table : Table) : (q : MemberQuery) → MemberAnswer q × Table
  | .findOne f            => (table.rows.find? f.selects, table)
  | .countDocuments f     => (table.rows.countP f.selects, table)
  | .findOneAndUpdate f u => ((table.rows.find? f.selects).map u.apply, table.update f u)
  | .create m             =>
      match table.insert m with
      | none        => (none, table)
      | some table' => (some m, table')

abbrev ServiceProgram (α : Type) := Dialogue MemberQuery MemberAnswer α

def findOne (f : MemberFilter) : ServiceProgram (Option Membership) :=
  ask (MemberQuery.findOne f) returned

def countDocuments (f : MemberFilter) : ServiceProgram Nat :=
  ask (MemberQuery.countDocuments f) returned

def findOneAndUpdate (f : MemberFilter) (u : MemberUpdate) : ServiceProgram (Option Membership) :=
  ask (MemberQuery.findOneAndUpdate f u) returned

def create (m : Membership) : ServiceProgram (Option Membership) :=
  ask (MemberQuery.create m) returned

/-! ## The service -/

section Service

variable (v : Vocabulary)

/-- `getHierarchy()` -/
def getHierarchy : List (String × ℚ) := v.getRoleHierarchy

def getDefaultRole : String :=
  match getHierarchy v with
  | []             => "member"
  | entry :: rest  => (rest.foldl (fun a b => if a.2 ≤ b.2 then a else b) entry).1

def getHighestRole : String :=
  match getHierarchy v with
  | []            => "owner"
  | entry :: rest => (rest.foldl (fun a b => if b.2 ≤ a.2 then a else b) entry).1

/-- `[...declared].sort().join(', ')` -/
def declaredText (declared : List String) : String :=
  ", ".intercalate (declared.eraseDups.mergeSort fun a b =>
    decide (JsText.utf16 a ≤ JsText.utf16 b))

def assertAssignableMembershipRole (role : String) : Except String Unit :=
  if RoleEnum.looksLikeSystemRole role then
    .error s!"A system role ({RoleEnum.SYSTEM_ROLE_PREFIX}*) must never be used as a tenant membership role: {role}"
  else if RoleEnum.looksLikeGlobalOnlyRole role then
    .error (s!"\"{role}\" is a global role and must never be used as a tenant membership role — " ++
      "use a tenant-specific name such as \"tenantAdmin\" instead")
  else if (v.multiTenancy.map MultiTenancy.strictMembershipRoles).getD false then
    let declared := (getHierarchy v).map Prod.fst ++
      (v.multiTenancy.bind MultiTenancy.additionalMembershipRoles).getD []
    if declared.contains role then .ok ()
    else
      .error (s!"\"{role}\" is not a declared tenant role. Declared: [{declaredText declared}]. " ++
        "Add it to multiTenancy.roleHierarchy or multiTenancy.additionalMembershipRoles, " ++
        "or disable multiTenancy.strictMembershipRoles.")
  else .ok ()

/-- `!text?.trim()` -/
def required (name text : String) : Except String Unit :=
  if JsText.trim text = "" then .error (name ++ " must not be empty") else .ok ()

def getMembership (tenantId userId : String) : ServiceProgram (Option Membership) :=
  findOne { tenant := some tenantId, user := some userId }

def getActiveMembership (tenantId userId : String) : ServiceProgram (Option Membership) :=
  if JsText.trim tenantId = "" ∨ JsText.trim userId = "" then returned none
  else findOne { status := some .ACTIVE, tenant := some tenantId, user := some userId }

/-- The reactivation of a membership. -/
def reactivation (role : String) (invitedById : Option String) (now : Int) : MemberUpdate where
  invitedBy := invitedById
  joinedAt  := some now
  role      := some role
  status    := some .ACTIVE

def newMembership (tenantId userId role : String) (invitedById : Option String) (now : Int) :
    Membership where
  user      := userId
  tenant    := tenantId
  role      := role
  status    := .ACTIVE
  invitedBy := invitedById
  joinedAt  := some now

def addMember (tenantId userId : String) (role invitedById : Option String) (now : Int) :
    ServiceProgram (Option Membership) := do
  orThrow (required "tenantId" tenantId)
  orThrow (required "userId" userId)
  let effectiveRole := role.getD (getDefaultRole v)
  orThrow (assertAssignableMembershipRole v effectiveRole)
  let existing ← getMembership tenantId userId
  match existing with
  | some m =>
      if m.status = .ACTIVE then failed "User is already an active member of this tenant"
      else
        findOneAndUpdate { tenant := some tenantId, user := some userId }
          (reactivation effectiveRole invitedById now)
  | none =>
      let doc ← create (newMembership tenantId userId effectiveRole invitedById now)
      orThrow (doc.elim (.error "E11000 duplicate key error") fun m => .ok (some m))

/-- The active memberships of the highest role. -/
def ownerFilter (tenantId : String) : MemberFilter where
  role   := some (getHighestRole v)
  status := some .ACTIVE
  tenant := some tenantId

def assertNotLastOwner (tenantId userId : String) : ServiceProgram Unit := do
  let ownerCount ← countDocuments (ownerFilter v tenantId)
  if ownerCount ≤ 1 then
    let membership ← getActiveMembership tenantId userId
    if membership.map (·.role) = some (getHighestRole v) then
      failed "Cannot remove or demote the last owner of a tenant"

/-- The live membership, which is what a removal and a new role are for. -/
def activeFilter (tenantId userId : String) : MemberFilter where
  status := some .ACTIVE
  tenant := some tenantId
  user   := some userId

def removeMember (tenantId userId : String) : ServiceProgram (Option Membership) := do
  orThrow (required "tenantId" tenantId)
  orThrow (required "userId" userId)
  assertNotLastOwner v tenantId userId
  let result ← findOneAndUpdate (activeFilter tenantId userId) { status := some .SUSPENDED }
  orThrow (result.elim (.error "Membership not found") fun m => .ok (some m))

def updateMemberRole (tenantId userId role : String) : ServiceProgram (Option Membership) := do
  orThrow (required "tenantId" tenantId)
  orThrow (required "userId" userId)
  orThrow (required "role" role)
  orThrow (assertAssignableMembershipRole v role)
  let existing ← getActiveMembership tenantId userId
  -- only who is an owner can be the last one
  (if existing.map (·.role) = some (getHighestRole v) ∧ role ≠ getHighestRole v then
    assertNotLastOwner v tenantId userId
  else returned () : ServiceProgram Unit)
  let result ← findOneAndUpdate (activeFilter tenantId userId) { role := some role }
  orThrow (result.elim (.error "Active membership not found") fun m => .ok (some m))

end Service

/-! ## Calls -/

inductive Call where
  | addMember (tenantId userId : String) (role invitedById : Option String) (now : Int)
  | removeMember (tenantId userId : String)
  | updateMemberRole (tenantId userId role : String)

def Call.program (v : Vocabulary) : Call → ServiceProgram (Option Membership)
  | .addMember tenantId userId role invitedById now =>
      TenantService.addMember v tenantId userId role invitedById now
  | .removeMember tenantId userId                   => TenantService.removeMember v tenantId userId
  | .updateMemberRole tenantId userId role          =>
      TenantService.updateMemberRole v tenantId userId role

def system (v : Vocabulary) : Interleaving.System Table Call Empty Unit MemberQuery MemberAnswer
    (Option Membership) where
  program         := Call.program v
  exec table _ q  := some (exec table q)
  outside _ event := nomatch event

end TenantService
