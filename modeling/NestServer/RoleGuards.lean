import NestServer.SessionUserMapper
import NestServer.TenantGuard

/-! # Two role guards

    `roles.guard.ts` and `better-auth-roles.guard.ts`, for requests whose user
    the Better-Auth middleware has mapped from a session.  Both decide on the
    merged `@Roles` lists of a handler and its class.

    * `rolesGuard_iff` and `betterAuthGuard_iff` say who is let in;
    * `guards_agree_and_extend_iff` says on which lists the guards agree, and
      which roles extend the access of a list. -/

namespace RoleGuards

open RoleEnum SessionUserMapper
open TenantGuard (HttpException ACCESS_DENIED mergeRolesMetadata)

/-- An `id` among the arguments or parameters of a request, if it is truthy. -/
inductive TargetId where
  | text (id : String)
  | other
deriving DecidableEq, Repr

/-- A request whose user the middleware has set. -/
structure Request where
  user   : MappedUser
  args   : Option TargetId := none
  params : Option TargetId := none

def forbidden : Except HttpException Unit := .error (.Forbidden ACCESS_DENIED)

/-- `!roles.some((value) => !!value)`, negated. -/
def named (roles : List String) : Bool := roles.any JsText.truthy

/-! ## `RolesGuard` -/

/-- `handleRequest` of a request with a user. -/
def RolesGuard.handleRequest (v : Vocabulary) (roles : List String) (user : MappedUser) :
    Except HttpException Unit :=
  if roles.contains S_NO_ONE.value then forbidden
  else if !named roles then .ok ()
  else if !user.hasRole roles then
    if roles.contains S_USER.value || roles.contains S_EVERYONE.value then .ok ()
    else if v.isMultiTenancyActive && roles.any (fun r => !isSystemRole r) then .ok ()
    else forbidden
  else .ok ()

/-- `canActivate` on the merged roles. -/
def RolesGuard.decide (v : Vocabulary) (roles : List String) (request : Request) :
    Except HttpException Unit :=
  if roles.contains S_NO_ONE.value then forbidden
  else if !named roles || roles.contains S_EVERYONE.value then .ok ()
  else RolesGuard.handleRequest v roles request.user

def RolesGuard.canActivate (v : Vocabulary) (handlerRoles classRoles : Option (List String))
    (request : Request) : Except HttpException Unit :=
  RolesGuard.decide v (mergeRolesMetadata handlerRoles classRoles) request

/-! ## `BetterAuthRolesGuard` -/

/-- `getTargetId(context)` -/
def getTargetId (request : Request) : Option TargetId := request.args.or request.params

/-- `canActivate` on the merged roles. -/
def BetterAuthRolesGuard.decide (v : Vocabulary) (roles : List String) (request : Request) :
    Except HttpException Unit :=
  let user := request.user
  if roles.contains S_NO_ONE.value then forbidden
  else if !named roles || roles.contains S_EVERYONE.value then .ok ()
  else if roles.contains S_USER.value then .ok ()
  else if v.isMultiTenancyActive && roles.any (fun r => !isSystemRole r) then .ok ()
  else if roles.contains S_SELF.value && getTargetId request = some (.text user.id) then .ok ()
  else if roles.contains S_VERIFIED.value then
    -- a mapped user has no `verifiedAt`
    if user.verified != some true && user.emailVerified != some true then forbidden else .ok ()
  else if user.hasRole roles then .ok ()
  else if roles.any (fun role => user.roles.contains role) then .ok ()
  else forbidden

def BetterAuthRolesGuard.canActivate (v : Vocabulary)
    (handlerRoles classRoles : Option (List String)) (request : Request) :
    Except HttpException Unit :=
  BetterAuthRolesGuard.decide v (mergeRolesMetadata handlerRoles classRoles) request

/-! ## Who is let in -/

section Decisions

variable (v : Vocabulary) (roles : List String) (request : Request)

/-- Is the request let in? -/
def Allows (outcome : Except HttpException Unit) : Prop := outcome = .ok ()

instance (outcome : Except HttpException Unit) : Decidable (Allows outcome) :=
  match outcome with
  | .ok ()   => isTrue rfl
  | .error _ => isFalse (by rintro ⟨⟩)

/-- The list lets every user in. -/
def opens : Bool :=
  roles.contains S_EVERYONE.value || roles.contains S_USER.value
    || (v.isMultiTenancyActive && roles.any fun r => !isSystemRole r)

/-- The user holds one of the roles. -/
def holdsOne : Bool := roles.any fun role => request.user.roles.contains role

/-- A list with `S_VERIFIED` asks for a verified user, any other for a role. -/
def verifiedOr (verified : Bool) : Bool :=
  if roles.contains S_VERIFIED.value then verified else holdsOne roles request

def isVerified : Bool := request.user.verified == some true

def isEmailVerified : Bool := request.user.emailVerified == some true

/-- The list has `S_SELF`, and the request names its own user. -/
def asksForSelf : Bool :=
  roles.contains S_SELF.value && getTargetId request = some (.text request.user.id)

/-- Both guards, up to who counts as verified and whether `S_SELF` counts. -/
def LetsIn (verified self : Bool) : Prop :=
  roles.contains S_NO_ONE.value = false ∧
    (named roles = false ∨ opens v roles = true ∨ self = true
      ∨ verifiedOr roles request verified = true)

variable {roles request}

/-- `hasRole`, where no system role decides before it. -/
theorem hasRole_eq (hE : roles.contains S_EVERYONE.value = false)
    (hU : roles.contains S_USER.value = false) (hN : roles.contains S_NO_ONE.value = false) :
    request.user.hasRole roles = verifiedOr roles request (isVerified request) := by
  rw [MappedUser.hasRole, createHasRole, hE, hU, hN]
  rfl

theorem hasRole_user (hU : roles.contains S_USER.value = true) :
    request.user.hasRole roles = true := by
  rw [MappedUser.hasRole, createHasRole, hU]
  split <;> rfl

variable (roles request)

theorem rolesGuard_iff :
    Allows (RolesGuard.decide v roles request) ↔
      LetsIn v roles request (isVerified request) false := by
  rw [RolesGuard.decide, RolesGuard.handleRequest, LetsIn, opens]
  cases hN : roles.contains S_NO_ONE.value with
  | true => simp [Allows, forbidden]
  | false =>
      cases hE : roles.contains S_EVERYONE.value with
      | true => simp [Allows]
      | false =>
          cases hU : roles.contains S_USER.value with
          | true => cases named roles <;> simp [Allows, hasRole_user hU]
          | false =>
              rw [hasRole_eq hE hU hN]
              -- the roles that the list names decide, or the pass-through
              cases named roles <;> cases verifiedOr roles request (isVerified request) <;>
                cases (v.isMultiTenancyActive && roles.any fun r => !isSystemRole r) <;>
                simp [Allows, forbidden]

theorem betterAuthGuard_iff :
    Allows (BetterAuthRolesGuard.decide v roles request) ↔
      LetsIn v roles request (isVerified request || isEmailVerified request)
        (asksForSelf roles request) := by
  have hself : (roles.contains S_SELF.value
      && decide (getTargetId request = some (.text request.user.id)))
        = asksForSelf roles request := rfl
  have hver : (request.user.verified != some true && request.user.emailVerified != some true)
      = !(isVerified request || isEmailVerified request) := by
    simp [isVerified, isEmailVerified, bne]
  have hone : (roles.any fun role => request.user.roles.contains role) = holdsOne roles request :=
    rfl
  rw [BetterAuthRolesGuard.decide, hself, hver, hone, LetsIn, opens]
  cases hN : roles.contains S_NO_ONE.value with
  | true => simp [Allows, forbidden]
  | false =>
      cases hE : roles.contains S_EVERYONE.value with
      | true => simp [Allows]
      | false =>
          cases hU : roles.contains S_USER.value with
          | true => cases named roles <;> simp [Allows]
          | false =>
              rw [hasRole_eq hE hU hN, verifiedOr, verifiedOr]
              cases roles.contains S_VERIFIED.value <;> cases named roles <;>
                cases asksForSelf roles request <;>
                cases (v.isMultiTenancyActive && roles.any fun r => !isSystemRole r) <;>
                cases holdsOne roles request <;>
                cases (isVerified request || isEmailVerified request) <;>
                simp [Allows, forbidden]

end Decisions

/-! ## Agreement and extension -/

section Lists

variable (v : Vocabulary) (request : Request)

/-- The guards agree on a list: it locks the handler or opens it, or the user has
    what `RolesGuard` asks for, or it is neither for itself nor verified by its
    session alone. -/
def AgreeOn (roles : List String) : Prop :=
  roles.contains S_NO_ONE.value = true ∨ named roles = false ∨ opens v roles = true
    ∨ verifiedOr roles request (isVerified request) = true
    ∨ (asksForSelf roles request = false
        ∧ (roles.contains S_VERIFIED.value && isEmailVerified request) = false)

/-- A role extends a list: the list is locked, or it names no role and the new
    one lets the user in, or the new one is not `S_VERIFIED`, or it makes no
    difference that `S_VERIFIED` counts alone. -/
def Extends (roles : List String) (r : String) (verified : Bool) (self : List String → Bool) :
    Prop :=
  roles.contains S_NO_ONE.value = true
    ∨ (named roles = false ∧ (JsText.truthy r = false ∨ opens v (r :: roles) = true
        ∨ self (r :: roles) = true ∨ verifiedOr (r :: roles) request verified = true))
    ∨ (named roles = true ∧ (r ≠ S_VERIFIED.value ∨ roles.contains S_VERIFIED.value = true
        ∨ opens v roles = true ∨ self roles = true ∨ verified = true
        ∨ holdsOne roles request = false))

variable {v request}

theorem letsIn_iff_agree (roles : List String) :
    (LetsIn v roles request (isVerified request) false ↔
      LetsIn v roles request (isVerified request || isEmailVerified request)
        (asksForSelf roles request)) ↔ AgreeOn v request roles := by
  rw [LetsIn, LetsIn, AgreeOn, verifiedOr, verifiedOr]
  cases roles.contains S_NO_ONE.value with
  | true => simp
  | false =>
      cases named roles <;> cases opens v roles <;> cases asksForSelf roles request <;>
        cases roles.contains S_VERIFIED.value <;> cases isVerified request <;>
        cases isEmailVerified request <;> cases holdsOne roles request <;> simp

/-- Where the new role stands makes no difference. -/
theorem letsIn_insert (before after : List String) (r : String) (verified : Bool)
    (self : Bool) : LetsIn v (before ++ r :: after) request verified self ↔
      LetsIn v (r :: (before ++ after)) request verified self := by
  have hperm : (before ++ r :: after).Perm (r :: (before ++ after)) := List.perm_middle
  have hany : ∀ p : String → Bool,
      (before ++ r :: after).any p = (r :: (before ++ after)).any p := fun p => hperm.any_eq
  have hcontains : ∀ x : String,
      (before ++ r :: after).contains x = (r :: (before ++ after)).contains x := fun x =>
    hperm.contains_eq
  simp only [LetsIn, named, opens, verifiedOr, holdsOne, hany, hcontains]

theorem letsIn_extends {roles : List String} {r : String} (hr : r ≠ S_NO_ONE.value)
    {verified : Bool} (self : List String → Bool) (hself : self roles = true →
      self (r :: roles) = true)
    (hver : r = S_VERIFIED.value → self (r :: roles) = self roles) :
    (LetsIn v roles request verified (self roles) →
      LetsIn v (r :: roles) request verified (self (r :: roles))) ↔
      Extends v request roles r verified self := by
  have hlock : (r :: roles).contains S_NO_ONE.value = roles.contains S_NO_ONE.value := by
    rw [List.contains_cons]
    simp [Ne.symm hr]
  have hname : named (r :: roles) = (JsText.truthy r || named roles) := rfl
  have hopens : opens v roles = true → opens v (r :: roles) = true := by
    intro h
    simp only [opens, Bool.or_eq_true, Bool.and_eq_true, List.any_eq_true,
      List.contains_iff_mem] at h ⊢
    rcases h with (hE | hU) | ⟨hmt, x, hx, hsys⟩
    · exact Or.inl (Or.inl (List.mem_cons_of_mem r hE))
    · exact Or.inl (Or.inr (List.mem_cons_of_mem r hU))
    · exact Or.inr ⟨hmt, x, List.mem_cons_of_mem r hx, hsys⟩
  rw [LetsIn, LetsIn, Extends, hlock]
  cases roles.contains S_NO_ONE.value with
  | true => simp
  | false =>
      cases hn : named roles with
      | false =>
          -- an empty list asks for nothing
          rw [hname, hn]
          simp
      | true =>
          rw [hname, hn]
          by_cases hv : r = S_VERIFIED.value
          · have hopens' : opens v (r :: roles) = opens v roles := by
              rw [hv, opens, opens, List.contains_cons, List.contains_cons, List.any_cons]
              rfl
            have hvs : (r :: roles).contains S_VERIFIED.value = true := by
              rw [hv]
              simp
            rw [hopens', hver hv, verifiedOr, verifiedOr, hvs]
            cases opens v roles <;> cases self roles <;> cases verified <;>
              cases roles.contains S_VERIFIED.value <;> cases holdsOne roles request <;> simp [hv]
          · refine iff_of_true ?_ (Or.inr (Or.inr ⟨rfl, Or.inl hv⟩))
            have hvs : (r :: roles).contains S_VERIFIED.value =
                roles.contains S_VERIFIED.value := by
              rw [List.contains_cons]
              simp [Ne.symm hv]
            have hone : holdsOne roles request = true → holdsOne (r :: roles) request = true := by
              intro h
              rw [holdsOne, List.any_cons, Bool.or_eq_true]
              exact Or.inr h
            rintro ⟨_, hnone | hopen | hs | hvo⟩
            · cases hnone
            · exact ⟨rfl, Or.inr (Or.inl (hopens hopen))⟩
            · exact ⟨rfl, Or.inr (Or.inr (Or.inl (hself hs)))⟩
            · refine ⟨rfl, Or.inr (Or.inr (Or.inr ?_))⟩
              rw [verifiedOr] at hvo ⊢
              rw [hvs]
              cases hc : roles.contains S_VERIFIED.value with
              | true =>
                  rw [hc] at hvo
                  exact hvo
              | false =>
                  rw [hc] at hvo
                  exact hone hvo

/-- **Both role guards, exactly**: the lists on which they agree, and the roles
    that extend the access of a list, in whichever place they are added. -/
theorem guards_agree_and_extend_iff (v : Vocabulary) (request : Request)
    (handlerRoles classRoles : Option (List String)) (before after : List String) (r : String)
    (hr : r ≠ S_NO_ONE.value) :
    ((Allows (RolesGuard.canActivate v handlerRoles classRoles request) ↔
        Allows (BetterAuthRolesGuard.canActivate v handlerRoles classRoles request)) ↔
      AgreeOn v request (mergeRolesMetadata handlerRoles classRoles)) ∧
    ((Allows (RolesGuard.decide v (before ++ after) request) →
        Allows (RolesGuard.decide v (before ++ r :: after) request)) ↔
      Extends v request (before ++ after) r (isVerified request) (fun _ => false)) ∧
    ((Allows (BetterAuthRolesGuard.decide v (before ++ after) request) →
        Allows (BetterAuthRolesGuard.decide v (before ++ r :: after) request)) ↔
      Extends v request (before ++ after) r (isVerified request || isEmailVerified request)
        (fun roles => asksForSelf roles request)) := by
  refine ⟨?_, ?_, ?_⟩
  · rw [RolesGuard.canActivate, BetterAuthRolesGuard.canActivate, rolesGuard_iff,
      betterAuthGuard_iff]
    exact letsIn_iff_agree _
  · rw [rolesGuard_iff, rolesGuard_iff, letsIn_insert]
    exact letsIn_extends hr (fun _ => false) (fun h => h) fun _ => rfl
  · have hself : asksForSelf (before ++ r :: after) request
        = asksForSelf (r :: (before ++ after)) request := by
      rw [asksForSelf, asksForSelf, List.perm_middle.contains_eq]
    rw [betterAuthGuard_iff, betterAuthGuard_iff, hself, letsIn_insert]
    refine letsIn_extends hr (fun roles => asksForSelf roles request) ?_ ?_
    · intro h
      rw [asksForSelf, Bool.and_eq_true] at h ⊢
      exact ⟨by rw [List.contains_cons, h.1, Bool.or_true], h.2⟩
    · rintro rfl
      rw [asksForSelf, asksForSelf, List.contains_cons]
      rfl

end Lists

def editorSession : SessionUser := { id := "s1", email := "editor@example.org" }

/-- An editor that is not verified, as the middleware maps it from its session. -/
def editor : MappedUser := createMappedUser editorSession "u1" ["editor"] (some false)

theorem editor_mapped :
    mapSessionUser {} .empty 0 editorSession
      (.ok (some { id := "u1", email := "editor@example.org", roles := some ["editor"] }))
      = some editor := by decide

/-- `S_VERIFIED` beside a role shuts its holders out, and `S_SELF` lets a user in
    through one of the guards alone. -/
theorem verified_shuts_out :
    (∃ p cache now sessionUser answer,
      mapSessionUser p cache now sessionUser answer = some editor) ∧
    Allows (RolesGuard.canActivate { multiTenancy := none } (some ["editor"]) none
      { user := editor }) ∧
    ¬ Allows (RolesGuard.canActivate { multiTenancy := none }
      (some ["editor", S_VERIFIED.value]) none { user := editor }) ∧
    ¬ Allows (BetterAuthRolesGuard.canActivate { multiTenancy := none }
      (some ["editor", S_VERIFIED.value]) none { user := editor }) ∧
    ¬ Allows (RolesGuard.canActivate { multiTenancy := none } (some [S_SELF.value]) none
      { user := editor, params := some (.text "u1") }) ∧
    Allows (BetterAuthRolesGuard.canActivate { multiTenancy := none } (some [S_SELF.value]) none
      { user := editor, params := some (.text "u1") }) :=
  ⟨⟨_, _, _, _, _, editor_mapped⟩, by decide, by decide, by decide, by decide, by decide⟩

/-- A further role beside the editor's. -/
theorem guards_agree_and_extend_admin :
    ((Allows (RolesGuard.canActivate { multiTenancy := none } (some ["editor"]) none
          { user := editor }) ↔
        Allows (BetterAuthRolesGuard.canActivate { multiTenancy := none } (some ["editor"]) none
          { user := editor })) ↔
      AgreeOn { multiTenancy := none } { user := editor } ["editor"]) ∧
    ((Allows (RolesGuard.decide { multiTenancy := none } ["editor"] { user := editor }) →
        Allows (RolesGuard.decide { multiTenancy := none } ["editor", "admin"]
          { user := editor })) ↔
      Extends { multiTenancy := none } { user := editor } ["editor"] "admin"
        (isVerified { user := editor }) (fun _ => false)) ∧
    ((Allows (BetterAuthRolesGuard.decide { multiTenancy := none } ["editor"] { user := editor }) →
        Allows (BetterAuthRolesGuard.decide { multiTenancy := none } ["editor", "admin"]
          { user := editor })) ↔
      Extends { multiTenancy := none } { user := editor } ["editor"] "admin"
        (isVerified { user := editor } || isEmailVerified { user := editor })
        (fun roles => asksForSelf roles { user := editor })) :=
  guards_agree_and_extend_iff { multiTenancy := none } { user := editor } (some ["editor"]) none
    ["editor"] [] "admin" (by decide)

end RoleGuards
