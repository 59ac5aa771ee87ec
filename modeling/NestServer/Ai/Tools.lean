import NestServer.Ai.Json

/-! # AI tools and who may use them

    The tool registry, the scoped policies of `core-ai-tool-policy.service.ts` and
    the stored grants of `core-ai-tool-grant.service.ts`. -/

namespace CoreAi

/-- `IAiTool` -/
structure AiTool where
  name        : String
  roles       : List String := []
  mutating    : Bool := false
  destructive : Bool := false
  /-- the tool has a check of its own -/
  authorize   : Bool := false
deriving DecidableEq, Repr

/-- `AiToolUser` -/
structure AiToolUser where
  id            : String
  roles         : List String := []
  verified      : Bool := false
  verifiedAt    : Bool := false
  emailVerified : Bool := false
deriving DecidableEq, Repr

/-- `LlmToolCall` -/
structure LlmToolCall where
  name      : String
  arguments : Json

/-! ## The registry -/

section Registry

open RoleEnum

def userCanAccess (tool : AiTool) (user : Option AiToolUser) : Bool :=
  if tool.roles.contains S_NO_ONE.value then false
  else if tool.roles.contains S_EVERYONE.value then true
  else
    match user with
    | none => false
    | some user =>
        if !JsText.truthy user.id then false
        else if user.roles.contains ADMIN.value then true
        else if tool.roles.contains S_USER.value then true
        else if tool.roles.contains S_VERIFIED.value
            && (user.verified || user.verifiedAt || user.emailVerified) then true
        else
          (tool.roles.filter fun r =>
              !([S_CREATOR, S_EVERYONE, S_NO_ONE, S_SELF, S_USER, S_VERIFIED].map value).contains
                r).any
            fun r => user.roles.contains r

def forUser (tools : List AiTool) (user : Option AiToolUser) : List AiTool :=
  tools.filter fun tool => userCanAccess tool user

/-- Tools that every mode keeps. -/
def alwaysAvailable : List String := ["ask_user_question", "search_tools"]

/-- The tools of a run: those of the user, and of the mode if it names any. -/
def permittedTools (tools : List AiTool) (user : Option AiToolUser) (allowedTools : List String) :
    List AiTool :=
  if allowedTools.isEmpty then forUser tools user
  else (forUser tools user).filter fun t =>
    allowedTools.contains t.name || alwaysAvailable.contains t.name

/-- `tools.find((t) => t.name === name)` -/
def findTool (tools : List AiTool) (name : String) : Option AiTool := tools.find? fun t =>
    t.name = name

theorem findTool_mem {tools : List AiTool} {name : String} {tool : AiTool}
    (h : findTool tools name = some tool) : tool ∈ tools ∧ tool.name = name := by
  have hname := List.find?_some h
  exact ⟨List.mem_of_find?_eq_some h, of_decide_eq_true hname⟩

end Registry

/-! ## Policies -/

structure PolicyRule where
  action   : String
  argument : String
  pattern  : String
  flags    : Option String := none
  reason   : Option String := none
deriving DecidableEq, Repr

/-- `CoreAiToolPolicy` -/
structure ToolPolicy where
  enabled : Option Bool := some true
  refId   : Option String := none
  rules   : List PolicyRule := []
  scope   : String
  tool    : String
deriving DecidableEq, Repr

inductive Decision where
  | allow | ask | deny
deriving DecidableEq, Repr

/-- `AiToolPolicyDecision` -/
structure AiToolPolicyDecision where
  decision : Decision
  reason   : Option String := none
deriving DecidableEq, Repr

/-- `AiToolPolicyEvalContext` -/
structure PolicyContext where
  roles    : List String := []
  tenantId : Option String := none
  userId   : Option String := none
deriving DecidableEq, Repr

/-- `re.test` for a pattern and its flags; `none` where `new RegExp` throws. -/
abbrev RegExp := String → String → Option (String → Bool)

section Policy

variable (regExp : RegExp)

/-- The scopes that a policy may have, with what it refers to. -/
def refCandidates (ctx : PolicyContext) : List (String × Option String) :=
  [("tool", none)] ++ ((ctx.userId.filter JsText.truthy).map fun id => ("user", some id)).toList
    ++ ((ctx.tenantId.filter JsText.truthy).map fun id => ("tenant", some id)).toList
    ++ ctx.roles.map fun r => ("role", some r)

/-- The query of `evaluate`. -/
def policiesFor (policies : List ToolPolicy) (tool : String) (ctx : PolicyContext) :
    List ToolPolicy :=
  policies.filter fun p =>
    (refCandidates ctx).any (fun c => p.scope = c.1 ∧ p.refId = c.2) && p.enabled != some false
      && p.tool = tool

/-- Whether a rule speaks of the arguments. -/
def ruleMatches (rule : PolicyRule) (args : Json) : Bool :=
  JsText.truthy rule.argument && JsText.truthy rule.pattern && JsText.truthy rule.action &&
    match Json.nonNull (args.member rule.argument) with
    | none       => false
    | some value =>
        match regExp rule.pattern (rule.flags.getD "") with
        | none    => false
        | some re => re value.text

/-- The rules that speak of the arguments, for one action. -/
def matching (policies : List ToolPolicy) (args : Json) (action : String) : List PolicyRule :=
  (policies.flatMap ToolPolicy.rules).filter fun r => ruleMatches regExp r args && r.action = action

/-- What the policies that were found decide: the last `deny`, else the first `ask`,
    else the first `allow`. -/
def decisionOf (policies : List ToolPolicy) (args : Json) : Option AiToolPolicyDecision :=
  ((matching regExp policies args "deny").getLast?.map fun r => ⟨.deny, r.reason⟩).or
    (((matching regExp policies args "ask").head?.map fun r => ⟨.ask, r.reason⟩).or
      ((matching regExp policies args "allow").head?.map fun r => ⟨.allow, r.reason⟩))

/-- `evaluate`, with the stored policies at hand. -/
def evaluate (policies : List ToolPolicy) (tool : String) (args : Json) (ctx : PolicyContext) :
    Option AiToolPolicyDecision :=
  if JsText.truthy tool then decisionOf regExp (policiesFor policies tool ctx) args else none

end Policy

/-! ## Grants -/

/-- `CoreAiToolGrant` -/
structure ToolGrant where
  decision  : Option String := some "allow"
  enabled   : Option Bool := some true
  expiresAt : Option Nat := none
  refId     : String
  scope     : String
  tool      : String
deriving DecidableEq, Repr

/-- The query of `findActiveGrant` for one scope. -/
def ToolGrant.active (g : ToolGrant) (tool scope refId : String) (now : Nat) : Bool :=
  g.expiresAt.all (fun t => now < t) && g.decision != some "deny" && g.enabled != some false
    && g.refId = refId && g.scope = scope && g.tool = tool

structure GrantScopes where
  conversationId : Option String := none
  tenantId       : Option String := none
  userId         : Option String := none
deriving DecidableEq, Repr

/-- The scopes in the order in which they are looked up. -/
def GrantScopes.candidates (s : GrantScopes) : List (String × String) :=
  ((s.conversationId.filter JsText.truthy).map fun id => ("conversation", id)).toList
    ++ ((s.userId.filter JsText.truthy).map fun id => ("user", id)).toList
    ++ ((s.tenantId.filter JsText.truthy).map fun id => ("tenant", id)).toList

end CoreAi
