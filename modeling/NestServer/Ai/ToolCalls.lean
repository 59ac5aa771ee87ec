import NestServer.Ai.Requests

/-! # Tool calls of an AI run

    The gates before a tool call of `core-ai.service.ts` and its execution: the
    scoped policies, the confirmation with the stored grants, the authorization of
    a plan, and the hooks around a tool. -/

namespace CoreAi

open Dialogue (orThrow)

/-- `arguments ?? {}` -/
def orEmpty (arguments : Json) : Json := if arguments.isNull then .obj [] else arguments

variable (s : CoreAiService) (input : CoreAiPromptInput) (run : AiRunContext)

/-! ## Policies -/

/-- The decision of the policies on a call with these arguments. -/
def decisionFor (tool : String) (args : Json) : Option AiToolPolicyDecision :=
  s.toolPolicyService.bind fun policies => evaluate s.regExp policies tool args (policyContext run)

structure PolicyOutcomes where
  asked  : List LlmToolCall := []
  denied : List (LlmToolCall × Option String) := []

/-- One call; without its policies it passes. -/
def evaluateToolPolicy (outcomes : PolicyOutcomes) (call : LlmToolCall) : Ai PolicyOutcomes :=
  if (findTool run.tools call.name).isNone || !JsText.truthy call.name then pure outcomes
  else do
    let found : Except String Unit ← await (.findPolicies call.name (orEmpty call.arguments))
    match found with
    | .error _ => pure outcomes
    | .ok _    =>
        match decisionFor s run call.name (orEmpty call.arguments) with
        | some ⟨.deny, reason⟩ =>
            pure { outcomes with denied := outcomes.denied ++ [(call, reason)] }
        | some ⟨.ask, _⟩       => pure { outcomes with asked := outcomes.asked ++ [call] }
        | _                    => pure outcomes

def evaluateToolPolicies (toolCalls : List LlmToolCall) : Ai PolicyOutcomes :=
  if s.toolPolicyService.isNone then pure {}
  else toolCalls.foldlM (evaluateToolPolicy s run) {}

/-- The action of a call that a policy denies. -/
def blockedByPolicy (denied : LlmToolCall × Option String) : CoreAiAction :=
  { toAction denied.1 with
    result := some (errorResult "BLOCKED_BY_POLICY"
      "A server-side scoped policy denies these arguments. Try a different approach or ask the user."
      ((denied.2.filter JsText.truthy).getD "Blocked by a server-side policy.")) }

/-! ## Confirmation -/

def confirmationRequiredFor (tool : AiTool) : Bool :=
  if tool.destructive then true
  else if !tool.mutating then false
  else if s.config.mutatingEnforced then true
  else input.requireConfirmation.getD s.config.mutatingDefault

/-- The first scope with an active grant; a failed lookup finds none. -/
def findGrantIn (tool : String) (now : Nat) : List (String × String) → Ai (Option String)
  | []                     => pure none
  | (scope, refId) :: rest => do
      let found : Except String (List ToolGrant) ← await (.findGrants tool scope refId now)
      match found with
      | .error _   => findGrantIn tool now rest
      | .ok grants =>
          if grants.any fun g => g.active tool scope refId now then pure (some scope)
          else findGrantIn tool now rest

def findActiveGrant (tool : String) (scopes : GrantScopes) : Ai (Option String) :=
  if !JsText.truthy tool || scopes.candidates.isEmpty then pure none
  else do
    let now : Nat ← await .now
    findGrantIn tool now scopes.candidates

/-- One blocked call; a destructive tool always confirms. -/
def filterByGrant (survivors : List LlmToolCall) (call : LlmToolCall) : Ai (List LlmToolCall) :=
  match findTool run.tools call.name with
  | none      => pure (survivors ++ [call])
  | some tool =>
      if tool.destructive then pure (survivors ++ [call])
      else do
        match ← findActiveGrant call.name (grantScopes input run) with
        | some _ => pure survivors
        | none   => pure (survivors ++ [call])

def filterByGrants (blocked : List LlmToolCall) : Ai (List LlmToolCall) :=
  if !s.toolGrantService || blocked.isEmpty then pure blocked
  else blocked.foldlM (filterByGrant input run) []

/-- The calls that a run without confirmation stops at. -/
def needingConfirmation (asked : List LlmToolCall) (toolCalls : List LlmToolCall) :
    List LlmToolCall :=
  toolCalls.filter fun c =>
    match findTool run.tools c.name with
    | none      => false
    | some tool =>
        ((asked.map LlmToolCall.name).contains c.name || confirmationRequiredFor s input tool)
          && !input.confirmed

/-- The action of a call that waits for confirmation. -/
def awaitingConfirmation (call : LlmToolCall) : CoreAiAction :=
  { toAction call with result := some (.obj [("requiresConfirmation", .bool true)]) }

/-- What `rememberDecision` refers to, if it names a scope. -/
def rememberedScope : Option (String × String) :=
  (input.rememberDecision.filter JsText.truthy).bind fun scope =>
    let refId :=
      if scope = "conversation" then input.conversationId
      else if scope = "tenant" then run.tenantId
      else run.userId
    if ["conversation", "tenant", "user"].contains scope then
      (refId.filter JsText.truthy).map fun id => (scope, id)
    else none

def persistToolGrantIfRequested (toolName : String) : Ai Unit :=
  match s.toolGrantService, findTool run.tools toolName, rememberedScope input run with
  | true, some tool, some (scope, refId) =>
      if !tool.mutating || tool.destructive || !JsText.truthy toolName then pure ()
      else do
        let _ ← await (.grant toolName scope refId)
        pure ()
  | _, _, _ => pure ()

/-! ## Authorization -/

def authorizeCall (call : LlmToolCall) : Ai AiToolAuthorization :=
  match findTool run.tools call.name with
  | none      =>
      pure { allowed := false, reason := some ("Unknown or not permitted tool: " ++ call.name) }
  | some tool =>
      if !tool.authorize then pure { allowed := true }
      else do
        let answer : Except String AiToolAuthorization ←
          await (.authorize tool (orEmpty call.arguments))
        orThrow answer

/-- The action of a call that is not allowed. -/
def deniedAction (call : LlmToolCall) (authz : AiToolAuthorization) : CoreAiAction :=
  { toAction call with result := some (Json.object [("reason", authz.reason.map Json.str)]) }

/-- One call of a plan. -/
def authorizePlanned (denied : List CoreAiAction) (call : LlmToolCall) : Ai (List CoreAiAction) :=
  do
  let authz ← authorizeCall run call
  pure (if authz.allowed then denied else denied ++ [deniedAction call authz])

def authorizePlan (planCalls : List LlmToolCall) : Ai (List CoreAiAction) :=
  planCalls.foldlM (authorizePlanned run) []

/-- The calls of a plan that need a confirmation. -/
def planNeedingConfirmation (planCalls : List LlmToolCall) : List LlmToolCall :=
  planCalls.filter fun c =>
    (findTool run.tools c.name).any fun tool => confirmationRequiredFor s input tool

/-! ## Hooks -/

/-- Each hook sees what the ones before it made of the call; an error of a hook is
    ignored. -/
def runPreToolUse : List AiHook → LlmToolCall → AiHookPreDecision → Ai AiHookPreDecision
  | [], _, merged              => pure merged
  | hook :: hooks, call, merged =>
      if !hook.preToolUse then runPreToolUse hooks call merged
      else do
        let answer : Except String (Option AiHookPreDecision) ← await (.preToolUse hook.name call)
        match answer with
        | .error _       => runPreToolUse hooks call merged
        | .ok none       => runPreToolUse hooks call merged
        | .ok (some decision) =>
            let call' := { call with arguments := decision.args.getD call.arguments }
            let merged' := { merged with args := decision.args.or merged.args }
            if decision.block then
              pure { merged' with
                block  := true
                reason := (decision.reason.filter JsText.truthy).or merged'.reason }
            else runPreToolUse hooks call' merged'

/-- The hooks that are told of something, one after the other. -/
def notifyHooks (event : HookEvent) (has : AiHook → Bool) (hooks : List AiHook) : Ai Unit :=
  (hooks.filter has).foldlM (fun _ hook => do
    let _ ← await (.notify hook.name event)
    pure ()) ()

/-! ## Execution -/

/-- What a returned value or an error makes of the action of a call. -/
def finishAction (action : CoreAiAction) : Except String ToolReturn → CoreAiAction
  | .ok (.value v) => { action with success := true, result := v }
  | .ok (.result true message data asksUser) =>
      { action with
        success  := true
        result   := some (((Json.nonNull data).or (message.map Json.str)).getD
          (Json.object [("success", some (.bool true)), ("data", data)]))
        asksUser := asksUser }
  | .ok (.result false message _ _) =>
      { action with
        success := false
        result  := some (errorResult "TOOL_FAILED"
          "Check the arguments and retry, or explain the issue to the user."
          ((message.filter JsText.truthy).getD "The tool reported a failure.")) }
  | .error e =>
      { action with
        success := false
        result  := some (errorResult "TOOL_EXCEPTION"
          "The tool threw an error. Re-check the arguments and retry if sensible, otherwise inform the user."
          e) }

/-- The tool itself, past the hooks that may stop it. -/
def execute (call : LlmToolCall) (tool : AiTool) (decision : AiHookPreDecision) : Ai CoreAiAction :=
  do
  let args := decision.args.getD call.arguments
  let returned : Except String ToolReturn ← await
    (.execute tool (orEmpty args) (orEmpty call.arguments))
  notifyHooks .postToolUse AiHook.postToolUse s.hookRegistry
  pure (finishAction { arguments := args, name := call.name } returned)

def executeToolCall (call : LlmToolCall) : Ai CoreAiAction :=
  match findTool run.tools call.name with
  | none      =>
      pure { toAction call with
        result := some (errorResult "TOOL_NOT_AVAILABLE"
          ("Only call tools from the listed available set; this one is unknown or not permitted "
            ++ "for the current user.")
          ("Unknown or not permitted tool: " ++ call.name)) }
  | some tool => do
      let decision ← runPreToolUse s.hookRegistry call {}
      if decision.block then
        pure { toAction call with
          result := some (errorResult "BLOCKED_BY_HOOK"
            "A lifecycle hook prevented this action. Choose a different approach or ask the user."
            ((decision.reason.filter JsText.truthy).getD "Blocked by a server-side policy hook.")) }
      else execute s call tool decision

/-- A question to the user that a tool has left in its result. -/
def extractAskUserQuestion (action : CoreAiAction) : Option PendingQuestion :=
  if action.name ≠ "ask_user_question" || !action.success || !action.asksUser then none
  else
    action.result.bind fun result =>
      -- the mark is on the data of the tool, not on what that data holds
      if (Json.nonNull (result.member "data")).isSome then none
      else
        let question := JsText.trim (((result.member "question").bind Json.asString).getD "")
        if JsText.truthy question then
          some {
            question := question
            options  := ((result.member "options").bind Json.asArray).map fun options =>
              options.filterMap fun o =>
                ((o.member "label").bind Json.asString).bind fun label =>
                  ((o.member "value").bind Json.asString).map fun value => (label, value) }
        else none

/-- The calls of an iteration in their order, up to a question to the user. -/
def executeToolCalls : List LlmToolCall → List CoreAiAction →
    Ai (List CoreAiAction × Option PendingQuestion)
  | [], actions            => pure (actions, none)
  | call :: calls, actions => do
      let action ← executeToolCall s run call
      match extractAskUserQuestion action with
      | some question => pure (actions ++ [action], some question)
      | none          => do
          if action.success && input.confirmed && (input.rememberDecision.any JsText.truthy) then
            persistToolGrantIfRequested s input run call.name
          executeToolCalls calls (actions ++ [action])

/-- The steps of a plan in their order. -/
def executePlan (planCalls : List LlmToolCall) : Ai (List CoreAiAction) :=
  planCalls.foldlM (fun actions call => do
    let action ← executeToolCall s run call
    pure (actions ++ [action])) []

end CoreAi
