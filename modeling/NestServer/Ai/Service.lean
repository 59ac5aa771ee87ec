import NestServer.Ai.ToolCalls

/-! # AI runs

    `prompt` of `core-ai.service.ts`: the loop of the auto mode, the plan mode, and
    what comes before and after them. -/

namespace CoreAi

open Dialogue (orThrow)

variable (s : CoreAiService) (input : CoreAiPromptInput) (run : AiRunContext)

/-! ## Messages -/

/-- `contextBudget(connection)` -/
def budgetOf (connection : AiConnection) : Nat :=
  contextBudget ((connection.contextWindow.or s.config.contextWindow).getD 8192)
    (connection.defaultMaxTokens.getD 2048)

def chat (site : ChatSite) (messages : List LlmMessage) : Ai LlmResponse := do
  let answer : Except String LlmResponse ← await (.chat site messages)
  orThrow answer

/-- The request for a summary of old turns. -/
def summaryRequest (oldBlock : List LlmMessage) : List LlmMessage :=
  [{ role    := .system
     content := "Summarize the following conversation excerpt for context-continuity. Keep facts (ids, names, decisions, file paths). Strict prose, max ~10 short lines, no markdown." },
    { role    := .user
      content := "\n".intercalate (oldBlock.map fun m =>
        (match m.role with
          | .assistant => "ASSISTANT"
          | .system    => "SYSTEM"
          | .user      => "USER") ++ ": " ++ m.content) }]

/-- The messages with all but the first and the last one replaced by their summary. -/
def compacted (messages : List LlmMessage) (summary : String) : List LlmMessage :=
  let oldBlock := (messages.drop 1).dropLast
  messages.take 1
    ++ [{ role    := .system
          content := "[Compacted summary of " ++ toString oldBlock.length ++ " earlier turn(s)]:\n"
            ++ summary }]
    ++ messages.getLast?.toList

/-- Too many tokens become a summary; where that fails, they stay for the hard trim. -/
def compactMessages (messages : List LlmMessage) : Ai (List LlmMessage) :=
  if s.config.compaction = some false || messages.length ≤ 3
      || totalTokens messages ≤ budgetOf s run.connection then
    pure messages
  else do
    let answer : Except String LlmResponse ←
      await (.chat .summary (summaryRequest (messages.drop 1).dropLast))
    match answer with
    | .error _  => pure messages
    | .ok reply =>
        let text := JsText.trim reply.text
        pure (if JsText.truthy text then compacted messages text else messages)

/-- The system prompt, the history, the context of the client and the prompt. -/
def openingMessages (systemPrompt : String) : List LlmMessage :=
  [{ role := .system, content := systemPrompt }]
    ++ run.history.map (fun turn =>
      { role := if turn.role = "assistant" then .assistant else .user, content := turn.content })
    ++ (input.context.map (untrusted "Structured client context")).toList
    ++ (input.metadata.map (untrusted "Client metadata")).toList
    ++ [{ role := .user, content := input.prompt }]

/-- The members of a call that a model has written. -/
def toToolCall (c : Json) : Option LlmToolCall :=
  ((c.member "name").bind Json.asString).map fun name =>
    { name := name, arguments := (Json.nonNull (c.member "arguments")).getD (.obj []) }

def extractToolCalls (text : String) : Option (List LlmToolCall) :=
  ((extractJsonObject s.parse text).bind fun parsed =>
    (parsed.member "tool_calls").bind Json.asArray).bind fun calls =>
      if calls.isEmpty then none else some (calls.filterMap toToolCall)

/-- The tool calls of a response; none are an answer. -/
def requestedCalls (completion : LlmResponse) : List LlmToolCall :=
  (if run.connection.nativeTools then completion.toolCalls
    else extractToolCalls s completion.text).getD []

def callJson (call : LlmToolCall) : Json :=
  .obj [("arguments", call.arguments), ("name", .str call.name)]

def toolResults (actions : List CoreAiAction) : LlmMessage where
  role    := .user
  content := "TOOL_RESULTS:\n" ++ capToolResults (s.config.maxToolResultChars.getD 12000)
    (Json.arr (actions.map fun a =>
      Json.object [("name", some (.str a.name)), ("result", a.result),
        ("success", some (.bool a.success))])).stringify

/-! ## Around a run -/

/-- The record is written if audits are on; a failed write is not an error. -/
def audit (record : AiInteractionRecord) : Ai Unit :=
  if s.config.audit && s.interactionService then do
    let _ ← await (.record record)
    pure ()
  else pure ()

def auditRecord (response : CoreAiResponse) : AiInteractionRecord where
  actions      := response.actions.map fun a => (a.name, a.success)
  connectionId := run.connection.id
  iterations   := response.iterations
  prompt       := input.prompt
  responseText := response.text
  tenantId     := run.tenantId
  usage        := response.usage
  userId       := run.userId

def appendMessage (id : String) (message : LlmMessage) : Ai Unit := do
  let answer : Except String Unit ← await (.appendMessage id message)
  orThrow answer

/-- `persistTurn`, where the user has been given an answer. -/
def persistTurn (answered : Bool) (text : String) : Ai Unit :=
  match input.conversationId.filter JsText.truthy with
  | some id =>
      if s.conversationService && answered then do
        appendMessage id { role := .user, content := input.prompt }
        appendMessage id { role := .assistant, content := text }
      else pure ()
  | none    => pure ()

def baseResponse : CoreAiResponse where
  connectionId   := run.connection.id
  conversationId := input.conversationId

/-! ## The auto mode -/

/-- The variables of `runAuto`. -/
structure AutoState where
  messages             : List LlmMessage
  actions              : List CoreAiAction := []
  pendingActions       : List CoreAiAction := []
  usage                : Usage := {}
  finalText            : String := ""
  finalData            : Option Json := none
  iterations           : Nat := 0
  nudgedForFinal       : Bool := false
  pendingQuestion      : Option PendingQuestion := none
  requiresConfirmation : Bool := false

/-- Whether the loop goes on. -/
abbrev Again := Bool

/-- The calls have passed the gates. -/
def runToolCalls (toolCalls : List LlmToolCall) (st : AutoState) : Ai (AutoState × Again) := do
  let request : LlmMessage :=
    { role    := .assistant
      content := (Json.obj [("tool_calls", .arr (toolCalls.map callJson))]).stringify }
  let (actions, question) ← executeToolCalls s input run toolCalls []
  match question with
  | some q => pure ({ st with
      messages        := st.messages ++ [request]
      actions         := st.actions ++ actions
      pendingQuestion := some q
      finalText       := q.question }, false)
  | none   => pure ({ st with
      messages := st.messages ++ [request, toolResults s actions]
      actions  := st.actions ++ actions }, true)

/-- The gates: first the policies, then the confirmation. -/
def handleToolCalls (toolCalls : List LlmToolCall) (st : AutoState) : Ai (AutoState × Again) := do
  let outcomes ← evaluateToolPolicies s run toolCalls
  if !outcomes.denied.isEmpty then
    pure ({ st with
      actions   := st.actions ++ outcomes.denied.map blockedByPolicy
      finalText := translate "blocked_by_policy" run.language "" }, false)
  else do
    let blocked ← filterByGrants s input run
      (needingConfirmation s input run outcomes.asked toolCalls)
    if !blocked.isEmpty then
      pure ({ st with
        pendingActions       := blocked.map awaitingConfirmation
        requiresConfirmation := true
        finalText            := translate "confirm_required" run.language "" }, false)
    else runToolCalls s input run toolCalls st

/-- A response without tool calls; `more` iterations are left. -/
def finalAnswer (more : Bool) (completion : LlmResponse) (st : AutoState) : AutoState × Again :=
  let parsed := extractJsonObject s.parse completion.text
  match (parsed.bind fun p => p.member "final").bind Json.asString with
  | some final =>
      ({ st with
        finalText := final
        finalData := Json.nonNull (parsed.bind fun p => p.member "data") }, false)
  | none       =>
      if parsed.any (fun p => p.has "tool_calls") && !st.nudgedForFinal && more then
        ({ st with
          nudgedForFinal := true
          messages       := st.messages ++
            [{ role := .assistant, content := completion.text },
              { role    := .user
                content := "You did not request any tool. Now reply with your final answer ONLY as \x7b\"final\":\"<your answer>\"\x7d." }] }, true)
      else
        ({ st with
          finalText :=
            if parsed.any (fun p => p.has "tool_calls" || p.has "final") then ""
            else completion.text }, false)

/-- One iteration. -/
def autoStep (more : Bool) (st : AutoState) : Ai (AutoState × Again) := do
  let messages ← compactMessages s run st.messages
  let messages := fitMessagesToContext (budgetOf s run.connection) messages
  let completion ← chat .step messages
  let st := { st with
    messages   := messages
    usage      := accumulateUsage st.usage completion
    iterations := st.iterations + 1 }
  let toolCalls := requestedCalls s run completion
  if toolCalls.isEmpty then pure (finalAnswer s more completion st)
  else handleToolCalls s input run toolCalls st

/-- `while (iterations < maxIterations)`, with the number of iterations left. -/
def autoLoop : Nat → AutoState → Ai AutoState
  | 0, st        => pure st
  | left + 1, st => do
      let (st, again) ← autoStep s input run (0 < left) st
      if again then autoLoop left st else pure st

def autoResponse (st : AutoState) : CoreAiResponse :=
  { baseResponse input run with
    actions              := st.actions
    data                 := st.finalData
    iterations           := st.iterations
    text                 :=
      if JsText.truthy st.finalText then st.finalText
      else translate "no_final_answer" run.language ""
    usage                := st.usage
    requiresConfirmation := st.requiresConfirmation
    pendingActions       := if st.requiresConfirmation then st.pendingActions else []
    pendingQuestion      := st.pendingQuestion }

def runAuto : Ai CoreAiResponse := do
  notifyHooks .sessionStart AiHook.sessionStart s.hookRegistry
  let answer : Except String String ← await .buildSystemPrompt
  let systemPrompt ← orThrow answer
  let st ← autoLoop s input run (s.config.maxIterations.getD 5)
    { messages := openingMessages input run systemPrompt }
  let response := autoResponse input run st
  persistTurn s input (!st.requiresConfirmation && st.pendingQuestion.isNone) response.text
  audit s (auditRecord input run response)
  notifyHooks .stop AiHook.stop s.hookRegistry
  pure response

/-! ## The plan mode -/

def planCalls (completion : LlmResponse) : List LlmToolCall :=
  (((extractJsonObject s.parse completion.text).bind fun parsed =>
    (parsed.member "plan").bind Json.asArray).getD []).filterMap toToolCall

/-- Nothing was executed, since a call is not allowed. -/
def planDenied (plan : List LlmToolCall) (denied : List CoreAiAction) (usage : Usage) :
    CoreAiResponse :=
  { baseResponse input run with
    denied        := true
    deniedActions := denied
    iterations    := 1
    plan          := plan.map toAction
    text          := translate "plan_denied" run.language
      (", ".intercalate (denied.map CoreAiAction.name))
    usage         := usage }

/-- Nothing was executed, since the user has not confirmed. -/
def planAwaiting (plan pending : List LlmToolCall) (usage : Usage) : CoreAiResponse :=
  { baseResponse input run with
    iterations           := 1
    pendingActions       := pending.map awaitingConfirmation
    plan                 := plan.map toAction
    requiresConfirmation := true
    text                 := translate "confirm_required" run.language ""
    usage                := usage }

def planText (planning completion : LlmResponse) : String :=
  match ((extractJsonObject s.parse completion.text).bind fun p => p.member "final").bind Json.asString with
  | some final => final
  | none       =>
      if JsText.truthy completion.text then completion.text
      else
        ((((extractJsonObject s.parse planning.text).bind fun p => p.member "summary").bind
          Json.asString).filter JsText.truthy).getD (translate "done" run.language "")

/-- The turn of the model that made the plan. -/
def planTurn (planning : LlmResponse) : LlmMessage where
  role    := .assistant
  content :=
    if JsText.truthy planning.text then planning.text
    else (Json.obj [("plan", .arr ((planCalls s planning).map callJson))]).stringify

/-- The answer after the steps of a plan. -/
def planResponse (planning : LlmResponse) (actions : List CoreAiAction) (completion : LlmResponse) :
    CoreAiResponse :=
  { baseResponse input run with
    actions    := actions
    data       := (extractJsonObject s.parse completion.text).bind fun p => p.member "data"
    iterations := 2
    plan       := (planCalls s planning).map toAction
    text       := planText s run planning completion
    usage      := accumulateUsage (accumulateUsage {} planning) completion }

/-- The steps of an allowed plan, and the answer. -/
def finishPlan (messages : List LlmMessage) (planning : LlmResponse) : Ai CoreAiResponse := do
  let actions ← executePlan s run (planCalls s planning)
  let completion ← chat .final (fitMessagesToContext (budgetOf s run.connection)
    (messages ++ [planTurn s planning, toolResults s actions]))
  persistTurn s input true (planResponse s input run planning actions completion).text
  audit s (auditRecord input run (planResponse s input run planning actions completion))
  pure (planResponse s input run planning actions completion)

/-- A plan whose calls have been authorized. -/
def settlePlan (messages : List LlmMessage) (planning : LlmResponse) (denied : List CoreAiAction) :
    Ai CoreAiResponse :=
  if !denied.isEmpty then do
    audit s (auditRecord input run
      (planDenied input run (planCalls s planning) denied (accumulateUsage {} planning)))
    pure (planDenied input run (planCalls s planning) denied (accumulateUsage {} planning))
  else if !(planNeedingConfirmation s input run (planCalls s planning)).isEmpty &&
    !input.confirmed then
    pure (planAwaiting input run (planCalls s planning)
      (planNeedingConfirmation s input run (planCalls s planning)) (accumulateUsage {} planning))
  else finishPlan s input run messages planning

/-- The messages of the planning call. -/
def planMessages (systemPrompt : String) : List LlmMessage :=
  fitMessagesToContext (budgetOf s run.connection) (openingMessages input run systemPrompt)

def runPlan : Ai CoreAiResponse := do
  let answer : Except String String ← await .buildPlanSystemPrompt
  let systemPrompt ← orThrow answer
  let planning ← chat .plan (planMessages s input run systemPrompt)
  let denied ← authorizePlan run (planCalls s planning)
  settlePlan s input run (planMessages s input run systemPrompt) planning denied

/-! ## Before a run -/

def checkRateLimit (userId : Option String) : Ai Unit :=
  match s.config.rateLimit with
  | none     => pure ()
  | some max => do
      let answer : Except String Nat ← await (.hit ((userId.filter JsText.truthy).getD "anonymous"))
      let count ← orThrow answer
      if max < count then .failed "AI_RATE_LIMITED" else pure ()

/-- `AiBudgetUsage` -/
structure AiBudgetUsage where
  usedPrompts : Nat
  usedTokens  : Nat
deriving DecidableEq, Repr

/-- The aggregation of `getUsage`. -/
def getUsage (interactions : List CoreAiInteraction) (scope refId : String) (periodStart : Nat) :
    AiBudgetUsage :=
  let found := interactions.filter fun i =>
    periodStart ≤ i.createdAt && (if scope = "user" then i.userId else i.tenantId) = some refId
  { usedPrompts := found.length, usedTokens := (found.map fun i => i.totalTokens.getD 0).sum }

/-- `override ?? default` for one scope. -/
def resolveLimit (scope : String) (override : Option CoreAiBudgetLimit) : CoreAiBudgetLimit :=
  let defaults := if scope = "tenant" then s.config.budgetTenant else s.config.budgetUser
  { maxPrompts := (override.bind CoreAiBudgetLimit.maxPrompts).or defaults.maxPrompts
    maxTokens  := (override.bind CoreAiBudgetLimit.maxTokens).or defaults.maxTokens
    period     := some ((((override.bind CoreAiBudgetLimit.period).filter JsText.truthy).or
      (s.config.budgetPeriod.filter JsText.truthy)).getD "day") }

def finite (value : Option Nat) : Bool := value.any fun n => 0 < n

def exceeded (usage : AiBudgetUsage) (limit : CoreAiBudgetLimit) : Bool :=
  (finite limit.maxTokens && limit.maxTokens.any fun n => n ≤ usage.usedTokens)
    || (finite limit.maxPrompts && limit.maxPrompts.any fun n => n ≤ usage.usedPrompts)

/-- `assertWithinBudget` for one scope. -/
def assertWithinScope (scope : String) (refId : Option String) : Ai Unit :=
  match refId.filter JsText.truthy with
  | none    => pure ()
  | some id => do
      let override : Except String (Option CoreAiBudgetLimit) ← await (.findBudgetLimit scope id)
      let override ← orThrow override
      let limit := resolveLimit s scope override
      if !finite limit.maxTokens && !finite limit.maxPrompts then pure ()
      else do
        let start : Nat ← await (.periodStart (limit.period.getD "day"))
        let found : Except String (List CoreAiInteraction) ← await .findInteractions
        let interactions ← orThrow found
        if exceeded (getUsage interactions scope id start) limit then .failed "AI_BUDGET_EXCEEDED"
        else pure ()

def assertWithinBudget (userId tenantId : Option String) : Ai Unit :=
  if !s.budgetService then pure ()
  else do
    assertWithinScope s "user" userId
    assertWithinScope s "tenant" tenantId

/-- The tools that a mode allows, for a user that may use it. -/
def allowedBy (user : Option AiToolUser) (mode : Option CoreAiMode) : List String :=
  (mode.filter fun m => m.roles.isEmpty ||
    m.roles.any fun r => ((user.map AiToolUser.roles).getD []).contains r).elim []
      CoreAiMode.allowedTools

/-- The tools that the named mode allows. -/
def modeTools (user : Option AiToolUser) : Ai (List String) :=
  match input.agentMode.filter JsText.truthy with
  | none      => pure []
  | some name =>
      if !s.modeService then pure []
      else do
        let mode : Option CoreAiMode ← await (.getMode name)
        pure (allowedBy user mode)

def loadConversationHistory : Ai (List Turn) :=
  match input.conversationId.filter JsText.truthy with
  | none    => pure []
  | some id =>
      if id = "null" || id = "undefined" || !s.conversationService then pure []
      else do
        let answer : Except String (List Turn) ← await (.loadRecentMessages id)
        orThrow answer

def prepareRun (caller : Caller) (connection : AiConnection) : Ai AiRunContext := do
  let userId := caller.currentUser.map AiToolUser.id
  checkRateLimit s userId
  assertWithinBudget s userId caller.tenantId
  let allowedTools ← modeTools s input caller.currentUser
  let history ← loadConversationHistory s input
  pure {
    connection  := connection
    currentUser := caller.currentUser
    history     := history
    language    := caller.language
    tenantId    := caller.tenantId
    tools       := permittedTools s.toolRegistry caller.currentUser allowedTools }

/-- `input.mode || ai.defaultMode || 'auto'` -/
def modeOf : String :=
  ((input.mode.filter JsText.truthy).or (s.config.defaultMode.filter JsText.truthy)).getD "auto"

def isPlanMode : Bool := modeOf s input = "plan"

def prompt (caller : Caller) (connection : AiConnection) : Ai CoreAiResponse := do
  let run ← prepareRun s input caller connection
  if isPlanMode s input then runPlan s input run else runAuto s input run

end CoreAi
