import NestServer.Ai.Messages
import NestServer.Ai.Tools
import NestServer.Dialogue

/-! # What an AI run awaits

    The service with its options, and everything outside of it that a run waits
    for: the model, the tools and their checks, the hooks, the stores.  All that
    comes from there is an answer, and may be anything. -/

namespace CoreAi

/-! ## The service -/

/-- `maxTokens` and `maxPrompts` of one scope. -/
structure BudgetDefaults where
  maxPrompts : Option Nat := none
  maxTokens  : Option Nat := none
deriving DecidableEq, Repr

/-- The options under `ai`. -/
structure AiConfig where
  audit              : Bool := false
  budgetUser         : BudgetDefaults := {}
  budgetTenant       : BudgetDefaults := {}
  budgetPeriod       : Option String := none
  compaction         : Option Bool := none
  /-- `confirmation.mutating` -/
  mutatingDefault    : Bool := false
  mutatingEnforced   : Bool := false
  contextWindow      : Option Nat := none
  defaultMode        : Option String := none
  maxIterations      : Option Nat := none
  maxToolResultChars : Option Nat := none
  /-- the limit of `rateLimit`, unless that is off -/
  rateLimit          : Option Nat := none
deriving DecidableEq, Repr

/-- `IAiHook`: which of its methods a hook has. -/
structure AiHook where
  name         : String
  preToolUse   : Bool := false
  postToolUse  : Bool := false
  sessionStart : Bool := false
  stop         : Bool := false
deriving DecidableEq, Repr

/-- `CoreAiService` with what it is constructed from; `JSON.parse` and `RegExp` are
    those of the language. -/
structure CoreAiService where
  config              : AiConfig := {}
  parse               : String → Option Json
  regExp              : RegExp
  toolRegistry        : List AiTool := []
  hookRegistry        : List AiHook := []
  /-- the stored policies, if there is a policy service -/
  toolPolicyService   : Option (List ToolPolicy) := none
  toolGrantService    : Bool := false
  conversationService : Bool := false
  interactionService  : Bool := false
  budgetService       : Bool := false
  modeService         : Bool := false

/-- `ResolvedAiConnection` -/
structure AiConnection where
  id               : String
  nativeTools      : Bool := false
  contextWindow    : Option Nat := none
  defaultMaxTokens : Option Nat := none
deriving DecidableEq, Repr

/-- `ServiceOptions` and the tenant of the request. -/
structure Caller where
  currentUser : Option AiToolUser := none
  language    : Option String := none
  tenantId    : Option String := none
deriving DecidableEq, Repr

structure CoreAiPromptInput where
  prompt              : String
  agentMode           : Option String := none
  confirm             : Option Bool := none
  context             : Option Json := none
  conversationId      : Option String := none
  metadata            : Option Json := none
  mode                : Option String := none
  rememberDecision    : Option String := none
  requireConfirmation : Option Bool := none

/-- `!!input.confirm` -/
def CoreAiPromptInput.confirmed (input : CoreAiPromptInput) : Bool := input.confirm == some true

/-- A turn of the conversation so far. -/
structure Turn where
  content : String
  role    : String
deriving DecidableEq, Repr

structure AiRunContext where
  connection  : AiConnection
  currentUser : Option AiToolUser := none
  history     : List Turn := []
  language    : Option String := none
  tenantId    : Option String := none
  tools       : List AiTool

def AiRunContext.userId (run : AiRunContext) : Option String := run.currentUser.map AiToolUser.id

/-- The scopes of the grants that count in a run. -/
def grantScopes (input : CoreAiPromptInput) (run : AiRunContext) : GrantScopes where
  conversationId := input.conversationId
  tenantId       := run.tenantId
  userId         := run.userId

def policyContext (run : AiRunContext) : PolicyContext where
  roles    := (run.currentUser.map AiToolUser.roles).getD []
  tenantId := run.tenantId
  userId   := run.userId

/-! ## Answers -/

/-- `LlmUsage` -/
structure LlmUsage where
  completionTokens : Option Nat := none
  promptTokens     : Option Nat := none
  totalTokens      : Option Nat := none
deriving DecidableEq, Repr

structure LlmResponse where
  text      : String
  toolCalls : Option (List LlmToolCall) := none
  usage     : Option LlmUsage := none

/-- The tokens that a response reports. -/
def LlmResponse.totalTokens (r : LlmResponse) : Nat := (r.usage.bind LlmUsage.totalTokens).getD 0

/-- The running totals of a run. -/
structure Usage where
  completionTokens : Nat := 0
  promptTokens     : Nat := 0
  totalTokens      : Nat := 0
deriving DecidableEq, Repr

def accumulateUsage (usage : Usage) (completion : LlmResponse) : Usage where
  completionTokens := usage.completionTokens + (completion.usage.bind
    LlmUsage.completionTokens).getD 0
  promptTokens     := usage.promptTokens + (completion.usage.bind LlmUsage.promptTokens).getD 0
  totalTokens      := usage.totalTokens + completion.totalTokens

@[simp] theorem accumulateUsage_totalTokens (usage : Usage) (completion : LlmResponse) :
    (accumulateUsage usage completion).totalTokens = usage.totalTokens + completion.totalTokens :=
      rfl

/-- `AiToolAuthorization` -/
structure AiToolAuthorization where
  allowed : Bool
  reason  : Option String := none
deriving DecidableEq, Repr

/-- `AiHookPreDecision` -/
structure AiHookPreDecision where
  args   : Option Json := none
  block  : Bool := false
  reason : Option String := none

/-- What `execute` returns: an `AiToolResult`, or anything else. -/
inductive ToolReturn where
  | value (v : Option Json)
  /-- `asksUser`: the data has the mark of the `ask_user_question` tool -/
  | result (success : Bool) (message : Option String) (data : Option Json) (asksUser : Bool)

/-- `AiInteractionRecord` -/
structure AiInteractionRecord where
  actions      : List (String × Bool)
  connectionId : String
  iterations   : Nat
  prompt       : String
  responseText : String
  tenantId     : Option String
  usage        : Usage
  userId       : Option String
deriving DecidableEq, Repr

/-- A document of `aiInteractions`. -/
structure CoreAiInteraction where
  createdAt   : Nat
  tenantId    : Option String
  totalTokens : Option Nat
  userId      : Option String
deriving DecidableEq, Repr

/-- A document of `aiBudgetLimits`. -/
structure CoreAiBudgetLimit where
  maxPrompts : Option Nat := none
  maxTokens  : Option Nat := none
  period     : Option String := none
deriving DecidableEq, Repr

/-- `CoreAiMode` -/
structure CoreAiMode where
  allowedTools : List String := []
  roles        : List String := []
deriving DecidableEq, Repr

/-- Where a provider is called. -/
inductive ChatSite where
  /-- in an iteration of the loop -/
  | step
  | plan
  /-- for the answer after a plan -/
  | final
  /-- to summarize old turns -/
  | summary
deriving DecidableEq, Repr

inductive HookEvent where
  | sessionStart | postToolUse | stop
deriving DecidableEq, Repr

/-- What a run awaits. -/
inductive Query where
  | hit (key : String)
  | findBudgetLimit (scope refId : String)
  | periodStart (period : String)
  | findInteractions
  | getMode (name : String)
  | loadRecentMessages (id : String)
  | buildSystemPrompt
  | buildPlanSystemPrompt
  | chat (site : ChatSite) (messages : List LlmMessage)
  | findPolicies (tool : String) (args : Json)
  | now
  | findGrants (tool scope refId : String) (now : Nat)
  | authorize (tool : AiTool) (args : Json)
  | preToolUse (hook : String) (call : LlmToolCall)
  /-- `execute(args)`, for a call with the arguments `asked` -/
  | execute (tool : AiTool) (args asked : Json)
  | notify (hook : String) (event : HookEvent)
  | grant (tool scope refId : String)
  | appendMessage (id : String) (message : LlmMessage)
  /-- an audit record is written; the answer is its time -/
  | record (record : AiInteractionRecord)

abbrev Answer : Query → Type
  | .hit _                   => Except String Nat
  | .findBudgetLimit _ _     => Except String (Option CoreAiBudgetLimit)
  | .periodStart _           => Nat
  | .findInteractions        => Except String (List CoreAiInteraction)
  | .getMode _               => Option CoreAiMode
  | .loadRecentMessages _    => Except String (List Turn)
  | .buildSystemPrompt       => Except String String
  | .buildPlanSystemPrompt   => Except String String
  | .chat _ _                => Except String LlmResponse
  | .findPolicies _ _        => Except String Unit
  | .now                     => Nat
  | .findGrants _ _ _ _      => Except String (List ToolGrant)
  | .authorize _ _           => Except String AiToolAuthorization
  | .preToolUse _ _          => Except String (Option AiHookPreDecision)
  | .execute _ _ _           => Except String ToolReturn
  | .notify _ _              => Except String Unit
  | .grant _ _ _             => Except String Unit
  | .appendMessage _ _       => Except String Unit
  | .record _                => Except String Nat

/-- A program of the service. -/
abbrev Ai := Dialogue Query Answer

abbrev await (q : Query) : Ai (Answer q) := Dialogue.query q

abbrev Exchange := Dialogue.Exchange Query Answer

abbrev History := Dialogue.History Query Answer

abbrev Environment := Dialogue.Environment Query Answer

/-! ## Results -/

structure CoreAiAction where
  arguments : Json
  name      : String
  result    : Option Json := none
  success   : Bool := false
  /-- the result has the mark of `ask_user_question` -/
  asksUser  : Bool := false

structure PendingQuestion where
  question : String
  options  : Option (List (String × String)) := none
deriving DecidableEq, Repr

structure CoreAiResponse where
  actions              : List CoreAiAction := []
  connectionId         : String
  conversationId       : Option String := none
  data                 : Option Json := none
  denied               : Bool := false
  deniedActions        : List CoreAiAction := []
  iterations           : Nat := 0
  pendingActions       : List CoreAiAction := []
  pendingQuestion      : Option PendingQuestion := none
  plan                 : List CoreAiAction := []
  requiresConfirmation : Bool := false
  text                 : String := ""
  usage                : Usage := {}

/-- `toAction` -/
def toAction (call : LlmToolCall) : CoreAiAction :=
  { arguments := call.arguments, name := call.name }

/-- An error that the model can act on. -/
def errorResult (code hint message : String) : Json :=
  .obj [("error", .obj [("code", .str code), ("hint", .str hint), ("message", .str message)])]

/-- `translate`; `actions` fills the one text that names them. -/
def translate (key : String) (language : Option String) (actions : String) : String :=
  let lang := JsText.toLowerCase (JsText.take ((language.filter JsText.truthy).getD "en") 2)
  let pick (de en : String) : String := if lang = "de" then de else en
  match key with
  | "ai_unavailable" =>
      pick "Es ist aktuell kein KI-Dienst verfügbar." "No AI service is currently available."
  | "blocked_by_policy" =>
      pick "Diese Aktion ist durch eine Richtlinie nicht erlaubt."
        "The requested action is not permitted by policy."
  | "confirm_required" =>
      pick "Bitte bestätige die Ausführung der angeforderten Aktion(en)."
        "Please confirm execution of the requested action(s)."
  | "budget_exceeded" =>
      pick "Dein KI-Kontingent für heute ist aufgebraucht. Bitte versuche es später erneut."
        "Your AI budget for today is exhausted. Please try again later."
  | "done" => pick "Erledigt." "Done."
  | "no_final_answer" =>
      pick ("Ich konnte innerhalb der erlaubten Anzahl an Schritten keine abschließende Antwort "
          ++ "erzeugen.")
        "I could not produce a final answer within the allowed number of steps."
  | "plan_denied" =>
      pick ("Du bist zu folgender/folgenden Aktion(en) nicht berechtigt: " ++ actions
          ++ ". Es wurde nichts ausgeführt.")
        ("You are not permitted to perform the following action(s): " ++ actions
          ++ ". Nothing was executed.")
  | key => key

end CoreAi
