import NestServer.Ai.Service

/-! # What each part of a run asks

    The kinds of questions, and for each part of a run the kinds that it asks:
    what a part does not ask, it cannot change. -/

namespace CoreAi

open Dialogue

inductive QueryKind where
  | store | mode | model | policy | grant | authorization | hook | tool | history | audit
deriving DecidableEq, Repr

def Query.kind : Query → QueryKind
  | .hit _               => .store
  | .findBudgetLimit _ _ => .store
  | .periodStart _       => .store
  | .findInteractions    => .store
  | .getMode _           => .mode
  | .loadRecentMessages _ => .store
  | .buildSystemPrompt   => .store
  | .buildPlanSystemPrompt => .store
  | .chat _ _            => .model
  | .findPolicies _ _    => .policy
  | .now                 => .grant
  | .findGrants _ _ _ _  => .grant
  | .grant _ _ _         => .grant
  | .authorize _ _       => .authorization
  | .preToolUse _ _      => .hook
  | .notify _ _          => .hook
  | .execute _ _ _       => .tool
  | .appendMessage _ _   => .history
  | .record _            => .audit

/-- Questions of the given kinds. -/
def Query.OneOf (kinds : List QueryKind) (q : Query) : Prop := q.kind ∈ kinds

theorem Query.OneOf.mono {kinds kinds' : List QueryKind} (h : kinds ⊆ kinds') (q : Query)
    (hq : q.OneOf kinds) : q.OneOf kinds' := h hq

theorem asks_await {kinds : List QueryKind} {E : Prop} {q : Query} (h : q.kind ∈ kinds) :
    (await q).Asks (Query.OneOf kinds) E := ⟨h, fun _ => trivial⟩

variable (s : CoreAiService) (input : CoreAiPromptInput) (run : AiRunContext)

theorem asks_evaluateToolPolicies (toolCalls : List LlmToolCall) :
    (evaluateToolPolicies s run toolCalls).Asks (Query.OneOf [.policy]) False := by
  rw [evaluateToolPolicies]
  split
  · trivial
  · refine asks_foldlM ?_ toolCalls ({} : PolicyOutcomes)
    intro outcomes call
    rw [evaluateToolPolicy]
    split
    · trivial
    · refine asks_bind (asks_await (List.mem_singleton.mpr rfl)) ?_
      intro found
      cases found with
      | error e => trivial
      | ok _ =>
          dsimp only
          split <;> trivial

theorem asks_findGrantIn (tool : String) (now : Nat) (candidates : List (String × String)) :
    (findGrantIn tool now candidates).Asks (Query.OneOf [.grant]) False := by
  induction candidates with
  | nil => trivial
  | cons c rest ih =>
      obtain ⟨scope, refId⟩ := c
      rw [findGrantIn]
      refine asks_bind (asks_await (List.mem_singleton.mpr rfl)) ?_
      intro found
      cases found with
      | error e => exact ih
      | ok grants =>
          dsimp only
          split
          · trivial
          · exact ih

theorem asks_findActiveGrant (tool : String) (scopes : GrantScopes) :
    (findActiveGrant tool scopes).Asks (Query.OneOf [.grant]) False := by
  rw [findActiveGrant]
  split
  · trivial
  · exact asks_bind (asks_await (List.mem_singleton.mpr rfl))
      (fun now => asks_findGrantIn tool now scopes.candidates)

theorem asks_filterByGrants (blocked : List LlmToolCall) :
    (filterByGrants s input run blocked).Asks (Query.OneOf [.grant]) False := by
  rw [filterByGrants]
  split
  · trivial
  · refine asks_foldlM ?_ blocked []
    intro survivors call
    rw [filterByGrant]
    split
    · trivial
    · split
      · trivial
      · refine asks_bind (asks_findActiveGrant _ _) ?_
        intro found
        cases found <;> trivial

theorem asks_persistToolGrantIfRequested (toolName : String) :
    (persistToolGrantIfRequested s input run toolName).Asks (Query.OneOf [.grant]) False := by
  rw [persistToolGrantIfRequested.eq_def]
  split
  · split
    · trivial
    · exact asks_bind (asks_await (List.mem_singleton.mpr rfl)) (fun _ => trivial)
  · trivial

theorem asks_runPreToolUse (hooks : List AiHook) (call : LlmToolCall) (merged : AiHookPreDecision) :
    (runPreToolUse hooks call merged).Asks (Query.OneOf [.hook]) False := by
  induction hooks generalizing call merged with
  | nil => trivial
  | cons hook hooks ih =>
      rw [runPreToolUse]
      split
      · exact ih call merged
      · refine asks_bind (asks_await (List.mem_singleton.mpr rfl)) ?_
        intro answer
        cases answer with
        | error e => exact ih call merged
        | ok decision =>
            cases decision with
            | none => exact ih call merged
            | some decision =>
                dsimp only
                split
                · trivial
                · exact ih _ _

theorem asks_notifyHooks (event : HookEvent) (has : AiHook → Bool) (hooks : List AiHook) :
    (notifyHooks event has hooks).Asks (Query.OneOf [.hook]) False := by
  refine asks_foldlM ?_ _ ()
  intro _ hook
  exact asks_bind (asks_await (List.mem_singleton.mpr rfl)) (fun _ => trivial)

/-- The kinds of questions while a tool call is executed. -/
def executionKinds : List QueryKind := [.hook, .tool]

theorem asks_execute (call : LlmToolCall) (tool : AiTool) (decision : AiHookPreDecision) :
    (execute s call tool decision).Asks (Query.OneOf executionKinds) False := by
  refine asks_bind (asks_await (List.mem_cons_of_mem _ (List.mem_singleton.mpr rfl))) ?_
  intro returned
  refine asks_bind ((asks_notifyHooks _ _ _).mono (Query.OneOf.mono ?_) id) (fun _ => trivial)
  exact List.cons_subset_cons _ (List.nil_subset _)

theorem asks_executeToolCall (call : LlmToolCall) :
    (executeToolCall s run call).Asks (Query.OneOf executionKinds) False := by
  rw [executeToolCall]
  split
  · trivial
  · refine asks_bind ((asks_runPreToolUse _ _ _).mono (Query.OneOf.mono ?_) id) ?_
    · exact List.cons_subset_cons _ (List.nil_subset _)
    · intro decision
      split
      · trivial
      · exact asks_execute s _ _ _

theorem asks_executePlan (calls : List LlmToolCall) :
    (executePlan s run calls).Asks (Query.OneOf executionKinds) False := by
  refine asks_foldlM ?_ calls []
  intro actions call
  exact asks_bind (asks_executeToolCall s run call) (fun _ => trivial)

/-- The kinds of questions while the tool calls of an iteration are executed. -/
def callKinds : List QueryKind := [.grant, .hook, .tool]

theorem asks_executeToolCalls (calls : List LlmToolCall) (actions : List CoreAiAction) :
    (executeToolCalls s input run calls actions).Asks (Query.OneOf callKinds) False := by
  induction calls generalizing actions with
  | nil => trivial
  | cons call calls ih =>
      rw [executeToolCalls]
      refine asks_bind ((asks_executeToolCall s run call).mono (Query.OneOf.mono ?_) id) ?_
      · exact List.subset_cons_self _ _
      · intro action
        split
        · trivial
        · split
          · refine asks_bind ((asks_persistToolGrantIfRequested s input run _).mono
              (Query.OneOf.mono ?_) id) (fun _ => ih _)
            exact List.cons_subset_cons _ (List.nil_subset _)
          · exact ih _

/-! ## Around a run -/

theorem asks_audit (record : AiInteractionRecord) :
    (audit s record).Asks (Query.OneOf [.audit]) False := by
  rw [audit]
  split
  · exact asks_bind (asks_await (List.mem_singleton.mpr rfl)) (fun _ => trivial)
  · trivial

theorem asks_appendMessage (id : String) (message : LlmMessage) :
    (appendMessage id message).Asks (Query.OneOf [.history]) True := by
  refine asks_bind (asks_await (List.mem_singleton.mpr rfl)) ?_
  intro answer
  cases answer <;> trivial

theorem asks_persistTurn (answered : Bool) (text : String) :
    (persistTurn s input answered text).Asks (Query.OneOf [.history]) True := by
  rw [persistTurn]
  split
  · split
    · exact asks_bind (asks_appendMessage _ _) (fun _ => asks_appendMessage _ _)
    · trivial
  · trivial

theorem asks_checkRateLimit (userId : Option String) :
    (checkRateLimit s userId).Asks (Query.OneOf [.store]) True := by
  rw [checkRateLimit]
  split
  · trivial
  · refine asks_bind (asks_await (List.mem_singleton.mpr rfl)) ?_
    intro answer
    cases answer with
    | error e => trivial
    | ok count =>
        show (if _ then _ else _ : Ai Unit).Asks _ _
        split <;> trivial

theorem asks_assertWithinScope (scope : String) (refId : Option String) :
    (assertWithinScope s scope refId).Asks (Query.OneOf [.store]) True := by
  rw [assertWithinScope]
  split
  · trivial
  · refine asks_bind (asks_await (List.mem_singleton.mpr rfl)) ?_
    intro override
    refine asks_bind ?_ ?_
    · cases override <;> trivial
    · intro limit
      dsimp only
      split
      · trivial
      · refine asks_bind (asks_await (List.mem_singleton.mpr rfl)) ?_
        intro start
        refine asks_bind (asks_await (List.mem_singleton.mpr rfl)) ?_
        intro found
        refine asks_bind ?_ ?_
        · cases found <;> trivial
        · intro interactions
          split <;> trivial

theorem asks_assertWithinBudget (userId tenantId : Option String) :
    (assertWithinBudget s userId tenantId).Asks (Query.OneOf [.store]) True := by
  rw [assertWithinBudget]
  split
  · trivial
  · exact asks_bind (asks_assertWithinScope s _ _) (fun _ => asks_assertWithinScope s _ _)

theorem asks_loadConversationHistory :
    (loadConversationHistory s input).Asks (Query.OneOf [.store]) True := by
  rw [loadConversationHistory]
  split
  · trivial
  · split
    · trivial
    · refine asks_bind (asks_await (List.mem_singleton.mpr rfl)) ?_
      intro answer
      cases answer <;> trivial

end CoreAi
