import NestServer.Ai.Gates

/-! # Runs keep to the gates

    From the gates of one iteration and of one plan to a whole `prompt`. -/

namespace CoreAi

open Dialogue

variable {s : CoreAiService} {input : CoreAiPromptInput} {run : AiRunContext}

/-! ## Policies -/

/-- The outcomes have what was decided on the calls whose policies were read. -/
def OutcomesCover (s : CoreAiService) (run : AiRunContext) (h : History)
    (outcomes : PolicyOutcomes) :
    Prop :=
  ∀ tool args, PoliciesRead h tool args → ∀ d ∈ decisionFor s run tool args,
    (d.decision = .deny → outcomes.denied ≠ []) ∧
      (d.decision = .ask → tool ∈ outcomes.asked.map LlmToolCall.name)

theorem policiesRead_append {h : History} {x : Exchange} (hx : x.1.isChat = false) {tool : String}
    {args : Json} (hread : PoliciesRead (h ++ [x]) tool args) :
    PoliciesRead h tool args ∨ x = ⟨.findPolicies tool args, .ok ()⟩ := by
  have hall : ∀ y ∈ [x], y.1.isChat = false := by
    intro y hy
    rw [List.mem_singleton.mp hy]
    exact hx
  rw [PoliciesRead, sinceChat_append hall] at hread
  rcases List.mem_append.mp hread with hnew | hold
  · exact Or.inr (List.mem_singleton.mp hnew).symm
  · exact Or.inl hold

theorem keeps_evaluateToolPolicy {h : History} {outcomes : PolicyOutcomes}
    (hcover : OutcomesCover s run h outcomes) (call : LlmToolCall) :
    Keeps s input run (evaluateToolPolicy s run outcomes call) (fun outcomes' h' =>
      Adds (Query.OneOf [.policy]) h h' ∧ OutcomesCover s run h' outcomes') h := by
  rw [evaluateToolPolicy]
  split
  · exact wp_pure ⟨Adds.refl h, hcover⟩
  · refine wp_bind (wp_query trivial fun found => ?_) (fun _ _ hR => hR)
    have hone : Adds (Query.OneOf [.policy]) h
        (h ++ [⟨.findPolicies call.name (orEmpty call.arguments), found⟩]) :=
      adds_one h (List.mem_singleton.mpr rfl)
    cases found with
    | error e =>
        refine wp_pure ⟨hone, fun tool args hread => ?_⟩
        rcases policiesRead_append rfl hread with hread | hx
        · exact hcover tool args hread
        · cases hx
    | ok u =>
        -- a read of this call, or one from before
        have hcases : ∀ tool args, PoliciesRead
            (h ++ [⟨.findPolicies call.name (orEmpty call.arguments), .ok u⟩]) tool args →
            PoliciesRead h tool args ∨ (tool = call.name ∧ args = orEmpty call.arguments) := by
          intro tool args hread
          refine (policiesRead_append rfl hread).imp_right ?_
          intro hx
          cases hx
          exact ⟨rfl, rfl⟩
        dsimp only
        split
        · rename_i reason hdecision
          refine wp_pure ⟨hone, fun tool args hread d hd => ?_⟩
          rcases hcases tool args hread with hread | ⟨rfl, rfl⟩
          · refine ⟨fun _ => List.append_ne_nil_of_right_ne_nil _ (List.cons_ne_nil _ _), ?_⟩
            exact (hcover tool args hread d hd).2
          · rw [hdecision] at hd
            obtain rfl := Option.some.inj hd
            exact ⟨fun _ => List.append_ne_nil_of_right_ne_nil _ (List.cons_ne_nil _ _), by
              rintro ⟨⟩⟩
        · rename_i reason hdecision
          refine wp_pure ⟨hone, fun tool args hread d hd => ?_⟩
          rw [List.map_append]
          rcases hcases tool args hread with hread | ⟨rfl, rfl⟩
          · obtain ⟨hdeny, hask⟩ := hcover tool args hread d hd
            exact ⟨hdeny, fun h => List.mem_append_left _ (hask h)⟩
          · rw [hdecision] at hd
            obtain rfl := Option.some.inj hd
            exact ⟨by rintro ⟨⟩, fun _ => List.mem_append_right _ (List.mem_singleton.mpr rfl)⟩
        · rename_i hnotDeny hnotAsk
          refine wp_pure ⟨hone, fun tool args hread d hd => ?_⟩
          rcases hcases tool args hread with hread | ⟨rfl, rfl⟩
          · exact hcover tool args hread d hd
          · obtain ⟨decision, reason⟩ := d
            refine ⟨?_, ?_⟩
            · rintro rfl
              exact absurd hd (hnotDeny reason)
            · rintro rfl
              exact absurd hd (hnotAsk reason)

theorem keeps_evaluateToolPolicies {h : History} (hnone : sinceChat h = [])
    (toolCalls : List LlmToolCall) :
    Keeps s input run (evaluateToolPolicies s run toolCalls) (fun outcomes h' =>
      Adds (Query.OneOf [.policy]) h h' ∧ OutcomesCover s run h' outcomes) h := by
  have hempty : OutcomesCover s run h {} := by
    intro tool args hread
    rw [PoliciesRead, hnone] at hread
    cases hread
  rw [evaluateToolPolicies]
  split
  · exact wp_pure ⟨Adds.refl h, hempty⟩
  · refine wp_foldlM (I := fun _ outcomes h' =>
      Adds (Query.OneOf [.policy]) h h' ∧ OutcomesCover s run h' outcomes) ?_ toolCalls _ h
      ⟨Adds.refl h, hempty⟩
    rintro call rest outcomes h' ⟨hadds, hcover⟩
    refine wp_mono ?_ (keeps_evaluateToolPolicy hcover call)
    rintro outcomes' h'' ⟨hadds', hcover'⟩
    exact ⟨hadds.trans hadds', hcover'⟩

/-! ## Execution -/

/-- A call is cleared now, and stays so while other calls are executed. -/
def Ready (s : CoreAiService) (input : CoreAiPromptInput) (run : AiRunContext) (h : History)
    (call : LlmToolCall) : Prop :=
  ∀ tool, findTool run.tools call.name = some tool → ∀ h', Adds (Query.OneOf callKinds) h h' →
    ClearedCall s input run h' tool (orEmpty call.arguments)

theorem Ready.adds {h h' : History} (hadds : Adds (Query.OneOf callKinds) h h') {call : LlmToolCall}
    (hready : Ready s input run h call) : Ready s input run h' call :=
  fun tool htool h'' hadds' => hready tool htool h'' (hadds.trans hadds')

theorem hooks_callKinds : [QueryKind.hook] ⊆ callKinds := by decide

theorem grants_callKinds : [QueryKind.grant] ⊆ callKinds := by decide

theorem keeps_execute {h : History} {call : LlmToolCall} {tool : AiTool}
    (hcleared : ClearedCall s input run h tool (orEmpty call.arguments))
    (decision : AiHookPreDecision) :
    Keeps s input run (execute s call tool decision)
      (fun _ h' => Adds (Query.OneOf callKinds) h h') h := by
  refine wp_bind (wp_query hcleared fun returned => ?_) (fun _ _ hR => hR)
  have hone : Adds (Query.OneOf callKinds) h (h ++ [⟨.execute tool
      (orEmpty (decision.args.getD call.arguments)) (orEmpty call.arguments), returned⟩]) :=
    adds_one h (show QueryKind.tool ∈ callKinds by decide)
  refine wp_bind (keeps_of_asks (by decide) (asks_notifyHooks _ _ _) _) ?_
  intro _ h' hadds
  refine wp_pure ?_
  exact hone.trans (hadds.mono (Query.OneOf.mono hooks_callKinds))

theorem keeps_executeToolCall {h : History} {call : LlmToolCall}
    (hready : Ready s input run h call) :
    Keeps s input run (executeToolCall s run call)
      (fun _ h' => Adds (Query.OneOf callKinds) h h') h := by
  rw [executeToolCall]
  split
  · exact wp_pure (Adds.refl h)
  · rename_i tool htool
    refine wp_bind (keeps_of_asks (by decide) (asks_runPreToolUse _ _ _) _) ?_
    intro decision h' hadds
    have hhooks := hadds.mono (Query.OneOf.mono hooks_callKinds)
    split
    · exact wp_pure hhooks
    · refine wp_mono ?_ (keeps_execute (hready tool htool h' hhooks) decision)
      intro _ h'' hadds'
      exact hhooks.trans hadds'

theorem keeps_executeToolCalls (calls : List LlmToolCall) (actions : List CoreAiAction)
    (h : History)
    (hready : ∀ c ∈ calls, Ready s input run h c) :
    Keeps s input run (executeToolCalls s input run calls actions)
      (fun _ h' => Adds (Query.OneOf callKinds) h h') h := by
  induction calls generalizing actions h with
  | nil => exact wp_pure (Adds.refl h)
  | cons call calls ih =>
      have hrest : ∀ h', Adds (Query.OneOf callKinds) h h' → ∀ c ∈ calls, Ready s input run h' c :=
        fun h' hadds c hc => (hready c (List.mem_cons_of_mem _ hc)).adds hadds
      rw [executeToolCalls]
      refine wp_bind (keeps_executeToolCall (hready call List.mem_cons_self)) ?_
      intro action h' hadds
      split
      · exact wp_pure hadds
      · split
        · refine wp_bind (keeps_of_asks (by decide) (asks_persistToolGrantIfRequested s input run _)
            _) ?_
          intro _ h'' hadds'
          have hall := hadds.trans (hadds'.mono (Query.OneOf.mono grants_callKinds))
          exact wp_mono (fun _ _ hlast => hall.trans hlast) (ih _ h'' (hrest h'' hall))
        · exact wp_mono (fun _ _ hlast => hadds.trans hlast) (ih _ h' (hrest h' hadds))

theorem keeps_executePlan (calls : List LlmToolCall) {h : History}
    (hready : ∀ c ∈ calls, Ready s input run h c) :
    Keeps s input run (executePlan s run calls)
      (fun _ h' => Adds (Query.OneOf callKinds) h h') h := by
  refine wp_mono (fun _ _ hI => hI.2) (wp_foldlM (I := fun rest _ h' =>
    (∀ c ∈ rest, Ready s input run h' c) ∧ Adds (Query.OneOf callKinds) h h') ?_ calls [] h
    ⟨hready, Adds.refl h⟩)
  rintro call rest actions h' ⟨hrest, hadds⟩
  refine wp_bind (keeps_executeToolCall (hrest call List.mem_cons_self)) ?_
  intro action h'' hadds'
  exact wp_pure ⟨fun c hc => (hrest c (List.mem_cons_of_mem _ hc)).adds hadds', hadds.trans hadds'⟩

/-! ## The auto mode -/

/-- No plan was made. -/
def Unplanned (h : History) : Prop := ∀ x ∈ h, ∀ messages, x.1 ≠ .chat .plan messages

theorem Unplanned.not_planned {h : History} (hno : Unplanned h) {completion : LlmResponse} :
    ¬ Planned h completion := by
  rintro ⟨messages, hmem⟩
  exact hno _ hmem messages rfl

theorem Unplanned.append {h : History} (hno : Unplanned h) {x : Exchange}
    (hx : ∀ messages, x.1 ≠ .chat .plan messages) : Unplanned (h ++ [x]) := by
  intro y hy
  rcases List.mem_append.mp hy with hy | hy
  · exact hno y hy
  · rw [List.mem_singleton.mp hy]
    exact hx

theorem Unplanned.adds {kinds : List QueryKind} (hkinds : QueryKind.model ∉ kinds) {h h' : History}
    (hadds : Adds (Query.OneOf kinds) h h') (hno : Unplanned h) : Unplanned h' := by
  intro x hx messages heq
  rcases hadds.mem_or hx with hold | hnew
  · exact hno x hold messages heq
  · rw [heq] at hnew
    exact hkinds hnew

theorem policiesRead_of_adds {kinds : List QueryKind} (hmodel : QueryKind.model ∉ kinds)
    (hpolicy : QueryKind.policy ∉ kinds) {h h' : History} (hadds : Adds (Query.OneOf kinds) h h')
    {tool : String} {args : Json} (hread : PoliciesRead h' tool args) :
      PoliciesRead h tool args := by
  rcases (sinceChat_adds hmodel hadds).mp hread with hold | hnew
  · exact hold
  · obtain ⟨xs, rfl, hxs⟩ := hadds
    rw [List.drop_left] at hnew
    exact absurd (hxs _ hnew) hpolicy

/-- Behind both gates every call is ready. -/
theorem ready_of_gates {h h₁ h₂ : History} {outcomes : PolicyOutcomes}
    {toolCalls : List LlmToolCall}
    (hno : Unplanned h) (hpolicies : Adds (Query.OneOf [.policy]) h h₁)
    (hcover : OutcomesCover s run h₁ outcomes) (hdenied : outcomes.denied = [])
    (hgrants : Adds (Query.OneOf [.grant]) h₁ h₂)
    (hblocked : ∀ c ∈ needingConfirmation s input run outcomes.asked toolCalls,
      GrantedCall input run h₂ c) :
    ∀ c ∈ toolCalls, Ready s input run h₂ c := by
  intro call hcall tool htool h' hadds
  have hname := (findTool_mem htool).2
  -- a call that needs a confirmation has it, or a grant
  have hgate : ((outcomes.asked.map LlmToolCall.name).contains call.name
      || confirmationRequiredFor s input tool) = true →
      input.confirmed = true ∨
        (tool.destructive = false ∧ granted input run h' tool.name = true) := by
    intro hneeds
    cases hconfirm : input.confirmed with
    | true => exact Or.inl rfl
    | false =>
        right
        have hmem : call ∈ needingConfirmation s input run outcomes.asked toolCalls := by
          refine List.mem_filter.mpr ⟨hcall, ?_⟩
          rw [htool]
          dsimp only
          rw [hneeds, hconfirm]
          rfl
        obtain ⟨tool', htool', hdestructive, hg⟩ := hblocked call hmem
        rw [htool] at htool'
        obtain rfl := Option.some.inj htool'
        rw [hname]
        exact ⟨hdestructive, granted_adds (by decide) hadds hg⟩
  refine ⟨(findTool_mem htool).1, ?_, ?_, ?_⟩
  · intro hrequired
    exact hgate (by rw [hrequired, Bool.or_true])
  · intro hread d hd
    have hread₂ := policiesRead_of_adds (by decide) (by decide) hadds hread
    have hread₁ := policiesRead_of_adds (by decide) (by decide) hgrants hread₂
    obtain ⟨hdeny, hask⟩ := hcover tool.name (orEmpty call.arguments) hread₁ d hd
    refine ⟨fun h => hdeny h hdenied, fun h => ?_⟩
    have hasked : (outcomes.asked.map LlmToolCall.name).contains call.name = true := by
      rw [← hname]
      exact List.contains_iff_mem.mpr (hask h)
    exact (hgate (by rw [hasked, Bool.true_or])).imp_right And.right
  · intro completion hplanned
    have hno' := ((hno.adds (by decide) hpolicies).adds (by decide) hgrants).adds (by decide) hadds
    exact absurd hplanned hno'.not_planned

theorem keeps_runToolCalls {h : History} (hno : Unplanned h) {toolCalls : List LlmToolCall}
    (hready : ∀ c ∈ toolCalls, Ready s input run h c) (st : AutoState) :
    Keeps s input run (runToolCalls s input run toolCalls st) (fun _ h' => Unplanned h') h := by
  refine wp_bind (keeps_executeToolCalls toolCalls [] h hready) ?_
  rintro ⟨actions, question⟩ h' hadds
  cases question with
  | some q => exact wp_pure (hno.adds (by decide) hadds)
  | none => exact wp_pure (hno.adds (by decide) hadds)

theorem keeps_handleToolCalls {h : History} (hno : Unplanned h) (hnone : sinceChat h = [])
    (toolCalls : List LlmToolCall) (st : AutoState) :
    Keeps s input run (handleToolCalls s input run toolCalls st) (fun _ h' => Unplanned h') h := by
  refine wp_bind (keeps_evaluateToolPolicies hnone toolCalls) ?_
  rintro outcomes h₁ ⟨hpolicies, hcover⟩
  have hno₁ := hno.adds (by decide) hpolicies
  split
  · exact wp_pure hno₁
  · rename_i hdenied
    refine wp_bind (keeps_filterByGrants _ h₁) ?_
    rintro survivors h₂ ⟨hgrants, hall⟩
    have hno₂ := hno₁.adds (by decide) hgrants
    split
    · exact wp_pure hno₂
    · rename_i hsurvivors
      -- nothing was denied, and no call is left over
      have hd : outcomes.denied = [] := by
        rw [Bool.not_eq_true, Bool.not_eq_false'] at hdenied
        exact List.isEmpty_iff.mp hdenied
      have hs : survivors = [] := by
        rw [Bool.not_eq_true, Bool.not_eq_false'] at hsurvivors
        exact List.isEmpty_iff.mp hsurvivors
      refine keeps_runToolCalls hno₂ (ready_of_gates hno hpolicies hcover hd hgrants ?_) st
      intro c hc
      refine (hall c hc).resolve_left ?_
      rw [hs]
      rintro ⟨⟩

theorem keeps_chat {site : ChatSite} {messages : List LlmMessage} {h : History}
    {R : LlmResponse → History → Prop}
    (hR : ∀ completion, R completion (h ++ [⟨.chat site messages, .ok completion⟩])) :
    Keeps s input run (chat site messages) R h := by
  refine wp_bind (wp_query trivial fun answer => ?_) (fun _ _ hw => hw)
  refine wp_orThrow ?_ (fun _ _ => trivial)
  rintro completion rfl
  exact hR completion

theorem keeps_compactMessages {h : History} (hno : Unplanned h) (messages : List LlmMessage) :
    Keeps s input run (compactMessages s run messages) (fun _ h' => Unplanned h') h := by
  rw [compactMessages]
  split
  · exact wp_pure hno
  · refine wp_bind (wp_query trivial fun answer => ?_) (fun _ _ hw => hw)
    have hno' : Unplanned (h ++ [⟨.chat .summary _, answer⟩]) :=
      hno.append (by rintro messages ⟨⟩)
    cases answer with
    | error e => exact wp_pure hno'
    | ok reply => exact wp_pure hno'

theorem keeps_autoStep {h : History} (hno : Unplanned h) (more : Bool) (st : AutoState) :
    Keeps s input run (autoStep s input run more st) (fun _ h' => Unplanned h') h := by
  refine wp_bind (keeps_compactMessages hno st.messages) ?_
  intro messages h₁ hno₁
  refine wp_bind (keeps_chat (R := fun _ h' => Unplanned h' ∧ sinceChat h' = []) ?_) ?_
  · intro completion
    exact ⟨hno₁.append (by rintro messages ⟨⟩), sinceChat_chat rfl⟩
  · rintro completion h₂ ⟨hno₂, hnone⟩
    dsimp only
    split
    · exact wp_pure hno₂
    · exact keeps_handleToolCalls hno₂ hnone _ _

theorem keeps_autoLoop (left : Nat) (st : AutoState) {h : History} (hno : Unplanned h) :
    Keeps s input run (autoLoop s input run left st) (fun _ h' => Unplanned h') h := by
  induction left generalizing st h with
  | zero => exact wp_pure hno
  | succ left ih =>
      refine wp_bind (keeps_autoStep hno _ st) ?_
      rintro ⟨st', again⟩ h' hno'
      dsimp only
      split
      · exact ih st' hno'
      · exact wp_pure hno'

theorem keeps_runAuto {h : History} (hno : Unplanned h) :
    Keeps s input run (runAuto s input run) (fun _ _ => True) h := by
  refine wp_bind (keeps_of_asks (by decide) (asks_notifyHooks _ _ _) h) ?_
  intro _ h₁ hhooks
  refine wp_bind (wp_query trivial fun answer => ?_) (fun _ _ hw => hw)
  refine wp_bind (wp_orThrow (R := fun _ h' => Unplanned h') (fun _ _ => ?_) (fun _ _ => trivial))
    ?_
  · exact (hno.adds (by decide) hhooks).append (by rintro messages ⟨⟩)
  · intro systemPrompt h₂ hno₂
    refine wp_bind (keeps_autoLoop _ _ hno₂) ?_
    intro st h₃ _
    refine wp_bind (keeps_of_asks (by decide) (asks_persistTurn s input _ _) h₃) ?_
    intro _ h₄ _
    refine wp_bind (keeps_of_asks (by decide) (asks_audit s _) h₄) ?_
    intro _ h₅ _
    exact wp_bind (keeps_of_asks (by decide) (asks_notifyHooks _ _ _) h₅) (fun _ _ _ =>
      wp_pure trivial)

/-! ## The plan mode -/

/-- No tool was asked whether it allows a call. -/
def Unauthorized (h : History) : Prop := ∀ x ∈ h, x.1.kind ≠ .authorization

/-- All tools that were asked allow their call. -/
def AllAllowed (h : History) : Prop :=
  ∀ tool args authz, (⟨.authorize tool args, .ok authz⟩ : Exchange) ∈ h → authz.allowed = true

/-- The tool of a call is permitted, and was asked if it has a check. -/
def Checked (run : AiRunContext) (h : History) (call : LlmToolCall) : Prop :=
  ∃ tool, findTool run.tools call.name = some tool ∧ (tool.authorize = true →
    ∃ authz, (⟨.authorize tool (orEmpty call.arguments), .ok authz⟩ : Exchange) ∈ h)

theorem Checked.mono {h h' : History} (hsub : ∀ x ∈ h, x ∈ h') {call : LlmToolCall}
    (hc : Checked run h call) : Checked run h' call := by
  obtain ⟨tool, htool, hasked⟩ := hc
  refine ⟨tool, htool, fun hauthorize => ?_⟩
  obtain ⟨authz, hmem⟩ := hasked hauthorize
  exact ⟨authz, hsub _ hmem⟩

theorem Unauthorized.allAllowed {h : History} (hno : Unauthorized h) : AllAllowed h :=
  fun _ _ _ hmem => absurd rfl (hno _ hmem)

theorem authorized_of_checked {h : History} {call : LlmToolCall} (hall : AllAllowed h)
    (hc : Checked run h call) : Authorized run h call := by
  obtain ⟨tool, htool, hasked⟩ := hc
  exact ⟨tool, htool, fun hauthorize => ⟨hasked hauthorize, fun authz => hall tool _ authz⟩⟩

theorem AllAllowed.append {h : History} (hall : AllAllowed h) {tool : AiTool} {args : Json}
    {authz : AiToolAuthorization} (hauthz : authz.allowed = true) :
    AllAllowed (h ++ [⟨.authorize tool args, .ok authz⟩]) := by
  intro tool' args' authz' hmem
  rcases List.mem_append.mp hmem with hold | hnew
  · exact hall tool' args' authz' hold
  · cases List.mem_singleton.mp hnew
    exact hauthz

/-- An allowed call leaves a history in which all is allowed. -/
theorem keeps_authorizeCall (call : LlmToolCall) (h : History) :
    Keeps s input run (authorizeCall run call) (fun authz h' =>
      Adds (Query.OneOf [.authorization]) h h' ∧
        (authz.allowed = true → (AllAllowed h → AllAllowed h') ∧ Checked run h' call)) h := by
  rw [authorizeCall]
  split
  · exact wp_pure ⟨Adds.refl h, by rintro ⟨⟩⟩
  · rename_i tool htool
    split
    · rename_i hnone
      refine wp_pure ⟨Adds.refl h, fun _ => ⟨id, tool, htool, fun hauthorize => ?_⟩⟩
      rw [hauthorize] at hnone
      cases hnone
    · refine wp_bind (wp_query trivial fun answer => ?_) (fun _ _ hw => hw)
      refine wp_orThrow ?_ (fun _ _ => trivial)
      rintro authz rfl
      refine ⟨adds_one h (List.mem_singleton.mpr rfl), fun hauthz =>
        ⟨fun hall => hall.append hauthz, ?_⟩⟩
      exact ⟨tool, htool, fun _ => ⟨authz, List.mem_append_right _ (List.mem_singleton.mpr rfl)⟩⟩

theorem keeps_authorizePlan (plan : List LlmToolCall) {h : History} (hall : AllAllowed h) :
    Keeps s input run (authorizePlan run plan) (fun denied h' =>
      Adds (Query.OneOf [.authorization]) h h' ∧
        (denied = [] → AllAllowed h' ∧ ∀ c ∈ plan, Authorized run h' c)) h := by
  -- the invariant: as long as nothing is denied, what has been passed is checked
  refine wp_mono ?_ (wp_foldlM (I := fun rest denied h' =>
    Adds (Query.OneOf [.authorization]) h h' ∧
      (denied = [] → AllAllowed h' ∧ ∀ c ∈ plan, c ∈ rest ∨ Checked run h' c)) ?_ plan [] h
    ⟨Adds.refl h, fun _ => ⟨hall, fun c hc => Or.inl hc⟩⟩)
  · rintro denied h' ⟨hadds, hchecked⟩
    refine ⟨hadds, fun hd => ⟨(hchecked hd).1, fun c hc => ?_⟩⟩
    refine authorized_of_checked (hchecked hd).1 (((hchecked hd).2 c hc).resolve_left ?_)
    rintro ⟨⟩
  · rintro call rest denied h' ⟨hadds, hchecked⟩
    refine wp_bind (keeps_authorizeCall call h') ?_
    rintro authz h'' ⟨hadds', hallowed⟩
    refine wp_pure ⟨hadds.trans hadds', fun hd => ?_⟩
    cases hauthz : authz.allowed with
    | false =>
        rw [hauthz, if_neg Bool.false_ne_true] at hd
        exact absurd hd (List.append_ne_nil_of_right_ne_nil _ (List.cons_ne_nil _ _))
    | true =>
        rw [hauthz, if_pos rfl] at hd
        obtain ⟨hkeep, hcall⟩ := hallowed hauthz
        obtain ⟨hall', hrest⟩ := hchecked hd
        refine ⟨hkeep hall', fun c hc => ?_⟩
        rcases hrest c hc with hmem | hmem
        · rcases List.mem_cons.mp hmem with rfl | hmem
          · exact Or.inr hcall
          · exact Or.inl hmem
        · exact Or.inr (hmem.mono fun _ => hadds'.mem)

/-- Kinds of questions that ask no tool for its permission. -/
theorem Authorized.adds {kinds : List QueryKind} (hkinds : QueryKind.authorization ∉ kinds)
    {h h' : History} (hadds : Adds (Query.OneOf kinds) h h') {call : LlmToolCall}
    (hc : Authorized run h call) : Authorized run h' call := by
  obtain ⟨tool, htool, hauthorized⟩ := hc
  refine ⟨tool, htool, fun hauthorize => ?_⟩
  obtain ⟨⟨authz, hmem⟩, hall⟩ := hauthorized hauthorize
  refine ⟨⟨authz, hadds.mem hmem⟩, fun authz' hmem' => ?_⟩
  rcases hadds.mem_or hmem' with hold | hnew
  · exact hall authz' hold
  · exact absurd hnew hkinds

/-- Behind the authorization and the confirmation every step of a plan is ready. -/
theorem ready_of_plan {h h₁ h₂ : History} {messages : List LlmMessage} {planning : LlmResponse}
    (hno : Unplanned h) (hh₁ : h₁ = h ++ [⟨.chat .plan messages, .ok planning⟩])
    (hadds : Adds (Query.OneOf [.authorization]) h₁ h₂)
    (hauthorized : ∀ c ∈ planCalls s planning, Authorized run h₂ c)
    (hconfirm : planNeedingConfirmation s input run (planCalls s planning) ≠ [] →
      input.confirmed = true) :
    ∀ c ∈ planCalls s planning, Ready s input run h₂ c := by
  intro call hcall tool htool h' hadds'
  refine ⟨(findTool_mem htool).1, ?_, ?_, ?_⟩
  · intro hrequired
    refine Or.inl (hconfirm (List.ne_nil_of_mem (a := call) (List.mem_filter.mpr ⟨hcall, ?_⟩)))
    rw [htool]
    exact hrequired
  · intro hread
    have hread₂ := policiesRead_of_adds (by decide) (by decide) hadds' hread
    have hread₁ := policiesRead_of_adds (by decide) (by decide) hadds hread₂
    rw [hh₁, PoliciesRead, sinceChat_chat rfl] at hread₁
    cases hread₁
  · rintro completion ⟨messages', hmem⟩ c hc
    -- it is the plan of this run
    have hmem₁ : (⟨.chat .plan messages', .ok completion⟩ : Exchange) ∈ h₁ := by
      rcases hadds'.mem_or hmem with hmem | hkind
      · rcases hadds.mem_or hmem with hmem | hkind
        · exact hmem
        · cases List.mem_singleton.mp hkind
      · exact absurd hkind (show QueryKind.model ∉ callKinds by decide)
    rw [hh₁] at hmem₁
    rcases List.mem_append.mp hmem₁ with hold | hnew
    · exact absurd rfl (hno _ hold messages')
    · cases List.mem_singleton.mp hnew
      exact (hauthorized c hc).adds (by decide) hadds'

theorem keeps_finishPlan {h : History} {messages : List LlmMessage} {planning : LlmResponse}
    (hready : ∀ c ∈ planCalls s planning, Ready s input run h c) :
    Keeps s input run (finishPlan s input run messages planning) (fun _ _ => True) h := by
  refine wp_bind (keeps_executePlan _ hready) ?_
  intro actions h₁ _
  refine wp_bind (keeps_chat (R := fun _ _ => True) (fun _ => trivial)) ?_
  intro completion h₂ _
  refine wp_bind (keeps_of_asks (by decide) (asks_persistTurn s input _ _) h₂) ?_
  intro _ h₃ _
  exact wp_bind (keeps_of_asks (by decide) (asks_audit s _) h₃) (fun _ _ _ => wp_pure trivial)

theorem keeps_settlePlan {h : History} {messages : List LlmMessage} {planning : LlmResponse}
    {denied : List CoreAiAction}
    (hready : denied = [] → (planNeedingConfirmation s input run (planCalls s planning) ≠ [] →
      input.confirmed = true) → ∀ c ∈ planCalls s planning, Ready s input run h c) :
    Keeps s input run (settlePlan s input run messages planning denied) (fun _ _ => True) h := by
  rw [settlePlan]
  split
  · exact wp_bind (keeps_of_asks (by decide) (asks_audit s _) h) (fun _ _ _ => wp_pure trivial)
  · rename_i hdenied
    split
    · exact wp_pure trivial
    · rename_i hgate
      rw [Bool.not_eq_true, Bool.not_eq_false'] at hdenied
      refine keeps_finishPlan (hready (List.isEmpty_iff.mp hdenied) ?_)
      -- the gate is open: nothing to confirm, or confirmed
      intro hpending
      rw [Bool.and_eq_true, not_and, Bool.not_eq_true, Bool.not_eq_false'] at hgate
      refine hgate ?_
      rw [Bool.not_eq_true', Bool.eq_false_iff]
      exact fun h => hpending (List.isEmpty_iff.mp h)

theorem keeps_runPlan {h : History} (hno : Unplanned h) (hunauthorized : Unauthorized h) :
    Keeps s input run (runPlan s input run) (fun _ _ => True) h := by
  refine wp_bind (wp_query trivial fun answer => ?_) (fun _ _ hw => hw)
  have hno' : Unplanned (h ++ [⟨.buildPlanSystemPrompt, answer⟩]) :=
    hno.append (by rintro messages ⟨⟩)
  have hallowed : AllAllowed (h ++ [⟨.buildPlanSystemPrompt, answer⟩]) := by
    intro tool args authz hmem
    rcases List.mem_append.mp hmem with hold | hnew
    · exact hunauthorized.allAllowed tool args authz hold
    · cases List.mem_singleton.mp hnew
  refine wp_bind (wp_orThrow (R := fun _ h' => Unplanned h' ∧ AllAllowed h')
    (fun _ _ => ⟨hno', hallowed⟩) (fun _ _ => trivial)) ?_
  rintro systemPrompt h₀ ⟨hno₀, hallowed₀⟩
  refine wp_bind (keeps_chat (R := fun planning h' =>
    h' = h₀ ++ [⟨.chat .plan (planMessages s input run systemPrompt), .ok planning⟩])
    (fun _ => rfl)) ?_
  intro planning h₁ hh₁
  have hallowed₁ : AllAllowed h₁ := by
    intro tool args authz hmem
    rw [hh₁] at hmem
    rcases List.mem_append.mp hmem with hold | hnew
    · exact hallowed₀ tool args authz hold
    · cases List.mem_singleton.mp hnew
  refine wp_bind (keeps_authorizePlan (planCalls s planning) hallowed₁) ?_
  rintro denied h₂ ⟨hadds, hauthorized⟩
  refine keeps_settlePlan fun hd hconfirm => ?_
  exact ready_of_plan hno₀ hh₁ hadds (hauthorized hd).2 hconfirm

/-! ## Before a run -/

/-- The mode that was read. -/
def modeAnswer : Exchange → Option (Option CoreAiMode)
  | ⟨.getMode _, mode⟩ => some mode
  | _                  => none

variable (s input) (caller : Caller) (connection : AiConnection)

/-- The tools that the mode of a run allows, as it was read. -/
def allowedTools (h : History) : List String :=
  match input.agentMode.filter JsText.truthy with
  | none   => []
  | some _ =>
      if !s.modeService then []
      else allowedBy caller.currentUser ((h.findSome? modeAnswer).getD none)

/-- The run that goes on from a history, but for the conversation before it. -/
def runAt (h : History) : AiRunContext where
  connection  := connection
  currentUser := caller.currentUser
  language    := caller.language
  tenantId    := caller.tenantId
  tools       := permittedTools s.toolRegistry caller.currentUser (allowedTools s input caller h)

variable {s input}

/-- The kinds of questions before a run. -/
def preparationKinds : List QueryKind := [.store, .mode]

theorem unplanned_of_preparation {h : History} (hadds : Adds (Query.OneOf preparationKinds) [] h) :
    Unplanned h := by
  intro x hx messages heq
  rcases hadds.mem_or hx with hnone | hkind
  · cases hnone
  · rw [heq] at hkind
    exact absurd hkind (show QueryKind.model ∉ preparationKinds by decide)

theorem unauthorized_of_preparation {h : History}
    (hadds : Adds (Query.OneOf preparationKinds) [] h) : Unauthorized h := by
  intro x hx hauthorization
  rcases hadds.mem_or hx with hnone | hkind
  · cases hnone
  · rw [Query.OneOf, hauthorization] at hkind
    exact absurd hkind (by decide)

theorem modeAnswer_of_kind {x : Exchange} (hx : x.1.OneOf [.store]) : modeAnswer x = none := by
  obtain ⟨q, answer⟩ := x
  cases q with
  | getMode name => exact absurd hx (show QueryKind.mode ∉ [QueryKind.store] by decide)
  | _ => rfl

theorem findSome?_modeAnswer {h : History} (hadds : Adds (Query.OneOf [.store]) [] h) :
    h.findSome? modeAnswer = none := by
  rw [List.findSome?_eq_none_iff]
  intro x hx
  rcases hadds.mem_or hx with hnone | hkind
  · cases hnone
  · exact modeAnswer_of_kind hkind

section Prepare

variable {G : History → Query → Prop}
  (hG : ∀ (h : History) (q : Query), q.OneOf preparationKinds → G h q)

include hG

/-- The tools of the mode, in this history and in all that go on from it. -/
theorem wp_modeTools {h : History} (hstore : Adds (Query.OneOf [.store]) [] h) :
    wp G (fun _ => True) (modeTools s input caller.currentUser) (fun allowed h' =>
      Adds (Query.OneOf preparationKinds) h h' ∧
        ∀ h'', h' <+: h'' → allowedTools s input caller h'' = allowed) h := by
  rw [modeTools]
  split
  · rename_i hmode
    refine wp_pure ⟨Adds.refl h, fun h'' _ => ?_⟩
    rw [allowedTools, hmode]
  · rename_i name hmode
    split
    · rename_i hservice
      refine wp_pure ⟨Adds.refl h, fun h'' _ => ?_⟩
      rw [allowedTools, hmode]
      dsimp only
      rw [if_pos hservice]
    · rename_i hservice
      have hone : ∀ mode, Adds (Query.OneOf preparationKinds) h (h ++ [⟨.getMode name, mode⟩]) :=
        fun mode => adds_one h (show QueryKind.mode ∈ preparationKinds by decide)
      refine wp_bind (wp_query (hG h _ (show QueryKind.mode ∈ preparationKinds by decide))
        fun mode => ?_) (fun _ _ hw => hw)
      refine wp_pure ⟨hone mode, ?_⟩
      rintro h'' ⟨rest, rfl⟩
      rw [allowedTools, hmode]
      dsimp only
      rw [if_neg hservice, List.append_assoc, List.findSome?_append, findSome?_modeAnswer hstore,
        Option.none_or]
      rfl

theorem wp_prepareRun :
    wp G (fun _ => True) (prepareRun s input caller connection) (fun run h' =>
      Adds (Query.OneOf preparationKinds) [] h' ∧ ∀ h'', h' <+: h'' →
        run = { runAt s input caller connection h'' with history := run.history }) [] := by
  have hstore : ∀ (h : History) (q : Query), q.OneOf [.store] → G h q :=
    fun h q hq => hG h q (Query.OneOf.mono (by decide) q hq)
  have hmono : ∀ {h h' : History}, Adds (Query.OneOf [.store]) h h' →
      Adds (Query.OneOf preparationKinds) h h' :=
    fun hadds => hadds.mono (Query.OneOf.mono (by decide))
  refine wp_bind (wp_of_asks hstore (fun _ _ _ => trivial) (asks_checkRateLimit s _)) ?_
  intro _ h₁ hadds₁
  refine wp_bind (wp_of_asks hstore (fun _ _ _ => trivial) (asks_assertWithinBudget s _ _)) ?_
  intro _ h₂ hadds₂
  refine wp_bind (wp_modeTools caller hG (hadds₁.trans hadds₂)) ?_
  rintro allowed h₃ ⟨hadds₃, hallowed⟩
  refine wp_bind (wp_of_asks hstore (fun _ _ _ => trivial) (asks_loadConversationHistory s input))
    ?_
  intro history h₄ hadds₄
  refine wp_pure ⟨(hmono (hadds₁.trans hadds₂)).trans (hadds₃.trans (hmono hadds₄)), ?_⟩
  intro h'' hle
  obtain ⟨xs, hxs, _⟩ := hadds₄
  rw [runAt, hallowed h'' ((List.prefix_iff_eq_append.mpr (by rw [hxs, List.drop_left])).trans hle)]

end Prepare

/-- The gates do not look at the conversation before the run. -/
theorem Cleared.of_history {run : AiRunContext} {history : List Turn} {h : History} {q : Query}
    (hc : Cleared s input { run with history := history } h q) : Cleared s input run h q := by
  cases q with
  | execute tool args asked =>
      obtain ⟨hpermitted, hconfirmed, hpolicies, hplan⟩ := hc
      exact ⟨hpermitted, hconfirmed, hpolicies, hplan⟩
  | _ => trivial

/-- A whole run keeps to the gates, with the tools that its user and its mode
    allow. -/
theorem wp_prompt :
    wp (fun h => Cleared s input (runAt s input caller connection h) h) (fun _ => True)
      (prompt s input caller connection) (fun _ _ => True) [] := by
  refine wp_bind (wp_prepareRun caller connection ?_) ?_
  · intro h q hq
    exact cleared_of_kind s input _ (by decide) h q hq
  · rintro run h ⟨hadds, hrun⟩
    have hno := unplanned_of_preparation hadds
    have hkeeps : Keeps s input run
        (if isPlanMode s input then runPlan s input run else runAuto s input run)
        (fun _ _ => True) h := by
      split
      · exact keeps_runPlan hno (unauthorized_of_preparation hadds)
      · exact keeps_runAuto hno
    refine wp_weaken ?_ (fun _ _ h => h) (fun _ _ _ h => h) hkeeps
    intro h' q hle hcleared
    rw [hrun h' hle] at hcleared
    exact hcleared.of_history

end CoreAi
