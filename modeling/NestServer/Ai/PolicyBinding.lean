import NestServer.Ai.GatedRuns

/-! # Policies bind what is executed

    The policies are read for a call as the model has made it, in the auto mode only.
    What is executed is what the hooks have made of the call. -/

namespace CoreAi

open Dialogue

variable (s : CoreAiService) (input : CoreAiPromptInput) (caller : Caller)
  (connection : AiConnection)

/-- The law: the policies let the very arguments pass that a tool is executed with. -/
def PolicyLaw (h : History) : Query → Prop
  | .execute tool args _ =>
      Answered s input (runAt s input caller connection h) h tool.name args
  | _                    => True

instance (h : History) (q : Query) : Decidable (PolicyLaw s input caller connection h q) :=
  match q with
  | .execute tool args _ => inferInstanceAs (Decidable (Answered s input _ h tool.name args))
  | .hit _ | .findBudgetLimit _ _ | .periodStart _ | .findInteractions | .getMode _
  | .loadRecentMessages _ | .buildSystemPrompt | .buildPlanSystemPrompt | .chat _ _
  | .findPolicies _ _ | .now | .findGrants _ _ _ _ | .authorize _ _ | .preToolUse _ _ | .notify _ _
  | .grant _ _ _ | .appendMessage _ _ | .record _ => isTrue trivial

/-- Where the policies were read for a call, the hooks do not make of it one that they
    do not let pass; where they were not read, they let it pass as it is. -/
def PolicyCondition (h : History) : Query → Prop
  | .execute tool args asked =>
      let run := runAt s input caller connection h
      (PoliciesRead h tool.name asked → Answered s input run h tool.name asked →
        Answered s input run h tool.name args) ∧
      (¬ PoliciesRead h tool.name asked → Answered s input run h tool.name args)
  | _ => True

/-- **Policies.** A run keeps the law exactly where every execution meets the
    condition. -/
theorem policies_bind_iff (env : Environment) :
    Guarded (PolicyLaw s input caller connection) []
        (Dialogue.run env (prompt s input caller connection) []).1 ↔
      Guarded (PolicyCondition s input caller connection) []
        (Dialogue.run env (prompt s input caller connection) []).1 := by
  refine Guarded.congr ?_ (guarded_of_wp env (wp_prompt caller connection))
  intro h q hcleared
  cases q with
  | execute tool args asked =>
      constructor
      · intro hlaw
        exact ⟨fun _ _ => hlaw, fun _ => hlaw⟩
      · rintro ⟨hread, hunread⟩
        by_cases hpolicies : PoliciesRead h tool.name asked
        · exact hread hpolicies (hcleared.policies hpolicies)
        · exact hunread hpolicies
  | _ => exact Iff.rfl

/-! ## Mail to the wrong address -/

def sendMail : AiTool := { name := "send_mail", roles := ["s_user"] }

def mailTo (address : String) : Json := .obj [("to", .str address)]

/-- No mail to `evil`. -/
def mailPolicy : ToolPolicy where
  scope := "tool"
  tool  := "send_mail"
  rules := [{ action := "deny", argument := "to", pattern := "evil" }]

/-- A plan with one mail to `evil`. -/
def mailPlan : Json :=
  .obj [("plan", .arr [.obj [("name", .str "send_mail"), ("arguments", mailTo "evil")]])]

/-- `JSON.parse` and `RegExp` on the texts of these runs. -/
def mailService (hooks : List AiHook) : CoreAiService where
  config            := { maxIterations := some 1 }
  parse t           := if t = mailPlan.stringify then some mailPlan else none
  regExp pattern _  := some fun t => t.toList.tails.any pattern.toList.isPrefixOf
  toolRegistry      := [sendMail]
  hookRegistry      := hooks
  toolPolicyService := some [mailPolicy]

def mailCaller : Caller := { currentUser := some { id := "u1" } }

def mailConnection : AiConnection := { id := "c1", nativeTools := true }

/-- A model that sends one mail, or plans it; `rewritten` is what a hook makes of the
    arguments. -/
def mailEnvironment (address : String) (policies : Except String Unit) (rewritten : Option Json) :
    Environment
  | _, .hit _                 => .ok 0
  | _, .findBudgetLimit _ _   => .ok none
  | _, .periodStart _         => (0 : Nat)
  | _, .findInteractions      => .ok []
  | _, .getMode _             => none
  | _, .loadRecentMessages _  => .ok []
  | _, .buildSystemPrompt     => .ok ""
  | _, .buildPlanSystemPrompt => .ok ""
  | _, .chat .plan _          => .ok { text := mailPlan.stringify }
  | _, .chat .step _          =>
      .ok { text := "", toolCalls := some [⟨"send_mail", mailTo address⟩] }
  | _, .chat _ _              => .ok { text := "" }
  | _, .findPolicies _ _      => policies
  | _, .now                   => (0 : Nat)
  | _, .findGrants _ _ _ _    => .ok []
  | _, .authorize _ _         => .ok { allowed := true }
  | _, .preToolUse _ _        => .ok (some { args := rewritten })
  | _, .execute _ _ _         => .ok (.value none)
  | _, .notify _ _            => .ok ()
  | _, .grant _ _ _           => .ok ()
  | _, .appendMessage _ _     => .ok ()
  | _, .record _              => .ok 0

/-- The history of a run of the sample. -/
def mailRun (hooks : List AiHook) (input : CoreAiPromptInput) (env : Environment) : History :=
  (Dialogue.run env (prompt (mailService hooks) input mailCaller mailConnection) []).1

/-- A denied mail is sent: by a plan, after a hook has rewritten the address, and
    where the policies could not be read. -/
theorem denied_mail_is_sent :
    ¬ Guarded (PolicyLaw (mailService []) { prompt := "Hi", mode := some "plan" } mailCaller
          mailConnection) []
        (mailRun [] { prompt := "Hi", mode := some "plan" }
          (mailEnvironment "good" (.ok ()) none)) ∧
      ¬ Guarded (PolicyLaw (mailService [{ name := "rewrite", preToolUse := true }])
          { prompt := "Hi" } mailCaller mailConnection) []
        (mailRun [{ name := "rewrite", preToolUse := true }] { prompt := "Hi" }
          (mailEnvironment "good" (.ok ()) (some (mailTo "evil")))) ∧
      ¬ Guarded (PolicyLaw (mailService []) { prompt := "Hi" } mailCaller mailConnection) []
        (mailRun [] { prompt := "Hi" } (mailEnvironment "evil" (.error "timeout") none)) := by
  refine ⟨?_, ?_, ?_⟩ <;> decide +kernel

end CoreAi
