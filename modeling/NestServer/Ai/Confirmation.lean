import NestServer.Ai.GatedRuns

/-! # Destructive tools need a confirmation

    What a whole run promises of every tool that it executes, read off the gates. -/

namespace CoreAi

open Dialogue

variable (s : CoreAiService) (input : CoreAiPromptInput) (caller : Caller)
  (connection : AiConnection)

/-- What must be the case when a tool is executed: a destructive one has the
    confirmation, which nothing replaces; one that mutates, where that must be
    confirmed, has the confirmation or a stored grant that was found for this call; it
    is one of the tools of the run; and the plan it belongs to is allowed as a whole. -/
structure ExecutedRightly (run : AiRunContext) (h : History) (tool : AiTool) : Prop where
  permitted   : tool ∈ run.tools
  destructive : tool.destructive = true → input.confirmed = true
  mutating    : tool.mutating = true → confirmationRequiredFor s input tool = true →
    input.confirmed = true ∨ granted input run h tool.name = true
  plan        : ∀ completion, Planned h completion →
    ∀ call ∈ planCalls s completion, Authorized run h call

/-- The law, for what is asked after `h`. -/
def ConfirmationLaw (h : History) : Query → Prop
  | .execute tool _ _ => ExecutedRightly s input (runAt s input caller connection h) h tool
  | _                 => True

variable {s input caller connection}

/-- Nothing but a confirmation clears a destructive tool. -/
theorem ClearedCall.destructive {run : AiRunContext} {h : History} {tool : AiTool} {asked : Json}
    (hc : ClearedCall s input run h tool asked) (hdestructive : tool.destructive = true) :
    input.confirmed = true := by
  have hrequired : confirmationRequiredFor s input tool = true := by
    rw [confirmationRequiredFor, if_pos hdestructive]
  rcases hc.confirmed hrequired with hconfirmed | ⟨hnot, _⟩
  · exact hconfirmed
  · rw [hdestructive] at hnot
    cases hnot

theorem ClearedCall.executedRightly {run : AiRunContext} {h : History} {tool : AiTool}
    {asked : Json}
    (hc : ClearedCall s input run h tool asked) : ExecutedRightly s input run h tool where
  permitted   := hc.permitted
  destructive := hc.destructive
  mutating    := fun _ hrequired => (hc.confirmed hrequired).imp_right And.right
  plan        := hc.plan

variable (s input caller connection)

/-- **Confirmation.** Whatever the model, the hooks and the stores answer, every tool
    of a run is executed rightly. -/
theorem executed_rightly (env : Environment) :
    Guarded (ConfirmationLaw s input caller connection) []
      (Dialogue.run env (prompt s input caller connection) []).1 := by
  refine (guarded_of_wp env (wp_prompt caller connection)).mono ?_
  intro h q hcleared
  cases q with
  | execute tool args asked => exact hcleared.executedRightly
  | _ => trivial

end CoreAi
