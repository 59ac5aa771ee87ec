import NestServer.Ai.Frames

/-! # The gates before a tool

    What must be the case when `execute` is called: the tool is permitted, its
    confirmation or a grant is there, the policies that were read let the call pass,
    and a plan is authorized as a whole.  `wp_prompt` says that a whole run keeps to
    it, whatever the model, the hooks and the stores answer. -/

namespace CoreAi

open Dialogue

/-! ## What a history says -/

def Query.isChat (q : Query) : Bool := q.kind = .model

/-- What was said since a model last spoke. -/
def sinceChat (h : History) : List Exchange := h.reverse.takeWhile fun x => !x.1.isChat

theorem sinceChat_append {h xs : History} (hxs : ∀ x ∈ xs, x.1.isChat = false) :
    sinceChat (h ++ xs) = xs.reverse ++ sinceChat h := by
  rw [sinceChat, List.reverse_append, List.takeWhile_append_of_pos]
  · rfl
  · intro x hx
    rw [hxs x (List.mem_reverse.mp hx)]
    rfl

theorem sinceChat_chat {h : History} {x : Exchange} (hx : x.1.isChat = true) :
    sinceChat (h ++ [x]) = [] := by
  rw [sinceChat, List.reverse_append, List.reverse_singleton, List.singleton_append,
    List.takeWhile_cons_of_neg]
  rw [hx]
  exact Bool.false_ne_true

/-- Kinds of questions that are no model's. -/
theorem sinceChat_adds {kinds : List QueryKind} (hkinds : QueryKind.model ∉ kinds) {h h' : History}
    (hadds : Adds (Query.OneOf kinds) h h') {x : Exchange} :
    x ∈ sinceChat h' ↔ x ∈ sinceChat h ∨ x ∈ h'.drop h.length := by
  obtain ⟨xs, rfl, hxs⟩ := hadds
  have hno : ∀ y ∈ xs, y.1.isChat = false := by
    intro y hy
    refine decide_eq_false ?_
    intro hmodel
    exact hkinds (hmodel ▸ hxs y hy)
  rw [sinceChat_append hno, List.mem_append, List.mem_reverse, List.drop_left, or_comm]

/-- A lookup that has found a grant for the tool. -/
def isGrantFor (tool : String) (scopes : GrantScopes) : Exchange → Bool
  | ⟨.findGrants t scope refId now, .ok found⟩ =>
      t = tool && scopes.candidates.contains (scope, refId)
        && found.any fun g => g.active tool scope refId now
  | _ => false

variable (s : CoreAiService) (input : CoreAiPromptInput) (run : AiRunContext)

/-- Since the model spoke, a grant was found for the tool. -/
def granted (h : History) (tool : String) : Bool :=
  (sinceChat h).any (isGrantFor tool (grantScopes input run))

/-- Since the model spoke, the policies were read for the call. -/
def PoliciesRead (h : History) (tool : String) (args : Json) : Prop :=
  (⟨.findPolicies tool args, .ok ()⟩ : Exchange) ∈ sinceChat h

/-- The policies do not deny the arguments, and what they ask for is there. -/
def Answered (h : History) (tool : String) (args : Json) : Prop :=
  ∀ d ∈ decisionFor s run tool args, d.decision ≠ .deny ∧
    (d.decision = .ask → input.confirmed = true ∨ granted input run h tool = true)

instance (h : History) (tool : String) (args : Json) :
    Decidable (Answered s input run h tool args) :=
  inferInstanceAs (Decidable (∀ d ∈ _, _ ∧ (_ → _ ∨ _)))

/-- A call of a plan has been allowed: its tool is permitted, and a tool with a check
    of its own was asked and did not refuse. -/
def Authorized (h : History) (call : LlmToolCall) : Prop :=
  ∃ tool, findTool run.tools call.name = some tool ∧ (tool.authorize = true →
    (∃ authz, (⟨.authorize tool (orEmpty call.arguments), .ok authz⟩ : Exchange) ∈ h) ∧
    ∀ authz, (⟨.authorize tool (orEmpty call.arguments), .ok authz⟩ : Exchange) ∈ h →
      authz.allowed = true)

/-- A plan that a model has made. -/
def Planned (h : History) (completion : LlmResponse) : Prop :=
  ∃ messages, (⟨.chat .plan messages, .ok completion⟩ : Exchange) ∈ h

/-- What must be the case when a tool is executed for a call with the arguments
    `asked`. -/
structure ClearedCall (h : History) (tool : AiTool) (asked : Json) : Prop where
  permitted : tool ∈ run.tools
  confirmed : confirmationRequiredFor s input tool = true →
    input.confirmed = true ∨ (tool.destructive = false ∧ granted input run h tool.name = true)
  policies  : PoliciesRead h tool.name asked → Answered s input run h tool.name asked
  plan      : ∀ completion, Planned h completion →
    ∀ call ∈ planCalls s completion, Authorized run h call

def Cleared (h : History) : Query → Prop
  | .execute tool _ asked => ClearedCall s input run h tool asked
  | _                     => True

theorem cleared_of_kind {kinds : List QueryKind} (hkinds : QueryKind.tool ∉ kinds) (h : History)
    (q : Query) (hq : q.OneOf kinds) : Cleared s input run h q := by
  cases q with
  | execute tool args asked => exact absurd hq hkinds
  | _ => trivial

/-- A part of a run that keeps to the gates. -/
abbrev Keeps {α : Type} (p : Ai α) (R : α → History → Prop) (h : History) : Prop :=
  wp (Cleared s input run) (fun _ => True) p R h

variable {s input run}

/-- A part that calls no tool keeps to the gates. -/
theorem keeps_of_asks {kinds : List QueryKind} (hkinds : QueryKind.tool ∉ kinds) {E : Prop}
    {α : Type} {p : Ai α} (hp : p.Asks (Query.OneOf kinds) E) (h : History) :
    Keeps s input run p (fun _ h' => Adds (Query.OneOf kinds) h h') h :=
  wp_of_asks (cleared_of_kind s input run hkinds) (fun _ _ _ => trivial) hp

/-! ## Grants -/

theorem granted_adds {kinds : List QueryKind} (hkinds : QueryKind.model ∉ kinds) {h h' : History}
    (hadds : Adds (Query.OneOf kinds) h h') {tool : String} (hg : granted input run h tool = true) :
    granted input run h' tool = true := by
  obtain ⟨x, hx, hfor⟩ := List.any_eq_true.mp hg
  exact List.any_eq_true.mpr ⟨x, (sinceChat_adds hkinds hadds).mpr (Or.inl hx), hfor⟩

theorem granted_append {h : History} {x : Exchange} {tool : String} (hx : x.1.isChat = false)
    (hfor : isGrantFor tool (grantScopes input run) x = true) :
    granted input run (h ++ [x]) tool = true := by
  refine List.any_eq_true.mpr ⟨x, ?_, hfor⟩
  have hall : ∀ y ∈ [x], y.1.isChat = false := by
    intro y hy
    rw [List.mem_singleton.mp hy]
    exact hx
  rw [sinceChat_append hall]
  exact List.mem_append_left _ (List.mem_singleton.mpr rfl)

theorem keeps_findGrantIn {tool : String} {now : Nat} {candidates : List (String × String)}
    (hsub : candidates ⊆ (grantScopes input run).candidates) (h : History) :
    Keeps s input run (findGrantIn tool now candidates) (fun found h' =>
      Adds (Query.OneOf [.grant]) h h' ∧ (found.isSome → granted input run h' tool = true)) h := by
  induction candidates generalizing h with
  | nil => exact wp_pure ⟨Adds.refl h, by rintro ⟨⟩⟩
  | cons c rest ih =>
      obtain ⟨scope, refId⟩ := c
      have hrest : rest ⊆ (grantScopes input run).candidates :=
        List.Subset.trans (List.subset_cons_self _ _) hsub
      rw [findGrantIn]
      refine wp_bind (wp_query trivial fun found => ?_) (fun found h' hR => hR)
      have hone : Adds (Query.OneOf [.grant]) h
          (h ++ [⟨.findGrants tool scope refId now, found⟩]) :=
        adds_one h (List.mem_singleton.mpr rfl)
      cases found with
      | error e => exact wp_mono (fun _ _ hR => ⟨hone.trans hR.1, hR.2⟩) (ih hrest _)
      | ok grants =>
          dsimp only
          split
          · rename_i hany
            refine wp_pure ⟨hone, fun _ => granted_append rfl ?_⟩
            -- the lookup was in a scope of the run
            have hmem : (grantScopes input run).candidates.contains (scope, refId) = true :=
              List.contains_iff_mem.mpr (hsub List.mem_cons_self)
            show (decide (tool = tool) && _ && _) = true
            rw [decide_eq_true rfl, hmem, hany]
            rfl
          · exact wp_mono (fun _ _ hR => ⟨hone.trans hR.1, hR.2⟩) (ih hrest _)

theorem keeps_findActiveGrant (tool : String) (h : History) :
    Keeps s input run (findActiveGrant tool (grantScopes input run)) (fun found h' =>
      Adds (Query.OneOf [.grant]) h h' ∧ (found.isSome → granted input run h' tool = true)) h := by
  rw [findActiveGrant]
  split
  · exact wp_pure ⟨Adds.refl h, by rintro ⟨⟩⟩
  · refine wp_bind (wp_query trivial fun now => ?_) (fun now h' hR => hR)
    refine wp_mono ?_ (keeps_findGrantIn (List.Subset.refl _) _)
    intro found h' hR
    have hone : Adds (Query.OneOf [.grant]) h (h ++ [⟨.now, now⟩]) :=
      adds_one h (List.mem_singleton.mpr rfl)
    exact ⟨hone.trans hR.1, hR.2⟩

/-- A call whose tool does not have to be confirmed, by a grant. -/
def GrantedCall (input : CoreAiPromptInput) (run : AiRunContext) (h : History)
    (call : LlmToolCall) :
    Prop :=
  ∃ tool, findTool run.tools call.name = some tool ∧ tool.destructive = false ∧
    granted input run h call.name = true

theorem GrantedCall.adds {kinds : List QueryKind} (hkinds : QueryKind.model ∉ kinds)
    {h h' : History}
    (hadds : Adds (Query.OneOf kinds) h h') {call : LlmToolCall}
      (hc : GrantedCall input run h call) :
    GrantedCall input run h' call := by
  obtain ⟨tool, htool, hdestructive, hg⟩ := hc
  exact ⟨tool, htool, hdestructive, granted_adds hkinds hadds hg⟩

/-- A blocked call survives, or a grant was found for it. -/
theorem keeps_filterByGrants (blocked : List LlmToolCall) (h : History) :
    Keeps s input run (filterByGrants s input run blocked) (fun survivors h' =>
      Adds (Query.OneOf [.grant]) h h' ∧
        ∀ c ∈ blocked, c ∈ survivors ∨ GrantedCall input run h' c) h := by
  have hno : QueryKind.model ∉ [QueryKind.grant] := by decide
  rw [filterByGrants]
  split
  · exact wp_pure ⟨Adds.refl h, fun c hc => Or.inl hc⟩
  · -- the invariant: every call is still to come, survives or is granted
    refine wp_mono ?_ (wp_foldlM (I := fun rest survivors h' =>
      Adds (Query.OneOf [.grant]) h h' ∧
        ∀ c ∈ blocked, c ∈ rest ∨ c ∈ survivors ∨ GrantedCall input run h' c) ?_ blocked [] h
        ⟨Adds.refl h, fun c hc => Or.inl hc⟩)
    · rintro survivors h' ⟨hadds, hall⟩
      refine ⟨hadds, fun c hc => (hall c hc).resolve_left ?_⟩
      rintro ⟨⟩
    · rintro call rest survivors h' ⟨hadds, hall⟩
      have hkept : ∀ c ∈ blocked, c ∈ rest ∨ c ∈ survivors ++ [call] ∨
          GrantedCall input run h' c := by
        intro c hc
        rcases hall c hc with hrest | hsurvives | hgranted
        · rcases List.mem_cons.mp hrest with rfl | hrest
          · exact Or.inr (Or.inl (List.mem_append_right _ (List.mem_singleton.mpr rfl)))
          · exact Or.inl hrest
        · exact Or.inr (Or.inl (List.mem_append_left _ hsurvives))
        · exact Or.inr (Or.inr hgranted)
      rw [filterByGrant]
      split
      · exact wp_pure ⟨hadds, hkept⟩
      · rename_i tool htool
        split
        · exact wp_pure ⟨hadds, hkept⟩
        · rename_i hdestructive
          refine wp_bind (keeps_findActiveGrant call.name h') ?_
          rintro found h'' ⟨hadds', hfound⟩
          cases found with
          | none =>
              refine wp_pure ⟨hadds.trans hadds', fun c hc => ?_⟩
              exact (hkept c hc).imp_right fun h => h.imp_right (GrantedCall.adds hno hadds')
          | some scope =>
              refine wp_pure ⟨hadds.trans hadds', fun c hc => ?_⟩
              rcases hall c hc with hrest | hsurvives | hgranted
              · rcases List.mem_cons.mp hrest with rfl | hrest
                · exact Or.inr (Or.inr ⟨tool, htool, Bool.eq_false_iff.mpr hdestructive,
                    hfound rfl⟩)
                · exact Or.inl hrest
              · exact Or.inr (Or.inl hsurvives)
              · exact Or.inr (Or.inr (hgranted.adds hno hadds'))

end CoreAi
