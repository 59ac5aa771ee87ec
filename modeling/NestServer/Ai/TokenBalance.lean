import NestServer.Ai.GatedRuns

/-! # Tokens and the budget

    The budget of a run counts the audit records of the runs before it.  What a run
    has been told that it used is followed to the one record that it writes at its
    end, or does not write. -/

namespace CoreAi

open Dialogue

/-! ## What a history says of tokens -/

/-- The tokens that a provider reports. -/
def tokensOf : Exchange → Nat
  | ⟨.chat _ _, .ok completion⟩ => completion.totalTokens
  | _                           => 0

/-- Those of them that a summary of old turns has used. -/
def summaryTokensOf : Exchange → Nat
  | ⟨.chat .summary _, .ok completion⟩ => completion.totalTokens
  | _                                  => 0

/-- The tokens that all chat calls have reported. -/
def reported (h : History) : Nat := (h.map tokensOf).sum

def summarized (h : History) : Nat := (h.map summaryTokensOf).sum

/-- The document of a record that was written. -/
def recordOf : Exchange → Option CoreAiInteraction
  | ⟨.record r, .ok createdAt⟩ =>
      some {
        createdAt   := createdAt
        tenantId    := r.tenantId
        totalTokens := some r.usage.totalTokens
        userId      := r.userId }
  | _ => none

def recordsOf (h : History) : List CoreAiInteraction := h.filterMap recordOf

def planOf : Exchange → Option LlmResponse
  | ⟨.chat .plan _, .ok completion⟩ => some completion
  | _                               => none

def plansOf (h : History) : List LlmResponse := h.filterMap planOf

/-- What keeps a run from its record: an error that is not caught, and a record that
    is not written, or not in the period that counts. -/
def failed (periodStart : Nat) : Exchange → Bool
  | ⟨.chat .summary _, _⟩           => false
  | ⟨.chat _ _, .error _⟩           => true
  | ⟨.authorize _ _, .error _⟩      => true
  | ⟨.appendMessage _ _, .error _⟩  => true
  | ⟨.record _, .error _⟩           => true
  | ⟨.record _, .ok createdAt⟩      => createdAt < periodStart
  | _                               => false

/-- The user or the tenant that a budget is for. -/
def Caller.refId (caller : Caller) (scope : String) : Option String :=
  if scope = "user" then caller.currentUser.map AiToolUser.id else caller.tenantId

/-- A plan may be executed as soon as it is confirmed, and is not confirmed. -/
def Awaits (s : CoreAiService) (input : CoreAiPromptInput) (run : AiRunContext) (h : History) :
    Prop :=
  input.confirmed = false ∧ ∃ completion ∈ plansOf h,
    planNeedingConfirmation s input run (planCalls s completion) ≠ [] ∧
      ∀ call ∈ planCalls s completion, Authorized run h call

@[simp] theorem reported_append (h h' : History) :
    reported (h ++ h') = reported h + reported h' := by
  rw [reported, List.map_append, List.sum_append]
  rfl

@[simp] theorem summarized_append (h h' : History) :
    summarized (h ++ h') = summarized h + summarized h' := by
  rw [summarized, List.map_append, List.sum_append]
  rfl

@[simp] theorem recordsOf_append (h h' : History) :
    recordsOf (h ++ h') = recordsOf h ++ recordsOf h' :=
  List.filterMap_append

@[simp] theorem plansOf_append (h h' : History) : plansOf (h ++ h') = plansOf h ++ plansOf h' :=
  List.filterMap_append

theorem mem_plansOf {h : History} {completion : LlmResponse} :
    completion ∈ plansOf h ↔ Planned h completion := by
  rw [plansOf, List.mem_filterMap]
  constructor
  · rintro ⟨⟨q, answer⟩, hmem, hplan⟩
    rw [planOf.eq_def] at hplan
    split at hplan
    · rename_i messages completion' heq
      cases heq
      cases hplan
      exact ⟨messages, hmem⟩
    · cases hplan
  · rintro ⟨messages, hmem⟩
    exact ⟨_, hmem, rfl⟩

/-- The kinds of questions that have nothing to do with tokens, and whose errors are
    caught. -/
def quietKinds : List QueryKind := [.store, .mode, .policy, .grant, .hook, .tool]

theorem stores_quiet : [QueryKind.store] ⊆ quietKinds := by decide

/-- An exchange without tokens, a plan, a record or an error. -/
structure Quiet (start : Nat) (x : Exchange) : Prop where
  tokens  : tokensOf x = 0
  summary : summaryTokensOf x = 0
  record  : recordOf x = none
  plan    : planOf x = none
  failed  : failed start x = false

theorem quiet_of_kind (start : Nat) {x : Exchange} (hx : x.1.OneOf quietKinds) : Quiet start x := by
  obtain ⟨q, answer⟩ := x
  cases q with
  | chat site messages => exact absurd hx (show QueryKind.model ∉ quietKinds by decide)
  | authorize tool args => exact absurd hx (show QueryKind.authorization ∉ quietKinds by decide)
  | appendMessage id message => exact absurd hx (show QueryKind.history ∉ quietKinds by decide)
  | record r => exact absurd hx (show QueryKind.audit ∉ quietKinds by decide)
  | _ => exact ⟨rfl, rfl, rfl, rfl, rfl⟩

theorem sum_map_zero {f : Exchange → Nat} {xs : List Exchange} (hf : ∀ x ∈ xs, f x = 0) :
    (xs.map f).sum = 0 := by
  rw [List.sum_eq_zero_iff_forall_eq_nat]
  intro n hn
  obtain ⟨x, hx, rfl⟩ := List.mem_map.mp hn
  exact hf x hx

/-- Quiet exchanges change nothing that counts. -/
theorem quiet_adds (start : Nat) {kinds : List QueryKind} (hkinds : kinds ⊆ quietKinds)
    {h h' : History} (hadds : Adds (Query.OneOf kinds) h h') :
    reported h' = reported h ∧ summarized h' = summarized h ∧ recordsOf h' = recordsOf h ∧
      plansOf h' = plansOf h ∧ ∀ x ∈ h', x ∈ h ∨ failed start x = false := by
  obtain ⟨xs, rfl, hxs⟩ := hadds
  have hquiet : ∀ x ∈ xs, Quiet start x :=
    fun x hx => quiet_of_kind start (Query.OneOf.mono hkinds _ (hxs x hx))
  refine ⟨?_, ?_, ?_, ?_, ?_⟩
  · have hzero : reported xs = 0 := sum_map_zero fun x hx => (hquiet x hx).tokens
    rw [reported_append, hzero, Nat.add_zero]
  · have hzero : summarized xs = 0 := sum_map_zero fun x hx => (hquiet x hx).summary
    rw [summarized_append, hzero, Nat.add_zero]
  · have hnil : recordsOf xs = [] :=
      List.filterMap_eq_nil_iff.mpr fun x hx => (hquiet x hx).record
    rw [recordsOf_append, hnil, List.append_nil]
  · have hnil : plansOf xs = [] := List.filterMap_eq_nil_iff.mpr fun x hx => (hquiet x hx).plan
    rw [plansOf_append, hnil, List.append_nil]
  · intro x hx
    exact (List.mem_append.mp hx).imp_right fun hx => (hquiet x hx).failed

/-! ## The balance of a run -/

/-- What the budget counts of the records in a history. -/
def counted (scope refId : String) (start : Nat) (h : History) : Nat :=
  (getUsage (recordsOf h) scope refId start).usedTokens

theorem getUsage_append (is js : List CoreAiInteraction) (scope refId : String) (start : Nat) :
    (getUsage (is ++ js) scope refId start).usedTokens
      = (getUsage is scope refId start).usedTokens + (getUsage js scope refId
        start).usedTokens := by
  simp only [getUsage, List.filter_append, List.map_append, List.sum_append]

/-- While a run is open: the tokens so far are `tokens`, but for those of summaries,
    and nothing has been recorded and nothing has failed. -/
structure Balanced (start : Nat) (h : History) (tokens : Nat) (plans : List LlmResponse) :
    Prop where
  unrecorded : recordsOf h = []
  balance    : reported h = tokens + summarized h
  planned    : plansOf h = plans
  unfailed   : ∀ x ∈ h, failed start x = false

theorem balanced_nil (start : Nat) : Balanced start [] 0 [] :=
  ⟨rfl, rfl, rfl, by rintro x ⟨⟩⟩

section Balance

variable {start : Nat} {h : History} {n : Nat} {plans : List LlmResponse}

theorem Balanced.append (hb : Balanced start h n plans) {x : Exchange} {m : Nat}
    {plans' : List LlmResponse} (hrecord : recordOf x = none)
    (htokens : tokensOf x = m + summaryTokensOf x) (hplan : plansOf [x] = plans')
    (hfailed : failed start x = false) :
    Balanced start (h ++ [x]) (n + m) (plans ++ plans') where
  unrecorded := by
    rw [recordsOf_append, hb.unrecorded, recordsOf, List.filterMap_cons, hrecord]
    rfl
  balance    := by
    have hx : reported [x] = m + summarized [x] := by
      simp only [reported, summarized, List.map_cons, List.map_nil, List.sum_cons, List.sum_nil]
      omega
    rw [reported_append, summarized_append, hb.balance, hx]
    omega
  planned    := by rw [plansOf_append, hb.planned, hplan]
  unfailed   := by
    intro y hy
    rcases List.mem_append.mp hy with hold | hnew
    · exact hb.unfailed y hold
    · rw [List.mem_singleton.mp hnew]
      exact hfailed

/-- An exchange that is quiet, or a summary. -/
theorem Balanced.append_same (hb : Balanced start h n plans) {x : Exchange}
    (hrecord : recordOf x = none) (htokens : tokensOf x = summaryTokensOf x)
    (hplan : planOf x = none) (hfailed : failed start x = false) :
    Balanced start (h ++ [x]) n plans := by
  have hnil : plansOf [x] = [] := by
    rw [plansOf, List.filterMap_cons, hplan]
    rfl
  have hb' := hb.append (m := 0) hrecord (by omega) hnil hfailed
  rwa [Nat.add_zero, List.append_nil] at hb'

theorem Balanced.adds (hb : Balanced start h n plans) {kinds : List QueryKind}
    (hkinds : kinds ⊆ quietKinds) {h' : History} (hadds : Adds (Query.OneOf kinds) h h') :
    Balanced start h' n plans := by
  obtain ⟨hreported, hsummarized, hrecords, hplans, hfailed⟩ := quiet_adds start hkinds hadds
  constructor
  · rw [hrecords, hb.unrecorded]
  · rw [hreported, hsummarized, hb.balance]
  · rw [hplans, hb.planned]
  · intro x hx
    exact (hfailed x hx).elim (hb.unfailed x) id

end Balance

/-! ## How a run ends -/

section Ending

variable (s : CoreAiService) (input : CoreAiPromptInput) (run : AiRunContext) (scope refId : String)
  (start : Nat)

/-- How the account of a run is closed. -/
inductive Closed (h : History) : Prop
  /-- its record has all but the summaries -/
  | stored (hkept : s.config.audit = true ∧ s.interactionService = true)
      (hbalance : counted scope refId start h + summarized h = reported h)
      (hunfailed : ∀ x ∈ h, failed start x = false) (hanswered : ¬ Awaits s input run h)
  /-- no record counts, for one of four reasons -/
  | lost (hnone : counted scope refId start h = 0)
      (hwhy : ¬ (s.config.audit = true ∧ s.interactionService = true) ∨
        (∃ x ∈ h, failed start x = true) ∨ Awaits s input run h ∨ reported h = 0)

/-- A part that, when it fails, closes the account. -/
abbrev Settles {α : Type} (p : Ai α) (R : α → History → Prop) (h : History) : Prop :=
  wp (fun _ _ => True) (Closed s input run scope refId start) p R h

variable {s input run scope refId start} {h : History} {n : Nat} {plans : List LlmResponse}

theorem Balanced.uncounted (hb : Balanced start h n plans) : counted scope refId start h = 0 := by
  rw [counted, hb.unrecorded]
  rfl

/-- An error that is not caught. -/
theorem Balanced.closed_of_failed (hb : Balanced start h n plans) {x : Exchange}
    (hrecord : recordOf x = none) (hfailed : failed start x = true) :
    Closed s input run scope refId start (h ++ [x]) := by
  refine Closed.lost ?_ (Or.inr
    (Or.inl ⟨x, List.mem_append_right h (List.mem_singleton.mpr rfl), hfailed⟩))
  rw [counted, recordsOf_append, hb.unrecorded, recordsOf, List.filterMap_cons, hrecord]
  rfl

theorem settles_of_asks (hb : Balanced start h n plans) {kinds : List QueryKind}
    (hkinds : kinds ⊆ quietKinds) {α : Type} {p : Ai α} (hp : p.Asks (Query.OneOf kinds) False) :
    Settles s input run scope refId start p (fun _ h' => Balanced start h' n plans) h := by
  refine wp_mono ?_ (wp_of_asks (fun _ _ _ => trivial) (fun hfalse => hfalse.elim) hp)
  intro a h' hadds
  exact hb.adds hkinds hadds

/-- A chat for an answer. -/
theorem settles_chat (hb : Balanced start h n plans) {site : ChatSite} (hsite : site ≠ .summary)
    (messages : List LlmMessage) :
    Settles s input run scope refId start (chat site messages) (fun completion h' =>
      Balanced start h' (n + completion.totalTokens)
        (plans ++ if site = .plan then [completion] else []) ∧
      h' = h ++ [⟨.chat site messages, .ok completion⟩]) h := by
  refine wp_bind (wp_query trivial fun answer => ?_) (fun _ _ hw => hw)
  refine wp_orThrow ?_ ?_
  · rintro completion rfl
    refine ⟨hb.append rfl ?_ ?_ ?_, rfl⟩
    · cases site with
      | summary => exact absurd rfl hsite
      | _ => rfl
    · cases site <;> rfl
    · cases site <;> rfl
  · rintro e rfl
    refine hb.closed_of_failed rfl ?_
    cases site with
    | summary => exact absurd rfl hsite
    | _ => rfl

/-- The summary is not counted. -/
theorem settles_compactMessages (hb : Balanced start h n plans) (messages : List LlmMessage) :
    Settles s input run scope refId start (compactMessages s run messages)
      (fun _ h' => Balanced start h' n plans) h := by
  rw [compactMessages]
  split
  · exact wp_pure hb
  · refine wp_bind (wp_query trivial fun answer => ?_) (fun _ _ hw => hw)
    cases answer with
    | error e => exact wp_pure (hb.append_same rfl rfl rfl rfl)
    | ok reply => exact wp_pure (hb.append_same rfl rfl rfl rfl)

theorem settles_appendMessage (hb : Balanced start h n plans) (id : String) (message : LlmMessage) :
    Settles s input run scope refId start (appendMessage id message)
      (fun _ h' => Balanced start h' n plans) h := by
  refine wp_bind (wp_query trivial fun answer => ?_) (fun _ _ hw => hw)
  refine wp_orThrow ?_ ?_
  · rintro _ rfl
    exact hb.append_same rfl rfl rfl rfl
  · rintro e rfl
    exact hb.closed_of_failed rfl rfl

theorem settles_persistTurn (hb : Balanced start h n plans) (answered : Bool) (text : String) :
    Settles s input run scope refId start (persistTurn s input answered text)
      (fun _ h' => Balanced start h' n plans) h := by
  rw [persistTurn]
  split
  · split
    · exact wp_bind (settles_appendMessage hb _ _) (fun _ _ hb' => settles_appendMessage hb' _ _)
    · exact wp_pure hb
  · exact wp_pure hb

/-! ### The record -/

theorem Authorized.of_adds {kinds : List QueryKind} (hkinds : QueryKind.authorization ∉ kinds)
    {h' : History} (hadds : Adds (Query.OneOf kinds) h h') {call : LlmToolCall}
    (hc : Authorized run h' call) : Authorized run h call := by
  obtain ⟨tool, htool, hauthorized⟩ := hc
  refine ⟨tool, htool, fun hauthorize => ?_⟩
  obtain ⟨⟨authz, hmem⟩, hall⟩ := hauthorized hauthorize
  refine ⟨⟨authz, ?_⟩, fun authz' hmem' => hall authz' (hadds.mem hmem')⟩
  rcases hadds.mem_or hmem with hold | hkind
  · exact hold
  · exact absurd hkind hkinds

/-- Whether a plan awaits a confirmation does not change after it. -/
theorem awaits_adds {kinds : List QueryKind} (hmodel : QueryKind.model ∉ kinds)
    (hauthorization : QueryKind.authorization ∉ kinds) {h' : History}
    (hadds : Adds (Query.OneOf kinds) h h') : Awaits s input run h' ↔ Awaits s input run h := by
  refine and_congr_right fun _ => exists_congr fun completion =>
    and_congr ?_ (and_congr_right fun _ => ?_)
  · rw [mem_plansOf, mem_plansOf]
    constructor
    · rintro ⟨messages, hmem⟩
      rcases hadds.mem_or hmem with hold | hkind
      · exact ⟨messages, hold⟩
      · exact absurd hkind hmodel
    · rintro ⟨messages, hmem⟩
      exact ⟨messages, hadds.mem hmem⟩
  · constructor
    · exact fun hall call hcall => (hall call hcall).of_adds hauthorization hadds
    · exact fun hall call hcall => (hall call hcall).adds hauthorization hadds

/-- What comes after the record and is quiet leaves the account as it is. -/
theorem Closed.adds {h h' : History} (hclosed : Closed s input run scope refId start h)
    {kinds : List QueryKind} (hkinds : kinds ⊆ quietKinds) (hadds : Adds (Query.OneOf kinds) h h') :
    Closed s input run scope refId start h' := by
  obtain ⟨hreported, hsummarized, hrecords, _, hfailed⟩ := quiet_adds start hkinds hadds
  have hawaits : Awaits s input run h' ↔ Awaits s input run h :=
    awaits_adds (fun hmem => (show QueryKind.model ∉ quietKinds by decide) (hkinds hmem))
      (fun hmem => (show QueryKind.authorization ∉ quietKinds by decide) (hkinds hmem)) hadds
  have hcounted : counted scope refId start h' = counted scope refId start h := by
    rw [counted, hrecords, counted]
  cases hclosed with
  | stored hkept hbalance hunfailed hanswered =>
      refine Closed.stored hkept ?_ ?_ (hawaits.not.mpr hanswered)
      · rw [hcounted, hsummarized, hreported, hbalance]
      · intro x hx
        exact (hfailed x hx).elim (hunfailed x) id
  | lost hnone hwhy =>
      refine Closed.lost (hcounted.trans hnone) (hwhy.imp_right ?_)
      rw [hawaits, hreported]
      refine Or.imp_left ?_
      rintro ⟨x, hx, hx'⟩
      exact ⟨x, hadds.mem hx, hx'⟩

/-- The one record that a run writes is counted by the budgets of its user and of its
    tenant. -/
theorem counted_record {r : AiInteractionRecord} {createdAt : Nat}
    (hscope : (if scope = "user" then r.userId else r.tenantId) = some refId) :
    counted scope refId start [⟨.record r, .ok createdAt⟩]
      = if start ≤ createdAt then r.usage.totalTokens else 0 := by
  show (getUsage [_] scope refId start).usedTokens = _
  by_cases hstart : start ≤ createdAt
  · simp [getUsage, hscope, hstart]
  · simp [getUsage, hstart]

theorem settles_audit (hb : Balanced start h n plans) {r : AiInteractionRecord}
    (htokens : r.usage.totalTokens = n)
    (hscope : (if scope = "user" then r.userId else r.tenantId) = some refId)
    (hanswered : ¬ Awaits s input run h) :
    Settles s input run scope refId start (audit s r)
      (fun _ h' => Closed s input run scope refId start h') h := by
  rw [audit]
  split
  · rename_i hkept
    rw [Bool.and_eq_true] at hkept
    refine wp_bind (wp_query trivial fun answer => ?_) (fun _ _ hw => hw)
    refine wp_pure ?_
    cases answer with
    | error e => exact hb.closed_of_failed rfl rfl
    | ok createdAt =>
        have hadds : Adds (Query.OneOf [.audit]) h (h ++ [⟨.record r, .ok createdAt⟩]) :=
          adds_one h (List.mem_singleton.mpr rfl)
        have hcounted : counted scope refId start (h ++ [⟨.record r, .ok createdAt⟩])
            = if start ≤ createdAt then n else 0 := by
          rw [counted, recordsOf_append, hb.unrecorded, List.nil_append, ← htokens]
          exact counted_record hscope
        by_cases hstart : start ≤ createdAt
        · rw [if_pos hstart] at hcounted
          refine Closed.stored hkept ?_ ?_
            ((awaits_adds (by decide) (by decide) hadds).not.mpr hanswered)
          · rw [hcounted, summarized_append, reported_append, hb.balance]
            show n + (summarized h + 0) = n + summarized h + 0
            omega
          · intro x hx
            rcases List.mem_append.mp hx with hold | hnew
            · exact hb.unfailed x hold
            · rw [List.mem_singleton.mp hnew]
              exact decide_eq_false (Nat.not_lt.mpr hstart)
        · -- the period of the record is over
          rw [if_neg hstart] at hcounted
          refine Closed.lost hcounted
            (Or.inr (Or.inl ⟨_, List.mem_append_right h (List.mem_singleton.mpr rfl), ?_⟩))
          exact decide_eq_true (Nat.not_le.mp hstart)
  · rename_i hkept
    rw [Bool.and_eq_true] at hkept
    exact wp_pure (Closed.lost hb.uncounted (Or.inl hkept))

/-! ### The auto mode -/

theorem settles_runToolCalls {st : AutoState} (hb : Balanced start h st.usage.totalTokens plans)
    (toolCalls : List LlmToolCall) :
    Settles s input run scope refId start (runToolCalls s input run toolCalls st)
      (fun r h' => Balanced start h' r.1.usage.totalTokens plans) h := by
  refine wp_bind (settles_of_asks hb (by decide) (asks_executeToolCalls s input run toolCalls []))
    ?_
  rintro ⟨actions, question⟩ h' hb'
  cases question with
  | some q => exact wp_pure hb'
  | none => exact wp_pure hb'

theorem settles_handleToolCalls {st : AutoState} (hb : Balanced start h st.usage.totalTokens plans)
    (toolCalls : List LlmToolCall) :
    Settles s input run scope refId start (handleToolCalls s input run toolCalls st)
      (fun r h' => Balanced start h' r.1.usage.totalTokens plans) h := by
  refine wp_bind (settles_of_asks hb (by decide) (asks_evaluateToolPolicies s run toolCalls)) ?_
  intro outcomes h₁ hb₁
  split
  · exact wp_pure hb₁
  · refine wp_bind (settles_of_asks hb₁ (by decide) (asks_filterByGrants s input run _)) ?_
    intro survivors h₂ hb₂
    split
    · exact wp_pure hb₂
    · exact settles_runToolCalls hb₂ toolCalls

theorem settles_autoStep {st : AutoState} (hb : Balanced start h st.usage.totalTokens plans)
    (more : Bool) :
    Settles s input run scope refId start (autoStep s input run more st)
      (fun r h' => Balanced start h' r.1.usage.totalTokens plans) h := by
  refine wp_bind (settles_compactMessages hb st.messages) ?_
  intro messages h₁ hb₁
  refine wp_bind (settles_chat hb₁ (by rintro ⟨⟩) _) ?_
  rintro completion h₂ ⟨hb₂, _⟩
  rw [if_neg (by rintro ⟨⟩), List.append_nil] at hb₂
  dsimp only
  split
  · -- an answer, or one more nudge for it: the totals stay
    refine wp_pure ?_
    rw [finalAnswer.eq_def]
    dsimp only
    split
    · exact hb₂
    · split
      · exact hb₂
      · exact hb₂
  · exact settles_handleToolCalls hb₂ _

theorem settles_autoLoop (left : Nat) {st : AutoState}
    (hb : Balanced start h st.usage.totalTokens plans) :
    Settles s input run scope refId start (autoLoop s input run left st)
      (fun st' h' => Balanced start h' st'.usage.totalTokens plans) h := by
  induction left generalizing st h with
  | zero => exact wp_pure hb
  | succ left ih =>
      refine wp_bind (settles_autoStep hb _) ?_
      rintro ⟨st', again⟩ h' hb'
      dsimp only
      split
      · exact ih hb'
      · exact wp_pure hb'

theorem not_awaits_of_unplanned (hplans : plansOf h = []) : ¬ Awaits s input run h := by
  rintro ⟨_, completion, hmem, _⟩
  rw [hplans] at hmem
  cases hmem

/-- Before the first chat call a run may fail without a loss. -/
structure Fresh (start : Nat) (h : History) : Prop where
  balanced : Balanced start h 0 []
  silent   : reported h = 0

theorem Fresh.adds (hf : Fresh start h) {kinds : List QueryKind} (hkinds : kinds ⊆ quietKinds)
    {h' : History} (hadds : Adds (Query.OneOf kinds) h h') : Fresh start h' where
  balanced := hf.balanced.adds hkinds hadds
  silent   := (quiet_adds start hkinds hadds).1.trans hf.silent

theorem Fresh.closed (hf : Fresh start h) : Closed s input run scope refId start h :=
  Closed.lost hf.balanced.uncounted (Or.inr (Or.inr (Or.inr hf.silent)))

theorem settles_runAuto (hf : Fresh start h)
    (hscope : (if scope = "user" then run.userId else run.tenantId) = some refId) :
    Settles s input run scope refId start (runAuto s input run)
      (fun _ h' => Closed s input run scope refId start h') h := by
  refine wp_bind (wp_of_asks (fun _ _ _ => trivial) (fun hfalse => hfalse.elim)
    (asks_notifyHooks .sessionStart AiHook.sessionStart s.hookRegistry)) ?_
  intro _ h₁ hhooks
  have hf₁ := hf.adds (by decide) hhooks
  refine wp_bind (wp_query trivial fun answer => ?_) (fun _ _ hw => hw)
  have hf₂ : Fresh start (h₁ ++ [⟨.buildSystemPrompt, answer⟩]) :=
    hf₁.adds stores_quiet (adds_one h₁ (List.mem_singleton.mpr rfl))
  refine wp_bind (wp_orThrow (R := fun _ h' => Fresh start h') (fun _ _ => hf₂)
    (fun _ _ => hf₂.closed)) ?_
  intro systemPrompt h₂ hf₂
  refine wp_bind (settles_autoLoop _ hf₂.balanced) ?_
  intro st h₃ hb₃
  refine wp_bind (settles_persistTurn hb₃ _ _) ?_
  intro _ h₄ hb₄
  refine wp_bind (settles_audit hb₄ rfl hscope (not_awaits_of_unplanned hb₄.planned)) ?_
  intro _ h₅ hclosed
  refine wp_bind (wp_of_asks (fun _ _ _ => trivial) (fun hfalse => hfalse.elim)
    (asks_notifyHooks .stop AiHook.stop s.hookRegistry)) ?_
  intro _ h₆ hhooks
  exact wp_pure (hclosed.adds (by decide) hhooks)

/-! ### The plan mode -/

/-- A call of a plan is not allowed: it has no tool, or its tool has refused. -/
def Refused (run : AiRunContext) (h : History) (call : LlmToolCall) : Prop :=
  ∀ tool, findTool run.tools call.name = some tool → tool.authorize = true ∧
    ∃ authz, (⟨.authorize tool (orEmpty call.arguments), .ok authz⟩ : Exchange) ∈ h ∧
      authz.allowed = false

theorem Refused.mono {h h' : History} (hsub : ∀ x ∈ h, x ∈ h') {call : LlmToolCall}
    (hr : Refused run h call) : Refused run h' call := by
  intro tool htool
  obtain ⟨hauthorize, authz, hmem, hauthz⟩ := hr tool htool
  exact ⟨hauthorize, authz, hsub _ hmem, hauthz⟩

theorem Refused.not_authorized {call : LlmToolCall} (hr : Refused run h call) :
    ¬ Authorized run h call := by
  rintro ⟨tool, htool, hauthorized⟩
  obtain ⟨hauthorize, authz, hmem, hauthz⟩ := hr tool htool
  rw [(hauthorized hauthorize).2 authz hmem] at hauthz
  cases hauthz

theorem settles_authorizeCall (hb : Balanced start h n plans) (call : LlmToolCall) :
    Settles s input run scope refId start (authorizeCall run call) (fun authz h' =>
      Balanced start h' n plans ∧ (∀ x ∈ h, x ∈ h') ∧
        (authz.allowed = false → Refused run h' call)) h := by
  rw [authorizeCall]
  split
  · rename_i hnone
    refine wp_pure ⟨hb, fun _ hx => hx, fun _ tool htool => ?_⟩
    rw [hnone] at htool
    cases htool
  · rename_i tool htool
    split
    · exact wp_pure ⟨hb, fun _ hx => hx, by rintro ⟨⟩⟩
    · rename_i hauthorize
      rw [Bool.not_eq_true', Bool.not_eq_false] at hauthorize
      refine wp_bind (wp_query trivial fun answer => ?_) (fun _ _ hw => hw)
      refine wp_orThrow ?_ ?_
      · rintro authz rfl
        refine ⟨hb.append_same rfl rfl rfl rfl, fun _ hx => List.mem_append_left _ hx, ?_⟩
        intro hauthz tool' htool'
        rw [htool] at htool'
        obtain rfl := Option.some.inj htool'
        exact ⟨hauthorize, authz, List.mem_append_right _ (List.mem_singleton.mpr rfl), hauthz⟩
      · rintro e rfl
        exact hb.closed_of_failed rfl rfl

theorem settles_authorizePlan (hb : Balanced start h n plans) (plan : List LlmToolCall) :
    Settles s input run scope refId start (authorizePlan run plan) (fun denied h' =>
      Balanced start h' n plans ∧ (denied ≠ [] → ∃ call ∈ plan, Refused run h' call)) h := by
  -- the invariant: what is left is of the plan, and who denied is still known
  refine wp_mono ?_ (wp_foldlM (I := fun rest denied h' => (∀ call ∈ rest, call ∈ plan) ∧
    Balanced start h' n plans ∧ (denied ≠ [] → ∃ call ∈ plan, Refused run h' call)) ?_ plan [] h
    ⟨fun _ hcall => hcall, hb, fun hne => absurd rfl hne⟩)
  · rintro denied h' ⟨_, hb', hrefused⟩
    exact ⟨hb', hrefused⟩
  · rintro call rest denied h' ⟨hrest, hb', hrefused⟩
    refine wp_bind (settles_authorizeCall hb' call) ?_
    rintro authz h'' ⟨hb'', hsub, hnot⟩
    refine wp_pure ⟨fun c hc => hrest c (List.mem_cons_of_mem call hc), hb'', ?_⟩
    intro hne
    cases hauthz : authz.allowed with
    | false => exact ⟨call, hrest call List.mem_cons_self, hnot hauthz⟩
    | true =>
        rw [hauthz, if_pos rfl] at hne
        obtain ⟨c, hc, hrefused⟩ := hrefused hne
        exact ⟨c, hc, hrefused.mono hsub⟩

theorem settles_executePlan (hb : Balanced start h n plans) (calls : List LlmToolCall) :
    Settles s input run scope refId start (executePlan s run calls)
      (fun _ h' => Balanced start h' n plans) h :=
  settles_of_asks hb (by decide) (asks_executePlan s run calls)

theorem settles_finishPlan {planning : LlmResponse}
    (hb : Balanced start h planning.totalTokens plans)
    (hscope : (if scope = "user" then run.userId else run.tenantId) = some refId)
    (hanswered : ∀ completion ∈ plans,
      planNeedingConfirmation s input run (planCalls s completion) = [] ∨ input.confirmed = true)
    (messages : List LlmMessage) :
    Settles s input run scope refId start (finishPlan s input run messages planning)
      (fun _ h' => Closed s input run scope refId start h') h := by
  refine wp_bind (settles_executePlan hb _) ?_
  intro actions h₁ hb₁
  refine wp_bind (settles_chat hb₁ (by rintro ⟨⟩) _) ?_
  rintro completion h₂ ⟨hb₂, _⟩
  rw [if_neg (by rintro ⟨⟩), List.append_nil] at hb₂
  refine wp_bind (settles_persistTurn hb₂ _ _) ?_
  intro _ h₃ hb₃
  have hno : ¬ Awaits s input run h₃ := by
    rintro ⟨hunconfirmed, completion', hmem, hneeding, _⟩
    rw [hb₃.planned] at hmem
    rcases hanswered completion' hmem with hnone | hconfirmed
    · exact hneeding hnone
    · rw [hunconfirmed] at hconfirmed
      cases hconfirmed
  refine wp_bind (settles_audit hb₃ ?_ hscope hno) (fun _ _ hclosed => wp_pure hclosed)
  show (accumulateUsage (accumulateUsage {} planning) completion).totalTokens = _
  rw [accumulateUsage_totalTokens, accumulateUsage_totalTokens, Nat.zero_add]

theorem settles_settlePlan {planning : LlmResponse} {denied : List CoreAiAction}
    (hb : Balanced start h planning.totalTokens [planning])
    (hscope : (if scope = "user" then run.userId else run.tenantId) = some refId)
    (hallowed : denied = [] → ∀ call ∈ planCalls s planning, Authorized run h call)
    (hrefused : denied ≠ [] → ∃ call ∈ planCalls s planning, Refused run h call)
    (messages : List LlmMessage) :
    Settles s input run scope refId start (settlePlan s input run messages planning denied)
      (fun _ h' => Closed s input run scope refId start h') h := by
  rw [settlePlan]
  split
  · rename_i hdenied
    rw [Bool.not_eq_true', Bool.eq_false_iff] at hdenied
    obtain ⟨call, hcall, hr⟩ := hrefused fun hnil => hdenied (List.isEmpty_iff.mpr hnil)
    have hno : ¬ Awaits s input run h := by
      rintro ⟨_, completion, hmem, _, hall⟩
      rw [hb.planned, List.mem_singleton] at hmem
      rw [hmem] at hall
      exact hr.not_authorized (hall call hcall)
    refine wp_bind (settles_audit hb ?_ hscope hno) (fun _ _ hclosed => wp_pure hclosed)
    show (accumulateUsage {} planning).totalTokens = _
    rw [accumulateUsage_totalTokens, Nat.zero_add]
  · rename_i hdenied
    rw [Bool.not_eq_true', Bool.not_eq_false] at hdenied
    have hall := hallowed (List.isEmpty_iff.mp hdenied)
    split
    · -- the plan is not recorded
      rename_i hgate
      rw [Bool.and_eq_true, Bool.not_eq_true', Bool.not_eq_true'] at hgate
      obtain ⟨hneeding, hunconfirmed⟩ := hgate
      refine wp_pure (Closed.lost hb.uncounted
        (Or.inr (Or.inr (Or.inl ⟨hunconfirmed, planning, ?_⟩))))
      refine ⟨?_, ?_, hall⟩
      · rw [hb.planned]
        exact List.mem_singleton.mpr rfl
      · intro hnil
        rw [hnil] at hneeding
        cases hneeding
    · rename_i hgate
      refine settles_finishPlan hb hscope ?_ messages
      intro completion hmem
      rw [List.mem_singleton.mp hmem]
      cases hconfirmed : input.confirmed with
      | true => exact Or.inr rfl
      | false =>
          rw [hconfirmed, Bool.not_false, Bool.and_true, Bool.not_eq_true', Bool.not_eq_false]
            at hgate
          exact Or.inl (List.isEmpty_iff.mp hgate)

theorem settles_runPlan (hf : Fresh start h) (hunauthorized : Unauthorized h)
    (hscope : (if scope = "user" then run.userId else run.tenantId) = some refId) :
    Settles s input run scope refId start (runPlan s input run)
      (fun _ h' => Closed s input run scope refId start h') h := by
  refine wp_bind (wp_query trivial fun answer => ?_) (fun _ _ hw => hw)
  have hf₁ : Fresh start (h ++ [⟨.buildPlanSystemPrompt, answer⟩]) :=
    hf.adds stores_quiet (adds_one h (List.mem_singleton.mpr rfl))
  have hno₁ : Unauthorized (h ++ [⟨.buildPlanSystemPrompt, answer⟩]) := by
    intro x hx
    rcases List.mem_append.mp hx with hold | hnew
    · exact hunauthorized x hold
    · rw [List.mem_singleton.mp hnew]
      rintro ⟨⟩
  refine wp_bind (wp_orThrow (R := fun _ h' => Fresh start h' ∧ Unauthorized h')
    (fun _ _ => ⟨hf₁, hno₁⟩) (fun _ _ => hf₁.closed)) ?_
  rintro systemPrompt h₀ ⟨hf₀, hno₀⟩
  refine wp_bind (settles_chat hf₀.balanced (by rintro ⟨⟩) _) ?_
  rintro planning h₁ ⟨hb₁, rfl⟩
  rw [if_pos rfl, List.nil_append, Nat.zero_add] at hb₁
  have hallowed : AllAllowed (h₀ ++
      [⟨.chat .plan (planMessages s input run systemPrompt), .ok planning⟩]) := by
    intro tool args authz hmem
    rcases List.mem_append.mp hmem with hold | hnew
    · exact hno₀.allAllowed tool args authz hold
    · cases List.mem_singleton.mp hnew
  have hkeeps : ∀ {h : History}, AllAllowed h → Keeps s input run _ _ h :=
    fun hall => keeps_authorizePlan (planCalls s planning) hall
  refine wp_bind (wp_weaken (fun _ _ _ _ => trivial) (fun _ _ hF => hF.2) (fun _ _ _ hR => hR)
    (wp_and (hkeeps hallowed) (settles_authorizePlan hb₁ (planCalls s planning)))) ?_
  rintro denied h₂ ⟨⟨_, hauthorized⟩, hb₂, hrefused⟩
  exact settles_settlePlan hb₂ hscope (fun hnil => (hauthorized hnil).2) hrefused _

/-! ## A whole run -/

variable {caller : Caller} {connection : AiConnection}

/-- The account does not look at the conversation before the run. -/
theorem Closed.of_history {history : List Turn}
    (hclosed : Closed s input { run with history := history } scope refId start h) :
    Closed s input run scope refId start h := by
  cases hclosed with
  | stored hkept hbalance hunfailed hanswered =>
      exact Closed.stored hkept hbalance hunfailed hanswered
  | lost hnone hwhy => exact Closed.lost hnone hwhy

theorem asks_modeTools (user : Option AiToolUser) :
    (modeTools s input user).Asks (Query.OneOf preparationKinds) True := by
  rw [modeTools]
  split
  · trivial
  · split
    · trivial
    · exact asks_bind (asks_await (show QueryKind.mode ∈ preparationKinds by decide)) (fun _ =>
        trivial)

theorem asks_prepareRun :
    (prepareRun s input caller connection).Asks (Query.OneOf preparationKinds) True := by
  have hstore : ∀ q : Query, q.OneOf [.store] → q.OneOf preparationKinds :=
    Query.OneOf.mono (by decide)
  refine asks_bind ((asks_checkRateLimit s _).mono hstore id) fun _ => ?_
  refine asks_bind ((asks_assertWithinBudget s _ _).mono hstore id) fun _ => ?_
  refine asks_bind (asks_modeTools _) fun _ => ?_
  exact asks_bind ((asks_loadConversationHistory s input).mono hstore id) fun _ => trivial

/-- The account of a run with the tools that it had. -/
abbrev ClosedRun (s : CoreAiService) (input : CoreAiPromptInput) (caller : Caller)
    (connection : AiConnection) (scope refId : String) (start : Nat) (h : History) : Prop :=
  Closed s input (runAt s input caller connection h) scope refId start h

variable (s input connection start) in
theorem settles_prompt (hscope : caller.refId scope = some refId) :
    wp (fun _ _ => True) (ClosedRun s input caller connection scope refId start)
      (prompt s input caller connection)
      (fun _ h' => ClosedRun s input caller connection scope refId start h') [] := by
  have hfresh : ∀ h', Adds (Query.OneOf preparationKinds) [] h' → Fresh start h' :=
    fun h' hadds => Fresh.adds ⟨balanced_nil start, rfl⟩ (by decide) hadds
  refine wp_bind (wp_weaken (fun _ _ _ _ => trivial) (fun _ _ hF => hF.2) (fun _ _ _ hR => hR.1)
    (wp_and (wp_prepareRun (G := fun _ _ => True) caller connection (fun _ _ _ => trivial))
      (wp_of_asks (fun _ _ _ => trivial) (fun _ h' hadds => (hfresh h' hadds).closed)
        asks_prepareRun))) ?_
  rintro run h ⟨hadds, hrun⟩
  have hf := hfresh h hadds
  have hrefId : (if scope = "user" then run.userId else run.tenantId) = some refId := by
    rw [hrun h (List.prefix_refl h)]
    exact hscope
  have hsettles : Settles s input run scope refId start
      (if isPlanMode s input then runPlan s input run else runAuto s input run)
      (fun _ h' => Closed s input run scope refId start h') h := by
    split
    · exact settles_runPlan hf (unauthorized_of_preparation hadds) hrefId
    · exact settles_runAuto hf hrefId
  have hclosed : ∀ h', h <+: h' → Closed s input run scope refId start h' →
      ClosedRun s input caller connection scope refId start h' := by
    intro h' hle hc
    rw [hrun h' hle] at hc
    exact hc.of_history
  exact wp_weaken (fun _ _ _ _ => trivial) hclosed (fun _ => hclosed) hsettles

/-- What a closed account comes to. -/
theorem Closed.counted_iff {h : History} (hclosed : Closed s input run scope refId start h) :
    counted scope refId start h = reported h ↔
      reported h = 0 ∨ ((s.config.audit = true ∧ s.interactionService = true) ∧
        (∀ x ∈ h, failed start x = false) ∧ summarized h = 0 ∧ ¬ Awaits s input run h) := by
  cases hclosed with
  | stored hkept hbalance hunfailed hanswered =>
      constructor
      · intro heq
        exact Or.inr ⟨hkept, hunfailed, by omega, hanswered⟩
      · rintro (hzero | ⟨_, _, hsummarized, _⟩)
        · omega
        · omega
  | lost hnone hwhy =>
      rw [hnone]
      constructor
      · intro heq
        exact Or.inl heq.symm
      · rintro (hzero | ⟨hkept, hunfailed, _, hanswered⟩)
        · exact hzero.symm
        · rcases hwhy with hoff | ⟨x, hx, hfailed⟩ | hawaits | hzero
          · exact absurd hkept hoff
          · rw [hunfailed x hx] at hfailed
            cases hfailed
          · exact absurd hawaits hanswered
          · exact hzero.symm

end Ending

variable (s : CoreAiService) (input : CoreAiPromptInput) (caller : Caller)
  (connection : AiConnection)

/-- **Tokens.** What a run adds to the usage of its user or its tenant is what the
    providers have reported, exactly if nothing was reported, or audits are on and are
    stored in the period, nothing has failed, no summary had tokens, and no allowed plan
    is left to confirm. -/
theorem tokens_conserved_iff (env : Environment) (before : List CoreAiInteraction)
    (scope refId : String) (start : Nat) (hscope : caller.refId scope = some refId) :
    let trace := (Dialogue.run env (prompt s input caller connection) []).1
    (getUsage (before ++ recordsOf trace) scope refId start).usedTokens
        = (getUsage before scope refId start).usedTokens + reported trace ↔
      reported trace = 0 ∨ ((s.config.audit = true ∧ s.interactionService = true) ∧
        (∀ x ∈ trace, failed start x = false) ∧ summarized trace = 0 ∧
        ¬ Awaits s input (runAt s input caller connection trace) trace) := by
  intro trace
  obtain ⟨xs, hrun, _, hok, herror⟩ :=
    run_of_wp env (settles_prompt s input start connection hscope)
  have hclosed : ClosedRun s input caller connection scope refId start trace := by
    rw [show trace = [] ++ xs from hrun]
    cases hresult : (Dialogue.run env (prompt s input caller connection) []).2 with
    | ok response => exact hok response hresult
    | error e => exact herror e hresult
  rw [getUsage_append, Nat.add_left_cancel_iff]
  exact hclosed.counted_iff

/-! ## Tokens that no budget sees -/

def deleteNote : AiTool := { name := "delete_note", roles := ["s_user"], destructive := true }

/-- A plan with one call. -/
def notePlan : Json := .obj [("plan", .arr [.obj [("name", .str "delete_note")]])]

/-- Users have a budget, and audits are on. -/
def noteService : CoreAiService where
  config              := {
    audit         := true
    budgetUser    := { maxTokens := some 100 }
    contextWindow := some 1024 }
  parse t             := if t = notePlan.stringify then some notePlan else none
  regExp _ _          := none
  toolRegistry        := [deleteNote, { name := "read_note", roles := ["s_user"] }]
  conversationService := true
  interactionService  := true
  budgetService       := true

def noteCaller : Caller := { currentUser := some { id := "u1" } }

def noteConnection : AiConnection := { id := "c1", nativeTools := true }

/-- A long conversation, and a model with 10 tokens for each answer; `steps` is what it answers in
the loop after
    that history. -/
def noteEnvironment (steps : History → Except String LlmResponse) : Environment
  | _, .hit _                 => .ok 0
  | _, .findBudgetLimit _ _   => .ok none
  | _, .periodStart _         => (0 : Nat)
  | _, .findInteractions      => .ok []
  | _, .getMode _             => none
  | _, .loadRecentMessages _  => .ok (List.replicate 120 { content := "Hm", role := "user" })
  | _, .buildSystemPrompt     => .ok ""
  | _, .buildPlanSystemPrompt => .ok ""
  | _, .chat .plan _          =>
      .ok { text := notePlan.stringify, usage := some { totalTokens := some 10 } }
  | h, .chat .step _          => steps h
  | _, .chat _ _              => .ok { text := "ok", usage := some { totalTokens := some 10 } }
  | _, .findPolicies _ _      => .ok ()
  | _, .now                   => (0 : Nat)
  | _, .findGrants _ _ _ _    => .ok []
  | _, .authorize _ _         => .ok { allowed := true }
  | _, .preToolUse _ _        => .ok none
  | _, .execute _ _ _         => .ok (.value none)
  | _, .notify _ _            => .ok ()
  | _, .grant _ _ _           => .ok ()
  | _, .appendMessage _ _     => .ok ()
  | _, .record _              => .ok 1

/-- An answer with 10 tokens. -/
def noteAnswer (calls : Option (List LlmToolCall)) : LlmResponse where
  text      := "ok"
  toolCalls := calls
  usage     := some { totalTokens := some 10 }

/-- The history of a run of the sample. -/
def noteRun (input : CoreAiPromptInput) (steps : History → Except String LlmResponse) : History :=
  (Dialogue.run (noteEnvironment steps) (prompt noteService input noteCaller noteConnection) []).1

/-- A direct answer is counted. -/
theorem tokens_conserved_answer :
    (getUsage ([] ++ recordsOf (noteRun { prompt := "Hi" } fun _ => .ok (noteAnswer none)))
        "user" "u1" 0).usedTokens = (getUsage [] "user" "u1" 0).usedTokens
          + reported (noteRun { prompt := "Hi" } fun _ => .ok (noteAnswer none)) := by
  refine (tokens_conserved_iff noteService { prompt := "Hi" } noteCaller noteConnection
    (noteEnvironment fun _ => .ok (noteAnswer none)) [] "user" "u1" 0 rfl).mpr
      (Or.inr ⟨⟨rfl, rfl⟩, ?_, ?_, ?_⟩)
  · decide +kernel
  · decide +kernel
  · refine not_awaits_of_unplanned ?_
    decide +kernel

/-- Not counted are a plan that awaits its confirmation, the summary of a long
    conversation, and all of a run whose second chat call fails. -/
theorem tokens_are_lost :
    (getUsage (recordsOf (noteRun { prompt := "Hi", mode := some "plan" }
        fun _ => .ok (noteAnswer none))) "user" "u1" 0).usedTokens
      ≠ reported (noteRun { prompt := "Hi", mode := some "plan" }
        fun _ => .ok (noteAnswer none)) ∧
    (getUsage (recordsOf (noteRun { prompt := "Hi", conversationId := some "c" }
        fun _ => .ok (noteAnswer none))) "user" "u1" 0).usedTokens
      ≠ reported (noteRun { prompt := "Hi", conversationId := some "c" }
        fun _ => .ok (noteAnswer none)) ∧
    (getUsage (recordsOf (noteRun { prompt := "Hi" } fun h =>
        if reported h = 0 then .ok (noteAnswer (some [⟨"read_note", .obj []⟩])) else .error "503"))
        "user" "u1" 0).usedTokens
      ≠ reported (noteRun { prompt := "Hi" } fun h =>
        if reported h = 0 then .ok (noteAnswer (some [⟨"read_note", .obj []⟩]))
          else .error "503") := by
  refine ⟨?_, ?_, ?_⟩ <;> decide +kernel

end CoreAi
