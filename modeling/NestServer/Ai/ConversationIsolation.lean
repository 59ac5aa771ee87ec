import NestServer.Ai.Conversations
import NestServer.Ai.GatedRuns

/-! # Conversations of others

    The client names the conversation of a run.  Its turns are read for the owner
    only, but turns are appended, and grants are looked up and stored, for whatever
    conversation is named. -/

namespace CoreAi

open Dialogue

/-! ## What is of others -/

section Others

variable (objectId : String → Option String) (user : Option AiToolUser)

/-- The id is that of a conversation of another user. -/
def AiDatabase.foreign (db : AiDatabase) (id : String) : Bool :=
  (db.findById objectId id).any fun doc => !isOwner user doc

/-- A grant of another user, or of a conversation of another user. -/
def AiDatabase.ofOthers (db : AiDatabase) (g : ToolGrant) : Bool :=
  (g.scope = "conversation" && db.foreign objectId user g.refId)
    || (g.scope = "user" && user.map AiToolUser.id != some g.refId)

/-- Two databases that differ in the conversations of others, and in the grants of
    those or of others. -/
structure SameOwn (db db' : AiDatabase) : Prop where
  conversations : ∀ key, (db.conversations key).filter (isOwner user)
    = (db'.conversations key).filter (isOwner user)
  grants        : db.grants.filter (fun g => !db.ofOthers objectId user g &&
    !db'.ofOthers objectId user g)
    = db'.grants.filter (fun g => !db.ofOthers objectId user g && !db'.ofOthers objectId user g)

/-- The second database has what the first one has of others, and nothing more. -/
structure SameOthers (db db' : AiDatabase) : Prop where
  conversations : ∀ key, (db'.conversations key).filter (fun doc => !isOwner user doc)
    = (db.conversations key).filter (fun doc => !isOwner user doc)
  grants        : db'.grants.filter (db.ofOthers objectId user)
    = db.grants.filter (db.ofOthers objectId user)

end Others

section Writes

variable {objectId : String → Option String} {user : Option AiToolUser} {db db' : AiDatabase}

/-! ## What a write leaves as it is -/

theorem isOwner_pushMessage (message : Turn) (doc : CoreAiConversation) :
    isOwner user (AiDatabase.pushMessage message doc) = isOwner user doc := by
  rw [isOwner, isOwner, AiDatabase.pushMessage]

/-- No write changes whose a conversation is. -/
theorem foreign_effect (x : Exchange) (id : String) :
    (effect objectId db x).foreign objectId user id = db.foreign objectId user id := by
  rw [effect.eq_def]
  split
  · rename_i id' message _
    rw [AiDatabase.foreign, AiDatabase.foreign, AiDatabase.findById, AiDatabase.findById]
    cases objectId id with
    | none => rfl
    | some key =>
        show Option.any _ (if _ then _ else _) = Option.any _ (db.conversations key)
        split
        · rw [Option.any_map]
          simp only [isOwner_pushMessage]
        · rfl
  · rfl
  · rfl

@[simp] theorem ofOthers_effect (x : Exchange) :
    (effect objectId db x).ofOthers objectId user = db.ofOthers objectId user := by
  funext g
  rw [AiDatabase.ofOthers, AiDatabase.ofOthers, foreign_effect]

theorem allow_of_key {tool scope refId : String} {g : ToolGrant}
    (hg : AiDatabase.isGrantOf tool scope refId g = true) : g.scope = scope ∧ g.refId = refId := by
  rw [AiDatabase.isGrantOf, Bool.and_eq_true, Bool.and_eq_true] at hg
  exact ⟨of_decide_eq_true hg.1.2, of_decide_eq_true hg.2⟩

section Upsert

variable {kept : ToolGrant → Bool} {tool scope refId : String}
  (hkept : ∀ g g' : ToolGrant, g.scope = g'.scope → g.refId = g'.refId → kept g = kept g')

include hkept

theorem filter_map_allow (grants : List ToolGrant) :
    (grants.map fun g => if AiDatabase.isGrantOf tool scope refId g then AiDatabase.allow g
      else g).filter
        kept
      = (grants.filter kept).map fun g =>
          if AiDatabase.isGrantOf tool scope refId g then AiDatabase.allow g else g := by
  have hsame : ∀ g, kept (if AiDatabase.isGrantOf tool scope refId g then AiDatabase.allow g else g)
      = kept g := by
    intro g
    split
    · exact hkept _ _ rfl rfl
    · rfl
  rw [List.filter_map]
  exact congrArg _ (congrArg (List.filter · grants) (funext hsame))

/-- An upsert of what is kept is one among what is kept. -/
theorem filter_upsertGrant (hnew : kept { tool := tool, scope := scope, refId := refId } = true)
    (grants : List ToolGrant) :
    (AiDatabase.upsertGrant tool scope refId grants).filter kept
      = AiDatabase.upsertGrant tool scope refId (grants.filter kept) := by
  have hkey : ∀ g, AiDatabase.isGrantOf tool scope refId g = true → kept g = true := by
    intro g hg
    obtain ⟨hscope, hrefId⟩ := allow_of_key hg
    rw [← hnew]
    exact hkept _ _ hscope hrefId
  have hany : (grants.filter kept).any (AiDatabase.isGrantOf tool scope refId)
      = grants.any (AiDatabase.isGrantOf tool scope refId) := by
    rw [List.any_filter]
    refine congrArg (List.any grants) (funext fun g => ?_)
    cases hg : AiDatabase.isGrantOf tool scope refId g with
    | false => exact Bool.and_false _
    | true => rw [hkey g hg, Bool.and_true]
  rw [AiDatabase.upsertGrant, AiDatabase.upsertGrant, hany]
  split
  · exact filter_map_allow hkept grants
  · have hallow : kept (AiDatabase.allow { tool := tool, scope := scope, refId := refId }) = true :=
      hnew ▸ hkept _ _ rfl rfl
    rw [List.filter_append, List.filter_singleton, hallow]
    rfl

/-- An upsert of what is not kept leaves all that is kept. -/
theorem filter_upsertGrant_other
    (hnew : kept { tool := tool, scope := scope, refId := refId } = false)
    (grants : List ToolGrant) :
    (AiDatabase.upsertGrant tool scope refId grants).filter kept = grants.filter kept := by
  have hkey : ∀ g, kept g = true → AiDatabase.isGrantOf tool scope refId g = false := by
    intro g hg
    rw [Bool.eq_false_iff]
    intro hof
    obtain ⟨hscope, hrefId⟩ := allow_of_key hof
    have hsame := hkept g { tool := tool, scope := scope, refId := refId } hscope hrefId
    rw [hsame, hnew] at hg
    cases hg
  rw [AiDatabase.upsertGrant]
  split
  · rw [filter_map_allow hkept]
    refine (List.map_congr_left ?_).trans (List.map_id _)
    intro g hg
    rw [hkey g (List.mem_filter.mp hg).2]
    rfl
  · have hallow : kept (AiDatabase.allow { tool := tool, scope := scope, refId := refId }) =
        false :=
      hnew ▸ hkept _ _ rfl rfl
    rw [List.filter_append, List.filter_singleton, hallow]
    exact List.append_nil _

end Upsert

/-! ### The two databases -/

theorem filter_pushMessage {p : CoreAiConversation → Bool} (message : Turn)
    (hp : ∀ doc, p (AiDatabase.pushMessage message doc) = p doc) (doc : Option CoreAiConversation) :
    (doc.map (AiDatabase.pushMessage message)).filter p
      = (doc.filter p).map (AiDatabase.pushMessage message) := by
  cases doc with
  | none => rfl
  | some doc =>
      show (if p _ then _ else _) = Option.map _ (if p doc then _ else _)
      rw [hp]
      split
      · rfl
      · rfl

/-- A grant that is not of others, in neither database. -/
abbrev own (objectId : String → Option String) (user : Option AiToolUser) (db db' : AiDatabase)
    (g : ToolGrant) : Bool :=
  !db.ofOthers objectId user g && !db'.ofOthers objectId user g

theorem ofOthers_congr {g g' : ToolGrant} (hscope : g.scope = g'.scope)
    (hrefId : g.refId = g'.refId) :
    db.ofOthers objectId user g = db.ofOthers objectId user g' := by
  rw [AiDatabase.ofOthers, AiDatabase.ofOthers, hscope, hrefId]

theorem own_congr (g g' : ToolGrant) (hscope : g.scope = g'.scope) (hrefId : g.refId = g'.refId) :
    own objectId user db db' g = own objectId user db db' g' := by
  rw [own, own, ofOthers_congr hscope hrefId, ofOthers_congr hscope hrefId]

/-- The same write keeps what the user owns the same. -/
theorem SameOwn.effect (hsame : SameOwn objectId user db db') (x : Exchange) :
    SameOwn objectId user (effect objectId db x) (effect objectId db' x) := by
  constructor
  · intro key
    rw [CoreAi.effect.eq_def, CoreAi.effect.eq_def]
    split
    · rename_i id message _
      show Option.filter _ (if _ then _ else _) = Option.filter _ (if _ then _ else _)
      split
      · rw [filter_pushMessage message.turn (isOwner_pushMessage message.turn),
          filter_pushMessage message.turn (isOwner_pushMessage message.turn),
          hsame.conversations key]
      · exact hsame.conversations key
    · exact hsame.conversations key
    · exact hsame.conversations key
  · rw [ofOthers_effect, ofOthers_effect, CoreAi.effect.eq_def, CoreAi.effect.eq_def]
    split
    · exact hsame.grants
    · rename_i tool scope refId _
      show List.filter (own objectId user db db')
          (AiDatabase.upsertGrant tool scope refId db.grants)
        = List.filter (own objectId user db db')
          (AiDatabase.upsertGrant tool scope refId db'.grants)
      cases hnew : own objectId user db db' { tool := tool, scope := scope, refId := refId } with
      | true =>
          rw [filter_upsertGrant own_congr hnew, filter_upsertGrant own_congr hnew]
          exact congrArg _ hsame.grants
      | false =>
          rw [filter_upsertGrant_other own_congr hnew, filter_upsertGrant_other own_congr hnew]
          exact hsame.grants
    · exact hsame.grants

theorem SameOwn.after (hsame : SameOwn objectId user db db') (h : History) :
    SameOwn objectId user (db.after objectId h) (db'.after objectId h) := by
  induction h generalizing db db' with
  | nil => exact hsame
  | cons x h ih => exact ih (hsame.effect x)

theorem foreign_after (h : History) (id : String) :
    (db.after objectId h).foreign objectId user id = db.foreign objectId user id := by
  induction h generalizing db with
  | nil => rfl
  | cons x h ih => exact ih.trans (foreign_effect x id)

end Writes

/-! ## What a run may name -/

section Named

variable (objectId : String → Option String) (user : Option AiToolUser) (db db' : AiDatabase)

/-- No conversation of another user is named: none that is written to, and none whose
    grants would count. -/
def namesOwn : Query → Bool
  | .appendMessage id _         => !db.foreign objectId user id
  | .grant _ scope refId        => scope != "conversation" || !db.foreign objectId user refId
  | .findGrants _ scope refId _ =>
      scope != "conversation" ||
        (!db.foreign objectId user refId && !db'.foreign objectId user refId)
  | _                           => true

/-- The grants of users are those of the user itself. -/
def namesUser (userId : Option String) : Query → Bool
  | .grant _ scope refId        => scope != "user" || userId = some refId
  | .findGrants _ scope refId _ => scope != "user" || userId = some refId
  | _                           => true

variable {objectId user db db'}

/-- What is named is not of others. -/
theorem not_ofOthers {scope refId : String} {g : ToolGrant} (hscope : g.scope = scope)
    (hrefId : g.refId = refId)
    (hown : (scope != "conversation" || !db.foreign objectId user refId) = true)
    (huser : (scope != "user" || (user.map AiToolUser.id = some refId : Bool)) = true) :
    db.ofOthers objectId user g = false := by
  rw [AiDatabase.ofOthers, hscope, hrefId]
  by_cases hconversation : scope = "conversation"
  · subst hconversation
    simpa using hown
  · by_cases hscope : scope = "user"
    · subst hscope
      simpa using huser
    · simp [hconversation, hscope]

theorem findGrant_eq (hsame : SameOwn objectId user db db') {tool scope refId : String} (now : Nat)
    (hown : namesOwn objectId user db db' (.findGrants tool scope refId now) = true)
    (huser : namesUser (user.map AiToolUser.id) (.findGrants tool scope refId now) = true) :
    db.findGrant tool scope refId now = db'.findGrant tool scope refId now := by
  -- what is active for the named scope is not of others
  have hkept : ∀ g : ToolGrant, (own objectId user db db' g && g.active tool scope refId now)
      = g.active tool scope refId now := by
    intro g
    cases hg : g.active tool scope refId now with
    | false => exact Bool.and_false _
    | true =>
        have hkey : g.scope = scope ∧ g.refId = refId := by
          simp only [ToolGrant.active, Bool.and_eq_true, decide_eq_true_eq] at hg
          exact ⟨hg.1.2, hg.1.1.2⟩
        have hown' : (scope != "conversation" || !db.foreign objectId user refId) = true ∧
            (scope != "conversation" || !db'.foreign objectId user refId) = true := by
          simp only [namesOwn, Bool.or_eq_true, Bool.and_eq_true] at hown ⊢
          exact ⟨hown.imp_right And.left, hown.imp_right And.right⟩
        rw [own, not_ofOthers hkey.1 hkey.2 hown'.1 huser, not_ofOthers hkey.1 hkey.2 hown'.2 huser]
        rfl
  have hfind : ∀ grants : List ToolGrant, grants.find? (fun g => g.active tool scope refId now)
      = (grants.filter (own objectId user db db')).find? fun g =>
        g.active tool scope refId now := by
    intro grants
    rw [List.find?_filter]
    refine congrArg (List.find? · grants) (funext fun g => ?_)
    rw [Bool.decide_and, Bool.decide_eq_true, Bool.decide_eq_true, hkept g]
  rw [AiDatabase.findGrant, AiDatabase.findGrant, hfind, hfind db'.grants]
  exact congrArg (fun grants : List ToolGrant => (grants.find? _).toList) hsame.grants

/-- Who is no admin reads its own turns only. -/
theorem loadRecentMessages_eq (hadmin : isAdmin user = false) (hsame : SameOwn objectId user db db')
    (id : String) :
    db.loadRecentMessages objectId id user = db'.loadRecentMessages objectId id user := by
  have hread : ∀ db : AiDatabase, db.loadRecentMessages objectId id user
      = (((objectId id).bind fun key => (db.conversations key).filter (isOwner user)).filter
          (fun _ => JsText.truthy id)).elim [] fun doc => lastOf 20 doc.messages := by
    intro db
    rw [AiDatabase.loadRecentMessages, AiDatabase.findById, hadmin]
    cases objectId id with
    | none => rfl
    | some key =>
        dsimp only [Option.bind_some]
        cases db.conversations key with
        | none => rfl
        | some doc =>
            cases howner : isOwner user doc with
            | false => cases JsText.truthy id <;> simp [Option.filter, howner]
            | true => cases JsText.truthy id <;> simp [Option.filter, howner]
  rw [hread db, hread db']
  simp only [hsame.conversations]

/-- Two databases that are the same to the user answer alike where nothing of others is
    named. -/
theorem onDatabase_eq (others : Environment) (hadmin : isAdmin user = false)
    (hsame : SameOwn objectId user db db') (h : History) (q : Query)
    (hown : namesOwn objectId user db db' q = true)
    (huser : namesUser (user.map AiToolUser.id) q = true) :
    onDatabase objectId others user db h q = onDatabase objectId others user db' h q := by
  have hafter := hsame.after h
  cases q with
  | loadRecentMessages id =>
      rw [onDatabase, onDatabase, loadRecentMessages_eq hadmin hafter]
  | findGrants tool scope refId now =>
      have hown' : namesOwn objectId user (db.after objectId h) (db'.after objectId h)
          (.findGrants tool scope refId now) = true := by
        rw [namesOwn, foreign_after, foreign_after]
        exact hown
      rw [onDatabase, onDatabase, findGrant_eq hafter now hown' huser]
  | _ => rfl

/-! ## What is left of others -/

theorem SameOthers.refl : SameOthers objectId user db db := ⟨fun _ => rfl, rfl⟩

/-- A write that names nothing of others leaves all of others. -/
theorem sameOthers_effect {x : Exchange} (hown : namesOwn objectId user db db' x.1 = true)
    (huser : namesUser (user.map AiToolUser.id) x.1 = true) :
    SameOthers objectId user db (effect objectId db x) := by
  rw [effect.eq_def]
  split
  · rename_i id message _
    refine ⟨fun key => ?_, rfl⟩
    show Option.filter _ (if _ then _ else _) = _
    split
    · rename_i hkey
      -- a conversation that is written to is none of others
      have hforeign : (db.conversations key).filter (fun doc => !isOwner user doc) = none := by
        rw [namesOwn, Bool.not_eq_true', AiDatabase.foreign, AiDatabase.findById, hkey] at hown
        rw [Option.filter_eq_none_iff]
        intro doc hdoc
        rw [Option.bind_some, hdoc] at hown
        rw [show (!isOwner user doc) = false from hown]
        exact Bool.false_ne_true
      have hpush : ∀ doc, (!isOwner user (AiDatabase.pushMessage message.turn doc)) =
          !isOwner user doc :=
        fun doc => congrArg not (isOwner_pushMessage message.turn doc)
      rw [filter_pushMessage message.turn hpush, hforeign]
      rfl
    · rfl
  · rename_i tool scope refId _
    refine ⟨fun _ => rfl, ?_⟩
    exact filter_upsertGrant_other (fun _ _ => ofOthers_congr) (not_ofOthers rfl rfl hown huser)
      db.grants
  · exact SameOthers.refl

theorem SameOthers.trans {db₁ db₂ db₃ : AiDatabase} (h : SameOthers objectId user db₁ db₂)
    (h' : SameOthers objectId user db₂ db₃)
    (hof : db₂.ofOthers objectId user = db₁.ofOthers objectId user) :
    SameOthers objectId user db₁ db₃ := by
  refine ⟨fun key => (h'.conversations key).trans (h.conversations key), ?_⟩
  have hgrants := h'.grants
  rw [hof] at hgrants
  exact hgrants.trans h.grants

theorem namesOwn_effect (x : Exchange) (q : Query) :
    namesOwn objectId user (effect objectId db x) db' q = namesOwn objectId user db db' q := by
  cases q <;> simp only [namesOwn, foreign_effect]

theorem sameOthers_after {h : History} (hown : ∀ x ∈ h, namesOwn objectId user db db' x.1 = true)
    (huser : ∀ x ∈ h, namesUser (user.map AiToolUser.id) x.1 = true) :
    SameOthers objectId user db (db.after objectId h) := by
  induction h generalizing db with
  | nil => exact SameOthers.refl
  | cons x h ih =>
      refine (sameOthers_effect (hown x List.mem_cons_self) (huser x List.mem_cons_self)).trans
        (ih ?_ ?_) (ofOthers_effect x)
      · intro y hy
        rw [namesOwn_effect]
        exact hown y (List.mem_cons_of_mem x hy)
      · exact fun y hy => huser y (List.mem_cons_of_mem x hy)

end Named

/-! ## Whose grants a run names -/

section Asks

variable (s : CoreAiService) (input : CoreAiPromptInput) (run : AiRunContext)

abbrev NamesUser (userId : Option String) (q : Query) : Prop := namesUser userId q = true

theorem namesUser_of_kind {kinds : List QueryKind} (hkinds : QueryKind.grant ∉ kinds)
    (userId : Option String) (q : Query) (hq : q.OneOf kinds) : NamesUser userId q := by
  cases q with
  | grant tool scope refId => exact absurd hq hkinds
  | findGrants tool scope refId now => exact absurd hq hkinds
  | _ => rfl

theorem asksNamesUser_of_kinds {kinds : List QueryKind} (hkinds : QueryKind.grant ∉ kinds)
    {userId : Option String} {E : Prop} {α : Type} {p : Ai α} (hp : p.Asks (Query.OneOf kinds) E) :
    p.Asks (NamesUser userId) True :=
  hp.mono (namesUser_of_kind hkinds userId) fun _ => trivial

theorem asksNamesUser_findGrantIn {userId : Option String} (tool : String) (now : Nat) :
    ∀ candidates : List (String × String),
      (∀ c ∈ candidates, c.1 = "user" → userId = some c.2) →
      (findGrantIn tool now candidates).Asks (NamesUser userId) True := by
  intro candidates
  induction candidates with
  | nil =>
      intro _
      trivial
  | cons c rest ih =>
      intro hall
      have hrest := ih fun c' hc' => hall c' (List.mem_cons_of_mem c hc')
      have hnames : NamesUser userId (.findGrants tool c.1 c.2 now) := by
        by_cases hscope : c.1 = "user"
        · simp [NamesUser, namesUser, hall c List.mem_cons_self hscope]
        · simp [NamesUser, namesUser, hscope]
      rw [findGrantIn]
      refine asks_bind (asks_query hnames) ?_
      intro found
      cases found with
      | error e => exact hrest
      | ok grants =>
          dsimp only
          split
          · trivial
          · exact hrest

theorem mem_candidates_user {scopes : GrantScopes} {c : String × String}
    (hc : c ∈ scopes.candidates)
    (hscope : c.1 = "user") : scopes.userId = some c.2 := by
  simp only [GrantScopes.candidates, List.mem_append, Option.mem_toList, Option.map_eq_some_iff,
    Option.filter_eq_some_iff] at hc
  rcases hc with (⟨id, _, rfl⟩ | ⟨id, hid, rfl⟩) | ⟨id, _, rfl⟩
  · exact absurd (show "conversation" = "user" from hscope) (by decide)
  · exact hid.1
  · exact absurd (show "tenant" = "user" from hscope) (by decide)

theorem asksNamesUser_filterByGrants (blocked : List LlmToolCall) :
    (filterByGrants s input run blocked).Asks (NamesUser run.userId) True := by
  rw [filterByGrants]
  split
  · trivial
  · refine asks_foldlM ?_ blocked []
    intro survivors call
    rw [filterByGrant]
    split
    · trivial
    · split
      · trivial
      · refine asks_bind ?_ fun found => by cases found <;> trivial
        rw [findActiveGrant]
        split
        · trivial
        · exact asks_bind (asks_query rfl) fun now =>
            asksNamesUser_findGrantIn _ now _ fun c hc => mem_candidates_user hc

/-- A decision that is remembered for the user names the user. -/
theorem rememberedScope_user {scope refId : String}
    (hscope : rememberedScope input run = some (scope, refId)) (huser : scope = "user") :
    run.userId = some refId := by
  rw [rememberedScope, Option.bind_eq_some_iff] at hscope
  obtain ⟨remembered, _, hscope⟩ := hscope
  dsimp only at hscope
  split at hscope
  · rw [Option.map_eq_some_iff] at hscope
    obtain ⟨id, hid, heq⟩ := hscope
    obtain ⟨rfl, rfl⟩ := Prod.mk.inj heq
    rw [if_neg (by rw [huser]; decide), if_neg (by rw [huser]; decide)] at hid
    exact (Option.filter_eq_some_iff.mp hid).1
  · cases hscope

theorem asksNamesUser_persistToolGrantIfRequested (toolName : String) :
    (persistToolGrantIfRequested s input run toolName).Asks (NamesUser run.userId) True := by
  rw [persistToolGrantIfRequested.eq_def]
  split
  · rename_i tool scope refId _ _ hremembered
    split
    · trivial
    · refine asks_bind (asks_query ?_) fun _ => trivial
      by_cases hscope : scope = "user"
      · simp [NamesUser, namesUser, rememberedScope_user input run hremembered hscope]
      · simp [NamesUser, namesUser, hscope]
  · trivial

theorem asksNamesUser_executeToolCalls (calls : List LlmToolCall) (actions : List CoreAiAction) :
    (executeToolCalls s input run calls actions).Asks (NamesUser run.userId) True := by
  induction calls generalizing actions with
  | nil => trivial
  | cons call calls ih =>
      rw [executeToolCalls]
      refine asks_bind (asksNamesUser_of_kinds (by decide) (asks_executeToolCall s run call)) ?_
      intro action
      split
      · trivial
      · split
        · exact asks_bind (asksNamesUser_persistToolGrantIfRequested s input run _) fun _ => ih _
        · exact ih _

theorem asksNamesUser_handleToolCalls (toolCalls : List LlmToolCall) (st : AutoState) :
    (handleToolCalls s input run toolCalls st).Asks (NamesUser run.userId) True := by
  refine asks_bind (asksNamesUser_of_kinds (by decide) (asks_evaluateToolPolicies s run toolCalls))
    ?_
  intro outcomes
  split
  · trivial
  · refine asks_bind (asksNamesUser_filterByGrants s input run _) ?_
    intro survivors
    split
    · trivial
    · refine asks_bind (asksNamesUser_executeToolCalls s input run toolCalls []) ?_
      rintro ⟨actions, question⟩
      cases question <;> trivial

theorem asks_chat (site : ChatSite) (messages : List LlmMessage) :
    (chat site messages).Asks (Query.OneOf [.model]) True := by
  refine asks_bind (asks_await (List.mem_singleton.mpr rfl)) ?_
  intro answer
  cases answer <;> trivial

theorem asks_compactMessages (messages : List LlmMessage) :
    (compactMessages s run messages).Asks (Query.OneOf [.model]) True := by
  rw [compactMessages]
  split
  · trivial
  · refine asks_bind (asks_await (List.mem_singleton.mpr rfl)) ?_
    intro answer
    cases answer <;> trivial

theorem asksNamesUser_autoLoop (left : Nat) (st : AutoState) :
    (autoLoop s input run left st).Asks (NamesUser run.userId) True := by
  induction left generalizing st with
  | zero => trivial
  | succ left ih =>
      rw [autoLoop]
      refine asks_bind ?_ ?_
      · refine asks_bind (asksNamesUser_of_kinds (by decide)
          (asks_compactMessages s run st.messages)) ?_
        intro messages
        refine asks_bind (asksNamesUser_of_kinds (by decide) (asks_chat .step _)) ?_
        intro completion
        dsimp only
        split
        · trivial
        · exact asksNamesUser_handleToolCalls s input run _ _
      · rintro ⟨st', again⟩
        dsimp only
        split
        · exact ih st'
        · trivial

theorem asksNamesUser_runAuto : (runAuto s input run).Asks (NamesUser run.userId) True := by
  refine asks_bind (asksNamesUser_of_kinds (by decide) (asks_notifyHooks _ _ _)) fun _ => ?_
  refine asks_bind (asks_query rfl) fun answer => ?_
  refine asks_bind (asks_orThrow answer) fun systemPrompt => ?_
  refine asks_bind (asksNamesUser_autoLoop s input run _ _) fun st => ?_
  refine asks_bind (asksNamesUser_of_kinds (by decide) (asks_persistTurn s input _ _)) fun _ => ?_
  refine asks_bind (asksNamesUser_of_kinds (by decide) (asks_audit s _)) fun _ => ?_
  exact asks_bind (asksNamesUser_of_kinds (by decide) (asks_notifyHooks _ _ _)) fun _ => trivial

theorem asks_authorizePlan (plan : List LlmToolCall) :
    (authorizePlan run plan).Asks (Query.OneOf [.authorization]) True := by
  refine asks_foldlM ?_ plan []
  intro denied call
  refine asks_bind ?_ fun _ => trivial
  rw [authorizeCall]
  split
  · trivial
  · split
    · trivial
    · refine asks_bind (asks_await (List.mem_singleton.mpr rfl)) fun answer => ?_
      exact asks_orThrow answer

/-- A part of which all histories name the user only. -/
abbrev NamesThroughout (userId : Option String) {α : Type} (p : Ai α) (h : History) : Prop :=
  wp (fun _ q => NamesUser userId q) (fun _ => True) p (fun _ _ => True) h

theorem namesThroughout_of_asks {userId : Option String} {α : Type} {p : Ai α}
    (hp : p.Asks (NamesUser userId) True) (h : History) : NamesThroughout userId p h :=
  wp_mono (fun _ _ _ => trivial) (wp_of_asks (fun _ _ hq => hq) (fun _ _ _ => trivial) hp)

theorem namesThroughout_executePlan (calls : List LlmToolCall) (h : History) :
    NamesThroughout run.userId (executePlan s run calls) h :=
  namesThroughout_of_asks (asksNamesUser_of_kinds (by decide) (asks_executePlan s run calls)) h

theorem namesThroughout_authorizePlan (calls : List LlmToolCall) (h : History) :
    NamesThroughout run.userId (authorizePlan run calls) h :=
  namesThroughout_of_asks (asksNamesUser_of_kinds (by decide) (asks_authorizePlan run calls)) h

theorem namesThroughout_audit (record : AiInteractionRecord) (h : History) :
    NamesThroughout run.userId (audit s record) h :=
  namesThroughout_of_asks (asksNamesUser_of_kinds (by decide) (asks_audit s record)) h

theorem namesThroughout_chat (site : ChatSite) (messages : List LlmMessage) (h : History) :
    NamesThroughout run.userId (chat site messages) h :=
  namesThroughout_of_asks (asksNamesUser_of_kinds (by decide) (asks_chat site messages)) h

theorem namesThroughout_finishPlan (messages : List LlmMessage) (planning : LlmResponse)
    (h : History) : NamesThroughout run.userId (finishPlan s input run messages planning) h := by
  refine wp_bind (namesThroughout_executePlan s run _ h) fun actions h₁ _ => ?_
  refine wp_bind (namesThroughout_chat run .final _ h₁) fun completion h₂ _ => ?_
  refine wp_bind (namesThroughout_of_asks (asksNamesUser_of_kinds (by decide)
    (asks_persistTurn s input _ _)) h₂) fun _ h₃ _ => ?_
  exact wp_bind (namesThroughout_audit s run _ h₃) fun _ _ _ => wp_pure trivial

theorem namesThroughout_settlePlan (messages : List LlmMessage) (planning : LlmResponse)
    (denied : List CoreAiAction) (h : History) :
    NamesThroughout run.userId (settlePlan s input run messages planning denied) h := by
  rw [settlePlan]
  split
  · exact wp_bind (namesThroughout_audit s run _ h) fun _ _ _ => wp_pure trivial
  · split
    · exact wp_pure trivial
    · exact namesThroughout_finishPlan s input run messages planning h

theorem namesThroughout_runPlan (h : History) :
    NamesThroughout run.userId (runPlan s input run) h := by
  refine wp_bind (wp_query rfl fun answer => ?_) (fun _ _ hw => hw)
  refine wp_bind (wp_orThrow (R := fun _ _ => True) (fun _ _ => trivial) (fun _ _ => trivial)) ?_
  intro systemPrompt h₁ _
  refine wp_bind (namesThroughout_chat run .plan _ h₁) fun planning h₂ _ => ?_
  refine wp_bind (namesThroughout_authorizePlan run _ h₂) fun denied h₃ _ => ?_
  exact namesThroughout_settlePlan s input run _ planning denied h₃

end Asks

variable (s : CoreAiService) (input : CoreAiPromptInput) (caller : Caller)
  (connection : AiConnection)

theorem prompt_namesUser (env : Environment) :
    ∀ x ∈ (Dialogue.run env (prompt s input caller connection) []).1,
      namesUser (caller.currentUser.map AiToolUser.id) x.1 = true := by
  refine Guarded.forall (P := NamesUser (caller.currentUser.map AiToolUser.id))
    (guarded_of_wp (F := fun _ => True) (R := fun _ _ => True) env ?_)
  refine wp_bind (wp_prepareRun caller connection fun h q hq =>
    namesUser_of_kind (by decide) _ q hq) ?_
  rintro run h ⟨_, hrun⟩
  have huser : run.userId = caller.currentUser.map AiToolUser.id := by
    rw [hrun h (List.prefix_refl h)]
    rfl
  rw [← huser]
  show NamesThroughout run.userId _ h
  split
  · exact namesThroughout_runPlan s input run h
  · exact namesThroughout_of_asks (asksNamesUser_runAuto s input run) h

variable (objectId : String → Option String) (others : Environment)

/-- A run of `prompt` on a database. -/
def promptOn (db : AiDatabase) : History × Except String CoreAiResponse :=
  Dialogue.run (onDatabase objectId others caller.currentUser db) (prompt s input caller connection)
    []

/-- **Isolation.** A run of a user that is no admin, that names no conversation of
    another user where it writes and where it looks for grants, is the same on every
    database that has the same for the user, and it leaves all of others as it is. -/
theorem conversations_isolated (db db' : AiDatabase) (hadmin : isAdmin caller.currentUser = false)
    (hsame : SameOwn objectId caller.currentUser db db')
    (hown : ∀ x ∈ (promptOn s input caller connection objectId others db).1,
      namesOwn objectId caller.currentUser db db' x.1 = true) :
    promptOn s input caller connection objectId others db'
        = promptOn s input caller connection objectId others db ∧
      SameOthers objectId caller.currentUser db
        (db.after objectId (promptOn s input caller connection objectId others db).1) := by
  have huser := prompt_namesUser s input caller connection
      (onDatabase objectId others caller.currentUser db)
  refine ⟨?_, sameOthers_after hown huser⟩
  refine run_congr (K := fun _ q => namesOwn objectId caller.currentUser db db' q = true ∧
    namesUser (caller.currentUser.map AiToolUser.id) q = true) ?_ _ (List.nil_append _).symm ?_
  · rintro h q ⟨hq, hq'⟩
    exact onDatabase_eq others hadmin hsame h q hq hq'
  · exact guarded_of_forall fun x hx => ⟨hown x hx, huser x hx⟩

/-! ## A conversation of another user -/

def writeNote : AiTool := { name := "write_note", roles := ["s_user"], mutating := true }

/-- What mutates must be confirmed. -/
def notesService : CoreAiService where
  config              := { mutatingDefault := true }
  parse _             := none
  regExp _ _          := none
  toolRegistry        := [writeNote]
  toolGrantService    := true
  conversationService := true

def notesCaller : Caller := { currentUser := some { id := "u1" } }

def notesConnection : AiConnection := { id := "m1", nativeTools := true }

/-- A model that writes a note, and then answers. -/
def notesEnvironment : Environment
  | _, .hit _                 => .ok 0
  | _, .findBudgetLimit _ _   => .ok none
  | _, .periodStart _         => (0 : Nat)
  | _, .findInteractions      => .ok []
  | _, .getMode _             => none
  | _, .loadRecentMessages _  => .ok []
  | _, .buildSystemPrompt     => .ok ""
  | _, .buildPlanSystemPrompt => .ok ""
  | h, .chat _ _              =>
      if h.any fun x => x.1.kind = .tool then .ok { text := "Done" }
      else .ok { text := "", toolCalls := some [⟨"write_note", .obj []⟩] }
  | _, .findPolicies _ _      => .ok ()
  | _, .now                   => (0 : Nat)
  | _, .findGrants _ _ _ _    => .ok []
  | _, .authorize _ _         => .ok { allowed := true }
  | _, .preToolUse _ _        => .ok none
  | _, .execute _ _ _         => .ok (.value none)
  | _, .notify _ _            => .ok ()
  | _, .grant _ _ _           => .ok ()
  | _, .appendMessage _ _     => .ok ()
  | _, .record _              => .ok 0

/-- `c1` is of `u1`, and `c2` of `u2`. -/
def notesDatabase (grants : List ToolGrant) : AiDatabase where
  conversations key :=
    if key = "c1" then some { createdBy := some "u1" }
    else if key = "c2" then some { createdBy := some "u2" }
    else none
  grants            := grants

/-- What `u2` has allowed in its conversation. -/
def grantOfOther : ToolGrant := { tool := "write_note", scope := "conversation", refId := "c2" }

def notesOn (input : CoreAiPromptInput) (db : AiDatabase) :
    History × Except String CoreAiResponse :=
  promptOn notesService input notesCaller notesConnection some notesEnvironment db

/-- A run in its own conversation, beside a grant of the other user. -/
theorem conversations_isolated_own :
    notesOn { prompt := "Hi", conversationId := some "c1" } (notesDatabase [])
        = notesOn { prompt := "Hi", conversationId := some "c1" } (notesDatabase [grantOfOther]) ∧
      SameOthers some notesCaller.currentUser (notesDatabase [grantOfOther])
        ((notesDatabase [grantOfOther]).after some
          (notesOn { prompt := "Hi", conversationId := some "c1" }
            (notesDatabase [grantOfOther])).1) := by
  refine conversations_isolated notesService { prompt := "Hi", conversationId := some "c1" }
    notesCaller notesConnection some notesEnvironment (notesDatabase [grantOfOther])
    (notesDatabase []) (by decide) ⟨fun _ => rfl, by decide⟩ ?_
  decide +kernel

/-- With the conversation of another user named, its grants let a tool through that
    would await a confirmation, the turns are appended to it, and a decision is
    remembered for it. -/
theorem conversation_of_other_leaks :
    (SameOwn some notesCaller.currentUser (notesDatabase [grantOfOther]) (notesDatabase []) ∧
      ((notesOn { prompt := "Hi", conversationId := some "c2" }
        (notesDatabase [grantOfOther])).1.any
        fun x => x.1.kind = .tool) = true ∧
      ((notesOn { prompt := "Hi", conversationId := some "c2" } (notesDatabase [])).1.any
        fun x => x.1.kind = .tool) = false) ∧
    ((notesDatabase []).after some (notesOn
        { prompt := "Hi", conversationId := some "c2", confirm := some true,
          rememberDecision := some "conversation" } (notesDatabase [])).1).conversations "c2"
      = some { createdBy := some "u2", messages := [⟨"Hi", "user"⟩, ⟨"Done", "assistant"⟩] } ∧
    ((notesDatabase []).after some (notesOn
        { prompt := "Hi", conversationId := some "c2", confirm := some true,
          rememberDecision := some "conversation" } (notesDatabase [])).1).grants =
            [grantOfOther] := by
  refine ⟨⟨⟨fun _ => rfl, by decide⟩, ?_, ?_⟩, ?_, ?_⟩
  all_goals decide +kernel

end CoreAi
