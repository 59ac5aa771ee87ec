import NestServer.Ai.Service

/-! # Conversations and grants

    The collections `aiConversations` and `aiToolGrants` with what a run does to
    them: `core-ai-conversation.service.ts` and `core-ai-tool-grant.service.ts`. -/

namespace CoreAi

/-- What a run reads of a document of `aiConversations`. -/
structure CoreAiConversation where
  createdBy : Option String := none
  messages  : List Turn := []
deriving DecidableEq, Repr

/-- The two collections; conversations have their `_id`. -/
structure AiDatabase where
  conversations : String → Option CoreAiConversation
  grants        : List ToolGrant

/-- `currentUser?.id && String(doc.createdBy) === String(currentUser.id)` -/
def isOwner (user : Option AiToolUser) (doc : CoreAiConversation) : Bool :=
  user.any fun u => JsText.truthy u.id && doc.createdBy.getD "undefined" = u.id

def isAdmin (user : Option AiToolUser) : Bool := user.any fun u => u.roles.contains "admin"

/-- `$slice` with a negative limit. -/
def lastOf (limit : Nat) (messages : List Turn) : List Turn :=
  messages.drop (messages.length - limit)

def maxRetainedMessages : Nat := 500

namespace AiDatabase

section Conversations

-- the cast of a text to an `ObjectId`, where it is valid
variable (objectId : String → Option String) (db : AiDatabase)

def findById (id : String) : Option CoreAiConversation := (objectId id).bind db.conversations

/-- The last turns of a conversation, for its owner and for admins. -/
def loadRecentMessages (id : String) (user : Option AiToolUser) : List Turn :=
  match (db.findById objectId id).filter fun _ => JsText.truthy id with
  | none     => []
  | some doc => if !isOwner user doc && !isAdmin user then [] else lastOf 20 doc.messages

def pushMessage (message : Turn) (doc : CoreAiConversation) : CoreAiConversation :=
  { doc with messages := lastOf maxRetainedMessages (doc.messages ++ [message]) }

/-- `findByIdAndUpdate(id, { $push: … })` -/
def appendMessage (id : String) (message : Turn) : AiDatabase :=
  { db with
    conversations := fun key =>
      if objectId id = some key then (db.conversations key).map (pushMessage message)
      else db.conversations key }

end Conversations

variable (db : AiDatabase)

/-- The `findOne` of one scope. -/
def findGrant (tool scope refId : String) (now : Nat) : List ToolGrant :=
  (db.grants.find? fun g => g.active tool scope refId now).toList

/-- The key of a grant. -/
def isGrantOf (tool scope refId : String) (g : ToolGrant) : Bool :=
  g.tool = tool && g.scope = scope && g.refId = refId

/-- `$set` of the upsert. -/
def allow (g : ToolGrant) : ToolGrant :=
  { g with decision := some "allow", enabled := some true, expiresAt := none }

/-- The upsert of `grant`. -/
def upsertGrant (tool scope refId : String) (grants : List ToolGrant) : List ToolGrant :=
  if grants.any (isGrantOf tool scope refId) then
    grants.map fun g => if isGrantOf tool scope refId g then allow g else g
  else grants ++ [allow { tool := tool, scope := scope, refId := refId }]

def grant (tool scope refId : String) : AiDatabase :=
  { db with grants := upsertGrant tool scope refId db.grants }

end AiDatabase

/-! ## Runs on a database -/

def LlmMessage.turn (message : LlmMessage) : Turn where
  content := message.content
  role    :=
    match message.role with
    | .assistant => "assistant"
    | .system    => "system"
    | .user      => "user"

/-- What an exchange has written. -/
def effect (objectId : String → Option String) (db : AiDatabase) : Exchange → AiDatabase
  | ⟨.appendMessage id message, .ok _⟩ => db.appendMessage objectId id message.turn
  | ⟨.grant tool scope refId, .ok _⟩   => db.grant tool scope refId
  | _                                  => db

/-- The database after what has been said. -/
def AiDatabase.after (objectId : String → Option String) (db : AiDatabase) (h : History) :
    AiDatabase :=
  h.foldl (effect objectId) db

/-- The two collections answer for themselves, if they can be reached; all else is
    answered by `others`. -/
def onDatabase (objectId : String → Option String) (others : Environment)
    (user : Option AiToolUser) (db : AiDatabase) : Environment
  | h, .loadRecentMessages id         =>
      let reached : Except String (List Turn) := others h (.loadRecentMessages id)
      reached.map fun _ => (db.after objectId h).loadRecentMessages objectId id user
  | h, .findGrants tool scope refId now =>
      let reached : Except String (List ToolGrant) := others h (.findGrants tool scope refId now)
      reached.map fun _ => (db.after objectId h).findGrant tool scope refId now
  | h, .appendMessage id message      =>
      if (objectId id).isNone then .error "CastError" else others h (.appendMessage id message)
  | h, q                              => others h q

end CoreAi
