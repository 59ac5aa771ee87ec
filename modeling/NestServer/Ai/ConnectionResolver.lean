import Mathlib.Data.List.Induction
import NestServer.RoleEnum

/-! # The choice of a connection

    `core-ai-connection-resolver.service.ts` asks layer after layer for a connection;
    a later layer overrides the earlier ones.  A soft layer may only name what is
    available to the tenant.  A hard one may name anything, and whether that exists is
    asked once, of the last choice.

    `resolveFrom_eq` says what is selected by that, `stale_override_discards` what is
    lost by it. -/

namespace ConnectionResolver

/-- `AiResolvableConnection`; a list that is not there is empty. -/
structure AiResolvableConnection where
  id                : String
  isDefault         : Bool := false
  enforced          : Bool := false
  enforcedTenantIds : List String := []
  tenantIds         : List String := []
deriving DecidableEq, Repr

structure AiConnectionResolveContext where
  codeOverride : Option String := none
  requested    : Option String := none
  tenantId     : Option String := none
  userId       : Option String := none
deriving DecidableEq, Repr

inductive Scope where
  | tenant
  | user
deriving DecidableEq, Repr

structure Preference where
  connectionId : String
  enforced     : Bool := false
deriving DecidableEq, Repr

/-- `preferenceService`, if there is one: what it has for a scope and an id. -/
abbrev PreferenceService := Option (Scope → String → Option Preference)

/-- An id that is truthy. -/
def given (id : Option String) : Option String := id.filter JsText.truthy

/-- Connections available to the tenant; without `tenantIds` one is available to all. -/
def availableConnections (connections : List AiResolvableConnection) (tenantId : Option String) :
    List AiResolvableConnection :=
  connections.filter fun c => c.tenantIds.isEmpty || (given tenantId).any c.tenantIds.contains

/-! ## Layers -/

section

variable (service : PreferenceService)

def getPreference (scope : Scope) (refId : Option String) : Option Preference :=
  service.bind fun get => (given refId).bind (get scope)

def loadTenantPreference (ctx : AiConnectionResolveContext) : Option Preference :=
  getPreference service .tenant ctx.tenantId

def globalDefault (available : List AiResolvableConnection) : Option String :=
  (available.find? AiResolvableConnection.isDefault).map AiResolvableConnection.id

def tenantDefault (ctx : AiConnectionResolveContext) : Option String :=
  ((loadTenantPreference service ctx).filter fun pref => !pref.enforced).map Preference.connectionId

def userDefault (ctx : AiConnectionResolveContext) : Option String :=
  (getPreference service .user ctx.userId).map Preference.connectionId

def clientSelection (ctx : AiConnectionResolveContext) : Option String := ctx.requested

def tenantEnforced (ctx : AiConnectionResolveContext) : Option String :=
  ((loadTenantPreference service ctx).filter Preference.enforced).map Preference.connectionId

def adminEnforcedGlobal (all : List AiResolvableConnection) : Option String :=
  (all.find? AiResolvableConnection.enforced).map AiResolvableConnection.id

def adminEnforcedForTenant (all : List AiResolvableConnection) (ctx : AiConnectionResolveContext) :
    Option String :=
  (given ctx.tenantId).bind fun tenantId =>
    (all.find? fun c => c.enforcedTenantIds.contains tenantId).map AiResolvableConnection.id

def codeOverride (ctx : AiConnectionResolveContext) : Option String := ctx.codeOverride

structure Layer where
  resolve : List AiResolvableConnection → List AiResolvableConnection →
    AiConnectionResolveContext → Option String
  soft    : Bool

/-- The ordered resolution layers, in ascending priority. -/
def resolutionLayers : List Layer :=
  [{ resolve := fun _ available _ => globalDefault available, soft := true },
   { resolve := fun _ _ ctx => tenantDefault service ctx, soft := true },
   { resolve := fun _ _ ctx => userDefault service ctx, soft := true },
   { resolve := fun _ _ ctx => clientSelection ctx, soft := true },
   { resolve := fun _ _ ctx => tenantEnforced service ctx, soft := false },
   { resolve := fun all _ _ => adminEnforcedGlobal all, soft := false },
   { resolve := fun all _ ctx => adminEnforcedForTenant all ctx, soft := false },
   { resolve := fun _ _ ctx => codeOverride ctx, soft := false }]

end

/-! ## The loop -/

/-- What is selected, and whether a mandatory layer said so. -/
structure Resolution where
  locked   : Bool := false
  selected : Option String := none
deriving DecidableEq, Repr

section

variable (connections : List AiResolvableConnection) (ctx : AiConnectionResolveContext)

def idsOf (connections : List AiResolvableConnection) : List String :=
  connections.map AiResolvableConnection.id

/-- One round of the loop. -/
def consult (choice : Resolution) (layer : Layer) : Resolution :=
  let available := availableConnections connections ctx.tenantId
  match given (layer.resolve connections available ctx) with
  | none           => choice
  | some candidate =>
      if layer.soft && !(idsOf available).contains candidate then choice
      else { locked := !layer.soft, selected := some candidate }

/-- A choice that no longer exists is dropped. -/
def dropStale (choice : Resolution) : Resolution :=
  if choice.selected.any fun id => !(idsOf connections).contains id then {} else choice

/-- The first available connection, where nothing is selected. -/
def orFirstAvailable (choice : Resolution) : Resolution :=
  { choice with
    selected := choice.selected.or (idsOf (availableConnections connections ctx.tenantId)).head? }

def resolveFrom (layers : List Layer) : Resolution :=
  if connections.isEmpty then {}
  else orFirstAvailable connections ctx
    (dropStale connections (layers.foldl (consult connections ctx) {}))

/-! ## The last word -/

/-- What the layer has a say for: a soft one only for what is available. -/
def Layer.candidate (layer : Layer) : Option String :=
  let available := availableConnections connections ctx.tenantId
  (given (layer.resolve connections available ctx)).filter fun id =>
    !layer.soft || (idsOf available).contains id

/-- The last layer with a candidate. -/
def lastWord (layers : List Layer) : Option (Layer × String) :=
  layers.reverse.findSome? fun layer => (layer.candidate connections ctx).map fun id => (layer, id)

/-- The last layer with a candidate that exists. -/
def lastUsable (layers : List Layer) : Option (Layer × String) :=
  layers.reverse.findSome? fun layer =>
    ((layer.candidate connections ctx).filter (idsOf connections).contains).map fun id => (layer, id)

/-- The resolution by a layer, or the first available connection, which nothing locks. -/
def resolutionBy (word : Option (Layer × String)) : Resolution :=
  match word with
  | some (layer, id) => { locked := !layer.soft, selected := some id }
  | none             =>
      { selected := (idsOf (availableConnections connections ctx.tenantId)).head? }

/-- A layer with a candidate decides, any other leaves the choice as it is. -/
theorem consult_eq (choice : Resolution) (layer : Layer) :
    consult connections ctx choice layer = match layer.candidate connections ctx with
      | some id => { locked := !layer.soft, selected := some id }
      | none    => choice := by
  rw [consult, Layer.candidate]
  cases hgiven : given (layer.resolve connections (availableConnections connections ctx.tenantId)
    ctx) with
  | none => rfl
  | some id =>
      dsimp only [Option.filter_some]
      cases hsoft : layer.soft with
      | false => rfl
      | true =>
          cases (idsOf (availableConnections connections ctx.tenantId)).contains id <;> rfl

theorem lastWord_concat (layers : List Layer) (layer : Layer) :
    lastWord connections ctx (layers ++ [layer]) =
      ((layer.candidate connections ctx).map fun id => (layer, id)).or
        (lastWord connections ctx layers) := by
  rw [lastWord, List.reverse_append, List.reverse_singleton, List.singleton_append,
    List.findSome?_cons]
  cases layer.candidate connections ctx <;> rfl

/-- The loop ends with the last word. -/
theorem foldl_consult (layers : List Layer) :
    layers.foldl (consult connections ctx) {} = match lastWord connections ctx layers with
      | some (layer, id) => { locked := !layer.soft, selected := some id }
      | none             => {} := by
  induction layers using List.reverseRecOn with
  | nil => rfl
  | append_singleton layers layer ih =>
      rw [List.foldl_append, List.foldl_cons, List.foldl_nil, consult_eq, lastWord_concat, ih]
      cases layer.candidate connections ctx <;> rfl

/-- The last word decides if it names a connection that exists. -/
theorem resolveFrom_layers (layers : List Layer) :
    resolveFrom connections ctx layers = resolutionBy connections ctx
      ((lastWord connections ctx layers).filter fun word =>
        (idsOf connections).contains word.2) := by
  cases connections with
  | nil =>
      have hnone : (lastWord [] ctx layers).filter (fun word => (idsOf []).contains word.2) = none :=
        Option.filter_eq_none_iff.mpr fun word _ h => by cases h
      rw [hnone]
      rfl
  | cons c rest =>
      rw [resolveFrom, if_neg (by simp), foldl_consult]
      cases hword : lastWord (c :: rest) ctx layers with
      | none => rfl
      | some word =>
          obtain ⟨layer, id⟩ := word
          rw [Option.filter_some]
          dsimp only
          cases hexists : (idsOf (c :: rest)).contains id with
          | true =>
              rw [dropStale, if_neg]
              · rfl
              · show ¬ (!(idsOf (c :: rest)).contains id) = true
                rw [hexists]
                decide
          | false =>
              rw [dropStale, if_pos]
              · rfl
              · show (!(idsOf (c :: rest)).contains id) = true
                rw [hexists]
                rfl

/-- **The choice of a connection.** The last layer that has a candidate decides, if that
    exists; else the first available connection is selected, and nothing is locked. -/
theorem resolveFrom_eq (service : PreferenceService) :
    resolveFrom connections ctx (resolutionLayers service) = resolutionBy connections ctx
      ((lastWord connections ctx (resolutionLayers service)).filter fun word =>
        (idsOf connections).contains word.2) :=
  resolveFrom_layers connections ctx (resolutionLayers service)

end

/-! ## Stale references -/

section

variable {connections : List AiResolvableConnection} {ctx : AiConnectionResolveContext}
  {layers : List Layer}

/-- Where the last word names a connection that exists, it is the last usable one. -/
theorem lastUsable_of_lastWord {word : Layer × String}
    (hword : lastWord connections ctx layers = some word)
    (hexists : (idsOf connections).contains word.2 = true) :
    lastUsable connections ctx layers = some word := by
  rw [lastWord] at hword
  rw [lastUsable]
  generalize layers.reverse = reversed at hword ⊢
  induction reversed with
  | nil => cases hword
  | cons layer rest ih =>
      rw [List.findSome?_cons] at hword ⊢
      cases hcandidate : layer.candidate connections ctx with
      | none =>
          rw [hcandidate] at hword
          exact ih hword
      | some id =>
          rw [hcandidate] at hword
          cases hword
          rw [Option.filter_some, if_pos hexists]
          rfl

theorem lastUsable_of_silence (hword : lastWord connections ctx layers = none) :
    lastUsable connections ctx layers = none := by
  refine List.findSome?_eq_none_iff.mpr ?_
  intro layer hlayer
  have hcandidate := List.findSome?_eq_none_iff.mp hword layer hlayer
  rw [Option.map_eq_none_iff] at hcandidate
  rw [hcandidate]
  rfl

/-- The last usable layer decides exactly if it has the last word, or if it is a soft
    one and asks for the first available connection. -/
theorem resolveFrom_lastUsable_iff :
    resolveFrom connections ctx layers
        = resolutionBy connections ctx (lastUsable connections ctx layers)
      ↔ (∀ word, lastWord connections ctx layers = some word →
          (idsOf connections).contains word.2 = true)
        ∨ ∀ layer id, lastUsable connections ctx layers = some (layer, id) → layer.soft = true ∧
          (idsOf (availableConnections connections ctx.tenantId)).head? = some id := by
  rw [resolveFrom_layers]
  cases hword : lastWord connections ctx layers with
  | none =>
      rw [lastUsable_of_silence hword]
      exact iff_of_true rfl (Or.inl fun word h => by cases h)
  | some word =>
      rw [Option.filter_some]
      by_cases hexists : (idsOf connections).contains word.2 = true
      · rw [if_pos hexists, lastUsable_of_lastWord hword hexists]
        refine iff_of_true rfl (Or.inl fun word' h => ?_)
        cases h
        exact hexists
      · rw [if_neg hexists]
        cases husable : lastUsable connections ctx layers with
        | none => exact iff_of_true rfl (Or.inr fun layer id h => by cases h)
        | some usable =>
            obtain ⟨layer, id⟩ := usable
            constructor
            · intro h
              refine Or.inr fun layer' id' hsame => ?_
              cases hsame
              obtain ⟨hlocked, hselected⟩ := Resolution.mk.inj h
              exact ⟨by simpa using hlocked, hselected⟩
            · rintro (hall | hsoft)
              · exact absurd (hall word rfl) hexists
              · obtain ⟨hlayer, hfirst⟩ := hsoft layer id rfl
                rw [resolutionBy, resolutionBy, hlayer, hfirst]
                rfl

end

/-- A stale override discards what the client asked for, though that is available. -/
theorem stale_override_discards :
    ¬ ∀ (service : PreferenceService) (connections : List AiResolvableConnection)
      (ctx : AiConnectionResolveContext),
      resolveFrom connections ctx (resolutionLayers service)
        = resolutionBy connections ctx (lastUsable connections ctx (resolutionLayers service)) := by
  intro h
  have hmeant := h none [{ id := "c1" }, { id := "c2" }]
    { requested := some "c2", codeOverride := some "c3" }
  exact absurd hmeant (by decide)

end ConnectionResolver
