import Mathlib.Algebra.Order.Ring.Unbundled.Rat
import Mathlib.Data.List.Sort
import NestServer.OrderedMap
import NestServer.RoleEnum

/-! # Slots of the system prompt

    `core-ai-slot.service.ts` overlays the framework's default slots with the rows of a
    tenant, twice: `listEffective` for the admin who edits them, `resolveFragments` for
    the prompt of a run.  The rows are what the store has for the tenant, in its order.
    A text that is `null` or missing is `none`, a missing key is the empty text. -/

/-- `ResolvedPromptFragment`, which is also what a default is. -/
structure ResolvedPromptFragment where
  capability : Option String
  content    : String
  key        : String
  order      : ℚ
  scope      : Option String
deriving DecidableEq

/-- A row of the store. -/
structure CoreAiSlot where
  id          : Option String
  capability  : Option String
  content     : Option String
  description : Option String
  enabled     : Option Bool
  key         : String
  locale      : Option String
  order       : Option ℚ
  scope       : Option String
  tenantId    : Option String
deriving DecidableEq

/-- An entry of the admin's list. -/
structure EffectiveSlot where
  capability  : Option String
  content     : Option String
  description : Option String
  enabled     : Bool
  id          : Option String
  isOverride  : Bool
  isSystem    : Bool
  key         : String
  locale      : Option String
  order       : ℚ
  scope       : Option String
  systemKey   : Option String
  tenantId    : Option String
deriving DecidableEq

namespace CoreAiSlotService

/-- The order of a slot that names none. -/
def defaultOrder : ℚ := 100

/-- A text that is there and not empty. -/
def text? (text : Option String) : Option String := text.filter JsText.truthy

def fragmentApplies (fragmentCapability : Option String) (runCapability : String) : Bool :=
  match text? fragmentCapability with
  | none            => true
  | some capability => capability = "all" || capability = runCapability

def scopeApplies (fragmentScope : Option String) (runScopes : List String) : Bool :=
  match text? fragmentScope with
  | none       => true
  | some scope => runScopes.contains scope

/-- `content?.trim()` leaves something. -/
def hasContent (content : Option String) : Bool :=
  content.any fun text => JsText.truthy (JsText.trim text)

/-! ## The list of an admin -/

/-- `if (!row?.key) continue;` -/
def keyed (rows : List CoreAiSlot) : List CoreAiSlot := rows.filter fun row => JsText.truthy row.key

/-- The rows by their key, the last one of a key. -/
def rowsByKey (rows : List CoreAiSlot) : OrderedMap String CoreAiSlot :=
  (keyed rows).foldl (fun byKey row => byKey.set row.key row) .empty

/-- The entry of a default. -/
def systemEntry (d : ResolvedPromptFragment) : Option CoreAiSlot → EffectiveSlot
  | some override =>
      { capability := override.capability.or d.capability
        content := some (override.content.getD d.content)
        description := override.description
        enabled := override.enabled ≠ some false
        id := override.id
        isOverride := true
        isSystem := false
        key := override.key
        locale := override.locale
        order := override.order.getD d.order
        scope := override.scope.or d.scope
        systemKey := some d.key
        tenantId := override.tenantId }
  | none =>
      { capability := d.capability
        content := some d.content
        description := none
        enabled := true
        id := none
        isOverride := false
        isSystem := true
        key := d.key
        locale := none
        order := d.order
        scope := d.scope
        systemKey := none
        tenantId := none }

/-- The entry of a slot that the tenant has made. -/
def customEntry (row : CoreAiSlot) : EffectiveSlot where
  capability := row.capability
  content := row.content
  description := row.description
  enabled := row.enabled ≠ some false
  id := row.id
  isOverride := false
  isSystem := false
  key := row.key
  locale := row.locale
  order := row.order.getD defaultOrder
  scope := row.scope
  systemKey := none
  tenantId := row.tenantId

def listEffective (defaults : List ResolvedPromptFragment) (rows : List CoreAiSlot) :
    List EffectiveSlot :=
  let byKey := rowsByKey rows
  let defaultKeys := defaults.map fun d => d.key
  let out := defaults.map (fun d => systemEntry d (byKey.get? d.key)) ++
    ((keyed rows).filter fun row => !defaultKeys.contains row.key).map customEntry
  out.insertionSort fun a b => a.order ≤ b.order

/-! ## The fragments of a run -/

/-- `options` of `resolveFragments`. -/
structure Options where
  capability : Option String
  locale     : Option String
  scopes     : Option (List String)

namespace Options

def runCapability (options : Options) : String := options.capability.getD "all"

def runScopes (options : Options) : List String := options.scopes.getD []

/-- Both filters of a slot apply to the run. -/
def applies (options : Options) (capability scope : Option String) : Bool :=
  fragmentApplies capability options.runCapability && scopeApplies scope options.runScopes

end Options

variable (options : Options)

/-- The defaults keyed by their slot. -/
def applyingDefaults (defaults : List ResolvedPromptFragment) :
    OrderedMap String ResolvedPromptFragment :=
  (defaults.filter fun d => options.applies d.capability d.scope).foldl
    (fun byKey d => byKey.set d.key d) .empty

def rank (row : CoreAiSlot) : Nat :=
  (match text? row.locale with
    | some locale => if some locale = options.locale then 2 else 0
    | none        => 1) + if (text? row.scope).isSome then 4 else 0

/-- What the loop over the rows skips: no key or content, another language, or a filter that
    does not apply. -/
def considered (row : CoreAiSlot) : Bool :=
  JsText.truthy row.key && (text? row.content).isSome
    && !((text? row.locale).any fun locale => (text? options.locale).any fun l => locale ≠ l)
    && options.applies row.capability row.scope

/-- One round of the loop over the rows. -/
def choose (chosen : OrderedMap String (Nat × CoreAiSlot)) (row : CoreAiSlot) :
    OrderedMap String (Nat × CoreAiSlot) :=
  if considered options row then
    match chosen.get? row.key with
    | some current =>
        if current.1 < rank options row then chosen.set row.key (rank options row, row) else chosen
    | none         => chosen.set row.key (rank options row, row)
  else chosen

/-- A row over what its key has so far. -/
def overlay (key : String) (row : CoreAiSlot) (current : Option ResolvedPromptFragment) :
    ResolvedPromptFragment where
  capability := row.capability
  content := row.content.getD ""
  key := key
  order := row.order.getD ((current.map fun fragment => fragment.order).getD defaultOrder)
  scope := row.scope

def resolveFragments (defaults : List ResolvedPromptFragment) (stored : List CoreAiSlot) :
    List ResolvedPromptFragment :=
  let byKey := applyingDefaults options defaults
  -- the store is asked twice
  let rows := stored.filter fun row => row.enabled ≠ some false
  let disabled := stored.filter fun row => row.enabled = some false
  let chosen := rows.foldl (choose options) .empty
  let byKey := chosen.entries.foldl
    (fun byKey e => byKey.set e.1 (overlay e.1 e.2.2 (byKey.get? e.1))) byKey
  let byKey := disabled.foldl
    (fun byKey row =>
      if JsText.truthy row.key && (byKey.get? row.key).isSome then byKey.delete row.key else byKey)
    byKey
  ((byKey.entries.map Prod.snd).filter fun f => hasContent (some f.content)).insertionSort
    fun a b => a.order ≤ b.order

end CoreAiSlotService
