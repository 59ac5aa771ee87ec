import NestServer.Mongo.Collection
import NestServer.TenantRoles
import Mathlib.Data.List.Dedup

/-! # The tenant plugin's write hooks

    `mongoose-tenant.plugin.ts`: the hooks that `mongooseTenantPlugin` installs
    on a schema with a `tenantId` path.  A hook reads the configuration and the
    request context and either throws or hands on a write, possibly rewritten:
    `hooked` is that step for every kind of write, and the writes it yields are
    what the database carries out. -/

open Mongo

namespace TenantPlugin

/-- What the plugin reads of `IRequestContext`. -/
structure RequestContext where
  tenantId          : Option String := none
  tenantIds         : Option (List String) := none
  isAdminBypass     : Bool := false
  bypassTenantGuard : Bool := false
deriving DecidableEq, Repr

/-- The surroundings of a hook: the configuration and the request context, if
    there is one. -/
structure Surroundings where
  multiTenancy : Option MultiTenancy
  context      : Option RequestContext

structure ForbiddenException where
  message : String
deriving DecidableEq, Repr

/-- `shouldBypass(modelName)` -/
def shouldBypass (s : Surroundings) (modelName : String) : Bool :=
  match s.multiTenancy with
  | none => true
  | some config =>
      if config.active = false then true
      else match s.context with
        | none => true
        | some context => context.bypassTenantGuard
            || (JsText.truthy modelName && (config.excludeSchemas.getD []).contains modelName)

/-- `{ tenantId }` -/
def byTenant (tenantId : String) : FilterQuery :=
  OrderedMap.empty.set "tenantId" (.eq (.str tenantId))

/-- `{ tenantId: { $in: tenantIds } }` -/
def byTenants (tenantIds : List String) : FilterQuery :=
  OrderedMap.empty.set "tenantId" (.within (tenantIds.map .str))

/-- `resolveTenantFilter(modelName)`; `none` is `undefined`. -/
def resolveTenantFilter (s : Surroundings) (modelName : String) :
    Except ForbiddenException (Option FilterQuery) :=
  if shouldBypass s modelName then .ok none
  else
    let context := s.context.getD {}
    match context.tenantId.filter JsText.truthy, context.tenantIds with
    | some tenantId, _ => .ok (some (byTenant tenantId))
    | none, some tenantIds => .ok (some (byTenants tenantIds))
    | none, none =>
        if context.isAdminBypass then .ok (some .empty)
        else .error ⟨"Tenant context required: this data is tenant-scoped but no valid tenant context was provided"⟩

/-- `resolveSingleTenantId(modelName)` -/
def resolveSingleTenantId (s : Surroundings) (modelName : String) : Option String :=
  if shouldBypass s modelName then none
  else (s.context.bind RequestContext.tenantId).filter JsText.truthy

mutual

/-- `String(value)` -/
def stringOf : Value → String
  | .null   => "null"
  | .bool b => if b then "true" else "false"
  | .num n  => toString n
  | .str t  => t
  | .list v => ",".intercalate (stringsOf v)
  | .doc _  => "[object Object]"

/-- The elements of an array as `join` writes them: `null` as nothing. -/
def stringsOf : List Value → List String
  | []           => []
  | .null :: vs  => "" :: stringsOf vs
  | v :: vs      => stringOf v :: stringsOf vs

end

/-- `assertOwnTenant(value, ownTenantId, isNew)` -/
def assertOwnTenant (value : Option Value) (ownTenantId : String) (isNew : Bool) :
    Except ForbiddenException Unit :=
  match value with
  | none => .ok ()
  | some v =>
      if v = .null ∨ v = .str ownTenantId then .ok ()
      else .error ⟨(if isNew then "Cannot create a document in a foreign tenant (got \""
          else "Cannot move a document to a foreign tenant (got \"")
        ++ stringOf v ++ "\", own tenant is \"" ++ ownTenantId ++ "\")"⟩

/-! ## Query hooks -/

/-- `[update?.tenantId, update?.$set?.tenantId, update?.$setOnInsert?.tenantId]`
    of `this.getUpdate()`: an array has none of them, a replacement only the
    first, a deletion no update. -/
def candidates : Change → List (Option Value)
  | .updateOne _ (.operators u) _ | .updateMany (.operators u) _ =>
      [u.plain.get? "tenantId", u.set.get? "tenantId", u.setOnInsert.get? "tenantId"]
  | .replaceOne _ d _ => [d.get? "tenantId"]
  | .updateOne _ (.pipeline _) _ | .updateMany (.pipeline _) _ => []
  | .deleteOne _ | .deleteMany => []

/-- `if (candidate !== undefined) assertOwnTenant(candidate, single, false)`, for
    one candidate after the other. -/
def assertCandidates (single : String) : List (Option Value) → Except ForbiddenException Unit
  | []      => .ok ()
  | c :: cs => match assertOwnTenant c single false with
      | .error e => .error e
      | .ok ()   => assertCandidates single cs

/-- The hook of `updateOne`, `updateMany`, `findOneAndUpdate`, `replaceOne`,
    `findOneAndReplace`, `deleteOne`, `deleteMany` and `findOneAndDelete`:
    `this.where(filter)` overrides the caller's own condition on `tenantId`,
    then the update is looked at. -/
def preQuery (s : Surroundings) (modelName : String) (filter : FilterQuery) (change : Change) :
    Except ForbiddenException Write :=
  match resolveTenantFilter s modelName with
  | .error e => .error e
  | .ok tenantFilter =>
      let where_ := (tenantFilter.map filter.spread).getD filter
      match resolveSingleTenantId s modelName with
      | none => .ok (.query where_ change)
      | some single => match assertCandidates single (candidates change) with
          | .error e => .error e
          | .ok ()   => .ok (.query where_ change)

/-! ## Documents -/

/-- `!doc.tenantId` -/
def lacksTenantId (d : Document) : Bool :=
  match d.get? "tenantId" with
  | none   => true
  | some v => !v.truthy

/-- `doc.tenantId = tenantId` -/
def stamp (d : Document) (tenantId : String) : Document := d.set "tenantId" (.str tenantId)

/-- The hook of `save`, on the document as it is in memory. -/
def preSave (s : Surroundings) (modelName : String) (isNew : Bool) (d : Document) :
    Except ForbiddenException Document :=
  match resolveSingleTenantId s modelName with
  | none => .ok d
  | some tenantId =>
      if isNew && lacksTenantId d then .ok (stamp d tenantId)
      else match assertOwnTenant (d.get? "tenantId") tenantId isNew with
        | .error e => .error e
        | .ok ()   => .ok d

/-- What `save` writes of a document that exists: its modified fields, and
    `$unset` where one has no value left. -/
def delta (d : Document) (modified : List String) : UpdateDocument where
  set   := d.filterKeys modified.contains
  unset := (modified.filter fun k => (d.get? k).isNone).dedup

/-- `{ _id: id }` -/
def byId (id : String) : FilterQuery := OrderedMap.empty.set "_id" (.eq (.str id))

/-- One document of `insertMany`. -/
def preInsert (tenantId : String) (d : Document) : Except ForbiddenException Document :=
  if lacksTenantId d then .ok (stamp d tenantId)
  else match assertOwnTenant (d.get? "tenantId") tenantId true with
    | .error e => .error e
    | .ok ()   => .ok d

/-- The first argument of `insertMany`: an array, or one document. -/
inductive InsertDocs where
  | array (docs : List (String × Document))
  | single (id : String) (d : Document)

def insertAll (tenantId : String) : List (String × Document) →
    Except ForbiddenException (List Write)
  | [] => .ok []
  | (id, d) :: docs => match preInsert tenantId d, insertAll tenantId docs with
      | .ok d', .ok ws    => .ok (.insertOne id d' :: ws)
      | .error e, _       => .error e
      | .ok _, .error e   => .error e

/-- The hook of `insertMany`: only an array is looked through. -/
def preInsertMany (s : Surroundings) (modelName : String) (docs : InsertDocs) :
    Except ForbiddenException (List Write) :=
  match resolveSingleTenantId s modelName, docs with
  | some tenantId, .array docs => insertAll tenantId docs
  | none,          .array docs => .ok (docs.map fun e => .insertOne e.1 e.2)
  | _,             .single id d => .ok [.insertOne id d]

/-- One op of `bulkWrite`: an insert without a tenant is stamped, the filter of
    any other op is spread under the tenant's. -/
def preOp (filter : FilterQuery) (tenantId : Option String) : Write → Write
  | .insertOne id d => match tenantId with
      | some t => if lacksTenantId d then .insertOne id (stamp d t) else .insertOne id d
      | none   => .insertOne id d
  | .query f change => .query (f.spread filter) change

/-- The hook of `bulkWrite`. -/
def preBulkWrite (s : Surroundings) (modelName : String) (ops : List Write) :
    Except ForbiddenException (List Write) :=
  match resolveTenantFilter s modelName with
  | .error e        => .error e
  | .ok none        => .ok ops
  | .ok (some filter) => .ok (ops.map (preOp filter (resolveSingleTenantId s modelName)))

/-! ## All writes of a model -/

/-- A write as the caller issues it. -/
inductive ModelWrite where
  /-- `new Model(doc).save()` -/
  | create (id : String) (d : Document)
  /-- `save()` of a document that exists, with its modified paths. -/
  | save (id : String) (d : Document) (modified : List String)
  | insertMany (docs : InsertDocs)
  | query (filter : FilterQuery) (change : Change)
  | bulkWrite (ordered : Bool) (ops : List Write)

/-- The hook of a write: it throws, or yields what the database is handed, and
    whether a failure ends the list. -/
def hooked (s : Surroundings) (modelName : String) :
    ModelWrite → Except ForbiddenException (Bool × List Write)
  | .create id d => match preSave s modelName true d with
      | .error e => .error e
      | .ok d'   => .ok (true, [.insertOne id d'])
  | .save id d modified => match preSave s modelName false d with
      | .error e => .error e
      | .ok d'   => .ok (true, if modified = [] then []
          else [.query (byId id)
            (.updateOne (fun _ _ => true) (.operators (delta d' modified)) none)])
  | .insertMany docs => match preInsertMany s modelName docs with
      | .error e => .error e
      | .ok ws   => .ok (true, ws)
  | .query filter change => match preQuery s modelName filter change with
      | .error e => .error e
      | .ok w    => .ok (true, [w])
  | .bulkWrite ordered ops => match preBulkWrite s modelName ops with
      | .error e => .error e
      | .ok ws   => .ok (ordered, ws)

/-- A write of the model: the exception of its hook, or the collection after it. -/
def perform (s : Surroundings) (modelName : String) (w : ModelWrite) (c : Collection) :
    Except ForbiddenException Collection :=
  match hooked s modelName w with
  | .error e          => .error e
  | .ok (ordered, ws) => .ok (Collection.execAll ordered ws c)

end TenantPlugin
