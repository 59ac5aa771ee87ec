import NestServer.FilterHelper
import NestServer.Files.Orphans
import NestServer.Mongo.Sort
import NestServer.RoleEnum
import NestServer.StableSort

/-! # Listings

    `findFileInfo`: a page of three collections, from a page of each.  The rows are sorted
    again in JavaScript, where it is left open what comes of a comparator that is not
    consistent. -/

namespace Files.Listing

open FilterHelper Mongo

/-! ## Documents -/

/-- Not gone into by a path. -/
def IsLeaf (v : Bson) : Prop := (∀ fields, v ≠ .doc fields) ∧ ∀ vs, v ≠ .list vs

/-- The metadata is a record, and a content type is a text. -/
structure FileDocument where
  fields      : List (String × Bson)
  metadata    : ∀ v, fields.lookup "metadata" = some v →
    ∃ record, v = .doc record ∧ ∀ contentType, record.lookup "contentType" = some contentType →
    IsLeaf contentType
  contentType : ∀ v, fields.lookup "contentType" = some v → IsLeaf v

def FileDocument.row (document : FileDocument) : Bson := .doc document.fields

structure Collections where
  s3         : List FileDocument := []
  filesystem : List FileDocument := []
  gridfs     : List FileDocument := []

/-- `{ ...fields, [key]: value }` -/
def assign (key : String) (value : Option Bson) (fields : List (String × Bson)) :
    List (String × Bson) :=
  match value with
  | some value => OrderedMap.setEntries key value fields
  | none       => fields.filter fun field => field.1 ≠ key

/-- `metadata?.contentType` -/
def contentTypeOf (fields : List (String × Bson)) : Option Bson :=
  match fields.lookup "metadata" with
  | some (.doc record) => record.lookup "contentType"
  | _                  => none

def normalizeFileInfo : Bson → Bson
  | .doc fields => .doc (assign "contentType" (contentTypeOf fields) fields)
  | v           => v

def mapKey (key : String) : String := if key = "contentType" then "metadata.contentType" else key

def isLogical (key : String) : Bool := key = "$and" || key = "$nor" || key = "$or"

mutual

/-- The key that is elsewhere in GridFS, also under the logical operators. -/
def mapContentTypeKeys : Bson → Bson
  | .list vs    => .list (mapEntries vs)
  | .doc fields => .doc (mapFields [] fields)
  | v           => v

def mapEntries : List Bson → List Bson
  | []      => []
  | v :: vs => mapContentTypeKeys v :: mapEntries vs

/-- `mapped[…] = nested`, entry by entry. -/
def mapFields (mapped : List (String × Bson)) : List (String × Bson) → List (String × Bson)
  | []             => mapped
  | (k, v) :: rest =>
      mapFields (OrderedMap.setEntries (mapKey k) (if isLogical k then mapContentTypeKeys v
        else v) mapped) rest

end

/-! ## Filter arguments -/

structure FilterArgs where
  filter : Option FilterInput := none
  limit  : Option Int := none
  offset : Option Int := none
  skip   : Option Int := none
  sort   : Option (List (String × Direction)) := none
  take   : Option Int := none

/-- `a || b` -/
def orElse (a b : Option Int) : Option Int := if a.getD 0 = 0 then b else a

/-- A key that comes again keeps its place. -/
def sortObject (items : List (String × Direction)) : SortSpec :=
  items.foldl (fun spec item => OrderedMap.setEntries item.1 item.2 spec) []

def FilterArgs.findOptions (maxLimit : Option Int) (args : FilterArgs) : FindOptions :=
  let limit := orElse args.limit args.take
  { sort  := (args.sort.map sortObject).getD []
    skip  := if 0 < args.skip.getD 0 ∨ 0 < args.offset.getD 0 then orElse args.skip args.offset
      else none
    limit := if maxLimit.getD 0 ≠ 0 ∧
      (limit.getD 0 = 0 ∨ maxLimit.getD 0 < limit.getD 0) then maxLimit else limit }

/-- Without arguments there is no `maxLimit` either. -/
def generateFindOptions (maxLimit : Option Int) (args : Option FilterArgs) : FindOptions :=
  args.elim {} (FilterArgs.findOptions maxLimit)

/-- No filter is a filter that all documents pass. -/
def filterQuery (rt : Runtime) (filter : Option FilterInput) : Except FilterError Bson :=
  match filter with
  | none        => .ok (.doc [])
  | some filter => generateFilterQuery rt none filter

/-! ## The order of JavaScript -/

/-- `readSortField`; `none` is `undefined`. -/
def readPath : List String → Bson → Option Bson
  | [],      v           => some v
  | p :: ps, .doc fields => (fields.lookup p).bind (readPath ps)
  | p :: ps, .list vs    =>
      if p = "length" then readPath ps (.num vs.length)
      else (vs.zipIdx.find? fun v => toString v.2 = p).bind fun v => readPath ps v.1
  | _ :: _,  _           => none

def readSortField (row : Bson) (field : String) : Option Bson := readPath (splitPath field) row

/-- `===`; an object is equal to itself only. -/
def strictEqual (same : Bool) : Option Bson → Option Bson → Bool
  | none,             none             => true
  | some .null,       some .null       => true
  | some (.num a),    some (.num b)    => a = b
  | some (.str a),    some (.str b)    => a = b
  | some (.bool a),   some (.bool b)   => a = b
  | some (.doc a),    some (.doc b)    => same && Bson.doc a = Bson.doc b
  | some (.list a),   some (.list b)   => same && Bson.list a = Bson.list b
  | some (.date a),   some (.date b)   => same && a = b
  | some (.regex a f), some (.regex b g) => same && a = b && f = g
  | some (.objectId a), some (.objectId b) => same && a = b
  | _,                _                => false

/-- What is taken from the engine: `<` on values of two kinds or on objects, and the sort,
    which is stable if the comparator is consistent on the rows. -/
structure Engine where
  mixedLess : Bson → Bson → Bool
  sort      : (Bson → Bson → Int) → List Bson → List Bson
  sort_eq   : ∀ (compare : Bson → Bson → Int) (rows : List Bson) (r : Bson → Bson →
    Prop) [DecidableRel r]
    [Std.Total r] [IsTrans Bson r], rows.Nodup →
    (∀ a ∈ rows, ∀ b ∈ rows, a ≠ b → (0 < compare a b ↔ ¬ r a b) ∧ (compare a b < 0 ↔ ¬ r b a)) →
    sort compare rows = rows.insertionSort r

/-- `<` -/
def Engine.less (engine : Engine) : Bson → Bson → Bool
  | .num a,      .num b      => a < b
  | .str a,      .str b      => JsText.utf16 a < JsText.utf16 b
  | .bool a,     .bool b     => !a && b
  | .date a,     .date b     => a < b
  | .objectId a, .objectId b => JsText.utf16 a < JsText.utf16 b
  | a,           b           => engine.mixedLess a b

def isMissing (v : Option Bson) : Bool := v = none || v = some .null

def Engine.compareRows (engine : Engine) : SortSpec → Bson → Bson → Int
  | [],                         _, _ => 0
  | (field, direction) :: spec, a, b =>
      let left := readSortField a field
      let right := readSortField b field
      if strictEqual (a = b) left right then engine.compareRows spec a b
      else if isMissing left then 1
      else if isMissing right then -1
      else if engine.less (left.getD .null) (right.getD .null) then
        (if direction = .asc then -1 else 1)
      else if direction = .asc then 1
      else -1

/-- Newest first, without a sort. -/
def effective (spec : SortSpec) : SortSpec := if spec = [] then [("uploadDate", .desc)] else spec

def Engine.sortMergedFileInfo (engine : Engine) (rows : List Bson) (spec : SortSpec) : List Bson :=
  engine.sort (engine.compareRows (effective spec)) rows

/-- A place in a list; a negative one counts from its end. -/
def place (length : Nat) (i : Int) : Nat := if i < 0 then (length + i).toNat else i.toNat

def slice (rows : List Bson) (start : Int) (stop : Option Int) : List Bson :=
  match stop with
  | none      => rows.drop (place rows.length start)
  | some stop => (rows.take (place rows.length stop)).drop (place rows.length start)

/-! ## The listing -/

structure Setting where
  runtime  : Runtime
  regex    : RegexEngine
  engine   : Engine
  /-- `filter.maxLimit` -/
  maxLimit : Option Int := none
  driver   : FileStorageDriver

def findFiles (e : RegexEngine) (query : Bson) (options : FindOptions)
    (documents : List FileDocument) :
    Option (List Bson) :=
  find e query options (documents.map FileDocument.row)

/-- `mapContentTypeKeys(options.sort)` -/
def mapSort (spec : SortSpec) : SortSpec := sortObject (spec.map fun key => (mapKey key.1, key.2))

/-- `GridFSHelper.findFiles`; what has been found is normalized. -/
def findGridFSFiles (e : RegexEngine) (query : Bson) (options : FindOptions)
    (documents : List FileDocument) :
    Option (List Bson) :=
  (findFiles e (mapContentTypeKeys query) { options with
    sort := mapSort options.sort } documents).map fun rows =>
    rows.map normalizeFileInfo

/-- The last row of a page that is merged. -/
def upperBound (options : FindOptions) : Option Int :=
  options.limit.map fun limit => options.skip.getD 0 + limit

/-- The rows of `findFileInfo`, before its output. -/
def findRows (setting : Setting) (collections : Collections) (query : Bson)
    (options : FindOptions) :
    Option (List Bson) :=
  if setting.driver = .gridfs then findGridFSFiles setting.regex query options collections.gridfs
  else do
    -- each store is asked for as much as the page may need of it
    let pageOptions : FindOptions := { sort := options.sort, limit := upperBound options }
    let s3Docs ← findFiles setting.regex query pageOptions collections.s3
    let fsDocs ← findFiles setting.regex query pageOptions collections.filesystem
    let docs ← findGridFSFiles setting.regex query pageOptions collections.gridfs
    return slice (setting.engine.sortMergedFileInfo (s3Docs ++ fsDocs ++ docs) options.sort)
      (options.skip.getD 0)
      (upperBound options)

/-- A query of the arguments that is asked by `rows`. -/
def withArgs (setting : Setting) (args : Option FilterArgs)
    (rows : Bson → FindOptions → Option (List Bson)) :
    Except FilterError (Option (List Bson)) := do
  let query ← filterQuery setting.runtime (args.bind FilterArgs.filter)
  return rows query (generateFindOptions setting.maxLimit args)

def findFileInfo (setting : Setting) (collections : Collections) (args : Option FilterArgs) :
    Except FilterError (Option (List Bson)) :=
  withArgs setting args (findRows setting collections)

end Files.Listing
