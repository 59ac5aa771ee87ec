import NestServer.Mongo.QueryLanguage

/-! # Filter inputs

    A client sends a tree of filters, and `generateFilterQuery` makes a query
    object of it.  With automatic ObjectId filtering, a value that consists of
    ids in string form becomes a disjunction over the two forms of the ids. -/

namespace FilterHelper

open Mongo

/-! ## Inputs -/

inductive ComparisonOperatorEnum where
  | EQ
  | GT
  | GTE
  | IN
  | LT
  | LTE
  | NE
  | NIN
  | REGEX
deriving DecidableEq

inductive LogicalOperatorEnum where
  | AND
  | NOR
  | OR
deriving DecidableEq

structure SingleFilterInput where
  convertToObjectId : Bool := false
  field             : String
  isReference       : Bool := false
  not               : Bool := false
  operator          : ComparisonOperatorEnum
  options           : Option String := none
  value             : Bson := .null

/-- The single filter of a filter with a combined filter is ignored. -/
inductive FilterInput where
  | combined (logicalOperator : LogicalOperatorEnum) (filters : List FilterInput)
  /-- a combined filter without its optional list -/
  | unlisted (logicalOperator : LogicalOperatorEnum)
  | single (singleFilter : SingleFilterInput)
  | empty

inductive FilterError where
  /-- a method call on `undefined` -/
  | typeError
  /-- no ObjectId can be made of the value -/
  | invalidId
  /-- the value is no regular expression -/
  | syntaxError
deriving DecidableEq

/-- What the helper takes from its surroundings: the configuration, the source
    of `new RegExp(value)`, and the ObjectId that is made up where none is given. -/
structure Runtime where
  automaticObjectIdFiltering : Bool
  regExp                     : Bson → Option String
  generatedId                : String

/-! ## Ids -/

def isHexDigit (c : Char) : Bool :=
  c.isDigit || ('a'.toNat ≤ c.toNat && c.toNat ≤ 'f'.toNat) ||
    ('A'.toNat ≤ c.toNat && c.toNat ≤ 'F'.toNat)

/-- 24 hexadecimal digits, which is all that `isValid` accepts at this length -/
def isHexId (s : String) : Bool := s.toList.length = 24 && s.toList.all isHexDigit

def lowerHex (s : String) : String := String.ofList (s.toList.map Char.toLower)

def isStringId : Bson → Bool
  | .str s => isHexId s
  | _      => false

def checkStringIds : Bson → Bool
  | .list vs => vs.all isStringId
  | v        => isStringId v

def truthy : Bson → Bool
  | .null   => false
  | .num q  => q ≠ 0
  | .str s  => s ≠ ""
  | .bool b => b
  | _       => true

/-- `toString()` of an array, where it can be an id: a second item adds a comma. -/
def arrayText? : List Bson → Option String
  | [.str s]      => some s
  | [.objectId h] => some h
  | [.list vs]    => arrayText? vs
  | _             => none

section Ids

variable (rt : Runtime)

mutual

/-- `new Types.ObjectId(getStringId(element))` -/
def newObjectId : Bson → Except FilterError Bson
  | .null       => .ok (.objectId rt.generatedId)
  | .num q      => if q = 0 then .ok (.objectId rt.generatedId) else .error .invalidId
  | .str s      => if isHexId s then .ok (.objectId (lowerHex s)) else .error .invalidId
  | .objectId h => .ok (.objectId h)
  | .list vs    =>
      match arrayText? vs with
      | some s => if isHexId s then .ok (.objectId (lowerHex s)) else .error .invalidId
      | none   => .error .invalidId
  | .doc fields =>
      match idIn "id" fields with
      | some r => r
      | none   =>
          match idIn "_id" fields with
          | some r => r
          | none   =>
              -- an own `toString` is no function
              if (fields.lookup "toString").isSome then .ok (.objectId rt.generatedId)
              else .error .invalidId
  | _           => .error .invalidId

/-- The id under a key, unless it is falsy. -/
def idIn (key : String) : List (String × Bson) → Option (Except FilterError Bson)
  | []             => none
  | (k, v) :: rest =>
      if k = key then if truthy v then some (newObjectId v) else none else idIn key rest

end

def getObjectIds : Bson → Except FilterError Bson
  | .list vs => do
      let ids ← vs.mapM (newObjectId rt)
      return .list ids
  | v        => newObjectId rt v

end Ids

/-! ## The query object -/

def LogicalOperatorEnum.key : LogicalOperatorEnum → String
  | .AND => "$and"
  | .NOR => "$nor"
  | .OR  => "$or"

/-- The list under a logical operator. -/
theorem parse_operator (e : RegexEngine) (op : LogicalOperatorEnum) {cs : List Bson}
    {qs : List Query}
    (hne : cs ≠ []) (h : parseList cs = some qs) :
    ∃ q, parseEntries [(op.key, .list cs)] = some [q] ∧
      ∀ d, q.holds e d =
        match op with
        | .AND => Query.holdsAll e d qs
        | .NOR => !Query.holdsAny e d qs
        | .OR  => Query.holdsAny e d qs := by
  cases cs with
  | nil => exact absurd rfl hne
  | cons c cs =>
      cases op with
      | AND => exact ⟨.every qs,
          parse_single (by simp [parseEntry, LogicalOperatorEnum.key, isOperator, h]), fun _ => rfl⟩
      | NOR => exact ⟨.none qs,
          parse_single (by simp [parseEntry, LogicalOperatorEnum.key, isOperator, h]), fun _ => rfl⟩
      | OR  => exact ⟨.some qs,
          parse_single (by simp [parseEntry, LogicalOperatorEnum.key, isOperator, h]), fun _ => rfl⟩

/-- What the operator assigns to the field. -/
def comparison (rt : Runtime) (s : SingleFilterInput) (value : Bson) : Except FilterError Bson :=
  match s.operator with
  | .EQ    => .ok (if s.not then .doc [("$ne", value)] else value)
  | .GT    => .ok (if s.not then .doc [("$not", .doc [("$gt", value)])] else .doc [("$gt", value)])
  | .GTE   => .ok (if s.not then .doc [("$not", .doc [("$gte", value)])]
      else .doc [("$gte", value)])
  | .IN    => .ok (if s.not then .doc [("$nin", value)] else .doc [("$in", value)])
  | .LT    => .ok (if s.not then .doc [("$not", .doc [("$lt", value)])] else .doc [("$lt", value)])
  | .LTE   => .ok (if s.not then .doc [("$not", .doc [("$lte", value)])]
      else .doc [("$lte", value)])
  | .NE    => .ok (if s.not then value else .doc [("$ne", value)])
  | .NIN   => .ok (if s.not then .doc [("$in", value)] else .doc [("$nin", value)])
  | .REGEX =>
      match rt.regExp value with
      | none        => .error .syntaxError
      | some source =>
          let test := Bson.doc [("$options", .str (s.options.getD "")),
            ("$regex", .regex source "")]
          .ok (if s.not then .doc [("$not", test)] else test)

/-- `result[field] = …`; assigning to `__proto__` adds no key. -/
def resultWith (field : String) (test : Bson) : Bson :=
  if field = "__proto__" then .doc [] else .doc [(field, test)]

/-- The switch over the operators. -/
def convertFilter (rt : Runtime) (s : SingleFilterInput) (field : String) (value : Bson) :
    Except FilterError Bson := do
  let test ← comparison rt s value
  return resultWith field test

/-- The part of `generateFilterQuery` for a single filter. -/
def generateSingle (rt : Runtime) (automatic : Bool) (s : SingleFilterInput) :
    Except FilterError Bson :=
  if s.convertToObjectId || s.isReference then do
    let value ← getObjectIds rt s.value
    convertFilter rt s s.field value
  else if automatic && checkStringIds s.value then
    if s.field = "id" then do
      let value ← getObjectIds rt s.value
      convertFilter rt s "_id" value
    else do
      let value ← getObjectIds rt s.value
      -- the two calls run without automatic filtering
      let query ← convertFilter rt s s.field s.value
      let alternative ← convertFilter rt s s.field value
      return .doc [("$or", .list [query, alternative])]
  else convertFilter rt s s.field s.value

section Generate

variable (rt : Runtime) (options : Option Bool)

/-- `config.automaticObjectIdFiltering` -/
def automatic : Bool := options.getD rt.automaticObjectIdFiltering

mutual

def generateFilterQuery : FilterInput → Except FilterError Bson
  | .combined op filters => do
      let queries ← generateAll filters
      return .doc [(op.key, .list queries)]
  | .unlisted _          => .error .typeError
  | .single s            => generateSingle rt (automatic rt options) s
  | .empty               => .ok (.doc [])

/-- `filters.map(…)` -/
def generateAll : List FilterInput → Except FilterError (List Bson)
  | []           => .ok []
  | f :: filters => do
      let query ← generateFilterQuery f
      let queries ← generateAll filters
      return query :: queries

end

end Generate

end FilterHelper
