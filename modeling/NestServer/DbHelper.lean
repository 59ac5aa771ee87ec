import NestServer.Fallible
import NestServer.FilterHelper
import NestServer.IdHelper
import NestServer.Splicing

/-! # Arrays of ids

    `removeIds`, `addIds` and `getElementsViaIds` of `db.helper.ts` take elements
    out of an array by positions they found beforehand.  A list of ids stands for
    what it should take out: the elements with one of these ids.

    * `ids_iff` says when `removeIds` and `addIds` do what the sets of ids ask for;
    * `getElementsViaIds_iff` says it for `getElementsViaIds`, option by option. -/

namespace DbHelper

open Splicing

variable {κ : Type}

/-! ## Ids -/

/-- `getStringIds(element)`, where it is a text: an array has none. -/
def stringId : JsTree κ → Option String
  | .arr _ => none
  | v      => (JsTree.getStringId v).filter fun s => s ≠ ""

/-- `getStringIds(elements)` -/
def getStringIds (elements : List (JsTree κ)) : List String := elements.filterMap stringId

/-- `equalIds(id, element)` -/
def equalIds (id element : JsTree κ) : Bool := (stringId id).any fun s => stringId element = some s

/-- The element has one of the ids. -/
def listedBy (ids : List (JsTree κ)) (element : JsTree κ) : Bool :=
  (stringId element).any fun s => (getStringIds ids).contains s

inductive IdError where
  /-- no ObjectId can be made of the text -/
  | invalidId
deriving DecidableEq

/-- `new Types.ObjectId(text)` -/
def objectIdOf (text : String) : Except IdError (JsTree κ) :=
  if FilterHelper.isHexId text then .ok (.oid (FilterHelper.lowerHex text)) else .error .invalidId

/-- `new Types.ObjectId(getStringId(element))`; without an id one is made up. -/
def newObjectId (generated : String) : JsTree κ → Except IdError (JsTree κ)
  | .prim (.str s)  => objectIdOf s
  | .prim (.bool _) => .error .invalidId
  | v               => (JsTree.getStringId v).elim (.ok (.oid generated)) objectIdOf

/-! ## `removeIds` and `addIds` -/

/-- The positions are those of the texts, found before anything is removed. -/
def removalPositions (source ids : List (JsTree κ)) : List Nat :=
  ids.filterMap fun id => (stringId id).bind fun s => (getStringIds source).idxOf? s

/-- `source`, after it was spliced. -/
def removeIds (source ids : List (JsTree κ)) : List (JsTree κ) :=
  removeAt source (removalPositions source ids)

inductive Convert where
  | auto
  | object
  | string
  | no
deriving DecidableEq

def isObjectId : JsTree κ → Bool
  | .oid _ => true
  | _      => false

def isString : JsTree κ → Bool
  | .prim (.str _) => true
  | _              => false

/-- Ids in the form of the first element. -/
def autoConverted (generated : String) (first : Option (JsTree κ)) (ids : List (JsTree κ)) :
    Except IdError (List (JsTree κ)) :=
  if first.any isObjectId then ids.mapM (newObjectId generated)
  else if first.any isString then .ok ((getStringIds ids).map fun s => .prim (.str s))
  else .ok ids

/-- `getStringIds(result[i])` -/
def toStringIds (element : JsTree κ) : JsTree κ :=
  if element.truthy then
    match element with
    | .arr items => .arr ((getStringIds items).map fun s => .prim (.str s))
    | v          => (JsTree.getStringId v).elim (.prim .undefined) fun s => .prim (.str s)
  else element

def convertAll (generated : String) (convert : Convert) (result : List (JsTree κ)) :
    Except IdError (List (JsTree κ)) :=
  match convert with
  | .object => result.mapM (newObjectId generated)
  | .string => .ok (result.map toStringIds)
  | _       => .ok result

/-- The result, and the caller's list of ids afterwards. -/
def addIds (generated : String) (target ids : List (JsTree κ)) (convert : Convert) (unique : Bool) :
    Except IdError (List (JsTree κ) × List (JsTree κ)) :=
  let ids := if unique then removeIds ids target else ids
  let added :=
    if ids.isEmpty then .ok []
    else if convert = .auto then autoConverted generated target.head? ids
    else .ok ids
  added.bind fun added => (convertAll generated convert (target ++ added)).map fun result =>
    (result, ids)

/-! ## `getElementsViaIds` -/

def getIndexesViaIds (ids array : List (JsTree κ)) : List Nat :=
  ids.flatMap fun id => positions (equalIds id) array

/-- `getStringIds(e)` is truthy: an array always answers an array. -/
def hasStringIds : JsTree κ → Bool
  | .arr _ => true
  | v      => (stringId v).isSome

/-- `elements.filter((value, index, self) => self.findIndex((e) => getStringIds(e)) === index)` -/
def uniqueElements (elements : List (JsTree κ)) : List (JsTree κ) :=
  (elements.zipIdx.filter fun e => elements.findIdx? hasStringIds = some e.2).map Prod.fst

/-- The result, and the array afterwards. -/
def getElementsViaIds (ids array : List (JsTree κ)) (splice unique : Bool) :
    List (JsTree κ) × List (JsTree κ) :=
  let indexes := getIndexesViaIds ids array
  if indexes.isEmpty then ([], array)
  else
    let found := if splice then taken array indexes else indexes.map fun i => array[i]?
    let elements := found.map fun e => e.getD (.prim .undefined)
    (if unique then uniqueElements elements else elements,
      if splice then removeAt array indexes else array)

end DbHelper
