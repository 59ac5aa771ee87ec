import NestServer.Scim.Transform

/-! # Filters, their text and their meaning

    A filter is what a client has in mind: names, literals, and any nesting of
    `and`, `or` and array filters.  `text` prints it with every sub-expression
    in parentheses and every string escaped; `holds` evaluates a node on a
    document, with no query object in between.

    `read` is the node that a filter becomes when its literals are changed as a
    text cannot avoid: see there. -/

namespace Scim

open Mongo

/-! ## Filters -/

/-- `[A-Za-z0-9_.]+` -/
structure Name where
  chars : List Char
  ne    : chars ≠ []
  word  : chars.all isWordChar = true

/-- A number in decimal digits. -/
structure Decimal where
  negative : Bool
  whole    : List Char
  fraction : List Char
  ne       : whole ≠ []
  digits   : (whole ++ fraction).all Char.isDigit = true

def Decimal.abs (n : Decimal) : Rat := decimal n.whole n.fraction

def Decimal.value (n : Decimal) : Rat := if n.negative then -n.abs else n.abs

inductive Literal where
  | bool (b : Bool)
  | num (n : Decimal)
  | str (s : List Char)

def Literal.value : Literal → Value
  | .bool b => .bool b
  | .num n  => .num n.value
  | .str s  => .str s

inductive Filter where
  | logical (left : Filter) (operator : LogicalOperator) (right : Filter)
  | array (path : Name) (expr : Filter)
  | present (attributePath : Name)
  | condition (attributePath : Name) (comparator : Comparator) (ne : comparator ≠ .pr)
      (value : Literal)

/-- The node that a filter stands for. -/
def Filter.node : Filter → ScimNode
  | .logical left op right  => .logical left.node op right.node
  | .array path expr        => .array path.chars expr.node
  | .present path           => .condition path.chars .pr .null
  | .condition path c _ v   => .condition path.chars c v.value

/-! ## Their text -/

def escape (s : List Char) : List Char :=
  s.flatMap fun c => if c = '"' ∨ c = '\\' then ['\\', c] else [c]

/-- The digits of a number, without its sign. -/
def Decimal.unsigned (n : Decimal) : List Char :=
  n.whole ++ if n.fraction = [] then [] else '.' :: n.fraction

def Decimal.text (n : Decimal) : List Char :=
  if n.negative then '-' :: n.unsigned else n.unsigned

def Literal.text : Literal → List Char
  | .bool b => if b then "true".toList else "false".toList
  | .num n  => n.text
  | .str s  => '"' :: (escape s ++ ['"'])

def Filter.text : Filter → List Char
  | .logical left op right =>
      '(' :: (left.text ++ ')' :: ' ' :: (op.text.toList ++ ' ' :: '(' :: (right.text ++ [')'])))
  | .array path expr       => path.chars ++ '[' :: '(' :: (expr.text ++ [')', ']'])
  | .present path          => path.chars ++ ' ' :: Comparator.pr.text
  | .condition path c _ v  => path.chars ++ ' ' :: (c.text ++ ' ' :: v.text)

/-! ## Their meaning -/

/-- A test of a text, ignoring case.  `lenient` lets the end of a text stand
    before its final line break. -/
def textHolds (fold : Char → Char) (lenient : Bool) (comparator : Comparator)
    (text subject : List Char) : Bool :=
  match comparator with
  | .co => (subject.map fold).tails.any (text.map fold).isPrefixOf
  | .sw => (text.map fold).isPrefixOf (subject.map fold)
  | .ew => (text.map fold).isSuffixOf (subject.map fold) ||
      (lenient && subject.getLast? = some '\n' &&
        (text.map fold).isSuffixOf (subject.dropLast.map fold))
  | _   => false

/-- Some value found under the attribute compares as asked. -/
def conditionHolds (fold : Char → Char) (lenient : Bool) (found : List (Option Bson))
    (comparator : Comparator) (value : Value) : Bool :=
  match comparator with
  | .pr  => found.any Option.isSome
  | .aco => (Bson.candidates found).any fun w => Bson.orNull w = value.toBson
  | .eq  => (Bson.candidates found).any fun w => Bson.orNull w = value.toBson
  | .ge  => (Bson.candidates found).any fun w => CompareOp.gte.holds value.toBson (Bson.orNull w)
  | .gt  => (Bson.candidates found).any fun w => CompareOp.gt.holds value.toBson (Bson.orNull w)
  | .le  => (Bson.candidates found).any fun w => CompareOp.lte.holds value.toBson (Bson.orNull w)
  | .lt  => (Bson.candidates found).any fun w => CompareOp.lt.holds value.toBson (Bson.orNull w)
  | c    => (Bson.candidates found).any fun w =>
      match w, value with
      | some (.str subject), .str text => textHolds fold lenient c text subject.toList
      | _,                   _         => false

/-- Does a document satisfy a node? -/
def ScimNode.holds (fold : Char → Char) (lenient : Bool) : ScimNode → Bson → Bool
  | .logical left .and right, d => left.holds fold lenient d && right.holds fold lenient d
  | .logical left .or right,  d => left.holds fold lenient d || right.holds fold lenient d
  | .array path expr,         d =>
      (d.valuesAt (splitPath (String.ofList path))).any fun v =>
        match v with
        | some (.list ws) => ws.any fun w =>
            match w with
            | .doc _  => expr.holds fold lenient w
            | .list _ => expr.holds fold lenient w
            | _       => false
        | _ => false
  | .condition path c v,      d =>
      conditionHolds fold lenient (d.valuesAt (splitPath (String.ofList path))) c v

/-! ## What becomes of the literals -/

/-- The content of a string after the loop over brackets and quotes. -/
def spaced (spaces : Bool) (content : List Char) : List Char :=
  if spaces then content.flatMap fun c => if isBracket c then [' ', c, ' '] else [c] else content

/-- A number loses its sign, a string keeps its escapes and has its whitespace
    collapsed.  With `spaces` its brackets count as brackets of the filter. -/
def Literal.read (spaces : Bool) : Literal → Value
  | .bool b => .bool b
  | .num n  => .num n.abs
  | .str s  => .str (collapse (spaced spaces (escape s)))

/-- Its closing quote is taken for an escaped one, and from there on inside and
    outside are confused. -/
def Literal.confuses : Literal → Bool
  | .str s => s.getLast? = some '\\'
  | _      => false

def Filter.confuses : Filter → Bool
  | .logical left _ right => xor left.confuses right.confuses
  | .array _ expr         => expr.confuses
  | .present _            => false
  | .condition _ _ _ v    => v.confuses

/-- The node with the literals as they are read. -/
def Filter.read (spaces : Bool) : Filter → ScimNode
  | .logical left op right =>
      .logical (left.read spaces) op (right.read (xor spaces left.confuses))
  | .array path expr       => .array path.chars (expr.read spaces)
  | .present path          => .condition path.chars .pr .null
  | .condition path c _ v  => .condition path.chars c (v.read spaces)

/-! ## The property -/

/-- **The round trip.** The text of a filter compiles, to a query that selects
    the documents that satisfy the filter. -/
def RoundTrip (e : RegexEngine) (f : Filter) : Prop :=
  ∃ q, scimToMongo f.text = .ok q ∧
    ∀ fields, matchesQuery e q (.doc fields) = some (f.node.holds e.fold false (.doc fields))

end Scim
