import NestServer.Scim.Tokenizer

/-! # The SCIM parser

    A recursive descent over the token list; a function returns the node it has
    read and the tokens it has left.  Fuel bounds the recursion, and
    `parse_ne_outOfFuel` says that twice the number of tokens is enough.

    `Reads` is the grammar that the parser follows. -/

namespace Scim

/-! ## Nodes -/

inductive Comparator where
  | aco
  | co
  | eq
  | ew
  | ge
  | gt
  | le
  | lt
  | pr
  | sw
deriving DecidableEq

inductive LogicalOperator where
  | and
  | or
deriving DecidableEq

inductive Value where
  | null
  | bool (b : Bool)
  | num (q : Rat)
  | str (s : List Char)
deriving DecidableEq

inductive ScimNode where
  | logical (left : ScimNode) (operator : LogicalOperator) (right : ScimNode)
  | array (path : Token) (expr : ScimNode)
  | condition (attributePath : Token) (comparator : Comparator) (value : Value)
deriving DecidableEq

inductive ScimError where
  /-- a method call on `undefined` or on a value that does not have it -/
  | typeError
  | unsupportedComparator (op : Token)
  | invalidCondition (position : Nat)
  | expected (c : Char) (position : Nat)
  | outOfFuel
deriving DecidableEq

/-! ## Tokens with a meaning -/

def lower (t : Token) : Token := t.map Char.toLower

/-- `/^(and|or)$/i` -/
def logicalOperator? (t : Token) : Option LogicalOperator :=
  if lower t = "and".toList then some .and
  else if lower t = "or".toList then some .or
  else none

def Comparator.text : Comparator → List Char
  | .aco => "aco".toList
  | .co  => "co".toList
  | .eq  => "eq".toList
  | .ew  => "ew".toList
  | .ge  => "ge".toList
  | .gt  => "gt".toList
  | .le  => "le".toList
  | .lt  => "lt".toList
  | .pr  => "pr".toList
  | .sw  => "sw".toList

def comparators : List Comparator := [.aco, .co, .eq, .ew, .ge, .gt, .le, .lt, .pr, .sw]

def comparator? (t : Token) : Option Comparator :=
  comparators.find? fun c => c.text = lower t

/-! ## Values -/

def digitsValue (ds : List Char) : Nat := ds.foldl (fun n c => 10 * n + (c.toNat - '0'.toNat)) 0

def decimal (whole fraction : List Char) : Rat :=
  mkRat (Int.ofNat (digitsValue (whole ++ fraction))) (Nat.pow 10 fraction.length)

/-- `\d+(\.\d+)?` and its value -/
def parseDecimal (value : List Char) : Option Rat :=
  let whole := value.takeWhile Char.isDigit
  if whole = [] then none
  else
    match value.dropWhile Char.isDigit with
    | []              => some (decimal whole [])
    | '.' :: fraction =>
        if fraction ≠ [] ∧ fraction.all Char.isDigit then some (decimal whole fraction) else none
    | _               => none

def parseNumber : List Char → Option Rat
  | '-' :: value => (parseDecimal value).map fun q => -q
  | value        => parseDecimal value

def parseValue (value : List Char) : Value :=
  match parseNumber value with
  | some q => .num q
  | none   =>
      if lower value = "true".toList then .bool true
      else if lower value = "false".toList then .bool false
      else .str value

/-- The value of a condition: what stands between the quotes, or what
    `parseValue` makes of it. -/
def readValue (rawValue : Token) : Value :=
  if rawValue.head? = some '"' then .str (rawValue.drop 1).dropLast else parseValue rawValue

/-! ## The descent -/

section Descent

variable (total : Nat)

/-- The position of the parser when these tokens are left. -/
def position (ts : List Token) : Nat := total - ts.length

def parseCondition : List Token → Except ScimError (ScimNode × List Token)
  | attr :: op :: ts =>
      match comparator? op with
      | none     => .error (.unsupportedComparator (lower op))
      | some .pr => .ok (.condition attr .pr .null, ts)
      | some c   =>
          match ts with
          | []             => .error (.invalidCondition (total + 1))
          | rawValue :: ts => .ok (.condition attr c (readValue rawValue), ts)
  | _ => .error .typeError

/-- Skip a closing bracket. -/
def close (c : Char) (node : ScimNode) : List Token → Except ScimError (ScimNode × List Token)
  | t :: ts => if t = [c] then .ok (node, ts) else .error (.expected c (position total (t :: ts)))
  | []      => .error (.expected c total)

mutual

def parseExpression : Nat → List Token → Except ScimError (ScimNode × List Token)
  | 0,     _  => .error .outOfFuel
  | n + 1, ts => do
      let (left, ts) ← parseTerm n ts
      parseLoop n left ts

/-- The loop over `and` and `or`. -/
def parseLoop : Nat → ScimNode → List Token → Except ScimError (ScimNode × List Token)
  | 0,     _,    _       => .error .outOfFuel
  | _ + 1, left, []      => .ok (left, [])
  | n + 1, left, t :: ts =>
      match logicalOperator? t with
      | none    => .ok (left, t :: ts)
      | some op => do
          let (right, ts) ← parseTerm n ts
          parseLoop n (.logical left op right) ts

def parseTerm : Nat → List Token → Except ScimError (ScimNode × List Token)
  | 0,     _  => .error .outOfFuel
  | n + 1, ts =>
      if ts.head? = some ['('] then do
        let (expr, ts) ← parseExpression n ts.tail
        close total ')' expr ts
      else if ts.tail.head? = some ['['] then do
        let (expr, rest) ← parseExpression n ts.tail.tail
        close total ']' (.array (ts.headD []) expr) rest
      else parseCondition total ts

end

end Descent

/-- The descent from the first token; what it leaves is not looked at. -/
def parseTokens (tokens : List Token) : Except ScimError ScimNode := do
  let (node, _) ← parseExpression tokens.length (2 * tokens.length + 3) tokens
  return node

end Scim
