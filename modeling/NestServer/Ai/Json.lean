import NestServer.RoleEnum

/-! # JSON values

    What a model writes and what tools get and give: the values of JSON, with the
    property access and the texts of the language. -/

/-- A number is the text that `String(n)` gives. -/
inductive Json where
  | null
  | bool (b : Bool)
  | num (text : String)
  | str (s : String)
  | arr (vs : List Json)
  | obj (fields : List (String × Json))

namespace Json

/-- `v[key]`: `undefined` is `none`. -/
def member (v : Json) (key : String) : Option Json :=
  match v with
  | .obj fields => (fields.find? fun f => f.1 = key).map Prod.snd
  | .arr vs     =>
      if key = "length" then some (.num (toString vs.length))
      else (vs.zipIdx.find? fun e => toString e.2 = key).map Prod.fst
  | .str s      =>
      if key = "length" then some (.num (toString (JsText.length s)))
      else (s.toList.zipIdx.find? fun e => toString e.2 = key).map fun e =>
        .str (String.singleton e.1)
  | _           => none

/-- `key in v` -/
def has (v : Json) (key : String) : Bool := (v.member key).isSome

def isNull : Json → Bool
  | .null => true
  | _     => false

/-- `v ?? none`: neither `undefined` nor `null`. -/
def nonNull (v : Option Json) : Option Json := v.filter fun w => !w.isNull

/-- `typeof v === 'string'` -/
def asString : Json → Option String
  | .str s => some s
  | _      => none

/-- `Array.isArray(v)` -/
def asArray : Json → Option (List Json)
  | .arr vs => some vs
  | _       => none

mutual

/-- `String(v)` -/
def text : Json → String
  | .null   => "null"
  | .bool b => if b then "true" else "false"
  | .num t  => t
  | .str s  => s
  | .arr vs => textList vs
  | .obj _  => "[object Object]"

/-- The elements with commas between them; `null` is empty there. -/
def textList : List Json → String
  | []       => ""
  | [v]      => if v.isNull then "" else text v
  | v :: vs  => (if v.isNull then "" else text v) ++ "," ++ textList vs

end

/-- A character inside quotes. -/
def escape (c : Char) : String :=
  if c = '"' then "\\\""
  else if c = '\\' then "\\\\"
  else if c.toNat = 8 then "\\b"
  else if c.toNat = 9 then "\\t"
  else if c.toNat = 10 then "\\n"
  else if c.toNat = 12 then "\\f"
  else if c.toNat = 13 then "\\r"
  else if c.toNat < 16 then "\\u000" ++ String.singleton (Nat.digitChar c.toNat)
  else if c.toNat < 32 then "\\u001" ++ String.singleton (Nat.digitChar (c.toNat - 16))
  else String.singleton c

def quote (s : String) : String := "\"" ++ String.join (s.toList.map escape) ++ "\""

mutual

/-- `JSON.stringify(v)` -/
def stringify : Json → String
  | .null       => "null"
  | .bool b     => if b then "true" else "false"
  | .num t      => t
  | .str s      => quote s
  | .arr vs     => "[" ++ stringifyList vs ++ "]"
  | .obj fields => "\x7b" ++ stringifyFields fields ++ "\x7d"

def stringifyList : List Json → String
  | []      => ""
  | [v]     => stringify v
  | v :: vs => stringify v ++ "," ++ stringifyList vs

def stringifyFields : List (String × Json) → String
  | []           => ""
  | [(k, v)]     => quote k ++ ":" ++ stringify v
  | (k, v) :: fs => quote k ++ ":" ++ stringify v ++ "," ++ stringifyFields fs

end

/-- An object without the members that are `undefined`. -/
def object (members : List (String × Option Json)) : Json :=
  .obj (members.filterMap fun m => m.2.map fun v => (m.1, v))

end Json
