import Mathlib.Data.List.TakeWhile
import NestServer.Ai.Json
import NestServer.OrderedMap

/-! # Reading JSON

    `JSON.parse`, and what it makes of a text of `JSON.stringify`: `parse_stringify` is the
    round trip. -/

namespace Json

/-! ## The parser -/

/-- White space between the tokens. -/
def isWhite (c : Char) : Bool := c = ' ' || c = '\t' || c = '\n' || c = '\r'

def skipWhite (cs : List Char) : List Char := cs.dropWhile isWhite

def hexDigit (c : Char) : Option Nat :=
  if '0' ≤ c ∧ c ≤ '9' then some (c.toNat - 48)
  else if 'a' ≤ c ∧ c ≤ 'f' then some (c.toNat - 87)
  else if 'A' ≤ c ∧ c ≤ 'F' then some (c.toNat - 55)
  else none

/-- Four hexadecimal digits. -/
def readUnit : List Char → Option (Nat × List Char)
  | a :: b :: c :: d :: rest =>
      (hexDigit a).bind fun a => (hexDigit b).bind fun b => (hexDigit c).bind fun c =>
        (hexDigit d).map fun d => (((a * 16 + b) * 16 + c) * 16 + d, rest)
  | _ => none

/-- The second half of a character outside the basic plane. -/
def readLow : List Char → Option (Nat × List Char)
  | '\\' :: 'u' :: rest => (readUnit rest).filter fun low => 0xDC00 ≤ low.1 && low.1 < 0xE000
  | _                   => none

/-- Behind `\u`.  A half without the other one is replaced. -/
def readUnicode (cs : List Char) : Option (Char × List Char) :=
  (readUnit cs).map fun unit =>
    if 0xD800 ≤ unit.1 ∧ unit.1 < 0xDC00 then
      match readLow unit.2 with
      | some low => (Char.ofNat (0x10000 + (unit.1 - 0xD800) * 0x400 + (low.1 - 0xDC00)), low.2)
      | none     => ('\uFFFD', unit.2)
    else if 0xDC00 ≤ unit.1 ∧ unit.1 < 0xE000 then ('\uFFFD', unit.2)
    else (Char.ofNat unit.1, unit.2)

/-- The short escape sequences. -/
def escapes : List (Char × Char) :=
  [('"', '"'), ('\\', '\\'), ('/', '/'), ('b', '\x08'), ('f', '\x0c'), ('n', '\n'), ('r', '\r'),
    ('t', '\t')]

/-- Behind a backslash. -/
def readEscape : List Char → Option (Char × List Char)
  | []        => none
  | c :: rest =>
      if c = 'u' then readUnicode rest
      else (escapes.find? fun e => e.1 = c).map fun e => (e.2, rest)

def readChar : List Char → Option (Char × List Char)
  | []        => none
  | c :: rest =>
      if c = '\\' then readEscape rest
      else if c.toNat < 32 then none
      else some (c, rest)

/-- The characters up to the closing quote. -/
def readChars : Nat → List Char → Option (List Char × List Char)
  | 0, _             => none
  | _ + 1, []        => none
  | n + 1, c :: rest =>
      if c = '"' then some ([], rest)
      else (readChar (c :: rest)).bind fun first =>
        (readChars n first.2).map fun others => (first.1 :: others.1, others.2)

/-- Behind the opening quote. -/
def readString (cs : List Char) : Option (String × List Char) :=
  (readChars cs.length cs).map fun p => (String.ofList p.1, p.2)

def readLiteral (word : String) (v : Json) (cs : List Char) : Option (Json × List Char) :=
  if word.toList.isPrefixOf cs then some (v, cs.drop word.toList.length) else none

/-- The characters of numbers. -/
def isNumeric (c : Char) : Bool := c.isDigit || c = '-' || c = '+' || c = '.' || c = 'e' || c = 'E'

def dropSign : List Char → List Char
  | c :: rest => if c = '+' ∨ c = '-' then rest else c :: rest
  | []        => []

def isExponent : List Char → Bool
  | []        => true
  | c :: rest =>
      (c = 'e' || c = 'E') && !(dropSign rest).isEmpty && (dropSign rest).all Char.isDigit

def isFraction : List Char → Bool
  | '.' :: rest => !(rest.takeWhile Char.isDigit).isEmpty &&
      isExponent (rest.dropWhile Char.isDigit)
  | rest        => isExponent rest

/-- The grammar of numbers. -/
def isNumeral : List Char → Bool
  | '-' :: rest => unsigned rest
  | rest        => unsigned rest
where
  unsigned (cs : List Char) : Bool :=
    (cs.takeWhile Char.isDigit = ['0']
        || (cs.takeWhile Char.isDigit).head?.any fun c => c ≠ '0')
      && isFraction (cs.dropWhile Char.isDigit)

/-- A number is followed by no character of numbers. -/
def readNumeral (cs : List Char) : Option (String × List Char) :=
  if isNumeral (cs.takeWhile isNumeric) then
    some (String.ofList (cs.takeWhile isNumeric), cs.dropWhile isNumeric)
  else none

section

variable (number : String → String)

mutual

/-- A value.  `number` gives `String(Number(t))`. -/
def readValue : Nat → List Char → Option (Json × List Char)
  | 0, _      => none
  | n + 1, cs => match skipWhite cs with
      | []        => none
      | c :: rest =>
          if c = '"' then (readString rest).map fun p => (.str p.1, p.2)
          else if c = '[' then
            if (skipWhite rest).head? = some ']' then some (.arr [], (skipWhite rest).tail)
            else (readElements n rest).map fun p => (.arr p.1, p.2)
          else if c = '\x7b' then
            if (skipWhite rest).head? = some '\x7d' then some (.obj [], (skipWhite rest).tail)
            else (readMembers n rest).map fun p =>
              (.obj (p.1.foldl (fun fields m => OrderedMap.setEntries m.1 m.2 fields) []), p.2)
          else if c = 'n' then readLiteral "null" .null (c :: rest)
          else if c = 't' then readLiteral "true" (.bool true) (c :: rest)
          else if c = 'f' then readLiteral "false" (.bool false) (c :: rest)
          else (readNumeral (c :: rest)).map fun p => (.num (number p.1), p.2)

/-- What follows an opening bracket. -/
def readElements : Nat → List Char → Option (List Json × List Char)
  | 0, _      => none
  | n + 1, cs => (readValue n cs).bind fun first => match skipWhite first.2 with
      | ',' :: rest => (readElements n rest).map fun others => (first.1 :: others.1, others.2)
      | ']' :: rest => some ([first.1], rest)
      | _           => none

/-- What follows an opening brace. -/
def readMembers : Nat → List Char → Option (List (String × Json) × List Char)
  | 0, _      => none
  | n + 1, cs => match skipWhite cs with
      | '"' :: rest => (readString rest).bind fun key => match skipWhite key.2 with
          | ':' :: rest => (readValue n rest).bind fun first => match skipWhite first.2 with
              | ',' :: rest =>
                  (readMembers n rest).map fun others => ((key.1, first.1) :: others.1, others.2)
              | '\x7d' :: rest => some ([(key.1, first.1)], rest)
              | _              => none
          | _ => none
      | _ => none

end

/-- `JSON.parse(text)`; `none` where it throws. -/
def parse (text : String) : Option Json :=
  (readValue number text.toList.length text.toList).bind fun p =>
    if (skipWhite p.2).isEmpty then some p.1 else none

end

/-! ## The round trip -/

/-- What is behind a value: no character of numbers. -/
def Follows (rest : List Char) : Prop := ∀ c ∈ rest.head?, isNumeric c = false

/-- The numbers that are read as they are written. -/
def IsNumber (number : String → String) (t : String) : Prop :=
  readNumeral t.toList = some (t, []) ∧ number t = t

mutual

/-- A value that `JSON.stringify` can write: its numbers are numbers and its keys are
    different. -/
def Valid (number : String → String) : Json → Prop
  | .num t      => IsNumber number t
  | .arr vs     => ValidItems number vs
  | .obj fields => (fields.map Prod.fst).Nodup ∧ ValidFields number fields
  | _           => True

def ValidItems (number : String → String) : List Json → Prop
  | []      => True
  | v :: vs => Valid number v ∧ ValidItems number vs

def ValidFields (number : String → String) : List (String × Json) → Prop
  | []               => True
  | (_, v) :: fields => Valid number v ∧ ValidFields number fields

end

section

variable {rest : List Char}

theorem hexDigit_digitChar {k : Nat} (hk : k < 16) : hexDigit (Nat.digitChar k) = some k := by
  have hall : ∀ k < 16, hexDigit (Nat.digitChar k) = some k := by decide
  exact hall k hk

/-- The escape sequence of a character below the space. -/
theorem readUnicode_digits {i k : Nat} (hi : i < 2) (hk : k < 16) :
    readUnicode ('0' :: '0' :: Nat.digitChar i :: Nat.digitChar k :: rest)
      = some (Char.ofNat (i * 16 + k), rest) := by
  have hzero : hexDigit '0' = some 0 := rfl
  have hunit : readUnit ('0' :: '0' :: Nat.digitChar i :: Nat.digitChar k :: rest)
      = some (i * 16 + k, rest) := by
    rw [readUnit, hzero, hexDigit_digitChar (Nat.lt_trans hi (by decide)), hexDigit_digitChar hk]
    simp
  rw [readUnicode, hunit, Option.map_some, if_neg (by omega), if_neg (by omega)]

theorem readChar_escape (rest : List Char) (c : Char) : readChar ((escape c).toList ++ rest) = some (c, rest) := by
  rw [escape]
  by_cases hquote : c = '"'
  · rw [if_pos hquote, hquote]
    rfl
  by_cases hslash : c = '\\'
  · rw [if_neg hquote, if_pos hslash, hslash]
    rfl
  rw [if_neg hquote, if_neg hslash]
  have hshort : ∀ k : Nat, ∀ d : Char, c.toNat = k → d.toNat = k → c = d := by
    intro k d hk hd
    exact Char.toNat_inj.mp (hk.trans hd.symm)
  by_cases h8 : c.toNat = 8
  · rw [if_pos h8, hshort 8 '\x08' h8 rfl]
    rfl
  by_cases h9 : c.toNat = 9
  · rw [if_neg h8, if_pos h9, hshort 9 '\t' h9 rfl]
    rfl
  by_cases h10 : c.toNat = 10
  · rw [if_neg h8, if_neg h9, if_pos h10, hshort 10 '\n' h10 rfl]
    rfl
  by_cases h12 : c.toNat = 12
  · rw [if_neg h8, if_neg h9, if_neg h10, if_pos h12, hshort 12 '\x0c' h12 rfl]
    rfl
  by_cases h13 : c.toNat = 13
  · rw [if_neg h8, if_neg h9, if_neg h10, if_neg h12, if_pos h13, hshort 13 '\r' h13 rfl]
    rfl
  rw [if_neg h8, if_neg h9, if_neg h10, if_neg h12, if_neg h13]
  by_cases h16 : c.toNat < 16
  · rw [if_pos h16, String.toList_append, String.toList_singleton]
    show readUnicode ('0' :: '0' :: Nat.digitChar 0 :: Nat.digitChar c.toNat :: rest) = _
    rw [readUnicode_digits (by decide) h16, Nat.zero_mul, Nat.zero_add, Char.ofNat_toNat]
  by_cases h32 : c.toNat < 32
  · rw [if_neg h16, if_pos h32, String.toList_append, String.toList_singleton]
    show readUnicode ('0' :: '0' :: Nat.digitChar 1 :: Nat.digitChar (c.toNat - 16) :: rest) = _
    rw [readUnicode_digits (by decide) (by omega), Nat.one_mul,
      Nat.add_sub_cancel' (Nat.not_lt.mp h16), Char.ofNat_toNat]
  · rw [if_neg h16, if_neg h32, String.toList_singleton, List.singleton_append, readChar,
      if_neg hslash, if_neg h32]

/-- A character stands for itself, or it is a backslash, a character and digits. -/
theorem escape_cases (c : Char) :
    (escape c).toList = [c] ∧ c ≠ '"' ∧ c ≠ '\\'
      ∨ ∃ d ds, (escape c).toList = '\\' :: d :: ds ∧ ∀ x ∈ ds, (hexDigit x).isSome = true := by
  have hdigits : ∀ i k, i < 16 → k < 16 →
      ∀ x ∈ ['0', '0', Nat.digitChar i, Nat.digitChar k], (hexDigit x).isSome = true := by
    intro i k hi hk x hx
    have hzero : (hexDigit '0').isSome = true := rfl
    simp only [List.mem_cons, List.not_mem_nil, or_false] at hx
    rcases hx with rfl | rfl | rfl | rfl
    · exact hzero
    · exact hzero
    · rw [hexDigit_digitChar hi]; rfl
    · rw [hexDigit_digitChar hk]; rfl
  have hshort : ∀ d : Char, ∀ x ∈ ([] : List Char), (hexDigit x).isSome = true :=
    fun _ x hx => absurd hx List.not_mem_nil
  rw [escape]
  split
  · exact .inr ⟨_, _, rfl, hshort c⟩
  · split
    · exact .inr ⟨_, _, rfl, hshort c⟩
    · next hquote hslash =>
      split
      · exact .inr ⟨_, _, rfl, hshort c⟩
      split
      · exact .inr ⟨_, _, rfl, hshort c⟩
      split
      · exact .inr ⟨_, _, rfl, hshort c⟩
      split
      · exact .inr ⟨_, _, rfl, hshort c⟩
      split
      · exact .inr ⟨_, _, rfl, hshort c⟩
      split
      · next h16 =>
        rw [String.toList_append, String.toList_singleton]
        exact .inr ⟨'u', _, rfl, hdigits 0 c.toNat (by decide) h16⟩
      split
      · next h32 =>
        rw [String.toList_append, String.toList_singleton]
        exact .inr ⟨'u', _, rfl, hdigits 1 (c.toNat - 16) (by decide) (by omega)⟩
      · rw [String.toList_singleton]
        exact .inl ⟨rfl, hquote, hslash⟩

theorem escape_cons (c : Char) : ∃ d ds, (escape c).toList = d :: ds ∧ d ≠ '"' := by
  rcases escape_cases c with ⟨hself, hquote, -⟩ | ⟨d, ds, hescaped, -⟩
  · exact ⟨c, [], hself, hquote⟩
  · exact ⟨'\\', d :: ds, hescaped, by decide⟩

/-! ### Strings -/

/-- The characters of a string as they are written. -/
def escaped (cs : List Char) : List Char := cs.flatMap fun c => (escape c).toList

theorem escaped_cons (c : Char) (cs : List Char) :
    escaped (c :: cs) = (escape c).toList ++ escaped cs := List.flatMap_cons ..

theorem quote_toList (s : String) : (quote s).toList = '"' :: (escaped s.toList ++ ['"']) := by
  have hjoin : ∀ ss : List String, (String.join ss).toList = ss.flatMap String.toList := by
    intro ss
    induction ss with
    | nil => rfl
    | cons s ss ih => rw [String.join_cons, String.toList_append, ih, List.flatMap_cons]
  rw [quote, String.toList_append, String.toList_append, hjoin, List.flatMap_map]
  rfl

theorem length_le_escaped (cs : List Char) : cs.length ≤ (escaped cs).length := by
  induction cs with
  | nil => exact Nat.le_refl _
  | cons c cs ih =>
      obtain ⟨d, ds, hescape, -⟩ := escape_cons c
      rw [escaped_cons, List.length_append, hescape, List.length_cons, List.length_cons]
      omega

theorem readChars_escaped (cs : List Char) (n : Nat) (hn : cs.length < n) :
    readChars n (escaped cs ++ '"' :: rest) = some (cs, rest) := by
  induction cs generalizing n with
  | nil =>
      cases n with
      | zero   => exact absurd hn (Nat.not_lt_zero _)
      | succ n => rfl
  | cons c cs ih =>
      cases n with
      | zero   => exact absurd hn (Nat.not_lt_zero _)
      | succ n =>
          obtain ⟨d, ds, hescape, hd⟩ := escape_cons c
          have hread := readChar_escape (escaped cs ++ '"' :: rest) c
          rw [hescape, List.cons_append] at hread
          rw [escaped_cons, hescape, List.append_assoc, List.cons_append, readChars, if_neg hd,
            hread, Option.bind_some, ih n (Nat.lt_of_succ_lt_succ hn)]
          rfl

theorem readString_quote (s : String) :
    readString (escaped s.toList ++ '"' :: rest) = some (s, rest) := by
  have hlength : s.toList.length < (escaped s.toList ++ '"' :: rest).length := by
    rw [List.length_append, List.length_cons]
    have := length_le_escaped s.toList
    omega
  rw [readString, readChars_escaped s.toList _ hlength, Option.map_some, String.ofList_toList]

/-! ### Values -/

theorem skipWhite_cons {c : Char} (cs : List Char) (hc : isWhite c = false) :
    skipWhite (c :: cs) = c :: cs := by
  rw [skipWhite, List.dropWhile_cons, if_neg (by rw [hc]; exact Bool.false_ne_true)]

/-! #### Numbers -/

section

variable {number : String → String} {t : String}

theorem numeric_of_isNumber (ht : IsNumber number t) : ∀ c ∈ t.toList, isNumeric c = true := by
  obtain ⟨hread, -⟩ := ht
  rw [readNumeral] at hread
  split at hread
  · have hrest : t.toList.dropWhile isNumeric = [] := congrArg Prod.snd (Option.some.inj hread)
    exact List.dropWhile_eq_nil_iff.mp hrest
  · cases hread

theorem isNumber_cons (ht : IsNumber number t) : ∃ c cs, t.toList = c :: cs ∧
    isNumeric c = true := by
  cases hchars : t.toList with
  | nil =>
      have hread := ht.1
      rw [hchars] at hread
      cases hread
  | cons c cs => exact ⟨c, cs, rfl, numeric_of_isNumber ht c (hchars ▸ List.mem_cons_self)⟩

theorem readNumeral_append (ht : IsNumber number t) (hrest : Follows rest) :
    readNumeral (t.toList ++ rest) = some (t, rest) := by
  have hnumeric := numeric_of_isNumber ht
  -- what follows ends the scan
  have htake : (t.toList ++ rest).takeWhile isNumeric = t.toList := by
    rw [List.takeWhile_append_of_pos hnumeric]
    cases rest with
    | nil => exact List.append_nil _
    | cons c cs =>
        rw [List.takeWhile_cons, if_neg (by rw [hrest c rfl]; exact Bool.false_ne_true),
          List.append_nil]
  have hdrop : (t.toList ++ rest).dropWhile isNumeric = rest := by
    rw [List.dropWhile_append_of_pos hnumeric]
    cases rest with
    | nil => rfl
    | cons c cs => rw [List.dropWhile_cons, if_neg (by rw [hrest c rfl]; exact Bool.false_ne_true)]
  have hself : isNumeral t.toList = true := by
    have hread := ht.1
    rw [readNumeral, ← List.append_nil t.toList, List.takeWhile_append_of_pos hnumeric] at hread
    by_contra hnot
    rw [List.takeWhile_nil, List.append_nil, if_neg hnot] at hread
    cases hread
  rw [readNumeral, htake, hdrop, if_pos hself, String.ofList_toList]

end

/-! #### The texts of arrays and objects -/

theorem stringify_arr (vs : List Json) :
    (stringify (.arr vs)).toList = '[' :: ((stringifyList vs).toList ++ [']']) := by
  rw [stringify, String.toList_append, String.toList_append]
  rfl

theorem stringify_obj (fields : List (String × Json)) :
    (stringify (.obj fields)).toList = '\x7b' :: ((stringifyFields fields).toList ++ ['\x7d']) := by
  rw [stringify, String.toList_append, String.toList_append]
  rfl

theorem stringifyList_cons (v w : Json) (vs : List Json) :
    (stringifyList (v :: w :: vs)).toList
      = (stringify v).toList ++ ',' :: (stringifyList (w :: vs)).toList := by
  have hstep : stringifyList (v :: w :: vs) = stringify v ++ "," ++ stringifyList (w :: vs) := by
    rw [stringifyList]
    rintro ⟨⟩
  rw [hstep, String.toList_append, String.toList_append, List.append_assoc]
  rfl

theorem stringifyFields_one (k : String) (v : Json) :
    (stringifyFields [(k, v)]).toList = '"' :: (escaped k.toList ++ '"' :: ':' ::
      (stringify v).toList) := by
  rw [stringifyFields, String.toList_append, String.toList_append, quote_toList]
  simp

theorem stringifyFields_step (k : String) (v : Json) (f : String × Json)
    (fields : List (String × Json)) :
    stringifyFields ((k, v) :: f :: fields)
      = quote k ++ ":" ++ stringify v ++ "," ++ stringifyFields (f :: fields) := by
  rw [stringifyFields]
  rintro ⟨⟩

theorem stringifyFields_cons (k : String) (v : Json) (f : String × Json)
    (fields : List (String × Json)) :
    (stringifyFields ((k, v) :: f :: fields)).toList = '"' :: (escaped k.toList ++ '"' :: ':' ::
      ((stringify v).toList ++ ',' :: (stringifyFields (f :: fields)).toList)) := by
  rw [stringifyFields_step, String.toList_append, String.toList_append, String.toList_append,
    String.toList_append, quote_toList]
  simp

theorem isWhite_of_isNumeric {c : Char} (hc : isNumeric c = true) : isWhite c = false := by
  rw [isWhite]
  simp only [Bool.or_eq_false_iff, decide_eq_false_iff_not]
  refine ⟨⟨⟨?_, ?_⟩, ?_⟩, ?_⟩ <;> (rintro rfl; cases hc)

/-- The first character of a value. -/
theorem stringify_cons {number : String → String} {v : Json} (hv : Valid number v) :
    ∃ c cs, (stringify v).toList = c :: cs ∧ isWhite c = false ∧ c ≠ ']' := by
  cases v with
  | null     => exact ⟨'n', _, rfl, rfl, by decide⟩
  | bool b   => cases b <;> exact ⟨_, _, rfl, rfl, by decide⟩
  | str s    => exact ⟨'"', _, quote_toList s, rfl, by decide⟩
  | arr vs   => exact ⟨'[', _, stringify_arr vs, rfl, by decide⟩
  | obj fs   => exact ⟨'\x7b', _, stringify_obj fs, rfl, by decide⟩
  | num t    =>
      obtain ⟨c, cs, hchars, hc⟩ := isNumber_cons hv
      refine ⟨c, cs, hchars, isWhite_of_isNumeric hc, ?_⟩
      rintro rfl
      cases hc

theorem stringifyList_head {number : String → String} (v : Json) (vs : List Json)
    (hv : Valid number v) :
    ∃ c cs, (stringifyList (v :: vs)).toList = c :: cs ∧ isWhite c = false ∧ c ≠ ']' := by
  obtain ⟨c, cs, hchars, hwhite, hc⟩ := stringify_cons hv
  cases vs with
  | nil => exact ⟨c, cs, hchars, hwhite, hc⟩
  | cons w vs =>
      rw [stringifyList_cons, hchars, List.cons_append]
      exact ⟨c, _, rfl, hwhite, hc⟩

theorem stringifyFields_head (f : String × Json) (fields : List (String × Json)) :
    ∃ cs, (stringifyFields (f :: fields)).toList = '"' :: cs := by
  obtain ⟨k, v⟩ := f
  cases fields with
  | nil            => exact ⟨_, stringifyFields_one k v⟩
  | cons f' fields => exact ⟨_, stringifyFields_cons k v f' fields⟩

theorem follows_cons {c : Char} (cs : List Char) (hc : isNumeric c = false) :
    Follows (c :: cs) := by
  rintro d hd
  cases hd
  exact hc

/-- A parsed object whose keys are different has them as they were read. -/
theorem foldl_setEntries (fields done : List (String × Json))
    (hkeys : ((done ++ fields).map Prod.fst).Nodup) :
    fields.foldl (fun fields m => OrderedMap.setEntries m.1 m.2 fields) done = done ++ fields := by
  induction fields generalizing done with
  | nil => exact (List.append_nil _).symm
  | cons f fields ih =>
      -- a key that is not there is appended
      have hnew : f.1 ∉ done.map Prod.fst := by
        rw [List.map_append, List.map_cons] at hkeys
        intro hmem
        exact (List.nodup_append.mp hkeys).2.2 _ hmem _ List.mem_cons_self rfl
      have hset : OrderedMap.setEntries f.1 f.2 done = done ++ [f] := by
        clear ih hkeys
        induction done with
        | nil => rfl
        | cons e done ih =>
            rw [List.map_cons] at hnew
            have hne : e.1 ≠ f.1 := fun heq => hnew (heq ▸ List.mem_cons_self)
            rw [OrderedMap.setEntries, if_neg hne, ih fun h => hnew (List.mem_cons_of_mem _ h)]
            rfl
      rw [List.foldl_cons, hset, ih (done ++ [f]) (by rwa [List.append_assoc]), List.append_assoc]
      rfl

section

variable {number : String → String} {n : Nat} {v : Json} {cs : List Char}

theorem readString_quote_tail (s : String) (cs : List Char) :
    readString (escaped s.toList ++ ['"'] ++ cs) = some (s, cs) := by
  rw [List.append_assoc]
  exact readString_quote s

theorem readValue_numeral {t : String} (ht : IsNumber number t) (hrest : Follows rest) :
    readValue number (n + 1) (t.toList ++ rest) = some (.num t, rest) := by
  obtain ⟨c, cs, hchars, hc⟩ := isNumber_cons ht
  have hread := readNumeral_append ht hrest
  rw [hchars, List.cons_append] at hread ⊢
  rw [readValue, skipWhite_cons _ (isWhite_of_isNumeric hc)]
  dsimp only
  -- a number begins with none of the characters that are asked for before
  rw [if_neg (by rintro rfl; cases hc), if_neg (by rintro rfl; cases hc),
    if_neg (by rintro rfl; cases hc), if_neg (by rintro rfl; cases hc),
    if_neg (by rintro rfl; cases hc), if_neg (by rintro rfl; cases hc), hread, Option.map_some,
    ht.2]

theorem readValue_quote (s : String) :
    readValue number (n + 1) ((quote s).toList ++ rest) = some (.str s, rest) := by
  rw [quote_toList, List.cons_append]
  change (readString (escaped s.toList ++ ['"'] ++ rest)).map _ = _
  rw [readString_quote_tail]
  rfl

theorem readValue_elements {vs : List Json}
    (hcs : ∃ c cs', cs = c :: cs' ∧ isWhite c = false ∧ c ≠ ']')
    (hread : readElements number n cs = some (vs, rest)) :
    readValue number (n + 1) ('[' :: cs) = some (.arr vs, rest) := by
  obtain ⟨c, cs', rfl, hwhite, hc⟩ := hcs
  have hopen : (skipWhite (c :: cs')).head? ≠ some ']' := by
    rw [skipWhite_cons _ hwhite]
    exact fun h => hc (Option.some.inj h)
  change (if (skipWhite (c :: cs')).head? = some ']' then _
    else (readElements number n (c :: cs')).map _) = _
  rw [if_neg hopen, hread]
  rfl

theorem readValue_members {fields : List (String × Json)}
    (hread : readMembers number n ('"' :: cs) = some (fields, rest))
    (hkeys : (fields.map Prod.fst).Nodup) :
    readValue number (n + 1) ('\x7b' :: '"' :: cs) = some (.obj fields, rest) := by
  have hopen : (skipWhite ('"' :: cs)).head? ≠ some '\x7d' := by
    rw [skipWhite_cons _ rfl]
    exact fun h => absurd (Option.some.inj h) (by decide)
  rw [readValue, skipWhite_cons _ rfl]
  dsimp only
  rw [if_neg (by decide), if_neg (by decide), if_pos rfl, if_neg hopen, hread, Option.map_some,
    foldl_setEntries _ [] hkeys]
  rfl

/-- The last element. -/
theorem readElements_last (hread : readValue number n cs = some (v, ']' :: rest)) :
    readElements number (n + 1) cs = some ([v], rest) := by
  change (readValue number n cs).bind _ = _
  rw [hread]
  rfl

theorem readElements_next {cs' : List Char} {vs : List Json}
    (hread : readValue number n cs = some (v, ',' :: cs'))
    (hothers : readElements number n cs' = some (vs, rest)) :
    readElements number (n + 1) cs = some (v :: vs, rest) := by
  change (readValue number n cs).bind _ = _
  rw [hread]
  change (readElements number n cs').map _ = _
  rw [hothers]
  rfl

/-- The last member. -/
theorem readMembers_last (k : String) (hread : readValue number n cs = some (v, '\x7d' :: rest)) :
    readMembers number (n + 1) ('"' :: (escaped k.toList ++ '"' :: ':' :: cs))
      = some ([(k, v)], rest) := by
  change (readString _).bind _ = _
  rw [readString_quote, Option.bind_some]
  change (readValue number n cs).bind _ = _
  rw [hread]
  rfl

theorem readMembers_next (k : String) {cs' : List Char} {fields : List (String × Json)}
    (hread : readValue number n cs = some (v, ',' :: cs'))
    (hothers : readMembers number n cs' = some (fields, rest)) :
    readMembers number (n + 1) ('"' :: (escaped k.toList ++ '"' :: ':' :: cs))
      = some ((k, v) :: fields, rest) := by
  change (readString _).bind _ = _
  rw [readString_quote, Option.bind_some]
  change (readValue number n cs).bind _ = _
  rw [hread]
  change (readMembers number n cs').map _ = _
  rw [hothers]
  rfl

end

/-- What is read back within a depth: a value that something follows, the elements of an
    array and the members of an object. -/
structure ReadsBack (number : String → String) (n : Nat) : Prop where
  value : ∀ v rest, Valid number v → (stringify v).toList.length ≤ n → Follows rest →
    readValue number n ((stringify v).toList ++ rest) = some (v, rest)
  elements : ∀ v vs rest, Valid number v → ValidItems number vs →
    (stringifyList (v :: vs)).toList.length + 1 ≤ n →
    readElements number n ((stringifyList (v :: vs)).toList ++ ']' :: rest) = some (v :: vs, rest)
  members : ∀ f fields rest, ValidFields number (f :: fields) →
    (stringifyFields (f :: fields)).toList.length + 1 ≤ n →
    readMembers number n ((stringifyFields (f :: fields)).toList ++ '\x7d' :: rest)
      = some (f :: fields, rest)

section

variable {number : String → String} {n : Nat}

theorem ReadsBack.readValue (h : ReadsBack number n) {v : Json} (hv : Valid number v)
    (hn : (stringify v).toList.length ≤ n + 1) (hrest : Follows rest) :
    Json.readValue number (n + 1) ((stringify v).toList ++ rest) = some (v, rest) := by
  match v with
  | .null          => rfl
  | .bool true     => rfl
  | .bool false    => rfl
  | .num t         => exact readValue_numeral hv hrest
  | .str s         => exact readValue_quote s
  | .arr []        => rfl
  | .obj []        => rfl
  | .arr (v :: vs) =>
      rw [stringify_arr, List.length_cons, List.length_append, List.length_singleton] at hn
      obtain ⟨c, cs, hchars, hhead⟩ := stringifyList_head v vs hv.1
      rw [stringify_arr, List.cons_append, List.append_assoc, List.singleton_append]
      refine readValue_elements ⟨c, cs ++ ']' :: rest, ?_, hhead⟩
        (h.elements v vs rest hv.1 hv.2 (by omega))
      rw [hchars, List.cons_append]
  | .obj (f :: fields) =>
      rw [stringify_obj, List.length_cons, List.length_append, List.length_singleton] at hn
      have hread := h.members f fields rest hv.2 (by omega)
      obtain ⟨cs, hchars⟩ := stringifyFields_head f fields
      rw [stringify_obj, List.cons_append, List.append_assoc, List.singleton_append]
      rw [hchars, List.cons_append] at hread ⊢
      exact readValue_members hread hv.1

theorem ReadsBack.readElements (h : ReadsBack number n) (v : Json) (vs : List Json)
    (hv : Valid number v) (hvs : ValidItems number vs)
    (hn : (stringifyList (v :: vs)).toList.length ≤ n) :
    Json.readElements number (n + 1) ((stringifyList (v :: vs)).toList ++ ']' :: rest)
      = some (v :: vs, rest) := by
  cases vs with
  | nil => exact readElements_last (h.value v (']' :: rest) hv hn (follows_cons rest rfl))
  | cons w vs =>
      rw [stringifyList_cons, List.length_append, List.length_cons] at hn
      rw [stringifyList_cons, List.append_assoc, List.cons_append]
      exact readElements_next (h.value v _ hv (by omega) (follows_cons _ rfl))
        (h.elements w vs rest hvs.1 hvs.2 (by omega))

theorem ReadsBack.readMembers (h : ReadsBack number n) (k : String) (v : Json)
    (fields : List (String × Json)) (hv : Valid number v) (hfields : ValidFields number fields)
    (hn : (stringifyFields ((k, v) :: fields)).toList.length ≤ n) :
    Json.readMembers number (n + 1) ((stringifyFields ((k, v) :: fields)).toList ++ '\x7d' :: rest)
      = some ((k, v) :: fields, rest) := by
  cases fields with
  | nil =>
      rw [stringifyFields_one, List.length_cons, List.length_append, List.length_cons,
        List.length_cons] at hn
      rw [stringifyFields_one, List.cons_append, List.append_assoc, List.cons_append,
        List.cons_append]
      exact readMembers_last k (h.value v _ hv (by omega) (follows_cons rest rfl))
  | cons f fields =>
      rw [stringifyFields_cons, List.length_cons, List.length_append, List.length_cons,
        List.length_cons, List.length_append, List.length_cons] at hn
      rw [stringifyFields_cons, List.cons_append, List.append_assoc, List.cons_append,
        List.cons_append, List.append_assoc, List.cons_append]
      exact readMembers_next k (h.value v _ hv (by omega) (follows_cons _ rfl))
        (h.members f fields rest hfields (by omega))

/-- Whatever the depth. -/
theorem readsBack (number : String → String) (n : Nat) : ReadsBack number n := by
  -- every call takes a character, so the length of the text is depth enough
  induction n with
  | zero =>
      refine ⟨fun v rest hv hn _ => ?_, fun _ _ _ _ _ hn => ?_, fun _ _ _ _ hn => ?_⟩
      · obtain ⟨c, cs, hchars, -⟩ := stringify_cons hv
        rw [hchars] at hn
        exact absurd hn (Nat.not_succ_le_zero _)
      · exact absurd hn (Nat.not_succ_le_zero _)
      · exact absurd hn (Nat.not_succ_le_zero _)
  | succ n ih =>
      exact {
        value    := fun v rest hv hn hrest => ih.readValue hv hn hrest
        elements := fun v vs rest hv hvs hn =>
          ih.readElements v vs hv hvs (Nat.le_of_succ_le_succ hn)
        members  := fun f fields rest hfields hn =>
          ih.readMembers f.1 f.2 fields hfields.1 hfields.2 (Nat.le_of_succ_le_succ hn) }

end

/-- **`JSON.parse(JSON.stringify(v))`** is `v`. -/
theorem parse_stringify {number : String → String} {v : Json} (hv : Valid number v) :
    parse number (stringify v) = some v := by
  have hread := (readsBack number _).value v [] hv (Nat.le_refl _) (by rintro c ⟨⟩)
  rw [List.append_nil] at hread
  rw [parse, hread]
  rfl

end

end Json
