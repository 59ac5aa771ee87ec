import NestServer.Ai.JsonText

/-! # How light a JSON text can be

    A text is weighed by its characters; hexadecimal digits and signs weigh nothing, so
    numbers do not.  `weight_le_of_parse`: nothing that is read from a text is heavier than
    the text.  `weigh_stringify`: `JSON.stringify` writes no more than that.  So no part of
    a text can be read as what the whole text says. -/

namespace Json

/-! ## Weights -/

def isLight (c : Char) : Bool := (hexDigit c).isSome || c = '+' || c = '-' || c = '.'

def weigh (cs : List Char) : Nat := cs.countP fun c => !isLight c

mutual

/-- What `JSON.stringify` writes for a value, numbers apart. -/
def weight : Json → Nat
  | .null       => 4
  | .bool true  => 3
  | .bool false => 2
  | .num _      => 0
  | .str s      => weigh (quote s).toList
  | .arr vs     => 1 + max 1 (weightItems vs)
  | .obj fields => 1 + max 1 (weightFields fields)

/-- With a character behind each of them. -/
def weightItems : List Json → Nat
  | []      => 0
  | v :: vs => weight v + 1 + weightItems vs

def weightFields : List (String × Json) → Nat
  | []               => 0
  | (k, v) :: fields => weigh (quote k).toList + 1 + weight v + 1 + weightFields fields

end

section

theorem weigh_cons (c : Char) (cs : List Char) :
    weigh (c :: cs) = weigh cs + if isLight c = true then 0 else 1 := by
  rw [weigh, List.countP_cons, weigh]
  cases isLight c <;> rfl

theorem weigh_append (cs ds : List Char) : weigh (cs ++ ds) = weigh cs + weigh ds :=
  List.countP_append

theorem weigh_le_of_sublist {cs ds : List Char} (h : cs.Sublist ds) : weigh cs ≤ weigh ds :=
  h.countP_le

theorem weigh_light {cs : List Char} (h : ∀ c ∈ cs, isLight c = true) : weigh cs = 0 :=
  List.countP_eq_zero.mpr fun c hc => by rw [h c hc]; exact Bool.false_ne_true

theorem weigh_skipWhite (cs : List Char) : weigh (skipWhite cs) ≤ weigh cs :=
  weigh_le_of_sublist (List.dropWhile_sublist _)

/-! ### Characters and strings -/

theorem weigh_escape_le (c : Char) : weigh (escape c).toList ≤ 2 := by
  rcases escape_cases c with ⟨hself, -, -⟩ | ⟨d, ds, hescaped, hds⟩
  · rw [hself, weigh_cons]
    split <;> exact Nat.le_of_ble_eq_true rfl
  · have hlight : weigh ds = 0 :=
      weigh_light fun x hx => by rw [isLight, hds x hx, Bool.true_or, Bool.true_or, Bool.true_or]
    rw [hescaped, weigh_cons, weigh_cons, hlight]
    split <;> split <;> omega

theorem escape_self {c : Char} (hquote : c ≠ '"') (hslash : c ≠ '\\') (hc : ¬ c.toNat < 32) :
    (escape c).toList = [c] := by
  rw [escape, if_neg hquote, if_neg hslash, if_neg (by omega), if_neg (by omega), if_neg (by omega),
    if_neg (by omega), if_neg (by omega), if_neg (by omega), if_neg hc, String.toList_singleton]

variable {rest : List Char}

theorem weigh_readUnit {cs : List Char} {u : Nat} (hread : readUnit cs = some (u, rest)) :
    weigh rest ≤ weigh cs := by
  rw [readUnit.eq_def] at hread
  split at hread
  · obtain ⟨_, -, hread⟩ := Option.bind_eq_some_iff.mp hread
    obtain ⟨_, -, hread⟩ := Option.bind_eq_some_iff.mp hread
    obtain ⟨_, -, hread⟩ := Option.bind_eq_some_iff.mp hread
    obtain ⟨_, -, hread⟩ := Option.map_eq_some_iff.mp hread
    cases hread
    exact weigh_le_of_sublist (((((List.Sublist.refl _).cons _).cons _).cons _).cons _)
  · cases hread

theorem weigh_readLow {cs : List Char} {u : Nat} (hread : readLow cs = some (u, rest)) :
    weigh rest ≤ weigh cs := by
  rw [readLow.eq_def] at hread
  split at hread
  · obtain ⟨hunit, -⟩ := Option.filter_eq_some_iff.mp hread
    exact Nat.le_trans (weigh_readUnit hunit)
      (weigh_le_of_sublist (((List.Sublist.refl _).cons _).cons _))
  · cases hread

theorem weigh_readUnicode {cs : List Char} {c : Char} (hread : readUnicode cs = some (c, rest)) :
    weigh rest ≤ weigh cs := by
  obtain ⟨⟨u, cs'⟩, hunit, hread⟩ := Option.map_eq_some_iff.mp hread
  have hfirst := weigh_readUnit hunit
  have hrest := congrArg Prod.snd hread
  dsimp only at hrest
  rw [← hrest]
  split
  · split
    · next low hlow => exact Nat.le_trans (weigh_readLow hlow) hfirst
    · exact hfirst
  · split <;> exact hfirst

theorem weigh_readEscape {cs : List Char} {c : Char} (hread : readEscape cs = some (c, rest)) :
    weigh (escape c).toList + weigh rest ≤ weigh cs + 1 := by
  cases cs with
  | nil => cases hread
  | cons d cs =>
      rw [readEscape] at hread
      by_cases hd : d = 'u'
      · rw [if_pos hd] at hread
        have hrest := weigh_readUnicode hread
        have hescape := weigh_escape_le c
        rw [hd, weigh_cons, if_neg (by decide)]
        omega
      · rw [if_neg hd] at hread
        obtain ⟨e, he, hread⟩ := Option.map_eq_some_iff.mp hread
        cases hread
        -- what has a short escape is written by it
        have hshort : ∀ e ∈ escapes, weigh (escape e.2).toList ≤ 1 + if isLight e.1 = true then 0
            else 1 := by
          decide
        have hfirst := hshort e (List.mem_of_find?_eq_some he)
        have hsame : e.1 = d := by simpa using List.find?_some he
        rw [weigh_cons, ← hsame]
        omega

theorem weigh_readChar {d : Char} {cs : List Char} {c : Char} (hd : d ≠ '"')
    (hread : readChar (d :: cs) = some (c, rest)) :
    weigh (escape c).toList + weigh rest ≤ weigh (d :: cs) := by
  rw [readChar] at hread
  by_cases hslash : d = '\\'
  · rw [if_pos hslash] at hread
    have hescape := weigh_readEscape hread
    rw [hslash, weigh_cons, if_neg (by decide)]
    exact hescape
  · rw [if_neg hslash] at hread
    split at hread
    · cases hread
    · next hlow =>
      cases hread
      rw [escape_self hd hslash hlow, ← weigh_append]
      exact Nat.le_refl _

theorem weigh_readChars (n : Nat) {cs : List Char} {ds : List Char}
    (hread : readChars n cs = some (ds, rest)) :
    weigh (escaped ds) + 1 + weigh rest ≤ weigh cs := by
  induction n generalizing cs ds with
  | zero => cases hread
  | succ n ih =>
      cases cs with
      | nil => cases hread
      | cons c cs =>
          rw [readChars] at hread
          by_cases hquote : c = '"'
          · rw [if_pos hquote] at hread
            cases hread
            rw [hquote, weigh_cons, if_neg (by decide)]
            have hnone : weigh (escaped []) = 0 := rfl
            omega
          · rw [if_neg hquote] at hread
            obtain ⟨⟨d, cs'⟩, hfirst, hread⟩ := Option.bind_eq_some_iff.mp hread
            obtain ⟨⟨ds', rest'⟩, hothers, hread⟩ := Option.map_eq_some_iff.mp hread
            cases hread
            have hchar := weigh_readChar hquote hfirst
            have hmore := ih hothers
            dsimp only at hchar hmore ⊢
            rw [escaped_cons, weigh_append]
            omega

theorem weigh_readString {cs : List Char} {t : String} (hread : readString cs = some (t, rest)) :
    weigh (quote t).toList + weigh rest ≤ 1 + weigh cs := by
  obtain ⟨⟨ds, rest'⟩, hchars, hread⟩ := Option.map_eq_some_iff.mp hread
  have hweigh := weigh_readChars _ hchars
  cases hread
  have hone : ∀ ds, weigh ('"' :: (ds ++ ['"'])) = weigh ds + 2 := by
    intro ds
    rw [weigh_cons, weigh_append]
    rfl
  dsimp only
  rw [quote_toList, String.toList_ofList, hone]
  omega

/-! ### Values -/

theorem weigh_readLiteral {word : String} {v w : Json} {cs : List Char}
    (hread : readLiteral word v cs = some (w, rest)) :
    w = v ∧ weigh word.toList + weigh rest = weigh cs := by
  rw [readLiteral] at hread
  split at hread
  · next hword =>
    obtain ⟨tail, rfl⟩ := List.isPrefixOf_iff_prefix.mp hword
    cases hread
    rw [List.drop_left, weigh_append]
    exact ⟨rfl, rfl⟩
  · cases hread

theorem weigh_readNumeral {cs : List Char} {t : String} (hread : readNumeral cs = some (t, rest)) :
    weigh rest ≤ weigh cs := by
  rw [readNumeral] at hread
  split at hread
  · cases hread
    exact weigh_le_of_sublist (List.dropWhile_sublist _)
  · cases hread

theorem weightFields_setEntries (k : String) (v : Json) (fields : List (String × Json)) :
    weightFields (OrderedMap.setEntries k v fields)
      ≤ weightFields fields + (weigh (quote k).toList + 1 + weight v + 1) := by
  induction fields with
  | nil =>
      rw [OrderedMap.setEntries, weightFields, Nat.add_comm]
      exact Nat.le_refl _
  | cons e fields ih =>
      obtain ⟨k', v'⟩ := e
      rw [OrderedMap.setEntries]
      split
      · rw [weightFields, weightFields]
        omega
      · rw [weightFields, weightFields]
        omega

theorem weightFields_foldl (fields done : List (String × Json)) :
    weightFields (fields.foldl (fun fields m => OrderedMap.setEntries m.1 m.2 fields) done)
      ≤ weightFields done + weightFields fields := by
  induction fields generalizing done with
  | nil => exact Nat.le_add_right _ _
  | cons f fields ih =>
      obtain ⟨k, v⟩ := f
      have hset := weightFields_setEntries k v done
      have hmore := ih (OrderedMap.setEntries k v done)
      rw [List.foldl_cons, weightFields]
      dsimp only
      omega

/-- Within a depth, a value is no heavier than what has been read. -/
structure Bounded (number : String → String) (n : Nat) : Prop where
  value : ∀ {cs v rest}, readValue number n cs = some (v, rest) → weight v + weigh rest ≤ weigh cs
  elements : ∀ {cs vs rest}, readElements number n cs = some (vs, rest) →
    max 1 (weightItems vs) + weigh rest ≤ weigh cs
  members : ∀ {cs fields rest}, readMembers number n cs = some (fields, rest) →
    max 1 (weightFields fields) + weigh rest ≤ weigh cs

section

variable {number : String → String} {n : Nat}

theorem Bounded.readElements (h : Bounded number n) {cs : List Char} {vs : List Json}
    (hread : Json.readElements number (n + 1) cs = some (vs, rest)) :
    max 1 (weightItems vs) + weigh rest ≤ weigh cs := by
  rw [Json.readElements] at hread
  obtain ⟨⟨v, cs'⟩, hfirst, hread⟩ := Option.bind_eq_some_iff.mp hread
  have hvalue := h.value hfirst
  have hwhite := weigh_skipWhite cs'
  dsimp only at hread
  split at hread
  · next cs'' hcomma =>
    obtain ⟨⟨vs', rest'⟩, hothers, hread⟩ := Option.map_eq_some_iff.mp hread
    cases hread
    have hmore := h.elements hothers
    rw [hcomma, weigh_cons, if_neg (by decide)] at hwhite
    dsimp only at hmore ⊢
    rw [weightItems]
    omega
  · next cs'' hbracket =>
    cases hread
    rw [hbracket, weigh_cons, if_neg (by decide)] at hwhite
    rw [weightItems, weightItems]
    omega
  · cases hread

theorem Bounded.readMembers (h : Bounded number n) {cs : List Char} {fields : List (String × Json)}
    (hread : Json.readMembers number (n + 1) cs = some (fields, rest)) :
    max 1 (weightFields fields) + weigh rest ≤ weigh cs := by
  rw [Json.readMembers] at hread
  have hwhite := weigh_skipWhite cs
  split at hread
  · next cs₁ hquote =>
    rw [hquote, weigh_cons, if_neg (by decide)] at hwhite
    obtain ⟨⟨k, cs₂⟩, hkey, hread⟩ := Option.bind_eq_some_iff.mp hread
    have hstring := weigh_readString hkey
    have hwhite₂ := weigh_skipWhite cs₂
    dsimp only at hread
    split at hread
    · next cs₃ hcolon =>
      rw [hcolon, weigh_cons, if_neg (by decide)] at hwhite₂
      obtain ⟨⟨v, cs₄⟩, hfirst, hread⟩ := Option.bind_eq_some_iff.mp hread
      have hvalue := h.value hfirst
      have hwhite₄ := weigh_skipWhite cs₄
      dsimp only at hread
      split at hread
      · next cs₅ hcomma =>
        rw [hcomma, weigh_cons, if_neg (by decide)] at hwhite₄
        obtain ⟨⟨fields', rest'⟩, hothers, hread⟩ := Option.map_eq_some_iff.mp hread
        cases hread
        have hmore := h.members hothers
        dsimp only at hmore ⊢
        rw [weightFields]
        omega
      · next cs₅ hbrace =>
        rw [hbrace, weigh_cons, if_neg (by decide)] at hwhite₄
        cases hread
        rw [weightFields, weightFields]
        omega
      · cases hread
    · cases hread
  · cases hread

/-- An empty array or object. -/
theorem weigh_closing {d : Char} {ds : List Char} (hd : isLight d = false)
    (hclose : (skipWhite ds).head? = some d) : weigh (skipWhite ds).tail + 1 ≤ weigh ds := by
  obtain ⟨tail, hclosed⟩ := List.head?_eq_some_iff.mp hclose
  have hwhite := weigh_skipWhite ds
  rw [hclosed, weigh_cons, hd] at hwhite
  rw [hclosed, List.tail_cons]
  exact hwhite

/-- Behind an opening bracket. -/
theorem Bounded.readArray (h : Bounded number n) {ds : List Char} {v : Json}
    (hread : (if (skipWhite ds).head? = some ']' then some (.arr [], (skipWhite ds).tail)
      else (Json.readElements number n ds).map fun p => (.arr p.1, p.2)) = some (v, rest)) :
    weight v + weigh rest ≤ weigh ds + 1 := by
  split at hread
  · next hclose =>
    have hempty := weigh_closing rfl hclose
    cases hread
    rw [weight, weightItems]
    omega
  · obtain ⟨⟨vs, rest'⟩, hitems, hread⟩ := Option.map_eq_some_iff.mp hread
    cases hread
    have hweigh := h.elements hitems
    dsimp only at hweigh ⊢
    rw [weight]
    omega

/-- Behind an opening brace. -/
theorem Bounded.readObject (h : Bounded number n) {ds : List Char} {v : Json}
    (hread : (if (skipWhite ds).head? = some '\x7d' then some (.obj [], (skipWhite ds).tail)
      else (Json.readMembers number n ds).map fun p =>
        (.obj (p.1.foldl (fun fields m => OrderedMap.setEntries m.1 m.2 fields) []), p.2))
      = some (v, rest)) :
    weight v + weigh rest ≤ weigh ds + 1 := by
  split at hread
  · next hclose =>
    have hempty := weigh_closing rfl hclose
    cases hread
    rw [weight, weightFields]
    omega
  · obtain ⟨⟨fields, rest'⟩, hmembers, hread⟩ := Option.map_eq_some_iff.mp hread
    cases hread
    have hweigh := h.members hmembers
    have hfields := weightFields_foldl fields []
    dsimp only at hweigh ⊢
    rw [weightFields] at hfields
    rw [weight]
    omega

/-- A literal weighs what is read. -/
theorem weight_readLiteral {word : String} {v w : Json} {cs : List Char}
    (hw : weight w = weigh word.toList) (hread : readLiteral word w cs = some (v, rest)) :
    weight v + weigh rest ≤ weigh cs := by
  obtain ⟨rfl, hweigh⟩ := weigh_readLiteral hread
  rw [hw, hweigh]

theorem Bounded.readValue (h : Bounded number n) {cs : List Char} {v : Json}
    (hread : Json.readValue number (n + 1) cs = some (v, rest)) :
    weight v + weigh rest ≤ weigh cs := by
  refine Nat.le_trans ?_ (weigh_skipWhite cs)
  rw [Json.readValue] at hread
  split at hread
  · cases hread
  · next c ds hcs =>
    rw [hcs]
    by_cases hquote : c = '"'
    · rw [if_pos hquote] at hread
      obtain ⟨⟨t, rest'⟩, hstring, hread⟩ := Option.map_eq_some_iff.mp hread
      cases hread
      have hweigh := weigh_readString hstring
      dsimp only at hweigh ⊢
      rw [hquote, weigh_cons, if_neg (by decide), weight]
      omega
    rw [if_neg hquote] at hread
    by_cases hbracket : c = '['
    · rw [if_pos hbracket] at hread
      rw [hbracket, weigh_cons, if_neg (by decide)]
      exact h.readArray hread
    rw [if_neg hbracket] at hread
    by_cases hbrace : c = '\x7b'
    · rw [if_pos hbrace] at hread
      rw [hbrace, weigh_cons, if_neg (by decide)]
      exact h.readObject hread
    rw [if_neg hbrace] at hread
    by_cases hn : c = 'n'
    · rw [if_pos hn] at hread
      exact weight_readLiteral rfl hread
    rw [if_neg hn] at hread
    by_cases ht : c = 't'
    · rw [if_pos ht] at hread
      exact weight_readLiteral rfl hread
    rw [if_neg ht] at hread
    by_cases hf : c = 'f'
    · rw [if_pos hf] at hread
      exact weight_readLiteral rfl hread
    rw [if_neg hf] at hread
    obtain ⟨⟨t, rest'⟩, hnumeral, hread⟩ := Option.map_eq_some_iff.mp hread
    cases hread
    rw [weight, Nat.zero_add]
    exact weigh_readNumeral hnumeral

theorem bounded (number : String → String) (n : Nat) : Bounded number n := by
  induction n with
  | zero =>
      refine ⟨fun hread => ?_, fun hread => ?_, fun hread => ?_⟩
      · cases hread
      · cases hread
      · cases hread
  | succ n ih => exact ⟨ih.readValue, ih.readElements, ih.readMembers⟩

/-- **A value is no heavier than the text that it is read from.** -/
theorem weight_le_of_parse {text : String} {v : Json} (hparse : parse number text = some v) :
    weight v ≤ weigh text.toList := by
  obtain ⟨⟨w, rest⟩, hread, hend⟩ := Option.bind_eq_some_iff.mp hparse
  dsimp only at hend
  split at hend
  · cases hend
    exact Nat.le_trans (Nat.le_add_right _ _) ((bounded number _).value hread)
  · cases hend

end

/-! ### What `JSON.stringify` writes -/

theorem isLight_of_isNumeric {c : Char} (hc : isNumeric c = true) : isLight c = true := by
  rw [isNumeric] at hc
  simp only [Bool.or_eq_true, decide_eq_true_eq] at hc
  rcases hc with ((((hdigit | rfl) | rfl) | rfl) | rfl) | rfl
  · have hrange : '0' ≤ c ∧ c ≤ '9' := by
      rw [Char.isDigit, Bool.and_eq_true, decide_eq_true_eq, decide_eq_true_eq] at hdigit
      exact hdigit
    rw [isLight, hexDigit, if_pos hrange]
    rfl
  all_goals rfl

section

variable {number : String → String}

mutual

/-- It is as light as it can be. -/
theorem weigh_stringify (v : Json) (hv : Valid number v) :
    weigh (stringify v).toList = weight v := by
  match v with
  | .null       => rfl
  | .bool true  => rfl
  | .bool false => rfl
  | .num t      => exact weigh_light fun c hc => isLight_of_isNumeric (numeric_of_isNumber hv c hc)
  | .str s      => rfl
  | .arr vs     =>
      have hitems := weigh_stringifyList vs hv
      rw [stringify_arr, weigh_cons, weigh_append, weight, ← hitems, if_neg (by decide)]
      have hclose : weigh [']'] = 1 := rfl
      omega
  | .obj fields =>
      have hfields := weigh_stringifyFields fields hv.2
      rw [stringify_obj, weigh_cons, weigh_append, weight, ← hfields, if_neg (by decide)]
      have hclose : weigh ['\x7d'] = 1 := rfl
      omega

theorem weigh_stringifyList (vs : List Json) (hvs : ValidItems number vs) :
    weigh (stringifyList vs).toList + 1 = max 1 (weightItems vs) := by
  match vs with
  | []           => rfl
  | [v]          =>
      have hfirst := weigh_stringify v hvs.1
      rw [stringifyList, weightItems, weightItems]
      omega
  | v :: w :: vs =>
      have hfirst := weigh_stringify v hvs.1
      have hothers := weigh_stringifyList (w :: vs) hvs.2
      rw [stringifyList_cons, weigh_append, weigh_cons, if_neg (by decide), weightItems]
      rw [weightItems] at hothers ⊢
      omega

theorem weigh_stringifyFields (fields : List (String × Json))
    (hfields : ValidFields number fields) :
    weigh (stringifyFields fields).toList + 1 = max 1 (weightFields fields) := by
  match fields with
  | []                    => rfl
  | [(k, v)]              =>
      have hfirst := weigh_stringify v hfields.1
      have hcolon : weigh ":".toList = 1 := rfl
      rw [stringifyFields, String.toList_append, String.toList_append, weigh_append, weigh_append,
        weightFields, weightFields]
      omega
  | (k, v) :: f :: fields =>
      have hfirst := weigh_stringify v hfields.1
      have hothers := weigh_stringifyFields (f :: fields) hfields.2
      have hcolon : weigh ":".toList = 1 := rfl
      have hcomma : weigh ",".toList = 1 := rfl
      have hsome : 1 ≤ weightFields (f :: fields) := by
        obtain ⟨k', v'⟩ := f
        rw [weightFields]
        omega
      rw [stringifyFields_step, String.toList_append, String.toList_append, String.toList_append,
        String.toList_append, weigh_append, weigh_append, weigh_append, weigh_append, weightFields]
      omega

end

end

end

end Json
