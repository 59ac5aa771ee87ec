import Mathlib.Data.Bool.AllAny
import NestServer.UriComponent

/-! # Header values with parameters

    The grammar of a header value such as `type; name=value; name="value"`: tokens,
    quoted strings and parameters (RFC 6266), and of the extended values that carry a
    text in another character set (RFC 8187).  A text is read as the grammar says, and
    `Reads.unique` is that there is one way at most to read it. -/

namespace HeaderGrammar

open UriComponent

/-! ## Characters -/

/-- What a token is made of. -/
def isTokenChar (c : Char) : Bool := isAlphanumeric c || "!#$%&'*+-.^_`|~".toList.contains c

def isBlank (c : Char) : Bool := c = ' ' || c = '\t'

/-- What stands for itself between quotes. -/
def isQuotedChar (c : Char) : Bool :=
  c = '\t' || (decide (0x20 ≤ c.toNat) && c ≠ '"' && c ≠ '\\' && decide (c.toNat ≠ 0x7F)
    && decide (c.toNat ≤ 0xFF))

/-- What may stand behind a backslash. -/
def isPairedChar (c : Char) : Bool := isQuotedChar c || c = '"' || c = '\\'

/-- What stands for itself in an extended value. -/
def isAttrChar (c : Char) : Bool := isAlphanumeric c || "!#$&+-.^_`|~".toList.contains c

/-- What the name of a character set is made of. -/
def isCharsetChar (c : Char) : Bool :=
  isAlphanumeric c || "!#$%&+-^_`\x7b\x7d~".toList.contains c

theorem printable_of_isTokenChar {c : Char} (h : isTokenChar c = true) :
    0x20 ≤ c.toNat ∧ c.toNat ≤ 0x7E := by
  rw [isTokenChar, Bool.or_eq_true, List.contains_iff_mem] at h
  rcases h with h | h
  · simp only [isAlphanumeric, Bool.or_eq_true, Bool.and_eq_true, decide_eq_true_eq] at h
    omega
  · have hall : ∀ c ∈ "!#$%&'*+-.^_`|~".toList, 0x20 ≤ c.toNat ∧ c.toNat ≤ 0x7E :=
      List.all_iff_forall_prop.mp (by decide)
    exact hall c h

/-! ## Values -/

def IsToken (text : List Char) : Prop := text ≠ [] ∧ ∀ c ∈ text, isTokenChar c = true

/-- A quoted string, from behind the quote that opens it: its text, and what is behind it. -/
inductive Quoted : List Char → List Char → List Char → Prop where
  | close (rest : List Char) : Quoted ('"' :: rest) [] rest
  | char {c : Char} {source text rest : List Char} (hc : isQuotedChar c = true)
      (h : Quoted source text rest) : Quoted (c :: source) (c :: text) rest
  | pair {c : Char} {source text rest : List Char} (hc : isPairedChar c = true)
      (h : Quoted source text rest) : Quoted ('\\' :: c :: source) (c :: text) rest

/-- The value of a parameter. -/
inductive Value : List Char → List Char → List Char → Prop where
  | token {text rest : List Char} (htext : IsToken text) : Value (text ++ rest) text rest
  | quoted {source text rest : List Char} (h : Quoted source text rest) :
      Value ('"' :: source) text rest

/-- Parameters, each behind a semicolon. -/
inductive Parameters : List Char → List (List Char × List Char) → Prop where
  | nil : Parameters [] []
  | cons {before after name source value rest : List Char}
      {parameters : List (List Char × List Char)}
      (hbefore : ∀ c ∈ before, isBlank c = true) (hafter : ∀ c ∈ after, isBlank c = true)
      (hname : IsToken name) (hvalue : Value source value rest) (h : Parameters rest parameters) :
      Parameters (before ++ ';' :: (after ++ (name ++ '=' :: source))) ((name, value) :: parameters)

/-- A header value: its type, and its parameters. -/
inductive Reads : List Char → List Char → List (List Char × List Char) → Prop where
  | mk {type rest : List Char} {parameters : List (List Char × List Char)} (htype : IsToken type)
      (h : Parameters rest parameters) : Reads (type ++ rest) type parameters

/-! ## One reading at most -/

/-- A text splits in one way into characters of a kind and what does not begin with one. -/
theorem split_unique {p : Char → Bool} {a b rest rest' : List Char} (ha : ∀ c ∈ a, p c = true)
    (hb : ∀ c ∈ b, p c = true) (hrest : ∀ c, rest.head? = some c → p c = false)
    (hrest' : ∀ c, rest'.head? = some c → p c = false) (h : a ++ rest = b ++ rest') :
    a = b ∧ rest = rest' := by
  have htake : ∀ {a rest : List Char}, (∀ c ∈ a, p c = true) →
      (∀ c, rest.head? = some c → p c = false) → (a ++ rest).takeWhile p = a := by
    intro a rest ha hrest
    rw [List.takeWhile_append_of_pos ha]
    cases rest with
    | nil         => exact List.append_nil a
    | cons c rest =>
        rw [List.takeWhile_cons_of_neg (Bool.eq_false_iff.mp (hrest c rfl)), List.append_nil]
  have hab : a = b := by rw [← htake ha hrest, h, htake hb hrest']
  subst hab
  exact ⟨rfl, List.append_cancel_left h⟩

theorem Quoted.unique {source text text' rest rest' : List Char} (h : Quoted source text rest)
    (h' : Quoted source text' rest') : text = text' ∧ rest = rest' := by
  induction h generalizing text' with
  | close rest =>
      cases h' with
      | close     => exact ⟨rfl, rfl⟩
      | char hc _ => cases hc
  | char hc _ ih =>
      cases h' with
      | close     => cases hc
      | char _ h' =>
          obtain ⟨rfl, rfl⟩ := ih h'
          exact ⟨rfl, rfl⟩
      | pair _ _  => cases hc
  | pair _ _ ih =>
      cases h' with
      | char hc _ => cases hc
      | pair _ h' =>
          obtain ⟨rfl, rfl⟩ := ih h'
          exact ⟨rfl, rfl⟩

/-- What comes behind a value is no character of a token. -/
theorem Parameters.head {rest : List Char} {parameters : List (List Char × List Char)}
    (h : Parameters rest parameters) (c : Char) (hc : rest.head? = some c) :
    isTokenChar c = false := by
  cases h with
  | nil => cases hc
  | @cons before _ _ _ _ _ _ hbefore =>
      cases before with
      | nil               =>
          cases hc
          rfl
      | cons blank before =>
          cases hc
          have hblank := hbefore c List.mem_cons_self
          rw [isBlank, Bool.or_eq_true, decide_eq_true_eq, decide_eq_true_eq] at hblank
          rcases hblank with rfl | rfl
          · rfl
          · rfl

theorem Value.unique {source text text' rest rest' : List Char} (h : Value source text rest)
    (h' : Value source text' rest') (hrest : ∀ c, rest.head? = some c → isTokenChar c = false)
    (hrest' : ∀ c, rest'.head? = some c → isTokenChar c = false) :
    text = text' ∧ rest = rest' := by
  -- a token does not begin with a quote
  have hquote : ∀ {text rest source : List Char}, IsToken text →
      text ++ rest = '"' :: source → False := by
    intro text rest source htext heq
    obtain ⟨c, text, rfl⟩ := List.exists_cons_of_ne_nil htext.1
    have hc := htext.2 c List.mem_cons_self
    rw [(List.cons.inj heq).1] at hc
    cases hc
  cases h with
  | token htext =>
      generalize hsource : text ++ rest = source at h'
      cases h' with
      | token htext' => exact split_unique htext.2 htext'.2 hrest hrest' hsource
      | quoted _     => exact (hquote htext hsource).elim
  | quoted h =>
      generalize hsource : _ :: _ = source at h'
      cases h' with
      | token htext' => exact (hquote htext' hsource.symm).elim
      | quoted h'    => exact h.unique ((List.cons.inj hsource).2 ▸ h')

theorem Parameters.unique {source : List Char} {parameters : List (List Char × List Char)}
    (h : Parameters source parameters) {parameters' : List (List Char × List Char)}
    (h' : Parameters source parameters') : parameters = parameters' := by
  induction h generalizing parameters' with
  | nil =>
      generalize hsource : [] = source at h'
      cases h' with
      | nil  => rfl
      | cons =>
          exact absurd hsource.symm (List.append_ne_nil_of_right_ne_nil _ (List.cons_ne_nil _ _))
  | @cons before after name value _ rest parameters hbefore hafter hname hvalue h ih =>
      generalize hsource : before ++ _ :: _ = source at h'
      cases h' with
      | nil  => exact absurd hsource (List.append_ne_nil_of_right_ne_nil _ (List.cons_ne_nil _ _))
      | @cons before' after' name' value' _ rest' parameters' hbefore' hafter' hname' hvalue' h' =>
          have hnotBlank : ∀ {name rest : List Char}, IsToken name → ∀ c,
              (name ++ rest).head? = some c → isBlank c = false := by
            intro name rest hname c hc
            obtain ⟨d, name, rfl⟩ := List.exists_cons_of_ne_nil hname.1
            cases hc
            have hd := hname.2 c List.mem_cons_self
            refine Bool.eq_false_iff.mpr fun hblank => ?_
            rw [isBlank, Bool.or_eq_true, decide_eq_true_eq, decide_eq_true_eq] at hblank
            rcases hblank with rfl | rfl
            · cases hd
            · cases hd
          have hsemicolon : ∀ (rest : List Char) c, (';' :: rest).head? = some c →
              isBlank c = false := by
            rintro rest _ ⟨⟩
            rfl
          have hequals : ∀ (rest : List Char) c, ('=' :: rest).head? = some c →
              isTokenChar c = false := by
            rintro rest _ ⟨⟩
            rfl
          obtain ⟨-, hbehind⟩ :=
            split_unique hbefore hbefore' (hsemicolon _) (hsemicolon _) hsource
          obtain ⟨-, hnamed⟩ := split_unique hafter hafter' (hnotBlank hname) (hnotBlank hname')
            (List.cons.inj hbehind).2
          obtain ⟨rfl, hvalued⟩ :=
            split_unique hname.2 hname'.2 (hequals _) (hequals _) hnamed
          obtain rfl := (List.cons.inj hvalued).2
          obtain ⟨rfl, rfl⟩ := hvalue.unique hvalue' h.head h'.head
          rw [ih h']

/-- **There is one way at most to read a header value.** -/
theorem Reads.unique {source type type' : List Char}
    {parameters parameters' : List (List Char × List Char)} (h : Reads source type parameters)
    (h' : Reads source type' parameters') : type = type' ∧ parameters = parameters' := by
  cases h with
  | mk htype h =>
      generalize hsource : type ++ _ = source at h'
      cases h' with
      | mk htype' h' =>
          obtain ⟨rfl, rfl⟩ := split_unique htype.2 htype'.2 h.head h'.head hsource
          exact ⟨rfl, h.unique h'⟩

/-- Characters that stand for themselves, between quotes. -/
theorem quoted_of_chars {text : List Char} (h : ∀ c ∈ text, isQuotedChar c = true)
    (rest : List Char) : Quoted (text ++ '"' :: rest) text rest := by
  induction text with
  | nil            => exact .close rest
  | cons c text ih =>
      exact .char (h c List.mem_cons_self) (ih fun d hd => h d (List.mem_cons_of_mem _ hd))

/-! ## Extended values -/

/-- Characters that stand for themselves, and octets. -/
inductive ValueChars : List Char → Prop where
  | nil : ValueChars []
  | char {c : Char} {rest : List Char} (hc : isAttrChar c = true) (h : ValueChars rest) :
      ValueChars (c :: rest)
  | octet {a b : Char} {rest : List Char} (ha : (hexValue a).isSome) (hb : (hexValue b).isSome)
      (h : ValueChars rest) : ValueChars ('%' :: a :: b :: rest)

/-- An extended value: its character set, its language, and its text as it is written. -/
inductive Extended : List Char → List Char → List Char → List Char → Prop where
  | mk {charset language value : List Char}
      (hcharset : charset ≠ [] ∧ ∀ c ∈ charset, isCharsetChar c = true)
      (hlanguage : ∀ c ∈ language, (isAlphanumeric c || c = '-') = true)
      (hvalue : ValueChars value) :
      Extended (charset ++ '\'' :: (language ++ '\'' :: value)) charset language value

/-- There is one way at most to read an extended value, too. -/
theorem Extended.unique {source charset charset' language language' value value' : List Char}
    (h : Extended source charset language value) (h' : Extended source charset' language' value') :
    charset = charset' ∧ language = language' ∧ value = value' := by
  cases h with
  | mk hcharset hlanguage _ =>
      generalize hsource : charset ++ _ :: _ = source at h'
      cases h' with
      | mk hcharset' hlanguage' _ =>
          have hquote : ∀ (p : Char → Bool), p '\'' = false → ∀ (rest : List Char) c,
              ('\'' :: rest).head? = some c → p c = false := by
            rintro p hp rest _ ⟨⟩
            exact hp
          obtain ⟨rfl, hbehind⟩ := split_unique hcharset.2 hcharset'.2 (hquote _ rfl _)
            (hquote _ rfl _) hsource
          obtain ⟨rfl, hvalued⟩ := split_unique hlanguage hlanguage' (hquote _ rfl _)
            (hquote _ rfl _) (List.cons.inj hbehind).2
          exact ⟨rfl, rfl, (List.cons.inj hvalued).2⟩

theorem ValueChars.append {a b : List Char} (ha : ValueChars a) (hb : ValueChars b) :
    ValueChars (a ++ b) := by
  induction ha with
  | nil              => exact hb
  | char hc _ ih     => exact .char hc ih
  | octet hx hy _ ih => exact .octet hx hy ih

theorem valueChars_percent {n : Nat} (hn : n < 256) {rest : List Char} (h : ValueChars rest) :
    ValueChars (percent n ++ rest) := by
  refine .octet ?_ ?_ h
  · rw [hexValue_hexDigit (by omega)]
    rfl
  · rw [hexValue_hexDigit (by omega)]
    rfl

/-- An extended value may be the value of a parameter as it is. -/
theorem ValueChars.isTokenChar {value : List Char} (h : ValueChars value) :
    ∀ c ∈ value, isTokenChar c = true := by
  have hattr : ∀ c, isAttrChar c = true → HeaderGrammar.isTokenChar c = true := by
    intro c hc
    rw [isAttrChar, Bool.or_eq_true, List.contains_iff_mem] at hc
    rcases hc with hc | hc
    · rw [HeaderGrammar.isTokenChar, hc, Bool.true_or]
    · have hall : ∀ c ∈ "!#$&+-.^_`|~".toList, HeaderGrammar.isTokenChar c = true :=
        List.all_eq_true.mp (by decide)
      exact hall c hc
  have hhex : ∀ c, (hexValue c).isSome → HeaderGrammar.isTokenChar c = true := by
    intro c hc
    have halnum : isAlphanumeric c = true := by
      rw [hexValue] at hc
      simp only [isAlphanumeric, Bool.or_eq_true, Bool.and_eq_true, decide_eq_true_eq]
      grind
    rw [HeaderGrammar.isTokenChar, halnum, Bool.true_or]
  induction h with
  | nil               => exact fun c hc => by cases hc
  | char hc _ ih      => exact List.forall_mem_cons.mpr ⟨hattr _ hc, ih⟩
  | octet ha hb _ ih  =>
      exact List.forall_mem_cons.mpr ⟨rfl, List.forall_mem_cons.mpr ⟨hhex _ ha,
        List.forall_mem_cons.mpr ⟨hhex _ hb, ih⟩⟩⟩

/-! ## Texts as their octets -/

/-- A character stands as its octets unless it is kept. -/
def encodeCharUnless (keep : Char → Bool) (c : Char) : List Char :=
  if keep c then [c] else (octets c.toNat).flatMap percent

def encodeUnless (keep : Char → Bool) (text : List Char) : List Char :=
  text.flatMap (encodeCharUnless keep)

variable {keep : Char → Bool}

/-- What a character becomes. -/
def itemsUnless (keep : Char → Bool) (c : Char) : List Item :=
  if keep c then [.char c] else (octets c.toNat).map .octet

theorem items_encodeCharUnless (hkeep : keep '%' = false) (c : Char) (rest : List Char) :
    items (encodeCharUnless keep c ++ rest) = (items rest).map (itemsUnless keep c ++ ·) := by
  rw [encodeCharUnless, itemsUnless]
  by_cases hc : keep c = true
  · rw [if_pos hc, if_pos hc]
    refine items_char ?_ rest
    rintro rfl
    rw [hkeep] at hc
    cases hc
  · rw [if_neg hc, if_neg hc]
    exact items_octets (fun o => octets_lt (toNat_lt c)) rest

theorem assemble_itemsUnless (c : Char) (rest : List Item) :
    assemble none (itemsUnless keep c ++ rest) = (assemble none rest).map (c :: ·) := by
  rw [itemsUnless]
  by_cases hc : keep c = true
  · rw [if_pos hc]
    rfl
  · rw [if_neg hc]
    exact assemble_octets c rest

/-- **Nothing is lost**, whatever is kept, if the percent sign is not. -/
theorem decode_encodeUnless (hkeep : keep '%' = false) (text : List Char) :
    decode (encodeUnless keep text) = some text := by
  have hitems : items (encodeUnless keep text) = some (text.flatMap (itemsUnless keep)) := by
    induction text with
    | nil => rfl
    | cons c text ih =>
        show items (encodeCharUnless keep c ++ encodeUnless keep text) = _
        rw [items_encodeCharUnless hkeep, ih, Option.map_some, List.flatMap_cons]
  rw [decode, hitems, Option.bind_some]
  clear hitems
  induction text with
  | nil            => rfl
  | cons c text ih => rw [List.flatMap_cons, assemble_itemsUnless, ih, Option.map_some]

theorem valueChars_octets {os : List Nat} (hos : ∀ o ∈ os, o < 256) :
    ValueChars (os.flatMap percent) := by
  induction os with
  | nil          => exact .nil
  | cons o os ih =>
      exact valueChars_percent (hos o List.mem_cons_self)
        (ih fun o' h => hos o' (List.mem_cons_of_mem _ h))

theorem valueChars_encodeUnless (hkeep : ∀ c, keep c = true → isAttrChar c = true)
    (text : List Char) : ValueChars (encodeUnless keep text) := by
  induction text with
  | nil            => exact .nil
  | cons c text ih =>
      show ValueChars (encodeCharUnless keep c ++ encodeUnless keep text)
      refine ValueChars.append ?_ ih
      rw [encodeCharUnless]
      by_cases hc : keep c = true
      · rw [if_pos hc]
        exact .char (hkeep c hc) .nil
      · rw [if_neg hc]
        exact valueChars_octets fun o => octets_lt (toNat_lt c)

end HeaderGrammar
