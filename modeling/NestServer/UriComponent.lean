import Mathlib.Data.List.Basic

/-! # URI components

    `encodeURIComponent` and `decodeURIComponent` on texts of Unicode characters.  A
    character that is not unreserved stands as its UTF-8 octets, each as a percent
    sign and two digits.

    * `decode_encode` is the round trip;
    * `decode_plain` says that a text without a percent sign is its own decoding;
    * `mem_encode` says which characters an encoded text is made of. -/

namespace UriComponent

/-! ## Characters and octets -/

def isAlphanumeric (c : Char) : Bool :=
  let n := c.toNat
  (48 ≤ n && n ≤ 57) || (65 ≤ n && n ≤ 90) || (97 ≤ n && n ≤ 122)

/-- The characters that stand for themselves. -/
def isUnreserved (c : Char) : Bool := isAlphanumeric c || "-_.!~*'()".toList.contains c

/-- The digit of `n < 16`. -/
def hexDigit (n : Nat) : Char := if n < 10 then Char.ofNat (48 + n) else Char.ofNat (55 + n)

def hexValue (c : Char) : Option Nat :=
  let n := c.toNat
  if 48 ≤ n ∧ n ≤ 57 then some (n - 48)
  else if 65 ≤ n ∧ n ≤ 70 then some (n - 55)
  else if 97 ≤ n ∧ n ≤ 102 then some (n - 87)
  else none

/-- The UTF-8 octets of a code point. -/
def octets (n : Nat) : List Nat :=
  if n < 0x80 then [n]
  else if n < 0x800 then [0xC0 + n / 0x40, 0x80 + n % 0x40]
  else if n < 0x10000 then [0xE0 + n / 0x1000, 0x80 + n / 0x40 % 0x40, 0x80 + n % 0x40]
  else [0xF0 + n / 0x40000, 0x80 + n / 0x1000 % 0x40, 0x80 + n / 0x40 % 0x40, 0x80 + n % 0x40]

def percent (octet : Nat) : List Char := ['%', hexDigit (octet / 16), hexDigit (octet % 16)]

/-! ## Encoding -/

def encodeChar (c : Char) : List Char :=
  if isUnreserved c then [c] else (octets c.toNat).flatMap percent

/-- `encodeURIComponent(text)` -/
def encode (text : List Char) : List Char := text.flatMap encodeChar

/-! ## Decoding -/

/-- What a text is made of: characters that stand for themselves, and octets. -/
inductive Item where
  | char (c : Char)
  | octet (n : Nat)
deriving DecidableEq

def items : List Char → Option (List Item)
  | []        => some []
  | c :: rest =>
      if c = '%' then
        match rest with
        | a :: b :: rest =>
            (hexValue a).bind fun high => (hexValue b).bind fun low =>
              (items rest).map (.octet (16 * high + low) :: ·)
        | _ => none
      else (items rest).map (.char c :: ·)

/-- A sequence of octets that has begun: how many are missing, what the ones before are worth, and
    how much a sequence of its length is worth at least. -/
structure Pending where
  missing : Nat
  value   : Nat
  least   : Nat

/-- The first octet of a sequence that is not ASCII. -/
def Pending.first (octet : Nat) : Option Pending :=
  if 0xC0 ≤ octet ∧ octet < 0xE0 then some ⟨0, octet - 0xC0, 0x80⟩
  else if 0xE0 ≤ octet ∧ octet < 0xF0 then some ⟨1, octet - 0xE0, 0x800⟩
  else if 0xF0 ≤ octet ∧ octet < 0xF8 then some ⟨2, octet - 0xF0, 0x10000⟩
  else none

/-- The characters of the octets, read one by one. -/
def assemble : Option Pending → List Item → Option (List Char)
  | none, []               => some []
  | none, .char c :: rest  => (assemble none rest).map (c :: ·)
  | none, .octet n :: rest =>
      if n < 0x80 then (assemble none rest).map (Char.ofNat n :: ·)
      else (Pending.first n).bind fun p => assemble (some p) rest
  | some p, .octet n :: rest =>
      if 0x80 ≤ n ∧ n < 0xC0 then
        let value := p.value * 0x40 + (n - 0x80)
        match p.missing with
        | missing + 1 => assemble (some { p with missing, value }) rest
        | 0           =>
            if p.least ≤ value ∧ value.isValidChar then
              (assemble none rest).map (Char.ofNat value :: ·)
            else none
      else none
  | some _, _ => none

/-- `decodeURIComponent(text)`; `none` is an error. -/
def decode (text : List Char) : Option (List Char) := (items text).bind (assemble none)

/-! ## What an encoded text is made of -/

theorem hexDigit_unreserved {n : Nat} (h : n < 16) : isUnreserved (hexDigit n) = true := by
  revert n
  decide

theorem octets_lt {n o : Nat} (hn : n < 0x110000) (h : o ∈ octets n) : o < 256 := by
  rw [octets] at h
  split at h
  · rw [List.mem_singleton] at h
    omega
  · split at h
    · simp only [List.mem_cons, List.not_mem_nil, or_false] at h
      omega
    · split at h
      · simp only [List.mem_cons, List.not_mem_nil, or_false] at h
        omega
      · simp only [List.mem_cons, List.not_mem_nil, or_false] at h
        omega

theorem toNat_lt (c : Char) : c.toNat < 0x110000 := by
  rcases c.valid with h | ⟨-, h⟩
  · exact Nat.lt_trans h (by decide)
  · exact h

/-- **The characters of an encoded text** are unreserved, or percent signs. -/
theorem mem_encode {text : List Char} {c : Char} (h : c ∈ encode text) :
    isUnreserved c = true ∨ c = '%' := by
  obtain ⟨d, -, hc⟩ := List.mem_flatMap.mp h
  rw [encodeChar] at hc
  by_cases hd : isUnreserved d = true
  · rw [if_pos hd, List.mem_singleton] at hc
    exact .inl (hc ▸ hd)
  · rw [if_neg hd] at hc
    obtain ⟨o, ho, hc⟩ := List.mem_flatMap.mp hc
    have hlt := octets_lt (toNat_lt d) ho
    simp only [percent, List.mem_cons, List.not_mem_nil, or_false] at hc
    rcases hc with rfl | rfl | rfl
    · exact .inr rfl
    · exact .inl (hexDigit_unreserved (by omega))
    · exact .inl (hexDigit_unreserved (by omega))

theorem exists_octet (n : Nat) : ∃ o, o ∈ octets n := by
  rw [octets]
  split
  · exact ⟨_, List.mem_cons_self⟩
  · split
    · exact ⟨_, List.mem_cons_self⟩
    · split
      · exact ⟨_, List.mem_cons_self⟩
      · exact ⟨_, List.mem_cons_self⟩

/-- What is not unreserved leaves a percent sign. -/
theorem percent_mem_encode {text : List Char} {c : Char} (hc : c ∈ text)
    (h : isUnreserved c = false) : '%' ∈ encode text := by
  obtain ⟨o, ho⟩ := exists_octet c.toNat
  refine List.mem_flatMap.mpr ⟨c, hc, ?_⟩
  rw [encodeChar, if_neg (Bool.eq_false_iff.mp h)]
  exact List.mem_flatMap.mpr ⟨o, ho, List.mem_cons_self⟩

/-! ## Decoding what was encoded -/

theorem hexValue_hexDigit {n : Nat} (h : n < 16) : hexValue (hexDigit n) = some n := by
  revert n
  decide

theorem items_char {c : Char} (hc : c ≠ '%') (rest : List Char) :
    items (c :: rest) = (items rest).map (.char c :: ·) := by
  rw [items.eq_def]
  exact if_neg hc

theorem items_percent {o : Nat} (ho : o < 256) (rest : List Char) :
    items (percent o ++ rest) = (items rest).map (.octet o :: ·) := by
  show items ('%' :: hexDigit (o / 16) :: hexDigit (o % 16) :: rest) = _
  rw [items, if_pos rfl]
  simp only [hexValue_hexDigit (show o / 16 < 16 by omega),
    hexValue_hexDigit (Nat.mod_lt o (by decide : 16 > 0)), Option.bind_some]
  rw [Nat.div_add_mod]

theorem items_octets {os : List Nat} (hos : ∀ o ∈ os, o < 256) (rest : List Char) :
    items (os.flatMap percent ++ rest) = (items rest).map (os.map .octet ++ ·) := by
  induction os with
  | nil => simp
  | cons o os ih =>
      rw [List.flatMap_cons, List.append_assoc, items_percent (hos o List.mem_cons_self),
        ih fun o ho => hos o (List.mem_cons_of_mem _ ho), Option.map_map]
      rfl

/-- The octets of a character are read as that character. -/
theorem assemble_octets (c : Char) (rest : List Item) :
    assemble none ((octets c.toNat).map .octet ++ rest) = (assemble none rest).map (c :: ·) := by
  have hlt := toNat_lt c
  have hvalid : c.toNat.isValidChar := c.valid
  have hself : Char.ofNat c.toNat = c := Char.ofNat_toNat c
  generalize c.toNat = n at *
  rw [octets]
  split
  · rename_i h
    simp [assemble, h, hself]
  · split
    · have hfirst : Pending.first (0xC0 + n / 0x40) = some ⟨0, n / 0x40, 0x80⟩ := by
        rw [Pending.first, if_pos (by omega), Nat.add_sub_cancel_left]
      have hvalue : n / 0x40 * 0x40 + n % 0x40 = n := by omega
      simp only [List.map_cons, List.map_nil, List.cons_append, List.nil_append]
      rw [assemble, if_neg (by omega), hfirst, Option.bind_some, assemble, if_pos (by omega)]
      simp only [Nat.add_sub_cancel_left, hvalue]
      rw [if_pos ⟨by omega, hvalid⟩, hself]
    · split
      · have hfirst : Pending.first (0xE0 + n / 0x1000) = some ⟨1, n / 0x1000, 0x800⟩ := by
          rw [Pending.first, if_neg (by omega), if_pos (by omega), Nat.add_sub_cancel_left]
        have hvalue : (n / 0x1000 * 0x40 + n / 0x40 % 0x40) * 0x40 + n % 0x40 = n := by omega
        simp only [List.map_cons, List.map_nil, List.cons_append, List.nil_append]
        rw [assemble, if_neg (by omega), hfirst, Option.bind_some, assemble, if_pos (by omega)]
        simp only [Nat.add_sub_cancel_left]
        rw [assemble, if_pos (by omega)]
        simp only [Nat.add_sub_cancel_left, hvalue]
        rw [if_pos ⟨by omega, hvalid⟩, hself]
      · have hfirst : Pending.first (0xF0 + n / 0x40000) = some ⟨2, n / 0x40000, 0x10000⟩ := by
          rw [Pending.first, if_neg (by omega), if_neg (by omega), if_pos (by omega),
            Nat.add_sub_cancel_left]
        have hvalue : ((n / 0x40000 * 0x40 + n / 0x1000 % 0x40) * 0x40 + n / 0x40 % 0x40) * 0x40
            + n % 0x40 = n := by omega
        simp only [List.map_cons, List.map_nil, List.cons_append, List.nil_append]
        rw [assemble, if_neg (by omega), hfirst, Option.bind_some, assemble, if_pos (by omega)]
        simp only [Nat.add_sub_cancel_left]
        rw [assemble, if_pos (by omega)]
        simp only [Nat.add_sub_cancel_left]
        rw [assemble, if_pos (by omega)]
        simp only [Nat.add_sub_cancel_left, hvalue]
        rw [if_pos ⟨by omega, hvalid⟩, hself]

/-- What a character becomes. -/
def itemsOf (c : Char) : List Item :=
  if isUnreserved c then [.char c] else (octets c.toNat).map .octet

theorem items_encodeChar (c : Char) (rest : List Char) :
    items (encodeChar c ++ rest) = (items rest).map (itemsOf c ++ ·) := by
  rw [encodeChar, itemsOf]
  by_cases hc : isUnreserved c = true
  · rw [if_pos hc, if_pos hc]
    refine items_char ?_ rest
    rintro rfl
    cases hc
  · rw [if_neg hc, if_neg hc]
    exact items_octets (fun o => octets_lt (toNat_lt c)) rest

theorem assemble_itemsOf (c : Char) (rest : List Item) :
    assemble none (itemsOf c ++ rest) = (assemble none rest).map (c :: ·) := by
  rw [itemsOf]
  by_cases hc : isUnreserved c = true
  · rw [if_pos hc]
    rfl
  · rw [if_neg hc]
    exact assemble_octets c rest

/-- **The round trip.** -/
theorem decode_encode (text : List Char) : decode (encode text) = some text := by
  have hitems : items (encode text) = some (text.flatMap itemsOf) := by
    induction text with
    | nil => rfl
    | cons c text ih =>
        show items (encodeChar c ++ encode text) = _
        rw [items_encodeChar, ih, Option.map_some, List.flatMap_cons]
  rw [decode, hitems, Option.bind_some]
  clear hitems
  induction text with
  | nil => rfl
  | cons c text ih => rw [List.flatMap_cons, assemble_itemsOf, ih, Option.map_some]

example : decode "%E2%82%AC%".toList = none ∧ decode "%E2%82%AC".toList = some ['€'] := by
  decide +kernel

/-- A text without a percent sign stands for itself. -/
theorem decode_plain {text : List Char} (h : '%' ∉ text) : decode text = some text := by
  induction text with
  | nil => rfl
  | cons c text ih =>
      obtain ⟨hc, htext⟩ := not_or.mp (fun hmem => h (List.mem_cons.mpr hmem))
      have ih := ih htext
      rw [decode] at ih ⊢
      rw [items_char (Ne.symm hc)]
      obtain ⟨is, his, hchars⟩ := Option.bind_eq_some_iff.mp ih
      rw [his, Option.map_some, Option.bind_some, assemble, hchars, Option.map_some]

end UriComponent
