import NestServer.HeaderGrammar
import NestServer.RoleEnum

/-! # The name that a file is saved under

    `content-disposition.helper.ts`.  A file goes out under a name that a client has
    chosen when it came in: whatever the name is, the header has one reading, in which the
    name is the one that was given, and nothing else is said. -/

namespace ContentDisposition

open UriComponent HeaderGrammar

/-! ## The header -/

/-- What `NON_QUOTABLE_ASCII` does not match, among UTF-16 units. -/
def isQuotable (unit : Nat) : Bool :=
  (decide (0x20 ≤ unit) && decide (unit ≤ 0x21)) || (decide (0x23 ≤ unit) && decide (unit ≤ 0x5B))
    || (decide (0x5D ≤ unit) && decide (unit ≤ 0x7E))

/-- `name.replace(NON_QUOTABLE_ASCII, '_')`; the expression goes over units, not over
    characters. -/
def quotable (name : List Char) : List Char :=
  (JsText.utf16 (String.ofList name)).map fun unit =>
    if isQuotable unit then Char.ofNat unit else '_'

/-- `NON_ATTR_CHAR` -/
def isNonAttrChar (c : Char) : Bool := "'()*".toList.contains c

def toExtValue (filename : List Char) : List Char :=
  (encode filename).flatMap fun char => if isNonAttrChar char then percent char.toNat else [char]

/-- `filename || 'download'` -/
def nameOf (filename : Option (List Char)) : List Char :=
  (filename.filter fun name => name ≠ []).getD "download".toList

def buildContentDisposition (filename : Option (List Char)) : List Char :=
  let name := nameOf filename
  "attachment; filename=\"".toList ++ quotable name ++ "\"; filename*=UTF-8''".toList
    ++ toExtValue name

/-! ## Names between quotes -/

theorem isQuotable_iff {unit : Nat} :
    isQuotable unit = true ↔ 0x20 ≤ unit ∧ unit ≤ 0x7E ∧ unit ≠ 0x22 ∧ unit ≠ 0x5C := by
  simp only [isQuotable, Bool.or_eq_true, Bool.and_eq_true, decide_eq_true_eq]
  omega

theorem toNat_ofNat_of_isQuotable {unit : Nat} (h : isQuotable unit = true) :
    (Char.ofNat unit).toNat = unit := by
  have hlt := isQuotable_iff.mp h
  have hvalid : unit.isValidChar := .inl (by omega)
  rw [Char.ofNat, dif_pos hvalid]
  rfl

/-- Every character of it is quotable. -/
theorem isQuotable_of_mem {name : List Char} {c : Char} (h : c ∈ quotable name) :
    isQuotable c.toNat = true := by
  obtain ⟨unit, -, rfl⟩ := List.mem_map.mp h
  by_cases hunit : isQuotable unit = true
  · rw [if_pos hunit, toNat_ofNat_of_isQuotable hunit, hunit]
  · rw [if_neg hunit]
    rfl

theorem isQuotedChar_of_isQuotable {c : Char} (h : isQuotable c.toNat = true) :
    isQuotedChar c = true := by
  obtain ⟨hleast, hmost, hquote, hbackslash⟩ := isQuotable_iff.mp h
  have hne : c ≠ '"' ∧ c ≠ '\\' := by
    constructor
    · rintro rfl
      exact hquote rfl
    · rintro rfl
      exact hbackslash rfl
  simp [isQuotedChar, hne.1, hne.2, hleast, show c.toNat ≠ 0x7F by omega,
    show c.toNat ≤ 0xFF by omega]

/-- **What is kept**: a name that is quotable as a whole. -/
theorem quotable_eq_iff {name : List Char} :
    quotable name = name ↔ ∀ c ∈ name, isQuotable c.toNat = true := by
  constructor
  · intro h c hc
    exact isQuotable_of_mem (h ▸ hc)
  · intro h
    rw [quotable, JsText.utf16, String.toList_ofList]
    induction name with
    | nil            => rfl
    | cons c name ih =>
        have hc := h c List.mem_cons_self
        have hlt := isQuotable_iff.mp hc
        rw [List.flatMap_cons, if_pos (by omega), List.singleton_append, List.map_cons,
          ih fun d hd => h d (List.mem_cons_of_mem _ hd), if_pos hc, Char.ofNat_toNat]

/-! ## Names as octets -/

/-- What stands for itself in the extended value. -/
def isKept (c : Char) : Bool := isUnreserved c && !isNonAttrChar c

theorem flatMap_escape {text : List Char} (h : ∀ c ∈ text, isNonAttrChar c = false) :
    (text.flatMap fun c => if isNonAttrChar c then percent c.toNat else [c]) = text := by
  induction text with
  | nil            => rfl
  | cons c text ih =>
      rw [List.flatMap_cons, if_neg (Bool.eq_false_iff.mp (h c List.mem_cons_self)),
        ih fun d hd => h d (List.mem_cons_of_mem _ hd), List.singleton_append]

theorem isNonAttrChar_hexDigit {n : Nat} (h : n < 16) : isNonAttrChar (hexDigit n) = false := by
  revert n
  decide

/-- The four characters are escaped as all others that are escaped. -/
theorem toExtValue_eq (name : List Char) : toExtValue name = encodeUnless isKept name := by
  rw [toExtValue, encode, List.flatMap_assoc, encodeUnless]
  refine congrArg (fun f => name.flatMap f) (funext fun c => ?_)
  rw [encodeChar, encodeCharUnless, isKept]
  by_cases hc : isUnreserved c = true
  · rw [if_pos hc, hc, Bool.true_and, List.flatMap_singleton]
    cases hnon : isNonAttrChar c with
    | true  =>
        rw [isNonAttrChar, List.contains_iff_mem] at hnon
        simp only [if_true, Bool.not_true, Bool.false_eq_true, if_false]
        have hall : ∀ c ∈ "'()*".toList, percent c.toNat = (octets c.toNat).flatMap percent :=
          List.all_iff_forall_prop.mp (by decide)
        exact hall c hnon
    | false => rfl
  · rw [if_neg hc, if_neg fun h => hc (Bool.and_eq_true_iff.mp h).1]
    refine flatMap_escape fun d hd => ?_
    obtain ⟨o, ho, hd⟩ := List.mem_flatMap.mp hd
    have hlt := octets_lt (toNat_lt c) ho
    simp only [percent, List.mem_cons, List.not_mem_nil, or_false] at hd
    rcases hd with rfl | rfl | rfl
    · rfl
    · exact isNonAttrChar_hexDigit (by omega)
    · exact isNonAttrChar_hexDigit (by omega)

theorem isAttrChar_of_isKept {c : Char} (h : isKept c = true) : isAttrChar c = true := by
  rw [isKept, isUnreserved, Bool.and_eq_true, Bool.or_eq_true, Bool.not_eq_true',
    List.contains_iff_mem] at h
  obtain ⟨hc | hc, hnon⟩ := h
  · rw [isAttrChar, hc, Bool.true_or]
  · have hall : ∀ c ∈ "-_.!~*'()".toList, isNonAttrChar c = false → isAttrChar c = true :=
      List.all_iff_forall_prop.mp (by decide)
    exact hall c hc hnon

theorem valueChars_toExtValue (name : List Char) : ValueChars (toExtValue name) :=
  toExtValue_eq name ▸ valueChars_encodeUnless (fun _ => isAttrChar_of_isKept) name

theorem decode_toExtValue (name : List Char) : decode (toExtValue name) = some name :=
  toExtValue_eq name ▸ decode_encodeUnless rfl name

/-! ## Reading the header -/

/-- What the header tells: the name for clients that know extended values, and the one for
    all others. -/
def Tells (header name plain : List Char) : Prop :=
  ∃ extended value,
    (∀ type parameters, Reads header type parameters ↔ type = "attachment".toList ∧ parameters =
      [("filename".toList, plain), ("filename*".toList, extended)]) ∧
    (∀ charset language text, Extended extended charset language text ↔
      charset = "UTF-8".toList ∧ language = [] ∧ text = value) ∧
    decode value = some name

theorem Tells.unique {header name name' plain plain' : List Char} (h : Tells header name plain)
    (h' : Tells header name' plain') : name = name' ∧ plain = plain' := by
  obtain ⟨extended, value, hreads, hextended, hdecode⟩ := h
  obtain ⟨extended', value', hreads', hextended', hdecode'⟩ := h'
  obtain ⟨-, hparameters⟩ := (hreads' _ _).mp ((hreads _ _).mpr ⟨rfl, rfl⟩)
  injection hparameters with hplain hrest
  injection hrest with hext _
  obtain rfl := (Prod.mk.inj hext).2
  obtain ⟨-, -, rfl⟩ := (hextended' _ _ _).mp ((hextended _ _ _).mpr ⟨rfl, rfl, rfl⟩)
  rw [hdecode] at hdecode'
  exact ⟨Option.some.inj hdecode', (Prod.mk.inj hplain).2⟩

theorem isToken_extended (name : List Char) :
    IsToken ("UTF-8''".toList ++ toExtValue name) := by
  refine ⟨List.append_ne_nil_of_left_ne_nil (List.cons_ne_nil _ _) _, fun c hc => ?_⟩
  rcases List.mem_append.mp hc with hc | hc
  · have hall : ∀ c ∈ "UTF-8''".toList, isTokenChar c = true := List.all_eq_true.mp (by decide)
    exact hall c hc
  · exact (valueChars_toExtValue name).isTokenChar c hc

theorem buildContentDisposition_def (filename : Option (List Char)) :
    buildContentDisposition filename = "attachment; filename=\"".toList
      ++ quotable (nameOf filename) ++ "\"; filename*=UTF-8''".toList
      ++ toExtValue (nameOf filename) := rfl

/-- The pieces of the header. -/
theorem buildContentDisposition_eq (filename : Option (List Char)) :
    buildContentDisposition filename = "attachment".toList ++ ([] ++ ';' :: ([' '] ++
      ("filename".toList ++ '=' :: ('"' :: (quotable (nameOf filename) ++ '"' :: ([] ++ ';' ::
        ([' '] ++ ("filename*".toList ++ '=' ::
          ("UTF-8''".toList ++ toExtValue (nameOf filename)))))))))) := by
  have hfirst : "attachment; filename=\"".toList
      = "attachment".toList ++ ';' :: ' ' :: ("filename".toList ++ ['=', '"']) := by decide +kernel
  have hsecond : "\"; filename*=UTF-8''".toList
      = '"' :: ';' :: ' ' :: ("filename*".toList ++ '=' :: "UTF-8''".toList) := by decide +kernel
  simp only [buildContentDisposition_def, hfirst, hsecond, List.append_assoc, List.cons_append,
    List.nil_append]

theorem reads_buildContentDisposition (filename : Option (List Char)) :
    Reads (buildContentDisposition filename) "attachment".toList
      [("filename".toList, quotable (nameOf filename)),
        ("filename*".toList, "UTF-8''".toList ++ toExtValue (nameOf filename))] := by
  have hblank : ∀ c ∈ [' '], isBlank c = true := List.all_eq_true.mp (by decide)
  have hnone : ∀ c ∈ ([] : List Char), isBlank c = true := List.all_eq_true.mp (by decide)
  have htype : IsToken "attachment".toList := ⟨by decide, List.all_eq_true.mp (by decide)⟩
  have hname : IsToken "filename".toList := ⟨by decide, List.all_eq_true.mp (by decide)⟩
  have hstar : IsToken "filename*".toList := ⟨by decide, List.all_eq_true.mp (by decide)⟩
  have hquoted : ∀ rest, Value ('"' :: (quotable (nameOf filename) ++ '"' :: rest))
      (quotable (nameOf filename)) rest := fun rest => .quoted (quoted_of_chars
    (fun c hc => isQuotedChar_of_isQuotable (isQuotable_of_mem hc)) rest)
  have hstarred := Parameters.cons hnone hblank hstar
    (.token (isToken_extended (nameOf filename))) .nil
  rw [List.append_nil] at hstarred
  rw [buildContentDisposition_eq]
  exact .mk htype (.cons hnone hblank hname (hquoted _) hstarred)

theorem extended_buildContentDisposition (name : List Char) :
    Extended ("UTF-8''".toList ++ toExtValue name) "UTF-8".toList [] (toExtValue name) :=
  @Extended.mk "UTF-8".toList [] _ ⟨by decide, List.all_eq_true.mp (by decide)⟩
    (fun _ hc => by cases hc)
    (valueChars_toExtValue name)

/-- Every character of the header is printable ASCII. -/
theorem printable_buildContentDisposition (filename : Option (List Char)) :
    ∀ c ∈ buildContentDisposition filename, 0x20 ≤ c.toNat ∧ c.toNat ≤ 0x7E := by
  intro c hc
  rw [buildContentDisposition_def, List.mem_append, List.mem_append, List.mem_append] at hc
  rcases hc with ((hc | hc) | hc) | hc
  · have hall : ∀ c ∈ "attachment; filename=\"".toList, 0x20 ≤ c.toNat ∧ c.toNat ≤ 0x7E :=
      List.all_iff_forall_prop.mp (by decide +kernel)
    exact hall c hc
  · have hquotable := isQuotable_iff.mp (isQuotable_of_mem hc)
    exact ⟨hquotable.1, hquotable.2.1⟩
  · have hall : ∀ c ∈ "\"; filename*=UTF-8''".toList, 0x20 ≤ c.toNat ∧ c.toNat ≤ 0x7E :=
      List.all_iff_forall_prop.mp (by decide +kernel)
    exact hall c hc
  · exact printable_of_isTokenChar ((valueChars_toExtValue _).isTokenChar c hc)

/-- **What the name of a file can do.**  Whatever the name is, the header can be sent, has
    one reading, and tells the name unchanged; a client that does not know extended values
    is told it with an underscore for every unit that could not stand between the quotes. -/
theorem content_disposition_tells (filename : Option (List Char)) :
    (∀ c ∈ buildContentDisposition filename, 0x20 ≤ c.toNat ∧ c.toNat ≤ 0x7E) ∧
      (∀ name plain, Tells (buildContentDisposition filename) name plain ↔
        name = nameOf filename ∧ plain = quotable (nameOf filename)) ∧
      (quotable (nameOf filename) = nameOf filename ↔
        ∀ c ∈ nameOf filename, isQuotable c.toNat = true) ∧
      ∀ other, buildContentDisposition other = buildContentDisposition filename ↔
        nameOf other = nameOf filename := by
  have htells : ∀ filename, Tells (buildContentDisposition filename) (nameOf filename)
      (quotable (nameOf filename)) := by
    intro filename
    have hreads := reads_buildContentDisposition filename
    have hextended := extended_buildContentDisposition (nameOf filename)
    refine ⟨"UTF-8''".toList ++ toExtValue (nameOf filename), toExtValue (nameOf filename),
      fun type parameters => ⟨fun h => ?_, ?_⟩, fun charset language text => ⟨fun h => ?_, ?_⟩,
      decode_toExtValue (nameOf filename)⟩
    · exact h.unique hreads
    · rintro ⟨rfl, rfl⟩
      exact hreads
    · exact h.unique hextended
    · rintro ⟨rfl, rfl, rfl⟩
      exact hextended
  refine ⟨printable_buildContentDisposition filename, fun name plain => ⟨fun h => ?_, ?_⟩,
    quotable_eq_iff, fun other => ⟨fun h => ?_, fun h => ?_⟩⟩
  · exact h.unique (htells filename)
  · rintro ⟨rfl, rfl⟩
    exact htells filename
  · exact ((htells other).unique (h ▸ htells filename)).1
  · rw [buildContentDisposition_def, buildContentDisposition_def, h]

/-- A name that would end the quotes and add a parameter of its own. -/
example : buildContentDisposition (some "a\"; filename*=UTF-8''Ü".toList) =
    ("attachment; filename=\"a_; filename*=UTF-8''_\"; " ++
      "filename*=UTF-8''a%22%3B%20filename%2A%3DUTF-8%27%27%C3%9C").toList := by
  decide +kernel

end ContentDisposition
