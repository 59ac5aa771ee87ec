import Mathlib.Data.List.Basic

/-! # Role names

    `role.enum.ts`: the framework's own role names and the predicates that
    tell system roles and platform-wide roles from project roles.  Roles are
    plain strings at run time (`user.roles`, a membership's `role`, the lists
    of `@Roles` and `@Restricted`), so everything here works on strings.

    The text operations are the string methods the predicates call: JavaScript
    counts UTF-16 units and trims every Unicode space. -/

namespace JsText

/-- White space and line terminators, as `String.prototype.trim` sees them. -/
def isSpace (c : Char) : Bool :=
  let n := c.toNat
  (9 ≤ n && n ≤ 13) || n == 0x20 || n == 0xA0 || n == 0x1680
    || (0x2000 ≤ n && n ≤ 0x200A) || n == 0x2028 || n == 0x2029
    || n == 0x202F || n == 0x205F || n == 0x3000 || n == 0xFEFF

/-- `s.trim()` -/
def trim (s : String) : String :=
  String.ofList (((s.toList.dropWhile isSpace).reverse.dropWhile isSpace).reverse)

/-- `s.length`: a character outside the basic plane counts twice. -/
def length (s : String) : Nat :=
  s.toList.foldl (fun n c => n + if 0xFFFF < c.toNat then 2 else 1) 0

/-- The UTF-16 units, by which strings are compared. -/
def utf16 (s : String) : List Nat :=
  s.toList.flatMap fun c =>
    if c.toNat < 0x10000 then [c.toNat]
    else [0xD800 + (c.toNat - 0x10000) / 0x400, 0xDC00 + (c.toNat - 0x10000) % 0x400]

/-- `s.startsWith(p)` -/
def startsWith (s p : String) : Bool := p.toList.isPrefixOf s.toList

/-- `s.toLowerCase()`.  The strings it is compared with are ASCII, and no other
    character lowers to an ASCII letter of a role name. -/
def toLowerCase (s : String) : String := String.ofList (s.toList.map Char.toLower)

/-- A string is truthy unless it is empty. -/
def truthy (s : String) : Bool := s ≠ ""

theorem startsWith_iff {s p : String} :
    startsWith s p = true ↔ p.toList <+: s.toList := List.isPrefixOf_iff_prefix

/-- What is put in front of a string is a prefix of the result. -/
theorem startsWith_append (p s : String) : startsWith (p ++ s) p = true := by
  rw [startsWith_iff, String.toList_append]
  exact List.prefix_append _ _

end JsText

/-- The roles the framework itself knows. -/
inductive RoleEnum where
  | ADMIN | S_CREATOR | S_EVERYONE | S_NO_ONE | S_VERIFIED | S_SELF | S_USER
deriving DecidableEq, Repr

namespace RoleEnum

/-- The string a role is at run time. -/
def value : RoleEnum → String
  | ADMIN      => "admin"
  | S_CREATOR  => "s_creator"
  | S_EVERYONE => "s_everyone"
  | S_NO_ONE   => "s_no_one"
  | S_VERIFIED => "s_verified"
  | S_SELF     => "s_self"
  | S_USER     => "s_user"

/-- `SYSTEM_ROLE_PREFIX` -/
def SYSTEM_ROLE_PREFIX : String := "s_"

/-- The rule of the run-time checks: exact and case-sensitive. -/
def isSystemRole (role : String) : Bool := JsText.startsWith role SYSTEM_ROLE_PREFIX

/-- The rule of the storage checks: trimmed and case-insensitive. -/
def looksLikeSystemRole (role : String) : Bool :=
  JsText.startsWith (JsText.toLowerCase (JsText.trim role)) SYSTEM_ROLE_PREFIX

/-- Roles only the platform may grant. -/
def GLOBAL_ONLY_ROLES : List String := [ADMIN.value]

def isGlobalOnlyRole (role : String) : Bool := GLOBAL_ONLY_ROLES.contains role

def looksLikeGlobalOnlyRole (role : String) : Bool :=
  GLOBAL_ONLY_ROLES.any fun globalRole =>
    JsText.toLowerCase globalRole == JsText.toLowerCase (JsText.trim role)

/-- Values that must never become a membership role. -/
def isForbiddenMembershipRole (role : String) : Bool :=
  looksLikeSystemRole role || looksLikeGlobalOnlyRole role

theorem looksLikeSystemRole_ADMIN : looksLikeSystemRole ADMIN.value = false := by decide

/-- The storage rule covers the run-time rule: no leading space can hide the
    prefix, and lowering keeps it. -/
theorem looksLikeSystemRole_of_isSystemRole {role : String}
    (h : isSystemRole role = true) : looksLikeSystemRole role = true := by
  obtain ⟨t, ht⟩ := JsText.startsWith_iff.mp h
  have hrole : role.toList = 's' :: '_' :: t := by rw [← ht]; rfl
  have hs : JsText.isSpace 's' = false := by decide
  have hu : JsText.isSpace '_' = false := by decide
  have hdrop : ∀ l : List Char, ∃ r, (l ++ ['_', 's']).dropWhile JsText.isSpace
      = r ++ ['_', 's'] := by
    intro l
    induction l with
    | nil => exact ⟨[], by simp [hu]⟩
    | cons c l ih =>
        obtain ⟨r, hr⟩ := ih
        by_cases hc : JsText.isSpace c = true
        · exact ⟨r, by rw [List.cons_append, List.dropWhile_cons, if_pos hc, hr]⟩
        · exact ⟨c :: l, by rw [List.cons_append, List.dropWhile_cons, if_neg hc]⟩
  obtain ⟨r, hr⟩ := hdrop t.reverse
  rw [looksLikeSystemRole, JsText.startsWith_iff]
  refine ⟨r.reverse.map Char.toLower, ?_⟩
  rw [JsText.toLowerCase, JsText.trim, hrole, List.dropWhile_cons, if_neg (by simp [hs])]
  have hrev : ('s' :: '_' :: t).reverse = t.reverse ++ ['_', 's'] := by simp
  rw [hrev, hr]
  simp [SYSTEM_ROLE_PREFIX]

end RoleEnum
