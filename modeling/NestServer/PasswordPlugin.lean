import NestServer.Fallible
import NestServer.Mongoose
import NestServer.RoleEnum

/-! # Passwords in store

    `mongoose-password.plugin.ts`: hooks that hash the passwords of a write.  A
    password that begins like a hash is taken for one; the hooks find a password
    in the plain fields and in `$set`, and nowhere else in an update. -/

namespace Password

open Mongo Mongoose

/-! ## The plugin -/

/-- The configuration, and the two libraries it calls; `bcrypt` draws a salt. -/
structure Config (Salt : Type) where
  sha256Enabled : Bool
  sha256        : String → String
  bcrypt        : Salt → String → String
  skipPatterns  : List (String → Bool)

/-- `/^\$2[aby]\$/`, with what is behind it. -/
def afterPrefix (cs : List Char) : Option (List Char) :=
  match cs with
  | '$' :: '2' :: v :: '$' :: rest => if v = 'a' ∨ v = 'b' ∨ v = 'y' then some rest else none
  | _                              => none

/-- `/^\d+\$/`, with what is behind it. -/
def afterCost (cs : List Char) : Option (List Char) :=
  if cs.takeWhile Char.isDigit = [] then none
  else match cs.dropWhile Char.isDigit with
    | '$' :: rest => some rest
    | _           => none

/-- `/^\$2[aby]\$\d+\$/.test(password)` -/
def looksHashed (password : String) : Bool :=
  ((afterPrefix password.toList).bind afterCost).isSome

def isHexDigit (c : Char) : Bool :=
  c.isDigit || ('a' ≤ c && c ≤ 'f') || ('A' ≤ c && c ≤ 'F')

/-- `/^[a-f0-9]{64}$/i.test(password)` -/
def looksDigested (password : String) : Bool :=
  password.toList.length = 64 && password.toList.all isHexDigit

variable {Salt : Type} (cfg : Config Salt) (salt : Salt)

def skips (password : String) : Bool := cfg.skipPatterns.any fun pattern => pattern password

def hashPassword (password : String) : String :=
  if looksHashed password then password
  else if skips cfg password then password
  else cfg.bcrypt salt
    (if cfg.sha256Enabled && !looksDigested password then cfg.sha256 password else password)

/-- Only a text is hashed. -/
def hashValue : Value → Except String Value
  | .str password => .ok (.str (hashPassword cfg salt password))
  | _             => .error
      "data must be a string or Buffer and salt must either be a salt string or a number of rounds"

/-- `if (d.password) d.password = await hashPassword(d.password)` -/
def hashField (d : Document) : Except String Document :=
  match d.get? "password" with
  | some v =>
      if v.truthy then do
        let hashed ← hashValue cfg salt v
        pure (d.set "password" hashed)
      else pure d
  | none => pure d

/-- A pipeline is an array, and has none of the fields. -/
def hashUpdatePassword : UpdateArgument → Except String UpdateArgument
  | .pipeline f => pure (.pipeline f)
  | .document u => do
      let plain ← hashField cfg salt u.plain
      let set ← hashField cfg salt u.set
      pure (.document { u with plain := plain, set := set })

/-- The hooks of the query operations; a replacement is flat. -/
def hashQuery : QueryOp → Except String QueryOp
  | .updateOne filter sort u upsert => do
      let u ← hashUpdatePassword cfg salt u
      pure (.updateOne filter sort u upsert)
  | .updateMany filter u upsert => do
      let u ← hashUpdatePassword cfg salt u
      pure (.updateMany filter u upsert)
  | .replaceOne filter sort d upsert => do
      let d ← hashField cfg salt d
      pure (.replaceOne filter sort d upsert)
  | .deleteOne filter sort => pure (.deleteOne filter sort)
  | .deleteMany filter     => pure (.deleteMany filter)

/-- What the `bulkWrite` hook makes of one operation. -/
def hashOp : Op → Except String Op
  | .insertOne id d => do
      let d ← hashField cfg salt d
      pure (.insertOne id d)
  | .query q => do
      let q ← hashQuery cfg salt q
      pure (.query q)

/-- The write that goes on to the store. -/
def mongoosePasswordPlugin : ModelWrite → Except String ModelWrite
  | .create id d modified =>
      if !modified.contains "password" then pure (.create id d modified)
      else do
        let d ← hashField cfg salt d
        pure (.create id d modified)
  | .save id d modified elements =>
      if !(modified.contains "password" || (elements.get? "password").isSome)
          || !(d.get? "password").any Value.truthy then
        pure (.save id d modified elements)
      else do
        -- an assignment marks the field as a whole
        let d ← hashField cfg salt d
        pure (.save id d (if modified.contains "password" then modified
          else modified ++ ["password"]) elements)
  | .insertMany ordered (.single id d) => pure (.insertMany ordered (.single id d))
  | .insertMany ordered (.array docs) => do
      let docs ← docs.mapM fun e => do
        let d ← hashField cfg salt e.2
        pure (e.1, d)
      pure (.insertMany ordered (.array docs))
  | .query q => do
      let q ← hashQuery cfg salt q
      pure (.query q)
  | .bulkWrite ordered ops => do
      let ops ← ops.mapM (hashOp cfg salt)
      pure (.bulkWrite ordered ops)

/-! ## Passwords that are protected -/

/-- `./A-Za-z0-9` -/
def isBcryptDigit (c : Char) : Bool := c = '.' || c = '/' || c.isAlphanum

/-- A whole hash: prefix, cost, and 53 characters of salt and digest. -/
def completeHash (password : String) : Bool :=
  match (afterPrefix password.toList).bind afterCost with
  | some rest => rest.length = 53 && rest.all isBcryptDigit
  | none      => false

/-- Nothing is stored, or a whole hash, or a text that a pattern spares. -/
def Protected : Option Value → Prop
  | none            => True
  | some (.str p)   => p = "" ∨ completeHash p = true ∨ skips cfg p = true
  | some v          => v.truthy = false

instance : (v : Option Value) → Decidable (Protected cfg v)
  | none => inferInstanceAs (Decidable True)
  | some (.str p) =>
      inferInstanceAs (Decidable (p = "" ∨ completeHash p = true ∨ skips cfg p = true))
  | some .null => inferInstanceAs (Decidable (_ = false))
  | some (.bool _) => inferInstanceAs (Decidable (_ = false))
  | some (.num _) => inferInstanceAs (Decidable (_ = false))
  | some (.list _) => inferInstanceAs (Decidable (_ = false))
  | some (.doc _) => inferInstanceAs (Decidable (_ = false))

/-- A text that begins like a hash and is none. -/
def Incomplete : Option Value → Prop
  | some (.str p) => looksHashed p = true ∧ completeHash p = false ∧ skips cfg p = false
  | _             => False

def AllProtected (c : Collection) : Prop :=
  ∀ id d, c.get? id = some d → Protected cfg (d.get? "password")

/-! ## What the hook makes of a password -/

section Hashing

variable {cfg salt}

theorem looksHashed_of_completeHash {p : String} (h : completeHash p = true) :
    looksHashed p = true := by
  rw [completeHash] at h
  rw [looksHashed]
  split at h
  · next rest hrest =>
      rw [hrest]
      rfl
  · cases h

/-- A hashed password is protected unless it only began like a hash. -/
theorem protected_hashPassword (hbcrypt : ∀ salt p, completeHash (cfg.bcrypt salt p) = true)
    {p : String} (hp : p ≠ "") :
    Protected cfg (some (.str (hashPassword cfg salt p))) ↔ ¬ Incomplete cfg (some (.str p)) := by
  rw [hashPassword]
  by_cases hl : looksHashed p = true
  · rw [if_pos hl]
    simp only [Protected, Incomplete, hp, hl, false_or, true_and, not_and_or,
      Bool.not_eq_false]
  · rw [if_neg hl]
    refine iff_of_true ?_ fun hinc => hl hinc.1
    by_cases hs : skips cfg p = true
    · rw [if_pos hs]
      exact Or.inr (Or.inr hs)
    · rw [if_neg hs]
      exact Or.inr (Or.inl (hbcrypt _ _))

theorem protected_of_blank {v : Value} (h : v.truthy = false) : Protected cfg (some v) := by
  cases v with
  | str p =>
      refine Or.inl ?_
      simpa [Value.truthy] using h
  | _ => exact h

theorem incomplete_truthy {v : Value} (h : Incomplete cfg (some v)) : v.truthy = true := by
  cases v with
  | str p =>
      have hne : p ≠ "" := by
        rintro rfl
        exact absurd h.1 (by decide)
      simpa [Value.truthy] using hne
  | _ => exact h.elim

/-- What the hook leaves in a field. -/
theorem protected_hashField (hbcrypt : ∀ salt p, completeHash (cfg.bcrypt salt p) = true)
    {d d' : Document} (h : hashField cfg salt d = .ok d') :
    Protected cfg (d'.get? "password") ↔ ¬ Incomplete cfg (d.get? "password") := by
  rw [hashField] at h
  cases hv : d.get? "password" with
  | none =>
      rw [hv] at h
      rw [← Except.ok.inj h, hv]
      exact iff_of_true trivial fun hinc => hinc
  | some v =>
      rw [hv] at h
      dsimp only at h
      split at h
      · next ht =>
          obtain ⟨hashed, hval, h⟩ := Fallible.bind_eq_ok.mp h
          rw [← Except.ok.inj h, OrderedMap.get?_set_self]
          cases v with
          | str p =>
              rw [← Except.ok.inj hval]
              exact protected_hashPassword hbcrypt (by simpa [Value.truthy] using ht)
          | _ => cases hval
      · next ht =>
          rw [← Except.ok.inj h, hv]
          refine iff_of_true (protected_of_blank (eq_false_of_ne_true ht)) ?_
          exact fun hinc => ht (incomplete_truthy hinc)

/-- The hook neither adds the field nor takes it away. -/
theorem get?_hashField {d d' : Document} (h : hashField cfg salt d = .ok d') :
    (d.get? "password" = none → d' = d) ∧
      ((d.get? "password").isSome = (d'.get? "password").isSome) := by
  rw [hashField] at h
  cases hv : d.get? "password" with
  | none =>
      rw [hv] at h
      rw [← Except.ok.inj h, hv]
      exact ⟨fun _ => rfl, rfl⟩
  | some v =>
      rw [hv] at h
      refine ⟨fun hnone => (by cases hnone), ?_⟩
      dsimp only at h
      split at h
      · obtain ⟨hashed, -, h⟩ := Fallible.bind_eq_ok.mp h
        rw [← Except.ok.inj h, OrderedMap.get?_set_self]
        rfl
      · rw [← Except.ok.inj h, hv]

end Hashing

end Password
