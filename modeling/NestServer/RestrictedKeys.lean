import NestServer.RestrictedCheck

/-! # Which keys of an object survive

    The property loop deletes the keys it denies from the object its later
    ownership decisions read, replaces the values of the keys it admits, and
    rewrites the creator-of-parent flag.  `survivors_exact_iff` says when the
    outcome is nevertheless the one the object's state on entry asks for: exactly
    when every key that ownership decides finds, at its turn, the ownership
    answer it would have found on entry.

    The run rule is `checkFields_exact_iff`, over any split of the keys into
    those already decided and those to come. -/

open RoleEnum JsTree

namespace Restricted

/-! ## What ownership decides -/

/-- No owner at all. -/
def Ownership.nobody : Ownership := ⟨false, false, none⟩

namespace Access

variable (a : Access)

/-- Neither does every role fail, nor is the user admitted without ownership. -/
def ownershipDecides (restricted : RestrictedType) : Bool :=
  restricted ≠ [] && !(restricted.flatMap a.config.rolesOf).contains S_NO_ONE.value
    && !a.admits restricted .nobody false

/-- The ownership answer: the user is the object, or created it. -/
def owns (restricted : RestrictedType) (o : Ownership) (isCreatorOfParent : Bool) : Bool :=
  let roles := restricted.flatMap a.config.rolesOf
  (roles.contains S_SELF.value && o.self)
    || (roles.contains S_CREATOR.value && a.isCreator o isCreatorOfParent)

/-- Nobody owns anything. -/
theorem isCreator_nobody : a.isCreator .nobody false = false := by
  rw [isCreator, Ownership.nobody]
  exact Bool.and_false _

/-- A right is a right without ownership, or ownership. -/
theorem hasRight_eq (restricted : RestrictedType) (o : Ownership) (flag : Bool) :
    a.hasRight (restricted.flatMap a.config.rolesOf) o flag
      = (a.hasRight (restricted.flatMap a.config.rolesOf) .nobody false
          || a.owns restricted o flag) := by
  rw [hasRight, hasRight, owns, isCreator_nobody, Ownership.nobody]
  dsimp only
  generalize a.isCreator o flag = creator
  rw [Bool.and_false, Bool.and_false, Bool.or_false, Bool.or_false]
  ac_rfl

/-- **Where ownership enters a decision.** -/
theorem admits_eq (restricted : RestrictedType) (o : Ownership) (flag : Bool) :
    a.admits restricted o flag
      = if a.ownershipDecides restricted then a.owns restricted o flag
        else a.admits restricted .nobody false := by
  by_cases hnil : restricted = []
  · rw [hnil, if_neg (by simp [ownershipDecides]), admits, if_pos rfl, admits, if_pos rfl]
  by_cases hno : (restricted.flatMap a.config.rolesOf).contains S_NO_ONE.value = true
  · have hdec : a.ownershipDecides restricted = false := by
      rw [ownershipDecides, hno, Bool.not_true, Bool.and_false, Bool.false_and]
    rw [if_neg (by rw [hdec]; exact Bool.false_ne_true), admits, if_neg hnil, if_pos hno,
      admits, if_neg hnil, if_pos hno]
  -- from here on only the rights can differ, and they differ by ownership
  have hadmits : a.admits restricted o flag
      = (a.admits restricted .nobody false || a.owns restricted o flag) := by
    rw [admits, if_neg hnil, if_neg hno, admits, if_neg hnil, if_neg hno, hasRight_eq]
    by_cases hroles : restricted.flatMap a.config.rolesOf = []
    · simp [owns, hroles]
    · simp only [hroles, ne_eq, not_false_eq_true, decide_true, Bool.true_and]
      ac_rfl
  have hdec : a.ownershipDecides restricted = !a.admits restricted .nobody false := by
    rw [ownershipDecides, Bool.eq_false_iff.mpr hno, decide_eq_true hnil, Bool.not_false,
      Bool.and_true, Bool.true_and]
  rw [hadmits, hdec]
  cases a.admits restricted .nobody false with
  | true  => rfl
  | false => rfl

/-- Two decisions agree where ownership does not decide, or answers alike. -/
theorem admits_congr_iff (restricted : RestrictedType) (o o' : Ownership) (flag flag' : Bool) :
    a.admits restricted o flag = a.admits restricted o' flag'
      ↔ (a.ownershipDecides restricted = true →
          a.owns restricted o flag = a.owns restricted o' flag') := by
  rw [admits_eq a restricted o flag, admits_eq a restricted o' flag']
  cases a.ownershipDecides restricted with
  | true  => simp
  | false => simp

end Access

/-! ## Objects of a class -/

/-- An object of a class: it has its own keys once each, and none of them hides
    its constructor. -/
structure Instance where
  decl   : ClassDecl
  bases  : Class
  fields : Object
  nodup  : (keys fields).Nodup
  plain  : "constructor" ∉ keys fields

namespace Instance

def cls (x : Instance) : Class := x.decl :: x.bases

def value (x : Instance) : Value := .obj x.cls x.fields

def metadata (x : Instance) : Metadata := ⟨x.cls, x.cls⟩

theorem metadataOf_value (x : Instance) (declared : Class) :
    metadataOf (ownConstructor x.fields) x.cls declared = .ok x.metadata := by
  rw [ownConstructor, lookup_eq_none x.plain]
  rfl

end Instance

/-- The own keys of a result. -/
def survivors : Value → List String
  | .obj _ fields => keys fields
  | _             => []

/-! ## One object -/

section Turns

variable (a : Access) (m : Metadata) (o₀ : Ownership) (flag₀ : Bool)

/-- The decision on a key, on the object and the flag as they were on entry. -/
def admitsOnEntry (key : String) : Bool := a.admits (a.restrictionsOf m key) o₀ flag₀

/-- The turns of the keys to come, with the keys before them left as their
    decisions on entry ask: at each turn ownership gives the answer it gave on
    entry, if it decides.  A key passed over stays, so it must be admitted. -/
def TurnsAgree (flag : Bool) (done : Object) : Object → Prop
  | [] => True
  | (key, v) :: rest =>
      let o := a.ownership (done ++ (key, v) :: rest)
      if a.skips v then
        admitsOnEntry a m o₀ flag₀ key = true ∧ TurnsAgree flag (done ++ [(key, v)]) rest
      else (a.ownershipDecides (a.restrictionsOf m key) = true →
            a.owns (a.restrictionsOf m key) o flag = a.owns (a.restrictionsOf m key) o₀ flag₀)
        ∧ if admitsOnEntry a m o₀ flag₀ key then
            ∃ v', check ownConstructor a (o.creatorOfParent flag) v
                (resolveNestedType a.registry key m.owner) = .ok v'
              ∧ TurnsAgree (o.creatorOfParent flag) (done ++ [(key, v')]) rest
          else TurnsAgree flag done rest

/-- The loop returned, and the keys still there of those it had to decide are
    the ones that were admitted on entry. -/
def KeysExact (rest : Object) (r : Except Failure Object) : Prop :=
  ∃ fields', r = .ok fields'
    ∧ ∀ key ∈ keys rest, (key ∈ keys fields' ↔ admitsOnEntry a m o₀ flag₀ key = true)

variable {a} {m} {o₀} {flag₀}

theorem keysExact_cons (stays : Bool) {key : String} {v : Value} {rest : Object}
    {r : Except Failure Object} (h : ∀ fields', r = .ok fields' →
      (key ∈ keys fields' ↔ stays = true)) :
    KeysExact a m o₀ flag₀ ((key, v) :: rest) r
      ↔ stays = admitsOnEntry a m o₀ flag₀ key ∧ KeysExact a m o₀ flag₀ rest r := by
  constructor
  · rintro ⟨fields', hr, hkeys⟩
    refine ⟨?_, fields', hr, fun k hk => hkeys k (List.mem_cons_of_mem key hk)⟩
    have hkey := hkeys key List.mem_cons_self
    rw [h fields' hr] at hkey
    exact Bool.eq_iff_iff.mpr hkey
  · rintro ⟨hstays, fields', hr, hkeys⟩
    refine ⟨fields', hr, fun k hk => ?_⟩
    rcases List.mem_cons.mp hk with hk | hk
    · rw [show k = key from hk, h fields' hr, hstays]
    · exact hkeys k hk

theorem keysExact_bind {rest : Object} {x : Except Failure Value}
    {f : Value → Except Failure Object} :
    KeysExact a m o₀ flag₀ rest (x.bind f)
      ↔ ∃ v', x = .ok v' ∧ KeysExact a m o₀ flag₀ rest (f v') := by
  cases x with
  | error e =>
      constructor
      · rintro ⟨_, h, _⟩
        cases h
      · rintro ⟨_, h, _⟩
        cases h
  | ok v =>
      constructor
      · intro h
        exact ⟨v, rfl, h⟩
      · rintro ⟨v', hv, h⟩
        rw [← Except.ok.inj hv] at h
        exact h

/-- A key the loop has kept is in what it returns. -/
theorem mem_of_kept {own : Object → Option OwnConstructor} {rest done : Object} {key : String}
    {v : Value} {flag : Bool} {fields' : Object}
    (h : checkFields own a m flag (done ++ [(key, v)]) rest = .ok fields') :
    key ∈ keys fields' := by
  obtain ⟨kept, rfl, -⟩ := checkFields_prefix h
  simp [keys]

/-- A key the loop has deleted is not. -/
theorem not_mem_of_deleted {own : Object → Option OwnConstructor} {rest done : Object}
    {key : String} {v : Value} {flag : Bool} {fields' : Object}
    (hnodup : (keys (done ++ (key, v) :: rest)).Nodup)
    (h : checkFields own a m flag done rest = .ok fields') : key ∉ keys fields' := by
  obtain ⟨kept, rfl, hkept⟩ := checkFields_prefix h
  rw [keys, List.map_append, List.map_cons] at hnodup
  have hmid := (List.nodup_middle.mp hnodup)
  intro hmem
  rw [keys, List.map_append, List.mem_append] at hmem
  refine (List.nodup_cons.mp hmid).1 (List.mem_append.mpr ?_)
  exact hmem.imp_right fun h => hkept.subset h

/-- **The run rule of the property loop.** From any state of the loop, the keys to
    come survive exactly as their decisions on entry ask if and only if their
    turns agree. -/
theorem checkFields_exact_iff (hout : a.config.throwsError = false) :
    ∀ (rest done : Object) (flag : Bool), (keys (done ++ rest)).Nodup →
      (KeysExact a m o₀ flag₀ rest (checkFields ownConstructor a m flag done rest)
        ↔ TurnsAgree a m o₀ flag₀ flag done rest) := by
  intro rest
  induction rest with
  | nil =>
      intro done flag _
      rw [checkFields_nil, TurnsAgree]
      exact iff_true_intro ⟨done, rfl, fun key hk => by cases hk⟩
  | cons e rest ih =>
      obtain ⟨key, v⟩ := e
      intro done flag hnodup
      -- the keys are the same whatever value the head is left with
      have hkept : ∀ v' : Value, (keys ((done ++ [(key, v')]) ++ rest)).Nodup := by
        intro v'
        simpa [keys] using hnodup
      have hgone : (keys (done ++ rest)).Nodup := by
        rw [keys, List.map_append, List.map_cons] at hnodup
        rw [keys, List.map_append]
        exact (List.nodup_cons.mp (List.nodup_middle.mp hnodup)).2
      rw [TurnsAgree]
      cases hs : a.skips v with
      | true =>
          rw [checkFields_skip _ hs, keysExact_cons true
            fun fields' h => iff_of_true (mem_of_kept h) rfl, ih _ _ (hkept v), if_pos rfl]
          exact and_congr_left' eq_comm
      | false =>
          rw [if_neg Bool.false_ne_true, ← a.admits_congr_iff]
          cases ha : a.admits (a.restrictionsOf m key)
              (a.ownership (done ++ (key, v) :: rest)) flag with
          | true =>
              rw [checkFields_admitted _ hs ha, keysExact_cons true, keysExact_bind]
              · refine and_congr_right fun hentry => ?_
                rw [if_pos hentry.symm]
                refine exists_congr fun v' => and_congr_right fun _ => ?_
                exact ih _ _ (hkept v')
              · intro fields' h
                obtain ⟨v', -, h'⟩ := Fallible.bind_eq_ok.mp h
                exact iff_of_true (mem_of_kept h') rfl
          | false =>
              rw [checkFields_deny _ hs ha, if_neg (by rw [hout]; exact Bool.false_ne_true),
                keysExact_cons false
                  fun fields' h => iff_of_false (not_mem_of_deleted hnodup h) Bool.false_ne_true]
              refine and_congr_right fun hentry => ?_
              rw [if_neg (by rw [← hentry]; exact Bool.false_ne_true)]
              exact ih _ _ hgone

end Turns

/-! ## The whole object -/

namespace Instance

variable (x : Instance) (a : Access) (flag : Bool)

/-- The user is admitted to the key by its merged restrictions, evaluated against
    the object and the flag as they were on entry. -/
def admittedOnEntry (key : String) : Bool :=
  admitsOnEntry a x.metadata (a.ownership x.fields) flag key

/-- The check returns, and the own keys that survive it are exactly the ones the
    user is admitted to on entry. -/
def SurvivorsExact (declared : Class) : Prop :=
  ∃ r, checkRestricted a flag x.value declared = .ok r
    ∧ ∀ key ∈ keys x.fields, (key ∈ survivors r ↔ x.admittedOnEntry a flag key = true)

/-- The object itself is denied. -/
def itselfDenied : Bool :=
  a.config.checkObjectItself
    && !a.admits (classRestrictions x.cls) (a.ownership x.fields) flag

/-- Where the object itself is denied nothing survives; otherwise the turns of the
    property loop decide. -/
def DecisionsStand : Prop :=
  if x.itselfDenied a flag then ∀ key ∈ keys x.fields, x.admittedOnEntry a flag key = false
  else TurnsAgree a x.metadata (a.ownership x.fields) flag flag [] x.fields

/-- **Exactness of the per-object check.** -/
theorem survivors_exact_iff (declared : Class) (hout : a.config.throwsError = false) :
    x.SurvivorsExact a flag declared ↔ x.DecisionsStand a flag := by
  rw [SurvivorsExact, DecisionsStand, checkRestricted, value, check, x.metadataOf_value declared]
  dsimp only
  change (∃ r, (if x.itselfDenied a flag = true then _ else _) = _ ∧ _) ↔ _
  cases hself : x.itselfDenied a flag with
  | true =>
      rw [if_pos rfl, if_neg (by rw [hout]; exact Bool.false_ne_true)]
      constructor
      · rintro ⟨r, hr, hkeys⟩ key hkey
        rw [← Except.ok.inj hr] at hkeys
        refine Bool.eq_false_iff.mpr fun h => ?_
        cases (hkeys key hkey).mpr h
      · intro h
        refine ⟨_, rfl, fun key hkey => ?_⟩
        rw [h key hkey]
        exact iff_of_false (fun h => by cases h) Bool.false_ne_true
  | false =>
      rw [if_neg Bool.false_ne_true, if_neg Bool.false_ne_true,
        ← checkFields_exact_iff hout x.fields [] flag x.nodup]
      cases hloop : checkFields ownConstructor a x.metadata flag [] x.fields with
      | error e =>
          constructor
          · rintro ⟨_, h, _⟩
            cases h
          · rintro ⟨_, h, _⟩
            cases h
      | ok fields' =>
          constructor
          · rintro ⟨r, hr, hkeys⟩
            rw [← Except.ok.inj hr] at hkeys
            exact ⟨fields', rfl, hkeys⟩
          · rintro ⟨_, hf, hkeys⟩
            rw [← Except.ok.inj hf] at hkeys
            exact ⟨_, rfl, hkeys⟩

/-- A note with a hidden `createdBy` and a text for its creator, `createdBy` first. -/
def note : Instance where
  decl :=
    { name := "Note"
      properties :=
        [("createdBy", [.role S_NO_ONE.value]), ("text", [.role S_CREATOR.value])] }
  bases  := []
  fields := [("createdBy", .prim (.str "ada")), ("text", .prim (.str "hello"))]
  nodup  := by decide
  plain  := by decide

/-- A request of the given user that only asks for output. -/
def outputTo (userId : String) : Access where
  registry   := fun _ => none
  vocabulary := { multiTenancy := none }
  user       := some { fields := [("id", .prim (.str userId))] }
  config     := { processType := some .OUTPUT, throwsError := false }

/-- Nothing of the note is in doubt for a stranger. -/
theorem survivors_exact_iff_stranger :
    note.SurvivorsExact (outputTo "eve") false [] ↔ note.DecisionsStand (outputTo "eve") false :=
  survivors_exact_iff note (outputTo "eve") false [] rfl

/-- Deleting the denied `createdBy` takes the text away from its creator. -/
theorem denied_key_changes_decision :
    ¬ ∀ (x : Instance) (a : Access) (flag : Bool) (declared : Class),
        a.config.throwsError = false → x.SurvivorsExact a flag declared := by
  intro h
  obtain ⟨r, hr, hkeys⟩ := h note (outputTo "ada") false [] rfl
  have hresult : checkRestricted (outputTo "ada") false note.value [] = .ok (.obj note.cls []) :=
    rfl
  rw [hresult] at hr
  rw [← Except.ok.inj hr] at hkeys
  have hadmitted : note.admittedOnEntry (outputTo "ada") false "text" = true := by decide
  cases ((hkeys "text" (by decide)).mpr hadmitted)

end Instance

end Restricted
