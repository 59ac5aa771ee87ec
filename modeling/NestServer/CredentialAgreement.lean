import NestServer.CredentialSync
import NestServer.Runs

/-! # Agreement of the two systems

    A run of `update` and `resetPassword` calls of one user.  `Linked` says what
    the hashes are made from; a call keeps the agreement exactly if the account
    gets the new password as well, or has it already. -/

namespace CredentialSync

open Password (looksDigested)

variable {Salt Hash : Type} (cfg : Config Salt Hash)

inductive Call (Salt : Type) where
  | update (input : UserInput) (chance : Chance Salt)
  | resetPassword (newPassword : String) (chance : Chance Salt)

def step (s : Stores Hash) : Call Salt → Option (Stores Hash)
  | .update input chance             => some (update cfg s input chance)
  | .resetPassword newPassword chance => some (resetPassword cfg s newPassword chance)

/-- **The agreement.** -/
structure Agree (s : Stores Hash) : Prop where
  passwords : ∀ p, legacyAccepts cfg s p = iamAccepts cfg s p
  email     : iamEmail s = some s.user.email

/-! ## The condition -/

/-- The synchronisation of a plain password reaches the account of the user. -/
def Synced (s : Stores Hash) (newEmail : String) (password : String) (chance : Chance Salt) :
    Prop :=
  cfg.betterAuthUserMapper = true ∧ cfg.connection = true ∧ chance.syncFails = false ∧
    JsText.truthy password = true ∧ looksDigested password = false ∧
    JsText.truthy s.user.email = true ∧ newEmail = s.user.email ∧
    ¬ cfg.earlier.contains s.user.email

/-- The account has the new password: it gets it, or it accepts it already. -/
def Follows (s : Stores Hash) (newEmail : String) (password : String) (chance : Chance Salt) :
    Prop :=
  (looksDigested password = true ∨ cfg.sha256Enabled = true) ∧
    (Synced cfg s newEmail password chance ∨ iamAccepts cfg s password = true)

instance (s : Stores Hash) (newEmail password : String) (chance : Chance Salt) :
    Decidable (Synced cfg s newEmail password chance) :=
  inferInstanceAs (Decidable (_ ∧ _))

/-- When a call keeps the agreement. -/
def Condition (s : Stores Hash) : Call Salt → Prop
  | .update input chance =>
      match input.password with
      | none          => True
      | some password =>
          JsText.truthy password = true ∧
            Follows cfg s ((input.email.map storedEmail).getD s.user.email) password chance
  | .resetPassword password chance => Follows cfg s s.user.email password chance

/-! ## What the hashes are made from -/

/-- The account is that of the user, its hash is that of a digest, and the legacy
    hash is one. -/
structure Linked (s : Stores Hash) : Prop where
  owner   : s.account.userId = s.user.id
  account : ∃ salt text, looksDigested text = true ∧ s.account.password = cfg.scrypt.hash salt text
  user    : ∀ hash, s.user.password = some hash → ∃ salt text, hash = cfg.bcrypt.hash salt text

section Accepts

variable {cfg} {s : Stores Hash}

theorem normalize_digested (p : String) : looksDigested (normalizePasswordForIam cfg p) = true := by
  rw [normalizePasswordForIam]
  split
  · assumption
  · exact cfg.digest.digested p

theorem iamAccepts_iff {salt : Salt} {text : String}
    (h : s.account.password = cfg.scrypt.hash salt text) (p : String) :
    iamAccepts cfg s p = true ↔ normalizePasswordForIam cfg p = text := by
  rw [iamAccepts, h]
  exact cfg.scrypt.accepts salt text _

theorem legacyAccepts_iff {salt : Salt} {text : String}
    (h : s.user.password = some (cfg.bcrypt.hash salt text)) (p : String) :
    legacyAccepts cfg s p = true ↔ p = text ∨ cfg.digest.sha256 p = text := by
  rw [legacyAccepts.eq_def, h]
  dsimp only
  rw [Bool.or_eq_true, cfg.bcrypt.accepts, cfg.bcrypt.accepts]

/-- The legacy hash of a new password, seen as that of its normal form. -/
theorem hashInput_eq {password : String}
    (h : looksDigested password = true ∨ cfg.sha256Enabled = true) (salt : Salt) :
    hashInput cfg salt password = cfg.bcrypt.hash salt (normalizePasswordForIam cfg password) := by
  rw [hashInput, normalizePasswordForIam]
  cases hd : looksDigested password with
  | true => simp
  | false =>
      have hon : cfg.sha256Enabled = true := h.resolve_left (by rw [hd]; exact Bool.false_ne_true)
      simp [hon]

/-- What the legacy check accepts of a plain password in its normal form. -/
theorem accepts_plain {password : String} (hp : looksDigested password = false) (p : String) :
    p = cfg.digest.sha256 password ∨ cfg.digest.sha256 p = cfg.digest.sha256 password ↔
      normalizePasswordForIam cfg p = cfg.digest.sha256 password := by
  rw [normalizePasswordForIam]
  by_cases hd : looksDigested p = true
  · rw [if_pos hd]
    exact or_iff_left (cfg.digest.apart p password hd hp)
  · rw [if_neg hd]
    refine or_iff_right ?_
    rintro rfl
    exact hd (cfg.digest.digested password)

/-- Both systems accept the same if both hashes are made from the digest of one
    plain password. -/
theorem accepts_same {password : String} (hp : looksDigested password = false) {salt salt' : Salt}
    (huser : s.user.password = some (cfg.bcrypt.hash salt (cfg.digest.sha256 password)))
    (haccount : s.account.password = cfg.scrypt.hash salt' (cfg.digest.sha256 password))
      (p : String) :
    legacyAccepts cfg s p = iamAccepts cfg s p := by
  rw [Bool.eq_iff_iff, legacyAccepts_iff huser, iamAccepts_iff haccount]
  exact accepts_plain hp p

end Accepts

/-! ## One new password -/

section NewPassword

variable {cfg} {s s' : Stores Hash} {password : String} {salt : Salt}

/-- Both hashes are new. -/
theorem agree_synced (hplain : looksDigested password = false)
    (huser : s'.user.password = some (hashInput cfg salt password)) {scryptSalt : Salt}
    (haccount : s'.account.password = hashPasswordForBetterAuth cfg scryptSalt password) :
    (∀ p, legacyAccepts cfg s' p = iamAccepts cfg s' p) ↔ cfg.sha256Enabled = true := by
  have hnormal : normalizePasswordForIam cfg password = cfg.digest.sha256 password := by
    rw [normalizePasswordForIam, hplain, if_neg Bool.false_ne_true]
  rw [hashPasswordForBetterAuth, hnormal] at haccount
  constructor
  · intro h
    by_contra hoff
    -- the account accepts the digest, the legacy hash of the plain text does not
    have hhash : hashInput cfg salt password = cfg.bcrypt.hash salt password := by
      rw [hashInput, Bool.eq_false_of_not_eq_true hoff, Bool.false_and, if_neg Bool.false_ne_true]
    rw [hhash] at huser
    have hiam : iamAccepts cfg s' (cfg.digest.sha256 password) = true := by
      rw [iamAccepts_iff haccount, normalizePasswordForIam, if_pos (cfg.digest.digested password)]
    rw [← h, legacyAccepts_iff huser] at hiam
    rcases hiam with heq | heq
    · have := cfg.digest.digested password
      rw [heq, hplain] at this
      cases this
    · have := cfg.digest.digested (cfg.digest.sha256 password)
      rw [heq, hplain] at this
      cases this
  · intro hon
    rw [hashInput_eq (Or.inr hon), hnormal] at huser
    exact accepts_same hplain huser haccount

/-- Only the legacy hash is new. -/
theorem agree_unsynced (hs : Linked cfg s) (ha : Agree cfg s)
    (huser : s'.user.password = some (hashInput cfg salt password))
      (haccount : s'.account = s.account) :
    (∀ p, legacyAccepts cfg s' p = iamAccepts cfg s' p) ↔
      (looksDigested password = true ∨ cfg.sha256Enabled = true) ∧
      iamAccepts cfg s password = true := by
  obtain ⟨saltI, text, htext, hI⟩ := hs.account
  have hI' : s'.account.password = cfg.scrypt.hash saltI text := by
    rw [haccount]
    exact hI
  -- the account accepts the digest it was made from
  have htextI : normalizePasswordForIam cfg text = text := by
    rw [normalizePasswordForIam, if_pos htext]
  constructor
  · intro h
    have hcase : looksDigested password = true ∨ cfg.sha256Enabled = true := by
      by_contra hnot
      rw [not_or] at hnot
      have hplain := Bool.eq_false_of_not_eq_true hnot.1
      have hhash : hashInput cfg salt password = cfg.bcrypt.hash salt password := by
        rw [hashInput, Bool.eq_false_of_not_eq_true hnot.2, Bool.false_and,
          if_neg Bool.false_ne_true]
      rw [hhash] at huser
      have hiam := (iamAccepts_iff hI' text).mpr htextI
      rw [← h, legacyAccepts_iff huser] at hiam
      rcases hiam with heq | heq
      · rw [heq, hplain] at htext
        cases htext
      · have := cfg.digest.digested text
        rw [heq, hplain] at this
        cases this
    refine ⟨hcase, ?_⟩
    rw [hashInput_eq hcase] at huser
    have hlegacy : legacyAccepts cfg s' password = true := by
      rw [legacyAccepts_iff huser, normalizePasswordForIam]
      split
      · exact Or.inl rfl
      · exact Or.inr rfl
    rw [h, iamAccepts_iff hI'] at hlegacy
    exact (iamAccepts_iff hI password).mpr hlegacy
  · rintro ⟨hcase, haccepts⟩ p
    rw [iamAccepts_iff hI] at haccepts
    rw [hashInput_eq hcase, haccepts] at huser
    rw [Bool.eq_iff_iff, legacyAccepts_iff huser, iamAccepts_iff hI']
    by_cases hd : looksDigested password = true
    · -- the old legacy hash was made from the same digest
      have hold := ha.passwords
      cases hlegacy : s.user.password with
      | none =>
          have hiam := (iamAccepts_iff hI text).mpr htextI
          rw [← hold, legacyAccepts.eq_def, hlegacy] at hiam
          cases hiam
      | some hash =>
          obtain ⟨saltL, old, rfl⟩ := hs.user hash hlegacy
          have hself := (legacyAccepts_iff hlegacy old).mpr (Or.inl rfl)
          rw [hold, iamAccepts_iff hI] at hself
          have hiam := (iamAccepts_iff hI text).mpr htextI
          rw [← hold, legacyAccepts_iff hlegacy] at hiam
          have heq : old = text := by
            by_cases hdold : looksDigested old = true
            · rw [normalizePasswordForIam, if_pos hdold] at hself
              exact hself
            · rcases hiam with heq | heq
              · exact heq.symm
              · exact absurd (heq ▸ cfg.digest.digested text) hdold
          subst heq
          rw [← legacyAccepts_iff hlegacy p, hold, iamAccepts_iff hI]
    · have hplain := Bool.eq_false_of_not_eq_true hd
      have hnormal : text = cfg.digest.sha256 password := by
        rw [← haccepts, normalizePasswordForIam, if_neg hd]
      rw [hnormal]
      exact accepts_plain hplain p

/-- No password is left in the user document. -/
theorem disagree_empty (hs : Linked cfg s) (huser : s'.user.password = none)
    (haccount : s'.account = s.account) : ¬ ∀ p, legacyAccepts cfg s' p = iamAccepts cfg s' p := by
  obtain ⟨salt, text, htext, hI⟩ := hs.account
  intro h
  have hI' : s'.account.password = cfg.scrypt.hash salt text := by
    rw [haccount]
    exact hI
  have hiam : iamAccepts cfg s' text = true := by
    rw [iamAccepts_iff hI', normalizePasswordForIam, if_pos htext]
  rw [← h, legacyAccepts.eq_def, huser] at hiam
  cases hiam

end NewPassword

/-! ## One call -/

section Step

variable {cfg} {s : Stores Hash}

/-- What the synchronisation does to the stores. -/
theorem sync_eq (howner : s.account.userId = s.user.id) (userEmail password : String) (salt : Salt)
    (fails : Bool) :
    (cfg.connection = true ∧ JsText.truthy password = true ∧ fails = false ∧
        s.user.email = userEmail ∧ ¬ cfg.earlier.contains userEmail ∧
        (syncPasswordChangeToIam cfg s userEmail password salt fails).1
          = { s with account := { s.account with
                password := hashPasswordForBetterAuth cfg salt password } }) ∨
      (¬ (cfg.connection = true ∧ JsText.truthy password = true ∧ fails = false ∧
          s.user.email = userEmail ∧ ¬ cfg.earlier.contains userEmail) ∧
        (syncPasswordChangeToIam cfg s userEmail password salt fails).1 = s) := by
  rw [syncPasswordChangeToIam]
  by_cases hready : (!cfg.connection || !JsText.truthy password || fails) = true
  · right
    rw [if_pos hready]
    refine ⟨?_, rfl⟩
    rintro ⟨hconnection, htruthy, hfails, _⟩
    rw [hconnection, htruthy, hfails] at hready
    cases hready
  · rw [if_neg hready]
    simp only [Bool.or_eq_true, Bool.not_eq_true', not_or, Bool.not_eq_false,
      Bool.not_eq_true] at hready
    obtain ⟨⟨hconnection, htruthy⟩, hfails⟩ := hready
    rw [findUser]
    by_cases hfound : s.user.email = userEmail ∧ ¬ cfg.earlier.contains userEmail
    · left
      rw [if_pos hfound]
      dsimp only
      rw [if_pos howner]
      exact ⟨hconnection, htruthy, hfails, hfound.1, hfound.2, rfl⟩
    · right
      rw [if_neg hfound]
      exact ⟨fun h => hfound h.2.2.2, rfl⟩

/-- A call with a new password: the account gets it exactly if the call is synced. -/
theorem synced_or_kept (hs : Linked cfg s) (user : User Hash) (hid : user.id = s.user.id)
    (password : String) (chance : Chance Salt) (s' : Stores Hash)
    (h : s' = match plainForSync password with
      | none => { s with user := user }
      | some plainPassword =>
          if cfg.betterAuthUserMapper && JsText.truthy plainPassword &&
            JsText.truthy s.user.email then
            (syncPasswordChangeToIam cfg { s with user := user } s.user.email plainPassword
              chance.scryptSalt chance.syncFails).1
          else { s with user := user }) :
    s'.user = user ∧
      ((Synced cfg s user.email password chance ∧ s'.account = { s.account with
          password := hashPasswordForBetterAuth cfg chance.scryptSalt password }) ∨
        (¬ Synced cfg s user.email password chance ∧ s'.account = s.account)) := by
  rw [plainForSync] at h
  by_cases hd : looksDigested password = true
  · rw [if_pos hd] at h
    subst h
    refine ⟨rfl, Or.inr ⟨?_, rfl⟩⟩
    rintro ⟨_, _, _, _, hplain, _⟩
    rw [hd] at hplain
    cases hplain
  · rw [if_neg hd] at h
    dsimp only at h
    by_cases hready : (cfg.betterAuthUserMapper && JsText.truthy password
        && JsText.truthy s.user.email) = true
    · rw [if_pos hready] at h
      rw [Bool.and_eq_true, Bool.and_eq_true] at hready
      obtain ⟨⟨hmapper, htruthy⟩, hemail⟩ := hready
      have howner : s.account.userId = user.id := by
        rw [hid]
        exact hs.owner
      rcases sync_eq (s := { s with user := user }) howner s.user.email password chance.scryptSalt
        chance.syncFails with ⟨hconnection, _, hfails, hfound, hearlier, heq⟩ | ⟨hnot, heq⟩
      · rw [heq] at h
        subst h
        exact ⟨rfl, Or.inl ⟨⟨hmapper, hconnection, hfails, htruthy, Bool.eq_false_of_not_eq_true hd,
          hemail, hfound, hearlier⟩, rfl⟩⟩
      · rw [heq] at h
        subst h
        refine ⟨rfl, Or.inr ⟨?_, rfl⟩⟩
        rintro ⟨_, hconnection, hfails, _, _, _, hsame, hearlier⟩
        exact hnot ⟨hconnection, htruthy, hfails, hsame, hearlier⟩
    · rw [if_neg hready] at h
      subst h
      refine ⟨rfl, Or.inr ⟨?_, rfl⟩⟩
      rintro ⟨hmapper, _, _, htruthy, _, hemail, _⟩
      refine hready ?_
      rw [hmapper, htruthy, hemail]
      rfl

theorem linked_of {s' : Stores Hash} (hs : Linked cfg s) (hid : s'.user.id = s.user.id)
    (huser : ∀ hash, s'.user.password = some hash → ∃ salt text, hash = cfg.bcrypt.hash salt text)
    (haccount : s'.account = s.account ∨ ∃ salt password,
      s'.account = { s.account with password := hashPasswordForBetterAuth cfg salt password }) :
    Linked cfg s' := by
  rcases haccount with heq | ⟨salt, password, heq⟩
  · exact ⟨by rw [heq, hid]; exact hs.owner, by rw [heq]; exact hs.account, huser⟩
  · refine ⟨by rw [heq, hid]; exact hs.owner, ?_, huser⟩
    rw [heq]
    exact ⟨salt, _, normalize_digested password, rfl⟩

theorem agree_iff {s' : Stores Hash} (hs : Linked cfg s') :
    Agree cfg s' ↔ ∀ p, legacyAccepts cfg s' p = iamAccepts cfg s' p :=
  ⟨fun h => h.passwords, fun h => ⟨h, by rw [iamEmail, if_pos hs.owner]⟩⟩

/-- A call with a new password that is not empty. -/
theorem agree_follows (hs : Linked cfg s) (ha : Agree cfg s) {s' : Stores Hash}
    {newEmail password : String}
    {chance : Chance Salt} {salt : Salt}
    (huser : s'.user.password = some (hashInput cfg salt password))
    (hcase : (Synced cfg s newEmail password chance ∧ s'.account = { s.account with
          password := hashPasswordForBetterAuth cfg chance.scryptSalt password }) ∨
        (¬ Synced cfg s newEmail password chance ∧ s'.account = s.account)) :
    (∀ p, legacyAccepts cfg s' p = iamAccepts cfg s' p) ↔
      Follows cfg s newEmail password chance := by
  rcases hcase with ⟨hsynced, haccount⟩ | ⟨hnot, haccount⟩
  · have hplain : looksDigested password = false := hsynced.2.2.2.2.1
    rw [agree_synced hplain huser (by rw [haccount])]
    constructor
    · intro hon
      exact ⟨Or.inr hon, Or.inl hsynced⟩
    · rintro ⟨hd | hon, _⟩
      · rw [hplain] at hd
        cases hd
      · exact hon
  · rw [agree_unsynced hs ha huser haccount]
    constructor
    · rintro ⟨hcase, haccepts⟩
      exact ⟨hcase, Or.inr haccepts⟩
    · rintro ⟨hcase, hsynced | haccepts⟩
      · exact absurd hsynced hnot
      · exact ⟨hcase, haccepts⟩

theorem update_none (input : UserInput) (h : input.password = none) (chance : Chance Salt) :
    update cfg s input chance
      = { s with user := crudUpdate cfg s.user input chance.bcryptSalt } := by
  rw [update.eq_def, h]
  rfl

theorem update_some (input : UserInput) {password : String} (h : input.password = some password)
    (chance : Chance Salt) :
    update cfg s input chance = match plainForSync password with
      | none => { s with user := crudUpdate cfg s.user input chance.bcryptSalt }
      | some plainPassword =>
          if cfg.betterAuthUserMapper && JsText.truthy plainPassword &&
            JsText.truthy s.user.email then
            (syncPasswordChangeToIam cfg
              { s with user := crudUpdate cfg s.user input chance.bcryptSalt } s.user.email
              plainPassword chance.scryptSalt chance.syncFails).1
          else { s with user := crudUpdate cfg s.user input chance.bcryptSalt } := by
  rw [update.eq_def, h]
  rfl

theorem step_agree (hs : Linked cfg s) {call : Call Salt} {s' : Stores Hash}
    (h : step cfg s call = some s') :
    Linked cfg s' ∧ (Agree cfg s → (Agree cfg s' ↔ Condition cfg s call)) := by
  cases call with
  | update input chance =>
      obtain rfl := Option.some.inj h
      rw [Condition]
      cases hpassword : input.password with
      | none =>
          have huser : (crudUpdate cfg s.user input chance.bcryptSalt).password =
              s.user.password := by
            rw [crudUpdate, hpassword]
          have hlinked : Linked cfg (update cfg s input chance) := by
            rw [update_none input hpassword]
            exact linked_of hs rfl (by rw [huser]; exact hs.user) (Or.inl rfl)
          refine ⟨hlinked, fun ha => ?_⟩
          rw [agree_iff hlinked, update_none input hpassword]
          refine iff_of_true ?_ trivial
          intro p
          have := ha.passwords p
          rw [legacyAccepts.eq_def] at this ⊢
          dsimp only
          rw [huser, this]
          rfl
      | some password =>
          obtain ⟨huser, hcase⟩ := synced_or_kept hs (crudUpdate cfg s.user input chance.bcryptSalt)
            rfl password chance _ (update_some input hpassword chance)
          have hstored : (update cfg s input chance).user.password
              = if JsText.truthy password then some (hashInput cfg chance.bcryptSalt password)
                else none := by
            rw [huser, crudUpdate, hpassword]
          have hlinked : Linked cfg (update cfg s input chance) := by
            refine linked_of hs (by rw [huser]; rfl) ?_ ?_
            · intro hash hhash
              rw [hstored] at hhash
              split at hhash
              · exact ⟨_, _, (Option.some.inj hhash).symm⟩
              · cases hhash
            · rcases hcase with ⟨_, heq⟩ | ⟨_, heq⟩
              · exact Or.inr ⟨_, _, heq⟩
              · exact Or.inl heq
          refine ⟨hlinked, fun ha => ?_⟩
          rw [agree_iff hlinked]
          dsimp only
          by_cases htruthy : JsText.truthy password = true
          · rw [if_pos htruthy] at hstored
            rw [agree_follows hs ha hstored hcase]
            exact (and_iff_right htruthy).symm
          · rw [if_neg htruthy] at hstored
            have haccount : (update cfg s input chance).account = s.account := by
              rcases hcase with ⟨hsynced, _⟩ | ⟨_, heq⟩
              · exact absurd hsynced.2.2.2.1 htruthy
              · exact heq
            exact iff_of_false (disagree_empty hs hstored haccount) (fun hc => htruthy hc.1)
  | resetPassword password chance =>
      obtain rfl := Option.some.inj h
      obtain ⟨huser, hcase⟩ := synced_or_kept hs
        { s.user with password := some (hashInput cfg chance.bcryptSalt password) } rfl password
          chance
        (resetPassword cfg s password chance) rfl
      have hstored : (resetPassword cfg s password chance).user.password
          = some (hashInput cfg chance.bcryptSalt password) := by
        rw [huser]
      have hlinked : Linked cfg (resetPassword cfg s password chance) := by
        refine linked_of hs (by rw [huser]) ?_ ?_
        · intro hash hhash
          rw [hstored] at hhash
          exact ⟨_, _, (Option.some.inj hhash).symm⟩
        · rcases hcase with ⟨_, heq⟩ | ⟨_, heq⟩
          · exact Or.inr ⟨_, _, heq⟩
          · exact Or.inl heq
      refine ⟨hlinked, fun ha => ?_⟩
      rw [agree_iff hlinked]
      exact agree_follows hs ha hstored hcase

end Step

/-- The systems agree after every call of a run exactly if every call meets the
    condition. -/
theorem always_agree_iff (calls : List (Call Salt)) (s t : Stores Hash) (hs : Linked cfg s)
    (ha : Agree cfg s) (hr : Runs.run (step cfg) s calls = some t) :
    Runs.Always (step cfg) (Agree cfg) s calls ↔ Runs.Meets (step cfg) (Condition cfg) s calls :=
  Runs.always_iff (step cfg) (fun _ _ _ hs h => (step_agree hs h).1)
    (fun _ _ _ hs ha h => (step_agree hs h).2 ha) calls s t hs ha hr

/-! ## A user with one password -/

/-- A hash that shows its text. -/
def plainHashing : Hashing Unit String where
  hash _ p := p
  verify   := fun q h => q == h
  accepts  := fun _ p q => by rw [beq_iff_eq]

/-- The digests of three passwords, and two more. -/
def sampleDigest : Digest where
  sha256 p :=
    if looksDigested p then "ffffffffffffffffffffffffffffffffffffffffffffffffffffffffffffffff"
    else if p = "old" then "cba06b5736faf67e54b07b561eae94395e774c517a7d910a54369e1263ccfbd4"
    else if p = "secret" then "2bb80d537b1da3e38bd30361aa855686bde0eacd7162fef6a25fe97bf527a25b"
    else if p = "new" then "11507a0e2f5e69d5dfa40a62a1bd7b6ee57e6bcd85c67c9b8431b36fff21c437"
    else "0000000000000000000000000000000000000000000000000000000000000000"
  digested p := by
    repeat' split
    all_goals decide
  apart p q hp hq := by
    rw [if_pos hp, if_neg (by rw [hq]; exact Bool.false_ne_true)]
    repeat' split
    all_goals decide

def sampleConfig (sha256Enabled : Bool) : Config Unit String where
  sha256Enabled        := sha256Enabled
  digest               := sampleDigest
  bcrypt               := plainHashing
  scrypt               := plainHashing
  betterAuthUserMapper := true
  connection           := true
  earlier              := []

/-- A user with the password `old` in both systems. -/
def sampleStores : Stores String where
  user    := { id := "u1", email := "a@x", password := some (sampleDigest.sha256 "old") }
  account := { userId := "u1", password := sampleDigest.sha256 "old" }

def sampleChance : Chance Unit := { bcryptSalt := (), scryptSalt := () }

theorem linked_sample (enabled : Bool) : Linked (sampleConfig enabled) sampleStores where
  owner   := rfl
  account := ⟨(), sampleDigest.sha256 "old", sampleDigest.digested "old", rfl⟩
  user    := fun hash _ => ⟨(), hash, rfl⟩

theorem agree_sample (enabled : Bool) : Agree (sampleConfig enabled) sampleStores := by
  refine (agree_iff (linked_sample enabled)).mpr ?_
  have huser : sampleStores.user.password
      = some ((sampleConfig enabled).bcrypt.hash () (sampleDigest.sha256 "old")) := rfl
  have haccount : sampleStores.account.password
      = (sampleConfig enabled).scrypt.hash () (sampleDigest.sha256 "old") := rfl
  exact accepts_same (show looksDigested "old" = false by decide) huser haccount

/-- A new password, a new e-mail, and a reset. -/
theorem always_agree_sample :
    Runs.Always (step (sampleConfig true)) (Agree (sampleConfig true)) sampleStores
      [.update { password := some "secret" } sampleChance,
        .update { email := some "B@x" } sampleChance,
        .resetPassword "new" sampleChance] := by
  refine (always_agree_iff (sampleConfig true) _ sampleStores _ (linked_sample true)
    (agree_sample true) rfl).mpr ?_
  refine Runs.meets_cons _ _ rfl ?_ (Runs.meets_cons _ _ rfl trivial
    (Runs.meets_cons _ _ rfl ?_ trivial))
  · exact ⟨by decide, Or.inr rfl, Or.inl (by decide)⟩
  · exact ⟨Or.inr rfl, Or.inl (by decide)⟩

/-- A password sent as its digest, a password with a new e-mail in one call, and a
    plain password without `sha256`: the systems accept different passwords. -/
theorem systems_disagree :
    (∃ t, Runs.run (step (sampleConfig true)) sampleStores
        [.update { password := some (sampleDigest.sha256 "secret") } sampleChance] = some t ∧
        legacyAccepts (sampleConfig true) t "secret" = true ∧
        iamAccepts (sampleConfig true) t "secret" = false) ∧
      (∃ t, Runs.run (step (sampleConfig true)) sampleStores
        [.update { email := some "b@x", password := some "secret" } sampleChance] = some t ∧
        legacyAccepts (sampleConfig true) t "secret" = true ∧
        iamAccepts (sampleConfig true) t "secret" = false) ∧
      ∃ t, Runs.run (step (sampleConfig false)) sampleStores
        [.resetPassword "secret" sampleChance] = some t ∧
        legacyAccepts (sampleConfig false) t (sampleDigest.sha256 "secret") = false ∧
        iamAccepts (sampleConfig false) t (sampleDigest.sha256 "secret") = true :=
  ⟨⟨_, rfl, by decide, by decide⟩, ⟨_, rfl, by decide, by decide⟩, _, rfl, by decide, by decide⟩

end CredentialSync
