import NestServer.CoreAuth
import NestServer.Runs

/-! # The law of the session table

    Calls of one user, one after the other.  An access token is valid when it is
    returned, and no more after its device was logged out.

    `perform_signIn`, `perform_refreshTokens` and `perform_logout` say what a
    call leaves; `Consistent` is what all calls keep. -/

namespace CoreAuth

variable (cfg : JwtConfig)

/-! ## What a call leaves -/

/-- The token that is made on a stored user. -/
def newToken (user : AuthUser) (data : DeviceData) (r : Reading) : JwtPayload :=
  { id := user.id
    deviceId := data.device r.deviceId
    tokenId := (recentTokenId cfg user.tempTokens (data.device r.deviceId) r.checkedAt).getD
      r.tokenId
    deviceDescription := data.deviceDescription }

theorem finish_createTokens (user : AuthUser) (data : DeviceData) (r : Reading) :
    (createTokens cfg user.id data r).finish UserUpdate.apply user
      = (user, .ok (newToken cfg user data r)) := by
  by_cases hp : cfg.sameTokenIdPeriod = 0
  · have hr : recentTokenId cfg user.tempTokens (data.device r.deviceId) r.checkedAt = none := by
      rw [recentTokenId, if_pos hp]
    rw [newToken, hr]
    simp [createTokens, hp]
  · simp [createTokens, hp, newToken, Promise.fetch]

variable {ν : Type}

theorem get?_assign_self {record : OrderedMap String ν} {deviceId : String} {entry : ν}
    (h : deviceId ≠ "__proto__") : (assign record deviceId entry).get? deviceId = some entry := by
  rw [assign, if_neg h]
  exact OrderedMap.get?_set_self record deviceId entry

theorem get?_assign_of_ne {record : OrderedMap String ν} {deviceId other : String} {entry : ν}
    (h : other ≠ deviceId) : (assign record deviceId entry).get? other = record.get? other := by
  rw [assign]
  split
  · rfl
  · exact OrderedMap.get?_set_of_ne record entry h

theorem has_assign (record : OrderedMap String ν) (deviceId : String) (entry : ν) :
    has (assign record deviceId entry) deviceId = true := by
  rw [has, Bool.or_eq_true]
  by_cases h : deviceId = "__proto__"
  · right
    rw [h]
    decide
  · left
    rw [get?_assign_self h]
    rfl

theorem device_data {current : JwtPayload} (h : JsText.truthy current.deviceId = true)
    (uuid : String) : current.data.device uuid = current.deviceId := if_pos h

section UpdateRefreshToken

variable (user : AuthUser) (current new : JwtPayload) (data : Option DeviceData) (now : Int)

theorem finish_update_refused (h : ¬ (JsText.truthy current.deviceId = true ∧
      has user.refreshTokens current.deviceId = true)) :
    (updateRefreshToken cfg user (some current) new data now).finish UserUpdate.apply user
      = (user, .error INVALID_TOKEN) := by
  have hbad : (!JsText.truthy current.deviceId || !has user.refreshTokens current.deviceId) =
      true := by
    rw [← Bool.not_and, Bool.not_eq_true', ← Bool.not_eq_true, Bool.and_eq_true]
    exact h
  rw [updateRefreshToken.eq_def]
  dsimp only
  rw [if_pos hbad]
  exact Promise.finish_returned _ _ _

theorem guard_passed {user : AuthUser} {current : JwtPayload}
    (htruthy : JsText.truthy current.deviceId = true)
    (hhas : has user.refreshTokens current.deviceId = true) :
    ¬ (!JsText.truthy current.deviceId || !has user.refreshTokens current.deviceId) = true := by
  rw [htruthy, hhas]
  exact Bool.false_ne_true

theorem finish_update_kept (htruthy : JsText.truthy current.deviceId = true)
    (hhas : has user.refreshTokens current.deviceId = true) (hrenewal : cfg.renewal = false) :
    (updateRefreshToken cfg user (some current) new data now).finish UserUpdate.apply user
      = (user, .ok (user, current)) := by
  rw [updateRefreshToken.eq_def]
  dsimp only
  rw [if_neg (guard_passed htruthy hhas), if_pos (by rw [hrenewal]; rfl)]
  exact Promise.finish_returned _ _ _

theorem finish_update_renewed (htruthy : JsText.truthy current.deviceId = true)
    (hhas : has user.refreshTokens current.deviceId = true) (hrenewal : cfg.renewal = true) :
    ∃ description,
      (updateRefreshToken cfg user (some current) new data now).finish UserUpdate.apply user
        = (user.setToken current.deviceId description new.tokenId now,
            .ok (user.setToken current.deviceId description new.tokenId now, new)) := by
  rw [updateRefreshToken.eq_def]
  dsimp only
  rw [if_neg (guard_passed htruthy hhas), if_neg (by rw [hrenewal]; decide)]
  exact ⟨_, rfl⟩

theorem finish_update_first :
    ∃ description,
      (updateRefreshToken cfg user none new data now).finish UserUpdate.apply user
        = (user.setToken new.deviceId description new.tokenId now,
            .ok (user.setToken new.deviceId description new.tokenId now, new)) :=
  ⟨_, rfl⟩

end UpdateRefreshToken

theorem perform_signIn (user : AuthUser) (credentials : Except String Unit) (data : DeviceData)
    (r : Reading) {user' : AuthUser} {answer : Option JwtPayload}
    (h : (Call.signIn credentials data r).perform cfg user = (user', .ok answer)) :
    answer = some (newToken cfg user data r) ∧
      ∃ description, user' = user.setToken (data.device r.deviceId) description
        (newToken cfg user data r).tokenId r.storedAt := by
  cases credentials with
  | error e =>
      simp [Call.perform, Call.start, signIn, Promise.fail] at h
  | ok _ =>
      obtain ⟨description, hupdate⟩ := finish_update_first cfg user
        (newToken cfg user data r) (some data) r.storedAt
      simp only [Call.perform, Call.start, signIn, getResult, Promise.bind_eq, Promise.finish_bind,
        finish_createTokens, hupdate, Promise.pure_eq, Promise.finish_returned] at h
      obtain ⟨h1, h2⟩ := Prod.mk.inj h
      exact ⟨(Except.ok.inj h2).symm, description, h1.symm⟩

/-- A refresh makes two tokens.  Without renewal it stores neither. -/
theorem perform_refreshTokens (user : AuthUser) (token : Option JwtPayload) (first second : Reading)
    {user' : AuthUser} {answer : Option JwtPayload}
    (h : (Call.refreshTokens token first second).perform cfg user = (user', .ok answer)) :
    ∃ current, token = some current ∧ JsText.truthy current.deviceId = true ∧
      has user.refreshTokens current.deviceId = true ∧
      ((cfg.renewal = false ∧ user' = user ∧
          answer = some (newToken cfg user current.data second)) ∨
        (cfg.renewal = true ∧ ∃ user₁ description₁ description₂,
          user₁ = user.setToken current.deviceId description₁
            (newToken cfg user current.data first).tokenId first.storedAt ∧
          user' = user₁.setToken current.deviceId description₂
            (newToken cfg user₁ current.data second).tokenId second.storedAt ∧
          answer = some (newToken cfg user₁ current.data second))) := by
  cases token with
  | none =>
      simp [Call.perform, Call.start, refreshTokens, Promise.fail] at h
  | some current =>
      refine ⟨current, rfl, ?_⟩
      simp only [Call.perform, Call.start, refreshTokens, getResult, Promise.bind_eq,
        Promise.finish_bind, finish_createTokens] at h
      by_cases hok : JsText.truthy current.deviceId = true ∧
          has user.refreshTokens current.deviceId = true
      · obtain ⟨htruthy, hhas⟩ := hok
        refine ⟨htruthy, hhas, ?_⟩
        cases hrenewal : cfg.renewal with
        | false =>
            left
            simp only [finish_update_kept cfg user current _ _ _ htruthy hhas hrenewal,
              finish_createTokens, Promise.pure_eq, Promise.finish_returned] at h
            obtain ⟨h1, h2⟩ := Prod.mk.inj h
            exact ⟨rfl, h1.symm, (Except.ok.inj h2).symm⟩
        | true =>
            right
            obtain ⟨description₁, hfirst⟩ := finish_update_renewed cfg user current
              (newToken cfg user current.data first) none first.storedAt htruthy hhas hrenewal
            let user₁ := user.setToken current.deviceId description₁
              (newToken cfg user current.data first).tokenId first.storedAt
            have hhas₁ : has user₁.refreshTokens current.deviceId = true := has_assign _ _ _
            obtain ⟨description₂, hsecond⟩ := finish_update_renewed cfg user₁ current
              (newToken cfg user₁ current.data second) (some current.data) second.storedAt
              htruthy hhas₁ hrenewal
            simp only [hfirst] at h
            rw [show user.setToken current.deviceId description₁
              (newToken cfg user current.data first).tokenId first.storedAt = user₁ from rfl] at h
            simp only [finish_createTokens, hsecond, Promise.pure_eq, Promise.finish_returned] at h
            obtain ⟨h1, h2⟩ := Prod.mk.inj h
            exact ⟨rfl, user₁, description₁, description₂, rfl, h1.symm, (Except.ok.inj h2).symm⟩
      · simp only [finish_update_refused cfg user current _ _ _ hok] at h
        cases (Prod.mk.inj h).2

theorem perform_logout (user : AuthUser) (token : Option JwtPayload) (allDevices : Bool)
    {user' : AuthUser} {answer : Option JwtPayload}
    (h : (Call.logout token allDevices).perform cfg user = (user', .ok answer)) :
    ∃ t, token = some t ∧ answer = none ∧
      user' = { user with
        refreshTokens := if allDevices then .empty else user.refreshTokens.delete t.deviceId } := by
  cases token with
  | none =>
      simp [Call.perform, Call.start, logout, Promise.fail] at h
  | some t =>
      refine ⟨t, rfl, ?_⟩
      simp only [Call.perform, Call.start, logout, Promise.bind_eq] at h
      by_cases hbad : (!JsText.truthy t.deviceId || !has user.refreshTokens t.deviceId) = true
      · rw [if_pos hbad] at h
        cases (Prod.mk.inj h).2
      · rw [if_neg hbad] at h
        cases allDevices with
        | false =>
            obtain ⟨h1, h2⟩ := Prod.mk.inj h
            exact ⟨(Except.ok.inj h2).symm, h1.symm⟩
        | true =>
            obtain ⟨h1, h2⟩ := Prod.mk.inj h
            exact ⟨(Except.ok.inj h2).symm, h1.symm⟩

/-! ## The system -/

/-- A user with what has happened: the UUIDs drawn, the access tokens returned,
    those of them whose device was logged out since, and what the last call
    returned. -/
structure Session where
  user     : AuthUser
  drawn    : List String := []
  issued   : List JwtPayload := []
  revoked  : List JwtPayload := []
  returned : Option JwtPayload := none

/-- The UUIDs that a call draws. -/
def Call.uuids : Call → List String
  | .signIn _ _ r                 => [r.deviceId, r.tokenId]
  | .refreshTokens _ first second =>
      [first.deviceId, first.tokenId, second.deviceId, second.tokenId]
  | .logout _ _                   => []

/-- The tokens of the devices that a call logs out. -/
def Call.revokes (issued : List JwtPayload) : Call → List JwtPayload
  | .logout (some token) allDevices =>
      issued.filter fun t => allDevices || t.deviceId == token.deviceId
  | _ => []

/-- A UUID has 36 characters and is drawn once. -/
def Unused (s : Session) (call : Call) : Prop :=
  call.uuids.Nodup ∧ ∀ uuid ∈ call.uuids, uuid.length = 36 ∧ uuid ∉ s.drawn

instance (s : Session) (call : Call) : Decidable (Unused s call) :=
  inferInstanceAs (Decidable (_ ∧ _))

/-- A call that succeeds. -/
def step (s : Session) (call : Call) : Option Session :=
  if Unused s call then
    match call.perform cfg s.user with
    | (_, .error _)      => none
    | (user, .ok answer) => some
        { user     := user
          drawn    := call.uuids ++ s.drawn
          issued   := answer.toList ++ s.issued
          revoked  := call.revokes s.issued ++ s.revoked
          returned := answer }
  else none

/-- **The law.** -/
structure Lawful (s : Session) : Prop where
  returned : ∀ t, s.returned = some t → (validateUser s.user t).isSome = true
  revoked  : ∀ t ∈ s.revoked, validateUser s.user t = none

instance (s : Session) : Decidable (Lawful s) :=
  decidable_of_iff
    ((∀ t ∈ s.returned, (validateUser s.user t).isSome = true) ∧
      ∀ t ∈ s.revoked, (validateUser s.user t).isNone = true)
    ⟨fun h => ⟨h.1, fun t ht => Option.isNone_iff_eq_none.mp (h.2 t ht)⟩,
      fun h => ⟨h.1, fun t ht => Option.isNone_iff_eq_none.mpr (h.2 t ht)⟩⟩

/-- A token that was logged out is the one to be taken over. -/
def Revives (s : Session) (deviceId : String) (recent : Option String) : Prop :=
  ∃ t ∈ s.revoked, t.deviceId = deviceId ∧ recent = some t.tokenId

/-- When a call keeps the law. -/
def Condition (s : Session) : Call → Prop
  | .signIn _ data r =>
      data.deviceId ≠ some "__proto__" ∧
        ¬ Revives s (data.device r.deviceId)
          (recentTokenId cfg s.user.tempTokens (data.device r.deviceId) r.checkedAt)
  | .refreshTokens none _ _ => True
  | .refreshTokens (some current) first second =>
      if cfg.renewal then
        current.deviceId ≠ "__proto__" ∧
          (second.checkedAt - cfg.sameTokenIdPeriod ≤ first.storedAt →
            ¬ Revives s current.deviceId
              (recentTokenId cfg s.user.tempTokens current.deviceId first.checkedAt))
      else
        -- nothing is stored: the token must be the stored one
        (s.user.refreshTokens.get? current.deviceId).isSome = true ∧
          (recentTokenId cfg s.user.tempTokens current.deviceId second.checkedAt).isSome = true
  | .logout _ _ => True

instance (s : Session) (deviceId : String) (recent : Option String) :
    Decidable (Revives s deviceId recent) :=
  inferInstanceAs (Decidable (∃ t ∈ s.revoked, _ ∧ _))

instance (s : Session) : (call : Call) → Decidable (Condition cfg s call)
  | .signIn _ _ _                 => inferInstanceAs (Decidable (_ ≠ _ ∧ ¬ _))
  | .refreshTokens none _ _       => inferInstanceAs (Decidable True)
  | .refreshTokens (some current) first second =>
      inferInstanceAs (Decidable (if cfg.renewal then
          current.deviceId ≠ "__proto__" ∧
            (second.checkedAt - cfg.sameTokenIdPeriod ≤ first.storedAt →
              ¬ Revives s current.deviceId
                (recentTokenId cfg s.user.tempTokens current.deviceId first.checkedAt))
        else
          (s.user.refreshTokens.get? current.deviceId).isSome = true ∧
            (recentTokenId cfg s.user.tempTokens current.deviceId second.checkedAt).isSome = true))
  | .logout _ _                   => inferInstanceAs (Decidable True)

/-! ## What all calls keep -/

/-- What the maps of a user agree on. -/
structure Tables (drawn : List String) (user : AuthUser) : Prop where
  same    : ∀ d e t, user.refreshTokens.get? d = some e → user.tempTokens.get? d = some t →
    t.tokenId = e.tokenId
  refresh : ∀ d e, user.refreshTokens.get? d = some e → e.tokenId ∈ drawn
  temp    : ∀ d t, user.tempTokens.get? d = some t → t.tokenId ∈ drawn
  proto   : user.refreshTokens.get? "__proto__" = none

structure Consistent (s : Session) : Prop where
  tables  : Tables s.drawn s.user
  issued  : ∀ t ∈ s.issued, t.id = s.user.id ∧ t.tokenId ∈ s.drawn
  revoked : s.revoked ⊆ s.issued

section Invariant

variable {cfg} {user : AuthUser} {drawn : List String}

theorem Tables.mono {more : List String} (h : Tables drawn user) : Tables (more ++ drawn) user where
  same    := h.same
  refresh := fun d e he => List.mem_append_right more (h.refresh d e he)
  temp    := fun d t ht => List.mem_append_right more (h.temp d t ht)
  proto   := h.proto

theorem Tables.setToken (h : Tables drawn user) {deviceId tokenId : String}
    {description : Option String} {now : Int} (ht : tokenId ∈ drawn) :
    Tables drawn (user.setToken deviceId description tokenId now) := by
  by_cases hd : deviceId = "__proto__"
  · -- nothing is entered
    subst hd
    exact ⟨h.same, h.refresh, h.temp, h.proto⟩
  · refine ⟨?_, ?_, ?_, ?_⟩
    · intro d e t he htemp
      by_cases hdd : d = deviceId
      · subst hdd
        rw [AuthUser.setToken, get?_assign_self hd] at he htemp
        rw [← Option.some.inj he, ← Option.some.inj htemp]
      · rw [AuthUser.setToken, get?_assign_of_ne hdd] at he htemp
        exact h.same d e t he htemp
    · intro d e he
      by_cases hdd : d = deviceId
      · subst hdd
        rw [AuthUser.setToken, get?_assign_self hd] at he
        rw [← Option.some.inj he]
        exact ht
      · rw [AuthUser.setToken, get?_assign_of_ne hdd] at he
        exact h.refresh d e he
    · intro d t htemp
      by_cases hdd : d = deviceId
      · subst hdd
        rw [AuthUser.setToken, get?_assign_self hd] at htemp
        rw [← Option.some.inj htemp]
        exact ht
      · rw [AuthUser.setToken, get?_assign_of_ne hdd] at htemp
        exact h.temp d t htemp
    · rw [AuthUser.setToken, get?_assign_of_ne (Ne.symm hd)]
      exact h.proto

theorem Tables.logout (h : Tables drawn user) (all : Bool) (deviceId : String) :
    Tables drawn { user with
      refreshTokens := if all then .empty else user.refreshTokens.delete deviceId } := by
  have hsub : ∀ d e, (if all then OrderedMap.empty else user.refreshTokens.delete deviceId).get? d
      = some e → user.refreshTokens.get? d = some e := by
    intro d e he
    cases all with
    | true => cases he
    | false =>
        by_cases hd : d = deviceId
        · subst hd
          rw [if_neg Bool.false_ne_true, OrderedMap.get?_delete_self] at he
          cases he
        · rw [if_neg Bool.false_ne_true, OrderedMap.get?_delete_of_ne _ hd] at he
          exact he
  refine ⟨fun d e t he => h.same d e t (hsub d e he), fun d e he => h.refresh d e (hsub d e he),
    h.temp, ?_⟩
  rw [Option.eq_none_iff_forall_ne_some]
  intro e he
  have := hsub _ e he
  rw [h.proto] at this
  cases this

/-- A token that is taken over is stored. -/
theorem recentTokenId_some {d t : String} {now : Int}
    (h : recentTokenId cfg user.tempTokens d now = some t) :
    JsText.truthy t = true ∧ ∃ temp, user.tempTokens.get? d = some temp ∧ temp.tokenId = t := by
  rw [recentTokenId.eq_def] at h
  split at h
  · cases h
  · split at h
    · rename_i temp htemp
      split at h
      · rename_i hc
        cases h
        exact ⟨((Bool.and_eq_true _ _).mp hc).1, temp, htemp, rfl⟩
      · cases h
    · cases h

theorem newToken_drawn (cfg : JwtConfig) (h : Tables drawn user) (data : DeviceData) (r : Reading)
    (hr : r.tokenId ∈ drawn) : (newToken cfg user data r).tokenId ∈ drawn := by
  rw [newToken]
  dsimp only
  cases hrecent : recentTokenId cfg user.tempTokens (data.device r.deviceId) r.checkedAt with
  | none => exact hr
  | some t =>
      obtain ⟨_, temp, htemp, rfl⟩ := recentTokenId_some hrecent
      exact h.temp _ temp htemp

end Invariant

section Step

variable {cfg} {s s' : Session} {call : Call}

theorem step_cases (h : step cfg s call = some s') :
    ∃ user answer, Unused s call ∧ call.perform cfg s.user = (user, .ok answer) ∧
      s' = { user := user, drawn := call.uuids ++ s.drawn, issued := answer.toList ++ s.issued,
             revoked := call.revokes s.issued ++ s.revoked, returned := answer } := by
  rw [step] at h
  split at h
  · rename_i hunused
    split at h
    · cases h
    · rename_i user answer hperform
      exact ⟨user, answer, hunused, hperform, (Option.some.inj h).symm⟩
  · cases h

/-- What the maps and the answer are after any call. -/
theorem tables_perform (hs : Tables s.drawn s.user) {user : AuthUser} {answer : Option JwtPayload}
    (h : call.perform cfg s.user = (user, .ok answer)) :
    user.id = s.user.id ∧ Tables (call.uuids ++ s.drawn) user ∧
      ∀ t ∈ answer, t.id = s.user.id ∧ t.tokenId ∈ call.uuids ++ s.drawn := by
  have hmono : Tables (call.uuids ++ s.drawn) s.user := hs.mono
  cases call with
  | signIn credentials data r =>
      obtain ⟨hanswer, description, huser⟩ := perform_signIn cfg s.user credentials data r h
      have hdrawn := newToken_drawn cfg hmono data r (by simp [Call.uuids])
      rw [huser, hanswer]
      refine ⟨rfl, hmono.setToken hdrawn, ?_⟩
      rintro t ⟨⟩
      exact ⟨rfl, hdrawn⟩
  | refreshTokens token first second =>
      obtain ⟨current, rfl, htruthy, hhas, hcase⟩ :=
        perform_refreshTokens cfg s.user token first second h
      have hfirst := newToken_drawn cfg hmono current.data first
        (by simp [Call.uuids])
      rcases hcase with ⟨_, huser, hanswer⟩ | ⟨_, user₁, d₁, d₂, huser₁, huser, hanswer⟩
      · rw [huser, hanswer]
        refine ⟨rfl, hmono, ?_⟩
        rintro t ⟨⟩
        exact ⟨rfl, newToken_drawn cfg hmono current.data second (by simp [Call.uuids])⟩
      · have htables₁ : Tables ((Call.refreshTokens (some current) first second).uuids ++ s.drawn)
            user₁ := by
          rw [huser₁]
          exact hmono.setToken hfirst
        have hsecond := newToken_drawn cfg htables₁ current.data second
          (by simp [Call.uuids])
        rw [huser, hanswer]
        refine ⟨by rw [huser₁]; rfl, htables₁.setToken hsecond, ?_⟩
        rintro t ⟨⟩
        exact ⟨by rw [huser₁]; rfl, hsecond⟩
  | logout token allDevices =>
      obtain ⟨t, rfl, hanswer, huser⟩ := perform_logout cfg s.user token allDevices h
      rw [huser, hanswer]
      refine ⟨rfl, hmono.logout allDevices t.deviceId, ?_⟩
      rintro t ⟨⟩

theorem revokes_subset (call : Call) (issued : List JwtPayload) : call.revokes issued ⊆ issued := by
  rw [Call.revokes.eq_def]
  split
  · exact List.filter_subset_self _
  · exact List.nil_subset issued

theorem Consistent.step (hs : Consistent s) (h : step cfg s call = some s') : Consistent s' := by
  obtain ⟨user, answer, _, hperform, rfl⟩ := step_cases h
  obtain ⟨hid, htables, hanswer⟩ := tables_perform hs.tables hperform
  refine ⟨htables, ?_, ?_⟩
  · intro t ht
    dsimp only
    rw [hid]
    rcases List.mem_append.mp ht with ht | ht
    · exact hanswer t (Option.mem_toList.mp ht)
    · obtain ⟨h1, h2⟩ := hs.issued t ht
      exact ⟨h1, List.mem_append_right _ h2⟩
  · refine List.Subset.trans ?_ (List.subset_append_right _ _)
    exact List.append_subset.mpr ⟨revokes_subset call s.issued, hs.revoked⟩

end Step

/-! ## One call and the law -/

section Law

variable {cfg} {user : AuthUser} {s : Session}

theorem validateUser_isSome {t : JwtPayload} :
    (validateUser user t).isSome = true ↔
      t.id = user.id ∧ JsText.truthy t.tokenId = true ∧
        ∃ e, user.refreshTokens.get? t.deviceId = some e ∧ e.tokenId = t.tokenId := by
  rw [validateUser]
  by_cases hid : t.id = user.id
  · rw [if_pos hid]
    cases hget : user.refreshTokens.get? t.deviceId with
    | none => simp [hid]
    | some e =>
        by_cases htruthy : JsText.truthy t.tokenId = true
        · by_cases heq : e.tokenId = t.tokenId
          · simp [hid, htruthy, heq]
          · simp [hid, htruthy, heq]
        · simp [hid, htruthy]
  · rw [if_neg hid]
    simp [hid]

theorem validateUser_none {t : JwtPayload} :
    validateUser user t = none ↔ ¬ (validateUser user t).isSome = true := by
  rw [← Option.isNone_iff_eq_none, Option.not_isSome_iff_eq_none, Option.isNone_iff_eq_none]

theorem isSome_setToken_self {deviceId tokenId : String} {description : Option String} {now : Int}
    (hd : deviceId ≠ "__proto__") {t : JwtPayload} (ht : t.deviceId = deviceId) :
    (validateUser (user.setToken deviceId description tokenId now) t).isSome = true ↔
      t.id = user.id ∧ JsText.truthy t.tokenId = true ∧ tokenId = t.tokenId := by
  rw [validateUser_isSome, AuthUser.setToken, ht, get?_assign_self hd]
  simp

theorem isSome_setToken_of_ne {deviceId tokenId : String} {description : Option String} {now : Int}
    {t : JwtPayload} (ht : t.deviceId ≠ deviceId) :
    (validateUser (user.setToken deviceId description tokenId now) t).isSome = true ↔
      (validateUser user t).isSome = true := by
  rw [validateUser_isSome, validateUser_isSome, AuthUser.setToken, get?_assign_of_ne ht]

/-- The tokens that were logged out stay invalid exactly if the token ID that is
    stored is none of theirs. -/
theorem revoked_setToken (hs : Consistent s) (hl : Lawful s) (u : AuthUser) (hid : u.id = s.user.id)
    {deviceId tokenId : String} (description : Option String) (now : Int)
    (hd : deviceId ≠ "__proto__") (htruthy : JsText.truthy tokenId = true)
    (hother : ∀ t, t.deviceId ≠ deviceId →
      ((validateUser u t).isSome = true ↔ (validateUser s.user t).isSome = true)) :
    (∀ t ∈ s.revoked, validateUser (u.setToken deviceId description tokenId now) t = none) ↔
      ∀ t ∈ s.revoked, t.deviceId = deviceId → t.tokenId ≠ tokenId := by
  refine forall₂_congr ?_
  intro t ht
  rw [validateUser_none]
  by_cases htd : t.deviceId = deviceId
  · rw [isSome_setToken_self hd htd]
    have hidt : t.id = u.id := by rw [hid]; exact (hs.issued t (hs.revoked ht)).1
    constructor
    · rintro h _ rfl
      exact h ⟨hidt, htruthy, rfl⟩
    · rintro h ⟨_, _, heq⟩
      exact h htd heq.symm
  · rw [isSome_setToken_of_ne htd, hother t htd]
    constructor
    · intro _ h
      exact absurd h htd
    · intro _
      exact validateUser_none.mp (hl.revoked t ht)

theorem uuid_truthy {uuid : String} (h : uuid.length = 36) : JsText.truthy uuid = true := by
  refine decide_eq_true ?_
  rintro rfl
  revert h
  decide

theorem device_eq_proto (data : DeviceData) {uuid : String} (h : uuid.length = 36) :
    data.device uuid = "__proto__" ↔ data.deviceId = some "__proto__" := by
  have huuid : uuid ≠ "__proto__" := by
    rintro rfl
    revert h
    decide
  rw [DeviceData.device.eq_def]
  cases data.deviceId with
  | none => simp [huuid]
  | some deviceId =>
      dsimp only
      split
      · simp
      · rename_i hfalsy
        have hne : deviceId ≠ "__proto__" := by
          rintro rfl
          exact hfalsy (by decide)
        simp [huuid, hne]

/-- The token ID that is stored belongs to a token that was logged out exactly
    if it is taken over from one. -/
theorem stored_revoked (hs : Consistent s) (deviceId : String) {fresh : String}
    (hfresh : fresh ∉ s.drawn)
    (recent : Option String) :
    (∀ t ∈ s.revoked, t.deviceId = deviceId → t.tokenId ≠ recent.getD fresh) ↔
      ¬ Revives s deviceId recent := by
  constructor
  · rintro h ⟨t, ht, hd, rfl⟩
    exact h t ht hd rfl
  · intro h t ht hd heq
    cases recent with
    | none =>
        -- a new token ID is on no token
        have := (hs.issued t (hs.revoked ht)).2
        rw [heq] at this
        exact hfresh this
    | some id => exact h ⟨t, ht, hd, congrArg some heq.symm⟩

theorem newToken_truthy (cfg : JwtConfig) (user : AuthUser) (data : DeviceData) {r : Reading}
    (hr : r.tokenId.length = 36) :
    JsText.truthy (newToken cfg user data r).tokenId = true := by
  rw [newToken]
  dsimp only
  cases hrecent : recentTokenId cfg user.tempTokens (data.device r.deviceId) r.checkedAt with
  | none => exact uuid_truthy hr
  | some t => exact (recentTokenId_some hrecent).1

/-- A stored token is valid unless its device has no entries. -/
theorem newToken_valid (cfg : JwtConfig) (u : AuthUser) (data : DeviceData) {r : Reading}
    (description : Option String) (now : Int) (hr : r.tokenId.length = 36) :
    (validateUser (u.setToken (data.device r.deviceId) description (newToken cfg u data r).tokenId
      now)
        (newToken cfg u data r)).isSome = true ∨ data.device r.deviceId = "__proto__" := by
  by_cases hd : data.device r.deviceId = "__proto__"
  · exact Or.inr hd
  · left
    rw [isSome_setToken_self hd rfl]
    exact ⟨rfl, newToken_truthy cfg u data hr, rfl⟩

theorem proto_invalid {u : AuthUser} (hproto : u.refreshTokens.get? "__proto__" = none)
    {description : Option String} {tokenId : String} {now : Int} {t : JwtPayload}
    (ht : t.deviceId = "__proto__") :
    ¬ (validateUser (u.setToken "__proto__" description tokenId now) t).isSome = true := by
  rw [validateUser_isSome, ht]
  rintro ⟨_, _, e, he, _⟩
  rw [AuthUser.setToken, assign, if_pos rfl, hproto] at he
  cases he

theorem lawful_signIn (hs : Consistent s) (hl : Lawful s) {credentials : Except String Unit}
    {data : DeviceData} {r : Reading} {s' : Session}
    (h : step cfg s (.signIn credentials data r) = some s') :
    Lawful s' ↔ Condition cfg s (.signIn credentials data r) := by
  obtain ⟨user, answer, ⟨_, hunused⟩, hperform, rfl⟩ := step_cases h
  obtain ⟨rfl, description, rfl⟩ := perform_signIn cfg s.user credentials data r hperform
  obtain ⟨hlen, hfresh⟩ := hunused r.tokenId (by simp [Call.uuids])
  have hdevice := device_eq_proto data (hunused r.deviceId (by simp [Call.uuids])).1
  by_cases hd : data.device r.deviceId = "__proto__"
  · refine iff_of_false ?_ (fun hc => hc.1 (hdevice.mp hd))
    intro hlawful
    have := hlawful.returned _ rfl
    rw [hd] at this
    exact proto_invalid hs.tables.proto hd this
  · have hvalid := (newToken_valid cfg s.user data description r.storedAt hlen).resolve_right hd
    have hrevoked := revoked_setToken hs hl s.user rfl description r.storedAt hd
      (newToken_truthy cfg s.user data hlen) (fun t _ => Iff.rfl)
    have hstored := stored_revoked hs (data.device r.deviceId) hfresh
      (recentTokenId cfg s.user.tempTokens (data.device r.deviceId) r.checkedAt)
    constructor
    · intro hlawful
      exact ⟨fun hp => hd (hdevice.mpr hp), hstored.mp (hrevoked.mp hlawful.revoked)⟩
    · rintro ⟨_, hnot⟩
      exact ⟨fun t ht => Option.some.inj ht ▸ hvalid, hrevoked.mpr (hstored.mpr hnot)⟩

/-- What `createTokens` reads back after a token was stored. -/
theorem recentTokenId_setToken {u : AuthUser} {deviceId tokenId : String}
    {description : Option String} {now later : Int} (hd : deviceId ≠ "__proto__")
    (htruthy : JsText.truthy tokenId = true) :
    recentTokenId cfg (u.setToken deviceId description tokenId now).tempTokens deviceId later
      = if cfg.sameTokenIdPeriod = 0 then none
        else if later - cfg.sameTokenIdPeriod ≤ now then some tokenId else none := by
  rw [recentTokenId, AuthUser.setToken, get?_assign_self hd]
  dsimp only
  rw [htruthy, Bool.true_and]
  simp only [decide_eq_true_eq]

theorem not_revives_none {deviceId : String} : ¬ Revives s deviceId none := by
  rintro ⟨t, _, _, h⟩
  cases h

/-- The second token of a refresh takes over the first, or is a new one. -/
theorem renewed_revoked (cfg : JwtConfig) (hs : Consistent s) {current : JwtPayload}
    {first second : Reading} (description : Option String)
      (htruthy : JsText.truthy current.deviceId = true)
    (hd : current.deviceId ≠ "__proto__") (hlen : first.tokenId.length = 36)
    (hfirst : first.tokenId ∉ s.drawn) (hsecond : second.tokenId ∉ s.drawn) :
    (∀ t ∈ s.revoked, t.deviceId = current.deviceId → t.tokenId ≠
        (newToken cfg (s.user.setToken current.deviceId description
          (newToken cfg s.user current.data first).tokenId first.storedAt)
          current.data second).tokenId) ↔
      (second.checkedAt - cfg.sameTokenIdPeriod ≤ first.storedAt →
        ¬ Revives s current.deviceId
          (recentTokenId cfg s.user.tempTokens current.deviceId first.checkedAt)) := by
  have h1 : (newToken cfg s.user current.data first).tokenId
      = (recentTokenId cfg s.user.tempTokens current.deviceId first.checkedAt).getD
        first.tokenId := by
    rw [newToken, device_data htruthy]
  have h2 : ∀ u, (newToken cfg u current.data second).tokenId
      = (recentTokenId cfg u.tempTokens current.deviceId second.checkedAt).getD second.tokenId := by
    intro u
    rw [newToken, device_data htruthy]
  rw [h2, recentTokenId_setToken hd (newToken_truthy cfg s.user current.data hlen)]
  by_cases hp : cfg.sameTokenIdPeriod = 0
  · have hnone : recentTokenId cfg s.user.tempTokens current.deviceId first.checkedAt = none := by
      rw [recentTokenId, if_pos hp]
    rw [if_pos hp, hnone]
    refine iff_of_true ?_ (fun _ => not_revives_none)
    exact (stored_revoked hs _ hsecond none).mpr not_revives_none
  · rw [if_neg hp]
    by_cases hle : second.checkedAt - cfg.sameTokenIdPeriod ≤ first.storedAt
    · rw [if_pos hle, Option.getD_some, h1, stored_revoked hs _ hfirst]
      exact ⟨fun h _ => h, fun h => h hle⟩
    · rw [if_neg hle]
      refine iff_of_true ?_ (fun h => absurd h hle)
      exact (stored_revoked hs _ hsecond none).mpr not_revives_none

theorem lawful_refreshTokens (hs : Consistent s) (hl : Lawful s) {token : Option JwtPayload}
    {first second : Reading} {s' : Session}
    (h : step cfg s (.refreshTokens token first second) = some s') :
    Lawful s' ↔ Condition cfg s (.refreshTokens token first second) := by
  obtain ⟨user, answer, ⟨_, hunused⟩, hperform, rfl⟩ := step_cases h
  obtain ⟨current, rfl, htruthy, hhas, hcase⟩ :=
    perform_refreshTokens cfg s.user token first second hperform
  obtain ⟨hlen₁, hfresh₁⟩ := hunused first.tokenId (by simp [Call.uuids])
  obtain ⟨hlen₂, hfresh₂⟩ := hunused second.tokenId (by simp [Call.uuids])
  rw [Condition]
  rcases hcase with ⟨hrenewal, rfl, rfl⟩ | ⟨hrenewal, user₁, d₁, d₂, huser₁, huser, rfl⟩
  · -- nothing was stored
    rw [if_neg (by rw [hrenewal]; exact Bool.false_ne_true)]
    have hvalid : (validateUser s.user (newToken cfg s.user current.data second)).isSome = true ↔
        (s.user.refreshTokens.get? current.deviceId).isSome = true ∧
          (recentTokenId cfg s.user.tempTokens current.deviceId second.checkedAt).isSome =
            true := by
      rw [validateUser_isSome, newToken, device_data htruthy]
      dsimp only
      cases hrecent : recentTokenId cfg s.user.tempTokens current.deviceId second.checkedAt with
      | none =>
          refine iff_of_false ?_ (fun hc => Bool.false_ne_true hc.2)
          rintro ⟨_, _, e, he, heq⟩
          rw [Option.getD_none] at heq
          exact hfresh₂ (heq ▸ hs.tables.refresh _ e he)
      | some t =>
          obtain ⟨ht, temp, htemp, rfl⟩ := recentTokenId_some hrecent
          constructor
          · rintro ⟨_, _, e, he, _⟩
            rw [he]
            exact ⟨rfl, rfl⟩
          · rintro ⟨hsome, _⟩
            obtain ⟨e, he⟩ := Option.isSome_iff_exists.mp hsome
            exact ⟨rfl, ht, e, he, (hs.tables.same _ e temp he htemp).symm⟩
    constructor
    · intro hlawful
      exact hvalid.mp (hlawful.returned _ rfl)
    · intro hc
      exact ⟨fun t ht => Option.some.inj ht ▸ hvalid.mpr hc, hl.revoked⟩
  · rw [if_pos hrenewal]
    by_cases hd : current.deviceId = "__proto__"
    · refine iff_of_false ?_ (fun hc => hc.1 hd)
      intro hlawful
      have hreturned := hlawful.returned _ rfl
      have hproto₁ : user₁.refreshTokens.get? "__proto__" = none := by
        rw [huser₁, hd, AuthUser.setToken, assign, if_pos rfl]
        exact hs.tables.proto
      dsimp only at hreturned
      rw [huser, hd] at hreturned
      exact proto_invalid hproto₁ (hd ▸ device_data htruthy second.deviceId) hreturned
    · have hdevice := device_data htruthy second.deviceId
      have hvalid := (newToken_valid cfg user₁ current.data d₂ second.storedAt hlen₂).resolve_right
          (hdevice ▸ hd)
      rw [hdevice] at hvalid
      have hother : ∀ t : JwtPayload, t.deviceId ≠ current.deviceId →
          ((validateUser user₁ t).isSome = true ↔ (validateUser s.user t).isSome = true) := by
        intro t ht
        rw [huser₁]
        exact isSome_setToken_of_ne ht
      have hrevoked := revoked_setToken hs hl user₁ (by rw [huser₁]; rfl) d₂ second.storedAt hd
        (newToken_truthy cfg user₁ current.data hlen₂) hother
      have hstored := renewed_revoked cfg hs d₁ htruthy hd hlen₁ hfresh₁ hfresh₂
      rw [← huser₁] at hstored
      subst huser
      constructor
      · intro hlawful
        exact ⟨hd, hstored.mp (hrevoked.mp hlawful.revoked)⟩
      · rintro ⟨_, hnot⟩
        exact ⟨fun t ht => Option.some.inj ht ▸ hvalid, hrevoked.mpr (hstored.mpr hnot)⟩

theorem lawful_logout (hl : Lawful s) {token : Option JwtPayload} {allDevices : Bool}
    {s' : Session} (h : step cfg s (.logout token allDevices) = some s') : Lawful s' := by
  obtain ⟨user, answer, _, hperform, rfl⟩ := step_cases h
  obtain ⟨token, rfl, rfl, rfl⟩ := perform_logout cfg s.user token allDevices hperform
  refine ⟨by rintro t ⟨⟩, ?_⟩
  intro t ht
  rw [validateUser_none, validateUser_isSome]
  rintro ⟨hid, htruthy, e, he, heq⟩
  have hall : allDevices = false := by
    cases allDevices with
    | false => rfl
    | true => cases he
  subst hall
  rw [if_neg Bool.false_ne_true] at he
  by_cases hd : t.deviceId = token.deviceId
  · rw [hd, OrderedMap.get?_delete_self] at he
    cases he
  · -- the entry of another device was there before
    rw [OrderedMap.get?_delete_of_ne _ hd] at he
    rcases List.mem_append.mp ht with ht | ht
    · have := (List.mem_filter.mp ht).2
      rw [Bool.false_or, beq_iff_eq] at this
      exact hd this
    · exact validateUser_none.mp (hl.revoked t ht)
        (validateUser_isSome.mpr ⟨hid, htruthy, e, he, heq⟩)

theorem lawful_step (hs : Consistent s) (hl : Lawful s) {call : Call} {s' : Session}
    (h : step cfg s call = some s') : Lawful s' ↔ Condition cfg s call := by
  cases call with
  | signIn credentials data r => exact lawful_signIn hs hl h
  | refreshTokens token first second => exact lawful_refreshTokens hs hl h
  | logout token allDevices => exact iff_of_true (lawful_logout hl h) trivial

end Law

/-- The law holds in every state of a run exactly if all its calls meet the
    condition. -/
theorem always_lawful_iff (calls : List Call) (s t : Session) (hs : Consistent s) (hl : Lawful s)
    (hr : Runs.run (step cfg) s calls = some t) :
    Runs.Always (step cfg) Lawful s calls ↔ Runs.Meets (step cfg) (Condition cfg) s calls :=
  Runs.always_iff (step cfg) (fun _ _ _ hs h => hs.step h)
    (fun _ _ _ hs hl h => lawful_step hs hl h) calls s t hs hl hr

/-- A user who has just been created. -/
theorem consistent_new (id : String) : Consistent { user := { id := id } } where
  tables  := ⟨by rintro d e t ⟨⟩, by rintro d e ⟨⟩, by rintro d t ⟨⟩, rfl⟩
  issued  := by rintro t ⟨⟩
  revoked := List.Subset.refl _

theorem lawful_new (id : String) : Lawful { user := { id := id } } where
  returned := by rintro t ⟨⟩
  revoked  := by rintro t ⟨⟩

/-- The readings of a call at a time; the last digit tells its UUIDs apart. -/
def readingAt (now : Int) (digit : Char) : Reading where
  checkedAt := now
  storedAt  := now
  deviceId  := "6f1c2b4e-0000-4000-8000-00000000000".push digit
  tokenId   := "9d3a7e50-0000-4000-8000-00000000000".push digit

def phone : DeviceData := { deviceId := some "phone" }

/-- A token of the phone; only its device is read. -/
def phoneToken : JwtPayload := { id := "u1", deviceId := "phone", tokenId := "" }

/-- Sign in, refresh with renewal, log out, and sign in again after the period. -/
theorem always_lawful_phone :
    Runs.Always (step { renewal := true, sameTokenIdPeriod := 2000 }) Lawful
      { user := { id := "u1" } }
      [.signIn (.ok ()) phone (readingAt 0 '1'),
        .refreshTokens (some phoneToken) (readingAt 10 '2') (readingAt 20 '3'),
        .logout (some phoneToken) false,
        .signIn (.ok ()) phone (readingAt 5000 '4')] := by
  obtain ⟨t, ht⟩ := Option.isSome_iff_exists.mp
    (show (Runs.run (step { renewal := true, sameTokenIdPeriod := 2000 }) { user := { id := "u1" } }
      [.signIn (.ok ()) phone (readingAt 0 '1'),
        .refreshTokens (some phoneToken) (readingAt 10 '2') (readingAt 20 '3'),
        .logout (some phoneToken) false,
        .signIn (.ok ()) phone (readingAt 5000 '4')]).isSome = true by decide)
  exact (always_lawful_iff _ _ _ t (consistent_new "u1") (lawful_new "u1") ht).mpr (by decide)

/-- Without renewal a refresh returns a token that was never stored; and a
    sign-in right after a logout makes the old token valid again. -/
theorem law_broken :
    (∃ t, Runs.run (step { renewal := false, sameTokenIdPeriod := 0 }) { user := { id := "u1" } }
        [.signIn (.ok ()) phone (readingAt 0 '1'),
          .refreshTokens (some phoneToken) (readingAt 10 '2') (readingAt 20 '3')] = some t ∧
        ∃ token, t.returned = some token ∧ validateUser t.user token = none) ∧
      ∃ t, Runs.run (step { renewal := true, sameTokenIdPeriod := 2000 }) { user := { id := "u1" } }
        [.signIn (.ok ()) phone (readingAt 0 '1'),
          .logout (some phoneToken) false,
          .signIn (.ok ()) phone (readingAt 1000 '2')] = some t ∧
        ∃ token ∈ t.revoked, (validateUser t.user token).isSome = true := by
  refine ⟨⟨_, rfl, _, rfl, by decide⟩, _, rfl, ?_⟩
  decide

end CoreAuth
