import NestServer.SessionLaw
import NestServer.Workers

/-! # Devices of one user

    Each device does its calls one after the other; the awaits of the devices
    alternate in any order.  A device sees and changes only its own entries, but a
    call stores both maps as a whole, from the copy that it has taken: the devices
    do not disturb each other if no call stores from a copy that is behind. -/

namespace CoreAuth

open Workers

variable (cfg : JwtConfig)

/-- What belongs to a device. -/
def view (device : String) (user : AuthUser) : String × Option CoreTokenData × Option TempToken :=
  (user.id, user.refreshTokens.get? device, user.tempTokens.get? device)

/-- A call on a device; a logout logs out no other. -/
def Call.On (device : String) : Call → Prop
  | .signIn _ data r         => data.device r.deviceId = device
  | .refreshTokens token _ _ => ∀ t, token = some t → t.deviceId = device
  | .logout token allDevices => allDevices = false ∧ ∀ t, token = some t → t.deviceId = device

/-! ## A call sees its own device -/

section Sees

variable {cfg} {device : String} {user user' : AuthUser}

theorem view_eq_iff : view device user = view device user' ↔
    user.id = user'.id ∧ user.refreshTokens.get? device = user'.refreshTokens.get? device ∧
      user.tempTokens.get? device = user'.tempTokens.get? device := by
  rw [view, view, Prod.mk.injEq, Prod.mk.injEq]

theorem recentTokenId_congr {a b : TempTokens} (h : a.get? device = b.get? device) (now : Int) :
    recentTokenId cfg a device now = recentTokenId cfg b device now := by
  rw [recentTokenId, recentTokenId, h]

theorem local_createTokens (userId : String) {data : DeviceData} {r : Reading}
    (hd : data.device r.deviceId = device) :
    Promise.Local UserUpdate.apply (view device) (fun a b => a = b ∧ a.deviceId = device)
      (createTokens cfg userId data r) (createTokens cfg userId data r) := by
  rw [createTokens]
  dsimp only
  split
  · exact .ok ⟨rfl, hd⟩
  · refine .get ?_
    intro u u' hu
    simp only [Promise.bind_ok]
    rw [hd, recentTokenId_congr (view_eq_iff.mp hu).2.2]
    exact .ok ⟨rfl, rfl⟩

theorem get?_assign_congr {ν : Type} {a b : OrderedMap String ν} (deviceId : String) (entry : ν)
    (h : a.get? device = b.get? device) :
    (assign a deviceId entry).get? device = (assign b deviceId entry).get? device := by
  rw [assign, assign]
  split
  · exact h
  · by_cases hd : device = deviceId
    · rw [hd, OrderedMap.get?_set_self, OrderedMap.get?_set_self]
    · rw [OrderedMap.get?_set_of_ne _ _ hd, OrderedMap.get?_set_of_ne _ _ hd, h]

theorem view_setToken (h : view device user = view device user') (deviceId : String)
    (description : Option String) (tokenId : String) (now : Int) :
    view device (user.setToken deviceId description tokenId now)
      = view device (user'.setToken deviceId description tokenId now) := by
  obtain ⟨hid, hrefresh, htemp⟩ := view_eq_iff.mp h
  exact view_eq_iff.mpr ⟨hid, get?_assign_congr deviceId _ hrefresh,
    get?_assign_congr deviceId _ htemp⟩

theorem view_apply_maps {u u' : AuthUser} (h : view device user = view device user')
    (hu : view device u = view device u') :
    view device (user.maps.apply u) = view device (user'.maps.apply u') :=
  view_eq_iff.mpr ⟨(view_eq_iff.mp hu).1, (view_eq_iff.mp h).2.1, (view_eq_iff.mp h).2.2⟩

theorem local_updateRefreshToken (h : view device user = view device user')
    {current : Option JwtPayload} (hcurrent : ∀ t, current = some t → t.deviceId = device)
    (new : JwtPayload) (data : Option DeviceData) (now : Int) :
    Promise.Local UserUpdate.apply (view device)
      (fun a b => view device a.1 = view device b.1 ∧ a.2 = b.2)
      (updateRefreshToken cfg user current new data now)
      (updateRefreshToken cfg user' current new data now) := by
  obtain ⟨_, hrefresh, _⟩ := view_eq_iff.mp h
  cases current with
  | none =>
      refine .update (fun u u' hu => ?_) (.ok ⟨view_setToken h _ _ _ _, rfl⟩)
      exact view_apply_maps (view_setToken h _ _ _ _) hu
  | some t =>
      have hd := hcurrent t rfl
      have hhas : has user.refreshTokens t.deviceId = has user'.refreshTokens t.deviceId := by
        rw [has, has, hd, hrefresh]
      rw [updateRefreshToken.eq_def, updateRefreshToken.eq_def]
      dsimp only
      rw [hhas, hd, hrefresh]
      split
      · exact .error _ _
      · split
        · exact .ok ⟨h, rfl⟩
        · refine .update (fun u u' hu => ?_) (.ok ⟨view_setToken h _ _ _ _, rfl⟩)
          exact view_apply_maps (view_setToken h _ _ _ _) hu

theorem local_getResult (h : view device user = view device user') {current : Option JwtPayload}
    (hcurrent : ∀ t, current = some t → t.deviceId = device) {data : DeviceData} {r : Reading}
    (hd : data.device r.deviceId = device) :
    Promise.Local UserUpdate.apply (view device) (fun _ _ => True)
      (getResult cfg user current data r) (getResult cfg user' current data r) := by
  rw [getResult, getResult, (view_eq_iff.mp h).1]
  refine (local_createTokens user'.id hd).bind ?_
  rintro tokens _ ⟨rfl, _⟩
  refine (local_updateRefreshToken h hcurrent tokens (some data) r.storedAt).bind ?_
  intro _ _ _
  exact .ok trivial

/-- A token without a device is refused after its first await. -/
theorem local_refused {current : JwtPayload} (h : ¬ JsText.truthy current.deviceId = true)
    {first second : Reading} :
    Promise.Local UserUpdate.apply (view device) (fun _ _ => True)
      (refreshTokens cfg user (some current) first second)
      (refreshTokens cfg user' (some current) first second) := by
  have hbad : ∀ (u : AuthUser) (new : JwtPayload),
      updateRefreshToken cfg u (some current) new none first.storedAt =
        Promise.fail INVALID_TOKEN := by
    intro u new
    rw [updateRefreshToken.eq_def]
    dsimp only
    rw [Bool.not_eq_true] at h
    rw [h, Bool.not_false, Bool.true_or, if_pos rfl]
  rw [refreshTokens, refreshTokens, createTokens, createTokens]
  simp only [hbad]
  split
  · exact .error _ _
  · exact .get fun _ _ _ => .error _ _

theorem local_refreshTokens (h : view device user = view device user') {token : Option JwtPayload}
    (htoken : ∀ t, token = some t → t.deviceId = device) {first second : Reading} :
    Promise.Local UserUpdate.apply (view device) (fun _ _ => True)
      (refreshTokens cfg user token first second) (refreshTokens cfg user' token first second) := by
  cases token with
  | none => exact .error _ _
  | some current =>
      by_cases htruthy : JsText.truthy current.deviceId = true
      · have hd : ∀ uuid, current.data.device uuid = device := by
          intro uuid
          rw [device_data htruthy, htoken current rfl]
        rw [refreshTokens, refreshTokens, (view_eq_iff.mp h).1]
        refine (local_createTokens user'.id (hd _)).bind ?_
        rintro tokens _ ⟨rfl, _⟩
        refine (local_updateRefreshToken h htoken tokens none first.storedAt).bind ?_
        rintro a b ⟨hab, _⟩
        exact local_getResult hab htoken (hd _)
      · exact local_refused htruthy

theorem local_logout (h : view device user = view device user') {token : Option JwtPayload}
    (htoken : ∀ t, token = some t → t.deviceId = device) :
    Promise.Local UserUpdate.apply (view device) (fun _ _ => True)
      (logout user token false) (logout user' token false) := by
  cases token with
  | none => exact .error _ _
  | some t =>
      have hd := htoken t rfl
      obtain ⟨_, hrefresh, _⟩ := view_eq_iff.mp h
      have hhas : has user.refreshTokens t.deviceId = has user'.refreshTokens t.deviceId := by
        rw [has, has, hd, hrefresh]
      rw [logout.eq_def, logout.eq_def]
      dsimp only
      rw [hhas]
      split
      · exact .error _ _
      · refine .update (fun u u' hu => ?_) (.ok trivial)
        refine view_eq_iff.mpr ⟨(view_eq_iff.mp hu).1, ?_, (view_eq_iff.mp hu).2.2⟩
        dsimp only [UserUpdate.apply]
        rw [hd, OrderedMap.get?_delete_self, OrderedMap.get?_delete_self]

end Sees

/-! ## A call stores its copy outside its device -/

section Stores

variable {cfg} {device : String} {copy user : AuthUser}

/-- The same entries for all other devices. -/
def SameOutside (device : String) (copy user : AuthUser) : Prop :=
  ∀ j, j ≠ device → user.refreshTokens.get? j = copy.refreshTokens.get? j ∧
    user.tempTokens.get? j = copy.tempTokens.get? j

/-- Stored over a document that agrees with the copy, it leaves other devices. -/
def KeepsOthers (device : String) (copy : AuthUser) (data : UserUpdate) : Prop :=
  ∀ j, j ≠ device → ∀ u, view j copy = view j u → view j (data.apply u) = view j u

theorem sameOutside_setToken (h : SameOutside device copy user) (description : Option String)
    (tokenId : String) (now : Int) :
    SameOutside device copy (user.setToken device description tokenId now) := by
  intro j hj
  rw [AuthUser.setToken, get?_assign_of_ne hj, get?_assign_of_ne hj]
  exact h j hj

theorem keepsOthers_maps (h : SameOutside device copy user) :
    KeepsOthers device copy user.maps := by
  intro j hj u hu
  obtain ⟨hrefresh, htemp⟩ := h j hj
  obtain ⟨_, hrefresh', htemp'⟩ := view_eq_iff.mp hu
  exact view_eq_iff.mpr ⟨rfl, hrefresh.trans hrefresh', htemp.trans htemp'⟩

theorem all_createTokens (userId : String) {data : DeviceData} {r : Reading} :
    (createTokens cfg userId data r).All (KeepsOthers device copy)
      (fun t => t.deviceId = data.device r.deviceId) := by
  rw [createTokens]
  dsimp only
  split
  · exact rfl
  · exact fun _ => rfl

theorem all_updateRefreshToken (h : SameOutside device copy user) {current : Option JwtPayload}
    (hcurrent : ∀ t, current = some t → t.deviceId = device) {new : JwtPayload}
    (hnew : current = none → new.deviceId = device) (data : Option DeviceData) (now : Int) :
    (updateRefreshToken cfg user current new data now).All (KeepsOthers device copy)
      (fun a => SameOutside device copy a.1) := by
  cases current with
  | none =>
      have hsame := sameOutside_setToken h (orDescription new.deviceDescription
        (data.bind (·.deviceDescription))) new.tokenId now
      rw [← hnew rfl] at hsame ⊢
      exact ⟨keepsOthers_maps hsame, hsame⟩
  | some t =>
      rw [updateRefreshToken.eq_def]
      dsimp only
      split
      · exact trivial
      · split
        · exact h
        · rw [hcurrent t rfl]
          have hsame := fun description => sameOutside_setToken h description new.tokenId now
          exact ⟨keepsOthers_maps (hsame _), hsame _⟩

theorem all_getResult (h : SameOutside device copy user) {current : Option JwtPayload}
    (hcurrent : ∀ t, current = some t → t.deviceId = device) {data : DeviceData} {r : Reading}
    (hd : current = none → data.device r.deviceId = device) :
    (getResult cfg user current data r).All (KeepsOthers device copy) (fun _ => True) := by
  refine Promise.all_bind (all_createTokens user.id) ?_
  intro tokens htokens
  refine Promise.all_bind (all_updateRefreshToken h hcurrent
    (fun hnone => htokens.trans (hd hnone)) (some data) r.storedAt) ?_
  intro _ _
  exact trivial

theorem all_refreshTokens {token : Option JwtPayload}
    (htoken : ∀ t, token = some t → t.deviceId = device) {first second : Reading} :
    (refreshTokens cfg copy token first second).All (KeepsOthers device copy) (fun _ => True) := by
  have hcopy : SameOutside device copy copy := fun _ _ => ⟨rfl, rfl⟩
  cases token with
  | none => exact trivial
  | some current =>
      refine Promise.all_bind (all_createTokens copy.id) ?_
      intro tokens _
      refine Promise.all_bind (all_updateRefreshToken hcopy htoken (by rintro ⟨⟩) none
        first.storedAt) ?_
      intro updated hupdated
      exact all_getResult hupdated htoken (by rintro ⟨⟩)

theorem all_logout {token : Option JwtPayload}
    (htoken : ∀ t, token = some t → t.deviceId = device) :
    (logout copy token false).All (KeepsOthers device copy) (fun _ => True) := by
  cases token with
  | none => exact trivial
  | some t =>
      rw [logout.eq_def]
      dsimp only
      split
      · exact trivial
      · refine ⟨?_, trivial⟩
        intro j hj u hu
        obtain ⟨_, hrefresh, _⟩ := view_eq_iff.mp hu
        refine view_eq_iff.mpr ⟨rfl, ?_, rfl⟩
        have hne : j ≠ t.deviceId := by
          rw [htoken t rfl]
          exact hj
        exact (OrderedMap.get?_delete_of_ne _ hne).trans hrefresh

end Stores

/-- Calls on a device obey the rules of a worker. -/
theorem disciplined :
    Disciplined UserUpdate.apply (fun call user => Call.start cfg user call) view Call.On := by
  constructor
  · intro device call hon user user' h
    cases call with
    | signIn credentials data r =>
        cases credentials with
        | error e => exact .error e e
        | ok _ => exact (local_getResult h (by rintro t ⟨⟩) hon).bind fun _ _ _ => .ok trivial
    | refreshTokens token first second =>
        exact (local_refreshTokens h hon).bind fun _ _ _ => .ok trivial
    | logout token allDevices =>
        obtain ⟨rfl, hon⟩ := hon
        exact (local_logout h hon).bind fun _ _ _ => .ok trivial
  · intro device call hon copy
    cases call with
    | signIn credentials data r =>
        cases credentials with
        | error e => exact trivial
        | ok _ =>
            have hcopy : SameOutside device copy copy := fun _ _ => ⟨rfl, rfl⟩
            exact Promise.all_bind (all_getResult hcopy (by rintro t ⟨⟩) (fun _ => hon))
              fun _ _ => trivial
    | refreshTokens token first second =>
        exact Promise.all_bind (all_refreshTokens hon) fun _ _ => trivial
    | logout token allDevices =>
        obtain ⟨rfl, hon⟩ := hon
        exact Promise.all_bind (all_logout hon) fun _ _ => trivial

/-! ## The devices together -/

abbrev Devices := State AuthUser UserUpdate (Option JwtPayload) String Call

/-- The device at an index goes on. -/
def moveDevice (s : Devices) (i : Nat) : Option Devices :=
  Workers.move UserUpdate.apply (fun call user => Call.start cfg user call) s i

/-- What the calls leave if nobody else does anything. -/
def aloneOn (calls : List Call) (user : AuthUser) : AuthUser :=
  calls.foldl (fun user call => (call.perform cfg user).1) user

/-- No device is logged out, logged in or given a token by the step of another. -/
def Undisturbed (s : Devices) (i : Nat) : Prop :=
  ∀ w s', s.workers[i]? = some w → moveDevice cfg s i = some s' → ∀ device, device ≠ w.key →
    s'.document.refreshTokens.get? device = s.document.refreshTokens.get? device

/-- A device that stores has taken its copy of the user since the entries of the
    other devices changed last. -/
def CopyUpToDate (s : Devices) (i : Nat) : Prop := UpToDate view s i

/-- One sign-in on each of two devices. -/
def phoneAndTablet : List (String × List Call) :=
  [("phone", [.signIn (.ok ()) phone (readingAt 0 '1')]),
    ("tablet", [.signIn (.ok ()) { deviceId := some "tablet" } (readingAt 0 '2')])]

end CoreAuth
