import NestServer.BetterAuth.Authentication
import NestServer.Moments

/-! # Nobody else

    A request is the user of a credential that it has brought along: of a JWT that verifies
    under a key of the server, or of a session that is in the database and not over at a
    moment while the request is under way.  Sessions that have ended before, and sessions of
    others, do not get on a request. -/

namespace Authentication

open Dialogue Interleaving SessionUserMapper WebHelper

variable {config : Config} {library : Library} {req : Request}

/-! ## What a request brings along -/

variable (config library req) in
/-- The token of the header, but for the JWTs of the other authentication. -/
def bearerOf : Option Text :=
  ((authorization req).map headerToken).filter fun token =>
    !(isJwtLike token && library.isLegacyJwt token)

variable (config library req) in
/-- The tokens by which a session is looked up. -/
def Presents (token : Text) : Prop :=
  bearerOf library req = some token ∨ cookieToken config library req = some token

variable (library req) in
/-- The JWTs that are verified. -/
def PresentsJwt (token : Text) : Prop :=
  bearerOf library req = some token ∨ authorization req = none ∧ jwtFromCookie req = some token

/-! ## The law of a request -/

abbrev Log := History Question Answer

/-- A session has been found, by its token or by Better-Auth. -/
def Found (h : Log) (info : SessionInfo) (user : SessionUser) : Prop :=
  (∃ token, ⟨.session token, some (info, user)⟩ ∈ h) ∨
    ∃ headers, ⟨.api headers, some (info, user)⟩ ∈ h

/-- A credential says that it is this user. -/
def Vouched (h : Log) (user : SessionUser) : Prop :=
  (∃ token payload, ⟨.verify token, some payload⟩ ∈ h ∧ user = payload.user) ∨
    ∃ info, Found h info user

/-- The newest session of a user that a JWT is of. -/
def Newest (h : Log) (userId : String) (info : SessionInfo) (user : SessionUser) : Prop :=
  ⟨.active userId, some (info, some user)⟩ ∈ h

variable (config library) in
/-- What a request asks, and when. -/
def Asked (req : Request) (h : Log) : Question → Prop
  | .verify token  => PresentsJwt library req token
  | .active userId => ∃ token payload, ⟨.verify token, some payload⟩ ∈ h ∧ payload.sub = userId
  | .session token => Presents config library req token
  | .map user      => Vouched h user
  | .api headers   => headers = convertExpressHeaders req.headers

/-- What the fields of a request are from. -/
structure Explained (fields : Fields) (h : Log) : Prop where
  user    : ∀ mapped, fields.user = some mapped → ∃ user, fields.betterAuthUser = some user ∧
    ⟨.map user, some mapped⟩ ∈ h ∧ ∀ info other, fields.betterAuthSession = some (info, other) →
      other = user ∨ Newest h user.id info other
  session : ∀ info other, fields.betterAuthSession = some (info, other) →
    Found h info other ∨ ∃ userId, Newest h userId info other

variable (config library) in
def law : Law Request Question Answer Fields where
  asks     := Asked config library
  fails _ _ := False
  result _ := Explained

/-! ## Histories grow -/

theorem Found.mono {h h' : Log} (hsub : h ⊆ h') {info : SessionInfo} {user : SessionUser}
    (hfound : Found h info user) : Found h' info user := by
  rcases hfound with ⟨token, hmem⟩ | ⟨headers, hmem⟩
  · exact .inl ⟨token, hsub hmem⟩
  · exact .inr ⟨headers, hsub hmem⟩

theorem Vouched.mono {h h' : Log} (hsub : h ⊆ h') {user : SessionUser} (hv : Vouched h user) :
    Vouched h' user := by
  rcases hv with ⟨token, payload, hmem, huser⟩ | ⟨info, hfound⟩
  · exact .inl ⟨token, payload, hsub hmem, huser⟩
  · exact .inr ⟨info, hfound.mono hsub⟩

theorem Explained.mono {h h' : Log} (hsub : h ⊆ h') {fields : Fields} (he : Explained fields h) :
    Explained fields h' where
  user    := by
    intro mapped hmapped
    obtain ⟨user, huser, hmem, hsame⟩ := he.user mapped hmapped
    refine ⟨user, huser, hsub hmem, fun info other hother => ?_⟩
    exact (hsame info other hother).imp_right fun hnewest => hsub hnewest
  session := by
    intro info other hother
    rcases he.session info other hother with hfound | ⟨userId, hnewest⟩
    · exact .inl (hfound.mono hsub)
    · exact .inr ⟨userId, hsub hnewest⟩

theorem Asked.mono {h h' : Log} (hsub : h ⊆ h') {q : Question}
    (hasked : Asked config library req h q) : Asked config library req h' q := by
  cases q with
  | active userId =>
      obtain ⟨token, payload, hmem, hsub'⟩ := hasked
      exact ⟨token, payload, hsub hmem, hsub'⟩
  | map user      => exact Vouched.mono hsub hasked
  | _             => exact hasked

theorem explained_empty (h : Log) : Explained {} h where
  user    := by rintro mapped ⟨⟩
  session := by rintro info other ⟨⟩

theorem subset_grow (h : Log) (x : Exchange Question Answer) : h ⊆ h ++ [x] :=
  List.subset_append_left h [x]

theorem mem_grow (h : Log) (x : Exchange Question Answer) : x ∈ h ++ [x] :=
  List.mem_append_right h List.mem_cons_self

/-! ## The parts of the middleware -/

variable {h : Log}

/-- The user of the fields is mapped. -/
theorem wp_mapUser {fields : Fields} {user : SessionUser} (he : Explained fields h)
    (huser : fields.betterAuthUser = some user)
    (hsame : ∀ info other, fields.betterAuthSession = some (info, other) →
      other = user ∨ Newest h user.id info other) (hv : Vouched h user) :
    wp (Asked config library req) (fun _ => False) (mapUser fields user) Explained h := by
  refine wp_bind (R := fun mapped h' => h' = h ++ [⟨.map user, mapped⟩])
    (wp_query hv fun mapped => rfl) ?_
  rintro mapped _ rfl
  have hsub := subset_grow h ⟨.map user, mapped⟩
  cases mapped with
  | none        => exact wp_pure (he.mono hsub)
  | some mapped =>
      refine wp_pure ⟨?_, (he.mono hsub).session⟩
      rintro _ ⟨⟩
      refine ⟨user, huser, mem_grow h _, fun info other hother => ?_⟩
      exact (hsame info other hother).imp_right fun hnewest => hsub hnewest

theorem wp_byJwt {token : Text} (htoken : PresentsJwt library req token) :
    wp (Asked config library req) (fun _ => False) (byJwt {} token) Explained h := by
  refine wp_bind (R := fun payload h' => h' = h ++ [⟨.verify token, payload⟩])
    (wp_query htoken fun payload => rfl) ?_
  rintro payload _ rfl
  cases payload with
  | none         => exact wp_pure (explained_empty _)
  | some payload =>
      dsimp only
      split
      · exact wp_pure (explained_empty _)
      · have hverified := mem_grow h ⟨.verify token, some payload⟩
        generalize h ++ [⟨.verify token, some payload⟩] = h at hverified
        refine wp_bind (R := fun found h' => h' = h ++ [⟨.active payload.sub, found⟩])
          (wp_query ⟨token, payload, hverified, rfl⟩ fun found => rfl) ?_
        rintro found _ rfl
        have hv : Vouched (h ++ [⟨.active payload.sub, found⟩]) payload.user :=
          .inl ⟨token, payload, subset_grow h _ hverified, rfl⟩
        have hactive := mem_grow h ⟨.active payload.sub, found⟩
        rcases found with _ | ⟨info, _ | other⟩
        · refine wp_mapUser ⟨?_, ?_⟩ rfl ?_ hv
          · rintro mapped ⟨⟩
          · rintro info other ⟨⟩
          · rintro info other ⟨⟩
        · refine wp_mapUser ⟨?_, ?_⟩ rfl ?_ hv
          · rintro mapped ⟨⟩
          · rintro info other ⟨⟩
          · rintro info other ⟨⟩
        · refine wp_mapUser ⟨?_, ?_⟩ rfl ?_ hv
          · rintro mapped ⟨⟩
          · rintro _ _ ⟨⟩
            exact .inr ⟨payload.sub, hactive⟩
          · rintro _ _ ⟨⟩
            exact .inr hactive

theorem wp_bySession {fields : Fields} (hunset : fields.user = none) (he : Explained fields h)
    {found : Option (SessionInfo × SessionUser)}
    (hfound : ∀ info user, found = some (info, user) → Found h info user) :
    wp (Asked config library req) (fun _ => False) (bySession fields found) Explained h := by
  rcases found with _ | ⟨info, user⟩
  · exact wp_pure he
  · have hthis := hfound info user rfl
    refine wp_mapUser ⟨?_, ?_⟩ rfl ?_ (.inr ⟨info, hthis⟩)
    · intro mapped hmapped
      have hnone : fields.user = some mapped := hmapped
      rw [hunset] at hnone
      cases hnone
    · rintro _ _ ⟨⟩
      exact .inl hthis
    · rintro _ _ ⟨⟩
      exact .inl rfl

theorem bearerOf_eq {authHeader : Text} (hauth : authorization req = some authHeader)
    (hlegacy : ¬ (isJwtLike (headerToken authHeader)
      && library.isLegacyJwt (headerToken authHeader)) = true) :
    bearerOf library req = some (headerToken authHeader) := by
  rw [bearerOf, hauth, Option.map_some, Option.filter_some, Bool.eq_false_iff.mpr hlegacy]
  rfl

theorem wp_byHeader {authHeader : Text} (hauth : authorization req = some authHeader) :
    wp (Asked config library req) (fun _ => False) (byHeader config library authHeader) Explained
      h := by
  rw [byHeader]
  split
  · exact wp_pure (explained_empty _)
  · next hlegacy =>
    have hbearer := bearerOf_eq hauth hlegacy
    refine wp_bind (R := Explained) ?_ fun fields h' he => ?_
    · rw [byBearerJwt]
      split
      · exact wp_byJwt (.inl hbearer)
      · exact wp_pure (explained_empty _)
    · split
      · exact wp_pure he
      · next hunset =>
        rw [Option.not_isSome_iff_eq_none] at hunset
        refine wp_bind (R := fun found h'' =>
          h'' = h' ++ [⟨.session (headerToken authHeader), found⟩])
          (wp_query (.inl hbearer) fun found => rfl) ?_
        rintro found _ rfl
        refine wp_bySession hunset (he.mono (subset_grow h' _)) ?_
        rintro info user rfl
        exact .inl ⟨_, mem_grow h' _⟩

theorem wp_byToken :
    wp (Asked config library req) (fun _ => False) (byToken config library req) Explained h := by
  rw [byToken]
  split
  · next authHeader hauth => exact wp_byHeader hauth
  · next hauth =>
    rw [byJwtCookie]
    split
    · split
      · exact wp_pure (explained_empty _)
      · next token htoken =>
        split
        · exact wp_byJwt (.inr ⟨hauth, htoken⟩)
        · exact wp_pure (explained_empty _)
    · exact wp_pure (explained_empty _)

/-- What is found is in the history, which has only grown. -/
theorem wp_getSession :
    wp (Asked config library req) (fun _ => False) (getSession config library req)
      (fun found h' => h ⊆ h' ∧ ∀ info user, found = some (info, user) → Found h' info user) h := by
  refine wp_bind (R := fun found h' => h ⊆ h' ∧
    ∀ info user, found = some (info, user) → Found h' info user) ?_ ?_
  · rw [byCookie]
    split
    · next token htoken =>
      refine wp_query (.inr htoken) fun found => ⟨subset_grow h _, ?_⟩
      rintro info user rfl
      exact .inl ⟨token, mem_grow h _⟩
    · exact wp_pure ⟨List.Subset.refl h, by rintro info user ⟨⟩⟩
  · rintro found h' ⟨hsub, hfound⟩
    cases found with
    | some found => exact wp_pure ⟨hsub, hfound⟩
    | none       =>
        dsimp only
        split
        · refine wp_query rfl fun found => ⟨List.Subset.trans hsub (subset_grow h' _), ?_⟩
          rintro info user rfl
          exact .inr ⟨_, mem_grow h' _⟩
        · exact wp_pure ⟨hsub, by rintro info user ⟨⟩⟩

/-- **The middleware keeps to its law**, and never fails. -/
theorem wp_use :
    wp (Asked config library req) (fun _ => False) (use config library req) Explained h := by
  rw [use]
  split
  · exact wp_pure (explained_empty _)
  · refine wp_bind wp_byToken fun fields h' he => ?_
    split
    · exact wp_pure he
    · next hunset =>
      rw [Option.not_isSome_iff_eq_none] at hunset
      refine wp_bind wp_getSession ?_
      rintro found h'' ⟨hsub, hfound⟩
      exact wp_bySession hunset (he.mono hsub) hfound

/-! ## What was true when it was told -/

/-- A session that is in the database and not over, and its user. -/
def Stands (store : Store) (info : SessionInfo) (user : SessionUser) : Prop :=
  ∃ doc ∈ store.sessions, doc.isLive store.now = true ∧ info = doc.info ∧
    ∃ userDoc, store.userOf doc = some userDoc ∧ user = userDoc.sessionUser

theorem stands_of_getSessionByToken {store : Store} {token : Text} {info : SessionInfo}
    {user : SessionUser} (h : getSessionByToken config store token = some (info, user)) :
    Stands store info user ∧ info.token = token := by
  rw [getSessionByToken] at h
  split at h
  · cases h
  · split at h
    · cases h
    · next doc hfind =>
      split at h
      · cases h
      · next hlive =>
        obtain ⟨userDoc, huser, hpair⟩ := Option.map_eq_some_iff.mp h
        obtain ⟨rfl, rfl⟩ := Prod.mk.inj hpair
        have htoken := List.find?_some hfind
        rw [decide_eq_true_eq] at htoken
        refine ⟨⟨doc, List.mem_of_find?_eq_some hfind, ?_, rfl, userDoc, huser, rfl⟩, htoken⟩
        rwa [Bool.not_eq_true', Bool.not_eq_false] at hlive

theorem stands_of_getActiveSessionForUser {store : Store} {userId : String} {info : SessionInfo}
    {user : SessionUser}
    (h : getActiveSessionForUser config store userId = some (info, some user)) :
    Stands store info user ∧ info.userId = userId := by
  rw [getActiveSessionForUser] at h
  split at h
  · cases h
  · obtain ⟨doc, hmax, hpair⟩ := Option.map_eq_some_iff.mp h
    obtain ⟨rfl, huser⟩ := Prod.mk.inj hpair
    obtain ⟨userDoc, hof, rfl⟩ := Option.map_eq_some_iff.mp huser
    obtain ⟨hdoc, hkept⟩ := List.mem_filter.mp (List.argmax_mem hmax)
    rw [Bool.and_eq_true, decide_eq_true_eq] at hkept
    refine ⟨⟨doc, hdoc, ?_, rfl, userDoc, hof, rfl⟩, hkept.1⟩
    -- a session that ends later is not over
    have hlater := hkept.2
    rw [SessionDoc.isLive]
    cases hexpires : doc.expiresAt with
    | none           => rfl
    | some expiresAt =>
        rw [hexpires, Option.any_some, decide_eq_true_eq] at hlater
        rw [Option.any_some, Bool.not_eq_true', decide_eq_false_iff_not]
        exact Nat.not_lt.mpr hlater.le

theorem of_mapSessionUser {p : Platform} {cache : UserCache} {now : Nat} {user : SessionUser}
    {answer : Except String (Option DbUser)} {mapped : MappedUser}
    (h : mapSessionUser p cache now user answer = some mapped) :
    mapped.iamId = user.id ∧ mapped.email = user.email := by
  rw [mapSessionUser] at h
  split at h
  · next returned hstarted =>
    rw [startMapping] at hstarted
    split at hstarted
    · cases hstarted
      cases h
    · split at hstarted
      · cases hstarted
        cases h
        exact ⟨rfl, rfl⟩
      · split at hstarted
        · split at hstarted
          · cases hstarted
            cases h
            exact ⟨rfl, rfl⟩
          · cases hstarted
        · cases hstarted
  · rcases answer with _ | _ | dbUser
    · cases h
    · cases h
      exact ⟨rfl, rfl⟩
    · cases h
      exact ⟨rfl, rfl⟩

variable (config library) in
/-- At a moment while the request at an index waited for an answer. -/
def Meanwhile (store : Store) (s : State) (i : Nat) (P : Store → Prop) : Prop :=
  ∃ q m, Waits (system config library) { store := store } s i q m ∧ P m.store

section Told

variable {store : Store} {s : State} {i : Nat}

theorem told_verify {token : Text} {payload : JwtPayload}
    (h : Told (system config library) { store := store } s i ⟨.verify token, some payload⟩) :
    Meanwhile config library store s i fun store =>
      verifyJwtToken config library store token = some payload := by
  obtain ⟨m, hwaits, choice, _, hexec⟩ := h
  refine ⟨_, m, hwaits, ?_⟩
  obtain ⟨hanswer, -⟩ := Prod.mk.inj (Option.some.inj hexec)
  split at hanswer
  · cases hanswer
  · exact hanswer

theorem told_session {token : Text} {info : SessionInfo} {user : SessionUser}
    (h : Told (system config library) { store := store } s i ⟨.session token, some (info, user)⟩) :
    Meanwhile config library store s i fun store =>
      Stands store info user ∧ info.token = token := by
  obtain ⟨m, hwaits, choice, _, hexec⟩ := h
  refine ⟨_, m, hwaits, ?_⟩
  obtain ⟨hanswer, -⟩ := Prod.mk.inj (Option.some.inj hexec)
  split at hanswer
  · cases hanswer
  · exact stands_of_getSessionByToken hanswer

theorem told_active {userId : String} {info : SessionInfo} {user : SessionUser}
    (h : Told (system config library) { store := store } s i
      ⟨.active userId, some (info, some user)⟩) :
    Meanwhile config library store s i fun store =>
      Stands store info user ∧ info.userId = userId := by
  obtain ⟨m, hwaits, choice, _, hexec⟩ := h
  refine ⟨_, m, hwaits, ?_⟩
  obtain ⟨hanswer, -⟩ := Prod.mk.inj (Option.some.inj hexec)
  split at hanswer
  · cases hanswer
  · exact stands_of_getActiveSessionForUser hanswer

theorem told_api {headers : Headers} {info : SessionInfo} {user : SessionUser}
    (h : Told (system config library) { store := store } s i ⟨.api headers, some (info, user)⟩) :
    Meanwhile config library store s i fun store =>
      library.getSession store headers = some (info, user) := by
  obtain ⟨m, hwaits, choice, _, hexec⟩ := h
  refine ⟨_, m, hwaits, ?_⟩
  obtain ⟨hanswer, -⟩ := Prod.mk.inj (Option.some.inj hexec)
  split at hanswer
  · cases hanswer
  · exact hanswer

theorem told_map {user : SessionUser} {mapped : MappedUser}
    (h : Told (system config library) { store := store } s i ⟨.map user, some mapped⟩) :
    mapped.iamId = user.id ∧ mapped.email = user.email := by
  obtain ⟨m, _, choice, _, hexec⟩ := h
  obtain ⟨hanswer, -⟩ := Prod.mk.inj (Option.some.inj hexec)
  exact of_mapSessionUser hanswer

theorem Meanwhile.imp {P P' : Store → Prop} (hP : ∀ store, P store → P' store)
    (h : Meanwhile config library store s i P) : Meanwhile config library store s i P' := by
  obtain ⟨q, m, hwaits, hm⟩ := h
  exact ⟨q, m, hwaits, hP _ hm⟩

end Told

/-! ## Runs -/

variable (config library) in
/-- The request has brought a credential of the user along: a JWT that verifies, or a session. -/
def HasCredential (req : Request) (store : Store) (user : SessionUser) : Prop :=
  (∃ token payload, PresentsJwt library req token ∧
      verifyJwtToken config library store token = some payload ∧ user = payload.user) ∨
    ∃ info, Stands store info user ∧ (Presents config library req info.token ∨
      library.getSession store (convertExpressHeaders req.headers) = some (info, user))

/-- What a request that the middleware has let through is allowed to be. -/
structure Genuine (config : Config) (library : Library) (store : Store) (s : State) (i : Nat)
    (req : Request) (fields : Fields) : Prop where
  /-- its user is the one of a credential that it has brought along, and that was good at a
      moment while it was under way -/
  user    : ∀ mapped, fields.user = some mapped → ∃ user, fields.betterAuthUser = some user ∧
    mapped.iamId = user.id ∧ mapped.email = user.email ∧
    Meanwhile config library store s i fun store => HasCredential config library req store user
  /-- its session was good at such a moment, too -/
  session : ∀ info other, fields.betterAuthSession = some (info, other) →
    Meanwhile config library store s i fun store => Stands store info other
  /-- the two are of one user -/
  one     : ∀ user mapped info other, fields.user = some mapped →
    fields.betterAuthUser = some user → fields.betterAuthSession = some (info, other) →
    other = user ∨ info.userId = user.id

/-- **Who a request is.**  Whatever requests, sign-ins, sign-outs and changes of users and keys
    happen at the same time: no request fails in the middleware, and all that it puts on a
    request is genuine. -/
theorem authenticated (config : Config) (library : Library)
    (hlibrary : ∀ store headers info user,
      library.getSession store headers = some (info, user) → Stands store info user)
    (store : Store) (s : State) (hreach : Reachable (system config library) { store := store } s)
    (i : Nat) (τ : Thread Request Question Answer Fields) (hτ : s.threads[i]? = some τ) :
    (∀ e, τ.program ≠ .failed e) ∧
      ∀ fields, τ.program = .returned fields →
        Genuine config library store s i τ.request fields := by
  have hlawful : Lawful (law config library) τ := by
    exact allLawful_reachable (fun _ => wp_use) (allLawful_nil store) hreach τ
      (List.mem_of_getElem? hτ)
  have htold : ∀ x ∈ τ.said, Told (system config library) { store := store } s i x :=
    fun x hx => told_of_said rfl hreach hτ hx
  have hasked : ∀ x ∈ τ.said, Asked config library τ.request τ.said x.1 := by
    intro x hx
    obtain ⟨before, after, hsaid, hx⟩ := hlawful.said.split hx
    rw [List.nil_append] at hx
    have hsub : before ⊆ τ.said := hsaid ▸ List.subset_append_left _ _
    exact hx.mono hsub
  -- a session that was found was good then, and the request has brought it along
  have hfound : ∀ info user, Found τ.said info user →
      Meanwhile config library store s i fun store => Stands store info user ∧
        (Presents config library τ.request info.token ∨ library.getSession store
          (convertExpressHeaders τ.request.headers) = some (info, user)) := by
    rintro info user (⟨token, hmem⟩ | ⟨headers, hmem⟩)
    · refine (told_session (htold _ hmem)).imp fun _ h => ⟨h.1, .inl ?_⟩
      exact h.2 ▸ hasked _ hmem
    · refine (told_api (htold _ hmem)).imp fun _ h => ⟨hlibrary _ _ _ _ h, .inr ?_⟩
      rwa [show headers = _ from hasked _ hmem] at h
  refine ⟨fun e he => ?_, fun fields hfields => ?_⟩
  · have hnext := hlawful.next
    rw [he] at hnext
    exact wp_failed_iff.mp hnext
  · have hexplained : Explained fields τ.said := hlawful.result hfields
    refine ⟨fun mapped hmapped => ?_, fun info other hother => ?_, ?_⟩
    · obtain ⟨user, huser, hmem, -⟩ := hexplained.user mapped hmapped
      obtain ⟨hid, hemail⟩ := told_map (htold _ hmem)
      refine ⟨user, huser, hid, hemail, ?_⟩
      rcases hasked _ hmem with ⟨token, payload, hverify, rfl⟩ | ⟨info, hinfo⟩
      · refine (told_verify (htold _ hverify)).imp fun _ h => .inl ⟨token, payload, ?_, h, rfl⟩
        exact hasked _ hverify
      · exact (hfound info user hinfo).imp fun _ h => .inr ⟨info, h⟩
    · rcases hexplained.session info other hother with hinfo | ⟨userId, hnewest⟩
      · exact (hfound info other hinfo).imp fun _ h => h.1
      · exact (told_active (htold _ hnewest)).imp fun _ h => h.1
    · intro user mapped info other hmapped huser hother
      obtain ⟨user', huser', -, hsame⟩ := hexplained.user mapped hmapped
      rw [huser] at huser'
      cases huser'
      refine (hsame info other hother).imp_right fun hnewest => ?_
      obtain ⟨_, _, _, h⟩ := told_active (htold _ hnewest)
      exact h.2

/-! ## A sign-out while a request is under way -/

def plainConfig : Config where
  isJwtEnabled := true
  basePath     := "iam".toList
  secret       := "s3cret".toList
  baseUrl      := "http://localhost:3000"

/-- There are no JWTs and no session cookies. -/
def plainLibrary : Library where
  isLegacyJwt _    := false
  isSessionToken _ := true
  jwtHeader _      := none
  jwtVerify _ _ _  := none
  getSession _ _   := none

def oneSession : Store where
  now      := 5
  sessions := [{ id := "s1", token := "tok".toList, userId := "u1", createdAt := 1,
                 expiresAt := some 100 }]
  users    := [{ _id := "u1", email := "a@b.c" }]

def bearerRequest : Request where
  headers := OrderedMap.empty.set "authorization".toList (.text "Bearer tok".toList)

/-- The user that a request is let through with. -/
def userOn : Middleware Fields → Option MappedUser
  | .returned fields => fields.user
  | _                => none

/-- The session ends after it was looked up, and before its user is: the request is let through,
    the next one is not. -/
theorem authenticated_signedOut :
    ∃ s τ fields, Reachable (system plainConfig plainLibrary) { store := oneSession } s ∧
      s.threads.map (fun τ => (userOn τ.program).map MappedUser.id) = [some "u1", none] ∧
      s.threads[0]? = some τ ∧ τ.program = .returned fields ∧
      Genuine plainConfig plainLibrary oneSession s 0 τ.request fields := by
  have hreach : ∃ s, Runs.run (step (system plainConfig plainLibrary)) { store := oneSession }
      [.call bearerRequest, .resume 0 {}, .outside (.signedOut "tok".toList), .resume 0 {},
        .call bearerRequest, .resume 1 {}, .resume 1 {}] = some s ∧
      s.threads.map (fun τ => (userOn τ.program).map MappedUser.id) = [some "u1", none] ∧
      ∃ τ fields, s.threads[0]? = some τ ∧ τ.program = .returned fields :=
    ⟨_, rfl, rfl, _, _, rfl, rfl⟩
  obtain ⟨s, hrun, husers, τ, fields, hτ, hfields⟩ := hreach
  refine ⟨s, τ, fields, ⟨_, hrun⟩, husers, hτ, hfields, ?_⟩
  exact (authenticated plainConfig plainLibrary (by rintro _ _ _ _ ⟨⟩) oneSession s ⟨_, hrun⟩ 0 τ
    hτ).2 fields hfields

end Authentication
