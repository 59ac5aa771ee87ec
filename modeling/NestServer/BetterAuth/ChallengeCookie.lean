import NestServer.BetterAuth.Challenges
import NestServer.BetterAuth.SessionInjection

/-! # The cookie of a challenge

    The token of a challenge is taken out of the cookie that Better-Auth sets, and signed
    and sent again when the client comes back without the cookie.  Better-Auth reads
    what it has set, whatever cookies the client sends along. -/

namespace PasskeyChallenges

open UriComponent WebHelper

variable {hmac : Text → Text → Text} {COOKIE_PREFIX : Option Text}
  {cookieName secret token : Text} {cookies : List Cookie}

/-- The cookie is put into the headers of the request. -/
def injectChallenge (hmac : Text → Text → Text) (cookieName secret : Text) (req : Request)
    (verificationToken : Text) : Except CookieError Request :=
  (signCookieValue hmac verificationToken secret false).map fun signedToken =>
    { req with
      headers := req.headers.set "cookie".toList
        (.text (appendCookie ((headerText req "cookie").getD []) cookieName signedToken)) }

/-! ## Taking the token out -/

/-- A header that sets the cookie: its value, and attributes. -/
def setCookieHeader (cookieName value attributes : Text) : Text :=
  cookieName ++ '=' :: (value ++ attributes)

theorem sets_setCookieHeader (value attributes : Text) :
    Response.sets cookieName (setCookieHeader cookieName value attributes) = true := by
  rw [Response.sets, List.isPrefixOf_iff_prefix, setCookieHeader]
  exact ⟨value ++ attributes, by simp⟩

/-- What is between the equals sign and the first semicolon. -/
theorem value_setCookieHeader (hname : CookieName cookieName) {value attributes : Text}
    (hvalue : ';' ∉ value ∧ '=' ∉ value)
    (hattributes : attributes = [] ∨ attributes.head? = some ';') :
    ((((setCookieHeader cookieName value attributes).splitOn ';').headD []).splitOn '=')[1]?
      = some value := by
  have hpair : ';' ∉ cookieName ++ '=' :: value := by
    rw [List.mem_append, List.mem_cons, not_or, not_or]
    exact ⟨hname.plain.2, by decide, hvalue.1⟩
  have hsplit : ((setCookieHeader cookieName value attributes).splitOn ';').headD []
      = cookieName ++ '=' :: value := by
    rw [setCookieHeader]
    rcases hattributes with rfl | hhead
    · rw [List.append_nil, List.splitOn_eq_singleton hpair]
      rfl
    · obtain ⟨rest, rfl⟩ : ∃ rest, attributes = ';' :: rest := by
        cases attributes with
        | nil         => cases hhead
        | cons c rest => exact ⟨rest, by rw [Option.some.inj hhead]⟩
      rw [show cookieName ++ '=' :: (value ++ ';' :: rest)
        = (cookieName ++ '=' :: value) ++ ';' :: rest by simp,
        List.splitOn_append_cons_self_of_not_mem hpair]
      rfl
  rw [hsplit, List.splitOn_append_cons_self_of_not_mem hname.plain.1,
    List.splitOn_eq_singleton hvalue.2]
  rfl

/-- What is in front of the first dot is the token if it has none. -/
theorem head?_splitOn_signed (sig : Text) :
    ((token ++ '.' :: sig).splitOn '.').head? = some token ↔ '.' ∉ token := by
  constructor
  · intro h hdot
    obtain ⟨front, back, rfl, hfront⟩ := List.eq_append_cons_of_mem hdot
    rw [List.append_assoc, List.cons_append, List.splitOn_append_cons_self_of_not_mem hfront,
      List.head?_cons] at h
    have hlength := congrArg List.length (Option.some.inj h)
    rw [List.length_append, List.length_cons] at hlength
    omega
  · intro h
    rw [List.splitOn_append_cons_self_of_not_mem h]
    rfl

/-- **The token that is taken out** is the one that was signed, unless there is a dot in it. -/
theorem verificationToken_iff (hname : CookieName cookieName) {r : Response} {attributes : Text}
    {before after : List Text}
    (hset : r.setCookies = before
      ++ setCookieHeader cookieName (signedAs hmac token secret true) attributes :: after)
    (hbefore : ∀ header ∈ before, Response.sets cookieName header = false)
    (hattributes : attributes = [] ∨ attributes.head? = some ';') :
    r.verificationToken cookieName = .ok (some token) ↔ '.' ∉ token := by
  have hvalue : ';' ∉ signedAs hmac token secret true ∧ '=' ∉ signedAs hmac token secret true := by
    refine ⟨fun hc => (encode_plain _ hc).2 rfl, fun hc => ?_⟩
    rcases mem_encode hc with h | h
    · cases h
    · cases h
  have hfind : r.setCookies.find? (Response.sets cookieName)
      = some (setCookieHeader cookieName (signedAs hmac token secret true) attributes) := by
    rw [hset, List.find?_append, List.find?_eq_none.mpr fun header hheader => by
      rw [hbefore header hheader]; exact Bool.false_ne_true]
    exact List.find?_cons_of_pos (sets_setCookieHeader _ _)
  rw [Response.verificationToken, hfind]
  dsimp only
  rw [value_setCookieHeader hname hvalue hattributes, Option.getD_some, decodeValue,
    show decode (signedAs hmac token secret true) = some (token ++ '.' :: hmac secret token)
      from decode_encode _]
  show Except.ok ((token ++ '.' :: hmac secret token).splitOn '.').head? = Except.ok _ ↔ _
  rw [Except.ok.injEq, head?_splitOn_signed]

/-! ## Sending it again -/

/-- The cookie that is sent. -/
def challengeCookie (hmac : Text → Text → Text) (cookieName secret token : Text) : Cookie :=
  ⟨cookieName, signedAs hmac token secret false⟩

theorem wellFormed_challengeCookie (hname : CookieName cookieName)
    (htoken : ∀ c ∈ token, isTokenChar c = true) (hsig : IsDigest (hmac secret token)) :
    (challengeCookie hmac cookieName secret token).WellFormed where
  name  := hname
  value := by
    have hplain : ∀ c ∈ token ++ '.' :: hmac secret token, JsText.isSpace c = false ∧ c ≠ ';' := by
      intro c hc
      rw [List.mem_append, List.mem_cons] at hc
      rcases hc with hc | rfl | hc
      · exact ⟨isSpace_of_isUnreserved (isUnreserved_of_isTokenChar (htoken c hc)),
          (isTokenChar_ne (htoken c hc)).2.2⟩
      · exact ⟨rfl, by decide⟩
      · refine ⟨?_, fun h => hsig.notMem rfl (by decide) (h ▸ hc)⟩
        rcases hsig.char hc with h | rfl
        · rw [isBase64, Bool.or_eq_true, Bool.or_eq_true, decide_eq_true_eq, decide_eq_true_eq] at h
          rcases h with (h | rfl) | rfl
          · exact isSpace_of_isAlphanumeric h
          · rfl
          · rfl
        · rfl
    exact ⟨trim_plain fun c hc => (hplain c hc).1, fun hc => (hplain _ hc).2 rfl⟩

theorem injectChallenge_carries {req : Request} (hsecret : secret ≠ [])
    (hcookies : ∀ c ∈ cookies, c.WellFormed) (hreq : Carries req cookies) :
    ∃ req', injectChallenge hmac cookieName secret req token = .ok req' ∧
      Carries req' (cookies ++ [challengeCookie hmac cookieName secret token]) := by
  refine ⟨_, by rw [injectChallenge, signCookieValue_eq hsecret]; rfl, ?_⟩
  have hheader : (headerText req "cookie").getD [] = headerOf cookies := by
    by_cases hnil : cookies = []
    · rw [Carries, if_pos hnil] at hreq
      rw [headerText, hreq, hnil]
      rfl
    · rw [Carries, if_neg hnil] at hreq
      rw [headerText, hreq]
      rfl
  rw [Carries, if_neg (List.append_ne_nil_of_right_ne_nil _ (List.cons_ne_nil _ _))]
  show (req.headers.set _ _).get? _ = _
  rw [OrderedMap.get?_set_self, hheader, appendCookie_headerOf hcookies]
  rfl

/-- What is added to a header has a name that is not in its text. -/
theorem added_name {primary header : Text} {options : ToWebRequestOptions} :
    ∀ d ∈ added hmac primary header options,
      (d.name = primary ∧ ¬ includes header (primary ++ ['=']) = true) ∨
        d.name = TOKEN ∧ ¬ includes header (TOKEN ++ ['=']) = true := by
  intro d hd
  rw [added] at hd
  split at hd
  · cases hd
  · next h =>
    rw [not_or, not_or] at h
    rcases List.mem_cons.mp hd with rfl | hd
    · exact .inl ⟨rfl, h.2.1⟩
    · split at hd
      · cases hd
      · next htok => exact .inr ⟨by rw [List.mem_singleton.mp hd], htok⟩

/-- **Better-Auth gets its cookie back.**  Whatever the client sends, the request has the
    cookie that Better-Auth has set, and the cookies of the client are as they were. -/
theorem challenge_cookie_returns {req : Request} {options : ToWebRequestOptions} {r : Response}
    {attributes : Text} {before after : List Text}
    (hname : CookieName cookieName) (hproto : cookieName ≠ "__proto__".toList)
    (hsession : cookieName ≠ primaryName options COOKIE_PREFIX) (hlegacy : cookieName ≠ TOKEN)
    (hhmac : ∀ secret value, IsDigest (hmac secret value))
    (htoken : ∀ c ∈ token, isTokenChar c = true) (hsecret : options.secret ≠ [])
    (hset : r.setCookies = before ++ setCookieHeader cookieName
      (signedAs hmac token options.secret true) attributes :: after)
    (hbefore : ∀ header ∈ before, Response.sets cookieName header = false)
    (hattributes : attributes = [] ∨ attributes.head? = some ';')
    (hbase : ∀ c ∈ options.basePath, isNameChar c = true)
    (hsessionToken : ∀ c ∈ options.sessionToken, isTokenChar c = true)
    (hcookies : ∀ c ∈ cookies, c.WellFormed) (hreq : Carries req cookies) :
    r.verificationToken cookieName = .ok (some token) ∧
      ∃ req', injectChallenge hmac cookieName options.secret req token = .ok req' ∧
        ∀ sent, sent = parseCookieHeader
            ((toWebRequest hmac COOKIE_PREFIX req' options).get? "cookie".toList) →
          sent.get? cookieName = some (valueOf (signedAs hmac token options.secret true)) ∧
          ∀ name, HasCookie cookies name → name ≠ cookieName →
            sent.get? name = (setAll cookies .empty).get? name := by
  refine ⟨(verificationToken_iff hname hset hbefore hattributes).mpr fun hc =>
    (isTokenChar_ne (htoken _ hc)).1 rfl, ?_⟩
  have hsig := hhmac options.secret token
  obtain ⟨req', hinject, hreq'⟩ := @injectChallenge_carries hmac cookieName options.secret token
    cookies req hsecret hcookies hreq
  refine ⟨req', hinject, ?_⟩
  have hchallenge := wellFormed_challengeCookie hname htoken hsig
  have hall : ∀ c ∈ cookies ++ [challengeCookie hmac cookieName options.secret token],
      c.WellFormed := by
    intro c hc
    rcases List.mem_append.mp hc with hc | hc
    · exact hcookies c hc
    · exact List.mem_singleton.mp hc ▸ hchallenge
  have hadded := @wellFormed_added hmac _
    (headerOf (cookies ++ [challengeCookie hmac cookieName options.secret token])) options
    (cookieName_primary hbase COOKIE_PREFIX) hsessionToken
  have hnames := @added_name hmac (primaryName options COOKIE_PREFIX)
    (headerOf (cookies ++ [challengeCookie hmac cookieName options.secret token])) options
  rintro sent rfl
  rw [parseCookieHeader_getD, toWebRequest_cookie hbase hsessionToken hall hreq',
    parseCookieHeader_headerOf (List.forall_mem_append.mpr ⟨hall, hadded⟩), List.append_assoc]
  constructor
  · refine (get?_setAll (c := challengeCookie hmac cookieName options.secret token) ?_ hproto
      _).trans ?_
    · intro d hd
      rcases hnames d hd with ⟨h, -⟩ | ⟨h, -⟩
      · exact h ▸ hsession.symm
      · exact h ▸ hlegacy.symm
    · show some (valueOf (signedAs hmac token options.secret false)) = _
      rw [valueOf, valueOf, decode_signedAs htoken hsig, decode_signedAs htoken hsig]
      rfl
  · rintro name ⟨c, hc, rfl⟩ hne
    have hmem : includes (headerOf (cookies
        ++ [challengeCookie hmac cookieName options.secret token])) (c.name ++ ['=']) = true :=
      includes_name (List.mem_append_left _ hc)
    rw [setAll_append]
    refine get?_setAll_of_notMem fun d hd => ?_
    rcases List.mem_append.mp hd with hd | hd
    · exact List.mem_singleton.mp hd ▸ hne.symm
    · -- what is added, the header does not have
      rintro hname
      rcases hnames d hd with ⟨h, hno⟩ | ⟨h, hno⟩
      · rw [← h, hname] at hno
        exact hno hmem
      · rw [← h, hname] at hno
        exact hno hmem

/-- A client with a cookie of its own, under the names that Better-Auth has by default. -/
theorem challenge_cookie_returns_theme :
    let digest : Text → Text → Text := fun _ _ => someDigest
    let options : ToWebRequestOptions := { basePath := "iam".toList, secret := "s3cret".toList }
    let name := Passkey.absent.getCookieName
    let set := setCookieHeader name (signedAs digest "abc_DEF-123".toList options.secret true)
      "; Path=/; HttpOnly".toList
    let r : Response := { status := 200, setCookies := ["x=y".toList, set], body := .empty }
    ∃ req', injectChallenge digest name options.secret
        { headers := OrderedMap.empty.set "cookie".toList (.text "theme=dark".toList) }
        "abc_DEF-123".toList = .ok req' ∧
      r.verificationToken name = .ok (some "abc_DEF-123".toList) ∧
      (parseCookieHeader ((toWebRequest digest none req' options).get? "cookie".toList)).get? name
        = some (valueOf (signedAs digest "abc_DEF-123".toList options.secret true)) := by
  have hname : ∀ name : Text, name ≠ [] → name.all isNameChar = true → CookieName name :=
    fun name hne hall => cookieName_of_isNameChar hne (List.all_eq_true.mp hall)
  have hcookie : CookieName Passkey.absent.getCookieName :=
    ⟨by decide, rfl, by decide, by decide⟩
  have htheme : (⟨"theme".toList, "dark".toList⟩ : Cookie).WellFormed :=
    ⟨hname _ (List.cons_ne_nil _ _) rfl, ⟨rfl, by decide⟩⟩
  intro digest options name set r
  obtain ⟨htoken, req', hreq', hsent⟩ := @challenge_cookie_returns digest none name
    "abc_DEF-123".toList [⟨"theme".toList, "dark".toList⟩]
    { headers := OrderedMap.empty.set "cookie".toList (.text "theme=dark".toList) } options r
    "; Path=/; HttpOnly".toList ["x=y".toList] [] hcookie (by decide) (by decide) (by decide)
    (fun _ _ => isDigest_someDigest) (List.all_eq_true.mp rfl) (List.cons_ne_nil _ _) rfl
    (by decide) (.inr rfl) (List.all_eq_true.mp rfl) (fun _ hc => by cases hc)
    (fun c hc => List.mem_singleton.mp hc ▸ htheme) rfl
  exact ⟨req', hreq', htoken, (hsent _ rfl).1⟩

end PasskeyChallenges
