import NestServer.BetterAuth.WebHelper

/-! # Signed cookies

    A signed value is the token, a dot and a base64 digest.  The detector of signed
    values, the encoding and the parser of the header agree on it: the token has no
    dot, the digest is long enough, and an encoded value has nothing that a header
    treats as its own.

    `signed_cookie_round_trip` takes the token back out of the header. -/

namespace WebHelper

open UriComponent

variable {token sig : Text}

/-! ## Characters -/

theorem isSpace_of_isAlphanumeric {c : Char} (h : isAlphanumeric c = true) :
    JsText.isSpace c = false := by
  simp only [isAlphanumeric, Bool.or_eq_true, Bool.and_eq_true, decide_eq_true_eq] at h
  simp only [JsText.isSpace, Bool.or_eq_false_iff, Bool.and_eq_false_iff, decide_eq_false_iff_not,
    beq_eq_false_iff_ne]
  omega

theorem isSpace_of_isUnreserved {c : Char} (h : isUnreserved c = true) :
    JsText.isSpace c = false := by
  rcases Bool.or_eq_true_iff.mp h with h | h
  · exact isSpace_of_isAlphanumeric h
  · have hall : ("-_.!~*'()".toList.all fun c => !JsText.isSpace c) = true := rfl
    simpa using List.all_eq_true.mp hall c (List.contains_iff_mem.mp h)

theorem isUnreserved_of_isTokenChar {c : Char} (h : isTokenChar c = true) :
    isUnreserved c = true := by
  simp only [isTokenChar, Bool.or_eq_true, decide_eq_true_eq] at h
  rcases h with (h | rfl) | rfl
  · rw [isUnreserved, h, Bool.true_or]
  · rfl
  · rfl

/-- The characters of a token are none of those that separate. -/
theorem isTokenChar_ne {c : Char} (h : isTokenChar c = true) : c ≠ '.' ∧ c ≠ '%' ∧ c ≠ ';' := by
  refine ⟨?_, ?_, ?_⟩
  · rintro rfl
    cases h
  · rintro rfl
    cases h
  · rintro rfl
    cases h

/-! ## Digests -/

/-- 43 base64 characters and an equals sign. -/
def IsDigest (sig : Text) : Prop :=
  ∃ body : Text, sig = body ++ ['='] ∧ body.length = 43 ∧ ∀ c ∈ body, isBase64 c = true

theorem IsDigest.char {c : Char} (h : IsDigest sig) (hc : c ∈ sig) : isBase64 c = true ∨ c = '=' := by
  obtain ⟨body, rfl, -, hbody⟩ := h
  rcases List.mem_append.mp hc with hc | hc
  · exact .inl (hbody c hc)
  · exact .inr (List.mem_singleton.mp hc)

theorem IsDigest.notMem {c : Char} (h : IsDigest sig) (hbase : isBase64 c = false) (hc : c ≠ '=') :
    c ∉ sig := by
  intro hmem
  rcases h.char hmem with h | h
  · rw [hbase] at h
    cases h
  · exact hc h

theorem IsDigest.length (h : IsDigest sig) : sig.length = 44 := by
  obtain ⟨body, rfl, hlength, -⟩ := h
  rw [List.length_append, hlength]
  rfl

theorem IsDigest.base64Regex (h : IsDigest sig) : base64Regex sig = true := by
  obtain ⟨body, rfl, hlength, hbody⟩ := h
  have htake : (body ++ ['=']).takeWhile isBase64 = body := by
    rw [List.takeWhile_append_of_pos hbody]
    exact List.append_nil body
  have hdrop : (body ++ ['=']).dropWhile isBase64 = ['='] := by
    rw [List.dropWhile_append_of_pos hbody]
    rfl
  have hne : body ≠ [] := List.ne_nil_of_length_pos (hlength ▸ by decide)
  rw [WebHelper.base64Regex, htake, hdrop]
  simpa using hne

/-! ## Detecting signed values -/

theorem afterLastDot_signed (hsig : '.' ∉ sig) : afterLastDot (token ++ '.' :: sig) = sig := by
  have hall : ∀ c ∈ sig.reverse, decide (c ≠ '.') = true := by
    intro c hc
    refine decide_eq_true ?_
    rintro rfl
    exact hsig (List.mem_reverse.mp hc)
  rw [afterLastDot, List.rtakeWhile, List.reverse_append, List.reverse_cons, List.append_assoc,
    List.takeWhile_append_of_pos hall]
  show (sig.reverse ++ []).reverse = sig
  rw [List.append_nil, List.reverse_reverse]

/-- **A value that decodes to a token and a digest is detected.** -/
theorem isAlreadySigned_of_decode {value : Text} (htoken : ∀ c ∈ token, isTokenChar c = true)
    (hsig : IsDigest sig) (hvalue : value ≠ []) (hdecode : decode value = some (token ++ '.' :: sig)) :
    isAlreadySigned value = true := by
  have hdot : '.' ∉ token := fun h => (isTokenChar_ne (htoken _ h)).1 rfl
  have hdot' : '.' ∉ sig := hsig.notMem rfl (by decide)
  have hcount : (token ++ '.' :: sig).count '.' = 1 := by
    rw [List.count_append, List.count_cons_self, List.count_eq_zero.mpr hdot,
      List.count_eq_zero.mpr hdot']
  rw [isAlreadySigned, if_neg hvalue, hdecode, Option.getD_some]
  simp only [hcount, ne_eq, not_true_eq_false, if_false, afterLastDot_signed hdot', hsig.length,
    hsig.base64Regex]
  rfl

theorem not_isAlreadySigned_token (htoken : ∀ c ∈ token, isTokenChar c = true) :
    isAlreadySigned token = false := by
  have hdot : '.' ∉ token := fun h => (isTokenChar_ne (htoken _ h)).1 rfl
  have hpercent : '%' ∉ token := fun h => (isTokenChar_ne (htoken _ h)).2.1 rfl
  rw [isAlreadySigned]
  split
  · rfl
  · rw [decode_plain hpercent, Option.getD_some]
    simp only [List.count_eq_zero.mpr hdot]
    rfl

/-! ## Encoded values in a header -/

theorem encode_plain {c : Char} (text : Text) (hc : c ∈ encode text) :
    JsText.isSpace c = false ∧ c ≠ ';' := by
  rcases mem_encode hc with h | rfl
  · refine ⟨isSpace_of_isUnreserved h, ?_⟩
    rintro rfl
    cases h
  · exact ⟨rfl, by decide⟩

theorem cookieValue_encode (text : Text) : CookieValue (encode text) where
  trimmed := trim_plain fun _ hc => (encode_plain text hc).1
  plain   := fun hc => (encode_plain text hc).2 rfl

theorem valueOf_encode (text : Text) : valueOf (encode text) = text := by
  rw [valueOf, decode_encode, Option.getD_some]

/-! ## The name of the session cookie -/

/-- A character that does not end a name. -/
def isNameChar (c : Char) : Bool := c ≠ '=' && c ≠ ';' && !JsText.isSpace c

theorem cookieName_of_isNameChar {name : Text} (hne : name ≠ [])
    (h : ∀ c ∈ name, isNameChar c = true) : CookieName name := by
  have hchar : ∀ c ∈ name, c ≠ '=' ∧ c ≠ ';' ∧ JsText.isSpace c = false := by
    intro c hc
    simpa [isNameChar, and_assoc] using h c hc
  exact ⟨hne, trim_plain fun c hc => (hchar c hc).2.2,
    fun hc => (hchar _ hc).1 rfl, fun hc => (hchar _ hc).2.1 rfl⟩

theorem isNameChar_of_isTokenChar {c : Char} (h : isTokenChar c = true) : isNameChar c = true := by
  have heq : c ≠ '=' := by
    rintro rfl
    cases h
  rw [isNameChar, decide_eq_true heq, decide_eq_true (isTokenChar_ne h).2.2,
    isSpace_of_isUnreserved (isUnreserved_of_isTokenChar h)]
  rfl

theorem isNameChar_withoutSlash {path : Text} (h : ∀ c ∈ path, isNameChar c = true) :
    ∀ c ∈ withoutSlash path, isNameChar c = true := by
  intro c hc
  rw [withoutSlash] at hc
  split at hc
  · exact h c (List.mem_of_mem_tail hc)
  · exact h c hc

/-- Both sources of the prefix have characters of a name. -/
theorem isNameChar_cookiePrefix {basePath : Text} (h : ∀ c ∈ basePath, isNameChar c = true)
    (COOKIE_PREFIX : Option Text) :
    ∀ c ∈ resolveBetterAuthCookiePrefix basePath COOKIE_PREFIX, isNameChar c = true := by
  have hpath : ∀ c ∈ (if basePath = [] then "/iam".toList else basePath), isNameChar c = true := by
    split
    · exact List.all_eq_true.mp rfl
    · exact h
  intro c hc
  simp only [resolveBetterAuthCookiePrefix] at hc
  split at hc
  · obtain ⟨d, hd, rfl⟩ := List.mem_map.mp hc
    split
    · rfl
    · exact isNameChar_withoutSlash hpath d hd
  · rcases Bool.or_eq_true_iff.mp (List.mem_filter.mp hc).2 with hchar | hchar
    · exact isNameChar_of_isTokenChar hchar
    · rw [of_decide_eq_true hchar]
      rfl

/-- The session cookie has a name that a cookie can have. -/
theorem cookieName_session {basePath : Text} (h : ∀ c ∈ basePath, isNameChar c = true)
    (COOKIE_PREFIX : Option Text) :
    CookieName (resolveBetterAuthSessionCookieName basePath COOKIE_PREFIX) := by
  refine cookieName_of_isNameChar
    (List.append_ne_nil_of_right_ne_nil _ (List.cons_ne_nil _ _)) fun c hc => ?_
  rcases List.mem_append.mp hc with hc | hc
  · exact isNameChar_cookiePrefix h COOKIE_PREFIX c hc
  · exact List.all_eq_true.mp (show ".session_token".toList.all isNameChar = true from rfl) c hc

theorem session_ne_proto (basePath : Text) (COOKIE_PREFIX : Option Text) :
    resolveBetterAuthSessionCookieName basePath COOKIE_PREFIX ≠ "__proto__".toList := by
  intro h
  have hlength := congrArg List.length h
  rw [resolveBetterAuthSessionCookieName, List.length_append] at hlength
  have hsuffix : ".session_token".toList.length = 14 := rfl
  have hproto : "__proto__".toList.length = 9 := rfl
  omega

/-! ## Signing and reading back -/

section Hmac

variable {hmac : Text → Text → Text} {secret : Text}

/-- The signed token, as it stands in a header or not. -/
def signedAs (hmac : Text → Text → Text) (token secret : Text) (urlEncode : Bool) : Text :=
  if urlEncode then encode (token ++ '.' :: hmac secret token) else token ++ '.' :: hmac secret token

theorem signCookieValue_eq (hsecret : secret ≠ []) (urlEncode : Bool) :
    signCookieValue hmac token secret urlEncode = .ok (signedAs hmac token secret urlEncode) :=
  if_neg hsecret

theorem percent_notMem_signed (htoken : ∀ c ∈ token, isTokenChar c = true) (hsig : IsDigest sig) :
    '%' ∉ token ++ '.' :: sig := by
  rw [List.mem_append, List.mem_cons, not_or, not_or]
  exact ⟨fun h => (isTokenChar_ne (htoken _ h)).2.1 rfl, by decide, hsig.notMem rfl (by decide)⟩

theorem percent_mem_encode_signed (token : Text) (hsig : IsDigest sig) :
    '%' ∈ encode (token ++ '.' :: sig) := by
  obtain ⟨body, rfl, -⟩ := hsig
  refine percent_mem_encode (c := '=') ?_ rfl
  simp

theorem decode_signedAs (htoken : ∀ c ∈ token, isTokenChar c = true)
    (hsig : IsDigest (hmac secret token)) (urlEncode : Bool) :
    decode (signedAs hmac token secret urlEncode) = some (token ++ '.' :: hmac secret token) := by
  cases urlEncode with
  | true  => exact decode_encode _
  | false => exact decode_plain (percent_notMem_signed htoken hsig)

theorem signedAs_ne_nil (htoken : ∀ c ∈ token, isTokenChar c = true)
    (hsig : IsDigest (hmac secret token)) (urlEncode : Bool) :
    signedAs hmac token secret urlEncode ≠ [] := by
  intro h
  have hdecode := decode_signedAs htoken hsig urlEncode
  rw [h] at hdecode
  exact List.append_ne_nil_of_right_ne_nil token (List.cons_ne_nil _ _)
    (Option.some.inj hdecode).symm

theorem isAlreadySigned_signedAs (htoken : ∀ c ∈ token, isTokenChar c = true)
    (hsig : IsDigest (hmac secret token)) (urlEncode : Bool) :
    isAlreadySigned (signedAs hmac token secret urlEncode) = true :=
  isAlreadySigned_of_decode htoken hsig (signedAs_ne_nil htoken hsig urlEncode)
    (decode_signedAs htoken hsig urlEncode)

/-- **What is signed is not signed again**: only its encoding is changed. -/
theorem signIfNeeded_signedAs (htoken : ∀ c ∈ token, isTokenChar c = true)
    (hsig : IsDigest (hmac secret token)) (encoded urlEncode : Bool) :
    signCookieValueIfNeeded hmac (signedAs hmac token secret encoded) secret urlEncode
      = .ok (signedAs hmac token secret urlEncode) := by
  have hplain : (token ++ '.' :: hmac secret token).contains '%' = false := by
    simpa using percent_notMem_signed htoken hsig
  have hencoded : (encode (token ++ '.' :: hmac secret token)).contains '%' = true := by
    simpa using percent_mem_encode_signed token hsig
  rw [signCookieValueIfNeeded, if_pos (isAlreadySigned_signedAs htoken hsig encoded)]
  cases encoded with
  | true =>
      cases urlEncode with
      | true  => simp only [signedAs, if_true, hencoded]
      | false =>
          simp only [signedAs, if_true, hencoded, Bool.false_eq_true, if_false, decodeValue,
            decode_encode]
          rfl
  | false =>
      cases urlEncode with
      | true  => simp only [signedAs, if_true, hplain, Bool.false_eq_true, if_false]
      | false => simp only [signedAs, hplain, Bool.false_eq_true, if_false]

theorem signIfNeeded_token (htoken : ∀ c ∈ token, isTokenChar c = true) (hsecret : secret ≠ [])
    (urlEncode : Bool) : signCookieValueIfNeeded hmac token secret urlEncode
      = .ok (signedAs hmac token secret urlEncode) := by
  rw [signCookieValueIfNeeded, not_isAlreadySigned_token htoken, if_neg Bool.false_ne_true]
  exact signCookieValue_eq hsecret urlEncode

/-- **The token is taken out of the header again**, whatever else is in there. -/
theorem extract_signedAs (htoken : ∀ c ∈ token, isTokenChar c = true)
    (hsig : IsDigest (hmac secret token)) {COOKIE_PREFIX : Option Text} {basePath : Text}
    (hbase : ∀ c ∈ basePath, isNameChar c = true) {before after : List Cookie}
    (hbefore : ∀ c ∈ before, c.WellFormed) (hafter : ∀ c ∈ after, c.WellFormed ∧
      c.name ≠ resolveBetterAuthSessionCookieName basePath COOKIE_PREFIX)
    {req : Request} (hcookies : req.cookies = none)
    (hheader : headerText req "cookie" = some (headerOf (before ++
      ⟨resolveBetterAuthSessionCookieName basePath COOKIE_PREFIX,
        signedAs hmac token secret true⟩ :: after))) (isSessionToken : Text → Bool) :
    extractSessionToken isSessionToken COOKIE_PREFIX req basePath true = some token := by
  have hform : ∀ c ∈ before ++ ⟨resolveBetterAuthSessionCookieName basePath COOKIE_PREFIX,
      signedAs hmac token secret true⟩ :: after, c.WellFormed := by
    intro c hc
    rcases List.mem_append.mp hc with hc | hc
    · exact hbefore c hc
    · rcases List.mem_cons.mp hc with rfl | hc
      · exact ⟨cookieName_session hbase COOKIE_PREFIX, cookieValue_encode _⟩
      · exact (hafter c hc).1
  have hfound := @get?_setAll before after
    ⟨resolveBetterAuthSessionCookieName basePath COOKIE_PREFIX, signedAs hmac token secret true⟩
    (fun c hc => (hafter c hc).2) (session_ne_proto basePath COOKIE_PREFIX) .empty
  have hvalue : valueOf (signedAs hmac token secret true) = token ++ '.' :: hmac secret token :=
    valueOf_encode _
  have hsigned : isAlreadySigned (token ++ '.' :: hmac secret token) = true :=
    isAlreadySigned_signedAs htoken hsig false
  have hdot : '.' ∉ token := fun h => (isTokenChar_ne (htoken _ h)).1 rfl
  have htokenOf : tokenOf (setAll (before ++
      ⟨resolveBetterAuthSessionCookieName basePath COOKIE_PREFIX,
        signedAs hmac token secret true⟩ :: after) .empty)
      (resolveBetterAuthSessionCookieName basePath COOKIE_PREFIX) = some token := by
    rw [tokenOf, hfound, hvalue, Option.filter_some,
      if_pos (decide_eq_true (List.append_ne_nil_of_right_ne_nil _ (List.cons_ne_nil _ _))),
      Option.map_some, if_pos hsigned, List.splitOn_append_cons_self_of_not_mem hdot]
    rfl
  rw [extractSessionToken, hcookies, hheader, Option.getD_none, parseCookieHeader_headerOf hform,
    List.findSome?_cons, htokenOf]
  rfl

/-- **Signed session cookies round-trip.** -/
theorem signed_cookie_round_trip (hhmac : ∀ secret value, IsDigest (hmac secret value))
    (htoken : ∀ c ∈ token, isTokenChar c = true) (hsecret : secret ≠ []) :
    isAlreadySigned token = false
      ∧ (∀ urlEncode, ∃ value, signCookieValue hmac token secret urlEncode = .ok value
          ∧ isAlreadySigned value = true)
      ∧ (∀ (isSessionToken : Text → Bool) (COOKIE_PREFIX : Option Text) (req : Request)
          (basePath value : Text) (before after : List Cookie),
          (∀ c ∈ basePath, isNameChar c = true) →
          signCookieValue hmac token secret true = .ok value →
          (∀ c ∈ before ++ after, c.WellFormed ∧
            c.name ≠ resolveBetterAuthSessionCookieName basePath COOKIE_PREFIX) →
          req.cookies = none →
          headerText req "cookie" = some (headerOf (before ++
            ⟨resolveBetterAuthSessionCookieName basePath COOKIE_PREFIX, value⟩ :: after)) →
          extractSessionToken isSessionToken COOKIE_PREFIX req basePath true = some token)
      ∧ ∃ plain, (∀ urlEncode : Bool, signCookieValueIfNeeded hmac token secret urlEncode
            = .ok (if urlEncode then encode plain else plain))
          ∧ ∀ encoded urlEncode : Bool, signCookieValueIfNeeded hmac
              (if encoded then encode plain else plain) secret urlEncode
            = .ok (if urlEncode then encode plain else plain) := by
  refine ⟨not_isAlreadySigned_token htoken, fun urlEncode => ?_, ?_, ?_⟩
  · exact ⟨_, signCookieValue_eq hsecret urlEncode,
      isAlreadySigned_signedAs htoken (hhmac secret token) urlEncode⟩
  · intro isSessionToken COOKIE_PREFIX req basePath value before after hbase hsign hothers hcookies
      hheader
    rw [signCookieValue_eq hsecret] at hsign
    cases hsign
    exact extract_signedAs htoken (hhmac secret token) hbase
      (fun c hc => (hothers c (List.mem_append_left _ hc)).1)
      (fun c hc => hothers c (List.mem_append_right _ hc)) hcookies hheader isSessionToken
  · exact ⟨_, signIfNeeded_token htoken hsecret, signIfNeeded_signedAs htoken (hhmac secret token)⟩

end Hmac

/-- The digest of `abc_DEF-123` under the secret `s3cret`. -/
def someDigest : Text := "ysNgJjOOTWN6xN93NNkO6/4EQrvnXyu2XXA7FIDmAQo=".toList

theorem isDigest_someDigest : IsDigest someDigest :=
  ⟨someDigest.dropLast, rfl, rfl, List.all_eq_true.mp rfl⟩

/-- A session cookie between two others. -/
def someCookies : List Cookie :=
  [⟨"lang".toList, "de".toList⟩, ⟨"iam.session_token".toList,
    signedAs (fun _ _ => someDigest) "abc_DEF-123".toList "s3cret".toList true⟩,
    ⟨"token".toList, "other".toList⟩]

/-- The token is taken out of a header with three cookies. -/
theorem extract_someCookies :
    extractSessionToken (fun _ => true) none
      { headers := OrderedMap.empty.set "cookie".toList (.text (headerOf someCookies)) }
      "iam".toList true = some "abc_DEF-123".toList := by
  have h := @signed_cookie_round_trip "abc_DEF-123".toList (fun _ _ => someDigest)
    "s3cret".toList (fun _ _ => isDigest_someDigest) (List.all_eq_true.mp rfl)
    (List.cons_ne_nil _ _)
  refine h.2.2.1 (fun _ => true) none _ "iam".toList _ [⟨"lang".toList, "de".toList⟩]
    [⟨"token".toList, "other".toList⟩] (List.all_eq_true.mp rfl)
    (signCookieValue_eq (List.cons_ne_nil _ _) true) ?_ rfl rfl
  intro c hc
  have hname : ∀ name : Text, name ≠ [] → name.all isNameChar = true → CookieName name :=
    fun name hne hall => cookieName_of_isNameChar hne (List.all_eq_true.mp hall)
  rcases List.mem_cons.mp hc with rfl | hc
  · exact ⟨⟨hname _ (List.cons_ne_nil _ _) rfl, ⟨rfl, by decide⟩⟩, by decide⟩
  · cases List.mem_singleton.mp hc
    exact ⟨⟨hname _ (List.cons_ne_nil _ _) rfl, ⟨rfl, by decide⟩⟩, by decide⟩

end WebHelper
