import NestServer.BetterAuth.SignedCookies

/-! # The session in a request

    `toWebRequest` adds the session cookie and the legacy `token` cookie to the header
    of a request where they are missing.  Whether they are is asked of the text of the
    header, but the header is read by names: the text `token=` is also part of
    `csrf_token=`, and of the session cookie itself.

    * `toWebRequest_cookies` says which cookies the request carries;
    * `toWebRequest_exact_iff` says when these are the right ones. -/

namespace WebHelper

open UriComponent

variable {hmac : Text → Text → Text} {COOKIE_PREFIX : Option Text} {basePath secret token : Text}
  {cookies : List Cookie}

/-! ## Headers -/

/-- Blanks are white space, so that a trimmed value is set as it is. -/
theorem setHeader_trimmed (headers : Headers) (name : Text) {value : Text} (h : trim value = value) :
    setHeader headers name value = headers.set name value := by
  obtain ⟨hhead, hlast⟩ := trim_eq_self_iff.mp h
  have hblank : ∀ c : Char, JsText.isSpace c = false →
      (decide (c = ' ') || decide (c = '\t') || decide (c = '\n') || decide (c = '\r')) = false := by
    intro c hc
    by_contra hne
    simp only [Bool.not_eq_false, Bool.or_eq_true, decide_eq_true_eq] at hne
    rcases hne with ((rfl | rfl) | rfl) | rfl
    · cases hc
    · cases hc
    · cases hc
    · cases hc
  have hdrop : ∀ (p : Char → Bool), (∀ c, JsText.isSpace c = false → p c = false) →
      (value.dropWhile p).rdropWhile p = value := by
    intro p hp
    have hfront : value.dropWhile p = value := by
      cases value with
      | nil       => rfl
      | cons c cs =>
          exact List.dropWhile_cons_of_neg (Bool.eq_false_iff.mp (hp c (hhead c rfl)))
    rw [hfront, List.rdropWhile_eq_self_iff]
    intro hne
    exact Bool.eq_false_iff.mp (hp _ (hlast _ (List.getLast?_eq_some_getLast hne)))
  rw [setHeader, hdrop _ hblank]

theorem get?_convertHeader_of_ne (headers : Headers) {header : Text × HeaderValue} {name : Text}
    (h : name ≠ header.1) : (convertHeader headers header).get? name = headers.get? name := by
  rw [convertHeader]
  cases header.2 with
  | text value  => exact headers.get?_set_of_ne _ h
  | list values => exact headers.get?_set_of_ne _ h
  | undefined   => rfl

theorem get?_convertHeaders_of_notMem {entries : List (Text × HeaderValue)} {headers : Headers}
    {name : Text} (h : name ∉ entries.map Prod.fst) :
    (entries.foldl convertHeader headers).get? name = headers.get? name := by
  induction entries generalizing headers with
  | nil => rfl
  | cons e entries ih =>
      rw [List.map_cons, List.mem_cons, not_or] at h
      rw [List.foldl_cons, ih h.2, get?_convertHeader_of_ne headers h.1]

/-- Converting keeps a text that is trimmed. -/
theorem get?_convertExpressHeaders {headers : OrderedMap Text HeaderValue} {name value : Text}
    (h : headers.get? name = some (.text value)) (htrim : trim value = value) :
    (convertExpressHeaders headers).get? name = some value := by
  obtain ⟨entries, hnodup⟩ := headers
  obtain ⟨before, after, rfl⟩ := List.append_of_mem (OrderedMap.get?_eq_some_iff.mp h)
  have hafter : name ∉ after.map Prod.fst := by
    rw [List.map_append, List.map_cons, List.nodup_middle, List.nodup_cons] at hnodup
    exact fun hmem => hnodup.1 (List.mem_append_right _ hmem)
  show ((before ++ (name, HeaderValue.text value) :: after).foldl convertHeader .empty).get? name = _
  rw [List.foldl_append, List.foldl_cons, get?_convertHeaders_of_notMem hafter]
  show (setHeader _ name value).get? name = some value
  rw [setHeader_trimmed _ _ htrim, OrderedMap.get?_set_self]

theorem get?_convertExpressHeaders_none {headers : OrderedMap Text HeaderValue} {name : Text}
    (h : headers.get? name = none) : (convertExpressHeaders headers).get? name = none :=
  get?_convertHeaders_of_notMem (OrderedMap.notMem_of_get?_eq_none h)

/-- The request has these cookies in its header, and no header if there are none. -/
def Carries (req : Request) (cookies : List Cookie) : Prop :=
  req.headers.get? "cookie".toList
    = if cookies = [] then none else some (.text (headerOf cookies))

theorem trim_pairs (h : ∀ c ∈ cookies, c.WellFormed) :
    trim (cookies.flatMap fun d => ';' :: ' ' :: d.pair)
      = cookies.flatMap fun d => ';' :: ' ' :: d.pair := by
  induction cookies with
  | nil => rfl
  | cons c cookies ih =>
      obtain ⟨hc, hrest⟩ := List.forall_mem_cons.mp h
      have hne : c.pair ≠ [] := List.append_ne_nil_of_left_ne_nil hc.name.ne _
      have hpair : trim (';' :: ' ' :: c.pair) = ';' :: ' ' :: c.pair := by
        refine trim_eq_self_iff.mpr ⟨fun d hd => ?_, fun d hd => ?_⟩
        · cases hd
          rfl
        · rw [List.getLast?_cons_of_ne_nil (List.cons_ne_nil _ _),
            List.getLast?_cons_of_ne_nil hne] at hd
          exact (trim_eq_self_iff.mp (Cookie.trim_pair hc)).2 d hd
      rw [List.flatMap_cons]
      by_cases hnil : (cookies.flatMap fun d => ';' :: ' ' :: d.pair) = []
      · rw [hnil, List.append_nil]
        exact hpair
      · exact trim_append hpair (List.cons_ne_nil _ _) (ih hrest) hnil

theorem trim_headerOf (h : ∀ c ∈ cookies, c.WellFormed) :
    trim (headerOf cookies) = headerOf cookies := by
  cases cookies with
  | nil => rfl
  | cons c cookies =>
      obtain ⟨hc, hrest⟩ := List.forall_mem_cons.mp h
      rw [headerOf]
      by_cases hnil : (cookies.flatMap fun d => ';' :: ' ' :: d.pair) = []
      · rw [hnil, List.append_nil]
        exact Cookie.trim_pair hc
      · exact trim_append (Cookie.trim_pair hc)
          (List.append_ne_nil_of_left_ne_nil hc.name.ne _) (trim_pairs hrest) hnil

theorem appendCookie_headerOf (h : ∀ c ∈ cookies, c.WellFormed) (name value : Text) :
    appendCookie (headerOf cookies) name value = headerOf (cookies ++ [⟨name, value⟩]) := by
  cases cookies with
  | nil =>
      show [] ++ name ++ '=' :: value = (name ++ '=' :: value) ++ []
      rw [List.nil_append, List.append_nil]
  | cons c cookies =>
      rw [appendCookie, if_neg (headerOf_ne_nil (List.forall_mem_cons.mp h).1), List.cons_append,
        headerOf, headerOf, List.flatMap_append, List.flatMap_singleton, List.append_assoc,
        List.append_assoc, List.append_assoc]
      rfl

/-- The text of the header has every name with its equals sign. -/
theorem includes_name {c : Cookie} (hc : c ∈ cookies) :
    includes (headerOf cookies) (c.name ++ ['=']) = true := by
  have hpair : c.name ++ ['='] <:+: c.pair :=
    ⟨[], c.value, by rw [Cookie.pair, List.nil_append, List.append_assoc]; rfl⟩
  refine decide_eq_true ?_
  cases cookies with
  | nil => cases hc
  | cons d cookies =>
      rcases List.mem_cons.mp hc with rfl | hc
      · exact hpair.trans (List.prefix_append _ _).isInfix
      · obtain ⟨before, after, rfl⟩ := List.append_of_mem hc
        refine hpair.trans ?_
        rw [headerOf, List.flatMap_append, List.flatMap_cons]
        refine ⟨d.pair ++ (before.flatMap fun d => ';' :: ' ' :: d.pair) ++ [';', ' '],
          after.flatMap fun d => ';' :: ' ' :: d.pair, ?_⟩
        simp only [List.append_assoc, List.cons_append, List.nil_append]

/-- The name of the session cookie ends like that of the legacy cookie. -/
theorem includes_token (h : includes (headerOf cookies)
    (resolveBetterAuthSessionCookieName basePath COOKIE_PREFIX ++ ['=']) = true) :
    includes (headerOf cookies) (TOKEN ++ ['=']) = true := by
  refine decide_eq_true (List.IsInfix.trans ?_ (of_decide_eq_true h))
  refine ⟨resolveBetterAuthCookiePrefix basePath COOKIE_PREFIX ++ ".session_".toList, [], ?_⟩
  rw [List.append_nil, resolveBetterAuthSessionCookieName, List.append_assoc, List.append_assoc]
  rfl

/-! ## The cookies of the request -/

/-- What is added to the cookies of a request that has no session cookie, as its text says. -/
def added (hmac : Text → Text → Text) (primary header : Text) (options : ToWebRequestOptions) :
    List Cookie :=
  if options.sessionToken = [] ∨ includes header (primary ++ ['=']) = true
      ∨ options.secret = [] then []
  else
    ⟨primary, signedAs hmac options.sessionToken options.secret true⟩
      :: if includes header (TOKEN ++ ['=']) then [] else [⟨TOKEN, options.sessionToken⟩]

theorem cookieName_token : CookieName TOKEN :=
  cookieName_of_isNameChar (List.cons_ne_nil _ _) (List.all_eq_true.mp rfl)

theorem cookieValue_token (htoken : ∀ c ∈ token, isTokenChar c = true) : CookieValue token where
  trimmed := trim_plain fun c hc =>
    isSpace_of_isUnreserved (isUnreserved_of_isTokenChar (htoken c hc))
  plain   := fun hc => (isTokenChar_ne (htoken _ hc)).2.2 rfl

theorem valueOf_token (htoken : ∀ c ∈ token, isTokenChar c = true) : valueOf token = token := by
  rw [valueOf, decode_plain fun hc => (isTokenChar_ne (htoken _ hc)).2.1 rfl, Option.getD_some]

theorem wellFormed_added {primary header : Text} {options : ToWebRequestOptions}
    (hprimary : CookieName primary) (htoken : ∀ c ∈ options.sessionToken, isTokenChar c = true) :
    ∀ c ∈ added hmac primary header options, c.WellFormed := by
  intro c hc
  rw [added] at hc
  split at hc
  · cases hc
  · rcases List.mem_cons.mp hc with rfl | hc
    · exact ⟨hprimary, cookieValue_encode _⟩
    · split at hc
      · cases hc
      · cases List.mem_singleton.mp hc
        exact ⟨cookieName_token, cookieValue_token htoken⟩

theorem cookieName_primary {options : ToWebRequestOptions}
    (hbase : ∀ c ∈ options.basePath, isNameChar c = true) (COOKIE_PREFIX : Option Text) :
    CookieName (primaryName options COOKIE_PREFIX) := by
  refine cookieName_session ?_ COOKIE_PREFIX
  split
  · exact List.all_eq_true.mp rfl
  · exact hbase

theorem get?_setHeader_headerOf (h : ∀ c ∈ cookies, c.WellFormed) (headers : Headers) (name : Text) :
    ((setHeader headers name (headerOf cookies)).get? name).getD [] = headerOf cookies := by
  rw [setHeader_trimmed _ _ (trim_headerOf h), OrderedMap.get?_set_self]
  rfl

theorem injectSession_cookie {headers : Headers} {options : ToWebRequestOptions}
    (hbase : ∀ c ∈ options.basePath, isNameChar c = true)
    (htoken : ∀ c ∈ options.sessionToken, isTokenChar c = true) (hst : options.sessionToken ≠ [])
    (hcookies : ∀ c ∈ cookies, c.WellFormed)
    (hheaders : (headers.get? "cookie".toList).getD [] = headerOf cookies) :
    ((injectSession hmac COOKIE_PREFIX options headers).get? "cookie".toList).getD []
      = headerOf (cookies
          ++ added hmac (primaryName options COOKIE_PREFIX) (headerOf cookies) options) := by
  have hauth : ((setHeader headers "authorization".toList (bearer options.sessionToken)).get?
      "cookie".toList).getD [] = headerOf cookies := by
    rw [setHeader, OrderedMap.get?_set_of_ne _ _ (by decide), hheaders]
  have hadded := @wellFormed_added hmac _ (headerOf cookies) options
    (cookieName_primary hbase COOKIE_PREFIX) htoken
  have hall := List.forall_mem_append.mpr ⟨hcookies, hadded⟩
  simp only [injectSession]
  rw [hauth]
  by_cases hprimary : includes (headerOf cookies) (primaryName options COOKIE_PREFIX ++ ['=']) = true
  · rw [if_pos hprimary, if_pos (includes_token hprimary), hauth, added,
      if_pos (.inr (.inl hprimary)), List.append_nil]
  · rw [if_neg hprimary]
    by_cases hsecret : options.secret = []
    · rw [signCookieValue, if_pos hsecret, added, if_pos (.inr (.inr hsecret)), List.append_nil]
      exact hauth
    · have hnone : ¬ (options.sessionToken = []
          ∨ includes (headerOf cookies) (primaryName options COOKIE_PREFIX ++ ['=']) = true
          ∨ options.secret = []) := by
        rintro (h | h | h)
        · exact hst h
        · exact hprimary h
        · exact hsecret h
      rw [added, if_neg hnone] at hall ⊢
      rw [signCookieValue_eq hsecret]
      simp only [appendCookie_headerOf hcookies]
      by_cases htok : includes (headerOf cookies) (TOKEN ++ ['=']) = true
      · rw [if_pos htok] at hall ⊢
        rw [if_pos htok]
        exact get?_setHeader_headerOf hall _ _
      · rw [if_neg htok] at hall ⊢
        have hfirst : ∀ c ∈ cookies ++ [⟨primaryName options COOKIE_PREFIX,
            signedAs hmac options.sessionToken options.secret true⟩], c.WellFormed := by
          intro c hc
          refine hall c ?_
          rw [List.mem_append, List.mem_singleton] at hc
          rcases hc with hc | rfl
          · exact List.mem_append_left _ hc
          · exact List.mem_append_right _ List.mem_cons_self
        rw [if_neg htok, appendCookie_headerOf hfirst, List.append_assoc]
        exact get?_setHeader_headerOf hall _ _

/-- **The header that is built** is that of the cookies and of what is added. -/
theorem toWebRequest_cookie {req : Request} {options : ToWebRequestOptions}
    (hbase : ∀ c ∈ options.basePath, isNameChar c = true)
    (htoken : ∀ c ∈ options.sessionToken, isTokenChar c = true)
    (hcookies : ∀ c ∈ cookies, c.WellFormed) (hreq : Carries req cookies) :
    ((toWebRequest hmac COOKIE_PREFIX req options).get? "cookie".toList).getD []
      = headerOf (cookies
          ++ added hmac (primaryName options COOKIE_PREFIX) (headerOf cookies) options) := by
  have hconvert : ((convertExpressHeaders req.headers).get? "cookie".toList).getD []
      = headerOf cookies := by
    by_cases hnil : cookies = []
    · rw [Carries, if_pos hnil] at hreq
      rw [get?_convertExpressHeaders_none hreq, hnil]
      rfl
    · rw [Carries, if_neg hnil] at hreq
      rw [get?_convertExpressHeaders hreq (trim_headerOf hcookies), Option.getD_some]
  rw [toWebRequest]
  by_cases hst : options.sessionToken = []
  · rw [if_pos hst, added, if_pos (.inl hst), List.append_nil, hconvert]
  · rw [if_neg hst, injectSession_cookie hbase htoken hst hcookies hconvert]

/-! ## When the cookies are the right ones -/

/-- The value of an incoming cookie. -/
def incoming (cookies : List Cookie) (name : Text) : Option Text :=
  (cookies.find? fun c => c.name = name).map fun c => valueOf c.value

/-- What stands in for a cookie that did not come in. -/
def substitute (hmac : Text → Text → Text) (primary : Text) (options : ToWebRequestOptions)
    (name : Text) : Option Text :=
  if name = primary then some (signedAs hmac options.sessionToken options.secret false)
  else if name = TOKEN then some options.sessionToken
  else none

/-- The request carries every incoming cookie, the session and the legacy cookie, and nothing
    else. -/
def Exact (hmac : Text → Text → Text) (COOKIE_PREFIX : Option Text) (req : Request)
    (options : ToWebRequestOptions) (cookies : List Cookie) : Prop :=
  ∀ name, (parseCookieHeader
      ((toWebRequest hmac COOKIE_PREFIX req options).get? "cookie".toList)).get? name
    = (incoming cookies name).or (substitute hmac (primaryName options COOKIE_PREFIX) options name)

def HasCookie (cookies : List Cookie) (name : Text) : Prop := ∃ c ∈ cookies, c.name = name

theorem incoming_eq_none_iff {name : Text} : incoming cookies name = none ↔ ¬ HasCookie cookies name := by
  rw [incoming, Option.map_eq_none_iff, List.find?_eq_none]
  simp [HasCookie]

theorem incoming_append (cookies more : List Cookie) (name : Text) :
    incoming (cookies ++ more) name = (incoming cookies name).or (incoming more name) := by
  rw [incoming, List.find?_append, Option.map_or]
  rfl

/-- The cookies of a header with different names, one by one. -/
theorem get?_setAll_incoming (hnodup : (cookies.map Cookie.name).Nodup) (name : Text) :
    (setAll cookies .empty).get? name
      = if name = "__proto__".toList then none else incoming cookies name := by
  by_cases hproto : name = "__proto__".toList
  · rw [if_pos hproto, hproto, get?_setAll_proto]
    rfl
  · rw [if_neg hproto]
    by_cases hhas : HasCookie cookies name
    · obtain ⟨c, hc, rfl⟩ := hhas
      obtain ⟨before, after, rfl⟩ := List.append_of_mem hc
      rw [List.map_append, List.map_cons, List.nodup_middle, List.nodup_cons] at hnodup
      have hbefore : incoming before c.name = none := by
        rw [incoming_eq_none_iff]
        rintro ⟨d, hd, hname⟩
        exact hnodup.1 (List.mem_append_left _ (List.mem_map.mpr ⟨d, hd, hname⟩))
      have hafter : ∀ d ∈ after, d.name ≠ c.name := fun d hd hname =>
        hnodup.1 (List.mem_append_right _ (List.mem_map.mpr ⟨d, hd, hname⟩))
      rw [get?_setAll hafter hproto, incoming_append, hbefore, Option.none_or, incoming,
        List.find?_cons_of_pos (by simp), Option.map_some]
    · have hne : ∀ c ∈ cookies, c.name ≠ name := fun c hc hname => hhas ⟨c, hc, hname⟩
      rw [get?_setAll_of_notMem hne, incoming_eq_none_iff.mpr hhas]
      rfl

theorem incoming_of_has {more : List Cookie} {name : Text} {f : Text → Option Text}
    (hmore : ∀ c ∈ more, f c.name = some (valueOf c.value)) (h : HasCookie more name) :
    incoming more name = f name := by
  obtain ⟨c, hc⟩ := Option.ne_none_iff_exists'.mp fun hnone => incoming_eq_none_iff.mp hnone h
  rw [hc]
  obtain ⟨d, hd, rfl⟩ := Option.map_eq_some_iff.mp hc
  have hname : d.name = name := by simpa using List.find?_some hd
  rw [← hname, hmore d (List.mem_of_find?_eq_some hd)]

theorem substitute_eq_none {primary : Text} {options : ToWebRequestOptions} {name : Text}
    (hprimary : name ≠ primary) (htoken : name ≠ TOKEN) :
    substitute hmac primary options name = none := by
  rw [substitute, if_neg hprimary, if_neg htoken]

theorem primaryName_ne (options : ToWebRequestOptions) (COOKIE_PREFIX : Option Text) :
    primaryName options COOKIE_PREFIX ≠ "__proto__".toList
      ∧ primaryName options COOKIE_PREFIX ≠ TOKEN := by
  refine ⟨session_ne_proto _ _, fun h => ?_⟩
  have hlength := congrArg List.length h
  rw [primaryName, resolveBetterAuthSessionCookieName, List.length_append] at hlength
  have hsuffix : ".session_token".toList.length = 14 := rfl
  have htoken : TOKEN.length = 5 := rfl
  omega

/-- Cookies with what was added are the right ones where nothing is missing any more. -/
theorem lookup_iff {more : List Cookie} {primary : Text} {options : ToWebRequestOptions}
    (hne : primary ≠ "__proto__".toList ∧ primary ≠ TOKEN)
    (hmore : ∀ c ∈ more, substitute hmac primary options c.name = some (valueOf c.value)) :
    (∀ name, (if name = "__proto__".toList then none
          else (incoming cookies name).or (incoming more name))
        = (incoming cookies name).or (substitute hmac primary options name))
      ↔ ¬ HasCookie cookies "__proto__".toList ∧ (HasCookie cookies primary ∨ HasCookie more primary)
        ∧ (HasCookie cookies TOKEN ∨ HasCookie more TOKEN) := by
  have hproto : substitute hmac primary options "__proto__".toList = none :=
    substitute_eq_none hne.1.symm (by decide)
  have hprimary : substitute hmac primary options primary ≠ none := by
    rw [substitute, if_pos rfl]
    exact Option.some_ne_none _
  have htoken : substitute hmac primary options TOKEN ≠ none := by
    rw [substitute, if_neg hne.2.symm, if_pos rfl]
    exact Option.some_ne_none _
  constructor
  · intro h
    have hthere : ∀ name, name ≠ "__proto__".toList → substitute hmac primary options name ≠ none →
        HasCookie cookies name ∨ HasCookie more name := by
      intro name hname hsubst
      by_contra hnone
      rw [not_or] at hnone
      have heq := h name
      rw [if_neg hname, incoming_eq_none_iff.mpr hnone.1, incoming_eq_none_iff.mpr hnone.2,
        Option.none_or, Option.none_or] at heq
      exact hsubst heq.symm
    refine ⟨?_, hthere primary hne.1 hprimary, hthere TOKEN (by decide) htoken⟩
    have heq := h "__proto__".toList
    rw [if_pos rfl, hproto, Option.or_none] at heq
    exact incoming_eq_none_iff.mp heq.symm
  · rintro ⟨hnoProto, hasPrimary, hasToken⟩ name
    by_cases hname : name = "__proto__".toList
    · rw [if_pos hname, hname, incoming_eq_none_iff.mpr hnoProto, hproto]
      rfl
    · rw [if_neg hname]
      by_cases hhas : HasCookie cookies name
      · obtain ⟨v, hv⟩ := Option.ne_none_iff_exists'.mp fun hnone => incoming_eq_none_iff.mp hnone hhas
        rw [hv, Option.some_or, Option.some_or]
      · rw [incoming_eq_none_iff.mpr hhas, Option.none_or, Option.none_or]
        by_cases hmore' : HasCookie more name
        · exact incoming_of_has hmore hmore'
        · rw [incoming_eq_none_iff.mpr hmore', substitute_eq_none]
          · rintro rfl
            exact hasPrimary.elim hhas hmore'
          · rintro rfl
            exact hasToken.elim hhas hmore'

/-- What is added stands in for what is missing. -/
theorem added_substitute {primary header : Text} {options : ToWebRequestOptions}
    (hne : primary ≠ TOKEN) (htoken : ∀ c ∈ options.sessionToken, isTokenChar c = true) :
    ∀ c ∈ added hmac primary header options,
      substitute hmac primary options c.name = some (valueOf c.value) := by
  intro c hc
  rw [added] at hc
  split at hc
  · cases hc
  · rcases List.mem_cons.mp hc with rfl | hc
    · rw [substitute, if_pos rfl]
      exact congrArg some (valueOf_encode _).symm
    · split at hc
      · cases hc
      · cases List.mem_singleton.mp hc
        rw [substitute, if_neg hne.symm, if_pos rfl, valueOf_token htoken]

/-- A name is added only where the header does not have it. -/
theorem nodup_added {primary : Text} {options : ToWebRequestOptions} (hne : primary ≠ TOKEN)
    (hnodup : (cookies.map Cookie.name).Nodup) :
    ((cookies ++ added hmac primary (headerOf cookies) options).map Cookie.name).Nodup := by
  have hnot : ∀ name, ¬ includes (headerOf cookies) (name ++ ['=']) = true →
      name ∉ cookies.map Cookie.name := by
    intro name hincludes hmem
    obtain ⟨c, hc, rfl⟩ := List.mem_map.mp hmem
    exact hincludes (includes_name hc)
  rw [added]
  split
  · rw [List.append_nil]
    exact hnodup
  · rename_i hnone
    have hprimary := hnot primary fun h => hnone (.inr (.inl h))
    rw [List.map_append, List.map_cons, List.nodup_append]
    split
    · refine ⟨hnodup, List.nodup_singleton _, fun a ha b hb => ?_⟩
      cases List.mem_singleton.mp hb
      rintro rfl
      exact hprimary ha
    · rename_i htoken
      refine ⟨hnodup, ?_, fun a ha b hb => ?_⟩
      · simpa using hne
      · rcases List.mem_cons.mp hb with rfl | hb
        · rintro rfl
          exact hprimary ha
        · cases List.mem_singleton.mp hb
          rintro rfl
          exact hnot TOKEN htoken ha

theorem has_added_primary {primary header : Text} {options : ToWebRequestOptions} :
    HasCookie (added hmac primary header options) primary ↔ ¬ (options.sessionToken = []
      ∨ includes header (primary ++ ['=']) = true ∨ options.secret = []) := by
  rw [added]
  split
  · rename_i h
    exact iff_of_false (fun ⟨c, hc, _⟩ => by cases hc) (not_not_intro h)
  · rename_i h
    exact iff_of_true ⟨_, List.mem_cons_self, rfl⟩ h

theorem has_added_token {primary header : Text} {options : ToWebRequestOptions}
    (hne : primary ≠ TOKEN) :
    HasCookie (added hmac primary header options) TOKEN ↔ ¬ (options.sessionToken = []
        ∨ includes header (primary ++ ['=']) = true ∨ options.secret = [])
      ∧ ¬ includes header (TOKEN ++ ['=']) = true := by
  rw [added]
  split
  · rename_i h
    exact iff_of_false (fun ⟨c, hc, _⟩ => by cases hc) fun hnone => hnone.1 h
  · rename_i h
    split
    · rename_i htoken
      refine iff_of_false ?_ fun hnone => hnone.2 htoken
      rintro ⟨c, hc, hname⟩
      cases List.mem_singleton.mp hc
      exact hne hname
    · rename_i htoken
      exact iff_of_true ⟨_, List.mem_cons_of_mem _ List.mem_cons_self, rfl⟩ ⟨h, htoken⟩

/-- The text of the header tells the truth about the names in it. -/
def TextTells (primary : Text) (options : ToWebRequestOptions) (cookies : List Cookie) : Prop :=
  ¬ HasCookie cookies "__proto__".toList
    ∧ if options.sessionToken = [] ∨ includes (headerOf cookies) (primary ++ ['=']) = true then
        HasCookie cookies primary ∧ HasCookie cookies TOKEN
      else
        options.secret ≠ []
          ∧ (includes (headerOf cookies) (TOKEN ++ ['=']) = true → HasCookie cookies TOKEN)

theorem parseCookieHeader_getD (header : Option Text) :
    parseCookieHeader header = parseCookieHeader (some (header.getD [])) := by
  cases header with
  | none   => rfl
  | some _ => rfl

/-- **When the session is injected exactly.** -/
theorem toWebRequest_exact_iff {req : Request} {options : ToWebRequestOptions}
    (hbase : ∀ c ∈ options.basePath, isNameChar c = true)
    (htoken : ∀ c ∈ options.sessionToken, isTokenChar c = true)
    (hcookies : ∀ c ∈ cookies, c.WellFormed) (hnodup : (cookies.map Cookie.name).Nodup)
    (hreq : Carries req cookies) :
    Exact hmac COOKIE_PREFIX req options cookies
      ↔ TextTells (primaryName options COOKIE_PREFIX) options cookies := by
  obtain ⟨hproto, hne⟩ := primaryName_ne options COOKIE_PREFIX
  have hall := List.forall_mem_append.mpr ⟨hcookies,
    @wellFormed_added hmac _ (headerOf cookies) options (cookieName_primary hbase COOKIE_PREFIX)
      htoken⟩
  have hlook : ∀ name, (parseCookieHeader
      ((toWebRequest hmac COOKIE_PREFIX req options).get? "cookie".toList)).get? name
        = if name = "__proto__".toList then none
          else (incoming cookies name).or (incoming
            (added hmac (primaryName options COOKIE_PREFIX) (headerOf cookies) options) name) := by
    intro name
    rw [parseCookieHeader_getD, toWebRequest_cookie hbase htoken hcookies hreq,
      parseCookieHeader_headerOf hall, get?_setAll_incoming (nodup_added hne hnodup), incoming_append]
  rw [Exact]
  simp only [hlook]
  rw [lookup_iff ⟨hproto, hne⟩ (added_substitute hne htoken), TextTells, has_added_primary,
    has_added_token hne]
  refine and_congr_right fun _ => ?_
  by_cases htext : options.sessionToken = []
      ∨ includes (headerOf cookies) (primaryName options COOKIE_PREFIX ++ ['=']) = true
  · have hnothing : options.sessionToken = []
        ∨ includes (headerOf cookies) (primaryName options COOKIE_PREFIX ++ ['=']) = true
        ∨ options.secret = [] := by
      rcases htext with h | h
      · exact .inl h
      · exact .inr (.inl h)
    rw [if_pos htext]
    simp only [hnothing, not_true_eq_false, false_and, or_false]
  · rw [if_neg htext]
    rw [not_or] at htext
    have hno : ¬ HasCookie cookies (primaryName options COOKIE_PREFIX) := by
      rintro ⟨c, hc, hname⟩
      exact htext.2 (hname ▸ includes_name hc)
    simp only [htext.1, htext.2, Bool.false_eq_true, false_or, hno]
    refine and_congr_right fun hsecret => ?_
    rw [and_iff_right hsecret, or_comm, ← imp_iff_not_or]

/-- A request without cookies. -/
theorem toWebRequest_exact_bare :
    Exact (fun _ _ => someDigest) none { headers := .empty }
        { sessionToken := "abc_DEF-123".toList, secret := "s3cret".toList } []
      ↔ TextTells (primaryName { sessionToken := "abc_DEF-123".toList, secret := "s3cret".toList } none)
        { sessionToken := "abc_DEF-123".toList, secret := "s3cret".toList } [] :=
  toWebRequest_exact_iff (fun _ hc => by cases hc) (List.all_eq_true.mp rfl) (fun _ hc => by cases hc)
    List.nodup_nil rfl

/-- A cookie called `csrf_token` keeps the legacy cookie out. -/
theorem toWebRequest_csrf_token :
    ¬ Exact (fun _ _ => someDigest) none
      { headers := OrderedMap.empty.set "cookie".toList (.text "csrf_token=x".toList) }
      { sessionToken := "abc_DEF-123".toList, secret := "s3cret".toList }
      [⟨"csrf_token".toList, "x".toList⟩] := by
  intro h
  have hnone : (parseCookieHeader ((toWebRequest (fun _ _ => someDigest) none
      { headers := OrderedMap.empty.set "cookie".toList (.text "csrf_token=x".toList) }
      { sessionToken := "abc_DEF-123".toList, secret := "s3cret".toList }).get?
        "cookie".toList)).get? TOKEN = none := by decide +kernel
  have hexpected := h TOKEN
  rw [hnone] at hexpected
  cases hexpected

end WebHelper
