import Mathlib.Data.List.DropRight
import Mathlib.Data.List.Infix
import NestServer.OrderedMap
import NestServer.RoleEnum
import NestServer.UriComponent

/-! # Session cookies

    `core-better-auth-web.helper.ts` and `better-auth-cookie-prefix.helper.ts`: the name
    of the session cookie, how a `Cookie` header is parsed, how a token is signed and
    taken out of the header again, and what a request carries to Better-Auth.

    The digest of `crypto.createHmac('sha256', secret).update(value)` is a parameter. -/

namespace WebHelper

abbrev Text := List Char

def trim (text : Text) : Text := (text.dropWhile JsText.isSpace).rdropWhile JsText.isSpace

/-- `text.includes(part)` -/
def includes (text part : Text) : Bool := decide (part <:+: text)

/-! ## The name of the session cookie -/

/-- `[A-Za-z0-9_-]` -/
def isTokenChar (c : Char) : Bool := UriComponent.isAlphanumeric c || c = '_' || c = '-'

def sanitizeCookiePrefix (raw : Text) : Text :=
  (trim raw).filter fun c => isTokenChar c || c = '.'

/-- `.replace(/^\//, '')` -/
def withoutSlash (path : Text) : Text := if path.head? = some '/' then path.tail else path

def resolveBetterAuthCookiePrefix (basePath : Text) (COOKIE_PREFIX : Option Text) : Text :=
  let basePath := if basePath = [] then "/iam".toList else basePath
  let basePathPrefix := (withoutSlash basePath).map fun c => if c = '/' then '.' else c
  let explicit := sanitizeCookiePrefix (COOKIE_PREFIX.getD [])
  if explicit = [] then basePathPrefix else explicit

def resolveBetterAuthSessionCookieName (basePath : Text) (COOKIE_PREFIX : Option Text) : Text :=
  resolveBetterAuthCookiePrefix basePath COOKIE_PREFIX ++ ".session_token".toList

/-- `BETTER_AUTH_COOKIE_NAMES.TOKEN` -/
def TOKEN : Text := "token".toList

/-! ## Parsing a `Cookie` header -/

/-- The object of the cookies, name by name. -/
abbrev Cookies := OrderedMap Text Text

/-- `cookies[name] = value`; an object does not take a string for its prototype. -/
def setCookie (cookies : Cookies) (name value : Text) : Cookies :=
  if name = "__proto__".toList then cookies else cookies.set name value

/-- The value of a cookie: where it cannot be decoded, it stays as it is. -/
def valueOf (rawValue : Text) : Text := (UriComponent.decode rawValue).getD rawValue

/-- One pair of the header. -/
def addPair (cookies : Cookies) (pair : Text) : Cookies :=
  match (trim pair).splitOn '=' with
  | name :: part :: parts =>
      if name = [] then cookies
      else setCookie cookies (trim name) (valueOf (trim (['='].intercalate (part :: parts))))
  | _ => cookies

def parseCookieHeader (cookieHeader : Option Text) : Cookies :=
  match cookieHeader with
  | none        => .empty
  | some header => if header = [] then .empty else (header.splitOn ';').foldl addPair .empty

/-! ## Signed values -/

/-- `[A-Za-z0-9+/]` -/
def isBase64 (c : Char) : Bool := UriComponent.isAlphanumeric c || c = '+' || c = '/'

/-- `/^[A-Za-z0-9+/]+=*$/` -/
def base64Regex (text : Text) : Bool :=
  text.takeWhile isBase64 ≠ [] && (text.dropWhile isBase64).all fun c => c = '='

/-- What is behind the last dot. -/
def afterLastDot (text : Text) : Text := text.rtakeWhile fun c => c ≠ '.'

def isAlreadySigned (value : Text) : Bool :=
  if value = [] then false
  else
    let decodedValue := (UriComponent.decode value).getD value
    if decodedValue.count '.' ≠ 1 then false
    else
      let potentialSignature := afterLastDot decodedValue
      decide (20 ≤ potentialSignature.length) && base64Regex potentialSignature

inductive CookieError where
  /-- `Cannot sign cookie: Better Auth secret is not configured` -/
  | noSecret
  /-- of `decodeURIComponent` -/
  | uriError
deriving DecidableEq

section Hmac

variable (hmac : Text → Text → Text)

def signCookieValue (value secret : Text) (urlEncode : Bool) : Except CookieError Text :=
  if secret = [] then .error .noSecret
  else
    let signedValue := value ++ '.' :: hmac secret value
    .ok (if urlEncode then UriComponent.encode signedValue else signedValue)

def decodeValue (value : Text) : Except CookieError Text :=
  (UriComponent.decode value).elim (.error .uriError) .ok

def signCookieValueIfNeeded (value secret : Text) (urlEncode : Bool) : Except CookieError Text :=
  if isAlreadySigned value then
    if urlEncode then .ok (if value.contains '%' then value else UriComponent.encode value)
    else if value.contains '%' then decodeValue value
    else .ok value
  else signCookieValue hmac value secret urlEncode

end Hmac

/-! ## Requests -/

/-- A header as Express has it. -/
inductive HeaderValue where
  | text (value : Text)
  | list (values : List Text)
  | undefined

/-- The part of an Express request that is read here; the names of headers are lower-case, and
    `cookies` is there where a cookie parser has run. -/
structure Request where
  headers : OrderedMap Text HeaderValue
  cookies : Option Cookies := none

/-- The headers of the Fetch API. -/
abbrev Headers := OrderedMap Text Text

/-- `headers.set(name, value)`: blanks around the value are dropped. -/
def setHeader (headers : Headers) (name value : Text) : Headers :=
  let isBlank (c : Char) : Bool := c = ' ' || c = '\t' || c = '\n' || c = '\r'
  headers.set name ((value.dropWhile isBlank).rdropWhile isBlank)

def convertHeader (headers : Headers) (header : Text × HeaderValue) : Headers :=
  match header.2 with
  | .text value  => setHeader headers header.1 value
  | .list values => setHeader headers header.1 (", ".toList.intercalate values)
  | .undefined   => headers

def convertExpressHeaders (headers : OrderedMap Text HeaderValue) : Headers :=
  headers.entries.foldl convertHeader .empty

/-- A header that is a text. -/
def headerText (req : Request) (name : String) : Option Text :=
  match req.headers.get? name.toList with
  | some (.text value) => some value
  | _                  => none

/-- The session token of an `Authorization` header that carries no JWT. -/
def bearerToken (isSessionToken : Text → Bool) (req : Request) : Option Text :=
  (headerText req "authorization").bind fun authHeader =>
    if "Bearer ".toList.isPrefixOf authHeader ∧ isSessionToken (authHeader.drop 7) then
      some (authHeader.drop 7)
    else none

/-- The token of a cookie, without its signature. -/
def tokenOf (cookies : Cookies) (name : Text) : Option Text :=
  ((cookies.get? name).filter fun token => token ≠ []).map fun token =>
    if isAlreadySigned token then (token.splitOn '.').headD [] else token

def extractSessionToken (isSessionToken : Text → Bool) (COOKIE_PREFIX : Option Text)
    (req : Request) (basePath : Text) (skipAuthHeader : Bool) : Option Text :=
  let bearer := if skipAuthHeader then none else bearerToken isSessionToken req
  let cookies := req.cookies.getD (parseCookieHeader (headerText req "cookie"))
  bearer.or
    ([resolveBetterAuthSessionCookieName basePath COOKIE_PREFIX, TOKEN].findSome? (tokenOf cookies))

structure ToWebRequestOptions where
  basePath     : Text := []
  secret       : Text := []
  sessionToken : Text := []

/-- `Bearer ${sessionToken}` -/
def bearer (sessionToken : Text) : Text := "Bearer ".toList ++ sessionToken

/-- `${cookies}; ${name}=${value}` -/
def appendCookie (cookies name value : Text) : Text :=
  (if cookies = [] then [] else cookies ++ "; ".toList) ++ name ++ '=' :: value

/-- The name of the session cookie under the options. -/
def primaryName (options : ToWebRequestOptions) (COOKIE_PREFIX : Option Text) : Text :=
  resolveBetterAuthSessionCookieName
    (if options.basePath = [] then "/iam".toList else options.basePath) COOKIE_PREFIX

/-- The session is put into the headers. -/
def injectSession (hmac : Text → Text → Text) (COOKIE_PREFIX : Option Text)
    (options : ToWebRequestOptions) (headers : Headers) : Headers :=
  let headers := setHeader headers "authorization".toList (bearer options.sessionToken)
  let primaryCookieName := primaryName options COOKIE_PREFIX
  let existingCookieString := (headers.get? "cookie".toList).getD []
  let withToken (cookies : Text) : Text :=
    if includes existingCookieString (TOKEN ++ ['=']) then cookies
    else appendCookie cookies TOKEN options.sessionToken
  if includes existingCookieString (primaryCookieName ++ ['=']) then
    if includes existingCookieString (TOKEN ++ ['=']) then headers
    else
      setHeader headers "cookie".toList (appendCookie existingCookieString TOKEN options.sessionToken)
  else
    -- without a secret nothing is signed
    match signCookieValue hmac options.sessionToken options.secret true with
    | .ok signedToken =>
        setHeader headers "cookie".toList
          (withToken (appendCookie existingCookieString primaryCookieName signedToken))
    | .error _ => headers

/-- The headers of the request that `toWebRequest` builds, but for those of its body. -/
def toWebRequest (hmac : Text → Text → Text) (COOKIE_PREFIX : Option Text) (req : Request)
    (options : ToWebRequestOptions) : Headers :=
  let headers := convertExpressHeaders req.headers
  if options.sessionToken = [] then headers
  else injectSession hmac COOKIE_PREFIX options headers

/-! ## The header of a list of cookies -/

structure Cookie where
  name  : Text
  value : Text

/-- A name: it is not empty, and nothing in it ends it. -/
structure CookieName (name : Text) : Prop where
  ne      : name ≠ []
  trimmed : trim name = name
  plain   : '=' ∉ name ∧ ';' ∉ name

structure CookieValue (value : Text) : Prop where
  trimmed : trim value = value
  plain   : ';' ∉ value

structure Cookie.WellFormed (c : Cookie) : Prop where
  name  : CookieName c.name
  value : CookieValue c.value

def Cookie.pair (c : Cookie) : Text := c.name ++ '=' :: c.value

/-- The pairs, with a semicolon and a blank between them. -/
def headerOf : List Cookie → Text
  | []           => []
  | c :: cookies => c.pair ++ cookies.flatMap fun d => ';' :: ' ' :: d.pair

/-! ## Trimming -/

/-- The ends of a trimmed text are no white space. -/
theorem trim_eq_self_iff {text : Text} : trim text = text ↔
    (∀ c ∈ text.head?, JsText.isSpace c = false)
      ∧ ∀ c ∈ text.getLast?, JsText.isSpace c = false := by
  constructor
  · intro h
    have hlength : text.length ≤ (text.dropWhile JsText.isSpace).length := by
      have hle := (List.rdropWhile_prefix JsText.isSpace (text.dropWhile JsText.isSpace)).length_le
      have heq : (text.dropWhile JsText.isSpace).rdropWhile JsText.isSpace = text := h
      rwa [heq] at hle
    have hdrop : text.dropWhile JsText.isSpace = text :=
      (List.dropWhile_suffix _).eq_of_length_le hlength
    refine ⟨fun c hc => ?_, fun c hc => ?_⟩
    · have hhead := List.head?_dropWhile_not JsText.isSpace text
      rw [hdrop, Option.mem_def.mp hc] at hhead
      simpa using hhead
    · rw [trim, hdrop, List.rdropWhile_eq_self_iff] at h
      obtain ⟨hne, rfl⟩ := List.mem_getLast?_eq_getLast hc
      exact Bool.eq_false_iff.mpr (h hne)
  · rintro ⟨hhead, hlast⟩
    have hdrop : text.dropWhile JsText.isSpace = text := by
      cases text with
      | nil       => rfl
      | cons c cs => exact List.dropWhile_cons_of_neg (by simpa using hhead)
    rw [trim, hdrop, List.rdropWhile_eq_self_iff]
    intro hne
    simpa using hlast _ (List.getLast?_eq_some_getLast hne)

/-- A text that starts and ends with no white space keeps its ends when it is put between others
    like it. -/
theorem trim_append {s t : Text} (hs : trim s = s) (hne : s ≠ []) (ht : trim t = t) (hne' : t ≠ []) :
    trim (s ++ t) = s ++ t := by
  obtain ⟨hhead, -⟩ := trim_eq_self_iff.mp hs
  obtain ⟨-, hlast⟩ := trim_eq_self_iff.mp ht
  refine trim_eq_self_iff.mpr ⟨?_, ?_⟩
  · rwa [List.head?_append_of_ne_nil _ hne]
  · rwa [List.getLast?_append_of_ne_nil _ hne']

theorem trim_plain {text : Text} (h : ∀ c ∈ text, JsText.isSpace c = false) : trim text = text :=
  trim_eq_self_iff.mpr ⟨fun c hc => h c (List.mem_of_mem_head? hc),
    fun c hc => h c (List.mem_of_mem_getLast? hc)⟩

/-! ## The pairs of a header -/

theorem Cookie.trim_pair {c : Cookie} (h : c.WellFormed) : trim c.pair = c.pair := by
  have hassign : trim (c.name ++ ['=']) = c.name ++ ['='] :=
    trim_append h.name.trimmed h.name.ne rfl (List.cons_ne_nil _ _)
  have hpair : c.pair = (c.name ++ ['=']) ++ c.value := by
    rw [Cookie.pair, List.append_assoc]
    rfl
  rw [hpair]
  by_cases hvalue : c.value = []
  · rw [hvalue, List.append_nil]
    exact hassign
  · exact trim_append hassign (List.append_ne_nil_of_right_ne_nil _ (List.cons_ne_nil _ _))
      h.value.trimmed hvalue

theorem Cookie.semicolon_notMem {c : Cookie} (h : c.WellFormed) : ';' ∉ c.pair := by
  rw [Cookie.pair, List.mem_append, List.mem_cons, not_or, not_or]
  exact ⟨h.name.plain.2, by decide, h.value.plain⟩

/-- **A pair of the header is read as the cookie it is.** -/
theorem addPair_pair {c : Cookie} (h : c.WellFormed) (cookies : Cookies) {pair : Text}
    (hpair : trim pair = c.pair) :
    addPair cookies pair = setCookie cookies c.name (valueOf c.value) := by
  have hsplit : c.pair.splitOn '=' = c.name :: c.value.splitOn '=' :=
    List.splitOn_append_cons_self_of_not_mem h.name.plain.1 c.value
  have hjoin : ['='].intercalate (c.value.splitOn '=') = c.value := List.intercalate_splitOn '='
  rw [addPair, hpair, hsplit]
  cases hparts : c.value.splitOn '=' with
  | nil => exact absurd hparts (List.splitOn_ne_nil _ _)
  | cons part parts =>
      rw [hparts] at hjoin
      simp only [hjoin, if_neg h.name.ne, h.name.trimmed, h.value.trimmed]

theorem splitOn_headerOf {c : Cookie} {cookies : List Cookie} (hc : c.WellFormed)
    (hcookies : ∀ d ∈ cookies, d.WellFormed) :
    (headerOf (c :: cookies)).splitOn ';' = c.pair :: cookies.map fun d => ' ' :: d.pair := by
  have hsplit : ∀ pair : Text, ';' ∉ pair →
      (pair ++ cookies.flatMap fun d => ';' :: ' ' :: d.pair).splitOn ';'
        = pair :: cookies.map fun d => ' ' :: d.pair := by
    induction cookies with
    | nil =>
        intro pair hpair
        rw [List.flatMap_nil, List.append_nil]
        exact List.splitOn_eq_singleton hpair
    | cons d cookies ih =>
        intro pair hpair
        obtain ⟨hd, hrest⟩ := List.forall_mem_cons.mp hcookies
        have hnext : ';' ∉ ' ' :: d.pair := by
          rw [List.mem_cons, not_or]
          exact ⟨by decide, Cookie.semicolon_notMem hd⟩
        rw [List.flatMap_cons, List.map_cons, List.cons_append,
          List.splitOn_append_cons_self_of_not_mem hpair, ih hrest _ hnext]
  exact hsplit c.pair (Cookie.semicolon_notMem hc)

/-- The cookies of a header, one after the other. -/
def setAll (cookies : List Cookie) (m : Cookies) : Cookies :=
  cookies.foldl (fun m c => setCookie m c.name (valueOf c.value)) m

theorem headerOf_ne_nil {c : Cookie} {cookies : List Cookie} (hc : c.WellFormed) :
    headerOf (c :: cookies) ≠ [] :=
  List.append_ne_nil_of_left_ne_nil (List.append_ne_nil_of_left_ne_nil hc.name.ne _) _

theorem parseCookieHeader_headerOf {cookies : List Cookie} (h : ∀ c ∈ cookies, c.WellFormed) :
    parseCookieHeader (some (headerOf cookies)) = setAll cookies .empty := by
  cases cookies with
  | nil => rfl
  | cons c cookies =>
      obtain ⟨hc, hcookies⟩ := List.forall_mem_cons.mp h
      rw [parseCookieHeader, if_neg (headerOf_ne_nil hc), splitOn_headerOf hc hcookies,
        List.foldl_cons, addPair_pair hc _ (Cookie.trim_pair hc), setAll, List.foldl_cons]
      generalize setCookie .empty c.name (valueOf c.value) = m
      clear h
      induction cookies generalizing m with
      | nil => rfl
      | cons d cookies ih =>
          obtain ⟨hd, hrest⟩ := List.forall_mem_cons.mp hcookies
          have htrim : trim (' ' :: d.pair) = d.pair := Cookie.trim_pair hd
          rw [List.map_cons, List.foldl_cons, addPair_pair hd _ htrim, List.foldl_cons]
          exact ih hrest _

/-! ## Finding a cookie -/

theorem get?_setCookie_of_ne {name key : Text} (m : Cookies) (value : Text) (h : name ≠ key) :
    (setCookie m name value).get? key = m.get? key := by
  rw [setCookie]
  split
  · rfl
  · exact m.get?_set_of_ne value (Ne.symm h)

theorem get?_setAll_of_notMem {cookies : List Cookie} {m : Cookies} {key : Text}
    (h : ∀ c ∈ cookies, c.name ≠ key) : (setAll cookies m).get? key = m.get? key := by
  induction cookies generalizing m with
  | nil => rfl
  | cons c cookies ih =>
      obtain ⟨hc, hrest⟩ := List.forall_mem_cons.mp h
      rw [setAll, List.foldl_cons]
      exact (ih hrest).trans (get?_setCookie_of_ne m _ hc)

theorem setAll_append (before after : List Cookie) (m : Cookies) :
    setAll (before ++ after) m = setAll after (setAll before m) := List.foldl_append

/-- The last cookie of a name has the say. -/
theorem get?_setAll {before after : List Cookie} {c : Cookie} (hafter : ∀ d ∈ after, d.name ≠ c.name)
    (hname : c.name ≠ "__proto__".toList) (m : Cookies) :
    (setAll (before ++ c :: after) m).get? c.name = some (valueOf c.value) := by
  rw [setAll_append, setAll, List.foldl_cons]
  refine (get?_setAll_of_notMem hafter).trans ?_
  rw [setCookie, if_neg hname]
  exact OrderedMap.get?_set_self ..

theorem get?_setAll_proto (cookies : List Cookie) (m : Cookies) :
    (setAll cookies m).get? "__proto__".toList = m.get? "__proto__".toList := by
  induction cookies generalizing m with
  | nil => rfl
  | cons c cookies ih =>
      rw [setAll, List.foldl_cons]
      refine (ih _).trans ?_
      rw [setCookie]
      split
      · rfl
      · rename_i hname
        exact m.get?_set_of_ne _ (Ne.symm hname)

end WebHelper
