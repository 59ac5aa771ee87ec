import Mathlib.Data.List.TakeWhile
import NestServer.RateLimit.BetterAuth

/-! # Strict routes

    A route is limited where its paths share one counter, and where no path of it looks
    like one that is skipped. -/

namespace RateLimit

/-! ## Routes -/

/-- What stands between two slashes. -/
structure Segment where
  text     : String
  nonempty : text ≠ ""
  plain    : ∀ c ∈ text.toList, c ≠ '/' ∧ c ≠ '?'

/-- A segment whose characters have been checked. -/
def Segment.ofText (text : String) (nonempty : text ≠ "")
    (plain : text.toList.all (fun c => decide (c ≠ '/' ∧ c ≠ '?')) = true) : Segment :=
  ⟨text, nonempty, fun c hc => of_decide_eq_true (List.all_eq_true.mp plain c hc)⟩

inductive RouteSegment where
  | fixed (segment : Segment)
  /-- `:name` -/
  | param (name : Segment)

abbrev Route := List RouteSegment

def RouteSegment.pattern : RouteSegment → List Char
  | .fixed segment => segment.text.toList
  | .param name    => ':' :: name.text.toList

def RouteSegment.Accepts : RouteSegment → Segment → Prop
  | .fixed segment, s => s.text = segment.text
  | .param _, _       => True

/-- Each segment after a slash. -/
def pathOf (segments : List (List Char)) : List Char := segments.flatMap fun s => '/' :: s

def Route.pattern (route : Route) : String := String.ofList
    (pathOf (route.map RouteSegment.pattern))

abbrev Url := List Segment

def Url.path (url : Url) : String := String.ofList (pathOf (url.map fun s => s.text.toList))

/-- The paths that reach the handler of a route. -/
def Route.Serves (route : Route) (url : Url) : Prop := List.Forall₂ RouteSegment.Accepts route url

def Route.strict (route : Route) : Bool := DEFAULT_CONFIG.strictEndpoints.any
    (concerns route.pattern)

/-! ## Segments of a path -/

/-- A slash is not within a segment. -/
theorem infix_append_of_notMem {a : Char} {w s : List Char} (hs : a ∉ s) (rest : List Char) :
    (a :: w) <:+: s ++ rest ↔ (a :: w) <:+: rest := by
  induction s with
  | nil => exact Iff.rfl
  | cons c s ih =>
      rw [List.mem_cons, not_or] at hs
      rw [List.cons_append, List.infix_cons_iff, ih hs.2, List.cons_prefix_cons]
      exact ⟨fun h => h.elim (fun hstarts => absurd hstarts.1 hs.1) id, Or.inr⟩

/-- What has no slash ends with its segment. -/
theorem prefix_append_pathOf {w : List Char} (hw : '/' ∉ w) (s : List Char)
    (segments : List (List Char)) :
    w <+: s ++ pathOf segments ↔ w <+: s := by
  induction w generalizing s with
  | nil => exact iff_of_true List.nil_prefix List.nil_prefix
  | cons c w ih =>
      rw [List.mem_cons, not_or] at hw
      cases s with
      | cons d s =>
          rw [List.cons_append, List.cons_prefix_cons, List.cons_prefix_cons, ih hw.2]
      | nil =>
          refine iff_of_false ?_ (fun h => List.cons_ne_nil c w (List.prefix_nil.mp h))
          intro h
          cases segments with
          | nil => exact List.cons_ne_nil c w (List.prefix_nil.mp h)
          | cons t segments =>
              have hslash : (c :: w) <+: '/' :: (t ++ pathOf segments) := h
              exact hw.1 (List.cons_prefix_cons.mp hslash).1.symm

/-- An entry of one segment is in a path where a segment begins with it. -/
theorem infix_pathOf {w : List Char} (hw : '/' ∉ w) {segments : List (List Char)}
    (hsegments : ∀ s ∈ segments, '/' ∉ s) :
    ('/' :: w) <:+: pathOf segments ↔ ∃ s ∈ segments, w <+: s := by
  induction segments with
  | nil =>
      refine iff_of_false (fun h => List.cons_ne_nil _ _ (List.infix_nil.mp h)) ?_
      rintro ⟨s, hs, _⟩
      exact absurd hs List.not_mem_nil
  | cons s segments ih =>
      have hs : '/' ∉ s := hsegments s List.mem_cons_self
      have hrest := ih fun t ht => hsegments t (List.mem_cons_of_mem s ht)
      have hpath : pathOf (s :: segments) = '/' :: (s ++ pathOf segments) := rfl
      rw [hpath, List.infix_cons_iff, List.cons_prefix_cons, prefix_append_pathOf hw,
        infix_append_of_notMem hs, hrest, List.exists_mem_cons_iff]
      exact or_congr_left (and_iff_right rfl)

theorem splitOn_append_pathOf {s : List Char} {segments : List (List Char)}
    (hs : '/' ∉ s) (hsegments : ∀ t ∈ segments, '/' ∉ t) :
    (s ++ pathOf segments).splitOn '/' = s :: segments := by
  induction segments generalizing s with
  | nil =>
      rw [show pathOf [] = [] from rfl, List.append_nil]
      exact List.splitOn_eq_singleton hs
  | cons t segments ih =>
      have ht := ih (hsegments t List.mem_cons_self) fun u hu =>
          hsegments u (List.mem_cons_of_mem t hu)
      have hpath : pathOf (t :: segments) = '/' :: (t ++ pathOf segments) := rfl
      rw [hpath, List.splitOn_append_cons_self_of_not_mem hs, ht]

/-! ## What a path is taken for -/

/-- A slash, and a segment to begin with. -/
def entryOf (w : List Char) : String := String.ofList ('/' :: w)

theorem concerns_path {w : List Char} (hw : '/' ∉ w) {segments : List (List Char)}
    (hsegments : ∀ s ∈ segments, '/' ∉ s) :
    concerns (String.ofList (pathOf segments)) (entryOf w) = true ↔ ∃ s ∈ segments, w <+: s := by
  rw [← infix_pathOf hw hsegments, concerns, entryOf, includes, endsWith, String.toList_ofList,
    String.toList_ofList, Bool.or_eq_true, Bool.or_eq_true, decide_eq_true_eq, decide_eq_true_eq,
    decide_eq_true_eq, String.ofList_inj]
  constructor
  · rintro ((heq | hsuffix) | hinfix)
    · exact heq ▸ List.infix_rfl
    · exact hsuffix.isInfix
    · exact hinfix
  · exact Or.inr

theorem Segment.slash_notMem (s : Segment) : '/' ∉ s.text.toList := fun h => (s.plain '/' h).1 rfl

theorem Url.slash_notMem (url : Url) : ∀ s ∈ url.map fun s => s.text.toList, '/' ∉ s := by
  intro s hs
  obtain ⟨segment, _, rfl⟩ := List.mem_map.mp hs
  exact segment.slash_notMem

theorem RouteSegment.slash_notMem (s : RouteSegment) : '/' ∉ s.pattern := by
  cases s with
  | fixed segment => exact segment.slash_notMem
  | param name =>
      rw [RouteSegment.pattern, List.mem_cons, not_or]
      exact ⟨by decide, name.slash_notMem⟩

/-- A segment that begins with a word. -/
def Segment.begins (s : Segment) (word : String) : Bool := decide (word.toList <+: s.text.toList)

theorem Url.concerns_path (url : Url) {word : String} (hword : '/' ∉ word.toList) :
    concerns url.path (entryOf word.toList) = true ↔ ∃ s ∈ url, s.begins word = true := by
  rw [Url.path, RateLimit.concerns_path hword url.slash_notMem]
  constructor
  · rintro ⟨text, htext, hstarts⟩
    obtain ⟨s, hs, rfl⟩ := List.mem_map.mp htext
    exact ⟨s, hs, decide_eq_true hstarts⟩
  · rintro ⟨s, hs, hbegins⟩
    exact ⟨_, List.mem_map.mpr ⟨s, hs, rfl⟩, of_decide_eq_true hbegins⟩

/-- What a path is skipped for. -/
def Segment.skipped (s : Segment) : Bool := s.begins "session" || s.begins "callback"

theorem shouldSkip_path {config : BetterAuthRateLimit}
    (hskip : config.skipEndpoints = DEFAULT_CONFIG.skipEndpoints) (url : Url) :
    config.shouldSkip url.path = true ↔ ∃ s ∈ url, s.skipped = true := by
  have hsession := url.concerns_path (show '/' ∉ "session".toList by decide)
  have hcallback := url.concerns_path (show '/' ∉ "callback".toList by decide)
  have hlist : config.shouldSkip url.path =
      (concerns url.path (entryOf "session".toList) ||
        (concerns url.path (entryOf "callback".toList) || false)) := by
    rw [BetterAuthRateLimit.shouldSkip, hskip]
    rfl
  rw [hlist, Bool.or_false, Bool.or_eq_true, hsession, hcallback]
  constructor
  · rintro (⟨s, hs, h⟩ | ⟨s, hs, h⟩)
    · exact ⟨s, hs, by rw [Segment.skipped, h]; rfl⟩
    · exact ⟨s, hs, by rw [Segment.skipped, h, Bool.or_true]⟩
  · rintro ⟨s, hs, h⟩
    rcases Bool.or_eq_true_iff.mp h with h | h
    · exact Or.inl ⟨s, hs, h⟩
    · exact Or.inr ⟨s, hs, h⟩

/-- Strict entries are of one segment, and no name of a parameter begins so. -/
theorem strictEndpoints_entry : ∀ entry ∈ DEFAULT_CONFIG.strictEndpoints,
    entryOf (entry.toList.drop 1) = entry ∧ '/' ∉ entry.toList.drop 1 ∧
      (entry.toList.drop 1).head?.any (fun c => c ≠ ':') = true := by
  decide

/-- Each segment of a route accepts one of the path. -/
theorem Route.Serves.exists {route : Route} {url : Url} (h : route.Serves url) {part : RouteSegment}
    (hpart : part ∈ route) : ∃ s ∈ url, part.Accepts s := by
  induction h with
  | nil => cases hpart
  | cons haccepts _ ih =>
      rcases List.mem_cons.mp hpart with rfl | hrest
      · exact ⟨_, List.mem_cons_self, haccepts⟩
      · obtain ⟨s, hs, hs'⟩ := ih hrest
        exact ⟨s, List.mem_cons_of_mem _ hs, hs'⟩

theorem Route.Serves.strict {route : Route} {url : Url} (h : route.Serves url)
    (hstrict : route.strict = true) :
    DEFAULT_CONFIG.strictEndpoints.any (concerns url.path) = true := by
  obtain ⟨entry, hentry, hconcerns⟩ := List.any_eq_true.mp hstrict
  obtain ⟨heq, hslash, hhead⟩ := strictEndpoints_entry entry hentry
  have hpattern : ∀ s ∈ route.map RouteSegment.pattern, '/' ∉ s := by
    intro s hs
    obtain ⟨segment, _, rfl⟩ := List.mem_map.mp hs
    exact segment.slash_notMem
  rw [← heq, Route.pattern, concerns_path hslash hpattern] at hconcerns
  obtain ⟨text, htext, hstarts⟩ := hconcerns
  obtain ⟨part, hpart, rfl⟩ := List.mem_map.mp htext
  -- the entry begins a fixed segment, which every path of the route has
  cases part with
  | param name =>
      obtain ⟨c, hc, hne⟩ := (Option.any_eq_true _ _).mp hhead
      obtain ⟨w, hw⟩ := List.head?_eq_some_iff.mp hc
      rw [hw, RouteSegment.pattern, List.cons_prefix_cons] at hstarts
      exact absurd hstarts.1 (of_decide_eq_true hne)
  | fixed segment =>
      obtain ⟨s, hs, haccepts⟩ : ∃ s ∈ url, s.text = segment.text := h.exists hpart
      refine List.any_eq_true.mpr ⟨entry, hentry, ?_⟩
      rw [← heq, Url.path, concerns_path hslash url.slash_notMem]
      refine ⟨_, List.mem_map.mpr ⟨s, hs, rfl⟩, ?_⟩
      rw [haccepts]
      exact hstarts

/-- The last segment. -/
def Url.endpoint (url : Url) : String := (url.getLast?.map Segment.text).getD "root"

theorem normalizeEndpoint_path {url : Url} (hplain : ∀ s ∈ url, s.skipped = false) :
    normalizeEndpoint url.path = url.endpoint := by
  have hquery : (url.path.toList.takeWhile fun c => c ≠ '?') =
      pathOf (url.map fun s => s.text.toList) := by
    rw [Url.path, String.toList_ofList]
    refine List.takeWhile_eq_self_iff.mpr fun c hc => decide_eq_true ?_
    obtain ⟨text, htext, hmem⟩ := List.mem_flatMap.mp hc
    obtain ⟨s, _, rfl⟩ := List.mem_map.mp htext
    rcases List.mem_cons.mp hmem with rfl | hmem
    · decide
    · exact (s.plain c hmem).2
  have hcallback : includes (pathOf (url.map fun s => s.text.toList)) "/callback/".toList =
      false := by
    refine decide_eq_false fun hinfix => ?_
    have hshort : ('/' :: "callback".toList) <:+: pathOf (url.map fun s => s.text.toList) :=
      List.IsInfix.trans ⟨[], ['/'], rfl⟩ hinfix
    obtain ⟨text, htext, hstarts⟩ := (infix_pathOf (by decide) url.slash_notMem).mp hshort
    obtain ⟨s, hs, rfl⟩ := List.mem_map.mp htext
    have hbegins : s.skipped = true := by
      rw [Segment.skipped, Segment.begins, Segment.begins, decide_eq_true hstarts, Bool.or_true]
    rw [hplain s hs] at hbegins
    cases hbegins
  have hsplit : (pathOf (url.map fun s => s.text.toList)).splitOn '/' =
      [] :: url.map fun s => s.text.toList :=
    splitOn_append_pathOf List.not_mem_nil url.slash_notMem
  have hfilter : ([] :: url.map fun s => s.text.toList).filter (fun s => s ≠ []) =
      url.map fun s => s.text.toList := by
    rw [List.filter_cons_of_neg (by decide)]
    refine List.filter_eq_self.mpr fun text htext => decide_eq_true ?_
    obtain ⟨s, _, rfl⟩ := List.mem_map.mp htext
    intro hnil
    exact s.nonempty (String.toList_inj.mp hnil)
  rw [normalizeEndpoint]
  dsimp only
  rw [hquery, hcallback, if_neg Bool.false_ne_true, hsplit, hfilter, List.getLast?_map,
    Option.map_map, Url.endpoint]
  congr 2
  funext s
  exact String.ofList_toList

/-! ## Keys -/

/-- What `escapePart` makes of a character. -/
def escapeChar (c : Char) : List Char := (escapeBackslash c).flatMap escapeColon

def unescape : List Char → List Char
  | []              => []
  | [c]             => [c]
  | c :: d :: rest  => if c = '\\' then d :: unescape rest else c :: unescape (d :: rest)

theorem unescape_cons {c : Char} (hc : c ≠ '\\') (rest : List Char) :
    unescape (c :: rest) = c :: unescape rest := by
  cases rest with
  | nil => rfl
  | cons d rest => exact if_neg hc

theorem unescape_escape (s : List Char) : unescape (s.flatMap escapeChar) = s := by
  induction s with
  | nil => rfl
  | cons c s ih =>
      rw [List.flatMap_cons]
      by_cases hbackslash : c = '\\'
      · subst hbackslash
        show '\\' :: unescape (s.flatMap escapeChar) = _
        rw [ih]
      · by_cases hcolon : c = ':'
        · subst hcolon
          show ':' :: unescape (s.flatMap escapeChar) = _
          rw [ih]
        · have hself : escapeChar c = [c] := by
            rw [escapeChar, escapeBackslash, if_neg hbackslash, List.flatMap_singleton, escapeColon,
              if_neg hcolon]
          rw [hself, List.singleton_append, unescape_cons hbackslash, ih]

theorem escapePart_injective : Function.Injective escapePart := by
  intro a b h
  rw [escapePart, escapePart, String.ofList_inj, List.flatMap_assoc, List.flatMap_assoc] at h
  have hundone := congrArg unescape h
  have hescape : (fun c => (escapeBackslash c).flatMap escapeColon) = escapeChar := rfl
  rw [hescape, unescape_escape, unescape_escape] at hundone
  exact String.toList_inj.mp hundone

theorem getKey_inj {ip a b : String} (h : getKey ip a = getKey ip b) :
    normalizeEndpoint a = normalizeEndpoint b := by
  have hjoin : ∀ e, rateLimitKey [ip, e] = escapePart ip ++ ":" ++ escapePart e := fun _ => rfl
  rw [getKey, getKey, hjoin, hjoin] at h
  exact escapePart_injective ((String.append_right_inj _).mp h)

/-! ## Counting what is allowed -/

variable {σ : Type} {store : CountingStore σ} {config : BetterAuthRateLimit} {ip : String}

/-- The requests of one kind that are allowed. -/
def allowedOf (store : CountingStore σ) (config : BetterAuthRateLimit) (ip : String)
    (q : String → Bool) :
    σ → List String → Nat
  | _, []            => 0
  | s, path :: paths =>
      (if (q path && (check store config ip path s).1.allowed) = true then 1 else 0) +
        allowedOf store config ip q (check store config ip path s).2 paths

theorem countP_checks (s : σ) (paths : List String) :
    (checks store config ip s paths).countP (fun result => result.allowed) =
      allowedOf store config ip (fun _ => true) s paths := by
  induction paths generalizing s with
  | nil => rfl
  | cons path paths ih =>
      rw [checks, allowedOf, ← ih, Bool.true_and]
      exact (List.countP_cons ..).trans (Nat.add_comm _ _)

/-- Two kinds make all. -/
theorem allowedOf_split (store : CountingStore σ) (config : BetterAuthRateLimit) (ip : String)
    (q : String → Bool) (s : σ) (paths : List String) :
    allowedOf store config ip q s paths + allowedOf store config ip (fun path => !q path) s paths =
      allowedOf store config ip (fun _ => true) s paths := by
  induction paths generalizing s with
  | nil => rfl
  | cons path paths ih =>
      rw [allowedOf, allowedOf, allowedOf, ← ih]
      cases q path with
      | true =>
          rw [Bool.true_and, Bool.not_true, Bool.false_and, if_neg Bool.false_ne_true]
          omega
      | false =>
          rw [Bool.false_and, Bool.not_false, Bool.true_and, if_neg Bool.false_ne_true]
          omega

theorem allowedOf_le_length (q : String → Bool) (s : σ) (paths : List String) :
    allowedOf store config ip q s paths ≤ paths.length := by
  induction paths generalizing s with
  | nil => exact Nat.le_refl 0
  | cons path paths ih =>
      have hrest := ih (check store config ip path s).2
      rw [allowedOf, List.length_cons]
      split
      · omega
      · omega

/-- A path that is counted, with its limit. -/
def Counted (config : BetterAuthRateLimit) (limit : Nat) (path : String) : Prop :=
  config.enabled = true ∧ config.shouldSkip path = false ∧ config.getLimit path = limit

theorem check_counted (store : CountingStore σ) (ip : String) {limit : Nat} {path : String}
    (h : Counted config limit path) (s : σ) :
    (check store config ip path s).1.allowed =
      decide (store.counts s (getKey ip path) + 1 ≤ limit) ∧
      ∀ key, store.counts (check store config ip path s).2 key =
        if key = getKey ip path then store.counts s (getKey ip path) + 1
          else store.counts s key := by
  obtain ⟨henabled, hskip, hlimit⟩ := h
  rw [check, henabled, hskip]
  dsimp only
  rw [Bool.not_true, if_neg Bool.false_ne_true, if_neg Bool.false_ne_true]
  dsimp only
  rw [hlimit, store.hit_count]
  exact ⟨rfl, fun key => store.hit_counts s (getKey ip path) config.windowSeconds key⟩

/-- In one counter there is room for what is left of the limit. -/
theorem allowedOf_le {limit : Nat} {key : String} {paths : List String}
    (hpaths : ∀ path ∈ paths, Counted config limit path ∧ getKey ip path = key) (q : String →
      Bool) (s : σ) :
    allowedOf store config ip q s paths ≤ limit - store.counts s key := by
  induction paths generalizing s with
  | nil => exact Nat.zero_le _
  | cons path paths ih =>
      obtain ⟨hcounted, hkey⟩ := hpaths path List.mem_cons_self
      obtain ⟨hallowed, hcounts⟩ := check_counted store ip hcounted s
      have hrest := ih (fun p hp => hpaths p (List.mem_cons_of_mem path hp))
          (check store config ip path s).2
      rw [hcounts key, hkey, if_pos rfl] at hrest
      rw [allowedOf, hallowed, hkey]
      split
      · rename_i hone
        have hroom := of_decide_eq_true (Bool.and_eq_true_iff.mp hone).2
        omega
      · omega

theorem allowedOf_eq_zero {paths : List String} (hpaths : ∀ path ∈ paths, Counted config 0 path)
    (q : String → Bool) (s : σ) : allowedOf store config ip q s paths = 0 := by
  induction paths generalizing s with
  | nil => rfl
  | cons path paths ih =>
      obtain ⟨hallowed, _⟩ := check_counted store ip (hpaths path List.mem_cons_self) s
      rw [allowedOf, hallowed, ih fun p hp => hpaths p (List.mem_cons_of_mem path hp),
        decide_eq_false (by omega), Bool.and_false, if_neg Bool.false_ne_true]

/-- The first ones of a kind are allowed, however they are counted. -/
theorem le_allowedOf {limit : Nat} {paths : List String} {q : String → Bool}
    (hpaths : ∀ path ∈ paths, Counted config limit path)
    (hq : ∀ p p', q p = true → q p' = false → getKey ip p ≠ getKey ip p') {s : σ} {most : Nat}
    (hmost : ∀ path, q path = true → store.counts s (getKey ip path) ≤ most) :
    min (paths.countP q) (limit - most) ≤ allowedOf store config ip q s paths := by
  induction paths generalizing s most with
  | nil => exact Nat.zero_le _
  | cons path paths ih =>
      have hrest := fun p hp => hpaths p (List.mem_cons_of_mem path hp)
      obtain ⟨hallowed, hcounts⟩ := check_counted store ip (hpaths path List.mem_cons_self) s
      rw [allowedOf, hallowed, List.countP_cons]
      cases hpath : q path with
      | false =>
          have hsame : ∀ p, q p = true →
              store.counts (check store config ip path s).2 (getKey ip p) ≤ most := by
            intro p hp
            rw [hcounts, if_neg (hq p path hp hpath)]
            exact hmost p hp
          have hle := ih hrest hsame
          rw [if_neg Bool.false_ne_true, Bool.false_and, if_neg Bool.false_ne_true]
          omega
      | true =>
          have hnext : ∀ p, q p = true →
              store.counts (check store config ip path s).2 (getKey ip p) ≤ most + 1 := by
            intro p hp
            rw [hcounts]
            split
            · have hle := hmost path hpath
              omega
            · exact Nat.le_succ_of_le (hmost p hp)
          have hle := ih hrest hnext
          have hcount := hmost path hpath
          rw [if_pos rfl, Bool.true_and]
          by_cases hroom : store.counts s (getKey ip path) + 1 ≤ limit
          · rw [if_pos (decide_eq_true hroom)]
            omega
          · rw [if_neg (by simpa using hroom)]
            omega

/-! ## Strict routes -/

/-- What a strict route promises of requests in one window. -/
structure Limited (store : CountingStore σ) (config : BetterAuthRateLimit) (ip : String) (s : σ)
    (urls : List Url) : Prop where
  bound   : (checks store config ip s (urls.map Url.path)).countP (fun result => result.allowed) ≤
    (config.max + 1) / 2
  counted : ∀ url ∈ urls, config.shouldSkip url.path = false

/-- The default lists are in use. -/
structure BetterAuthRateLimitOptions.Default (options : BetterAuthRateLimitOptions) : Prop where
  enabled : options.enabled ≠ some false
  skip    : options.skipEndpoints = none
  strict  : options.strictEndpoints = none

theorem Route.Serves.counted {options : BetterAuthRateLimitOptions} (hoptions : options.Default)
    {route : Route}
    (hroute : route.strict = true) {url : Url} (hurl : route.Serves url)
    (hplain : ∀ s ∈ url, s.skipped = false) :
    Counted (configure options) (((configure options).max + 1) / 2) url.path := by
  refine ⟨decide_eq_true hoptions.enabled, ?_, ?_⟩
  · have hskip : (configure options).skipEndpoints = DEFAULT_CONFIG.skipEndpoints := by
      rw [configure, hoptions.skip]
      rfl
    rw [Bool.eq_false_iff]
    intro h
    obtain ⟨s, hs, hskipped⟩ := (shouldSkip_path hskip url).mp h
    rw [hplain s hs] at hskipped
    cases hskipped
  · have hstrict : (configure options).strictEndpoints = DEFAULT_CONFIG.strictEndpoints := by
      rw [configure, hoptions.strict]
      rfl
    rw [BetterAuthRateLimit.getLimit, hstrict]
    exact if_pos (hurl.strict hroute)

/-- **Strict routes.** A strict route is limited where no segment looks like a path that is
    skipped, and where its paths share one counter, or there is room for all of them. -/
theorem strict_limited_iff (store : CountingStore σ) {s : σ}
    (hfresh : ∀ key, store.counts s key = 0)
    {options : BetterAuthRateLimitOptions} (hoptions : options.Default) (ip : String)
      {route : Route}
    (hroute : route.strict = true) {urls : List Url} (hurls : ∀ url ∈ urls, route.Serves url) :
    Limited store (configure options) ip s urls ↔
      (∀ url ∈ urls, ∀ segment ∈ url, segment.skipped = false) ∧
      (urls.length ≤ ((configure options).max + 1) / 2 ∨ (configure options).max = 0 ∨
        ∀ u ∈ urls, ∀ v ∈ urls, u.endpoint = v.endpoint) := by
  have hskip : (configure options).skipEndpoints = DEFAULT_CONFIG.skipEndpoints := by
    rw [configure, hoptions.skip]
    rfl
  have hpaths : (∀ url ∈ urls, ∀ segment ∈ url, segment.skipped = false) →
      ∀ path ∈ urls.map Url.path,
      Counted (configure options) (((configure options).max + 1) / 2) path := by
    intro hplain path hpath
    obtain ⟨url, hurl, rfl⟩ := List.mem_map.mp hpath
    exact (hurls url hurl).counted hoptions hroute (hplain url hurl)
  constructor
  · rintro ⟨hbound, hcounted⟩
    have hplain : ∀ url ∈ urls, ∀ segment ∈ url, segment.skipped = false := by
      intro url hurl segment hsegment
      rw [Bool.eq_false_iff]
      intro hskipped
      have hexempt := (shouldSkip_path hskip url).mpr ⟨segment, hsegment, hskipped⟩
      rw [hcounted url hurl] at hexempt
      cases hexempt
    refine ⟨hplain, ?_⟩
    by_contra hnone
    rw [not_or, not_or] at hnone
    obtain ⟨hmany, hmax, hdiffer⟩ := hnone
    simp only [not_forall] at hdiffer
    obtain ⟨u, hu, v, hv, hne⟩ := hdiffer
    -- the requests that end as one of them does, and the others
    let q : String → Bool := fun path => decide (normalizeEndpoint path = u.endpoint)
    have hq : ∀ p p', q p = true → q p' = false → getKey ip p ≠ getKey ip p' := by
      intro p p' hp hp' hkey
      exact of_decide_eq_false hp' ((getKey_inj hkey).symm.trans (of_decide_eq_true hp))
    have hq' : ∀ p p', (!q p) = true → (!q p') = false → getKey ip p ≠ getKey ip p' := by
      intro p p' hp hp' hkey
      exact hq p' p (by simpa using hp') (by simpa using hp) hkey.symm
    have hzero : ∀ (r : String → Bool) path, r path = true → store.counts s (getKey ip path) ≤ 0 :=
      fun _ path _ => Nat.le_of_eq (hfresh _)
    have hfirst := le_allowedOf (hpaths hplain) hq (hzero q)
    have hsecond := le_allowedOf (hpaths hplain) hq' (hzero fun path => !q path)
    have hsplit := allowedOf_split store (configure options) ip q s (urls.map Url.path)
    have hlength : (urls.map Url.path).countP q + (urls.map Url.path).countP (fun path => !q path) =
        urls.length := by
      have hall := List.length_eq_countP_add_countP q (l := urls.map Url.path)
      rw [List.length_map] at hall
      simpa using hall.symm
    have hone : 0 < (urls.map Url.path).countP q :=
      List.countP_pos_iff.mpr ⟨u.path, List.mem_map.mpr ⟨u, hu, rfl⟩,
        decide_eq_true (normalizeEndpoint_path (hplain u hu))⟩
    have htwo : 0 < (urls.map Url.path).countP (fun path => !q path) := by
      refine List.countP_pos_iff.mpr ⟨v.path, List.mem_map.mpr ⟨v, hv, rfl⟩, ?_⟩
      have hother : q v.path = false := by
        refine decide_eq_false ?_
        rw [normalizeEndpoint_path (hplain v hv)]
        exact fun heq => hne heq.symm
      rw [hother]
      rfl
    rw [countP_checks] at hbound
    omega
  · rintro ⟨hplain, hroom⟩
    refine ⟨?_, fun url hurl => (hpaths hplain _ (List.mem_map.mpr ⟨url, hurl, rfl⟩)).2.1⟩
    rw [countP_checks]
    rcases hroom with hfew | hmax | hsame
    · exact (allowedOf_le_length _ s _).trans ((List.length_map _).trans_le hfew)
    · exact Nat.le_trans (Nat.le_of_eq (allowedOf_eq_zero (fun path hpath => by
        have hcounted := hpaths hplain path hpath
        rwa [hmax] at hcounted) _ s)) (Nat.zero_le _)
    · cases urls with
      | nil => exact Nat.zero_le _
      | cons u rest =>
          have hkey : ∀ path ∈ (u :: rest).map Url.path,
              getKey ip path = rateLimitKey [ip, u.endpoint] := by
            intro path hpath
            obtain ⟨v, hv, rfl⟩ := List.mem_map.mp hpath
            rw [getKey, normalizeEndpoint_path (hplain v hv), hsame u List.mem_cons_self v hv]
          exact (allowedOf_le (fun path hpath => ⟨hpaths hplain path hpath, hkey path hpath⟩) _
            s).trans
            (Nat.sub_le _ _)

/-! ## A path of each token -/

/-- Counts in a function. -/
def exactStore : CountingStore (String → Nat) where
  hit s key windowSeconds :=
    ({ count := s key + 1, resetIn := windowSeconds }, fun other => if other = key then s key + 1
      else s other)
  counts s key            := s key
  hit_count _ _ _         := rfl
  hit_counts _ _ _ _      := rfl

def resetPassword : Segment := Segment.ofText "reset-password" (by decide) (by decide)

/-- `/reset-password/:token` -/
def resetRoute : Route := [.fixed resetPassword,
    .param (Segment.ofText "token" (by decide) (by decide))]

def resetUrls : List Url :=
  [[resetPassword, Segment.ofText "a" (by decide) (by decide)],
    [resetPassword, Segment.ofText "b" (by decide) (by decide)]]

theorem resetRoute_serves (token : Segment) : resetRoute.Serves [resetPassword, token] :=
  .cons rfl (.cons trivial .nil)

/-- A limit of one, and two tokens: both requests are allowed. -/
theorem strict_not_limited : resetRoute.strict = true ∧ (∀ url ∈ resetUrls, resetRoute.Serves url) ∧
    ¬ Limited exactStore (configure { max := some 2 }) "203.0.113.7" (fun _ => 0) resetUrls := by
  refine ⟨by decide +kernel, ?_, ?_⟩
  · intro url hurl
    rcases List.mem_cons.mp hurl with rfl | hurl
    · exact resetRoute_serves _
    · rw [List.mem_singleton.mp hurl]
      exact resetRoute_serves _
  · rintro ⟨hbound, _⟩
    exact absurd hbound (by decide +kernel)

theorem strict_limited_iff_once : Limited exactStore (configure { max := some 2 }) "203.0.113.7"
    (fun _ => 0)
    [[resetPassword, Segment.ofText "a" (by decide) (by decide)]] := by
  have hoptions : BetterAuthRateLimitOptions.Default { max := some 2 } := ⟨by decide, rfl, rfl⟩
  have hroute : resetRoute.strict = true := by decide +kernel
  refine (strict_limited_iff exactStore (fun _ => rfl) hoptions "203.0.113.7" hroute ?_).mpr
    ⟨?_, Or.inl (by decide)⟩
  · intro url hurl
    rw [List.mem_singleton.mp hurl]
    exact resetRoute_serves _
  · intro url hurl
    rw [List.mem_singleton.mp hurl]
    decide +kernel

end RateLimit
