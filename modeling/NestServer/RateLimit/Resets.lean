import NestServer.EscapedJoin
import NestServer.Glob
import NestServer.RateLimit.BetterAuth
import NestServer.RateLimit.HitScript

/-! # Keys and resets

    `rateLimitKey` joins what callers control into one key, and a reset deletes
    the keys that start with the parts of one caller: in the store of a process
    by comparing, in Redis by a pattern.  `rateLimitKey` escapes the separator
    within a part and `redisKeyPattern` what a pattern would not take literally;
    `resets_exact` says that the two come out as one. -/

namespace RateLimit

/-- `s.startsWith(t)` -/
def startsWith (s t : String) : Bool := decide (t.toList <+: s.toList)

/-- `` `${rateLimitKey(...parts)}:` `` -/
def rateLimitKeyPrefix (parts : List String) : String := rateLimitKey parts ++ ":"

/-- `/[?[\]*\\^]/` -/
def globMetacharacter (c : Char) : Bool := ['?', '[', ']', '*', '\\', '^'].contains c

def escapeGlob (value : String) : String :=
  String.ofList (value.toList.flatMap fun c => if globMetacharacter c then ['\\', c] else [c])

namespace InMemoryRateLimitStore

def resetByPrefix (s : InMemoryRateLimitStore) (start : String) : InMemoryRateLimitStore :=
  { s with store := s.store.filterKeys fun key => !startsWith key start }

end InMemoryRateLimitStore

namespace RedisRateLimitStore

variable (store : RedisRateLimitStore)

def redisKeyPattern (start : String) : String := escapeGlob (store.redisKey start) ++ "*"

/-- The answers to one `SCAN ... MATCH` from its first cursor to its last: keys that match, some
    perhaps twice, and every one that is there all the while. -/
structure ScanOf (db : RedisDb) (pattern : String) (pages : List (List String)) : Prop where
  sound    : ∀ page ∈ pages, ∀ key ∈ page, Glob.accepts pattern key = true
  complete : ∀ key, (db.get? key).isSome = true → Glob.accepts pattern key = true →
    ∃ page ∈ pages, key ∈ page

/-- What is deleted page by page. -/
def deleteByPattern (db : RedisDb) (pages : List (List String)) : RedisDb :=
  pages.foldl (fun db keys => db.filterKeys fun key => !keys.contains key) db

/-- Redis is reached. -/
def resetByPrefix (fallback : InMemoryRateLimitStore) (db : RedisDb) (start : String)
    (pages : List (List String)) : InMemoryRateLimitStore × RedisDb :=
  (fallback.resetByPrefix start, deleteByPattern db pages)

end RedisRateLimitStore

/-! ## Keys -/

/-- `:` between the parts, and `\` in front of one within a part. -/
def keyAlphabet : EscapedJoin.Alphabet Char where
  separator := ':'
  escape    := '\\'
  distinct  := by decide

theorem escapePart_toList (p : String) : (escapePart p).toList = keyAlphabet.part p.toList := by
  rw [escapePart, String.toList_ofList, List.flatMap_assoc]
  refine congrArg (fun f => p.toList.flatMap f) (funext fun c => ?_)
  show (escapeBackslash c).flatMap escapeColon = if c = '\\' ∨ c = ':' then ['\\', c] else [c]
  by_cases hbackslash : c = '\\'
  · subst hbackslash
    rfl
  · rw [escapeBackslash, if_neg hbackslash, List.flatMap_singleton, escapeColon]
    by_cases hcolon : c = ':'
    · rw [if_pos hcolon, if_pos (.inr hcolon), hcolon]
    · rw [if_neg hcolon, if_neg (not_or_intro hbackslash hcolon)]

theorem rateLimitKey_toList (parts : List String) :
    (rateLimitKey parts).toList = keyAlphabet.join (parts.map String.toList) := by
  rw [rateLimitKey]
  induction parts with
  | nil => rfl
  | cons p parts ih =>
      cases parts with
      | nil => exact escapePart_toList p
      | cons q parts =>
          rw [List.map_cons, List.map_cons, String.intercalate_cons_cons, String.toList_append,
            String.toList_append, ← List.map_cons, ih, escapePart_toList, List.append_assoc]
          rfl

theorem map_toList_inj {ps qs : List String} : ps.map String.toList = qs.map String.toList ↔
    ps = qs :=
  (List.map_injective_iff.mpr fun _ _ => String.toList_inj.mp).eq_iff

theorem map_toList_ne_nil {ps : List String} (h : ps ≠ []) : ps.map String.toList ≠ [] := by
  rw [ne_eq, List.map_eq_nil_iff]
  exact h

theorem rateLimitKey_injective {ps qs : List String} (hps : ps ≠ []) (hqs : qs ≠ [])
    (h : rateLimitKey ps = rateLimitKey qs) : ps = qs := by
  have hjoin : keyAlphabet.join (ps.map String.toList) =
      keyAlphabet.join (qs.map String.toList) := by
    rw [← rateLimitKey_toList, ← rateLimitKey_toList, h]
  exact map_toList_inj.mp (keyAlphabet.join_injective (map_toList_ne_nil hps)
    (map_toList_ne_nil hqs) hjoin)

theorem startsWith_rateLimitKeyPrefix {ps qs : List String} (hps : ps ≠ []) (hqs : qs ≠ []) :
    startsWith (rateLimitKey qs) (rateLimitKeyPrefix ps) = true ↔ ∃ rs, rs ≠ [] ∧
      qs = ps ++ rs := by
  have htext : (rateLimitKeyPrefix ps).toList
      = keyAlphabet.join (ps.map String.toList) ++ [keyAlphabet.separator] := by
    rw [rateLimitKeyPrefix, String.toList_append, rateLimitKey_toList]
    rfl
  rw [startsWith, decide_eq_true_eq, htext, rateLimitKey_toList,
    keyAlphabet.join_prefix_iff (map_toList_ne_nil hps) (map_toList_ne_nil hqs)]
  constructor
  · rintro ⟨rs, hrs, h⟩
    -- what is left of the texts is what is left of the parts
    obtain ⟨left, right, rfl, hleft, rfl⟩ := List.map_eq_append_iff.mp h
    refine ⟨right, ?_, ?_⟩
    · rintro rfl
      exact hrs rfl
    · rw [map_toList_inj.mp hleft]
  · rintro ⟨rs, hrs, rfl⟩
    exact ⟨rs.map String.toList, map_toList_ne_nil hrs, List.map_append⟩

/-! ## Patterns -/

theorem accepts_redisKeyPattern (store : RedisRateLimitStore) (start key : String) :
    Glob.accepts (store.redisKeyPattern start) key = startsWith key (store.redisKey start) := by
  have hspecial : ∀ c ∈ Glob.special, globMetacharacter c = true := by
    intro c hc
    simp only [Glob.special, List.mem_cons, List.not_mem_nil, or_false] at hc
    rcases hc with rfl | rfl | rfl | rfl <;> rfl
  have htokens : Glob.tokens none (store.redisKeyPattern start).toList
      = (store.redisKey start).toList.map .char ++ [.star] := by
    rw [RedisRateLimitStore.redisKeyPattern, String.toList_append, escapeGlob, String.toList_ofList,
      Glob.tokens_literal hspecial]
    rfl
  rw [Bool.eq_iff_iff, Glob.accepts, htokens, Glob.matchesTokens_literal_star, startsWith,
    decide_eq_true_eq]

/-- Within one namespace the keys in Redis start alike where the keys of the callers do. -/
theorem startsWith_redisKey (store : RedisRateLimitStore) (key start : String) :
    startsWith (store.redisKey key) (store.redisKey start) = startsWith key start := by
  rw [startsWith, startsWith, store.redisKey_eq, store.redisKey_eq, String.toList_append,
    String.toList_append]
  exact decide_eq_decide.mpr (List.prefix_append_right_inj _)

/-! ## Resets -/

theorem get?_resetByPrefix (s : InMemoryRateLimitStore) (start key : String) :
    (s.resetByPrefix start).store.get? key = if startsWith key start then none
      else s.store.get? key := by
  rw [InMemoryRateLimitStore.resetByPrefix, OrderedMap.get?_filterKeys]
  cases startsWith key start <;> rfl

theorem get?_deleteByPattern (db : RedisDb) (pages : List (List String)) (key : String) :
    (RedisRateLimitStore.deleteByPattern db pages).get? key
      = if ∃ page ∈ pages, key ∈ page then none else db.get? key := by
  induction pages generalizing db with
  | nil => rw [if_neg (by simp)]; rfl
  | cons page pages ih =>
      show (RedisRateLimitStore.deleteByPattern (db.filterKeys fun key =>
          !page.contains key) pages).get? key = _
      rw [ih, OrderedMap.get?_filterKeys]
      by_cases hpage : key ∈ page
      · rw [if_pos (⟨page, List.mem_cons_self, hpage⟩ : ∃ p ∈ page :: pages, key ∈ p)]
        simp [hpage]
      · have hlater : (∃ p ∈ page :: pages, key ∈ p) ↔ ∃ p ∈ pages, key ∈ p := by simp [hpage]
        rw [if_congr hlater rfl rfl]
        simp [hpage]

theorem get?_deleteByPattern_scan {db : RedisDb} {pattern : String} {pages : List (List String)}
    (h : RedisRateLimitStore.ScanOf db pattern pages) (key : String) :
    (RedisRateLimitStore.deleteByPattern db pages).get? key
      = if Glob.accepts pattern key then none else db.get? key := by
  rw [get?_deleteByPattern]
  by_cases hmem : ∃ page ∈ pages, key ∈ page
  · obtain ⟨page, hpage, hkey⟩ := hmem
    rw [if_pos ⟨page, hpage, hkey⟩, if_pos (h.sound page hpage key hkey)]
  · rw [if_neg hmem]
    by_cases haccepts : Glob.accepts pattern key = true
    · rw [if_pos haccepts]
      -- a key that is there and matches has been answered
      cases hget : db.get? key with
      | none => rfl
      | some value => exact absurd (h.complete key (by rw [hget]; rfl) haccepts) hmem
    · rw [if_neg haccepts]

/-- **Keys are unambiguous and resets exact.** -/
theorem resets_exact (store : RedisRateLimitStore) (s : InMemoryRateLimitStore) (db : RedisDb)
    (ip : String)
    (pages : List (List String))
    (hscan : RedisRateLimitStore.ScanOf db (store.redisKeyPattern (rateLimitKeyPrefix [ip]))
      pages) :
    (∀ ps qs : List String, ps ≠ [] → qs ≠ [] → rateLimitKey ps = rateLimitKey qs → ps = qs)
      ∧ (∀ ps qs : List String, ps ≠ [] → qs ≠ [] →
          (startsWith (rateLimitKey qs) (rateLimitKeyPrefix ps) = true ↔ ∃ rs, rs ≠ [] ∧
            qs = ps ++ rs))
      ∧ (∀ start key : String, Glob.accepts (store.redisKeyPattern start) key = true
          ↔ startsWith key (store.redisKey start) = true)
      ∧ (∀ qs : List String, qs ≠ [] →
          let after := RedisRateLimitStore.resetByPrefix s db (rateLimitKeyPrefix [ip]) pages
          ((∃ rs, rs ≠ [] ∧ qs = ip :: rs) →
            (s.resetByPrefix (rateLimitKeyPrefix [ip])).store.get? (rateLimitKey qs) = none
              ∧ after.2.get? (store.redisKey (rateLimitKey qs)) = none)
          ∧ ((¬ ∃ rs, rs ≠ [] ∧ qs = ip :: rs) →
            (s.resetByPrefix (rateLimitKeyPrefix [ip])).store.get? (rateLimitKey qs) =
              s.store.get? (rateLimitKey qs)
              ∧ after.2.get? (store.redisKey (rateLimitKey qs)) =
                db.get? (store.redisKey (rateLimitKey qs)))) := by
  refine ⟨fun ps qs hps hqs => rateLimitKey_injective hps hqs,
    fun ps qs hps hqs => startsWith_rateLimitKeyPrefix hps hqs,
    fun start key => by rw [accepts_redisKeyPattern], ?_⟩
  intro qs hqs
  have hstarts : startsWith (rateLimitKey qs) (rateLimitKeyPrefix [ip]) = true ↔ ∃ rs, rs ≠ [] ∧
      qs = ip :: rs :=
    startsWith_rateLimitKeyPrefix (List.cons_ne_nil ip []) hqs
  dsimp only [RedisRateLimitStore.resetByPrefix]
  rw [get?_resetByPrefix, get?_deleteByPattern_scan hscan, accepts_redisKeyPattern,
    startsWith_redisKey]
  constructor
  · intro h
    rw [if_pos (hstarts.mpr h), if_pos (hstarts.mpr h)]
    exact ⟨rfl, rfl⟩
  · intro h
    rw [if_neg fun hs => h (hstarts.mp hs), if_neg fun hs => h (hstarts.mp hs)]
    exact ⟨rfl, rfl⟩

/-- The limiter of the logins, in the Redis of one application. -/
def loginStore : RedisRateLimitStore := { keyPrefix := "app", storeNamespace := "auth" }

/-- A reset of an address with a separator deletes its counter, and not that of a longer one. -/
theorem reset_address :
    ((({} : InMemoryRateLimitStore).hit (rateLimitKey ["::1", "login"]) 60 0 0).2.resetByPrefix
        (rateLimitKeyPrefix ["::1"])).store.get? (rateLimitKey ["::1", "login"]) = none
      ∧ ((({} : InMemoryRateLimitStore).hit (rateLimitKey ["::12", "login"]) 60 0 0).2.resetByPrefix
        (rateLimitKeyPrefix ["::1"])).store.get? (rateLimitKey ["::12", "login"])
        = some { count := 1, resetTime := 60000 } := by
  have hscan : RedisRateLimitStore.ScanOf OrderedMap.empty
      (loginStore.redisKeyPattern (rateLimitKeyPrefix ["::1"])) [] := by
    constructor
    · intro page h
      cases h
    · intro key h
      cases h
  constructor
  · exact ((resets_exact loginStore _ OrderedMap.empty "::1" [] hscan).2.2.2 ["::1",
      "login"] (by simp)).1
      ⟨["login"], by simp, rfl⟩ |>.1
  · have hother : ¬ ∃ rs : List String, rs ≠ [] ∧ ["::12", "login"] = "::1" :: rs := by simp
    rw [(((resets_exact loginStore _ OrderedMap.empty "::1" [] hscan).2.2.2 ["::12",
      "login"] (by simp)).2
      hother).1]
    decide +kernel

end RateLimit
