import NestServer.RoleChanges

/-! # Changes of roles take effect

    Runs of `mapSessionUser` beside `setRoles` and `update`.  `Inv` says where
    everything that a call may answer with comes from: the document has the last
    change, a cached entry none that is older than a returned one. -/

namespace SessionUserMapper

variable {c : Setup}

/-! ## The cache -/

theorem get?_of_delete {cache : UserCache} {key k : String} {e : CachedUserData}
    (h : (cache.delete key).get? k = some e) : cache.get? k = some e := by
  by_cases hk : k = key
  · rw [hk, OrderedMap.get?_delete_self] at h
    cases h
  · rw [OrderedMap.get?_delete_of_ne _ hk] at h
    exact h

theorem get?_of_evictOldest {cache : UserCache} {k : String} {e : CachedUserData}
    (h : (evictOldest cache).get? k = some e) : cache.get? k = some e := by
  rw [evictOldest.eq_def] at h
  split at h
  · split at h
    · split at h
      · exact get?_of_delete h
      · exact h
    · exact h
  · exact h

/-- An entry is the one that is filed, or was there before. -/
theorem get?_of_cacheUserData {cache : UserCache} {key k : String} {data e : CachedUserData}
    (h : (cacheUserData cache key data).get? k = some e) :
    (k = key ∧ e = data) ∨ (k ≠ key ∧ cache.get? k = some e) := by
  rw [cacheUserData] at h
  by_cases hk : k = key
  · rw [hk, OrderedMap.get?_set_self] at h
    exact Or.inl ⟨hk, (Option.some.inj h).symm⟩
  · rw [OrderedMap.get?_set_of_ne _ _ hk] at h
    exact Or.inr ⟨hk, get?_of_evictOldest h⟩

theorem get?_of_invalidateAfter {cache : UserCache} {iamId : Option String} {k : String}
    {e : CachedUserData} (h : (invalidateAfter c cache iamId).get? k = some e) :
    cache.get? k = some e := by
  rw [invalidateAfter.eq_def] at h
  split at h
  · split at h
    · exact get?_of_delete h
    · exact h
  · exact h

theorem get?_invalidateAfter_self {cache : UserCache} {id : String}
    (hmapper : c.betterAuthUserMapper = true) (hid : JsText.truthy id = true) :
    (invalidateAfter c cache (some id)).get? id = none := by
  rw [invalidateAfter, if_pos (by rw [hmapper, hid]; rfl)]
  exact OrderedMap.get?_delete_self cache id

/-- A call that answers at once answers with an entry. -/
theorem startMapping_returned {cache : UserCache} {now : Nat} {session : SessionUser}
    {user : MappedUser} (h : startMapping c.platform cache now session = .returned (some user)) :
    ∃ e, cache.get? session.id = some e ∧ user.roles = e.roles ∧
      user.verified = some e.verified := by
  rw [startMapping.eq_def] at h
  split at h
  · cases h
  · -- there is a connection
    rw [show (!c.platform.connection) = false from rfl, if_neg Bool.false_ne_true] at h
    split at h
    · rename_i cached hcached
      split at h
      · rw [← Option.some.inj (Started.returned.inj h)]
        split at hcached
        · exact ⟨cached, hcached, rfl, rfl⟩
        · cases hcached
      · cases h
    · cases h

theorem startMapping_lookup {cache : UserCache} {now : Nat} {session : SessionUser}
    (h : startMapping c.platform cache now session = .lookup) :
    JsText.truthy session.id = true := by
  rw [startMapping.eq_def] at h
  split at h
  · cases h
  · rename_i hok
    simp only [Bool.or_eq_true, Bool.not_eq_true', not_or, Bool.not_eq_false] at hok
    exact hok.1

/-! ## What stays -/

theorem Stamp.le_refl (a : Stamp) : a.le a := ⟨Nat.le_refl _, Nat.le_refl _⟩

theorem Stamp.le_trans {a b d : Stamp} (h : a.le b) (h' : b.le d) : a.le d :=
  ⟨Nat.le_trans h.1 h'.1, Nat.le_trans h.2 h'.2⟩

theorem Stamp.le_join (a b : Stamp) : a.le (a.join b) := ⟨Nat.le_max_left _ _, Nat.le_max_left _ _⟩

theorem Stamp.join_zero (a : Stamp) : a.join ⟨0, 0⟩ = a := by
  rw [Stamp.join, Nat.max_zero, Nat.max_zero]

/-- What a step never takes back. -/
structure Grows (s s' : Replica) : Prop where
  rolesLog    : s.rolesLog <+: s'.rolesLog
  verifiedLog : s.verifiedLog <+: s'.verifiedLog
  sessions    : s.sessions ⊆ s'.sessions
  iamId       : s'.user.iamId = s.user.iamId
  settled     : s.settled.le s'.settled

section Grows

variable {s s' : Replica} {since since' : Stamp} {id : String} {roles : List String}
  {verified : Option Bool}

theorem drop_subset_of_prefix {α : Type} {l l' : List α} (h : l <+: l') (k : Nat) :
    l.drop k ⊆ l'.drop k := by
  obtain ⟨t, rfl⟩ := h
  rw [List.drop_append]
  exact List.subset_append_left _ _

theorem Fresh.mono (hg : Grows s s') (h : Fresh s since id roles verified) :
    Fresh s' since id roles verified := by
  obtain ⟨⟨v, hv, hroles⟩, w, hw, x, hx, hid, hverified⟩ := h
  exact ⟨⟨v, drop_subset_of_prefix hg.rolesLog _ hv, hroles⟩, w,
    drop_subset_of_prefix hg.verifiedLog _ hw, x, hg.sessions hx, hid, hverified⟩

theorem mem_drop_of_getElem? {α : Type} {l : List α} {k i : Nat} {v : α} (hk : k ≤ i)
    (h : l[i]? = some v) : v ∈ l.drop k := by
  refine List.mem_of_getElem? (i := i - k) ?_
  rw [List.getElem?_drop, Nat.add_sub_cancel' hk]
  exact h

theorem getElem?_of_prefix {α : Type} {l l' : List α} (h : l <+: l') {i : Nat} {v : α}
    (hv : l[i]? = some v) : l'[i]? = some v := by
  obtain ⟨t, rfl⟩ := h
  have hlt := (List.getElem?_eq_some_iff.mp hv).1
  rw [List.getElem?_append_left hlt]
  exact hv

end Grows

/-! ## The invariant -/

/-- Where what a call has so far comes from. -/
def Supported (s : Replica) : Pending → Prop
  | .lookup session since =>
      session ∈ s.sessions ∧ JsText.truthy session.id = true ∧ since.le s.settled
  | .answered session since dbUser readAt =>
      session ∈ s.sessions ∧ JsText.truthy session.id = true ∧ since.le readAt ∧
        s.rolesLog[readAt.roles]? = some dbUser.roles ∧
        s.verifiedLog[readAt.verified]? = some dbUser.verified
  | .updating _ oldUser => oldUser.iamId = s.user.iamId
  | .merging _ oldUser dbObject =>
      oldUser.iamId = s.user.iamId ∧ dbObject.iamId = s.user.iamId
  | .written iamId invalidates stamp =>
      iamId = s.user.iamId ∧ stamp.roles < s.rolesLog.length ∧
        stamp.verified < s.verifiedLog.length ∧ (invalidates = false → stamp = ⟨0, 0⟩)
  | .setRoles _ | .update _ | .returned => True

structure Inv (c : Setup) (s : Replica) : Prop where
  roles    : s.rolesLog.getLast? = some s.user.roles
  verified : s.verifiedLog.getLast? = some s.user.verified
  settled  : s.settled.roles < s.rolesLog.length ∧ s.settled.verified < s.verifiedLog.length
  cached   : ∀ id ∈ c.ids, ∀ e, s.cache.get? id = some e →
    JsText.truthy id = true ∧ Fresh s s.settled id e.roles (some e.verified)
  calls    : ∀ p ∈ s.calls, Supported s p
  answers  : AnswersFresh s

theorem Supported.mono {s s' : Replica} (hg : Grows s s') {p : Pending} (h : Supported s p) :
    Supported s' p := by
  cases p with
  | lookup session since =>
      exact ⟨hg.sessions h.1, h.2.1, Stamp.le_trans h.2.2 hg.settled⟩
  | answered session since dbUser readAt =>
      obtain ⟨hsession, hid, hsince, hroles, hverified⟩ := h
      exact ⟨hg.sessions hsession, hid, hsince, getElem?_of_prefix hg.rolesLog hroles,
        getElem?_of_prefix hg.verifiedLog hverified⟩
  | setRoles roles => trivial
  | update input => trivial
  | updating input oldUser => exact h.trans hg.iamId.symm
  | merging input oldUser dbObject => exact ⟨h.1.trans hg.iamId.symm, h.2.trans hg.iamId.symm⟩
  | written iamId invalidates stamp =>
      obtain ⟨hid, hroles, hverified, hno⟩ := h
      exact ⟨hid.trans hg.iamId.symm, Nat.lt_of_lt_of_le hroles hg.rolesLog.length_le,
        Nat.lt_of_lt_of_le hverified hg.verifiedLog.length_le, hno⟩
  | returned => trivial

/-- What a step has to show. -/
theorem Inv.of_grows {s s' : Replica} (hs : Inv c s) (hg : Grows s s')
    (hroles : s'.rolesLog.getLast? = some s'.user.roles)
    (hverified : s'.verifiedLog.getLast? = some s'.user.verified)
    (hsettled : s'.settled.roles < s'.rolesLog.length ∧ s'.settled.verified < s'.verifiedLog.length)
    (hcached : ∀ id ∈ c.ids, ∀ e, s'.cache.get? id = some e →
      JsText.truthy id = true ∧ Fresh s' s'.settled id e.roles (some e.verified))
    (hcalls : ∀ p ∈ s'.calls, p ∈ s.calls ∨ Supported s' p)
    (hanswers : ∀ a ∈ s'.answers, a ∈ s.answers ∨ ∀ user ∈ a.result,
      Fresh s' a.since a.session.id user.roles user.verified) : Inv c s' := by
  refine ⟨hroles, hverified, hsettled, hcached, ?_, ?_⟩
  · intro p hp
    rcases hcalls p hp with hold | hnew
    · exact (hs.calls p hold).mono hg
    · exact hnew
  · intro a ha user huser
    rcases hanswers a ha with hold | hnew
    · exact (hs.answers a hold user huser).mono hg
    · exact hnew user huser

/-- Entries that were there before, while nothing new has returned. -/
theorem Inv.cached_mono {s s' : Replica} (hs : Inv c s) (hg : Grows s s')
    (hsettled : s'.settled = s.settled) {id : String} (hid : id ∈ c.ids) {e : CachedUserData}
    (he : s.cache.get? id = some e) :
    JsText.truthy id = true ∧ Fresh s' s'.settled id e.roles (some e.verified) := by
  obtain ⟨htruthy, hfresh⟩ := hs.cached id hid e he
  refine ⟨htruthy, ?_⟩
  rw [hsettled]
  exact hfresh.mono hg

theorem inv_fresh (user : DbUser) : Inv c (fresh user) where
  roles    := rfl
  verified := rfl
  settled  := ⟨Nat.zero_lt_one, Nat.zero_lt_one⟩
  cached   := by rintro id _ e ⟨⟩
  calls    := by rintro p ⟨⟩
  answers  := by rintro a ⟨⟩

/-! ## Calls that go on -/

section Resume

variable {s : Replica} {i now : Nat}

theorem Inv.settled_le_last (hs : Inv c s) : s.settled.le s.last :=
  ⟨Nat.le_sub_one_of_lt hs.settled.1, Nat.le_sub_one_of_lt hs.settled.2⟩

theorem mem_put {q p : Pending} (h : p ∈ (s.put i q).calls) : p ∈ s.calls ∨ p = q :=
  List.mem_or_eq_of_mem_set h

theorem resume_lookup (hs : Inv c s) {session : SessionUser} {since : Stamp}
    (hp : Supported s (.lookup session since)) :
    Inv c (s.put i (.answered session since s.user s.last)) := by
  have hg : Grows s (s.put i (.answered session since s.user s.last)) :=
    ⟨List.prefix_refl _, List.prefix_refl _, List.Subset.refl _, rfl, Stamp.le_refl _⟩
  refine hs.of_grows hg hs.roles hs.verified hs.settled
    (fun id hid e he => hs.cached_mono hg rfl hid he) ?_ (fun a ha => Or.inl ha)
  intro p hmem
  rcases mem_put hmem with hold | rfl
  · exact Or.inl hold
  · right
    refine ⟨hp.1, hp.2.1, Stamp.le_trans hp.2.2 hs.settled_le_last, ?_, ?_⟩
    · have := hs.roles
      rw [List.getLast?_eq_getElem?] at this
      exact this
    · have := hs.verified
      rw [List.getLast?_eq_getElem?] at this
      exact this

/-- What a lookup answers, it answers from its read on. -/
theorem fresh_of_answered {session : SessionUser} {since readAt : Stamp} {dbUser : DbUser}
    (hp : Supported s (.answered session since dbUser readAt)) {from_ : Stamp}
    (hle : from_.le readAt) :
    Fresh s from_ session.id (dbUser.roles.getD []) (some (verifiedOf session dbUser)) := by
  obtain ⟨hsession, _, _, hroles, hverified⟩ := hp
  exact ⟨⟨dbUser.roles, mem_drop_of_getElem? hle.1 hroles, rfl⟩, dbUser.verified,
    mem_drop_of_getElem? hle.2 hverified, session, hsession, rfl, rfl⟩

theorem resume_answered (hs : Inv c s) {session : SessionUser} {since readAt : Stamp}
    {dbUser : DbUser} (hp : Supported s (.answered session since dbUser readAt))
    (hc : 0 < c.platform.ttl → s.settled.le readAt)
    {s' : Replica} (h : resume c s i now (.answered session since dbUser readAt) = some s') :
    Inv c s' := by
  obtain rfl := Option.some.inj h
  refine hs.of_grows ⟨List.prefix_refl _, List.prefix_refl _, List.Subset.refl _, rfl,
    Stamp.le_refl _⟩ hs.roles hs.verified hs.settled ?_ ?_ ?_
  · intro id hid e he
    rw [finishMapping] at he
    dsimp only at he
    split at he
    · rename_i httl
      rcases get?_of_cacheUserData he with ⟨rfl, rfl⟩ | ⟨_, he⟩
      · exact ⟨hp.2.1, fresh_of_answered hp (hc httl)⟩
      · exact hs.cached id hid e he
    · exact hs.cached id hid e he
  · intro p hmem
    rcases mem_put hmem with hold | rfl
    · exact Or.inl hold
    · exact Or.inr trivial
  · intro a ha
    rcases List.mem_cons.mp ha with rfl | hold
    · right
      rintro user ⟨⟩
      exact fresh_of_answered hp hp.2.2.1
    · exact Or.inl hold

theorem resume_setRoles (hs : Inv c s) {roles : List String} {s' : Replica}
    (h : resume c s i now (.setRoles roles) = some s') : Inv c s' := by
  have hg : Grows s s' := by
    obtain rfl := Option.some.inj h
    exact ⟨List.prefix_append _ _, List.prefix_refl _, List.Subset.refl _, rfl, Stamp.le_refl _⟩
  obtain rfl := Option.some.inj h
  have hlen : s.rolesLog.length < (s.rolesLog ++ [some roles]).length := by
    rw [List.length_append, List.length_singleton]
    omega
  refine hs.of_grows hg List.getLast?_concat hs.verified
    ⟨Nat.lt_trans hs.settled.1 hlen, hs.settled.2⟩ (fun id hid e he => hs.cached_mono hg rfl hid he)
    ?_ (fun a ha => Or.inl ha)
  intro p hmem
  rcases mem_put hmem with hold | rfl
  · exact Or.inl hold
  · exact Or.inr ⟨rfl, hlen, Nat.lt_of_le_of_lt (Nat.zero_le _) hs.settled.2, by rintro ⟨⟩⟩

/-- A call that has only read. -/
theorem resume_reading (hs : Inv c s) {q : Pending} (hq : Supported s q) : Inv c (s.put i q) := by
  have hg : Grows s (s.put i q) :=
    ⟨List.prefix_refl _, List.prefix_refl _, List.Subset.refl _, rfl, Stamp.le_refl _⟩
  refine hs.of_grows hg hs.roles hs.verified hs.settled
    (fun id hid e he => hs.cached_mono hg rfl hid he) ?_ (fun a ha => Or.inl ha)
  intro p hmem
  rcases mem_put hmem with hold | rfl
  · exact Or.inl hold
  · exact Or.inr (hq.mono hg)

theorem resume_written (hs : Inv c s) {iamId : Option String} {invalidates : Bool} {stamp : Stamp}
    (hp : Supported s (.written iamId invalidates stamp))
    (hc : invalidates = true → ∀ id ∈ c.ids, (s.cache.get? id).isSome →
      c.betterAuthUserMapper = true ∧ iamId = some id) {s' : Replica}
    (h : resume c s i now (.written iamId invalidates stamp) = some s') : Inv c s' := by
  obtain rfl := Option.some.inj h
  obtain ⟨_, hroles, hverified, hno⟩ := hp
  refine hs.of_grows ⟨List.prefix_refl _, List.prefix_refl _, List.Subset.refl _, rfl,
    Stamp.le_join _ _⟩ hs.roles hs.verified
    ⟨Nat.max_lt.mpr ⟨hs.settled.1, hroles⟩, Nat.max_lt.mpr ⟨hs.settled.2, hverified⟩⟩ ?_ ?_
    (fun a ha => Or.inl ha)
  · intro id hmem e he
    cases invalidates with
    | false =>
        -- nothing new has returned
        obtain rfl := hno rfl
        obtain ⟨htruthy, hfresh⟩ := hs.cached id hmem e he
        refine ⟨htruthy, ?_⟩
        dsimp only
        rw [Stamp.join_zero]
        exact hfresh
    | true =>
        -- the entry would be the one that was deleted
        have hbefore := get?_of_invalidateAfter he
        obtain ⟨hmapper, hiam⟩ := hc rfl id hmem (Option.isSome_of_mem hbefore)
        rw [hiam] at he
        dsimp only at he
        rw [if_pos rfl, get?_invalidateAfter_self hmapper (hs.cached id hmem e hbefore).1] at he
        cases he
  · intro p hmem
    rcases mem_put hmem with hold | rfl
    · exact Or.inl hold
    · exact Or.inr trivial

/-- A field that the input sets is the last change, and any other one stays. -/
theorem getLast?_merged {α : Type} {log : List (Option α)} {stored dbObject : Option α}
    (h : log.getLast? = some stored) (input : Option α) (hc : input = none → dbObject = stored) :
    (log ++ (input.map some).toList).getLast? = some ((input.or dbObject).or stored) := by
  cases input with
  | none =>
      rw [hc rfl, Option.none_or, Option.or_self, Option.map_none, Option.toList_none,
        List.append_nil]
      exact h
  | some v => exact List.getLast?_concat

theorem lt_merged {α : Type} (log : List (Option α)) (input : Option α) (hpos : 0 < log.length) :
    (if input.isSome then log.length else 0) < (log ++ (input.map some).toList).length := by
  cases input with
  | none =>
      rw [Option.map_none, Option.toList_none, List.append_nil]
      exact hpos
  | some v =>
      show log.length < (log ++ [some v]).length
      rw [List.length_append, List.length_singleton]
      omega

theorem resume_merging (hs : Inv c s) {input : ChangeInput} {oldUser dbObject : DbUser}
    (hp : Supported s (.merging input oldUser dbObject))
    (hc : (input.roles = none → dbObject.roles = s.user.roles) ∧
      (input.verified = none → dbObject.verified = s.user.verified))
    {s' : Replica} (h : resume c s i now (.merging input oldUser dbObject) = some s') :
    Inv c s' := by
  obtain ⟨hold, hdb⟩ := hp
  have hiam : (mergedUser s.user dbObject input).iamId = s.user.iamId := by
    rw [mergedUser, hdb, Option.or_self]
  have hg : Grows s s' := by
    obtain rfl := Option.some.inj h
    exact ⟨List.prefix_append _ _, List.prefix_append _ _, List.Subset.refl _, hiam,
      Stamp.le_refl _⟩
  obtain rfl := Option.some.inj h
  have hroles := lt_merged s.rolesLog input.roles (Nat.zero_lt_of_lt hs.settled.1)
  have hverified := lt_merged s.verifiedLog input.verified (Nat.zero_lt_of_lt hs.settled.2)
  refine hs.of_grows hg (getLast?_merged hs.roles input.roles hc.1)
    (getLast?_merged hs.verified input.verified hc.2)
    ⟨Nat.lt_of_lt_of_le hs.settled.1 hg.rolesLog.length_le,
      Nat.lt_of_lt_of_le hs.settled.2 hg.verifiedLog.length_le⟩
    (fun id hid e he => hs.cached_mono hg rfl hid he) ?_ (fun a ha => Or.inl ha)
  intro p hmem
  rcases mem_put hmem with hmem | rfl
  · exact Or.inl hmem
  · refine Or.inr ⟨hold.trans hiam.symm, hroles, hverified, ?_⟩
    intro hno
    obtain ⟨hr, hv⟩ := (Bool.or_eq_false_iff).mp hno
    rw [hr, hv]
    rfl

end Resume

/-! ## Steps and runs -/

section Step

variable {s s' : Replica}

theorem step_mapSessionUser (hs : Inv c s) {session : SessionUser} {now : Nat}
    (h : step c s (.mapSessionUser session now) = some s') : Inv c s' := by
  rw [step] at h
  split at h
  · rename_i hu
    cases hstart : startMapping c.platform s.cache now session with
    | returned user =>
        rw [hstart] at h
        have hg : Grows s s' := by
          obtain rfl := Option.some.inj h
          exact ⟨List.prefix_refl _, List.prefix_refl _, List.subset_cons_self _ _, rfl,
            Stamp.le_refl _⟩
        obtain rfl := Option.some.inj h
        refine hs.of_grows hg hs.roles hs.verified hs.settled
          (fun id hid e he => hs.cached_mono hg rfl hid he) (fun p hp => Or.inl hp) ?_
        intro a ha
        rcases List.mem_cons.mp ha with rfl | hold
        · right
          rintro user ⟨⟩
          obtain ⟨e, he, hroles, hverified⟩ := startMapping_returned hstart
          rw [hroles, hverified]
          exact (hs.cached session.id hu.2 e he).2.mono hg
        · exact Or.inl hold
    | lookup =>
        rw [hstart] at h
        have hg : Grows s s' := by
          obtain rfl := Option.some.inj h
          exact ⟨List.prefix_refl _, List.prefix_refl _, List.subset_cons_self _ _, rfl,
            Stamp.le_refl _⟩
        obtain rfl := Option.some.inj h
        refine hs.of_grows hg hs.roles hs.verified hs.settled
          (fun id hid e he => hs.cached_mono hg rfl hid he) ?_ (fun a ha => Or.inl ha)
        intro p hp
        rcases List.mem_append.mp hp with hold | hnew
        · exact Or.inl hold
        · rw [List.mem_singleton.mp hnew]
          exact Or.inr ⟨List.mem_cons_self, startMapping_lookup hstart, Stamp.le_refl _⟩
  · cases h

/-- A call that starts and has read nothing. -/
theorem step_started (hs : Inv c s) {p : Pending} (hp : Supported s p) :
    Inv c { s with calls := s.calls ++ [p] } := by
  have hg : Grows s { s with calls := s.calls ++ [p] } :=
    ⟨List.prefix_refl _, List.prefix_refl _, List.Subset.refl _, rfl, Stamp.le_refl _⟩
  refine hs.of_grows hg hs.roles hs.verified hs.settled
    (fun id hid e he => hs.cached_mono hg rfl hid he) ?_ (fun a ha => Or.inl ha)
  intro q hq
  rcases List.mem_append.mp hq with hold | hnew
  · exact Or.inl hold
  · rw [List.mem_singleton.mp hnew]
    exact Or.inr (hp.mono hg)

theorem step_fail (hs : Inv c s) {i now : Nat} (h : step c s (.fail i now) = some s') :
    Inv c s' := by
  rw [step.eq_def] at h
  dsimp only at h
  split at h
  · have hg : Grows s s' := by
      obtain rfl := Option.some.inj h
      exact ⟨List.prefix_refl _, List.prefix_refl _, List.Subset.refl _, rfl, Stamp.le_refl _⟩
    obtain rfl := Option.some.inj h
    refine hs.of_grows hg hs.roles hs.verified hs.settled
      (fun id hid e he => hs.cached_mono hg rfl hid he) ?_ ?_
    · intro p hp
      rcases mem_put hp with hold | rfl
      · exact Or.inl hold
      · exact Or.inr trivial
    · intro a ha
      rcases List.mem_cons.mp ha with rfl | hold
      · right
        rintro user ⟨⟩
      · exact Or.inl hold
  · cases h

theorem step_other (hs : Inv c s) {key : String} {data : CachedUserData}
    (h : step c s (.other key data) = some s') : Inv c s' := by
  rw [step] at h
  split at h
  · cases h
  · rename_i hkey
    have hg : Grows s s' := by
      obtain rfl := Option.some.inj h
      exact ⟨List.prefix_refl _, List.prefix_refl _, List.Subset.refl _, rfl, Stamp.le_refl _⟩
    obtain rfl := Option.some.inj h
    refine hs.of_grows hg hs.roles hs.verified hs.settled ?_ (fun p hp => Or.inl hp)
      (fun a ha => Or.inl ha)
    intro id hid e he
    dsimp only at he
    split at he
    · rcases get?_of_cacheUserData he with ⟨rfl, _⟩ | ⟨_, he⟩
      · exact absurd hid hkey
      · exact hs.cached_mono hg rfl hid he
    · exact hs.cached_mono hg rfl hid he

theorem step_inv (hs : Inv c s) {e : Event} (hc : Condition c s e) (h : step c s e = some s') :
    Inv c s' := by
  cases e with
  | mapSessionUser session now => exact step_mapSessionUser hs h
  | setRoles roles =>
      rw [step] at h
      split at h
      · rw [← Option.some.inj h]
        exact step_started hs trivial
      · cases h
  | update input =>
      rw [← Option.some.inj h]
      exact step_started hs trivial
  | fail i now => exact step_fail hs h
  | other key data => exact step_other hs h
  | resume i now =>
      obtain ⟨p, hi, hresume⟩ := Option.bind_eq_some_iff.mp h
      have hp := hs.calls p (List.mem_of_getElem? hi)
      cases p with
      | lookup session since =>
          obtain rfl := Option.some.inj hresume
          exact resume_lookup hs hp
      | answered session since dbUser readAt =>
          exact resume_answered hs hp (hc.1 session since dbUser readAt hi) hresume
      | setRoles roles => exact resume_setRoles hs hresume
      | update input =>
          obtain rfl := Option.some.inj hresume
          exact resume_reading hs rfl
      | updating input oldUser =>
          obtain rfl := Option.some.inj hresume
          exact resume_reading hs ⟨hp, rfl⟩
      | merging input oldUser dbObject =>
          exact resume_merging hs hp (hc.2.2 input oldUser dbObject hi) hresume
      | written iamId invalidates stamp =>
          refine resume_written hs hp ?_ hresume
          rintro rfl
          exact hc.2.1 iamId stamp hi
      | returned => cases hresume

end Step

/-- In every run whose steps meet the condition all answers are fresh. -/
theorem always_fresh (user : DbUser) (events : List Event)
    (hm : Runs.Meets (step c) (Condition c) (fresh user) events) :
    Runs.Always (step c) AnswersFresh (fresh user) events :=
  Runs.always_of_meets (step c) (I := Inv c) (fun _ _ _ hs hc h => step_inv hs hc h)
    (fun _ hs => hs.answers) events (fresh user) (inv_fresh user) hm

/-! ## A revoked role -/

/-- Ada is an admin; `iam1` is her id in Better-Auth, `u1` the one of her document. -/
def ada : DbUser where
  id       := "u1"
  email    := "ada@x"
  iamId    := some "iam1"
  roles    := some ["admin"]
  verified := some true

def adaSession (id : String) : SessionUser :=
  { id := id, email := "ada@x", emailVerified := some true }

def adaSetup : Setup where
  isTestEnv            := false
  betterAuthUserMapper := true
  ids                  := ["iam1", "u1"]

/-- A lookup that is filed, the revocation, and the next call. -/
theorem always_fresh_revoked :
    Runs.Always (step adaSetup) AnswersFresh (fresh ada)
      [.mapSessionUser (adaSession "iam1") 0, .resume 0 1, .resume 0 2,
        .setRoles [], .resume 1 3, .resume 1 4, .mapSessionUser (adaSession "iam1") 5] := by
  refine always_fresh ada _ ?_
  refine Runs.meets_cons _ _ rfl trivial (Runs.meets_cons _ _ rfl ?_ (Runs.meets_cons _ _ rfl ?_
    (Runs.meets_cons _ _ rfl trivial (Runs.meets_cons _ _ rfl ?_ (Runs.meets_cons _ _ rfl ?_
    (Runs.meets_cons _ _ rfl trivial trivial))))))
  · exact ⟨by rintro _ _ _ _ ⟨⟩, by rintro _ _ ⟨⟩, by rintro _ _ _ ⟨⟩⟩
  · -- the lookup is filed before a change
    refine ⟨?_, by rintro _ _ ⟨⟩, by rintro _ _ _ ⟨⟩⟩
    rintro session since dbUser readAt ⟨⟩ _
    exact Stamp.le_refl _
  · exact ⟨by rintro _ _ _ _ ⟨⟩, by rintro _ _ ⟨⟩, by rintro _ _ _ ⟨⟩⟩
  · -- the revocation returns while only `iam1` is filed
    refine ⟨by rintro _ _ _ _ ⟨⟩, ?_, by rintro _ _ _ ⟨⟩⟩
    rintro iamId stamp ⟨⟩ id hid hcached
    rcases List.mem_pair.mp hid with rfl | rfl
    · exact ⟨rfl, rfl⟩
    · cases hcached

/-- A revoked role stays: where a lookup that was read before the revocation files its
    answer after it; where the session has the id of the document; and where an update
    of another field writes the old roles back. -/
theorem revoked_role_stays :
    (∃ t, Runs.run (step adaSetup) (fresh ada)
        [.mapSessionUser (adaSession "iam1") 0, .resume 0 1, .setRoles [], .resume 1 2,
          .resume 1 3, .resume 0 4, .mapSessionUser (adaSession "iam1") 5] = some t ∧
        ¬ AnswersFresh t) ∧
      (∃ t, Runs.run (step adaSetup) (fresh ada)
        [.mapSessionUser (adaSession "u1") 0, .resume 0 1, .resume 0 2, .setRoles [],
          .resume 1 3, .resume 1 4, .mapSessionUser (adaSession "u1") 5] = some t ∧
        ¬ AnswersFresh t) ∧
      ∃ t, Runs.run (step adaSetup) (fresh ada)
        [.update { verified := some true }, .resume 0 0, .resume 0 1, .setRoles [], .resume 1 2,
          .resume 1 3, .resume 0 4, .resume 0 5, .mapSessionUser (adaSession "iam1") 6,
          .resume 2 7, .resume 2 8] = some t ∧ ¬ AnswersFresh t :=
  ⟨⟨_, rfl, by decide⟩, ⟨_, rfl, by decide⟩, _, rfl, by decide⟩

end SessionUserMapper
