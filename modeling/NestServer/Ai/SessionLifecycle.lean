import NestServer.Ai.McpSessions

/-! # The life of an MCP session

    Whoever holds what, at whatever await the requests stand: a session serves its own
    user only, and the map stays below both caps.  What has been closed stays away
    unless a POST that it has suspended comes back. -/

namespace McpSessions

open Dialogue Interleaving

namespace Store

variable {store store' : Store}

/-! ## Finding whom to evict -/

theorem older_cases {oldest : Option (String × Nat)} {key : String} {x : String × Nat}
    (h : store.older oldest key = some x) : oldest = some x ∨ x.1 = key := by
  rw [older] at h
  split at h
  · exact Or.inl h
  · dsimp only at h
    split at h
    · cases h
      exact Or.inr rfl
    · exact Or.inl h

theorem older_isSome (oldest : Option (String × Nat)) {key : String}
    (h : oldest.isSome = true ∨ (store.transports.get? key).isSome = true) :
    (store.older oldest key).isSome = true := by
  rw [older]
  cases hget : store.transports.get? key with
  | none =>
      rw [hget] at h
      rcases h with h | h
      · exact h
      · cases h
  | some e =>
      cases oldest with
      | none => rfl
      | some x =>
          dsimp only
          split
          · rfl
          · rfl

/-- The scan of some keys ends with one of them. -/
theorem foldl_older {keys : List String} (oldest : Option (String × Nat))
    (hkeys : ∀ key ∈ keys, (store.transports.get? key).isSome = true)
    (h : oldest.isSome = true ∨ keys ≠ []) :
    ∃ x, keys.foldl store.older oldest = some x ∧ (oldest = some x ∨ x.1 ∈ keys) := by
  induction keys generalizing oldest with
  | nil =>
      rcases h with h | h
      · obtain ⟨x, rfl⟩ := Option.isSome_iff_exists.mp h
        exact ⟨x, rfl, Or.inl rfl⟩
      · exact absurd rfl h
  | cons key keys ih =>
      have hfound := older_isSome oldest (Or.inr (hkeys key List.mem_cons_self))
      obtain ⟨x, hx, hcases⟩ :=
        ih _ (fun k hk => hkeys k (List.mem_cons_of_mem key hk)) (Or.inl hfound)
      refine ⟨x, hx, ?_⟩
      rcases hcases with hold | hmem
      · rcases older_cases hold with hold | hkey
        · exact Or.inl hold
        · exact Or.inr (hkey ▸ List.mem_cons_self)
      · exact Or.inr (List.mem_cons_of_mem key hmem)

theorem evictOldestOf_eq {keys : List String}
    (hkeys : ∀ key ∈ keys, (store.transports.get? key).isSome = true)
    (htruthy : ∀ key ∈ keys, JsText.truthy key = true) (hne : keys ≠ []) :
    ∃ key ∈ keys, store.evictOldestOf keys = store.evict key := by
  obtain ⟨x, hx, hcases⟩ := foldl_older none hkeys (Or.inr hne)
  rcases hcases with hnone | hmem
  · cases hnone
  · refine ⟨x.1, hmem, ?_⟩
    rw [evictOldestOf, hx]
    simp only [Option.filter_some, htruthy x.1 hmem, if_true]

/-- The keys of a user, in the order of the map. -/
def keysOf (store : Store) (user : String) : List String :=
  (store.transports.entries.filter fun x => (store.entry x.2).ownerId = user).map Prod.fst

theorem addOwned_get (perUser : OrderedMap String (List String)) (x : String × Nat)
    (user : String) :
    ((store.addOwned perUser x).get? user).getD [] =
      (perUser.get? user).getD [] ++ if (store.entry x.2).ownerId = user then [x.1] else [] := by
  rw [addOwned]
  by_cases huser : (store.entry x.2).ownerId = user
  · rw [huser, if_pos rfl]
    cases hget : perUser.get? user with
    | none => rw [OrderedMap.get?_set_self]; rfl
    | some owned => rw [OrderedMap.get?_set_self]; rfl
  · rw [if_neg huser, List.append_nil]
    split
    · rw [OrderedMap.get?_set_of_ne _ _ (Ne.symm huser)]
    · rw [OrderedMap.get?_set_of_ne _ _ (Ne.symm huser)]

theorem foldl_addOwned (xs : List (String × Nat)) (perUser : OrderedMap String (List String))
    (user : String) :
    ((xs.foldl store.addOwned perUser).get? user).getD [] =
      (perUser.get? user).getD [] ++
        (xs.filter fun x => (store.entry x.2).ownerId = user).map Prod.fst := by
  induction xs generalizing perUser with
  | nil => exact (List.append_nil _).symm
  | cons x xs ih =>
      rw [List.foldl_cons, ih, addOwned_get, List.append_assoc]
      congr 1
      by_cases huser : (store.entry x.2).ownerId = user
      · rw [if_pos huser, List.filter_cons_of_pos (by simpa using huser)]
        rfl
      · rw [if_neg huser, List.filter_cons_of_neg (by simpa using huser)]
        rfl

theorem perUser_get (store : Store) (user : String) :
    (store.perUser.get? user).getD [] = store.keysOf user := by
  rw [perUser, foldl_addOwned, OrderedMap.get?_empty]
  rfl

theorem larger_cases {largest : Option (List String)} {owned held : List String}
    (h : larger largest owned = some held) : largest = some held ∨ held = owned := by
  rw [larger] at h
  split at h
  · exact Or.inr (Option.some.inj h).symm
  · exact Or.inl h

theorem larger_le (largest : Option (List String)) (owned : List String) :
    ∃ held, larger largest owned = some held ∧ owned.length ≤ held.length ∧
      ∀ old, largest = some old → old.length ≤ held.length := by
  rw [larger]
  cases largest with
  | none => exact ⟨owned, rfl, Nat.le_refl _, by rintro old ⟨⟩⟩
  | some old =>
      by_cases hlt : old.length < owned.length
      · refine ⟨owned, if_pos (decide_eq_true hlt), Nat.le_refl _, ?_⟩
        rintro _ ⟨⟩
        omega
      · refine ⟨old, if_neg (by simpa using hlt), by omega, ?_⟩
        rintro _ ⟨⟩
        omega

/-- The scan of some lists ends with one of them that no other exceeds. -/
theorem foldl_larger (lists : List (List String)) (largest : Option (List String)) :
    (∀ held, lists.foldl larger largest = some held → largest = some held ∨ held ∈ lists) ∧
    ∀ owned, (largest = some owned ∨ owned ∈ lists) →
      ∃ held, lists.foldl larger largest = some held ∧ owned.length ≤ held.length := by
  induction lists generalizing largest with
  | nil =>
      refine ⟨fun held h => Or.inl h, ?_⟩
      rintro owned (h | h)
      · exact ⟨owned, h, Nat.le_refl _⟩
      · cases h
  | cons first lists ih =>
      obtain ⟨hfrom, hle⟩ := ih (larger largest first)
      obtain ⟨next, hnext, hfirst, hold⟩ := larger_le largest first
      refine ⟨?_, ?_⟩
      · intro held h
        rcases hfrom held h with h | h
        · rcases larger_cases h with h | rfl
          · exact Or.inl h
          · exact Or.inr List.mem_cons_self
        · exact Or.inr (List.mem_cons_of_mem first h)
      · intro owned howned
        -- what comes before is in the scan already
        have hbefore : owned.length ≤ next.length →
            ∃ held, (first :: lists).foldl larger largest = some held ∧
            owned.length ≤ held.length := by
          intro hlen
          obtain ⟨held, hheld, hnextle⟩ := hle next (Or.inl hnext)
          exact ⟨held, hheld, by omega⟩
        rcases howned with h | h
        · exact hbefore (hold owned h)
        · rcases List.mem_cons.mp h with rfl | h
          · exact hbefore hfirst
          · exact hle owned (Or.inr h)

/-! ## What the store keeps -/

/-- How many sessions of a user the map holds. -/
def held (store : Store) (user : String) : Nat :=
  store.transports.entries.countP fun x => (store.entry x.2).ownerId = user

structure Valid (store : Store) : Prop where
  key     : ∀ {sid e}, store.transports.get? sid = some e → (store.entry e).sessionId = some sid
  truthy  : ∀ {e sid}, (store.entry e).sessionId = some sid → JsText.truthy sid = true
  unique  : ∀ {e e' sid}, (store.entry e).sessionId = some sid →
    (store.entry e').sessionId = some sid → e = e'
  issued  : ∀ {e sid}, (store.entry e).sessionId = some sid → sid ∈ store.issued
  closed  : ∀ {sid}, sid ∈ store.closed → sid ∈ store.issued
  perUser : ∀ user, store.held user ≤ maxSessionsPerUser
  total   : store.transports.size ≤ maxSessions

theorem length_keysOf (store : Store) (user : String) :
    (store.keysOf user).length = store.held user := by
  rw [keysOf, held, List.length_map, List.countP_eq_length_filter]

theorem get_of_mem_keysOf {user key : String} (h : key ∈ store.keysOf user) :
    ∃ e, store.transports.get? key = some e ∧ (store.entry e).ownerId = user := by
  obtain ⟨⟨key', e⟩, hx, rfl⟩ := List.mem_map.mp h
  obtain ⟨hmem, howner⟩ := List.mem_filter.mp hx
  exact ⟨e, OrderedMap.get?_eq_some_iff.mpr hmem, of_decide_eq_true howner⟩

theorem Valid.evictOldestOf (hv : Valid store) {user : String} (hne : store.keysOf user ≠ []) :
    ∃ key e, store.transports.get? key = some e ∧ (store.entry e).ownerId = user ∧
      store.evictOldestOf (store.keysOf user) = store.evict key := by
  have hkeys : ∀ key ∈ store.keysOf user, (store.transports.get? key).isSome = true := by
    intro key hkey
    obtain ⟨e, hget, _⟩ := get_of_mem_keysOf hkey
    rw [hget]
    rfl
  have htruthy : ∀ key ∈ store.keysOf user, JsText.truthy key = true := by
    intro key hkey
    obtain ⟨e, hget, _⟩ := get_of_mem_keysOf hkey
    exact hv.truthy (hv.key hget)
  obtain ⟨key, hkey, heq⟩ := evictOldestOf_eq hkeys htruthy hne
  obtain ⟨e, hget, howner⟩ := get_of_mem_keysOf hkey
  exact ⟨key, e, hget, howner, heq⟩

/-- Room for one more: there was, or a session is evicted, an own one at the own cap. -/
theorem Valid.evictIfNeeded (hv : Valid store) (user : String) :
    (store.evictIfNeeded user = store ∧ store.held user < maxSessionsPerUser ∧
      store.transports.size < maxSessions) ∨
    ∃ key e, store.transports.get? key = some e ∧ store.evictIfNeeded user = store.evict key ∧
      (maxSessionsPerUser ≤ store.held user → (store.entry e).ownerId = user) := by
  rw [Store.evictIfNeeded]
  dsimp only
  rw [perUser_get, length_keysOf]
  split
  · rename_i hfull
    have hne : store.keysOf user ≠ [] := by
      intro hnil
      have hlen := store.length_keysOf user
      rw [hnil, List.length_nil] at hlen
      rw [← hlen] at hfull
      exact absurd hfull (by decide)
    obtain ⟨key, e, hget, howner, heq⟩ := hv.evictOldestOf hne
    exact Or.inr ⟨key, e, hget, heq, fun _ => howner⟩
  · rename_i hroom
    split
    · rename_i hsize
      exact Or.inl ⟨rfl, by omega, hsize⟩
    · rename_i hsize
      -- the map is not empty, and so is the list of who has a session
      obtain ⟨x, hx⟩ : ∃ x, x ∈ store.transports.entries := by
        refine List.exists_mem_of_ne_nil _ fun hnil => ?_
        rw [OrderedMap.size, hnil] at hsize
        exact hsize (by decide)
      have hown : x.1 ∈ store.keysOf (store.entry x.2).ownerId :=
        List.mem_map_of_mem (List.mem_filter.mpr ⟨hx, decide_eq_true rfl⟩)
      obtain ⟨hfrom, hle⟩ := foldl_larger (store.perUser.entries.map Prod.snd) none
      have howned : store.keysOf (store.entry x.2).ownerId ∈
          store.perUser.entries.map Prod.snd := by
        have hget := store.perUser_get (store.entry x.2).ownerId
        cases hlist : store.perUser.get? (store.entry x.2).ownerId with
        | none =>
            rw [hlist] at hget
            rw [← hget] at hown
            cases hown
        | some list =>
            rw [hlist] at hget
            rw [← hget]
            exact List.mem_map.mpr ⟨_, OrderedMap.get?_eq_some_iff.mp hlist, rfl⟩
      obtain ⟨largest, hlargest, hlen⟩ := hle _ (Or.inr howned)
      obtain ⟨⟨victim, list⟩, hmem, rfl⟩ : ∃ y ∈ store.perUser.entries, y.2 = largest := by
        rcases hfrom largest hlargest with h | h
        · cases h
        · exact List.mem_map.mp h
      have hlist : store.keysOf victim = list := by
        rw [← perUser_get, OrderedMap.get?_eq_some_iff.mpr hmem]
        rfl
      have hne : store.keysOf victim ≠ [] := by
        intro hnil
        have hpos := List.length_pos_of_mem hown
        rw [← hlist, hnil, List.length_nil] at hlen
        omega
      obtain ⟨key, e, hget, _, heq⟩ := hv.evictOldestOf hne
      refine Or.inr ⟨key, e, hget, ?_, fun hfull => absurd hfull hroom⟩
      rw [hlargest, Option.getD_some, ← hlist]
      exact heq

/-! ## What the operations do to it -/

/-- The entries are the same but for the times, no transport is new, and what is closed
    has an id that was issued. -/
structure Less (store store' : Store) : Prop where
  entries    : ∀ e, (store'.entry e).sessionId = (store.entry e).sessionId ∧
    (store'.entry e).ownerId = (store.entry e).ownerId
  length     : store'.entries.length = store.entries.length
  transports : store'.transports.entries.Sublist store.transports.entries
  issued     : store'.issued = store.issued
  closed     : ∀ sid ∈ store'.closed, sid ∈ store.closed ∨ ∃ e, (store.entry e).sessionId = some sid

theorem held_congr (hentries : ∀ e, (store'.entry e).ownerId = (store.entry e).ownerId)
    (user : String) :
    store'.held user = store'.transports.entries.countP fun x =>
      (store.entry x.2).ownerId = user := by
  rw [held]
  refine List.countP_congr fun x _ => ?_
  rw [hentries]

theorem Valid.less (hv : Valid store) (h : Less store store') : Valid store' := by
  refine ⟨?_, ?_, ?_, ?_, ?_, ?_, ?_⟩
  · intro sid e hget
    rw [(h.entries e).1]
    exact hv.key (OrderedMap.get?_eq_some_iff.mpr
      (h.transports.mem (OrderedMap.get?_eq_some_iff.mp hget)))
  · intro e sid hsid
    rw [(h.entries e).1] at hsid
    exact hv.truthy hsid
  · intro e e' sid hsid hsid'
    rw [(h.entries e).1] at hsid
    rw [(h.entries e').1] at hsid'
    exact hv.unique hsid hsid'
  · intro e sid hsid
    rw [(h.entries e).1] at hsid
    rw [h.issued]
    exact hv.issued hsid
  · intro sid hsid
    rw [h.issued]
    rcases h.closed sid hsid with hold | ⟨e, he⟩
    · exact hv.closed hold
    · exact hv.issued he
  · intro user
    rw [held_congr (fun e => (h.entries e).2)]
    exact Nat.le_trans h.transports.countP_le (hv.perUser user)
  · exact Nat.le_trans h.transports.length_le hv.total

theorem Less.refl (store : Store) : Less store store :=
  ⟨fun _ => ⟨rfl, rfl⟩, rfl, List.Sublist.refl _, rfl, fun _ h => Or.inl h⟩

theorem Less.trans {store'' : Store} (h : Less store store') (h' : Less store' store'') :
    Less store store'' := by
  refine ⟨fun e => ?_, h'.length.trans h.length, h'.transports.trans h.transports,
    h'.issued.trans h.issued, fun sid hsid => ?_⟩
  · exact ⟨(h'.entries e).1.trans (h.entries e).1, (h'.entries e).2.trans (h.entries e).2⟩
  · rcases h'.closed sid hsid with hold | ⟨e, he⟩
    · exact h.closed sid hold
    · exact Or.inr ⟨e, (h.entries e).1.symm.trans he⟩

theorem entry_setEntry (store : Store) (e e' : Nat) (entry : Entry) :
    (store.setEntry e entry).entry e' =
      if e' = e ∧ e < store.entries.length then entry else store.entry e' := by
  show (store.entries.set e entry).getD e' default = _
  rw [List.getD_eq_getElem?_getD, List.getElem?_set]
  by_cases he : e = e'
  · subst he
    by_cases hlt : e < store.entries.length
    · rw [if_pos rfl, if_pos hlt, if_pos ⟨rfl, hlt⟩]
      rfl
    · rw [if_pos rfl, if_neg hlt, if_neg fun h => hlt h.2, Store.entry, List.getD_eq_getElem?_getD,
        List.getElem?_eq_none (Nat.le_of_not_lt hlt)]
  · rw [if_neg he, if_neg fun h => he h.1.symm, Store.entry, List.getD_eq_getElem?_getD]

theorem less_touch (store : Store) (e now : Nat) : Less store (store.touch e now) := by
  refine ⟨fun e' => ?_, List.length_set, List.Sublist.refl _, rfl, fun _ h => Or.inl h⟩
  rw [touch, entry_setEntry]
  split
  · rename_i h
    rw [h.1]
    exact ⟨rfl, rfl⟩
  · exact ⟨rfl, rfl⟩

theorem less_setRegistry (store : Store) (sid : String) (value : Option RegistryEntry) :
    Less store (store.setRegistry sid value) :=
  ⟨fun _ => ⟨rfl, rfl⟩, rfl, List.Sublist.refl _, rfl, fun _ h => Or.inl h⟩

theorem less_registerSession (store : Store) (sid user : String) :
    Less store (store.registerSession sid user) := by
  rw [registerSession]
  split
  · exact less_setRegistry _ _ _
  · exact Less.refl _

theorem less_releaseSession (store : Store) (sid : String) :
    Less store (store.releaseSession sid) := by
  rw [releaseSession]
  split
  · exact less_setRegistry _ _ _
  · exact Less.refl _

theorem less_deleteTransport (store : Store) (sid : String) :
    Less store (store.deleteTransport sid) :=
  ⟨fun _ => ⟨rfl, rfl⟩, rfl, List.filter_sublist, rfl, fun _ h => Or.inl h⟩

theorem less_onclose (store : Store) (e : Nat) : Less store (store.onclose e) := by
  rw [onclose]
  split
  · exact Less.refl _
  · exact (less_deleteTransport _ _).trans (less_releaseSession _ _)

theorem closed_releaseSession (store : Store) (sid : String) :
    (store.releaseSession sid).closed = store.closed := by
  rw [releaseSession]
  split
  · rfl
  · rfl

theorem closed_onclose (store : Store) (e : Nat) : (store.onclose e).closed = store.closed := by
  rw [onclose]
  split
  · rfl
  · exact closed_releaseSession _ _

theorem less_close (store : Store) (e : Nat) : Less store (store.close e) := by
  have h := less_onclose store e
  refine ⟨h.entries, h.length, h.transports, h.issued, fun sid hsid => ?_⟩
  rcases List.mem_append.mp hsid with hsid | hsid
  · exact Or.inr ⟨e, Option.mem_toList.mp hsid⟩
  · exact Or.inl hsid

theorem Valid.less_evict (hv : Valid store) {key : String} {e : Nat}
    (hget : store.transports.get? key = some e) : Less store (store.evict key) := by
  have h := (less_deleteTransport store key).trans (less_releaseSession _ key)
  refine ⟨h.entries, h.length, h.transports, h.issued, fun sid hsid => ?_⟩
  rcases List.mem_cons.mp hsid with rfl | hsid
  · exact Or.inr ⟨e, hv.key hget⟩
  · exact Or.inl hsid

theorem transports_releaseSession (store : Store) (sid : String) :
    (store.releaseSession sid).transports = store.transports := by
  rw [releaseSession]
  split
  · rfl
  · rfl

theorem transports_evict (store : Store) (key : String) :
    (store.evict key).transports = store.transports.delete key :=
  transports_releaseSession _ _

/-- There is room for one more of the user, in a store that is like this one. -/
structure HasRoom (store store' : Store) (user : String) : Prop where
  less    : Less store store'
  perUser : store'.held user < maxSessionsPerUser
  total   : store'.transports.size < maxSessions

theorem Valid.hasRoom (hv : Valid store) (user : String) :
    HasRoom store (store.evictIfNeeded user) user := by
  rcases hv.evictIfNeeded user with ⟨heq, hheld, hsize⟩ | ⟨key, e, hget, heq, howner⟩
  · rw [heq]
    exact ⟨Less.refl _, hheld, hsize⟩
  · rw [heq]
    have hless := hv.less_evict hget
    have hheld : (store.evict key).held user
        + (if (store.entry e).ownerId = user then 1 else 0) = store.held user := by
      rw [held_congr (fun e => (hless.entries e).2), transports_evict]
      have hcount := OrderedMap.countP_delete hget fun x =>
          decide ((store.entry x.2).ownerId = user)
      simp only [decide_eq_true_eq] at hcount
      exact hcount
    have hsize : (store.evict key).transports.size + 1 = store.transports.size := by
      rw [transports_evict]
      exact OrderedMap.size_delete hget
    have hcap := hv.perUser user
    have htotal := hv.total
    refine ⟨hless, ?_, by omega⟩
    -- below the cap it stays so, at the cap an own session went
    by_cases hfull : maxSessionsPerUser ≤ store.held user
    · rw [if_pos (howner hfull)] at hheld
      omega
    · omega

/-- A transport that was not in the map, for which there is room. -/
theorem HasRoom.valid_set {user sid : String} {e : Nat} (hv : Valid store')
    (hroom : HasRoom store store' user) (hnew : store'.transports.get? sid = none)
    (hsid : (store'.entry e).sessionId = some sid) (howner : (store'.entry e).ownerId = user) :
    Valid { store' with transports := store'.transports.set sid e } := by
  have hentries := OrderedMap.entries_set_of_none e hnew
  refine ⟨?_, hv.truthy, hv.unique, hv.issued, hv.closed, ?_, ?_⟩
  · intro sid' e' hget
    by_cases hkey : sid' = sid
    · subst hkey
      rw [OrderedMap.get?_set_self] at hget
      rw [← Option.some.inj hget]
      exact hsid
    · rw [OrderedMap.get?_set_of_ne _ _ hkey] at hget
      exact hv.key hget
  · intro user'
    show List.countP _ (store'.transports.set sid e).entries ≤ _
    rw [hentries, List.countP_append, List.countP_singleton]
    by_cases huser : user' = user
    · subst huser
      have hcount : store'.held user' < maxSessionsPerUser := hroom.perUser
      rw [held] at hcount
      split
      · exact hcount
      · exact Nat.le_of_lt hcount
    · rw [if_neg]
      · exact hv.perUser user'
      · intro h
        exact huser ((of_decide_eq_true h).symm.trans howner)
  · show (store'.transports.set sid e).size ≤ _
    rw [OrderedMap.size_set_of_none e hnew]
    exact hroom.total

/-- The store after an answer has at least the entries it had, with their owners. -/
structure Extends (store store' : Store) : Prop where
  length : store.entries.length ≤ store'.entries.length
  owner  : ∀ e < store.entries.length, (store'.entry e).ownerId = (store.entry e).ownerId

theorem Less.extends (h : Less store store') : Extends store store' :=
  ⟨Nat.le_of_eq h.length.symm, fun e _ => (h.entries e).2⟩

theorem Extends.trans {store'' : Store} (h : Extends store store') (h' : Extends store' store'') :
    Extends store store'' :=
  ⟨Nat.le_trans h.length h'.length, fun e he =>
    (h'.owner e (Nat.lt_of_lt_of_le he h.length)).trans (h.owner e he)⟩

theorem entry_newSession (store : Store) (user : String) (now e : Nat) :
    (store.newSession user now).2.entry e =
      if e = store.entries.length then { lastUsed := now, ownerId := user } else store.entry e := by
  show (store.entries ++ [_]).getD e default = _
  rw [List.getD_eq_getElem?_getD, List.getElem?_append]
  split
  · rename_i hlt
    rw [if_neg (Nat.ne_of_lt hlt), Store.entry, List.getD_eq_getElem?_getD]
  · rename_i hge
    by_cases he : e = store.entries.length
    · rw [if_pos he, he, Nat.sub_self]
      rfl
    · rw [if_neg he, Store.entry, List.getD_eq_getElem?_getD,
        List.getElem?_eq_none (by rw [List.length_singleton]; omega),
        List.getElem?_eq_none (by omega)]

/-- An entry with a session id is there. -/
theorem lt_of_sessionId {e : Nat} {sid : String} (h : (store.entry e).sessionId = some sid) :
    e < store.entries.length := by
  refine Nat.lt_of_not_le fun hle => ?_
  rw [Store.entry, List.getD_eq_getElem?_getD, List.getElem?_eq_none hle] at h
  cases h

theorem extends_newSession (store : Store) (user : String) (now : Nat) :
    Extends store (store.newSession user now).2 := by
  refine ⟨?_, fun e he => ?_⟩
  · show _ ≤ (store.entries ++ [_]).length
    rw [List.length_append]
    omega
  · rw [entry_newSession, if_neg (Nat.ne_of_lt he)]

theorem Valid.newSession (hv : Valid store) (user : String) (now : Nat) :
    Valid (store.newSession user now).2 := by
  have hsid : ∀ {e sid}, ((store.newSession user now).2.entry e).sessionId = some sid →
      (store.entry e).sessionId = some sid := by
    intro e sid h
    rw [entry_newSession] at h
    split at h
    · cases h
    · exact h
  refine ⟨?_, fun h => hv.truthy (hsid h), fun h h' => hv.unique (hsid h) (hsid h'),
    fun h => hv.issued (hsid h), hv.closed, ?_, hv.total⟩
  · intro sid e hget
    have hold := hv.key hget
    rw [entry_newSession, if_neg (Nat.ne_of_lt (lt_of_sessionId hold))]
    exact hold
  · intro user'
    refine Nat.le_trans (Nat.le_of_eq ?_) (hv.perUser user')
    refine List.countP_congr fun x hx => ?_
    have hold := hv.key (OrderedMap.get?_eq_some_iff.mpr hx)
    rw [entry_newSession, if_neg (Nat.ne_of_lt (lt_of_sessionId hold))]

theorem entry_setSessionId (store : Store) (e : Nat) (sid : String) (e' : Nat) :
    ((store.setSessionId e sid).entry e').ownerId = (store.entry e').ownerId ∧
    (((store.setSessionId e sid).entry e').sessionId = (store.entry e').sessionId ∨
      (e' = e ∧ ((store.setSessionId e sid).entry e').sessionId = some sid)) := by
  have hentry : (store.setSessionId e sid).entry e' = _ := entry_setEntry store e e' _
  rw [hentry]
  split
  · rename_i h
    rw [h.1]
    exact ⟨rfl, Or.inr ⟨rfl, rfl⟩⟩
  · exact ⟨rfl, Or.inl rfl⟩

/-- A transport keeps its id, or gets one that none had. -/
theorem assignSessionId_cases {e : Nat} {id : Option String}
    (h : store.assignSessionId e id = some store') :
    store' = store ∨
    ∃ sid, (store.entry e).sessionId = none ∧ sid ∉ store.issued ∧ JsText.truthy sid = true ∧
      store' = store.setSessionId e sid := by
  rw [assignSessionId.eq_def] at h
  split at h
  · exact Or.inl (Option.some.inj h).symm
  · exact Or.inl (Option.some.inj h).symm
  · rename_i sid hnone
    split at h
    · cases h
    · rename_i hfresh
      rw [not_or, not_or, Bool.not_eq_true', Bool.not_eq_false] at hfresh
      exact Or.inr ⟨sid, hnone, hfresh.1, hfresh.2.2, (Option.some.inj h).symm⟩

theorem extends_assignSessionId {e : Nat} {id : Option String}
    (h : store.assignSessionId e id = some store') : Extends store store' := by
  rcases assignSessionId_cases h with rfl | ⟨sid, _, _, _, rfl⟩
  · exact (Less.refl _).extends
  · exact ⟨Nat.le_of_eq List.length_set.symm, fun e' _ => (entry_setSessionId store e sid e').1⟩

theorem Valid.assignSessionId (hv : Valid store) {e : Nat} {id : Option String}
    (h : store.assignSessionId e id = some store') : Valid store' := by
  rcases assignSessionId_cases h with rfl | ⟨sid, hnone, hfresh, htruthy, rfl⟩
  · exact hv
  · -- only the one entry has another id, and it had none
    have hcases : ∀ {e' sid'}, ((store.setSessionId e sid).entry e').sessionId = some sid' →
        (e' = e ∧ sid' = sid) ∨ (store.entry e').sessionId = some sid' := by
      intro e' sid' h
      rcases (entry_setSessionId store e sid e').2 with hsame | ⟨he, hnew⟩
      · exact Or.inr (hsame.symm.trans h)
      · rw [hnew] at h
        exact Or.inl ⟨he, (Option.some.inj h).symm⟩
    refine ⟨?_, ?_, ?_, ?_, fun h => List.mem_cons_of_mem _ (hv.closed h), ?_, hv.total⟩
    · intro sid' e' hget
      have hold := hv.key hget
      rcases (entry_setSessionId store e sid e').2 with hsame | ⟨rfl, _⟩
      · exact hsame.trans hold
      · rw [hnone] at hold
        cases hold
    · intro e' sid' h
      rcases hcases h with ⟨_, rfl⟩ | hold
      · exact htruthy
      · exact hv.truthy hold
    · intro e₁ e₂ sid' h₁ h₂
      rcases hcases h₁ with ⟨he₁, hsid₁⟩ | hold₁
      · rcases hcases h₂ with ⟨he₂, _⟩ | hold₂
        · rw [he₁, he₂]
        · exact absurd (hv.issued hold₂) (hsid₁ ▸ hfresh)
      · rcases hcases h₂ with ⟨_, hsid₂⟩ | hold₂
        · exact absurd (hv.issued hold₁) (hsid₂ ▸ hfresh)
        · exact hv.unique hold₁ hold₂
    · intro e' sid' h
      rcases hcases h with ⟨_, rfl⟩ | hold
      · exact List.mem_cons_self
      · exact List.mem_cons_of_mem _ (hv.issued hold)
    · intro user
      rw [held_congr (fun e' => (entry_setSessionId store e sid e').1)]
      exact hv.perUser user

/-- After `handleRequest`: nothing without a session id, else the map holds it. -/
theorem afterRequest_cases (store : Store) (e : Nat) (user : String) :
    ((store.entry e).sessionId.filter JsText.truthy = none ∧ store.afterRequest e user = store) ∨
    ∃ sid, (store.entry e).sessionId = some sid ∧ ∃ held,
      store.afterRequest e user = held.registerSession sid user ∧
      (((store.transports.get? sid).isSome = true ∧ held = store) ∨
        (store.transports.get? sid = none ∧ held = { store.evictIfNeeded user with
          transports := (store.evictIfNeeded user).transports.set sid e })) := by
  rw [afterRequest]
  cases hfilter : (store.entry e).sessionId.filter JsText.truthy with
  | none => exact Or.inl ⟨rfl, rfl⟩
  | some sid =>
      refine Or.inr ⟨sid, (Option.filter_eq_some_iff.mp hfilter).1, _, rfl, ?_⟩
      cases hget : store.transports.get? sid with
      | none => exact Or.inr ⟨rfl, if_neg (by rintro ⟨⟩)⟩
      | some e' => exact Or.inl ⟨rfl, if_pos rfl⟩

/-- What is not in the map does not get there by an eviction. -/
theorem Less.get_none (h : Less store store') {sid : String}
    (hget : store.transports.get? sid = none) :
    store'.transports.get? sid = none := by
  rw [Option.eq_none_iff_forall_ne_some] at hget ⊢
  intro e he
  exact hget e (OrderedMap.get?_eq_some_iff.mpr
    (h.transports.mem (OrderedMap.get?_eq_some_iff.mp he)))

theorem Valid.afterRequest (hv : Valid store) {e : Nat} {user : String}
    (howner : (store.entry e).ownerId = user) :
    Valid (store.afterRequest e user) ∧ Extends store (store.afterRequest e user) := by
  rcases store.afterRequest_cases e user with ⟨_, heq⟩ | ⟨sid, hsid, held, heq, hheld⟩
  · rw [heq]
    exact ⟨hv, (Less.refl _).extends⟩
  · rw [heq]
    have hregister := less_registerSession held sid user
    have hheld : Valid held ∧ Extends store held := by
      rcases hheld with ⟨_, rfl⟩ | ⟨hget, rfl⟩
      · exact ⟨hv, (Less.refl _).extends⟩
      · have hroom := hv.hasRoom user
        have hentry := hroom.less.entries e
        refine ⟨hroom.valid_set (hv.less hroom.less) (hroom.less.get_none hget)
          (hentry.1.trans hsid) (hentry.2.trans howner), ?_⟩
        exact ⟨hroom.less.extends.length, hroom.less.extends.owner⟩
    exact ⟨hheld.1.less hregister, hheld.2.trans hregister.extends⟩

end Store

/-! ## Who is served -/

abbrev Exchange := Dialogue.Exchange Query Answer

/-- The session that an exchange hands a request to. -/
def served : Exchange → Option Nat
  | ⟨.findSession _ _, .held e⟩ => some e
  | ⟨.holdSession _ _, some e⟩  => some e
  | ⟨.newSession _, e⟩          => some e
  | _                           => none

def created : Exchange → Option Nat
  | ⟨.newSession _, e⟩ => some e
  | _                  => none

/-- Whom a request was resolved to. -/
def caller : History → Option String
  | ⟨.resolveUser, user⟩ :: _ => user
  | _                         => none

/-- The user that a lookup is for. -/
def Query.user : Query → Option String
  | .findSession _ user => some user
  | .holdSession _ user => some user
  | .newSession user    => some user
  | _                   => none

/-- What a request asks, and when. -/
def asks (h : History) (q : Query) : Prop :=
  (q = .resolveUser → h = []) ∧ (∀ user, q.user = some user → caller h = some user) ∧
  ∀ e user, q = .handlePost e user → caller h = some user ∧ ∃ x ∈ h, served x = some e

def law : Law Request Query Answer Response where
  asks := fun _ => asks

/-- The request is for a user, whom it was resolved to. -/
def For (user : String) (h : History) : Prop := ∃ t, h = ⟨.resolveUser, some user⟩ :: t

theorem For.caller {user : String} {h : History} (hfor : For user h) : caller h = some user := by
  obtain ⟨t, rfl⟩ := hfor
  rfl

theorem For.append {user : String} {h : History} (hfor : For user h) (x : Exchange) :
    For user (h ++ [x]) := by
  obtain ⟨t, rfl⟩ := hfor
  exact ⟨t ++ [x], rfl⟩

theorem For.lookup {user : String} {h : History} (hfor : For user h) {q : Query}
    (huser : ∀ user', q.user = some user' → user' = user) (hresolve : q ≠ .resolveUser)
    (hpost : ∀ e user, q ≠ .handlePost e user) : asks h q := by
  refine ⟨fun h => absurd h hresolve, fun user' hq => ?_, fun e user' hq =>
    absurd hq (hpost e user')⟩
  rw [huser user' hq]
  exact hfor.caller

/-- A question that is none of these. -/
theorem For.asks {user : String} {h : History} (hfor : For user h) {q : Query} (hq : q.user = none)
    (hresolve : q ≠ .resolveUser) (hpost : ∀ e user, q ≠ .handlePost e user) : asks h q := by
  refine hfor.lookup (fun user' huser => ?_) hresolve hpost
  rw [hq] at huser
  cases huser

section Programs

variable {r : Request} {user : String} {h : History}

theorem wp_foreignOwner (sessionId : Option String) (hfor : For user h) :
    wp (law.asks r) (law.fails r) (foreignOwner sessionId user) (fun _ h => For user h) h := by
  rw [foreignOwner]
  split
  · exact wp_pure hfor
  · refine wp_bind (wp_query (hfor.asks rfl (by rintro ⟨⟩) (by rintro _ _ ⟨⟩)) fun _ =>
      hfor.append _) ?_
    exact fun _ _ hfor => wp_pure hfor

theorem wp_postEntry (sessionId : Option String) (hfor : For user h) :
    wp (law.asks r) (law.fails r) (postEntry sessionId user)
      (fun found h => For user h ∧ ∀ e, found = .ok e → ∃ x ∈ h, served x = some e) h := by
  have hlast : ∀ {h : History} {x : Exchange} {e : Nat}, served x = some e →
      ∀ e', (.ok e : Except Response Nat) = .ok e' → ∃ y ∈ h ++ [x], served y = some e' := by
    rintro h x e hx _ ⟨⟩
    exact ⟨x, List.mem_append_right _ (List.mem_singleton.mpr rfl), hx⟩
  have hfind : asks h (.findSession sessionId user) :=
    hfor.lookup (by rintro _ ⟨⟩; rfl) (by rintro ⟨⟩) (by rintro _ _ ⟨⟩)
  refine wp_bind (wp_query (R := fun (found : Found) h' => For user h' ∧ ∀ e, found = .held e →
    ∃ x ∈ h', served x = some e) hfind ?_) ?_
  · rintro found
    refine ⟨hfor.append _, ?_⟩
    rintro e rfl
    exact hlast rfl e rfl
  · rintro found h ⟨hfor, hheld⟩
    cases found with
    | foreign => exact wp_pure ⟨hfor, by rintro e ⟨⟩⟩
    | held e =>
        refine wp_pure ⟨hfor, ?_⟩
        rintro _ ⟨⟩
        exact hheld e rfl
    | missing =>
        refine wp_bind (wp_foreignOwner sessionId hfor) ?_
        intro owner h hfor
        cases owner with
        | some owner => exact wp_pure ⟨hfor, by rintro e ⟨⟩⟩
        | none =>
            refine wp_bind (wp_query (R := fun _ h => For user h)
              (hfor.asks rfl (by rintro ⟨⟩) (by rintro _ _ ⟨⟩)) fun _ => hfor.append _) ?_
            intro imported h hfor
            cases imported with
            | false => exact wp_pure ⟨hfor, by rintro e ⟨⟩⟩
            | true =>
                refine wp_bind (wp_query (R := fun _ h => For user h)
                  (hfor.asks rfl (by rintro ⟨⟩) (by rintro _ _ ⟨⟩)) fun _ => hfor.append _) ?_
                intro outcome h hfor
                refine wp_bind (wp_orThrow (R := fun _ h => For user h) (fun _ _ => hfor)
                  (fun _ _ => trivial)) ?_
                intro _ h hfor
                have hnew : asks h (.newSession user) :=
                  hfor.lookup (by rintro _ ⟨⟩; rfl) (by rintro ⟨⟩) (by rintro _ _ ⟨⟩)
                refine wp_bind (wp_query (R := fun e h => For user h ∧ ∀ e', Except.ok e = .ok e' →
                  ∃ x ∈ h, served x = some e') hnew fun e => ⟨hfor.append _, hlast rfl⟩) ?_
                exact fun e h he => wp_pure he

theorem wp_forward (method : Method) (e : Nat) (hfor : For user h) :
    wp (law.asks r) (law.fails r) (forward method e) (fun _ h => For user h) h := by
  cases method with
  | get => exact wp_query (hfor.asks rfl (by rintro ⟨⟩) (by rintro _ _ ⟨⟩)) fun _ => hfor.append _
  | delete => exact wp_query (hfor.asks rfl (by rintro ⟨⟩) (by rintro _ _ ⟨⟩)) fun _ =>
      hfor.append _

/-- The first question, for whoever it is. -/
theorem asks_resolveUser : asks [] .resolveUser :=
  ⟨fun _ => rfl, by rintro _ ⟨⟩, by rintro _ _ ⟨⟩⟩

theorem for_resolved {resolved : Option String}
    (huser : resolved.filter JsText.truthy = some user) :
    For user [⟨.resolveUser, resolved⟩] := by
  rw [(Option.filter_eq_some_iff.mp huser).1]
  exact ⟨[], rfl⟩

theorem wp_handlePost (sessionId : Option String) :
    wp (law.asks r) (law.fails r) (handlePost sessionId) (law.result r) [] := by
  refine wp_bind (wp_query (R := fun resolved h => h = [⟨.resolveUser, resolved⟩]) asks_resolveUser
    fun _ => rfl) ?_
  rintro resolved h rfl
  split
  · exact wp_pure trivial
  · rename_i user huser
    refine wp_bind (wp_postEntry sessionId (for_resolved huser)) ?_
    rintro found h ⟨hfor, hfound⟩
    cases found with
    | error response => exact wp_pure trivial
    | ok e =>
        have hpost : asks h (.handlePost e user) := by
          refine ⟨by rintro ⟨⟩, by rintro _ ⟨⟩, ?_⟩
          rintro _ _ ⟨⟩
          exact ⟨hfor.caller, hfound e rfl⟩
        refine wp_bind (wp_query (R := fun _ _ => True) hpost fun _ => trivial) ?_
        intro handled h _
        refine wp_bind (wp_orThrow (R := fun _ _ => True) (fun _ _ => trivial) (fun _ _ => trivial))
          ?_
        exact fun _ _ _ => wp_pure trivial

theorem wp_handleSessionRequest (method : Method) (sessionId : Option String) :
    wp (law.asks r) (law.fails r) (handleSessionRequest method sessionId) (law.result r) [] := by
  refine wp_bind (wp_query (R := fun resolved h => h = [⟨.resolveUser, resolved⟩]) asks_resolveUser
    fun _ => rfl) ?_
  rintro resolved h rfl
  split
  · exact wp_pure trivial
  · rename_i user huser
    have hfor := for_resolved huser
    have hhold : asks [⟨.resolveUser, resolved⟩] (.holdSession sessionId user) :=
      hfor.lookup (by rintro _ ⟨⟩; rfl) (by rintro ⟨⟩) (by rintro _ _ ⟨⟩)
    refine wp_bind (wp_query (R := fun _ h => For user h) hhold fun _ => hfor.append _) ?_
    intro held h hfor
    cases held with
    | some e =>
        refine wp_bind (wp_forward method e hfor) ?_
        intro handled h _
        refine wp_bind (wp_orThrow (R := fun _ _ => True) (fun _ _ => trivial) (fun _ _ => trivial))
          ?_
        exact fun _ _ _ => wp_pure trivial
    | none =>
        refine wp_bind (wp_foreignOwner sessionId hfor) ?_
        intro owner h _
        cases owner with
        | some owner => exact wp_pure trivial
        | none => exact wp_pure trivial

end Programs

theorem wp_program (r : Request) :
    wp (law.asks r) (law.fails r) (system.program r) (law.result r) [] := by
  cases r with
  | post sessionId => exact wp_handlePost sessionId
  | session method sessionId => exact wp_handleSessionRequest method sessionId

/-! ## One operation -/

theorem get_eq_some {store : Store} {sessionId : Option String} {e : Nat}
    (h : store.get sessionId = some e) : ∃ sid, sessionId = some sid ∧
      store.transports.get? sid = some e := by
  obtain ⟨sid, hsid, hget⟩ := Option.bind_eq_some_iff.mp h
  exact ⟨sid, (Option.filter_eq_some_iff.mp hsid).1, hget⟩

theorem findSession_cases (store : Store) (sessionId : Option String) (user : String) (now : Nat) :
    (∃ found, store.findSession sessionId user now = (found, store) ∧ ∀ e, found ≠ .held e) ∨
    ∃ e, store.get sessionId = some e ∧ (store.entry e).ownerId = user ∧
      store.findSession sessionId user now = (.held e, store.touch e now) := by
  rw [Store.findSession]
  cases hget : store.get sessionId with
  | none => exact Or.inl ⟨.missing, rfl, by rintro e ⟨⟩⟩
  | some e =>
      by_cases howner : (store.entry e).ownerId = user
      · exact Or.inr ⟨e, rfl, howner, if_neg (not_not.mpr howner)⟩
      · exact Or.inl ⟨.foreign, if_pos howner, by rintro e ⟨⟩⟩

theorem holdSession_cases (store : Store) (sessionId : Option String) (user : String) (now : Nat) :
    store.holdSession sessionId user now = (none, store) ∨
    ∃ e sid, store.transports.get? sid = some e ∧ (store.entry e).ownerId = user ∧
      store.holdSession sessionId user now =
        (some e, (store.touch e now).registerSession sid user) := by
  rw [Store.holdSession]
  cases hfilter : (store.get sessionId).filter fun e => (store.entry e).ownerId = user with
  | none => exact Or.inl rfl
  | some e =>
      obtain ⟨hget, howner⟩ := Option.filter_eq_some_iff.mp hfilter
      obtain ⟨sid, rfl, htransport⟩ := get_eq_some hget
      exact Or.inr ⟨e, sid, htransport, of_decide_eq_true howner, rfl⟩

theorem exec_valid {store store' : Store} (hv : store.Valid) {choice : Choice} {q : Query}
    {a : Answer q}
    (howner : ∀ e user, q = .handlePost e user → (store.entry e).ownerId = user)
    (h : exec store choice q = some (a, store')) : store'.Valid ∧ Store.Extends store store' := by
  have hsame : store.Valid ∧ Store.Extends store store := ⟨hv, (Store.Less.refl store).extends⟩
  cases q with
  | resolveUser => cases h; exact hsame
  | foreignSessionOwner sessionId user => cases h; exact hsame
  | importSdk => cases h; exact hsame
  | createServer user => cases h; exact hsame
  | handleGet e => cases h; exact hsame
  | findSession sessionId user =>
      have h : store.findSession sessionId user choice.now = (a, store') := Option.some.inj h
      rcases findSession_cases store sessionId user choice.now with ⟨found, heq, _⟩ | ⟨e, _, _, heq⟩
      · rw [heq] at h
        cases h
        exact hsame
      · rw [heq] at h
        cases h
        have hless := Store.less_touch store e choice.now
        exact ⟨hv.less hless, hless.extends⟩
  | holdSession sessionId user =>
      have h : store.holdSession sessionId user choice.now = (a, store') := Option.some.inj h
      rcases holdSession_cases store sessionId user choice.now with heq | ⟨e, sid, _, _, heq⟩
      · rw [heq] at h
        cases h
        exact hsame
      · rw [heq] at h
        cases h
        have hless := (Store.less_touch store e choice.now).trans
          (Store.less_registerSession (store.touch e choice.now) sid user)
        exact ⟨hv.less hless, hless.extends⟩
  | newSession user =>
      cases h
      exact ⟨hv.newSession user choice.now, Store.extends_newSession store user choice.now⟩
  | handlePost e user =>
      rw [exec] at h
      split at h
      · obtain ⟨assigned, hassigned, heq⟩ := Option.map_eq_some_iff.mp h
        cases heq
        have hextends := Store.extends_assignSessionId hassigned
        have howner' : (assigned.entry e).ownerId = user := by
          rw [← howner e user rfl]
          rcases Store.assignSessionId_cases hassigned with rfl | ⟨sid, _, _, _, rfl⟩
          · rfl
          · exact (Store.entry_setSessionId store e sid e).1
        obtain ⟨hvalid, hafter⟩ := (hv.assignSessionId hassigned).afterRequest howner'
        exact ⟨hvalid, hextends.trans hafter⟩
      · cases h
        exact hsame
  | handleDelete e =>
      cases h
      split
      · exact ⟨hv.less (Store.less_close store e), (Store.less_close store e).extends⟩
      · exact hsame

/-- A request is handed to a session of its user. -/
theorem exec_served {store store' : Store} (hv : store.Valid) {choice : Choice} {q : Query}
    {a : Answer q}
    (h : exec store choice q = some (a, store')) {e : Nat} (hserved : served ⟨q, a⟩ = some e) :
    ∃ user, q.user = some user ∧ e < store'.entries.length ∧ (store'.entry e).ownerId = user := by
  rw [served.eq_def] at hserved
  split at hserved
  · rename_i heq
    cases heq
    cases hserved
    rename_i sessionId user
    have h : store.findSession sessionId user choice.now = (.held e, store') := Option.some.inj h
    rcases findSession_cases store sessionId user choice.now
      with ⟨found, heq, hne⟩ | ⟨e', hget, howner, heq⟩
    · rw [heq] at h
      exact absurd (Prod.mk.inj h).1 (hne e)
    · rw [heq] at h
      cases h
      have hless := Store.less_touch store e choice.now
      obtain ⟨sid, _, htransport⟩ := get_eq_some hget
      refine ⟨user, rfl, ?_, ((hless.entries e).2).trans howner⟩
      rw [hless.length]
      exact Store.lt_of_sessionId (hv.key htransport)
  · rename_i heq
    cases heq
    cases hserved
    rename_i sessionId user
    have h : store.holdSession sessionId user choice.now = (some e, store') := Option.some.inj h
    rcases holdSession_cases store sessionId user choice.now
      with heq | ⟨e', sid, htransport, howner, heq⟩
    · rw [heq] at h
      cases h
    · rw [heq] at h
      cases h
      have hless := (Store.less_touch store e choice.now).trans
        (Store.less_registerSession (store.touch e choice.now) sid user)
      refine ⟨user, rfl, ?_, ((hless.entries e).2).trans howner⟩
      rw [hless.length]
      exact Store.lt_of_sessionId (hv.key htransport)
  · rename_i heq
    cases heq
    cases hserved
    rename_i user
    cases h
    refine ⟨user, rfl, ?_, ?_⟩
    · show store.entries.length < (store.entries ++ [_]).length
      rw [List.length_append]
      exact Nat.lt_succ_self _
    · show ((store.newSession user choice.now).2.entry store.entries.length).ownerId = user
      rw [Store.entry_newSession, if_pos rfl]
  · cases hserved

/-! ## All requests -/

/-- The request at an index, of this user, has been handed to the session. -/
def Serves (s : State) (i e : Nat) (user : String) : Prop :=
  ∃ τ, s.threads[i]? = some τ ∧ caller τ.said = some user ∧ ∃ x ∈ τ.said, served x = some e

def Creates (s : State) (i e : Nat) (user : String) : Prop :=
  ∃ τ, s.threads[i]? = some τ ∧ caller τ.said = some user ∧ ∃ x ∈ τ.said, created x = some e

structure Inv (s : State) : Prop where
  valid : s.store.Valid
  owned : ∀ i e user, Serves s i e user → e < s.store.entries.length ∧
    (s.store.entry e).ownerId = user

theorem Inv.extends {s : State} (hI : Inv s) {store : Store}
    (hextends : Store.Extends s.store store) {i e : Nat} {user : String}
      (hserves : Serves s i e user) :
    e < store.entries.length ∧ (store.entry e).ownerId = user := by
  obtain ⟨hlt, howner⟩ := hI.owned i e user hserves
  exact ⟨Nat.lt_of_lt_of_le hlt hextends.length, (hextends.owner e hlt).trans howner⟩

/-- Whom a thread is for does not change once it is known. -/
theorem caller_append {h : History} {x : Exchange} (hasks : asks h x.1) {e : Nat}
    (hserved : ∃ y ∈ h ++ [x], served y = some e) : caller (h ++ [x]) = caller h := by
  cases h with
  | cons y t =>
      obtain ⟨q, a⟩ := y
      cases q <;> rfl
  | nil =>
      obtain ⟨y, hy, hserved⟩ := hserved
      rw [List.mem_singleton.mp hy] at hserved
      -- nothing but the resolution comes first, and it hands over nothing
      obtain ⟨q, a⟩ := x
      have hnone : q.user = none := by
        cases huser : q.user with
        | none => rfl
        | some user => cases hasks.2.1 user huser
      rw [served.eq_def] at hserved
      split at hserved
      · rename_i heq
        cases heq
        cases hnone
      · rename_i heq
        cases heq
        cases hnone
      · rename_i heq
        cases heq
        cases hnone
      · cases hserved

theorem kept : Kept system law Inv := by
  refine ⟨?_, ?_, ?_⟩
  · intro s r hI _
    refine ⟨hI.valid, ?_⟩
    rintro i e user ⟨τ, hτ, hcaller, x, hx, hserved⟩
    rcases Runs.getElem?_append_cases hτ with hold | ⟨_, rfl⟩
    · exact hI.owned i e user ⟨τ, hold, hcaller, x, hx, hserved⟩
    · cases hx
  · intro s i τ q next choice a store' hI hs hτ hprogram hexec
    have hasks : asks τ.said q := (hs τ (List.mem_of_getElem? hτ)).asks hprogram
    have howner : ∀ e user, q = .handlePost e user → (s.store.entry e).ownerId = user := by
      intro e user hq
      obtain ⟨hcaller, x, hx, hserved⟩ := hasks.2.2 e user hq
      exact (hI.owned i e user ⟨τ, hτ, hcaller, x, hx, hserved⟩).2
    obtain ⟨hvalid, hextends⟩ := exec_valid hI.valid howner hexec
    refine ⟨hvalid, ?_⟩
    rintro j e user ⟨τ', hτ', hcaller, x, hx, hserved⟩
    rcases Runs.getElem?_set_cases hτ' with ⟨_, rfl⟩ | ⟨_, hold⟩
    · rw [caller_append hasks ⟨x, hx, hserved⟩] at hcaller
      rcases List.mem_append.mp hx with hx | hx
      · exact hI.extends hextends ⟨τ, hτ, hcaller, x, hx, hserved⟩
      · rw [List.mem_singleton.mp hx] at hserved
        obtain ⟨user', huser, hlt, howner⟩ := exec_served hI.valid hexec hserved
        rw [hasks.2.1 user' huser] at hcaller
        exact ⟨hlt, howner.trans (Option.some.inj hcaller)⟩
    · exact hI.extends hextends ⟨τ', hold, hcaller, x, hx, hserved⟩
  · intro s event store' hI _ houtside
    have hless : Store.Less s.store store' := by
      cases event with
      | expire sid =>
          cases houtside
          exact Store.less_setRegistry s.store sid none
      | foreign sid value =>
          rw [show system.outside = outside from rfl, outside] at houtside
          split at houtside
          · cases houtside
          · cases houtside
            have h := Store.less_setRegistry s.store sid value
            exact ⟨h.entries, h.length, h.transports, h.issued, h.closed⟩
      | onclose e =>
          rw [show system.outside = outside from rfl, outside] at houtside
          split at houtside
          · cases houtside
            exact Store.less_onclose s.store e
          · cases houtside
    exact ⟨hI.valid.less hless, fun i e user h => hI.extends hless.extends h⟩

/-! ## What is closed -/

/-- A closed session is neither in the map nor in the registry. -/
def Store.Gone (store : Store) : Prop :=
  ∀ sid ∈ store.closed, store.transports.get? sid = none ∧
    (store.enabled = true → store.registry sid = none)

namespace Store

variable {store store' : Store}

/-- Nothing is closed, and nothing comes back. -/
structure Fades (store store' : Store) : Prop where
  closed     : store'.closed = store.closed
  enabled    : store'.enabled = store.enabled
  transports : ∀ sid, store.transports.get? sid = none → store'.transports.get? sid = none
  registry   : ∀ sid, store.registry sid = none → store'.registry sid = none

theorem Gone.fades (hg : store.Gone) (h : Fades store store') : store'.Gone := by
  intro sid hsid
  rw [h.closed] at hsid
  obtain ⟨htransport, hregistry⟩ := hg sid hsid
  exact ⟨h.transports sid htransport, fun henabled =>
    h.registry sid (hregistry (h.enabled ▸ henabled))⟩

theorem Fades.refl (store : Store) : Fades store store := ⟨rfl, rfl, fun _ h => h, fun _ h => h⟩

theorem Fades.trans {store'' : Store} (h : Fades store store') (h' : Fades store' store'') :
    Fades store store'' :=
  ⟨h'.closed.trans h.closed, h'.enabled.trans h.enabled, fun sid hsid =>
    h'.transports sid (h.transports sid hsid), fun sid hsid =>
    h'.registry sid (h.registry sid hsid)⟩

theorem fades_removed (store : Store) (sid : String) :
    Fades store (store.setRegistry sid none) := by
  refine ⟨rfl, rfl, fun _ h => h, fun key hkey => ?_⟩
  show (if key = sid then none else store.registry key) = none
  split
  · rfl
  · exact hkey

theorem fades_releaseSession (store : Store) (sid : String) :
    Fades store (store.releaseSession sid) := by
  rw [releaseSession]
  split
  · exact fades_removed store sid
  · exact Fades.refl store

theorem fades_deleteTransport (store : Store) (sid : String) :
    Fades store (store.deleteTransport sid) := by
  refine ⟨rfl, rfl, fun key hkey => ?_, fun _ h => h⟩
  show (store.transports.delete sid).get? key = none
  by_cases hsid : key = sid
  · rw [hsid, OrderedMap.get?_delete_self]
  · rw [OrderedMap.get?_delete_of_ne _ hsid]
    exact hkey

theorem fades_onclose (store : Store) (e : Nat) : Fades store (store.onclose e) := by
  rw [onclose]
  split
  · exact Fades.refl store
  · exact (fades_deleteTransport _ _).trans (fades_releaseSession _ _)

/-- What was deleted and released is gone. -/
theorem released (store : Store) (sid : String) :
    ((store.deleteTransport sid).releaseSession sid).transports.get? sid = none ∧
    (((store.deleteTransport sid).releaseSession sid).enabled = true →
      ((store.deleteTransport sid).releaseSession sid).registry sid = none) := by
  refine ⟨?_, fun henabled => ?_⟩
  · rw [transports_releaseSession]
    exact OrderedMap.get?_delete_self _ _
  · rw [releaseSession] at henabled ⊢
    split
    · exact if_pos rfl
    · rename_i hdisabled
      rw [if_neg hdisabled] at henabled
      exact absurd henabled hdisabled

theorem Gone.evict (hg : store.Gone) (key : String) : (store.evict key).Gone := by
  have hrest := hg.fades ((fades_deleteTransport store key).trans (fades_releaseSession _ key))
  intro sid hsid
  rcases List.mem_cons.mp hsid with rfl | hsid
  · exact released store sid
  · refine hrest sid ?_
    rw [closed_releaseSession]
    exact hsid

theorem Gone.close (hg : store.Gone) (hv : store.Valid) (e : Nat) : (store.close e).Gone := by
  have hrest := hg.fades (fades_onclose store e)
  intro sid hsid
  rcases List.mem_append.mp hsid with hsid | hsid
  · have hsid := Option.mem_toList.mp hsid
    have hclosed : store.onclose e = (store.deleteTransport sid).releaseSession sid := by
      rw [onclose, hsid, Option.filter_some_pos (hv.truthy hsid)]
    show (store.onclose e).transports.get? sid = none ∧
      ((store.onclose e).enabled = true → (store.onclose e).registry sid = none)
    rw [hclosed]
    exact released store sid
  · refine hrest sid ?_
    rw [closed_onclose]
    exact hsid

theorem Gone.setRegistry (hg : store.Gone) {sid : String} (hsid : sid ∉ store.closed)
    (value : Option RegistryEntry) : (store.setRegistry sid value).Gone := by
  intro sid' hmem
  obtain ⟨htransport, hregistry⟩ := hg sid' hmem
  refine ⟨htransport, fun henabled => ?_⟩
  have hne : sid' ≠ sid := fun h => hsid (h ▸ hmem)
  exact (if_neg hne).trans (hregistry henabled)

theorem Gone.registerSession (hg : store.Gone) {sid : String} (hsid : sid ∉ store.closed)
    (user : String) :
    (store.registerSession sid user).Gone := by
  rw [Store.registerSession]
  split
  · exact hg.setRegistry hsid _
  · exact hg

theorem closed_registerSession (store : Store) (sid user : String) :
    (store.registerSession sid user).closed = store.closed ∧
      (store.registerSession sid user).transports = store.transports := by
  rw [registerSession]
  split
  · exact ⟨rfl, rfl⟩
  · exact ⟨rfl, rfl⟩

/-- What the map holds has not been closed. -/
theorem Gone.notMem (hg : store.Gone) {sid : String} {e : Nat}
    (hget : store.transports.get? sid = some e) :
    sid ∉ store.closed := by
  intro hmem
  rw [(hg sid hmem).1] at hget
  cases hget

/-- **The POST.** It brings back what has been closed, and nothing else. -/
theorem Gone.afterRequest_iff (hg : store.Gone) (hv : store.Valid) {e : Nat} {sid : String}
    (hsid : (store.entry e).sessionId = some sid) (user : String) :
    (store.afterRequest e user).Gone ↔ sid ∉ store.closed := by
  rcases store.afterRequest_cases e user with ⟨hnone, _⟩ | ⟨sid', hsid', held, heq, hheld⟩
  · rw [hsid, Option.filter_some_pos (hv.truthy hsid)] at hnone
    cases hnone
  · rw [hsid] at hsid'
    obtain rfl := Option.some.inj hsid'
    rw [heq]
    obtain ⟨hclosed, htransports⟩ := closed_registerSession held sid user
    rcases hheld with ⟨hthere, rfl⟩ | ⟨hget, rfl⟩
    · obtain ⟨e', hget⟩ := Option.isSome_iff_exists.mp hthere
      exact iff_of_true (hg.registerSession (hg.notMem hget) user) (hg.notMem hget)
    · constructor
      · intro hgone hmem
        have hstays : sid ∈ (store.evictIfNeeded user).closed := by
          rcases hv.evictIfNeeded user with ⟨hsame, _⟩ | ⟨key, _, _, hevict, _⟩
          · rw [hsame]
            exact hmem
          · rw [hevict]
            exact List.mem_cons_of_mem _ hmem
        have hback := (hgone sid (hclosed ▸ hstays)).1
        rw [htransports, OrderedMap.get?_set_self] at hback
        cases hback
      · intro hnew
        have hevicted : (store.evictIfNeeded user).Gone ∧
            sid ∉ (store.evictIfNeeded user).closed := by
          rcases hv.evictIfNeeded user with ⟨hsame, _⟩ | ⟨key, e', hkey, hevict, _⟩
          · rw [hsame]
            exact ⟨hg, hnew⟩
          · rw [hevict]
            refine ⟨hg.evict key, fun hmem => ?_⟩
            rcases List.mem_cons.mp hmem with rfl | hmem
            · rw [hget] at hkey
              cases hkey
            · exact hnew hmem
        have hset : ({ store.evictIfNeeded user with
            transports := (store.evictIfNeeded user).transports.set sid e } : Store).Gone := by
          intro sid' hmem
          obtain ⟨htransport, hregistry⟩ := hevicted.1 sid' hmem
          have hne : sid' ≠ sid := fun h => hevicted.2 (h ▸ hmem)
          exact ⟨(OrderedMap.get?_set_of_ne _ _ hne).trans htransport, hregistry⟩
        exact hset.registerSession hevicted.2 user

end Store

/-- A POST comes back from `handleRequest` after its session was closed. -/
def resurrects (s : State) : Event Request Outside Choice → Bool
  | .resume i choice =>
      match s.threads[i]?.map Thread.program with
      | some (.ask (.handlePost e _) _) =>
          choice.ok && (s.store.entry e).sessionId.any fun sid => s.store.closed.contains sid
      | _                               => false
  | _                => false

/-- Nothing but such a POST brings back what was closed. -/
theorem exec_gone {store store' : Store} (hv : store.Valid) (hg : store.Gone) {choice : Choice}
    {q : Query}
    {a : Answer q} (hq : ∀ e user, q ≠ .handlePost e user)
    (h : exec store choice q = some (a, store')) : store'.Gone := by
  cases q with
  | resolveUser => cases h; exact hg
  | foreignSessionOwner sessionId user => cases h; exact hg
  | importSdk => cases h; exact hg
  | createServer user => cases h; exact hg
  | handleGet e => cases h; exact hg
  | newSession user => cases h; exact hg
  | handlePost e user => exact absurd rfl (hq e user)
  | findSession sessionId user =>
      have h : store.findSession sessionId user choice.now = (a, store') := Option.some.inj h
      rcases findSession_cases store sessionId user choice.now with ⟨found, heq, _⟩ | ⟨e, _, _, heq⟩
      · rw [heq] at h
        cases h
        exact hg
      · rw [heq] at h
        cases h
        exact hg
  | holdSession sessionId user =>
      have h : store.holdSession sessionId user choice.now = (a, store') := Option.some.inj h
      rcases holdSession_cases store sessionId user choice.now with heq | ⟨e, sid, hget, _, heq⟩
      · rw [heq] at h
        cases h
        exact hg
      · rw [heq] at h
        cases h
        -- it is registered only while the map holds it
        exact (show (store.touch e choice.now).Gone from hg).registerSession (hg.notMem hget) user
  | handleDelete e =>
      cases h
      split
      · exact hg.close hv e
      · exact hg

theorem outside_gone {store store' : Store} (hv : store.Valid) (hg : store.Gone) {event : Outside}
    (h : outside store event = some store') : store'.Gone := by
  cases event with
  | expire sid =>
      cases h
      exact hg.fades (Store.fades_removed store sid)
  | foreign sid value =>
      rw [outside] at h
      split at h
      · cases h
      · rename_i hnew
        cases h
        exact hg.setRegistry (fun hmem => hnew (hv.closed hmem)) value
  | onclose e =>
      rw [outside] at h
      split at h
      · cases h
        exact hg.fades (Store.fades_onclose store e)
      · cases h

/-- A POST that comes back. -/
theorem handlePost_gone {store store' : Store} (hv : store.Valid) (hg : store.Gone)
    {choice : Choice}
    {e : Nat} {user : String} {a : Answer (.handlePost e user)} (hlt : e < store.entries.length)
    (h : exec store choice (.handlePost e user) = some (a, store')) :
    store'.Gone ↔
      ¬ (choice.ok && (store.entry e).sessionId.any fun sid => store.closed.contains sid) =
        true := by
  have hany : ((store.entry e).sessionId.any fun sid => store.closed.contains sid) = true ↔
      ∃ sid, (store.entry e).sessionId = some sid ∧ sid ∈ store.closed := by
    simp only [Option.any_eq_true, List.contains_iff_mem]
  rw [Bool.and_eq_true, hany]
  rw [exec] at h
  split at h
  · rename_i hok
    obtain ⟨assigned, hassigned, heq⟩ := Option.map_eq_some_iff.mp h
    cases heq
    rcases Store.assignSessionId_cases hassigned with hsame | ⟨sid, hnone, hfresh, _, hset⟩
    · rw [hsame]
      cases hsid : (store.entry e).sessionId with
      | none =>
          have hafter : store.afterRequest e user = store := by
            rw [Store.afterRequest, hsid]
            rfl
          rw [hafter]
          exact iff_of_true hg (by rintro ⟨_, sid, ⟨⟩, _⟩)
      | some sid =>
          refine (hg.afterRequest_iff hv hsid user).trans (not_congr ?_)
          constructor
          · exact fun hclosed => ⟨hok, sid, rfl, hclosed⟩
          · rintro ⟨_, sid', hsid', hclosed⟩
            rw [Option.some.inj hsid']
            exact hclosed
    · -- a session that is new has not been closed
      have hgone : assigned.Gone := hset ▸ hg
      have hsid : (assigned.entry e).sessionId = some sid := by
        have hentry : (store.setSessionId e sid).entry e = _ := Store.entry_setEntry store e e _
        rw [hset, hentry, if_pos ⟨rfl, hlt⟩]
      have hclosed : assigned.closed = store.closed := by rw [hset]; rfl
      refine iff_of_true ((hgone.afterRequest_iff (hv.assignSessionId hassigned) hsid user).mpr ?_)
        ?_
      · rw [hclosed]
        exact fun hmem => hfresh (hv.closed hmem)
      · rintro ⟨_, sid', hsid', _⟩
        rw [hnone] at hsid'
        cases hsid'
  · rename_i hok
    cases h
    exact iff_of_true hg fun h => hok h.1

theorem gone_step {s t : State} (hs : AllLawful law s) (hI : Inv s) (hg : s.store.Gone)
    {e : Event Request Outside Choice} (h : step system s e = some t) :
    t.store.Gone ↔ ¬ resurrects s e = true := by
  rcases step_cases h with ⟨r, rfl, rfl⟩ | ⟨i, choice, τ, q, next, a, store', rfl, hτ, hprogram,
    hexec, rfl⟩ |
    ⟨event, store', rfl, houtside, rfl⟩
  · exact iff_of_true hg Bool.false_ne_true
  · by_cases hq : ∃ e user, q = .handlePost e user
    · obtain ⟨e, user, rfl⟩ := hq
      have hasks : asks τ.said (.handlePost e user) :=
        (hs τ (List.mem_of_getElem? hτ)).asks hprogram
      obtain ⟨hcaller, x, hx, hserved⟩ := hasks.2.2 e user rfl
      obtain ⟨hlt, _⟩ := hI.owned i e user ⟨τ, hτ, hcaller, x, hx, hserved⟩
      rw [resurrects, hτ, Option.map_some, hprogram]
      exact handlePost_gone hI.valid hg hlt hexec
    · have hq : ∀ e user, q ≠ .handlePost e user := fun e user h => hq ⟨e, user, h⟩
      refine iff_of_true (exec_gone hI.valid hg hq hexec) ?_
      rw [resurrects, hτ, Option.map_some, hprogram]
      split
      · rename_i e user _ heq
        cases heq
        exact absurd rfl (hq e user)
      · exact Bool.false_ne_true
  · exact iff_of_true (outside_gone hI.valid hg houtside) Bool.false_ne_true

/-! ## The life of a session -/

/-- What is to hold in every state. -/
structure SessionsSafe (s : State) : Prop where
  /-- a session is only served to the user who has created it -/
  served  : ∀ i j e user user', Creates s i e user → Serves s j e user' → user' = user
  perUser : ∀ user, s.store.held user ≤ Store.maxSessionsPerUser
  total   : s.store.transports.size ≤ Store.maxSessions
  gone    : s.store.Gone

/-- Who creates a session is served. -/
theorem Creates.serves {s : State} {i e : Nat} {user : String} (h : Creates s i e user) :
    Serves s i e user := by
  obtain ⟨τ, hτ, hcaller, x, hx, hcreated⟩ := h
  refine ⟨τ, hτ, hcaller, x, hx, ?_⟩
  rw [created.eq_def] at hcreated
  split at hcreated
  · exact hcreated
  · cases hcreated

theorem sessionsSafe_iff {s : State} (hI : Inv s) : SessionsSafe s ↔ s.store.Gone := by
  refine ⟨SessionsSafe.gone, fun hg => ⟨?_, hI.valid.perUser, hI.valid.total, hg⟩⟩
  intro i j e user user' hcreates hserves
  rw [← (hI.owned i e user hcreates.serves).2, ← (hI.owned j e user' hserves).2]

/-- A replica that starts, with what is in the registry. -/
def start (instanceId : String) (enabled : Bool) (registry : String → Option RegistryEntry) :
    State :=
  { store := { instanceId := instanceId, enabled := enabled, registry := registry } }

theorem inv_start (instanceId : String) (enabled : Bool)
    (registry : String → Option RegistryEntry) :
    Inv (start instanceId enabled registry) := by
  have hentry : ∀ e sid, ((start instanceId enabled registry).store.entry e).sessionId ≠
      some sid := by
    rintro e sid ⟨⟩
  refine ⟨⟨?_, fun h => absurd h (hentry _ _), fun h => absurd h (hentry _ _),
    fun h => absurd h (hentry _ _), ?_, fun user => Nat.zero_le _, Nat.zero_le _⟩, ?_⟩
  · rintro sid e ⟨⟩
  · rintro sid ⟨⟩
  · rintro i e user ⟨τ, ⟨⟩, _⟩

/-- **The life of a session.** All is as it should be, in every state of a run, exactly
    when no POST comes back after its session was closed. -/
theorem sessions_safe_iff (instanceId : String) (enabled : Bool)
    (registry : String → Option RegistryEntry) {events : List (Event Request Outside Choice)}
      {t : State}
    (hrun : Runs.run (step system) (start instanceId enabled registry) events = some t) :
    Runs.Always (step system) SessionsSafe (start instanceId enabled registry) events ↔
      Runs.Meets (step system) (fun s e => ¬ resurrects s e = true)
        (start instanceId enabled registry) events := by
  refine Runs.always_iff (step system) (I := fun s => AllLawful law s ∧ Inv s) ?_ ?_ events _ t
    ⟨allLawful_nil _, inv_start instanceId enabled registry⟩ ?_ hrun
  · exact fun s e s' hs h => kept_step wp_program kept hs h
  · intro s e s' hs hsafe h
    rw [sessionsSafe_iff (kept_step wp_program kept hs h).2]
    exact gone_step hs.1 hs.2 hsafe.gone h
  · refine (sessionsSafe_iff (inv_start instanceId enabled registry)).mpr ?_
    rintro sid ⟨⟩

/-- A session is opened, used, and closed. -/
def openUseClose : List (Event Request Outside Choice) :=
  [.call (.post none), .resume 0 { user := some "user" }, .resume 0 {}, .resume 0 {}, .resume 0 {},
   .resume 0 {}, .resume 0 { id := some "session" },
   .call (.post (some "session")), .resume 1 { user := some "user" }, .resume 1 {},
   .call (.session .delete (some "session")), .resume 2 { user := some "user" }, .resume 2 {},
   .resume 2 { closes := true }]

theorem sessions_safe_opened :
    Runs.Always (step system) SessionsSafe (start "replica" true fun _ => none) openUseClose :=
  (sessions_safe_iff "replica" true (fun _ => none) rfl).mpr (by decide +kernel)

/-- The POST that is still at work while its session is closed puts it back. -/
theorem closed_session_returns : ∃ t, Runs.run (step system) (start "replica" true fun _ => none)
    (openUseClose ++ [.resume 1 {}]) = some t ∧ ¬ SessionsSafe t := by
  refine ⟨_, rfl, fun h => ?_⟩
  have hgone := (h.gone "session" (by decide)).1
  cases hgone

end McpSessions
