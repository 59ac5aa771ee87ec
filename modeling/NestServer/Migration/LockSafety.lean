import NestServer.Migration.Lock

/-! # The migration lock excludes

    The document's `_id` names the session that inserted it, its owner id is
    that session's alone, and its timestamp is that session's last refresh.  A
    lock can be broken only after its timestamp went stale, so a session that
    refreshes in time keeps its document, and one that lost it finds none that
    it could touch. -/

namespace MigrationLock

open Runs

/-! ## The invariant -/

/-- What a request in flight says about the session that sent it. -/
def Session.MaySend (x : Session) (now : Nat) : Request → Prop
  | .acquire _ owner => owner = x.token ∧ x.lockId = none
  | .findOne         => True
  | .stamp _ _       => True
  -- the clock only moves on, so a lock once found stale is stale for good
  | .breakLock _ ms  => ms + lockStaleAfterMs < now
  | .refresh _ _     => False
  | .release owner   => owner = x.token ∧ (x.phase = .releasing ∨ x.phase = .failed)

/-- What a session knows by itself. -/
structure Session.Sound (x : Session) (now : Nat) : Prop where
  trying  : x.Trying → x.lockId = none
  owns    : x.Owns → ∃ id, x.lockId = some id
  request : ∀ r, x.request = some r → x.MaySend now r
  pending : x.request ≠ none → x.phase = .acquiring ∨ x.phase = .releasing ∨ x.phase = .failed

/-- The document, its owner's session and its timestamp agree, and only a
    session that missed its refresh can have lost its document. -/
structure Wf (s : State) : Prop where
  sound   : ∀ (i : Nat) (x : Session), s.sessions[i]? = some x → x.Sound s.now
  tokens  : ∀ (i j : Nat) (x y : Session), s.sessions[i]? = some x → s.sessions[j]? = some y →
    x.token = y.token → i = j
  docId   : ∀ d, s.locks.doc = some d → d.id < s.locks.nextId
  lockIds : ∀ (i : Nat) (x : Session) (id : Nat), s.sessions[i]? = some x →
    x.lockId = some id → id < s.locks.nextId
  owner   : ∀ (i : Nat) (x : Session) (d : LockDoc), s.sessions[i]? = some x →
    s.locks.doc = some d → d.owner = some x.token → x.lockId = some d.id
  stamped : ∀ (i : Nat) (x : Session) (d : LockDoc), s.sessions[i]? = some x →
    s.locks.doc = some d → x.lockId = some d.id →
    d.owner = some x.token ∧ ∃ ms, d.acquiredAt = .date ms ∧ x.refreshedAt = some ms
  held    : ∀ (i : Nat) (x : Session), s.sessions[i]? = some x → x.Owns → x.Fresh s.now →
    x.HasLock s.locks

theorem wf_start {s : State} (h : Start s) : Wf s := by
  have hnone : ∀ (i : Nat) (x : Session), s.sessions[i]? ≠ some x := by
    rw [h.sessions]
    simp
  exact {
    sound   := fun i x hx => absurd hx (hnone i x)
    tokens  := fun i _ x _ hx => absurd hx (hnone i x)
    docId   := fun d hd => h.ids d hd
    lockIds := fun i x _ hx => absurd hx (hnone i x)
    owner   := fun i x _ hx => absurd hx (hnone i x)
    stamped := fun i x _ hx => absurd hx (hnone i x)
    held    := fun i x hx => absurd hx (hnone i x) }

/-! ## Steps of one session -/

/-- The sessions after one of them moved. -/
theorem put_get {s : State} {i j : Nat} {x' y : Session}
    (h : (s.put i x').sessions[j]? = some y) :
    (j = i ∧ y = x') ∨ (j ≠ i ∧ s.sessions[j]? = some y) :=
  getElem?_set_cases h

theorem Session.MaySend.later {x : Session} {now now' : Nat} {r : Request}
    (h : x.MaySend now r) (hle : now ≤ now') : x.MaySend now' r := by
  cases r with
  | breakLock id ms => exact Nat.lt_of_lt_of_le h hle
  | _ => exact h

theorem Session.Sound.later {x : Session} {now now' : Nat} (h : x.Sound now) (hle : now ≤ now') :
    x.Sound now' :=
  { h with request := fun r hr => (h.request r hr).later hle }

theorem wf_tick {s : State} (h : Wf s) (ms : Nat) : Wf { s with now := s.now + ms } := by
  have hle : s.now ≤ s.now + ms := Nat.le_add_right ..
  exact { h with
    sound := fun i x hx => (h.sound i x hx).later hle
    held  := fun i x hx hown hfresh =>
      h.held i x hx hown fun t ht => Nat.le_trans hle (hfresh t ht) }

/-- A move of a session that leaves the lock document alone: its history
    stands, and it owns the lock afterwards only where it owned it before. -/
structure Session.Moves (x x' : Session) (now : Nat) : Prop where
  sound       : x'.Sound now
  token       : x'.token = x.token
  lockId      : x'.lockId = x.lockId
  refreshedAt : x'.refreshedAt = x.refreshedAt
  owns        : x'.Owns → x.Owns

theorem Wf.put {s : State} (h : Wf s) {i : Nat} {x x' : Session} (hx : s.sessions[i]? = some x)
    (hm : x.Moves x' s.now) : Wf (s.put i x') := by
  constructor
  · intro j y hy
    rcases put_get hy with ⟨-, rfl⟩ | ⟨-, hy⟩
    · exact hm.sound
    · exact h.sound j y hy
  · intro j k y z hy hz heq
    rcases put_get hy with ⟨rfl, rfl⟩ | ⟨-, hy'⟩
    · rcases put_get hz with ⟨rfl, -⟩ | ⟨-, hz'⟩
      · rfl
      · exact h.tokens _ _ _ _ hx hz' (hm.token ▸ heq)
    · rcases put_get hz with ⟨rfl, rfl⟩ | ⟨-, hz'⟩
      · exact h.tokens _ _ _ _ hy' hx (heq.trans hm.token)
      · exact h.tokens _ _ _ _ hy' hz' heq
  · exact h.docId
  · intro j y id hy hlock
    rcases put_get hy with ⟨rfl, rfl⟩ | ⟨-, hy⟩
    · exact h.lockIds _ _ id hx (hm.lockId ▸ hlock)
    · exact h.lockIds j y id hy hlock
  · intro j y d hy hd howner
    rcases put_get hy with ⟨rfl, rfl⟩ | ⟨-, hy⟩
    · rw [hm.lockId]
      exact h.owner _ _ d hx hd (hm.token ▸ howner)
    · exact h.owner j y d hy hd howner
  · intro j y d hy hd hlock
    rcases put_get hy with ⟨rfl, rfl⟩ | ⟨-, hy⟩
    · rw [hm.token, hm.refreshedAt]
      exact h.stamped _ _ d hx hd (hm.lockId ▸ hlock)
    · exact h.stamped j y d hy hd hlock
  · intro j y hy ho hfresh
    rcases put_get hy with ⟨rfl, rfl⟩ | ⟨-, hy⟩
    · obtain ⟨d, hd, hlock⟩ := h.held _ _ hx (hm.owns ho) fun ms hms =>
        hfresh ms (hm.refreshedAt ▸ hms)
      exact ⟨d, hd, hm.lockId.trans hlock⟩
    · exact h.held j y hy ho hfresh

/-- `acquireLock` sends a request while it has no lock. -/
theorem moves_send {x : Session} {now : Nat} {r : Request} (hid : x.lockId = none)
    (hr : (x.send r).MaySend now r) : x.Moves (x.send r) now := by
  have hown : ¬ (x.send r).Owns := by
    rintro (h | ⟨id, h⟩) <;> cases h
  refine ⟨⟨fun _ => hid, fun h => absurd h hown, ?_, fun _ => Or.inl rfl⟩, rfl, rfl, rfl,
    fun h => absurd h hown⟩
  intro r' hr'
  rw [← Option.some.inj hr']
  exact hr

/-- Nothing is in flight where a reply is being handled. -/
theorem Session.Sound.request_of_replied {x : Session} {now : Nat} (h : x.Sound now) {r : Reply}
    (hph : x.phase = .replied r) : x.request = none := by
  by_contra hne
  rcases h.pending hne with hp | hp | hp <;> rw [hph] at hp <;> cases hp

/-- A move that leaves nothing in flight. -/
theorem moves_idle {x x' : Session} {now : Nat} (h : x.Sound now) (hreq : x'.request = none)
    (htoken : x'.token = x.token) (hid : x'.lockId = x.lockId)
    (href : x'.refreshedAt = x.refreshedAt) (htrying : x'.Trying → x.lockId = none)
    (howns : x'.Owns → x.Owns) : x.Moves x' now := by
  refine ⟨⟨?_, ?_, ?_, fun hne => absurd hreq hne⟩, htoken, hid, href, howns⟩
  · intro ht
    exact hid.trans (htrying ht)
  · intro ho
    rw [hid]
    exact h.owns (howns ho)
  · intro r hr
    rw [hreq] at hr
    cases hr

theorem moves_checkDeadline {x : Session} {now : Nat} (h : x.Sound now) {r : Reply}
    (hph : x.phase = .replied r) (hid : x.lockId = none) : x.Moves (x.checkDeadline now) now := by
  have hreq := h.request_of_replied hph
  rw [Session.checkDeadline]
  split
  · refine moves_idle h hreq rfl rfl rfl (fun _ => hid) ?_
    rintro (ho | ⟨id, ho⟩) <;> cases ho
  · refine moves_idle h hreq rfl rfl rfl (fun _ => hid) ?_
    rintro (ho | ⟨id, ho⟩) <;> cases ho

/-- What `acquireLock` does with a reply. -/
theorem moves_resume {x x' : Session} {now : Nat} (h : x.Sound now)
    (hr : x.resume now = some x') : x.Moves x' now := by
  rw [Session.resume] at hr
  cases hph : x.phase with
  | replied reply =>
      rw [hph] at hr
      have htrying : (∀ id, reply ≠ .acquired (some id)) → x.lockId = none := fun hne =>
        h.trying (Or.inr (Or.inr ⟨reply, hph, hne⟩))
      cases reply with
      | acquired upsertedId =>
          cases upsertedId with
          | some id =>
              -- the upsert inserted the document: `acquireLock` returns
              rw [← Option.some.inj hr]
              refine moves_idle h (h.request_of_replied hph) rfl rfl rfl ?_
                fun _ => Or.inr ⟨id, hph⟩
              rintro (h | h | ⟨r, h, -⟩) <;> cases h
          | none =>
              rw [← Option.some.inj hr]
              exact moves_send (htrying (by simp)) trivial
      | found holder =>
          have hid := htrying (by simp)
          cases holder with
          | none =>
              rw [← Option.some.inj hr]
              exact moves_checkDeadline h hph hid
          | some d =>
              dsimp only at hr
              split at hr
              · rename_i acquiredAt _
                split at hr
                · rename_i hstale
                  rw [← Option.some.inj hr]
                  refine moves_send hid ?_
                  show acquiredAt + lockStaleAfterMs < now
                  omega
                · rw [← Option.some.inj hr]
                  exact moves_checkDeadline h hph hid
              · rw [← Option.some.inj hr]
                exact moves_send hid trivial
      | stamped =>
          rw [← Option.some.inj hr]
          exact moves_checkDeadline h hph (htrying (by simp))
      | broken =>
          have hid := htrying (by simp)
          rw [← Option.some.inj hr]
          exact moves_send hid ⟨rfl, hid⟩
      | refreshed matched => cases hr
      | released => cases hr
  | sleeping =>
      rw [hph] at hr
      have hid := h.trying (Or.inr (Or.inl hph))
      rw [← Option.some.inj hr]
      exact moves_send hid ⟨rfl, hid⟩
  | _ =>
      rw [hph] at hr
      cases hr

/-- A reply that brings no lock. -/
theorem moves_receive {x : Session} {now : Nat} {r : Reply} (h : x.Sound now)
    (hne : ∀ id, r ≠ .acquired (some id)) : x.Moves (x.receive r) now := by
  rw [Session.receive]
  split
  · rename_i hph
    refine moves_idle h rfl rfl rfl rfl (fun _ => h.trying (Or.inl hph)) ?_
    rintro (ho | ⟨id, ho⟩)
    · cases ho
    · exact absurd (Phase.replied.inj ho) (hne id)
  · refine moves_idle h rfl rfl rfl rfl ?_ ?_
    · rintro (ht | ht | ⟨_, ht, -⟩) <;> cases ht
    · rintro (ho | ⟨id, ho⟩) <;> cases ho
  · exact moves_idle h rfl rfl rfl rfl (fun ht => h.trying ht) fun ho => ho

/-! ## Steps of the lock document -/

/-- The document goes: nobody may lose it who is still fresh. -/
theorem Wf.drop {s : State} (h : Wf s) {d : LockDoc} (hd : s.locks.doc = some d)
    (hlost : ∀ (i : Nat) (x : Session), s.sessions[i]? = some x → x.Owns → x.lockId = some d.id →
      ¬ x.Fresh s.now) : Wf { s with locks := { s.locks with doc := none } } := by
  constructor
  · exact h.sound
  · exact h.tokens
  · intro d' hd'
    cases hd'
  · exact h.lockIds
  · intro i x d' _ hd'
    cases hd'
  · intro i x d' _ hd'
    cases hd'
  · intro i x hx hown hfresh
    obtain ⟨d', hd', hlock⟩ := h.held i x hx hown hfresh
    have heq : d = d' := Option.some.inj (hd.symm.trans hd')
    exact absurd hfresh (hlost i x hx hown (heq ▸ hlock))

/-- A waiter starts the clock of a lock that an older version wrote. -/
theorem Wf.stamp {s : State} (h : Wf s) {d : LockDoc} (hd : s.locks.doc = some d)
    (hmissing : d.acquiredAt = .missing) (ms : Nat) :
    Wf { s with locks := { s.locks with doc := some { d with acquiredAt := .date ms } } } := by
  -- no session wrote the document: each stamps its own
  have hnobody : ∀ (i : Nat) (x : Session), s.sessions[i]? = some x → x.lockId ≠ some d.id := by
    intro i x hx hlock
    obtain ⟨-, ms', hdate, -⟩ := h.stamped i x d hx hd hlock
    rw [hmissing] at hdate
    cases hdate
  constructor
  · exact h.sound
  · exact h.tokens
  · rintro d' ⟨⟩
    exact h.docId d hd
  · exact h.lockIds
  · rintro i x d' hx ⟨⟩ howner
    exact h.owner i x d hx hd howner
  · rintro i x d' hx ⟨⟩ hlock
    exact absurd hlock (hnobody i x hx)
  · intro i x hx hown hfresh
    obtain ⟨d', hd', hlock⟩ := h.held i x hx hown hfresh
    have heq : d = d' := Option.some.inj (hd.symm.trans hd')
    exact absurd (heq ▸ hlock) (hnobody i x hx)

/-- The session whose owner id the document carries refreshes it. -/
theorem Wf.refresh {s : State} (h : Wf s) {i : Nat} {x x' : Session} {d : LockDoc}
    (hx : s.sessions[i]? = some x) (hm : x.Moves x' s.now) (hd : s.locks.doc = some d)
    (howner : d.owner = some x.token) (ms : Nat) :
    Wf ({ s with locks := { s.locks with doc := some { d with acquiredAt := .date ms } } }.put i
      { x' with refreshedAt := some ms }) := by
  have hlock : x.lockId = some d.id := h.owner i x d hx hd howner
  -- the owner id names one session, so no other one's history speaks of the document
  have honly : ∀ (j : Nat) (y : Session), s.sessions[j]? = some y → y.lockId = some d.id →
      j = i := by
    intro j y hy hyl
    have hyo := (h.stamped j y d hy hd hyl).1
    rw [howner] at hyo
    exact h.tokens _ _ _ _ hy hx (Option.some.inj hyo).symm
  constructor
  · intro j y hy
    rcases put_get hy with ⟨-, rfl⟩ | ⟨-, hy'⟩
    · exact ⟨hm.sound.trying, hm.sound.owns, hm.sound.request, hm.sound.pending⟩
    · exact h.sound j y hy'
  · intro j k y z hy hz heq
    rcases put_get hy with ⟨rfl, rfl⟩ | ⟨-, hy'⟩
    · rcases put_get hz with ⟨rfl, -⟩ | ⟨-, hz'⟩
      · rfl
      · exact h.tokens _ _ _ _ hx hz' (hm.token.symm.trans heq)
    · rcases put_get hz with ⟨rfl, rfl⟩ | ⟨-, hz'⟩
      · exact h.tokens _ _ _ _ hy' hx (heq.trans hm.token)
      · exact h.tokens _ _ _ _ hy' hz' heq
  · rintro d' ⟨⟩
    exact h.docId d hd
  · intro j y id hy hyl
    rcases put_get hy with ⟨-, rfl⟩ | ⟨-, hy'⟩
    · exact h.lockIds i x id hx (hm.lockId.symm.trans hyl)
    · exact h.lockIds j y id hy' hyl
  · rintro j y d' hy ⟨⟩ hyo
    rcases put_get hy with ⟨-, rfl⟩ | ⟨-, hy'⟩
    · exact hm.lockId.trans hlock
    · exact h.owner j y d hy' hd hyo
  · rintro j y d' hy ⟨⟩ hyl
    rcases put_get hy with ⟨-, rfl⟩ | ⟨hj, hy'⟩
    · exact ⟨howner.trans (congrArg some hm.token.symm), ms, rfl, rfl⟩
    · exact absurd (honly j y hy' hyl) hj
  · intro j y hy hown hfresh
    rcases put_get hy with ⟨-, rfl⟩ | ⟨-, hy'⟩
    · exact ⟨_, rfl, hm.lockId.trans hlock⟩
    · obtain ⟨d', hd', hyl⟩ := h.held j y hy' hown hfresh
      have heq : d = d' := Option.some.inj (hd.symm.trans hd')
      exact ⟨_, rfl, heq ▸ hyl⟩

/-- The upsert of a session inserts its document. -/
theorem Wf.insert {s : State} (h : Wf s) {i : Nat} {x : Session} {ms : Nat}
    (hx : s.sessions[i]? = some x) (hreq : x.request = some (.acquire ms x.token))
    (hnone : s.locks.doc = none) :
    Wf ({ s with locks :=
        { doc := some ⟨s.locks.nextId, .date ms, some x.token⟩, nextId := s.locks.nextId + 1 }
      }.put i { x.receive (.acquired (some s.locks.nextId)) with
        lockId := some s.locks.nextId, refreshedAt := some ms }) := by
  have hs := h.sound i x hx
  -- a lock nobody holds: every owner of the past is stale
  have hnobody : ∀ (j : Nat) (y : Session), s.sessions[j]? = some y → y.Owns →
      ¬ y.Fresh s.now := by
    intro j y hy hown hfresh
    obtain ⟨d, hd, -⟩ := h.held j y hy hown hfresh
    rw [hnone] at hd
    cases hd
  have htoken := x.receive_token (.acquired (some s.locks.nextId))
  have hnothing := x.receive_request (.acquired (some s.locks.nextId))
  have hsound : ({ x.receive (.acquired (some s.locks.nextId)) with
      lockId := some s.locks.nextId, refreshedAt := some ms } : Session).Sound s.now := by
    refine ⟨?_, fun _ => ⟨_, rfl⟩, ?_, ?_⟩
    · -- a session with a request in flight awaits its reply, or is gone
      have hph := x.receive_phase (.acquired (some s.locks.nextId))
      rintro (ht | ht | ⟨r, ht, hr⟩)
      all_goals
        have ht' := hph.symm.trans ht
        rcases hs.pending (by simp [hreq]) with hp | hp | hp <;> rw [hp] at ht'
      all_goals try cases ht'
      exact absurd rfl (hr _)
    · intro r hr
      rw [show (x.receive _).request = some r from hr] at hnothing
      cases hnothing
    · exact fun hne => absurd hnothing hne
  have hlt : ∀ (j : Nat) (y : Session), s.sessions[j]? = some y →
      y.lockId ≠ some s.locks.nextId := by
    intro j y hy hlock
    exact absurd (h.lockIds j y _ hy hlock) (Nat.lt_irrefl _)
  constructor
  · intro j y hy
    rcases put_get hy with ⟨-, rfl⟩ | ⟨-, hy'⟩
    · exact hsound
    · exact h.sound j y hy'
  · intro j k y z hy hz heq
    rcases put_get hy with ⟨rfl, rfl⟩ | ⟨-, hy'⟩
    · rcases put_get hz with ⟨rfl, -⟩ | ⟨-, hz'⟩
      · rfl
      · exact h.tokens _ _ _ _ hx hz' (htoken.symm.trans heq)
    · rcases put_get hz with ⟨rfl, rfl⟩ | ⟨-, hz'⟩
      · exact h.tokens _ _ _ _ hy' hx (heq.trans htoken)
      · exact h.tokens _ _ _ _ hy' hz' heq
  · rintro d ⟨⟩
    exact Nat.lt_succ_self _
  · intro j y id hy hlock
    rcases put_get hy with ⟨-, rfl⟩ | ⟨-, hy'⟩
    · rw [← Option.some.inj hlock]
      exact Nat.lt_succ_self _
    · exact Nat.lt_succ_of_lt (h.lockIds j y id hy' hlock)
  · rintro j y d hy ⟨⟩ howner
    rcases put_get hy with ⟨-, rfl⟩ | ⟨hj, hy'⟩
    · rfl
    · exact absurd (h.tokens _ _ _ _ hy' hx (Option.some.inj howner).symm) hj
  · rintro j y d hy ⟨⟩ hlock
    rcases put_get hy with ⟨-, rfl⟩ | ⟨-, hy'⟩
    · exact ⟨congrArg some htoken.symm, ms, rfl, rfl⟩
    · exact absurd hlock (hlt j y hy')
  · intro j y hy hown hfresh
    rcases put_get hy with ⟨-, rfl⟩ | ⟨-, hy'⟩
    · exact ⟨_, rfl, rfl⟩
    · exact absurd hfresh (hnobody j y hy' hown)

/-- A replica starts a session. -/
theorem Wf.start {s : State} (h : Wf s) {token : String} (hun : s.Unused token) {x : Session}
    (htoken : x.token = token) (hid : x.lockId = none) (hsound : x.Sound s.now)
    (hown : ¬ x.Owns) : Wf { s with sessions := s.sessions ++ [x] } := by
  have hnew : ∀ (j : Nat) (y : Session), s.sessions[j]? = some y → y.token ≠ token :=
    fun j y hy => hun.1 y (List.mem_of_getElem? hy)
  constructor
  · intro j y hy
    rcases getElem?_append_cases hy with hy' | ⟨-, rfl⟩
    · exact h.sound j y hy'
    · exact hsound
  · intro j k y z hy hz heq
    rcases getElem?_append_cases hy with hy' | ⟨rfl, rfl⟩ <;> rcases getElem?_append_cases hz
      with hz' | ⟨rfl, hzx⟩
    · exact h.tokens j k y z hy' hz' heq
    · exact absurd (heq.trans (hzx ▸ htoken)) (hnew j y hy')
    · exact absurd (heq.symm.trans htoken) (hnew k z hz')
    · rfl
  · exact h.docId
  · intro j y id hy hlock
    rcases getElem?_append_cases hy with hy' | ⟨-, rfl⟩
    · exact h.lockIds j y id hy' hlock
    · rw [hid] at hlock
      cases hlock
  · intro j y d hy hd howner
    rcases getElem?_append_cases hy with hy' | ⟨-, rfl⟩
    · exact h.owner j y d hy' hd howner
    · exact absurd (howner.trans (congrArg some htoken)) (hun.2 d hd)
  · intro j y d hy hd hlock
    rcases getElem?_append_cases hy with hy' | ⟨-, rfl⟩
    · exact h.stamped j y d hy' hd hlock
    · rw [hid] at hlock
      cases hlock
  · intro j y hy ho hfresh
    rcases getElem?_append_cases hy with hy' | ⟨-, rfl⟩
    · exact h.held j y hy' ho hfresh
    · exact absurd ho hown

/-! ## Every step keeps the invariant -/

/-- The server executes the request of a session. -/
theorem wf_serve {s : State} (h : Wf s) {i : Nat} {x : Session} {r : Request}
    (hx : s.sessions[i]? = some x) (hr : x.request = some r) :
    Wf ({ s with locks := (s.locks.execute r).1 }.put i
      ((x.receive (s.locks.execute r).2).noting r (s.locks.execute r).2)) := by
  have hs := h.sound i x hx
  have hmay := hs.request r hr
  cases hd : s.locks.doc with
  | none =>
      cases r with
      | acquire ms owner =>
          obtain ⟨rfl, -⟩ := hmay
          have hexec : s.locks.execute (.acquire ms x.token) =
              ({ doc := some ⟨s.locks.nextId, .date ms, some x.token⟩,
                 nextId := s.locks.nextId + 1 }, .acquired (some s.locks.nextId)) := by
            rw [LockCollection.execute, hd]
          rw [hexec]
          exact h.insert hx hr hd
      | refresh owner ms => exact hmay.elim
      | _ =>
          rw [LockCollection.execute]
          try rw [hd]
          exact h.put hx (moves_receive hs (by simp))
  | some d =>
      cases r with
      | refresh owner ms => exact hmay.elim
      | acquire ms owner =>
          rw [LockCollection.execute, hd]
          exact h.put hx (moves_receive hs (by simp))
      | findOne =>
          rw [LockCollection.execute]
          exact h.put hx (moves_receive hs (by simp))
      | stamp id ms =>
          have hput := h.put hx (moves_receive hs (r := .stamped) (by simp))
          rw [LockCollection.execute, hd]
          dsimp only
          split
          · rename_i hmatch
            exact hput.stamp hd hmatch.2 ms
          · exact hput
      | breakLock id ms =>
          have hput := h.put hx (moves_receive hs (r := .broken) (by simp))
          rw [LockCollection.execute, hd]
          dsimp only
          split
          · rename_i hmatch
            -- the timestamp still is the one that was found stale
            refine hput.drop hd ?_
            intro j y hy _ hlock hfresh
            obtain ⟨-, ms', hdate, href⟩ := hput.stamped j y d hy hd hlock
            have heq : ms = ms' := AcquiredAt.date.inj (hmatch.2.symm.trans hdate)
            have hle : s.now ≤ ms' + lockStaleAfterMs := hfresh ms' href
            have hstale : ms + lockStaleAfterMs < s.now := hmay
            omega
          · exact hput
      | release owner =>
          have hput := h.put hx (moves_receive hs (r := .released) (by simp))
          obtain ⟨rfl, hph⟩ := hmay
          rw [LockCollection.execute, hd]
          dsimp only
          split
          · rename_i howner
            -- the one session that could have held it is the one that releases it
            refine hput.drop hd ?_
            intro j y hy hown hlock _
            have hyo := (hput.stamped j y d hy hd hlock).1
            have htoken : y.token = x.token := Option.some.inj (hyo.symm.trans howner)
            rcases put_get hy with ⟨-, rfl⟩ | ⟨hj, hy'⟩
            · have hreply := x.receive_phase .released
              rcases hown with ho | ⟨id, ho⟩ <;> rcases hph with hp | hp <;>
                rw [hp] at hreply <;> cases hreply.symm.trans ho
            · exact absurd (h.tokens _ _ _ _ hy' hx htoken) hj
          · exact hput

theorem step_wf {s s' : State} {e : Action} (h : Wf s) (hs : step s e = some s') : Wf s' := by
  cases e with
  | tick ms =>
      rw [← Option.some.inj hs]
      exact wf_tick h ms
  | acquireLock token =>
      rw [step] at hs
      split at hs
      · rename_i hun
        rw [← Option.some.inj hs]
        refine h.start hun rfl rfl ⟨fun _ => rfl, ?_, ?_, fun _ => Or.inl rfl⟩ ?_
        · rintro (ho | ⟨id, ho⟩) <;> cases ho
        · rintro r ⟨⟩
          exact ⟨rfl, rfl⟩
        · rintro (ho | ⟨id, ho⟩) <;> cases ho
      · cases hs
  | serve i =>
      obtain ⟨x, hx, hs'⟩ := Option.bind_eq_some_iff.mp hs
      obtain ⟨r, hr, rfl⟩ := Option.map_eq_some_iff.mp hs'
      exact wf_serve h hx hr
  | resume i =>
      obtain ⟨x, hx, hs'⟩ := Option.bind_eq_some_iff.mp hs
      obtain ⟨x', hx', rfl⟩ := Option.map_eq_some_iff.mp hs'
      exact h.put hx (moves_resume (h.sound i x hx) hx')
  | heartbeat i =>
      obtain ⟨x, hx, hs'⟩ := Option.bind_eq_some_iff.mp hs
      split at hs'
      · rw [← Option.some.inj hs']
        have hsx := h.sound i x hx
        exact h.put hx ⟨⟨hsx.trying, hsx.owns, hsx.request, hsx.pending⟩, rfl, rfl, rfl, id⟩
      · cases hs'
  | serveHeartbeat i k =>
      obtain ⟨x, hx, hs'⟩ := Option.bind_eq_some_iff.mp hs
      obtain ⟨ms, -, rfl⟩ := Option.map_eq_some_iff.mp hs'
      have hsx := h.sound i x hx
      have hm : x.Moves { x with beats := x.beats.eraseIdx k } s.now :=
        ⟨⟨hsx.trying, hsx.owns, hsx.request, hsx.pending⟩, rfl, rfl, rfl, id⟩
      cases hd : s.locks.doc with
      | none =>
          rw [LockCollection.execute, hd]
          exact h.put hx hm
      | some d =>
          rw [LockCollection.execute, hd]
          dsimp only
          split
          · rename_i howner
            exact h.refresh hx hm hd howner ms
          · exact h.put hx hm
  | finish i =>
      obtain ⟨x, hx, hs'⟩ := Option.bind_eq_some_iff.mp hs
      split at hs'
      · rw [← Option.some.inj hs']
        have hsx := h.sound i x hx
        refine h.put hx ⟨⟨?_, ?_, ?_, fun _ => Or.inr (Or.inl rfl)⟩, rfl, rfl, rfl, ?_⟩
        · rintro (ht | ht | ⟨_, ht, -⟩) <;> cases ht
        · rintro (ho | ⟨id, ho⟩) <;> cases ho
        · rintro r ⟨⟩
          exact ⟨rfl, Or.inl rfl⟩
        · rintro (ho | ⟨id, ho⟩) <;> cases ho
      · cases hs'
  | fail i =>
      obtain ⟨x, hx, hs'⟩ := Option.bind_eq_some_iff.mp hs
      split at hs'
      · cases hs'
      · rw [← Option.some.inj hs']
        have hsx := h.sound i x hx
        refine h.put hx ⟨⟨?_, ?_, ?_, fun _ => Or.inr (Or.inr rfl)⟩, rfl, rfl, rfl, ?_⟩
        · rintro (ht | ht | ⟨_, ht, -⟩) <;> cases ht
        · rintro (ho | ⟨id, ho⟩) <;> cases ho
        · intro r hr
          have hmay := hsx.request r hr
          cases r with
          | release owner => exact ⟨hmay.1, Or.inr rfl⟩
          | _ => exact hmay
        · rintro (ho | ⟨id, ho⟩) <;> cases ho

/-! ## Mutual exclusion -/

theorem Wf.exclusive {s : State} (h : Wf s) (hfresh : s.Refreshed) : s.Exclusive := by
  intro i j x y hx hy hpx hpy
  obtain ⟨d, hd, hlx⟩ := h.held i x hx (Or.inl hpx) (hfresh x (List.mem_of_getElem? hx) hpx)
  obtain ⟨d', hd', hly⟩ := h.held j y hy (Or.inl hpy) (hfresh y (List.mem_of_getElem? hy) hpy)
  have heq : d = d' := Option.some.inj (hd.symm.trans hd')
  have hox := (h.stamped i x d hx hd hlx).1
  have hoy := (h.stamped j y d hy hd (heq ▸ hly)).1
  exact h.tokens i j x y hx hy (Option.some.inj (hox.symm.trans hoy))

/-- A session whose document is gone finds no document with its owner id. -/
theorem Wf.keeps_locks {s s' : State} {i : Nat} {x : Session} {e : Action} (h : Wf s)
    (hx : s.sessions[i]? = some x) (hlost : ¬ x.HasLock s.locks) (he : s.BeatsOrReleases i e)
    (hs : step s e = some s') : s'.locks = s.locks := by
  have hforeign : ∀ d, s.locks.doc = some d → d.owner ≠ some x.token :=
    fun d hd howner => hlost ⟨d, hd, h.owner i x d hx hd howner⟩
  have hsame : ∀ r, r = .release x.token ∨ (∃ ms, r = .refresh x.token ms) →
      (s.locks.execute r).1 = s.locks := by
    rintro r (rfl | ⟨ms, rfl⟩)
    all_goals
      rw [LockCollection.execute]
      cases hd : s.locks.doc with
      | none => rfl
      | some d => simp [hforeign d hd]
  cases e with
  | serveHeartbeat j k =>
      obtain rfl : j = i := he
      obtain ⟨y, hy, hs'⟩ := Option.bind_eq_some_iff.mp hs
      obtain rfl : x = y := Option.some.inj (hx.symm.trans hy)
      obtain ⟨ms, -, rfl⟩ := Option.map_eq_some_iff.mp hs'
      exact hsame _ (Or.inr ⟨ms, rfl⟩)
  | serve j =>
      obtain ⟨rfl, z, owner, hz, hreq⟩ := he
      obtain ⟨y, hy, hs'⟩ := Option.bind_eq_some_iff.mp hs
      obtain rfl : x = y := Option.some.inj (hx.symm.trans hy)
      obtain rfl : x = z := Option.some.inj (hx.symm.trans hz)
      obtain ⟨r, hr, rfl⟩ := Option.map_eq_some_iff.mp hs'
      obtain rfl : r = .release owner := Option.some.inj (hr.symm.trans hreq)
      obtain ⟨rfl, -⟩ : owner = x.token ∧ _ := (h.sound j x hx).request _ hreq
      exact hsame _ (Or.inl rfl)
  | _ => exact he.elim

/-- **The migration lock excludes.** While the holders refresh in time, no two
    sessions work at once; and whatever the timing, a session that lost its
    lock leaves every later holder's document as it is. -/
theorem lock_excludes {s : State} (hstart : Start s) (es : List Action) :
    (Always step State.Refreshed s es → Always step State.Exclusive s es) ∧
    ∀ (t t' : State) (i : Nat) (x : Session) (e : Action), run step s es = some t →
      t.sessions[i]? = some x → x.lockId ≠ none → ¬ x.HasLock t.locks →
      t.BeatsOrReleases i e → step t e = some t' → t'.locks = t.locks := by
  have hinv : ∀ s e s', Wf s → step s e = some s' → Wf s' := fun _ _ _ h hs => step_wf h hs
  constructor
  · exact always_of_invariant step hinv (fun s h hf => h.exclusive hf) es s (wf_start hstart)
  · intro t t' i x e hrun hx _ hlost he hs
    have hwf : Wf t := run_invariant_all step hinv (wf_start hstart) hrun
    exact hwf.keeps_locks hx hlost he hs

/-- Two replicas take turns; and in another run `b` breaks the lock of a stalled
    `a`, whose heartbeat arrives when `b` works. -/
theorem lock_excludes_turns :
    let start : State := ⟨0, ⟨none, 0⟩, []⟩
    let enter (i : Nat) (token : String) : List Action := [.acquireLock token, .serve i, .resume i]
    let turns : List Action := enter 0 "a" ++ [.tick 15000, .heartbeat 0, .serveHeartbeat 0 0] ++
      enter 1 "b" ++ [.serve 1, .resume 1, .tick 59000, .finish 0, .serve 0, .resume 1,
        .serve 1, .resume 1]
    let broken : List Action := enter 0 "a" ++ [.heartbeat 0, .tick 60001] ++ enter 1 "b" ++
      [.serve 1, .resume 1, .serve 1, .resume 1, .serve 1, .resume 1]
    let a : Session := ⟨"a", 900000, .holding, none, [0], some 0, some 0⟩
    let b : Session := ⟨"b", 960001, .holding, none, [], some 1, some 60001⟩
    let t : State := ⟨60001, ⟨some ⟨1, .date 60001, some "b"⟩, 2⟩, [a, b]⟩
    Always step State.Exclusive start turns ∧ run step start broken = some t ∧
      ∀ t', step t (.serveHeartbeat 0 0) = some t' → t'.locks = t.locks := by
  intro start enter turns broken a b t
  have hstart : Start start := ⟨rfl, by simp [start]⟩
  have hrun : run step start broken = some t := by decide
  refine ⟨(lock_excludes hstart turns).1 (by decide), hrun, ?_⟩
  intro t' ht'
  refine (lock_excludes hstart broken).2 t t' 0 a (.serveHeartbeat 0 0) hrun rfl (by decide) ?_
    rfl ht'
  rintro ⟨d, ⟨⟩, hd⟩
  cases hd

end MigrationLock
