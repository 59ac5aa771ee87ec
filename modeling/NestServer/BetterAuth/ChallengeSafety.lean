import NestServer.BetterAuth.Challenges

/-! # What a challenge id stands for

    Whatever requests run at the same time: Better-Auth is given the token of an id if
    and only if it has set the token itself, the id was drawn for it, and the id was
    neither used up nor over.  An id is used up by a verification that succeeds, and by
    no other. -/

namespace PasskeyChallenges

open KeyedLog WebHelper

variable {config : Config} {s t : State} {log : List Change} {exchanges : List Exchange}

/-! ## What holds of an exchange -/

variable (config) in
/-- The mapping is for the token of the answer. -/
structure Issued (x : Exchange) (m : Mapping) : Prop where
  generate : x.generate = true
  answer   : ∃ r, x.response = some r ∧ r.ok = true ∧
    r.verificationToken config.passkey.getCookieName = .ok (some m.verificationToken) ∧
    m.userId = r.userId x.sessionToken
  nonempty : m.verificationToken ≠ []
  type     : m.type = x.kind
  expires  : m.expiresAt = m.createdAt + config.passkey.ttlSeconds * 1000

variable (config) in
/-- Better-Auth was given the token of the mapping that was read. -/
structure Read (log : List Change) (x : Exchange) (l : Lookup) (time : Nat) : Prop where
  seen     : l.seen ≤ log.length
  injected : ∀ token, x.injected = some (l.challengeId, token) ↔
    config.secret ≠ [] ∧ ∃ m, changes.contents (log.take l.seen) l.challengeId = some m ∧
      m.verificationToken = token ∧ token ≠ [] ∧ time ≤ m.expiresAt

/-- A verification that succeeds. -/
structure Uses (x : Exchange) (id : String) : Prop where
  injected : ∃ token, x.injected = some (id, token)
  answer   : ∃ r, x.response = some r ∧ r.ok = true

/-- Nothing has been looked up, nothing has been answered. -/
structure Unanswered (x : Exchange) : Prop where
  lookup   : x.lookup = none
  injected : x.injected = none
  response : x.response = none

variable (config) in
/-- What the client got. -/
def Told (log : List Change) (i : Nat) (x : Exchange) (sent : Response) : Prop :=
  x.response = some sent ∧ (∀ m, ¬ Issued config x m) ∨
    ∃ m r, .stored i m ∈ log ∧ Issued config x m ∧ x.response = some r ∧
      sent = r.enhanced config.passkey.getCookieName m.challengeId

variable (config) in
/-- What the phase of an exchange tells. -/
def Phase.Holds (log : List Change) (i : Nat) (x : Exchange) : Phase → Prop
  | .generating    => Unanswered x ∧ x.generate = true
  | .storing m     => Issued config x m
  | .stored m      => Issued config x m ∧ .stored i m ∈ log
  | .looking _     => Unanswered x ∧ x.generate = false
  | .found l m     => Unanswered x ∧ x.generate = false ∧ l.seen ≤ log.length ∧
      m = changes.contents (log.take l.seen) l.challengeId
  | .forwarding    => x.response = none ∧ x.generate = false
  | .deleting id   => Uses x id ∧ x.generate = false
  | .deleted       => x.generate = false
  | .answered sent => Told config log i x sent
  | .failed        => True

variable (config) in
structure Good (log : List Change) (i : Nat) (x : Exchange) : Prop where
  phase    : x.phase.Holds config log i x
  read     : ∀ l time, x.lookup = some (l, time) → Read config log x l time
  lookedUp : ∀ id token, x.injected = some (id, token) →
    ∃ l time, x.lookup = some (l, time) ∧ l.challengeId = id

variable (config) in
/-- Where a change comes from. -/
def Stems (now : Nat) (exchanges : List Exchange) (before : List Change) : Change → Prop
  | .stored j m   => ∃ y, exchanges[j]? = some y ∧ Issued config y m
  | .deleted j id => ∃ y, exchanges[j]? = some y ∧ Uses y id ∧
      ∃ l time, y.lookup = some (l, time) ∧ l.seen ≤ before.length
  | .forgotten _  => True
  | .expired id   => ∃ m, changes.contents before id = some m ∧ m.expiresAt ≤ now

/-! ## An exchange goes on -/

/-- What is known of an exchange stays. -/
structure Goes (x y : Exchange) : Prop where
  generate     : y.generate = x.generate
  kind         : y.kind = x.kind
  sessionToken : y.sessionToken = x.sessionToken
  response     : ∀ r, x.response = some r → y.response = some r
  lookup       : ∀ l, x.lookup = some l → y.lookup = some l
  injected     : ∀ e, x.injected = some e → y.injected = some e

theorem Goes.refl (x : Exchange) : Goes x x :=
  ⟨rfl, rfl, rfl, fun _ => id, fun _ => id, fun _ => id⟩

theorem Issued.goes {x y : Exchange} {m : Mapping} (h : Issued config x m) (hgo : Goes x y) :
    Issued config y m := by
  obtain ⟨r, hr, hok, htoken, huser⟩ := h.answer
  refine ⟨hgo.generate.trans h.generate, ⟨r, hgo.response r hr, hok, htoken, ?_⟩, h.nonempty,
    h.type.trans hgo.kind.symm, h.expires⟩
  rw [huser, hgo.sessionToken]

theorem Uses.goes {x y : Exchange} {id : String} (h : Uses x id) (hgo : Goes x y) : Uses y id := by
  obtain ⟨token, htoken⟩ := h.injected
  obtain ⟨r, hr, hok⟩ := h.answer
  exact ⟨⟨token, hgo.injected _ htoken⟩, r, hgo.response r hr, hok⟩

/-! ## The log grows -/

theorem take_grow {n : Nat} (c : Change) (h : n ≤ log.length) :
    (log ++ [c]).take n = log.take n := List.take_append_of_le_length h

theorem le_length_grow {n : Nat} (c : Change) (h : n ≤ log.length) : n ≤ (log ++ [c]).length := by
  rw [List.length_append]
  exact Nat.le_add_right_of_le h

theorem Phase.Holds.grow {phase : Phase} {i : Nat} {x : Exchange} (c : Change)
    (h : phase.Holds config log i x) : phase.Holds config (log ++ [c]) i x := by
  cases phase with
  | stored m      => exact ⟨h.1, List.mem_append_left _ h.2⟩
  | found l m     =>
      refine ⟨h.1, h.2.1, le_length_grow c h.2.2.1, ?_⟩
      rw [take_grow c h.2.2.1, h.2.2.2]
  | answered sent =>
      refine Or.imp id ?_ h
      rintro ⟨m, r, hmem, hrest⟩
      exact ⟨m, r, List.mem_append_left _ hmem, hrest⟩
  | _             => exact h

theorem Good.grow {i : Nat} {x : Exchange} (c : Change) (h : Good config log i x) :
    Good config (log ++ [c]) i x where
  phase    := h.phase.grow c
  read     := by
    intro l time hl
    have hread := h.read l time hl
    refine ⟨le_length_grow c hread.seen, fun token => ?_⟩
    rw [take_grow c hread.seen]
    exact hread.injected token
  lookedUp := h.lookedUp

/-! ## The invariant -/

variable (config) in
structure Inv (s : State) : Prop where
  db    : s.db = changes.contents s.log
  good  : ∀ (i : Nat) (x : Exchange), s.exchanges[i]? = some x → Good config s.log i x
  stems : ∀ before c after, s.log = before ++ c :: after →
    Stems config s.now s.exchanges before c

/-- What a change comes from is still there when exchanges go on. -/
theorem Stems.goes {now now' : Nat} {exchanges' : List Exchange} {before : List Change} {c : Change}
    (h : Stems config now exchanges before c) (hnow : now ≤ now')
    (hgo : ∀ (i : Nat) (x : Exchange), exchanges[i]? = some x →
      ∃ y, exchanges'[i]? = some y ∧ Goes x y) :
    Stems config now' exchanges' before c := by
  cases c with
  | stored j m   =>
      obtain ⟨x, hx, hissued⟩ := h
      obtain ⟨y, hy, hxy⟩ := hgo j x hx
      exact ⟨y, hy, hissued.goes hxy⟩
  | deleted j id =>
      obtain ⟨x, hx, huses, l, time, hl, hseen⟩ := h
      obtain ⟨y, hy, hxy⟩ := hgo j x hx
      exact ⟨y, hy, huses.goes hxy, l, time, hxy.lookup _ hl, hseen⟩
  | forgotten _  => trivial
  | expired id   =>
      obtain ⟨m, hm, hover⟩ := h
      exact ⟨m, hm, Nat.le_trans hover hnow⟩

theorem Inv.put (h : Inv config s) {i : Nat} {x y : Exchange} (hx : s.exchanges[i]? = some x)
    (hgo : Goes x y) (hgood : Good config s.log i y) : Inv config (s.put i y) where
  db    := h.db
  good  := by
    intro j z hz
    rw [State.put, List.getElem?_set] at hz
    split at hz
    · next hij =>
      subst hij
      split at hz
      · exact Option.some.inj hz ▸ hgood
      · cases hz
    · exact h.good j z hz
  stems := by
    intro before c after hlog
    refine (h.stems before c after hlog).goes (Nat.le_refl _) fun j z hz => ?_
    by_cases hij : i = j
    · subst hij
      rw [hx] at hz
      refine ⟨y, ?_, Option.some.inj hz ▸ hgo⟩
      exact List.getElem?_set_self (List.getElem?_eq_some_iff.mp hx).1
    · exact ⟨z, (List.getElem?_set_ne hij).trans hz, .refl z⟩

theorem Inv.change (h : Inv config s) {c : Change}
    (hstems : Stems config s.now s.exchanges s.log c) : Inv config (s.change c) where
  db    := by
    show changes.apply s.db c = changes.contents (s.log ++ [c])
    rw [Changes.contents_concat, h.db]
  good  := fun i x hx => (h.good i x hx).grow c
  stems := by
    intro before d after hlog
    rcases Changes.split_concat hlog with ⟨rfl, rfl, -⟩ | ⟨rest, -, hlog⟩
    · exact hstems
    · exact h.stems before d rest hlog

theorem Inv.append (h : Inv config s) {x : Exchange}
    (hgood : Good config s.log s.exchanges.length x) :
    Inv config { s with exchanges := s.exchanges ++ [x] } where
  db    := h.db
  good  := by
    intro j z hz
    rcases Nat.lt_trichotomy j s.exchanges.length with hj | rfl | hj
    · rw [List.getElem?_append_left hj] at hz
      exact h.good j z hz
    · rw [List.getElem?_concat_length] at hz
      exact Option.some.inj hz ▸ hgood
    · rw [List.getElem?_eq_none (by rw [List.length_append]; exact hj)] at hz
      cases hz
  stems := by
    intro before c after hlog
    refine (h.stems before c after hlog).goes (Nat.le_refl _) fun j z hz => ⟨z, ?_, .refl z⟩
    rw [List.getElem?_append_left (List.getElem?_eq_some_iff.mp hz).1]
    exact hz

/-! ## Steps -/

/-- An exchange that only gets another phase. -/
theorem Good.turn {i : Nat} {x : Exchange} (h : Good config log i x) {phase : Phase}
    (hphase : phase.Holds config log i { x with phase := phase }) :
    Good config log i { x with phase := phase } where
  phase    := hphase
  read     := fun l time hl => ⟨(h.read l time hl).seen, (h.read l time hl).injected⟩
  lookedUp := h.lookedUp

theorem goes_turn (x : Exchange) (phase : Phase) : Goes x { x with phase := phase } :=
  ⟨rfl, rfl, rfl, fun _ => id, fun _ => id, fun _ => id⟩

/-- And one that is answered by Better-Auth. -/
theorem Good.answer {i : Nat} {x : Exchange} (h : Good config log i x) {phase : Phase}
    {r : Response}
    (hphase : phase.Holds config log i { x with phase := phase, response := some r }) :
    Good config log i { x with phase := phase, response := some r } where
  phase    := hphase
  read     := fun l time hl => ⟨(h.read l time hl).seen, (h.read l time hl).injected⟩
  lookedUp := h.lookedUp

theorem goes_answer {x : Exchange} (hx : x.response = none) (phase : Phase) (r : Response) :
    Goes x { x with phase := phase, response := some r } :=
  ⟨rfl, rfl, rfl, fun _ hr => (by rw [hx] at hr; cases hr), fun _ => id, fun _ => id⟩

/-- An answer without a token is passed on. -/
theorem not_issued {x : Exchange} {r : Response} (hr : x.response = some r)
    (h : x.generate = true → r.ok = true → ∀ c cs,
      r.verificationToken config.passkey.getCookieName ≠ .ok (some (c :: cs))) (m : Mapping) :
    ¬ Issued config x m := by
  rintro ⟨hgenerate, ⟨r', hr', hok, htoken, -⟩, hne, -, -⟩
  rw [hr] at hr'
  cases hr'
  obtain ⟨c, cs, hcs⟩ := List.exists_cons_of_ne_nil hne
  exact h hgenerate hok c cs (hcs ▸ htoken)

/-- Better-Auth answers. -/
theorem good_afterAnswer {i : Nat} {x : Exchange} (h : Good config log i x) (now : Nat)
    (r : Response) (challengeId : String)
    (hphase : x.phase = .generating ∨ x.phase = .forwarding) :
    Good config log i (afterAnswer config now x r challengeId) ∧
      Goes x (afterAnswer config now x r challengeId) := by
  have hholds := h.phase
  rcases hphase with hphase | hphase
  · rw [hphase] at hholds
    have hgo := goes_answer (x := x) hholds.1.response
    rw [afterAnswer, hphase]
    dsimp only
    split
    · next hok =>
      split
      · exact ⟨h.answer trivial, hgo _ r⟩
      · next c cs htoken =>
        exact ⟨h.answer ⟨hholds.2, ⟨r, rfl, hok, htoken, rfl⟩, List.cons_ne_nil c cs, rfl, rfl⟩,
          hgo _ r⟩
      · next token hnot htoken =>
        refine ⟨h.answer (.inl ⟨rfl, not_issued rfl fun _ _ c cs hcs => ?_⟩), hgo _ r⟩
        rw [htoken] at hcs
        cases hcs
        exact hnot c cs rfl
    · next hok =>
      exact ⟨h.answer (.inl ⟨rfl, not_issued rfl fun _ hok' => absurd hok' hok⟩), hgo _ r⟩
  · rw [hphase] at hholds
    have hgo := goes_answer (x := x) hholds.1
    have hpassed : Good config log i { x with phase := .answered r, response := some r } :=
      h.answer (.inl ⟨rfl, not_issued rfl fun hgenerate => by
        rw [hholds.2] at hgenerate
        cases hgenerate⟩)
    rw [afterAnswer, hphase]
    dsimp only
    split
    · next id token hinjected =>
      split
      · next hok => exact ⟨h.answer ⟨⟨⟨token, hinjected⟩, r, rfl, hok⟩, hholds.2⟩, hgo _ r⟩
      · exact ⟨hpassed, hgo _ r⟩
    · exact ⟨hpassed, hgo _ r⟩

/-- The reply to a lookup is read. -/
theorem good_afterFind {i : Nat} {x : Exchange} (h : Good config log i x) (now : Nat)
    {l : Lookup} {m : Option Mapping} (hphase : x.phase = .found l m) :
    Good config log i (afterFind config now x l m) ∧ Goes x (afterFind config now x l m) := by
  have hholds := h.phase
  rw [hphase] at hholds
  obtain ⟨hun, hgenerate, hseen, rfl⟩ := hholds
  have hnothing : ∀ e, x.injected ≠ some e := by
    intro e he
    rw [hun.injected] at he
    cases he
  have hgo : ∀ phase injected,
      Goes x { x with phase := phase, lookup := some (l, now), injected := injected } := by
    intro phase injected
    refine ⟨rfl, rfl, rfl, fun _ => id, fun _ hl => ?_, fun e he => absurd he (hnothing e)⟩
    rw [hun.lookup] at hl
    cases hl
  rw [afterFind]
  split
  · next hnone =>
    refine ⟨⟨⟨hun.response, hgenerate⟩, ?_, fun id token he => absurd he (hnothing _)⟩,
      hgo _ x.injected⟩
    rintro _ _ ⟨⟩
    refine ⟨hseen, fun token => iff_of_false (hnothing _) ?_⟩
    rintro ⟨-, m, hm, rfl, hne, hlive⟩
    rw [hm, Option.filter_eq_none_iff] at hnone
    exact hnone m rfl (by simp [hne, hlive])
  · next m hsome =>
    obtain ⟨hm, hlive⟩ := Option.filter_eq_some_iff.mp hsome
    rw [Bool.and_eq_true, Bool.not_eq_true', decide_eq_false_iff_not, decide_eq_true_eq,
      Nat.not_lt] at hlive
    split
    · next hsecret =>
      refine ⟨⟨trivial, ?_, fun id token he => absurd he (hnothing _)⟩, hgo _ x.injected⟩
      rintro _ _ ⟨⟩
      exact ⟨hseen, fun token => iff_of_false (hnothing _) fun h => h.1 hsecret⟩
    · next hsecret =>
      refine ⟨⟨⟨hun.response, hgenerate⟩, ?_, ?_⟩, hgo _ _⟩
      · rintro _ _ ⟨⟩
        refine ⟨hseen, fun token => ⟨?_, ?_⟩⟩
        · rintro ⟨⟩
          exact ⟨hsecret, m, hm, rfl, hlive.2, hlive.1⟩
        · rintro ⟨-, m', hm', rfl, -, -⟩
          rw [hm] at hm'
          cases hm'
          rfl
      · rintro _ _ ⟨⟩
        exact ⟨l, now, rfl, rfl⟩

/-- What a verification begins with. -/
theorem holds_verify {i : Nat} {kind : Kind} {phase : Phase}
    (h : phase = .forwarding ∨ (∃ id, phase = .looking id) ∨ phase = .failed) :
    phase.Holds config log i
      { generate := false, kind := kind, sessionToken := none, phase := phase } := by
  rcases h with rfl | ⟨id, rfl⟩ | rfl
  · exact ⟨rfl, rfl⟩
  · exact ⟨⟨rfl, rfl, rfl⟩, rfl⟩
  · trivial

theorem Inv.answers (h : Inv config s) {i : Nat} {response : Response} {challengeId : String}
    (hs : step config s (.answers i response challengeId) = some t) : Inv config t := by
  rw [step] at hs
  split at hs
  · cases hs
  · next x hx =>
    have hanswer := good_afterAnswer (h.good i x hx) s.now response challengeId
    split at hs
    · next hphase =>
      cases hs
      obtain ⟨hgood, hgo⟩ := hanswer (.inl hphase)
      exact h.put hx hgo hgood
    · next hphase =>
      cases hs
      obtain ⟨hgood, hgo⟩ := hanswer (.inr hphase)
      exact h.put hx hgo hgood
    · cases hs

/-- A mapping is stored, looked up or deleted. -/
theorem Inv.executes (h : Inv config s) {i : Nat} (hs : step config s (.executes i) = some t) :
    Inv config t := by
  rw [step] at hs
  split at hs
  · cases hs
  · next x hx =>
    have hgood := h.good i x hx
    have hholds := hgood.phase
    split at hs
    · next m hphase =>
      rw [hphase] at hholds
      split at hs
      · cases hs
        exact h.put hx (goes_turn x _) (hgood.turn trivial)
      · cases hs
        have hstored := h.change (c := .stored i m) ⟨x, hx, hholds⟩
        refine hstored.put hx (goes_turn x _) ((hstored.good i x hx).turn ⟨?_, ?_⟩)
        · exact hholds.goes (goes_turn x _)
        · exact List.mem_append_right _ List.mem_cons_self
    · next id hphase =>
      rw [hphase] at hholds
      cases hs
      refine h.put hx (goes_turn x _) (hgood.turn ?_)
      refine ⟨⟨hholds.1.lookup, hholds.1.injected, hholds.1.response⟩, hholds.2,
        Nat.le_refl _, ?_⟩
      rw [List.take_length, h.db]
    · next id hphase =>
      rw [hphase] at hholds
      cases hs
      obtain ⟨token, hinjected⟩ := hholds.1.injected
      obtain ⟨l, time, hl, hid⟩ := hgood.lookedUp id token hinjected
      have hdeleted := h.change (c := .deleted i id)
        ⟨x, hx, hholds.1, l, time, hl, (hgood.read l time hl).seen⟩
      exact hdeleted.put hx (goes_turn x _) ((hdeleted.good i x hx).turn hholds.2)
    · cases hs

theorem Inv.replies (h : Inv config s) {i : Nat} (hs : step config s (.replies i) = some t) :
    Inv config t := by
  rw [step] at hs
  split at hs
  · cases hs
  · next x hx =>
    have hgood := h.good i x hx
    have hholds := hgood.phase
    split at hs
    · next m r hphase hresponse =>
      rw [hphase] at hholds
      cases hs
      refine h.put hx (goes_turn x _) (hgood.turn (.inr ⟨m, r, hholds.2, ?_, hresponse, rfl⟩))
      exact hholds.1.goes (goes_turn x _)
    · next l m hphase =>
      cases hs
      obtain ⟨hgood', hgo⟩ := good_afterFind hgood s.now hphase
      exact h.put hx hgo hgood'
    · next r hphase hresponse =>
      rw [hphase] at hholds
      cases hs
      refine h.put hx (goes_turn x _) (hgood.turn (.inl ⟨hresponse, ?_⟩))
      exact not_issued hresponse fun hgenerate => by
        rw [show x.generate = false from hholds] at hgenerate
        cases hgenerate
    · cases hs

theorem Inv.errors (h : Inv config s) {i : Nat} (hs : step config s (.errors i) = some t) :
    Inv config t := by
  rw [step] at hs
  split at hs
  · cases hs
  · next x hx =>
    split at hs
    · cases hs
    · cases hs
    · cases hs
      exact h.put hx (goes_turn x _) ((h.good i x hx).turn trivial)

/-- Only a mapping that is over expires. -/
theorem Inv.expires (h : Inv config s) {id : String}
    (hs : step config s (.expires id) = some t) : Inv config t := by
  rw [step] at hs
  split at hs
  · next hover =>
    cases hs
    refine h.change ?_
    cases hm : s.db id with
    | none   =>
        rw [hm] at hover
        cases hover
    | some m =>
        rw [hm, Option.any_some, decide_eq_true_eq] at hover
        exact ⟨m, by rw [← h.db, hm], hover⟩
  · cases hs

theorem Inv.step (h : Inv config s) (event : Event)
    (hs : PasskeyChallenges.step config s event = some t) : Inv config t := by
  cases event with
  | generates kind sessionToken =>
      cases hs
      refine h.append ⟨?_, by rintro _ _ ⟨⟩, by rintro _ _ ⟨⟩⟩
      cases hon : config.passkey.isEnabled with
      | true  => exact ⟨⟨rfl, rfl, rfl⟩, rfl⟩
      | false => exact ⟨rfl, rfl⟩
  | verifies kind challengeId =>
      cases hs
      refine h.append ⟨holds_verify ?_, by rintro _ _ ⟨⟩, by rintro _ _ ⟨⟩⟩
      split
      · split
        · exact .inl rfl
        · split
          · exact .inl rfl
          · exact .inr (.inl ⟨_, rfl⟩)
        · exact .inr (.inr rfl)
      · exact .inl rfl
  | answers i response challengeId => exact h.answers hs
  | executes i                     => exact h.executes hs
  | replies i                      => exact h.replies hs
  | errors i                       => exact h.errors hs
  | forgets userId =>
      cases hs
      exact h.change trivial
  | expires id                     => exact h.expires hs
  | passes ms =>
      cases hs
      refine ⟨h.db, h.good, fun before c after hlog => ?_⟩
      exact (h.stems before c after hlog).goes (Nat.le_add_right _ _) fun j z hz => ⟨z, hz, .refl z⟩

theorem inv_boot (now : Nat) : Inv config (boot now) where
  db    := rfl
  good  := by rintro i x ⟨⟩
  stems := by
    intro before c after hlog
    cases before <;> cases hlog

/-! ## Runs -/

variable (config) in
/-- What is true of the requests at any time. -/
structure Safe (s : State) : Prop where
  /-- Better-Auth is given a token for an id if and only if a mapping of the id stood when
      it was looked up, and was not over when the reply was read -/
  injected : ∀ (i : Nat) (x : Exchange) (l : Lookup) (time : Nat) (token : Text),
    s.exchanges[i]? = some x → x.lookup = some (l, time) →
      (x.injected = some (l.challengeId, token) ↔ config.secret ≠ [] ∧
        ∃ m, changes.Stands (s.log.take l.seen) l.challengeId m ∧ m.verificationToken = token ∧
          time ≤ m.expiresAt)
  /-- it is given none for an id that was not looked up -/
  lookedUp : ∀ (i : Nat) (x : Exchange) (id : String) (token : Text), s.exchanges[i]? = some x →
    x.injected = some (id, token) → ∃ l time, x.lookup = some (l, time) ∧ l.challengeId = id
  /-- a mapping is for a token that Better-Auth has set -/
  issued   : ∀ i m, Change.stored i m ∈ s.log → ∃ x, s.exchanges[i]? = some x ∧ Issued config x m
  /-- an id is used up by a verification that has succeeded -/
  used     : ∀ before i id after, s.log = before ++ .deleted i id :: after →
    ∃ x, s.exchanges[i]? = some x ∧ Uses x id ∧
      ∃ l time, x.lookup = some (l, time) ∧ l.seen ≤ before.length
  /-- once it is used up, it is not found unless it is drawn again -/
  once     : ∀ before i id after (j : Nat) (y : Exchange) (l : Lookup) (time : Nat) (token : Text),
    s.log = before ++ .deleted i id :: after → s.exchanges[j]? = some y →
      y.lookup = some (l, time) → y.injected = some (id, token) → before.length < l.seen →
        ∃ k m, Change.stored k m ∈ after ∧ m.challengeId = id
  /-- a client that gets an id for a token does not get its cookie -/
  hidden   : ∀ (i : Nat) (x : Exchange) (m : Mapping) (sent : Response),
    s.exchanges[i]? = some x → Issued config x m → x.phase = .answered sent →
      (∀ header ∈ sent.setCookies, Response.sets config.passkey.getCookieName header = false) ∧
        ∃ m', .stored i m' ∈ s.log ∧ sent.body.get? "challengeId" = some (.str m'.challengeId)

/-- **What a challenge id stands for.** -/
theorem challenges_safe (config : Config) (now : Nat) (events : List Event) (s : State)
    (hr : Runs.run (step config) (boot now) events = some s) : Safe config s := by
  have h : Inv config s := Runs.run_invariant (step config)
    (fun s event t h _ hs => Inv.step h event hs) events _ _ (inv_boot now)
    (Runs.meets_true _ _ _) hr
  have hissued : ∀ i m, Change.stored i m ∈ s.log → ∃ x, s.exchanges[i]? = some x ∧
      Issued config x m := by
    intro i m hmem
    obtain ⟨before, after, hlog⟩ := List.append_of_mem hmem
    exact h.stems before _ after hlog
  have hinjected : ∀ (i : Nat) (x : Exchange) (l : Lookup) (time : Nat) (token : Text),
      s.exchanges[i]? = some x → x.lookup = some (l, time) →
        (x.injected = some (l.challengeId, token) ↔ config.secret ≠ [] ∧
          ∃ m, changes.Stands (s.log.take l.seen) l.challengeId m ∧
            m.verificationToken = token ∧ time ≤ m.expiresAt) := by
    intro i x l time token hx hl
    rw [((h.good i x hx).read l time hl).injected token]
    refine and_congr_right fun _ => ⟨?_, ?_⟩
    · rintro ⟨m, hm, htoken, -, hlive⟩
      exact ⟨m, (Changes.contents_iff _ _ _).mp hm, htoken, hlive⟩
    · rintro ⟨m, hm, rfl, hlive⟩
      refine ⟨m, (Changes.contents_iff _ _ _).mpr hm, rfl, ?_, hlive⟩
      -- what stands was stored, and is for a token
      obtain ⟨before, c, after, hlog, hputs, -⟩ := hm
      cases c with
      | stored j m' =>
          obtain ⟨-, rfl⟩ := Prod.mk.inj (Option.some.inj hputs)
          have hmem : Change.stored j m' ∈ s.log.take l.seen := by
            rw [hlog]
            exact List.mem_append_right _ List.mem_cons_self
          obtain ⟨y, -, hy⟩ := hissued j m' (List.mem_of_mem_take hmem)
          exact hy.nonempty
      | deleted j id   => cases hputs
      | forgotten user => cases hputs
      | expired id     => cases hputs
  refine ⟨hinjected, fun i x id token hx => (h.good i x hx).lookedUp id token, hissued,
    fun before i id after hlog => h.stems before _ after hlog, ?_, ?_⟩
  · intro before i id after j y l time token hlog hy hl htoken hlater
    obtain ⟨l', time', hl', rfl⟩ := (h.good j y hy).lookedUp id token htoken
    rw [hl] at hl'
    cases hl'
    obtain ⟨-, m, hstands, -, -⟩ := (hinjected j y l time token hy hl).mp htoken
    obtain ⟨n, hn⟩ := Nat.exists_eq_add_of_lt hlater
    have htake : s.log.take l.seen = before ++ .deleted i l.challengeId :: after.take n := by
      rw [hlog, List.take_append, List.take_of_length_le hlater.le,
        show l.seen - before.length = n + 1 by omega]
      rfl
    rw [htake] at hstands
    obtain ⟨c, hc, hputs⟩ := hstands.later (by
      show ¬ decide (l.challengeId = l.challengeId) = false
      simp) rfl
    cases c with
    | stored k m'    =>
        exact ⟨k, m', List.mem_of_mem_take hc, (Prod.mk.inj (Option.some.inj hputs)).1⟩
    | deleted k id   => cases hputs
    | forgotten user => cases hputs
    | expired id     => cases hputs
  · intro i x m sent hx hissued hphase
    have htold := (h.good i x hx).phase
    rw [hphase] at htold
    rcases htold with ⟨-, hnone⟩ | ⟨m', r, hmem, -, -, rfl⟩
    · exact absurd hissued (hnone m)
    · refine ⟨fun header hheader => ?_, m', hmem, OrderedMap.get?_set_self _ _ _⟩
      have hkept := List.of_mem_filter hheader
      rwa [Bool.not_eq_true'] at hkept

/-- Better-Auth sets the cookie of a challenge. -/
def challengeSet : Response :=
  ⟨200, ["better-auth.better-auth-passkey=tok.c2ln; Path=/; HttpOnly".toList], .empty⟩

def standard : Config := ⟨.absent, "s3cret".toList⟩

/-- The insert of an id for the cookie is under way. -/
def offered : State :=
  { now := 5
    exchanges := [⟨true, .authentication, none, .storing
      ⟨"c1", 5, 300005, .authentication, "anonymous", "tok".toList⟩, none, none,
      some challengeSet⟩] }

/-- The exchange before that. -/
def asked : Exchange := ⟨true, .authentication, none, .generating, none, none, none⟩

theorem run_offered (events : List Event) :
    Runs.run (step standard) (boot 5)
      (.generates .authentication none :: .answers 0 challengeSet "c1" :: events)
      = Runs.run (step standard) offered events := by
  have htoken : challengeSet.verificationToken standard.passkey.getCookieName
      = .ok (some "tok".toList) := by
    have hfind : challengeSet.setCookies.find? (Response.sets standard.passkey.getCookieName)
        = some "better-auth.better-auth-passkey=tok.c2ln; Path=/; HttpOnly".toList := by decide
    have hvalue : ((((("better-auth.better-auth-passkey=tok.c2ln; Path=/; HttpOnly".toList.splitOn
        ';').headD []).splitOn '=')[1]?).getD "undefined".toList) = "tok.c2ln".toList := by decide
    rw [Response.verificationToken, hfind]
    dsimp only
    rw [hvalue, decodeValue, UriComponent.decode_plain (by decide)]
    rfl
  have hanswer : afterAnswer standard 5 asked challengeSet "c1" = ⟨true, .authentication, none,
      .storing ⟨"c1", 5, 300005, .authentication, "anonymous", "tok".toList⟩, none, none,
      some challengeSet⟩ := by
    rw [afterAnswer, show asked.phase = .generating from rfl]
    dsimp only
    rw [if_pos (by decide), htoken]
    rfl
  have hstep : step standard { now := 5, exchanges := [asked] } (.answers 0 challengeSet "c1")
      = some (({ now := 5, exchanges := [asked] } : State).put 0
          (afterAnswer standard 5 asked challengeSet "c1")) := rfl
  rw [Runs.run_cons, show step standard (boot 5) (.generates .authentication none)
    = some { now := 5, exchanges := [asked] } from rfl, Option.bind_some, Runs.run_cons, hstep,
    hanswer]
  rfl

/-- A verification that fails, one that succeeds, and one that comes too late. -/
theorem challenges_safe_retried :
    ∃ s, Runs.run (step standard) (boot 5)
        [.generates .authentication none, .answers 0 challengeSet "c1", .executes 0, .replies 0,
          .passes 1000, .verifies .authentication (.text "c1"), .executes 1, .replies 1,
          .answers 1 ⟨401, [], .empty⟩ "", .verifies .authentication (.text "c1"), .executes 2,
          .replies 2, .answers 2 ⟨200, [], .empty⟩ "", .executes 2, .replies 2,
          .verifies .authentication (.text "c1"), .executes 3, .replies 3] = some s ∧
      s.exchanges.map Exchange.injected
        = [none, some ("c1", "tok".toList), some ("c1", "tok".toList), none] ∧
      Safe standard s := by
  have hrun := run_offered
    [.executes 0, .replies 0, .passes 1000, .verifies .authentication (.text "c1"), .executes 1,
      .replies 1, .answers 1 ⟨401, [], .empty⟩ "", .verifies .authentication (.text "c1"),
      .executes 2, .replies 2, .answers 2 ⟨200, [], .empty⟩ "", .executes 2, .replies 2,
      .verifies .authentication (.text "c1"), .executes 3, .replies 3]
  exact ⟨_, hrun.trans rfl, by decide, challenges_safe standard 5 _ _ (hrun.trans rfl)⟩

/-- Verifications of two clients that overlap are both given the token. -/
example : (Runs.run (step standard) offered
    [.executes 0, .replies 0, .verifies .authentication (.text "c1"),
      .verifies .registration (.text "c1"), .executes 1, .executes 2, .replies 1,
      .answers 1 ⟨200, [], .empty⟩ "", .executes 1, .replies 2]).map
        (fun s => s.exchanges.map Exchange.injected)
      = some [none, some ("c1", "tok".toList), some ("c1", "tok".toList)] := by decide

end PasskeyChallenges
