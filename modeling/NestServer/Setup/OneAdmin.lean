import NestServer.Setup.InitialAdmin

/-! # One initial admin

    The marker keeps two calls apart: who has claimed it holds it for as long as a call
    takes, and nobody takes it over in that time.  That no users are there has been found out
    before the claim, so a call that claims late counts on what is not true any more. -/

namespace SystemSetup

open Dialogue Interleaving

variable {crypto : Crypto} {service : BetterAuthService}

/-! ## What is promised -/

def succeeds (s : State) (i : Nat) : Prop :=
  ∃ τ, s.threads[i]? = some τ ∧ ∃ result, τ.program = .returned result

/-- **The promise**: one user is made an admin, and one call succeeds. -/
structure AtMostOneAdmin (s : State) : Prop where
  users : ∀ id ∈ s.store.appointed, ∀ id' ∈ s.store.appointed, id = id'
  calls : ∀ i j, succeeds s i → succeeds s j → i = j

/-- No call takes as long as a claim stands. -/
def Prompt (s : State) : Event → Prop
  | .call r     => r.startedAt = s.store.now
  | .resume i _ => (s.threads[i]?).all (fun τ => s.store.now - τ.request.startedAt < staleAfterMs) =
      true
  | .outside _  => True

/-- The thread is about to claim. -/
def claims (τ : Thread) : Bool :=
  match τ.program with
  | .ask (.upsertClaim _) _ => true
  | _                       => false

/-- **When the promise is kept**: no call finds the marker free when an admin has been made. -/
def Timely (s : State) : Event → Prop
  | .resume i _ => s.threads[i]?.any claims = true → s.store.claimedAt = none →
      s.store.appointed = []
  | _           => True

/-! ## What a call does -/

abbrev Log := History Question Answer

def answered (q : Question) (a : Answer q) : Exchange Question Answer := ⟨q, a⟩

def Won (h : Log) : Prop := ∃ claimedAt, answered (.upsertClaim claimedAt) (.ok none) ∈ h

def Released (h : Log) : Prop := ∃ a, answered .deleteClaim a ∈ h

/-- The marker is there for this call. -/
def Holds (h : Log) : Prop := Won h ∧ ¬ Released h

def HasTried (h : Log) : Prop := ∃ id a, answered (.appoint id) a ∈ h

def HasAppointed (h : Log) : Prop := ∃ id, answered (.appoint id) (.ok ()) ∈ h

/-- It neither gives the marker back nor makes an admin. -/
def Calm : Question → Prop
  | .deleteClaim => False
  | .appoint _   => False
  | _            => True

/-- It has to do with neither. -/
def Plain : Question → Prop
  | .deleteStaleClaim _ => False
  | .upsertClaim _      => False
  | q                   => Calm q

/-- What a call keeps to. -/
def law : Law Request Question Answer SystemSetupInitResult where
  asks _ h
    | .deleteStaleClaim staleBefore => ∃ now : Int, answered .now (.ok now) ∈ h ∧
        staleBefore = now - staleAfterMs
    | .upsertClaim claimedAt        => answered .now (.ok claimedAt) ∈ h
    | .deleteClaim                  => Holds h
    | .appoint _                    => Holds h ∧ ¬ HasTried h
    | _                             => True
  result _ _ h := HasAppointed h

variable {h h' : Log} {r : Request} {G : Log → Question → Prop} {F : Log → Prop}

theorem Plain.calm {q : Question} (hq : Plain q) : Calm q := by cases q <;> trivial

theorem law_of_plain {q : Question} (hq : Plain q) : law.asks r h q := by cases q <;> trivial

/-! ## The law is kept -/

theorem wp_await {P : Question → Prop} {q : Question} (hG : G h q) (hq : P q)
    (hF : ∀ h', Adds P h h' → F h') :
    wp G F (await q) (fun v h' => Adds P h h' ∧ answered q (.ok v) ∈ h') h := by
  refine wp_bind (wp_query hG (R := fun a h' => h' = h ++ [answered q a]) fun a => rfl) ?_
  rintro a h' rfl
  refine wp_orThrow ?_ fun _ _ => hF _ (adds_one h hq)
  rintro v rfl
  exact ⟨adds_one h hq, List.mem_append_right _ (List.mem_singleton.mpr rfl)⟩

theorem asks_await {P : Question → Prop} {q : Question} (hq : P q) : (await q).Asks P True :=
  asks_bind (asks_query hq) fun a => asks_orThrow a

/-- A part of a call that has to do with neither. -/
theorem wp_of_plain {α : Type} {p : Setup α} (hp : p.Asks Plain True)
    (hF : ∀ h', Adds Calm h h' → F h') :
    wp (law.asks r) F p (fun _ h' => Adds Calm h h') h :=
  wp_mono (fun _ _ hadds => hadds.mono fun _ => Plain.calm)
    (wp_of_asks (P := Plain) (fun _ _ hq => law_of_plain hq) (fun _ h' hadds =>
      hF h' (hadds.mono fun _ => Plain.calm)) hp)

theorem mem_of_adds (hadds : Adds Calm h h') {x : Exchange Question Answer} (hx : ¬ Calm x.1)
    (hmem : x ∈ h') :
    x ∈ h := (hadds.mem_or hmem).resolve_right hx

theorem not_released_adds (hh : ¬ Released h) (hadds : Adds Calm h h') : ¬ Released h' := by
  rintro ⟨a, ha⟩
  exact hh ⟨a, mem_of_adds hadds (by rintro ⟨⟩) ha⟩

theorem not_hasTried_adds (hh : ¬ HasTried h) (hadds : Adds Calm h h') : ¬ HasTried h' := by
  rintro ⟨id, a, ha⟩
  exact hh ⟨id, a, mem_of_adds hadds (by rintro ⟨⟩) ha⟩

theorem Holds.adds (hh : Holds h) (hadds : Adds Calm h h') : Holds h' :=
  ⟨hh.1.imp fun _ hwon => hadds.mem hwon, not_released_adds hh.2 hadds⟩

theorem asks_createIamUser (input : SystemSetupInitInput) :
    (createIamUser crypto input).Asks Plain True := by
  refine asks_bind (asks_await trivial) fun _ => asks_bind (asks_await trivial) fun user => ?_
  cases user with
  | none => trivial
  | some user => exact asks_bind (asks_await trivial) fun _ => asks_bind (asks_await trivial) fun _ => trivial

theorem asks_linkOrCreateUser (sessionUser : SessionUser) : (linkOrCreateUser sessionUser).Asks Plain True := by
  rw [linkOrCreateUser]
  split
  · trivial
  · exact asks_rescue (asks_bind (asks_await trivial) fun _ => asks_await trivial) fun _ => trivial

variable (crypto) in
theorem asks_syncPasswordToLegacy (id : Nat) (email password : String) :
    (syncPasswordToLegacy crypto id email password).Asks Plain False := by
  rw [syncPasswordToLegacy]
  split
  · trivial
  · exact asks_rescue (asks_bind (asks_await trivial) fun _ => asks_await trivial) fun _ => trivial

theorem wp_claimInitialAdminSetup :
    wp (law.asks r) (fun _ => True) claimInitialAdminSetup
      (fun won h' => Adds Calm h h' ∧ (won = true → Won h')) h := by
  rw [claimInitialAdminSetup]
  refine wp_rescue (E := fun h' => Adds Calm h h') ?_ ?_
  · refine wp_bind (wp_await (P := Calm) trivial trivial fun _ hadds => hadds) fun now h₁ hnow => ?_
    refine wp_bind (wp_await (P := Calm) ⟨now, hnow.2, rfl⟩ trivial fun _ hadds =>
      hnow.1.trans hadds)
      fun _ h₂ hstale => ?_
    have h₂adds : Adds Calm h h₂ := hnow.1.trans hstale.1
    refine wp_bind (wp_await (P := Calm) trivial trivial fun _ hadds => h₂adds.trans hadds)
      fun claimedAt h₃ hclaimedAt => ?_
    have h₃adds : Adds Calm h h₃ := h₂adds.trans hclaimedAt.1
    refine wp_bind (wp_await (P := Calm) hclaimedAt.2 trivial fun _ hadds => h₃adds.trans hadds)
      fun previous h₄ hprevious => ?_
    refine wp_pure ⟨h₃adds.trans hprevious.1, fun hwon => ⟨claimedAt, ?_⟩⟩
    rw [Option.isNone_iff_eq_none.mp hwon] at hprevious
    exact hprevious.2
  · intro e h' hadds
    split
    · exact wp_pure ⟨hadds, by rintro ⟨⟩⟩
    · exact wp_failed_iff.mpr trivial

/-- Who holds the marker may give it back. -/
theorem wp_releaseInitialAdminSetupClaim (hh : Holds h) :
    wp (law.asks r) (fun _ => True) releaseInitialAdminSetupClaim (fun _ _ => True) h := by
  rw [releaseInitialAdminSetupClaim]
  refine wp_rescue (E := fun _ => True) ?_ fun _ _ _ => wp_pure trivial
  exact wp_mono (fun _ _ _ => trivial) (wp_await (P := fun _ => True) hh trivial fun _ _ => trivial)

theorem wp_appointAdmin (input : SystemSetupInitInput) (iamUser : User) (hh : Holds h)
    (hnew : ¬ HasTried h) :
    wp (law.asks r) Holds (appointAdmin crypto input iamUser) (fun _ h' => HasAppointed h') h := by
  rw [appointAdmin]
  refine wp_bind (wp_of_plain (asks_linkOrCreateUser _) fun _ hadds =>
    hh.adds hadds) fun user h' hadds => ?_
  have hh' : Holds h' := hh.adds hadds
  cases user with
  | none => exact wp_failed_iff.mpr hh'
  | some user =>
      refine wp_bind (R := fun _ h'' => answered (.appoint user.id) (.ok ()) ∈ h'') ?_ fun _ h''
        happointed => ?_
      · refine wp_mono (fun _ _ h =>
          h.2) (wp_await (P := (· = .appoint user.id)) ⟨hh', not_hasTried_adds hnew hadds⟩
          rfl fun h'' hone => ?_)
        -- an attempt to appoint leaves the marker where it was
        refine ⟨hh'.1.imp fun _ hwon => hone.mem hwon, ?_⟩
        rintro ⟨a, ha⟩
        rcases hone.mem_or ha with hold | hnow
        · exact hh'.2 ⟨a, hold⟩
        · cases hnow
      · refine wp_bind (wp_of_asks (P := Plain) (fun _ _ hq =>
          law_of_plain hq) (fun hfalse : False => hfalse.elim)
          (asks_syncPasswordToLegacy crypto iamUser.id input.email input.password)) fun _ h₃
            hsync => ?_
        exact wp_pure ⟨user.id, hsync.mem happointed⟩

/-- **Every call keeps to the law.** -/
theorem wp_createInitialAdmin (input : SystemSetupInitInput) :
    wp (law.asks r) (fun _ => True) (createInitialAdmin crypto service input) (law.result r)
      [] := by
  rw [createInitialAdmin]
  refine wp_bind (wp_await (P := Calm) trivial trivial fun _ _ =>
    trivial) fun userCount h₁ hcount => ?_
  split
  · exact wp_failed_iff.mpr trivial
  split
  · exact wp_failed_iff.mpr trivial
  split
  · exact wp_failed_iff.mpr trivial
  refine wp_bind wp_claimInitialAdminSetup fun won h₂ hclaim => ?_
  have hadds : Adds Calm [] h₂ := hcount.1.trans hclaim.1
  have hnew : ¬ HasTried h₂ := not_hasTried_adds (by rintro ⟨_, _, ⟨⟩⟩) hadds
  split
  · exact wp_failed_iff.mpr trivial
  · rename_i hwon
    have hh : Holds h₂ := ⟨hclaim.2 (by simpa using hwon),
        not_released_adds (by rintro ⟨_, ⟨⟩⟩) hadds⟩
    refine wp_rescue (E := Holds) ?_ ?_
    · rw [create]
      refine wp_bind (wp_of_plain (asks_createIamUser input) fun _ hmore =>
        hh.adds hmore) fun iamUser h₃ hmore => ?_
      exact wp_appointAdmin input iamUser (hh.adds hmore) (not_hasTried_adds hnew hmore)
    · intro e h₃ hheld
      rw [giveUp]
      refine wp_bind (wp_releaseInitialAdminSetupClaim hheld) fun _ h₄ _ => ?_
      split
      · exact wp_failed_iff.mpr trivial
      split
      · exact wp_failed_iff.mpr trivial
      · exact wp_failed_iff.mpr trivial

/-! ## What a question does to the stores -/

variable {s s' : Store} {choice : Choice} {q : Question} {a : Answer q}

/-- The parts of the stores that matter here. -/
structure Alike (s t : Store) : Prop where
  now       : t.now = s.now
  claimedAt : t.claimedAt = s.claimedAt
  appointed : t.appointed = s.appointed

theorem perform_plain (hq : Plain q) : Alike s (perform crypto s choice q).2 := by
  cases q with
  | createUser email emailVerified name =>
      show Alike s (if choice.created = true then _ else (none, s) : Option User × Store).2
      split
      · exact ⟨rfl, rfl, rfl⟩
      · exact ⟨rfl, rfl, rfl⟩
  | findOneAndUpdate email iamId update =>
      show Alike s (s.upsertUser email iamId update).2
      rw [Store.upsertUser]
      split
      · exact ⟨rfl, rfl, rfl⟩
      · exact ⟨rfl, rfl, rfl⟩
  | deleteStaleClaim _ => cases hq
  | upsertClaim _ => cases hq
  | deleteClaim => cases hq
  | appoint _ => cases hq
  | _ => exact ⟨rfl, rfl, rfl⟩

/-- What a question can do to the marker, and to the list of the admins. -/
inductive Moves (s : Store) : Question → Store → Prop where
  | kept {q : Question} {s' : Store} : Alike s s' → Moves s q s'
  | expired {s' : Store} {staleBefore claimedAt : Int} : s.claimedAt = some claimedAt →
      claimedAt < staleBefore →
      s' = { s with claimedAt := none } → Moves s (.deleteStaleClaim staleBefore) s'
  | claimed {s' : Store} {claimedAt : Int} : s.claimedAt = none →
      s' = { s with claimedAt := some claimedAt } →
      Moves s (.upsertClaim claimedAt) s'
  | released {s' : Store} : s' = { s with claimedAt := none } → Moves s .deleteClaim s'
  | appointed {s' : Store} {id : Nat} : s' = s.appoint id → Moves s (.appoint id) s'

theorem perform_moves : Moves s q (perform crypto s choice q).2 := by
  cases q with
  | deleteStaleClaim staleBefore =>
      show Moves s _ (if s.claimedAt.any (· < staleBefore) = true then { s with claimedAt := none }
          else s)
      split
      · rename_i hstale
        obtain ⟨claimedAt, hclaimedAt, hlt⟩ := (Option.any_eq_true _ _).mp hstale
        exact .expired hclaimedAt (of_decide_eq_true hlt) rfl
      · exact .kept ⟨rfl, rfl, rfl⟩
  | upsertClaim claimedAt =>
      show Moves s _ { s with claimedAt := some (s.claimedAt.getD claimedAt) }
      cases hc : s.claimedAt with
      | none => exact .claimed hc rfl
      | some c => exact .kept ⟨rfl, hc.symm, rfl⟩
  | deleteClaim => exact .released rfl
  | appoint id => exact .appointed rfl
  | _ => exact .kept (perform_plain trivial)

theorem exec_moves (h : exec crypto s choice q = some (a, s')) : Moves s q s' := by
  rcases exec_cases h with ⟨rfl, _⟩ | ⟨rfl, _⟩
  · exact .kept ⟨rfl, rfl, rfl⟩
  · exact perform_moves

/-- The clock stands still while a question is answered. -/
theorem Moves.now (h : Moves s q s') : s'.now = s.now := by
  cases h with
  | kept halike => exact halike.now
  | expired _ _ heq => rw [heq]
  | claimed _ heq => rw [heq]
  | released heq => rw [heq]
  | appointed heq => rw [heq, Store.appoint]

/-- Who has found no marker has put one. -/
theorem claimed_of_won {claimedAt : Int} {a : Answer (.upsertClaim claimedAt)}
    (h : exec crypto s choice (.upsertClaim claimedAt) = some (a, s')) (hwon : a = .ok none) :
    s.claimedAt = none ∧ s'.claimedAt = some claimedAt := by
  rcases exec_cases h with ⟨_, e, rfl⟩ | ⟨rfl, ⟨e, rfl⟩ | ha⟩
  · cases hwon
  · cases hwon
  · have hnone : s.claimedAt = none := (Except.ok.inj (ha.symm.trans hwon))
    refine ⟨hnone, ?_⟩
    show some (s.claimedAt.getD claimedAt) = some claimedAt
    rw [hnone]
    rfl

theorem appointed_of_ok {id : Nat} {a : Answer (.appoint id)}
    (h : exec crypto s choice (.appoint id) = some (a, s')) (hok : a = .ok ()) :
      s' = s.appoint id := by
  rcases exec_cases h with ⟨_, e, rfl⟩ | ⟨rfl, _⟩
  · cases hok
  · rfl

/-! ## The invariant -/

/-- The call holds the marker, and has time left. -/
def Live (now : Int) (τ : Thread) : Prop := Holds τ.said ∧ now - τ.request.startedAt < staleAfterMs

/-- The marker of a call that has time left is its own. -/
structure Marked (s : State) : Prop where
  times  : ∀ τ ∈ s.threads, τ.request.startedAt ≤ s.store.now
  told   : ∀ τ ∈ s.threads, ∀ now : Int, answered .now (.ok now) ∈ τ.said →
    τ.request.startedAt ≤ now ∧ now ≤ s.store.now
  marked : ∀ (i : Nat) (τ : Thread), s.threads[i]? = some τ → Live s.store.now τ →
    ∃ claimedAt, s.store.claimedAt = some claimedAt ∧ τ.request.startedAt ≤ claimedAt
  alone  : ∀ (i j : Nat) (τ τ' : Thread), s.threads[i]? = some τ → s.threads[j]? = some τ' →
    Live s.store.now τ → Live s.store.now τ' → i = j

/-- No admin has been made as long as one is going to be. -/
structure Counted (s : State) : Prop where
  before : ∀ (i : Nat) (τ : Thread), s.threads[i]? = some τ → Live s.store.now τ →
    ¬ HasTried τ.said → s.store.appointed = []
  few    : s.store.appointed.length ≤ 1
  noted  : ∀ (i : Nat) (τ : Thread), s.threads[i]? = some τ → HasAppointed τ.said →
    s.store.appointed ≠ []
  once   : ∀ (i j : Nat) (τ τ' : Thread), s.threads[i]? = some τ → s.threads[j]? = some τ' →
    HasAppointed τ.said → HasAppointed τ'.said → i = j

structure Invariant (s : State) : Prop where
  lawful  : AllLawful law s
  marked  : Marked s
  counted : Counted s

theorem holds_append {x : Exchange Question Answer} (hh : Holds (h ++ [x])) :
    Holds h ∨ ∃ claimedAt, x = answered (.upsertClaim claimedAt) (.ok none) := by
  obtain ⟨⟨claimedAt, hwon⟩, hreleased⟩ := hh
  rcases List.mem_append.mp hwon with hold | hnew
  · exact Or.inl ⟨⟨claimedAt, hold⟩, fun ⟨a, ha⟩ => hreleased ⟨a, List.mem_append_left _ ha⟩⟩
  · exact Or.inr ⟨claimedAt, (List.mem_singleton.mp hnew).symm⟩

section Resume

variable {t : State} {i : Nat} {τ : Thread} {q : Question} {a : Answer q}
  {next : Answer q → Setup SystemSetupInitResult}
  {store : Store}

/-- The state after a thread has heard an answer. -/
abbrev after (t : State) (i : Nat) (τ : Thread) (q : Question) (a : Answer q)
    (next : Setup SystemSetupInitResult)
    (store : Store) : State :=
  { store := store, threads := t.threads.set i (τ.heard q a next) }

/-- A thread goes over a question in time. -/
structure Resumes (crypto : Crypto) (t : State) (i : Nat) (τ : Thread) (q : Question)
    (next : Answer q → Setup SystemSetupInitResult) (choice : Choice) (a : Answer q)
      (store : Store) : Prop where
  thread  : t.threads[i]? = some τ
  program : τ.program = .ask q next
  exec    : SystemSetup.exec crypto t.store choice q = some (a, store)
  prompt  : t.store.now - τ.request.startedAt < staleAfterMs
  asks    : law.asks τ.request τ.said q

theorem Resumes.now (hr : Resumes crypto t i τ q next choice a store) : store.now = t.store.now :=
  (exec_moves hr.exec).now

/-- Who holds the marker has held it before, or has just claimed it. -/
theorem Resumes.live_back (hr : Resumes crypto t i τ q next choice a store) {j : Nat} {τ' : Thread}
    (hτ' : (after t i τ q a (next a) store).threads[j]? = some τ') (hlive : Live store.now τ') :
    (∃ τ₀, t.threads[j]? = some τ₀ ∧ Live t.store.now τ₀ ∧ τ₀.request = τ'.request ∧
      τ₀.said ⊆ τ'.said) ∨
      (j = i ∧ ∃ claimedAt, (⟨q, a⟩ : Exchange Question Answer) =
        answered (.upsertClaim claimedAt) (.ok none)) := by
  rw [hr.now] at hlive
  rcases Runs.getElem?_set_cases hτ' with ⟨rfl, rfl⟩ | ⟨_, hold⟩
  · obtain ⟨hh, htime⟩ := hlive
    rcases holds_append hh with hh | hwon
    · exact Or.inl ⟨τ, hr.thread, ⟨hh, htime⟩, rfl, List.subset_append_left _ _⟩
    · exact Or.inr ⟨rfl, hwon⟩
  · exact Or.inl ⟨τ', hold, hlive, rfl, fun _ hx => hx⟩

/-- A claim is won where no call holds the marker. -/
theorem Resumes.won (hr : Resumes crypto t i τ q next choice a store)
    (hwon : ∃ claimedAt, (⟨q, a⟩ : Exchange Question Answer) =
      answered (.upsertClaim claimedAt) (.ok none)) :
    ∃ claimedAt, answered .now (.ok claimedAt) ∈ τ.said ∧ t.store.claimedAt = none ∧
      store = { t.store with claimedAt := some claimedAt } ∧ claims τ = true := by
  obtain ⟨claimedAt, heq⟩ := hwon
  obtain ⟨rfl, ha⟩ := Sigma.mk.inj heq
  obtain rfl := eq_of_heq ha
  obtain ⟨hnone, hsome⟩ := claimed_of_won hr.exec rfl
  refine ⟨claimedAt, hr.asks, hnone, ?_, by rw [claims, hr.program]⟩
  cases exec_moves hr.exec with
  | kept halike => rw [halike.claimedAt, hnone] at hsome; cases hsome
  | claimed _ heq => exact heq

theorem Marked.free (hm : Marked t) (hnone : t.store.claimedAt = none) {j : Nat} {τ' : Thread}
    (hτ' : t.threads[j]? = some τ') : ¬ Live t.store.now τ' := by
  intro hlive
  obtain ⟨claimedAt, hclaimedAt, _⟩ := hm.marked j τ' hτ' hlive
  rw [hnone] at hclaimedAt
  cases hclaimedAt

/-- Nobody takes over the marker of a call that has time left. -/
theorem Marked.not_expired (hm : Marked t) {staleBefore claimedAt : Int} (hτ : τ ∈ t.threads)
    (hasks : law.asks τ.request τ.said (.deleteStaleClaim staleBefore))
      (hclaimedAt : t.store.claimedAt = some claimedAt)
    (hstale : claimedAt < staleBefore) {j : Nat} {τ' : Thread} (hτ' : t.threads[j]? = some τ') :
    ¬ Live t.store.now τ' := by
  intro hlive
  obtain ⟨now, hnow, rfl⟩ := hasks
  obtain ⟨own, hown, hstart⟩ := hm.marked j τ' hτ' hlive
  obtain rfl := Option.some.inj (hown.symm.trans hclaimedAt)
  have hpast : now ≤ t.store.now := (hm.told τ hτ now hnow).2
  have htime : t.store.now - τ'.request.startedAt < staleAfterMs := hlive.2
  omega

theorem marked_resume (hm : Marked t) (hr : Resumes crypto t i τ q next choice a store) :
    Marked (after t i τ q a (next a) store) := by
  have hmem : τ ∈ t.threads := List.mem_of_getElem? hr.thread
  refine ⟨?_, ?_, ?_, ?_⟩
  · intro τ' hτ'
    rw [show (after t i τ q a (next a) store).store.now = t.store.now from hr.now]
    rcases List.mem_or_eq_of_mem_set hτ' with hold | rfl
    · exact hm.times τ' hold
    · exact hm.times τ hmem
  · intro τ' hτ' now hnow
    rw [show (after t i τ q a (next a) store).store.now = t.store.now from hr.now]
    rcases List.mem_or_eq_of_mem_set hτ' with hold | rfl
    · exact hm.told τ' hold now hnow
    · rcases List.mem_append.mp hnow with hold | hnew
      · exact hm.told τ hmem now hold
      · obtain ⟨rfl, ha⟩ := Sigma.mk.inj (List.mem_singleton.mp hnew)
        obtain rfl := eq_of_heq ha
        obtain ⟨hnow, _⟩ := Prod.mk.inj (Option.some.inj hr.exec)
        obtain rfl := Except.ok.inj hnow
        exact ⟨hm.times τ hmem, le_rfl⟩
  · intro j τ' hτ' hlive
    rcases hr.live_back hτ' hlive with ⟨τ₀, hτ₀, hlive₀, hrequest, _⟩ | ⟨rfl, hwon⟩
    · obtain ⟨claimedAt, hclaimedAt, hstart⟩ := hm.marked j τ₀ hτ₀ hlive₀
      rw [← hrequest]
      refine ⟨claimedAt, ?_, hstart⟩
      show store.claimedAt = some claimedAt
      cases exec_moves hr.exec with
      | kept halike => rw [halike.claimedAt, hclaimedAt]
      | expired hold hstale _ => exact absurd hlive₀ (hm.not_expired hmem hr.asks hold hstale hτ₀)
      | claimed hnone _ => exact absurd hlive₀ (hm.free hnone hτ₀)
      | released _ =>
          -- the one that gives the marker back is the only one that holds it
          obtain rfl := hm.alone j i τ₀ τ hτ₀ hr.thread hlive₀ ⟨hr.asks, hr.prompt⟩
          rcases Runs.getElem?_set_cases hτ' with ⟨_, rfl⟩ | ⟨hne, _⟩
          · exact absurd ⟨a, List.mem_append_right _ (List.mem_singleton.mpr rfl)⟩ hlive.1.2
          · exact absurd rfl hne
      | appointed heq => rw [heq, Store.appoint, hclaimedAt]
    · obtain ⟨claimedAt, htold, _, rfl, _⟩ := hr.won hwon
      rcases Runs.getElem?_set_cases hτ' with ⟨_, rfl⟩ | ⟨hne, _⟩
      · exact ⟨claimedAt, rfl, (hm.told τ hmem claimedAt htold).1⟩
      · exact absurd rfl hne
  · intro j k τ' τ'' hτ' hτ'' hlive hlive'
    rcases hr.live_back hτ' hlive with ⟨τ₀, hτ₀, hlive₀, _⟩ | ⟨rfl, hwon⟩
    · rcases hr.live_back hτ'' hlive' with ⟨τ₁, hτ₁, hlive₁, _⟩ | ⟨rfl, hwon⟩
      · exact hm.alone j k τ₀ τ₁ hτ₀ hτ₁ hlive₀ hlive₁
      · obtain ⟨_, _, hnone, _⟩ := hr.won hwon
        exact absurd hlive₀ (hm.free hnone hτ₀)
    · rcases hr.live_back hτ'' hlive' with ⟨τ₁, hτ₁, hlive₁, _⟩ | ⟨rfl, _⟩
      · obtain ⟨_, _, hnone, _⟩ := hr.won hwon
        exact absurd hlive₁ (hm.free hnone hτ₁)
      · rfl

/-- Whoever makes an admin is the first one. -/
theorem Resumes.first (hm : Marked t) (hc : Counted t) {id : Nat} {a : Answer (.appoint id)}
    {next : Answer (.appoint id) → Setup SystemSetupInitResult}
    (hr : Resumes crypto t i τ (.appoint id) next choice a store) :
    t.store.appointed = [] ∧ ∀ j τ', t.threads[j]? = some τ' → Live t.store.now τ' → j = i :=
  have hlive : Live t.store.now τ := ⟨hr.asks.1, hr.prompt⟩
  ⟨hc.before i τ hr.thread hlive hr.asks.2,
    fun j τ' hτ' hlive' => hm.alone j i τ' τ hτ' hr.thread hlive' hlive⟩

/-- What has been noted is not lost. -/
theorem Resumes.appointed_ne_nil (hr : Resumes crypto t i τ q next choice a store)
    (hsome : t.store.appointed ≠ []) :
    store.appointed ≠ [] := by
  cases exec_moves hr.exec with
  | kept halike => rw [halike.appointed]; exact hsome
  | expired _ _ heq => rw [heq]; exact hsome
  | claimed _ heq => rw [heq]; exact hsome
  | released heq => rw [heq]; exact hsome
  | appointed heq =>
      rw [heq]
      exact List.append_ne_nil_of_right_ne_nil _ (List.cons_ne_nil _ _)

/-- Who has made an admin has done so before, or is the first one. -/
theorem Resumes.appointed_back (hm : Marked t) (hc : Counted t)
    (hr : Resumes crypto t i τ q next choice a store)
    {j : Nat} {τ' : Thread} (hτ' : (after t i τ q a (next a) store).threads[j]? = some τ')
    (happointed : HasAppointed τ'.said) :
    (∃ τ₀, t.threads[j]? = some τ₀ ∧ HasAppointed τ₀.said) ∨
      (j = i ∧ t.store.appointed = [] ∧ store.appointed ≠ []) := by
  rcases Runs.getElem?_set_cases hτ' with ⟨rfl, rfl⟩ | ⟨_, hold⟩
  · obtain ⟨id, hid⟩ := happointed
    rcases List.mem_append.mp hid with hold | hnew
    · exact Or.inl ⟨τ, hr.thread, id, hold⟩
    · obtain ⟨rfl, ha⟩ := Sigma.mk.inj (List.mem_singleton.mp hnew)
      obtain rfl := eq_of_heq ha
      refine Or.inr ⟨rfl, (hr.first hm hc).1, ?_⟩
      rw [appointed_of_ok hr.exec rfl]
      exact List.append_ne_nil_of_right_ne_nil _ (List.cons_ne_nil _ _)
  · exact Or.inl ⟨τ', hold, happointed⟩

theorem counted_resume (hm : Marked t) (hc : Counted t)
    (hr : Resumes crypto t i τ q next choice a store)
    (htimely : claims τ = true → t.store.claimedAt = none → t.store.appointed = []) :
    Counted (after t i τ q a (next a) store) := by
  refine ⟨?_, ?_, ?_, ?_⟩
  · intro j τ' hτ' hlive hnew
    show store.appointed = []
    rcases hr.live_back hτ' hlive with ⟨τ₀, hτ₀, hlive₀, _, hsub⟩ | ⟨rfl, hwon⟩
    · have hnone : t.store.appointed = [] :=
        hc.before j τ₀ hτ₀ hlive₀ fun ⟨id, b, hb⟩ => hnew ⟨id, b, hsub hb⟩
      cases exec_moves hr.exec with
      | kept halike => rw [halike.appointed, hnone]
      | expired _ _ heq => rw [heq, hnone]
      | claimed _ heq => rw [heq, hnone]
      | released heq => rw [heq, hnone]
      | appointed heq =>
          -- the one that makes an admin has tried to
          obtain rfl := (hr.first hm hc).2 j τ₀ hτ₀ hlive₀
          rcases Runs.getElem?_set_cases hτ' with ⟨_, rfl⟩ | ⟨hne, _⟩
          · exact absurd ⟨_, a, List.mem_append_right _ (List.mem_singleton.mpr rfl)⟩ hnew
          · exact absurd rfl hne
    · obtain ⟨_, _, hnone, rfl, hclaims⟩ := hr.won hwon
      exact htimely hclaims hnone
  · show store.appointed.length ≤ 1
    cases exec_moves hr.exec with
    | kept halike => rw [halike.appointed]; exact hc.few
    | expired _ _ heq => rw [heq]; exact hc.few
    | claimed _ heq => rw [heq]; exact hc.few
    | released heq => rw [heq]; exact hc.few
    | appointed heq =>
        rw [heq, Store.appoint, (hr.first hm hc).1]
        exact le_rfl
  · intro j τ' hτ' happointed
    rcases hr.appointed_back hm hc hτ' happointed with ⟨τ₀, hτ₀, hold⟩ | ⟨_, _, hnew⟩
    · exact hr.appointed_ne_nil (hc.noted j τ₀ hτ₀ hold)
    · exact hnew
  · intro j k τ' τ'' hτ' hτ'' happointed happointed'
    rcases hr.appointed_back hm hc hτ' happointed with ⟨τ₀, hτ₀, hold⟩ | ⟨rfl, hnone, _⟩
    · rcases hr.appointed_back hm hc hτ'' happointed' with ⟨τ₁, hτ₁, hold'⟩ | ⟨rfl, hnone, _⟩
      · exact hc.once j k τ₀ τ₁ hτ₀ hτ₁ hold hold'
      · exact absurd hnone (hc.noted j τ₀ hτ₀ hold)
    · rcases hr.appointed_back hm hc hτ'' happointed' with ⟨τ₁, hτ₁, hold'⟩ | ⟨rfl, _, _⟩
      · exact absurd hnone (hc.noted k τ₁ hτ₁ hold')
      · rfl

end Resume

/-! ## Runs -/

section Steps

variable {t : State}

/-- A call that has just come has been told nothing. -/
theorem said_of_call {r : Request} {p : Setup SystemSetupInitResult} {j : Nat} {τ : Thread}
    (hsaid : τ.said ≠ [])
    (hτ : (t.threads ++ [{ request := r, program := p }])[j]? = some τ) :
      t.threads[j]? = some τ := by
  rcases Runs.getElem?_append_cases hτ with hold | ⟨_, rfl⟩
  · exact hold
  · exact absurd rfl hsaid

theorem Live.said {now : Int} {τ : Thread} (hlive : Live now τ) : τ.said ≠ [] := by
  intro hnil
  obtain ⟨⟨⟨_, hwon⟩, _⟩, _⟩ := hlive
  rw [hnil] at hwon
  cases hwon

theorem HasAppointed.said {τ : Thread} (happointed : HasAppointed τ.said) : τ.said ≠ [] := by
  intro hnil
  obtain ⟨_, hid⟩ := happointed
  rw [hnil] at hid
  cases hid

theorem marked_call {r : Request} {p : Setup SystemSetupInitResult} (hm : Marked t)
    (hprompt : r.startedAt = t.store.now) :
    Marked { t with threads := t.threads ++ [{ request := r, program := p }] } where
  times τ hτ := by
    rcases List.mem_append.mp hτ with hold | hnew
    · exact hm.times τ hold
    · rw [List.mem_singleton.mp hnew]
      exact hprompt.le
  told τ hτ now hnow := by
    rcases List.mem_append.mp hτ with hold | hnew
    · exact hm.told τ hold now hnow
    · rw [List.mem_singleton.mp hnew] at hnow
      cases hnow
  marked i τ hτ hlive := hm.marked i τ (said_of_call hlive.said hτ) hlive
  alone i j τ τ' hτ hτ' hlive hlive' :=
    hm.alone i j τ τ' (said_of_call hlive.said hτ) (said_of_call hlive'.said hτ') hlive hlive'

theorem counted_call {r : Request} {p : Setup SystemSetupInitResult} (hc : Counted t) :
    Counted { t with threads := t.threads ++ [{ request := r, program := p }] } where
  before i τ hτ hlive := hc.before i τ (said_of_call hlive.said hτ) hlive
  few := hc.few
  noted i τ hτ happointed := hc.noted i τ (said_of_call happointed.said hτ) happointed
  once i j τ τ' hτ hτ' happointed happointed' :=
    hc.once i j τ τ' (said_of_call happointed.said hτ) (said_of_call happointed'.said hτ')
      happointed happointed'

/-- Who has time left later has time left now. -/
theorem Live.earlier {now : Int} {d : Nat} {τ : Thread} (hlive : Live (now + d) τ) :
    Live now τ := by
  obtain ⟨hh, htime⟩ := hlive
  exact ⟨hh, by omega⟩

theorem marked_later (hm : Marked t) (d : Nat) :
    Marked { t with store := { t.store with now := t.store.now + d } } where
  times τ hτ := by
    have hstart := hm.times τ hτ
    show τ.request.startedAt ≤ t.store.now + d
    omega
  told τ hτ now hnow := by
    obtain ⟨hstart, hpast⟩ := hm.told τ hτ now hnow
    refine ⟨hstart, ?_⟩
    show now ≤ t.store.now + d
    omega
  marked i τ hτ hlive := hm.marked i τ hτ hlive.earlier
  alone i j τ τ' hτ hτ' hlive hlive' := hm.alone i j τ τ' hτ hτ' hlive.earlier hlive'.earlier

theorem counted_later (hc : Counted t) (d : Nat) :
    Counted { t with store := { t.store with now := t.store.now + d } } where
  before i τ hτ hlive := hc.before i τ hτ hlive.earlier
  few   := hc.few
  noted := hc.noted
  once  := hc.once

/-- **One step.** -/
theorem invariant_step {t' : State} {e : Event} (hs : Invariant t) (he : Prompt t e ∧ Timely t e)
    (h : Interleaving.step (system crypto service) t e = some t') : Invariant t' := by
  have hlawful := allLawful_step (fun r => wp_createInitialAdmin (r := r) r.input) hs.lawful h
  obtain ⟨hprompt, htimely⟩ := he
  rcases step_cases h with ⟨r, rfl, rfl⟩ | ⟨i, choice, τ, q, next, a, store, rfl, hτ, hprogram,
    hexec, rfl⟩ |
    ⟨d, store, rfl, hstore, rfl⟩
  · exact ⟨hlawful, marked_call hs.marked hprompt, counted_call hs.counted⟩
  · have hr : Resumes crypto t i τ q next choice a store :=
      { thread  := hτ
        program := hprogram
        exec    := hexec
        prompt  := by rw [Prompt, hτ] at hprompt; exact of_decide_eq_true hprompt
        asks    := (hs.lawful τ (List.mem_of_getElem? hτ)).asks hprogram }
    refine ⟨hlawful, marked_resume hs.marked hr,
      counted_resume hs.marked hs.counted hr fun hclaims => htimely ?_⟩
    rw [hτ]
    exact hclaims
  · obtain rfl := Option.some.inj hstore
    exact ⟨hlawful, marked_later hs.marked d, counted_later hs.counted d⟩

theorem invariant_nil {store : Store} (hnone : store.appointed = []) :
    Invariant { store := store } where
  lawful  := allLawful_nil store
  marked  := ⟨nofun, nofun, nofun, nofun⟩
  counted := ⟨nofun, by rw [hnone]; exact Nat.zero_le 1, nofun, nofun⟩

theorem atMostOneAdmin_of_invariant (hs : Invariant t) : AtMostOneAdmin t where
  users id hid id' hid' := by
    obtain ⟨i, hi, rfl⟩ := List.mem_iff_getElem.mp hid
    obtain ⟨j, hj, rfl⟩ := List.mem_iff_getElem.mp hid'
    have hfew := hs.counted.few
    have hij : i = j := by omega
    simp only [hij]
  calls := by
    rintro i j ⟨τ, hτ, result, hresult⟩ ⟨τ', hτ', result', hresult'⟩
    have happointed := (hs.lawful τ (List.mem_of_getElem? hτ)).result hresult
    have happointed' := (hs.lawful τ' (List.mem_of_getElem? hτ')).result hresult'
    exact hs.counted.once i j τ τ' hτ hτ' happointed happointed'

end Steps

/-- **One admin**, in every run in which no call claims after an admin has been made. -/
theorem at_most_one_admin (crypto : Crypto) (service : BetterAuthService) (store : Store)
    (hnone : store.appointed = [])
    (events : List Event) (t : State)
    (hprompt : Runs.Meets (Interleaving.step (system crypto service)) Prompt { store := store }
      events)
    (htimely : Runs.Meets (Interleaving.step (system crypto service)) Timely { store := store }
      events)
    (hrun : Runs.run (Interleaving.step (system crypto service)) { store := store } events =
      some t) :
    AtMostOneAdmin t :=
  atMostOneAdmin_of_invariant
    (Runs.run_invariant _ (fun _ _ _ hs he h => invariant_step hs he h) events _ t
    (invariant_nil hnone) (hprompt.and _ htimely) hrun)

/-! ## A claim that comes late -/

instance (s : State) : (e : Event) → Decidable (Prompt s e)
  | .call r     => inferInstanceAs (Decidable (r.startedAt = s.store.now))
  | .resume _ _ => inferInstanceAs (Decidable (_ = true))
  | .outside _  => isTrue trivial

instance (s : State) : (e : Event) → Decidable (Timely s e)
  | .call _     => isTrue trivial
  | .resume i _ => inferInstanceAs (Decidable (s.threads[i]?.any claims = true →
      s.store.claimedAt = none →
      s.store.appointed = []))
  | .outside _  => isTrue trivial

def caller (name : String) (startedAt : Int) : Request where
  startedAt := startedAt
  input     := { email := name ++ "@example.org", name := some name, password := "a long password" }

/-- A thread goes over some questions, and all is well. -/
def goesOn (i n : Nat) : List Event := List.replicate n (.resume i {})

/-- The first call counts and claims; a second one counts. -/
def beginning : List Event :=
  .call (caller "alice" 0) :: goesOn 0 5 ++ [.outside 2, .call (caller "bob" 2)] ++ goesOn 1 1

/-- A call that claims while the first one is under way fails, and the first one succeeds. -/
theorem at_most_one_admin_alice :
    ∃ t, Runs.run (Interleaving.step (system plainCrypto running)) { store := { now := 0 } }
        (beginning ++ goesOn 1 4 ++ goesOn 0 9) = some t ∧ t.store.appointed = [0] ∧
          AtMostOneAdmin t := by
  have hrun : Runs.run (Interleaving.step (system plainCrypto running)) { store := { now := 0 } }
      (beginning ++ goesOn 1 4 ++ goesOn 0 9) = some _ := rfl
  exact ⟨_, hrun, rfl, at_most_one_admin plainCrypto running _ rfl _ _ (by decide) (by decide) hrun⟩

/-- The second call waits with its claim until the one of the first is stale. -/
theorem two_admins :
    ∃ t, Runs.Meets (Interleaving.step (system plainCrypto running)) Prompt
      { store := { now := 0 } }
        (beginning ++ goesOn 0 9 ++ [.outside 299999] ++ goesOn 1 13) ∧
      Runs.run (Interleaving.step (system plainCrypto running)) { store := { now := 0 } }
        (beginning ++ goesOn 0 9 ++ [.outside 299999] ++ goesOn 1 13) = some t ∧
          ¬ AtMostOneAdmin t := by
  refine ⟨_, by decide, rfl, fun h => ?_⟩
  have hsame : (0 : Nat) = 1 :=
    h.users 0 (List.mem_cons_self ..) 1 (List.mem_cons_of_mem _ (List.mem_cons_self ..))
  cases hsame

end SystemSetup
