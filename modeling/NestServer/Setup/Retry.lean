import NestServer.Setup.InitialAdmin

/-! # A setup that has failed

    The marker is given back when a call fails, but not the user that it has created: from
    then on there are users, and no call is let in any more. -/

namespace SystemSetup

open Dialogue Interleaving

/-! ## One failure -/

/-- The steps of a call that has claimed. -/
inductive Point where
  | context | createUser | hash | linkAccount | findOne | findOneAndUpdate | appoint | bcrypt | updatePassword
deriving DecidableEq

def Question.point : Question → Option Point
  | .context             => some .context
  | .createUser ..       => some .createUser
  | .hash _              => some .hash
  | .linkAccount _       => some .linkAccount
  | .findOne ..          => some .findOne
  | .findOneAndUpdate .. => some .findOneAndUpdate
  | .appoint _           => some .appoint
  | .bcrypt _            => some .bcrypt
  | .updatePassword ..   => some .updatePassword
  | _                    => none

/-- What goes wrong: a step fails before or after its effect, or no user is created. -/
inductive Fault where
  | fails (point : Point) (error : String)
  | lost (point : Point) (error : String)
  | notCreated

def Fault.point : Fault → Point
  | .fails point _ => point
  | .lost point _  => point
  | .notCreated    => .createUser

/-- What becomes of a question, when something may go wrong. -/
def outcomeOf (fault : Option Fault) (q : Question) : Injection.Outcome :=
  match fault with
  | some (.fails point error) => if q.point = some point then .fails error else .done
  | some (.lost point error)  => if q.point = some point then .lost error else .done
  | _                         => .done

/-- The answers, with any salts. -/
def choose (salt : Question → String) (fault : Option Fault) (q : Question) : Choice where
  outcome := outcomeOf fault q
  created := match fault with
    | some .notCreated => false
    | _                => true
  salt    := salt q

/-- `@IsNotEmpty()` on the e-mail. -/
def SystemSetupInitInput.Valid (input : SystemSetupInitInput) : Prop :=
  JsText.truthy input.email = true

variable (crypto : Crypto) (service : BetterAuthService) (salt : Question → String)

/-- A call that nobody interrupts. -/
def call (fault : Option Fault) (input : SystemSetupInitInput) (s : Store) :
    Option (Except String SystemSetupInitResult × Store) :=
  solo (exec crypto) (choose salt fault) (createInitialAdmin crypto service input) s

/-- It is a run of the system, with one thread. -/
theorem reachable_of_call {fault : Option Fault} {input : SystemSetupInitInput} {s t : Store}
    {r : Except String SystemSetupInitResult} (h : call crypto service salt fault input s =
      some (r, t)) :
    ∃ said, Reachable (system crypto service)
      { store := s, threads :=
        [{ request := ⟨s.now, input⟩, program := createInitialAdmin crypto service input }] }
      { store := t, threads :=
        [{ request := ⟨s.now, input⟩, said := said, program := orThrow r }] } :=
  reachable_of_solo (S := system crypto service) h

def Store.later (s : Store) (d : Nat) : Store := { s with now := s.now + d }

def Store.hasAdmin (s : Store) : Prop := ∃ user ∈ s.users, user.roles = some ["admin"]

/-- Users without an admin, and no call is let in. -/
def Stuck (s : Store) : Prop :=
  s.users ≠ [] ∧ ¬ s.hasAdmin ∧
    ∀ salt input d, ∃ u, call crypto service salt none input (s.later d) =
      some (.error notAvailable, u)

/-- **The promise**: after a call that has failed another one succeeds, and leaves an admin. -/
def CanBeRepeated (fault : Fault) (input : SystemSetupInitInput) (s : Store) : Prop :=
  ∃ r t, call crypto service salt (some fault) input s = some (r, t) ∧
    ((∃ e, r = .error e) → ∀ salt' input' d, input'.Valid →
      ∃ result u, call crypto service salt' none input' (t.later d) = some (.ok result, u) ∧
      u.hasAdmin) ∧
    ¬ Stuck crypto service t

/-- **When it is kept**: nothing has been stored by then, or the error is not heard of. -/
def Fault.Harmless : Fault → Prop
  | .fails point _ => point = .context ∨ point = .createUser ∨ point = .bcrypt ∨
      point = .updatePassword
  | .lost point _  => point = .context ∨ point = .bcrypt ∨ point = .updatePassword
  | .notCreated    => True

/-! ## Steps -/

section Steps

variable {crypto} {s t : Store} {q : Question} {choice : Question → Choice} {α : Type}
  {k : Value q → Setup α}

theorem exec_done {c : Choice} (h : c.outcome = .done) :
    exec crypto s c q = some (.ok (perform crypto s c q).1, (perform crypto s c q).2) := by
  rw [exec.eq_def]
  split
  · rfl
  · rw [h]
    rfl

theorem solo_await_done (h : (choice q).outcome = .done) :
    solo (exec crypto) choice (await q) s =
      some (.ok (perform crypto s (choice q) q).1, (perform crypto s (choice q) q).2) := by
  show (exec crypto s (choice q) q).bind _ = _
  rw [exec_done h]
  rfl

theorem solo_await_fails {e : String} (hq : q ≠ .now) (h : (choice q).outcome = .fails e) :
    solo (exec crypto) choice (await q) s = some (.error e, s) := by
  show (exec crypto s (choice q) q).bind _ = _
  rw [exec.eq_def]
  split
  · exact absurd rfl hq
  · rw [h]
    rfl

theorem solo_await_lost {e : String} (hq : q ≠ .now) (h : (choice q).outcome = .lost e) :
    solo (exec crypto) choice (await q) s = some (.error e, (perform crypto s (choice q) q).2) := by
  show (exec crypto s (choice q) q).bind _ = _
  rw [exec.eq_def]
  split
  · exact absurd rfl hq
  · rw [h]
    rfl

/-! ## The claim -/

variable {salt : Question → String} {fault : Option Fault}

theorem outcome_of_spared (hq : ∀ f, fault = some f → q.point ≠ some f.point) :
    (choose salt fault q).outcome = .done := by
  show outcomeOf fault q = .done
  rw [outcomeOf.eq_def]
  split
  · exact if_neg (hq _ rfl)
  · exact if_neg (hq _ rfl)
  · rfl

theorem outcome_of_point_none (hq : q.point = none) : (choose salt fault q).outcome = .done :=
  outcome_of_spared fun _ _ => by rw [hq]; rintro ⟨⟩

/-- No call has claimed, or the claim is stale. -/
def Store.Free (s : Store) : Prop := ∀ claimedAt, s.claimedAt = some claimedAt →
    claimedAt < s.now - staleAfterMs

theorem perform_deleteStaleClaim (hfree : s.Free) {c : Choice} :
    (perform crypto s c (.deleteStaleClaim (s.now - staleAfterMs))).2 =
      { s with claimedAt := none } := by
  show (if s.claimedAt.any (· < s.now - staleAfterMs) = true then { s with claimedAt := none }
      else s) = _
  split
  · rfl
  · rename_i hfresh
    -- a marker would be stale
    cases hc : s.claimedAt with
    | none => rw [← hc]
    | some claimedAt =>
        rw [hc] at hfresh
        exact absurd (decide_eq_true (hfree claimedAt hc)) hfresh

theorem solo_claimInitialAdminSetup (hfree : s.Free) :
    solo (exec crypto) (choose salt fault) claimInitialAdminSetup s =
      some (.ok true, { s with claimedAt := some s.now }) := by
  rw [claimInitialAdminSetup]
  refine solo_rescue_ok ?_
  rw [solo_bind_ok (solo_await_done (outcome_of_point_none rfl)),
    solo_bind_ok (solo_await_done (outcome_of_point_none rfl))]
  rw [show (perform crypto s (choose salt fault .now) .now).2 = s from rfl,
    show (perform crypto s (choose salt fault .now) .now).1 = s.now from rfl,
    perform_deleteStaleClaim hfree, solo_bind_ok (solo_await_done (outcome_of_point_none rfl)),
    solo_bind_ok (solo_await_done (outcome_of_point_none rfl))]
  rfl

theorem solo_releaseInitialAdminSetupClaim :
    solo (exec crypto) (choose salt fault) releaseInitialAdminSetupClaim s =
      some (.ok (), { s with claimedAt := none }) :=
  solo_rescue_ok (solo_await_done (outcome_of_point_none rfl))

/-! ## The call -/

/-- Nobody is there, no claim stands, and Better-Auth is running. -/
structure Ready (service : BetterAuthService) (s : Store) : Prop where
  isEnabled   : service.isEnabled = true
  hasInstance : service.hasInstance = true
  empty       : s.users = []
  free        : s.Free

variable {service : BetterAuthService} {input : SystemSetupInitInput}

def Store.claimed (s : Store) : Store := { s with claimedAt := some s.now }

def Store.released (s : Store) : Store := { s with claimedAt := none }

variable (crypto service salt fault input) in
/-- With users a call is refused. -/
theorem call_of_users (hs : s.users ≠ []) : call crypto service salt fault input s = some
    (.error notAvailable, s) := by
  rw [call, createInitialAdmin, solo_bind_ok (solo_await_done (outcome_of_point_none rfl))]
  rw [show perform crypto s (choose salt fault .countDocuments) .countDocuments =
    (s.users.length, s) from rfl, if_pos (List.length_pos_iff.mpr hs)]
  rfl

/-- Without, it claims, and goes on. -/
theorem call_ready (hready : Ready service s) : call crypto service salt fault input s =
    solo (exec crypto) (choose salt fault) ((create crypto input).rescue giveUp) s.claimed := by
  rw [call, createInitialAdmin, solo_bind_ok (solo_await_done (outcome_of_point_none rfl))]
  rw [show perform crypto s (choose salt fault .countDocuments) .countDocuments =
    (s.users.length, s) from rfl, hready.empty, if_neg (by simp), hready.isEnabled,
    hready.hasInstance, if_neg (by simp), if_neg (by simp)]
  rw [solo_bind_ok (solo_claimInitialAdminSetup hready.free), if_neg (by simp)]
  rfl

theorem call_ok {result : SystemSetupInitResult} (hready : Ready service s)
    (h : solo (exec crypto) (choose salt fault) (create crypto input) s.claimed =
      some (.ok result, t)) :
    call crypto service salt fault input s = some (.ok result, t) := by
  rw [call_ready hready]
  exact solo_rescue_ok h

theorem call_error {e : String} (hready : Ready service s)
    (h : solo (exec crypto) (choose salt fault) (create crypto input) s.claimed =
      some (.error e, t)) :
    ∃ e', call crypto service salt fault input s = some (.error e', t.released) := by
  rw [call_ready hready, solo_rescue_error h, giveUp,
    solo_bind_ok solo_releaseInitialAdminSetupClaim]
  split
  · exact ⟨_, rfl⟩
  split
  · exact ⟨_, rfl⟩
  · exact ⟨_, rfl⟩

/-! ## Users that are there -/

theorem updateFirst_ne_nil {selected : User → Bool} {update : User → User} {users : List User}
    (h : users ≠ []) :
    updateFirst selected update users ≠ [] := by
  cases users with
  | nil => exact absurd rfl h
  | cons user users =>
      rw [updateFirst]
      split
      · exact List.cons_ne_nil _ _
      · exact List.cons_ne_nil _ _

theorem insert_ne_nil (s : Store) (user : User) : (s.insert user).users ≠ [] :=
  List.append_ne_nil_of_right_ne_nil _ (List.cons_ne_nil _ _)

/-- No question deletes a user. -/
theorem perform_users {c : Choice} (hs : s.users ≠ []) : (perform crypto s c q).2.users ≠ [] := by
  cases q with
  | deleteStaleClaim staleBefore =>
      show (if _ then _ else s : Store).users ≠ []
      split
      · exact hs
      · exact hs
  | createUser email emailVerified name =>
      show (if c.created = true then _ else (none, s) : Option User × Store).2.users ≠ []
      split
      · exact insert_ne_nil s _
      · exact hs
  | findOneAndUpdate email iamId update =>
      show (s.upsertUser email iamId update).2.users ≠ []
      rw [Store.upsertUser]
      split
      · exact updateFirst_ne_nil hs
      · exact insert_ne_nil s _
  | appoint id => exact updateFirst_ne_nil hs
  | updatePassword email iamId password => exact updateFirst_ne_nil hs
  | _ => exact hs

/-- Once there are users, there always are. -/
theorem users_of_solo {β : Type} {choice : Question → Choice} {p : Setup β} {r : Except String β}
    (hs : s.users ≠ [])
    (h : solo (exec crypto) choice p s = some (r, t)) : t.users ≠ [] := by
  refine solo_keeps (P := fun s => s.users ≠ []) (fun s c q a s' hs hexec => ?_) hs h
  rcases exec_cases hexec with ⟨rfl, _⟩ | ⟨rfl, _⟩
  · exact hs
  · exact perform_users hs

variable (crypto) in
/-- An answer always comes. -/
theorem solo_total {β : Type} (choice : Question → Choice) (p : Setup β) (s : Store) :
    ∃ r t, solo (exec crypto) choice p s = some (r, t) := by
  induction p generalizing s with
  | returned a => exact ⟨_, _, rfl⟩
  | failed e => exact ⟨_, _, rfl⟩
  | ask q next ih =>
      have hexec : ∃ a s', exec crypto s (choice q) q = some (a, s') := by
        rw [exec.eq_def]
        split
        · exact ⟨_, _, rfl⟩
        · exact ⟨_, _, rfl⟩
      obtain ⟨a, s', hexec⟩ := hexec
      obtain ⟨r, t, h⟩ := ih a s'
      refine ⟨r, t, ?_⟩
      show (exec crypto s (choice q) q).bind _ = _
      rw [hexec]
      exact h

/-! ## The admin -/

/-- The update is for the first user that is selected. -/
theorem update_mem_updateFirst {selected : User → Bool} {update : User → User} {users : List User}
    {user : User}
    (h : users.find? selected = some user) : update user ∈ updateFirst selected update users := by
  induction users with
  | nil => cases h
  | cons first rest ih =>
      rw [updateFirst]
      rw [List.find?_cons] at h
      cases hfirst : selected first with
      | true =>
          rw [hfirst] at h
          obtain rfl := Option.some.inj h
          exact List.mem_cons_self ..
      | false =>
          rw [hfirst] at h
          exact List.mem_cons_of_mem _ (ih h)

/-- An update is for one user, and the others stay as they are. -/
theorem updateFirst_cases (selected : User → Bool) (update : User → User) {users : List User}
    {user : User}
    (h : user ∈ users) : user ∈ updateFirst selected update users ∨
      update user ∈ updateFirst selected update users := by
  induction users with
  | nil => cases h
  | cons first rest ih =>
      rw [updateFirst]
      split
      · rcases List.mem_cons.mp h with rfl | hrest
        · exact Or.inr (List.mem_cons_self ..)
        · exact Or.inl (List.mem_cons_of_mem _ hrest)
      · rcases List.mem_cons.mp h with rfl | hrest
        · exact Or.inl (List.mem_cons_self ..)
        · exact (ih hrest).imp (List.mem_cons_of_mem _) (List.mem_cons_of_mem _)

theorem hasAdmin_updateFirst {selected : User → Bool} {update : User → User} (hs : s.hasAdmin)
    (hupdate : ∀ user, user.roles = some ["admin"] → (update user).roles = some ["admin"]) :
    Store.hasAdmin { s with users := updateFirst selected update s.users } := by
  obtain ⟨user, hmem, hroles⟩ := hs
  rcases updateFirst_cases selected update hmem with hold | hnew
  · exact ⟨user, hold, hroles⟩
  · exact ⟨update user, hnew, hupdate user hroles⟩

theorem hasAdmin_insert (hs : s.hasAdmin) (user : User) : (s.insert user).hasAdmin := by
  obtain ⟨admin, hmem, hroles⟩ := hs
  exact ⟨admin, List.mem_append_left _ hmem, hroles⟩

/-- No question takes the role from an admin. -/
theorem perform_hasAdmin {c : Choice} (hs : s.hasAdmin) : (perform crypto s c q).2.hasAdmin := by
  cases q with
  | deleteStaleClaim staleBefore =>
      show (if _ then _ else s : Store).hasAdmin
      split
      · exact hs
      · exact hs
  | createUser email emailVerified name =>
      show (if c.created = true then _ else (none, s) : Option User × Store).2.hasAdmin
      split
      · exact hasAdmin_insert hs _
      · exact hs
  | findOneAndUpdate email iamId update =>
      show (s.upsertUser email iamId update).2.hasAdmin
      rw [Store.upsertUser]
      split
      · exact hasAdmin_updateFirst hs fun _ hroles => hroles
      · exact hasAdmin_insert hs _
  | appoint id => exact hasAdmin_updateFirst hs fun _ _ => rfl
  | updatePassword email iamId password => exact hasAdmin_updateFirst hs fun _ hroles => hroles
  | _ => exact hs

theorem hasAdmin_of_solo {β : Type} {choice : Question → Choice} {p : Setup β} {r : Except String β}
    (hs : s.hasAdmin)
    (h : solo (exec crypto) choice p s = some (r, t)) : t.hasAdmin := by
  refine solo_keeps (P := Store.hasAdmin) (fun s c q a s' hs hexec => ?_) hs h
  rcases exec_cases hexec with ⟨rfl, _⟩ | ⟨rfl, _⟩
  · exact hs
  · exact perform_hasAdmin hs

/-- Who has been found or created can be appointed. -/
theorem hasAdmin_appoint {email : String} {iamId : Nat} {update : UserUpdate} {user : User}
    (h : (s.upsertUser email iamId update).1 = some user) :
    ((s.upsertUser email iamId update).2.appoint user.id).hasAdmin := by
  have hmem : ∃ other ∈ (s.upsertUser email iamId update).2.users,
      decide (other.id = user.id) = true := by
    rw [Store.upsertUser] at h ⊢
    split at h
    · rename_i found hfound
      obtain rfl := Option.some.inj h
      exact ⟨_, update_mem_updateFirst hfound, decide_eq_true rfl⟩
    · obtain rfl := Option.some.inj h
      exact ⟨_, List.mem_append_right _ (List.mem_singleton.mpr rfl), decide_eq_true rfl⟩
  obtain ⟨first, hfirst⟩ := Option.isSome_iff_exists.mp (List.find?_isSome.mpr hmem)
  exact ⟨_, update_mem_updateFirst hfirst, rfl⟩

/-! ## How a call ends -/

/-- A step at which something goes wrong. -/
theorem solo_await_fault {f : Fault} {p : Point} (hq : q.point = some p) (hp : f.point = p)
    (hf : f ≠ .notCreated) :
    ∃ e t, solo (exec crypto) (choose salt (some f)) (await q) s = some (.error e, t) := by
  have hpoint : q.point = some f.point := hq.trans (congrArg some hp.symm)
  have hnow : q ≠ .now := by
    rintro rfl
    cases hpoint
  cases f with
  | fails point e => exact ⟨e, _, solo_await_fails hnow (if_pos hpoint)⟩
  | lost point e => exact ⟨e, _, solo_await_lost hnow (if_pos hpoint)⟩
  | notCreated => exact absurd rfl hf

theorem solo_bind_fault {f : Fault} {p : Point} (hq : q.point = some p) (hp : f.point = p)
    (hf : f ≠ .notCreated) :
    ∃ e t, solo (exec crypto) (choose salt (some f)) (await q >>= k) s = some (.error e, t) := by
  have hawait : ∃ e t, solo (exec crypto) (choose salt (some f)) (await q) s = some (.error e, t) :=
    solo_await_fault hq hp hf
  obtain ⟨e, t, h⟩ := hawait
  exact ⟨e, t, solo_bind_error h⟩

/-- The fault is somewhere else. -/
def Spares (fault : Option Fault) (points : List Point) : Prop := ∀ f, fault = some f →
    f.point ∉ points

theorem Spares.done {points : List Point} {p : Point} (h : Spares fault points)
    (hq : q.point = some p)
    (hp : p ∈ points) : (choose salt fault q).outcome = .done :=
  outcome_of_spared fun f hf heq => h f hf (Option.some.inj (heq.symm.trans hq) ▸ hp)

theorem Spares.created {points : List Point} (h : Spares fault points)
    (hp : Point.createUser ∈ points) :
    (choose salt fault q).created = true := by
  cases fault with
  | none => rfl
  | some f =>
      cases f with
      | fails point e => rfl
      | lost point e => rfl
      | notCreated => exact absurd hp (h _ rfl)

def newUser (s : Store) (input : SystemSetupInitInput) : User where
  id            := s.nextId
  email         := input.email
  emailVerified := some true
  name          := some (displayName input)

theorem perform_createUser {c : Choice} (hcreated : c.created = true) :
    perform crypto s c (.createUser input.email true (displayName input)) =
      (some (newUser s input), s.insert (newUser s input)) := if_pos hcreated

/-- The user of Better-Auth is stored before the rest. -/
theorem solo_createIamUser (h : Spares fault [.context, .createUser]) :
    solo (exec crypto) (choose salt fault) (createIamUser crypto input) s =
      solo (exec crypto) (choose salt fault) (addCredentials crypto input (newUser s input))
        (s.insert (newUser s input)) := by
  rw [createIamUser, solo_bind_ok (solo_await_done (h.done rfl (by simp))),
    solo_bind_ok (solo_await_done (h.done rfl (by simp)))]
  have hcreated : (perform crypto s (choose salt fault .context) .context).2 = s := rfl
  rw [hcreated, perform_createUser (h.created (by simp))]

theorem solo_create (h : Spares fault [.context, .createUser]) :
    solo (exec crypto) (choose salt fault) (create crypto input) s =
      solo (exec crypto) (choose salt fault) (addCredentials crypto input (newUser s input) >>=
        appointAdmin crypto input)
        (s.insert (newUser s input)) := by
  rw [create, solo_bind, solo_createIamUser h, solo_bind]

variable (crypto salt input s) in
theorem solo_addCredentials (iamUser : User) (h : Spares fault [.hash, .linkAccount]) :
    ∃ t, solo (exec crypto) (choose salt fault) (addCredentials crypto input iamUser) s =
      some (.ok iamUser, t) := by
  rw [addCredentials, solo_bind_ok (solo_await_done (h.done rfl (by simp))),
    solo_bind_ok (solo_await_done (h.done rfl (by simp)))]
  exact ⟨_, rfl⟩

variable (crypto salt s) in
theorem solo_linkOrCreateUser (sessionUser : SessionUser)
    (hemail : JsText.truthy sessionUser.email = true)
    (h : Spares fault [.findOne, .findOneAndUpdate]) :
    ∃ user t, solo (exec crypto) (choose salt fault) (linkOrCreateUser sessionUser) s =
      some (.ok (some user), t) ∧
      (t.appoint user.id).hasAdmin := by
  rw [linkOrCreateUser, hemail, if_neg (by simp)]
  let update := updateQuery sessionUser (s.users.find? (selects sessionUser.email sessionUser.id))
  obtain ⟨user, huser⟩ : ∃ user, (s.upsertUser sessionUser.email sessionUser.id update).1 =
    some user := by
    rw [Store.upsertUser]
    split
    · exact ⟨_, rfl⟩
    · exact ⟨_, rfl⟩
  refine ⟨user, (s.upsertUser sessionUser.email sessionUser.id update).2, solo_rescue_ok ?_,
    hasAdmin_appoint huser⟩
  rw [solo_bind_ok (solo_await_done (h.done rfl (by simp)))]
  refine (solo_await_done (h.done rfl (by simp))).trans ?_
  rw [← huser]
  rfl

variable (crypto) in
/-- Whatever happens, the call goes on. -/
theorem solo_syncPasswordToLegacy (choice : Question → Choice) (id : Nat) (email password : String)
    (s : Store) :
    ∃ t, solo (exec crypto) choice (syncPasswordToLegacy crypto id email password) s =
      some (.ok (), t) := by
  rw [syncPasswordToLegacy]
  split
  · exact ⟨s, rfl⟩
  · obtain ⟨r, t, h⟩ := solo_total crypto choice (do
      let bcryptHash ← await (.bcrypt (normalizePasswordForIam crypto password))
      await (.updatePassword email id bcryptHash) : Setup Unit) s
    cases r with
    | ok _ => exact ⟨t, solo_rescue_ok h⟩
    | error e => exact ⟨t, solo_rescue_error h⟩

theorem Spares.sub {points points' : List Point} (h : Spares fault points)
    (hsub : points' ⊆ points) :
    Spares fault points' := fun f hf hmem => h f hf (hsub hmem)

theorem spares_of_not_mem {f : Fault} {points : List Point} (h : f.point ∉ points) :
    Spares (some f) points := by
  rintro _ ⟨⟩
  exact h

variable (crypto salt s) in
/-- There is an admin, and the call succeeds. -/
theorem create_admin (hvalid : input.Valid)
    (h : Spares fault [.context, .createUser, .hash, .linkAccount, .findOne, .findOneAndUpdate,
      .appoint]) :
    ∃ result t, solo (exec crypto) (choose salt fault) (create crypto input) s =
      some (.ok result, t) ∧ t.hasAdmin := by
  obtain ⟨t₁, hcredentials⟩ :=
    solo_addCredentials crypto (s.insert (newUser s input)) salt input (newUser s input)
    (h.sub (by simp))
  rw [solo_create (h.sub (by simp)), solo_bind_ok hcredentials, appointAdmin]
  have hspares : Spares fault [.findOne, .findOneAndUpdate] := h.sub (by simp)
  obtain ⟨user, t₂, hlink, hadmin⟩ :=
    solo_linkOrCreateUser crypto t₁ salt (newUser s input).toSessionUser hvalid hspares
  rw [solo_bind_ok hlink]
  dsimp only
  rw [solo_bind_ok (solo_await_done (h.done rfl (by simp)))]
  obtain ⟨t₃, hsync⟩ := solo_syncPasswordToLegacy crypto (choose salt fault) (newUser s input).id
    input.email input.password (t₂.appoint user.id)
  refine ⟨_, t₃, (solo_bind_ok hsync).trans rfl, hasAdmin_of_solo hadmin hsync⟩

variable (crypto salt input s) in
/-- Nothing is stored, and the call fails. -/
theorem create_nothing {f : Fault}
    (h : f.point = .context ∨ (f.point = .createUser ∧ ∀ e, f ≠ .lost .createUser e)) :
    ∃ e, solo (exec crypto) (choose salt (some f)) (create crypto input) s =
      some (.error e, s) := by
  rw [create]
  suffices hiam : ∃ e, solo (exec crypto) (choose salt (some f)) (createIamUser crypto input) s =
    some (.error e, s) by
    obtain ⟨e, hiam⟩ := hiam
    exact ⟨e, solo_bind_error hiam⟩
  rw [createIamUser]
  rcases h with hcontext | ⟨hcreate, hlost⟩
  · cases f with
    | fails point e =>
        exact ⟨e, solo_bind_error
          (solo_await_fails (by rintro ⟨⟩) (if_pos (congrArg some hcontext.symm)))⟩
    | lost point e =>
        exact ⟨e, solo_bind_error
          (solo_await_lost (by rintro ⟨⟩) (if_pos (congrArg some hcontext.symm)))⟩
    | notCreated => cases hcontext
  · have hspares : Spares (some f) [.context] := spares_of_not_mem (by rw [hcreate]; simp)
    rw [solo_bind_ok (solo_await_done (hspares.done rfl (by simp)))]
    cases f with
    | fails point e =>
        exact ⟨e, solo_bind_error
          (solo_await_fails (by rintro ⟨⟩) (if_pos (congrArg some hcreate.symm)))⟩
    | lost point e => exact absurd (congrArg (Fault.lost · e) hcreate) (hlost e)
    | notCreated =>
        rw [solo_bind_ok (solo_await_done rfl)]
        exact ⟨_, rfl⟩

theorem addCredentials_fault {f : Fault} {iamUser : User}
    (h : f.point = .hash ∨ f.point = .linkAccount)
    (hf : f ≠ .notCreated) :
    ∃ e t, solo (exec crypto) (choose salt (some f)) (addCredentials crypto input iamUser) s =
      some (.error e, t) := by
  rw [addCredentials]
  rcases h with hhash | hlink
  · exact solo_bind_fault rfl hhash hf
  · have hspares : Spares (some f) [.hash] := spares_of_not_mem (by rw [hlink]; simp)
    rw [solo_bind_ok (solo_await_done (hspares.done rfl (by simp)))]
    exact solo_bind_fault rfl hlink hf

theorem linkOrCreateUser_fault {f : Fault} {sessionUser : SessionUser}
    (h : f.point = .findOne ∨ f.point = .findOneAndUpdate) (hf : f ≠ .notCreated) :
    ∃ t, solo (exec crypto) (choose salt (some f)) (linkOrCreateUser sessionUser) s =
      some (.ok none, t) := by
  rw [linkOrCreateUser]
  split
  · exact ⟨s, rfl⟩
  · suffices hfault : ∃ e t, solo (exec crypto) (choose salt (some f)) (do
        let existingUser ← await (.findOne sessionUser.email sessionUser.id)
        await (.findOneAndUpdate sessionUser.email sessionUser.id
          (updateQuery sessionUser existingUser)) :
          Setup (Option User)) s = some (.error e, t) by
      obtain ⟨e, t, h⟩ := hfault
      exact ⟨t, solo_rescue_error h⟩
    rcases h with hfind | hupdate
    · exact solo_bind_fault rfl hfind hf
    · have hspares : Spares (some f) [.findOne] := spares_of_not_mem (by rw [hupdate]; simp)
      rw [solo_bind_ok (solo_await_done (hspares.done rfl (by simp)))]
      exact solo_await_fault rfl hupdate hf

theorem appointAdmin_fault {f : Fault} {iamUser : User}
    (hemail : JsText.truthy iamUser.email = true)
    (h : f.point = .findOne ∨ f.point = .findOneAndUpdate ∨
      f.point = .appoint) (hf : f ≠ .notCreated) :
    ∃ e t, solo (exec crypto) (choose salt (some f)) (appointAdmin crypto input iamUser) s =
      some (.error e, t) := by
  rw [appointAdmin]
  have hlinked : f.point = .findOne ∨ f.point = .findOneAndUpdate →
      ∃ t, solo (exec crypto) (choose salt (some f)) (linkOrCreateUser iamUser.toSessionUser) s =
        some (.ok none, t) :=
    fun h => linkOrCreateUser_fault h hf
  rcases or_assoc.mpr h with hlink | happoint
  · obtain ⟨t, hnone⟩ := hlinked hlink
    rw [solo_bind_ok hnone]
    exact ⟨_, t, rfl⟩
  · have hspares : Spares (some f) [.findOne, .findOneAndUpdate] :=
      spares_of_not_mem (by rw [happoint]; simp)
    obtain ⟨user, t, hsome, _⟩ :=
      solo_linkOrCreateUser crypto s salt iamUser.toSessionUser hemail hspares
    rw [solo_bind_ok hsome]
    exact solo_bind_fault rfl happoint hf

variable (crypto salt s) in
/-- A user is stored, and the call fails. -/
theorem create_half {f : Fault} (hvalid : input.Valid)
    (h : f.point ∈ [.hash, .linkAccount, .findOne, .findOneAndUpdate, .appoint] ∨
      ∃ e, f = .lost .createUser e) :
    ∃ e t, solo (exec crypto) (choose salt (some f)) (create crypto input) s = some (.error e, t) ∧
      t.users ≠ [] := by
  rcases h with h | ⟨e, rfl⟩
  · have hf : f ≠ .notCreated := by
      rintro rfl
      simp [Fault.point] at h
    have hspares : Spares (some f) [.context, .createUser] := spares_of_not_mem fun hmem => by
      simp only [List.mem_cons, List.not_mem_nil, or_false] at h hmem
      rcases hmem with hp | hp
      · simp [hp] at h
      · simp [hp] at h
    -- from here on there is a user
    have hsome : (s.insert (newUser s input)).users ≠ [] := insert_ne_nil s _
    rw [solo_create hspares]
    suffices hfault : ∃ e t, solo (exec crypto) (choose salt (some f))
        (addCredentials crypto input (newUser s input) >>=
          appointAdmin crypto input) (s.insert (newUser s input)) =
          some (.error e, t) by
      obtain ⟨e, t, hrest⟩ := hfault
      exact ⟨e, t, hrest, users_of_solo hsome hrest⟩
    have hcases : (f.point = .hash ∨ f.point = .linkAccount) ∨
        (f.point = .findOne ∨ f.point = .findOneAndUpdate ∨ f.point = .appoint) := by
      simpa [or_assoc] using h
    rcases hcases with hcredentials | hadmin
    · obtain ⟨e, t, hrest⟩ := addCredentials_fault hcredentials hf
      exact ⟨e, t, solo_bind_error hrest⟩
    · have hcredentials : Spares (some f) [.hash, .linkAccount] := spares_of_not_mem fun hmem => by
        simp only [List.mem_cons, List.not_mem_nil, or_false] at hmem
        rcases hmem with hp | hp
        · simp [hp] at hadmin
        · simp [hp] at hadmin
      obtain ⟨t, hdone⟩ := solo_addCredentials crypto _ salt input (newUser s input) hcredentials
      rw [solo_bind_ok hdone]
      exact appointAdmin_fault hvalid hadmin hf
  · have hspares : Spares (some (.lost .createUser e)) [.context] :=
      spares_of_not_mem (by simp [Fault.point])
    have hlost : solo (exec crypto) (choose salt (some (.lost .createUser e)))
        (createIamUser crypto input) s =
        some (.error e, s.insert (newUser s input)) := by
      rw [createIamUser, solo_bind_ok (solo_await_done (hspares.done rfl (by simp)))]
      refine solo_bind_error ((solo_await_lost (by rintro ⟨⟩) rfl).trans ?_)
      rw [perform_createUser rfl]
      rfl
    exact ⟨e, _, solo_bind_error hlost, insert_ne_nil s _⟩

/-! ## The promise -/

theorem ready_later (hready : Ready service s) (hempty : t.users = []) (d : Nat) :
    Ready service (t.released.later d) where
  isEnabled   := hready.isEnabled
  hasInstance := hready.hasInstance
  empty       := hempty
  free        := nofun

variable (crypto salt) in
theorem call_succeeds (hready : Ready service s) (hvalid : input.Valid)
    (h : Spares fault [.context, .createUser, .hash, .linkAccount, .findOne, .findOneAndUpdate,
      .appoint]) :
    ∃ result t, call crypto service salt fault input s = some (.ok result, t) ∧ t.hasAdmin := by
  obtain ⟨result, t, hcreate, hadmin⟩ := create_admin crypto s.claimed salt hvalid h
  exact ⟨result, t, call_ok hready hcreate, hadmin⟩

/-- Three kinds of faults. -/
theorem fault_cases (f : Fault) :
    (f.point = .context ∨ (f.point = .createUser ∧ ∀ e, f ≠ .lost .createUser e)) ∨
      (f.point ∈ [.hash, .linkAccount, .findOne, .findOneAndUpdate, .appoint] ∨
        ∃ e, f = .lost .createUser e) ∨
      f.point = .bcrypt ∨ f.point = .updatePassword := by
  cases f with
  | fails point e => cases point <;> simp [Fault.point]
  | lost point e => cases point <;> simp [Fault.point]
  | notCreated => simp [Fault.point]

theorem canBeRepeated_of_nothing {f : Fault} (hready : Ready service s)
    (h : f.point = .context ∨ (f.point = .createUser ∧ ∀ e, f ≠ .lost .createUser e)) :
    CanBeRepeated crypto service salt f input s := by
  obtain ⟨e, hcreate⟩ := create_nothing crypto s.claimed salt input h
  obtain ⟨e', hcall⟩ := call_error hready hcreate
  refine ⟨_, _, hcall, ?_, ?_⟩
  · intro _ salt' input' d hvalid
    exact call_succeeds crypto salt' (ready_later hready (t := s.claimed) hready.empty d) hvalid
      nofun
  · rintro ⟨hsome, _⟩
    exact hsome hready.empty

theorem canBeRepeated_of_admin {f : Fault} (hready : Ready service s) (hvalid : input.Valid)
    (h : f.point = .bcrypt ∨ f.point = .updatePassword) :
      CanBeRepeated crypto service salt f input s := by
  have hspares : Spares (some f) [.context, .createUser, .hash, .linkAccount, .findOne,
      .findOneAndUpdate, .appoint] := by
    refine spares_of_not_mem ?_
    rcases h with h | h
    · rw [h]; simp
    · rw [h]; simp
  obtain ⟨result, t, hcall, hadmin⟩ := call_succeeds crypto salt hready hvalid hspares
  refine ⟨_, t, hcall, by rintro ⟨_, ⟨⟩⟩, ?_⟩
  rintro ⟨_, hnone, _⟩
  exact hnone hadmin

theorem not_canBeRepeated {f : Fault} (hready : Ready service s) (hvalid : input.Valid)
    (h : f.point ∈ [.hash, .linkAccount, .findOne, .findOneAndUpdate, .appoint] ∨
      ∃ e, f = .lost .createUser e) :
    ¬ CanBeRepeated crypto service salt f input s := by
  rintro ⟨r, t, hcall, hagain, _⟩
  obtain ⟨e, t', hcreate, hsome⟩ := create_half crypto s.claimed salt hvalid h
  obtain ⟨e', hcall'⟩ := call_error hready hcreate
  obtain ⟨rfl, rfl⟩ := Prod.mk.inj (Option.some.inj (hcall'.symm.trans hcall))
  obtain ⟨result, u, hsucceeds, _⟩ := hagain ⟨e', rfl⟩ salt input 0 hvalid
  have hrefused := call_of_users crypto salt none service input (s := t'.released.later 0) hsome
  cases hrefused.symm.trans hsucceeds

theorem harmless_iff {f : Fault} : f.Harmless ↔
    (f.point = .context ∨ (f.point = .createUser ∧ ∀ e, f ≠ .lost .createUser e)) ∨
      f.point = .bcrypt ∨ f.point = .updatePassword := by
  cases f with
  | fails point e => simp [Fault.Harmless, Fault.point, or_assoc]
  | lost point e => cases point <;> simp [Fault.Harmless, Fault.point]
  | notCreated => simp [Fault.Harmless, Fault.point]

end Steps

/-- **When a setup can be repeated**: nothing has been stored when it fails, or it does not fail. -/
theorem canBeRepeated_iff (s : Store) (hready : Ready service s) (input : SystemSetupInitInput)
    (hvalid : input.Valid)
    (fault : Fault) : CanBeRepeated crypto service salt fault input s ↔ fault.Harmless := by
  rw [harmless_iff]
  constructor
  · intro hrepeat
    rcases fault_cases fault with hnothing | hhalf | hadmin
    · exact Or.inl hnothing
    · exact absurd hrepeat (not_canBeRepeated hready hvalid hhalf)
    · exact Or.inr hadmin
  · rintro (hnothing | hadmin)
    · exact canBeRepeated_of_nothing hready hnothing
    · exact canBeRepeated_of_admin hready hvalid hadmin

def alice : SystemSetupInitInput where
  email    := "alice@example.org"
  name     := some "Alice"
  password := "a long password"

/-- Better-Auth creates no user, and the next call does. -/
theorem canBeRepeated_alice : CanBeRepeated plainCrypto running (fun _ => "salt") .notCreated alice
    { now := 0 } :=
  (canBeRepeated_iff plainCrypto running (fun _ => "salt") { now := 0 } ⟨rfl, rfl, rfl,
    nofun⟩ alice rfl .notCreated).mpr
    trivial

/-- A hash fails, and nobody is let in any more. -/
theorem hash_locks_out :
    (∃ e t, call plainCrypto running (fun _ => "salt") (some (.fails .hash "out of memory")) alice
      { now := 0 } =
        some (.error e, t) ∧ Stuck plainCrypto running t) ∧
      ¬ CanBeRepeated plainCrypto running (fun _ => "salt") (.fails .hash "out of memory") alice
        { now := 0 } := by
  have hready : Ready running { now := 0 } := ⟨rfl, rfl, rfl, nofun⟩
  let s : Store := Store.claimed { now := 0 }
  have hcreate : solo (exec plainCrypto)
      (choose (fun _ => "salt") (some (.fails .hash "out of memory")))
      (create plainCrypto alice) s = some (.error "out of memory", s.insert (newUser s alice)) := by
    rw [solo_create (spares_of_not_mem (by simp [Fault.point])), addCredentials]
    exact solo_bind_error (solo_bind_error (solo_await_fails (by rintro ⟨⟩) rfl))
  obtain ⟨e, hcall⟩ := call_error hready hcreate
  refine ⟨⟨e, _, hcall, List.cons_ne_nil _ _, ?_, ?_⟩,
    not_canBeRepeated hready rfl (Or.inl (by simp [Fault.point]))⟩
  · rintro ⟨user, hmem, hroles⟩
    obtain rfl := List.mem_singleton.mp hmem
    cases hroles
  · intro salt input d
    exact ⟨_, call_of_users plainCrypto salt none running input (List.cons_ne_nil _ _)⟩

end SystemSetup
