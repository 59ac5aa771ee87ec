import Mathlib.Data.List.Basic
import NestServer.Runs

/-! # The migration lock

    Replicas that migrate at boot serialize on one document of a lock
    collection.  A session is one call of `withMigrationLock`: it upserts the
    document, breaks a stale one, refreshes its own while the work runs, and
    deletes it at the end.

    Every request is sent at one moment and executed at another, or never: the
    stamp a request carries was read from the clock when it was sent.  What a
    session does between two awaits is one step, as the event loop runs it. -/

namespace MigrationLock

open Runs

/-- `LOCK_STALE_AFTER_MS` -/
def lockStaleAfterMs : Nat := 60000

/-- `LOCK_WAIT_TIMEOUT_MS` -/
def lockWaitTimeoutMs : Nat := 15 * 60000

/-! ## The lock collection -/

/-- The stored field `acquiredAt`: a lock of an older version has none. -/
inductive AcquiredAt where
  | missing
  | date (ms : Nat)
  | other
deriving DecidableEq, Repr

/-- A document of the lock collection. -/
structure LockDoc where
  /-- `_id`, assigned by the server at the insert -/
  id         : Nat
  acquiredAt : AcquiredAt
  owner      : Option String
deriving DecidableEq, Repr

/-- The documents with `lock: 'lock'`: the index on `lock` is unique, so there
    is at most one.  `nextId` is the next `_id` the server assigns. -/
structure LockCollection where
  doc    : Option LockDoc
  nextId : Nat
deriving DecidableEq, Repr

/-- The requests of `acquireLock`, of the heartbeat and of `releaseLock`. -/
inductive Request where
  /-- `updateOne({ lock }, { $set: { lock }, $setOnInsert }, { upsert: true })` -/
  | acquire (acquiredAt : Nat) (owner : String)
  /-- `findOne({ lock })` -/
  | findOne
  /-- `updateOne({ _id, acquiredAt: { $exists: false } }, { $set: { acquiredAt } })` -/
  | stamp (id acquiredAt : Nat)
  /-- `deleteOne({ _id, acquiredAt })` -/
  | breakLock (id acquiredAt : Nat)
  /-- `updateOne({ lock, owner }, { $set: { acquiredAt } })` -/
  | refresh (owner : String) (acquiredAt : Nat)
  /-- `deleteOne({ lock, owner })` -/
  | release (owner : String)
deriving DecidableEq, Repr

inductive Reply where
  | acquired (upsertedId : Option Nat)
  | found (holder : Option LockDoc)
  | stamped
  | broken
  | refreshed (matched : Bool)
  | released
deriving DecidableEq, Repr

/-- The server executes one request, atomically. -/
def LockCollection.execute (c : LockCollection) : Request → LockCollection × Reply
  | .acquire acquiredAt owner =>
      match c.doc with
      -- `$set: { lock: 'lock' }` leaves a document that matches as it is
      | some _ => (c, .acquired none)
      | none =>
          ({ doc := some ⟨c.nextId, .date acquiredAt, some owner⟩, nextId := c.nextId + 1 },
            .acquired (some c.nextId))
  | .findOne => (c, .found c.doc)
  | .stamp id acquiredAt =>
      match c.doc with
      | some d =>
          if d.id = id ∧ d.acquiredAt = .missing then
            ({ c with doc := some { d with acquiredAt := .date acquiredAt } }, .stamped)
          else (c, .stamped)
      | none => (c, .stamped)
  | .breakLock id acquiredAt =>
      match c.doc with
      | some d =>
          if d.id = id ∧ d.acquiredAt = .date acquiredAt then ({ c with doc := none }, .broken)
          else (c, .broken)
      | none => (c, .broken)
  | .refresh owner acquiredAt =>
      match c.doc with
      | some d =>
          if d.owner = some owner then
            ({ c with doc := some { d with acquiredAt := .date acquiredAt } }, .refreshed true)
          else (c, .refreshed false)
      | none => (c, .refreshed false)
  | .release owner =>
      match c.doc with
      | some d =>
          if d.owner = some owner then ({ c with doc := none }, .released) else (c, .released)
      | none => (c, .released)

/-! ## Sessions -/

/-- Where a call of `withMigrationLock` stands. -/
inductive Phase where
  /-- in `acquireLock`, awaiting a reply -/
  | acquiring
  /-- in `acquireLock`, the reply is there -/
  | replied (reply : Reply)
  /-- in `acquireLock`, between two rounds of the loop -/
  | sleeping
  /-- `acquireLock` returned, the work runs -/
  | holding
  /-- the work is done, `releaseLock` awaits its reply -/
  | releasing
  | finished
  /-- it threw, or its process is gone -/
  | failed
deriving DecidableEq, Repr

/-- One call of `withMigrationLock`.  The last two fields are history: no step
    reads them. -/
structure Session where
  token       : String
  deadline    : Nat
  phase       : Phase
  /-- the request it sent and the server has yet to execute -/
  request     : Option Request
  /-- the stamps of its heartbeats that the server has yet to execute -/
  beats       : List Nat
  /-- the `_id` of the document its upsert inserted -/
  lockId      : Option Nat
  /-- the stamp of its last successful refresh, the acquisition included -/
  refreshedAt : Option Nat
deriving DecidableEq, Repr

namespace Session

/-- `acquireLock` sends its next request. -/
def send (x : Session) (r : Request) : Session :=
  { x with phase := .acquiring, request := some r }

/-- The end of the loop's body: give up after the deadline, else sleep. -/
def checkDeadline (x : Session) (now : Nat) : Session :=
  if x.deadline < now then { x with phase := .failed } else { x with phase := .sleeping }

/-- The upsert that opens each round of the loop. -/
def tryAcquire (x : Session) (now : Nat) : Session :=
  x.send (.acquire now x.token)

/-- `acquireLock` goes on: with the reply it awaited, or after its sleep. -/
def resume (x : Session) (now : Nat) : Option Session :=
  match x.phase with
  | .replied (.acquired upsertedId) =>
      if upsertedId.isSome then some { x with phase := .holding } else some (x.send .findOne)
  | .replied (.found none) => some (x.checkDeadline now)
  | .replied (.found (some holder)) =>
      match holder.acquiredAt with
      | .date acquiredAt =>
          if lockStaleAfterMs < now - acquiredAt then
            some (x.send (.breakLock holder.id acquiredAt))
          else some (x.checkDeadline now)
      | _ => some (x.send (.stamp holder.id now))
  | .replied .stamped => some (x.checkDeadline now)
  | .replied .broken => some (x.tryAcquire now)
  | .sleeping => some (x.tryAcquire now)
  | _ => none

/-- The reply to its request reaches the session, if its process still runs. -/
def receive (x : Session) (reply : Reply) : Session :=
  match x.phase with
  | .acquiring => { x with request := none, phase := .replied reply }
  | .releasing => { x with request := none, phase := .finished }
  | _          => { x with request := none }

@[simp] theorem receive_request (x : Session) (r : Reply) : (x.receive r).request = none := by
  rw [receive]
  split <;> rfl

@[simp] theorem receive_token (x : Session) (r : Reply) : (x.receive r).token = x.token := by
  rw [receive]
  split <;> rfl

theorem receive_phase (x : Session) (r : Reply) :
    (x.receive r).phase = match x.phase with
      | .acquiring => .replied r
      | .releasing => .finished
      | ph         => ph := by
  rw [receive]
  split <;> rfl

/-- History: what a request of its own changed. -/
def noting (x : Session) : Request → Reply → Session
  | .acquire acquiredAt _, .acquired (some id) =>
      { x with lockId := some id, refreshedAt := some acquiredAt }
  | .refresh _ acquiredAt, .refreshed true => { x with refreshedAt := some acquiredAt }
  | _, _ => x

@[simp] theorem noting_phase (x : Session) (r : Request) (reply : Reply) :
    (x.noting r reply).phase = x.phase := by
  unfold noting
  split <;> rfl

end Session

/-! ## The system -/

structure State where
  now      : Nat
  locks    : LockCollection
  sessions : List Session
deriving DecidableEq, Repr

inductive Action where
  | tick (ms : Nat)
  /-- a replica calls `acquireLock` and draws its owner id -/
  | acquireLock (token : String)
  /-- the server executes the session's request -/
  | serve (i : Nat)
  | resume (i : Nat)
  /-- the heartbeat timer of the session fires -/
  | heartbeat (i : Nat)
  /-- the server executes one of the session's heartbeats, in any order -/
  | serveHeartbeat (i k : Nat)
  /-- the work returned or threw: stop the heartbeat and call `releaseLock` -/
  | finish (i : Nat)
  /-- the connection failed, or the process was killed; a request already sent
      may still be executed -/
  | fail (i : Nat)
deriving DecidableEq, Repr

/-- No session and no document has the owner id: `randomUUID()` draws it. -/
def State.Unused (s : State) (token : String) : Prop :=
  (∀ x ∈ s.sessions, x.token ≠ token) ∧ ∀ d ∈ s.locks.doc, d.owner ≠ some token

instance (s : State) (token : String) : Decidable (s.Unused token) :=
  inferInstanceAs (Decidable ((∀ x ∈ s.sessions, x.token ≠ token) ∧
    ∀ d ∈ s.locks.doc, d.owner ≠ some token))

/-- The session's step, put in its place. -/
def State.put (s : State) (i : Nat) (x : Session) : State :=
  { s with sessions := s.sessions.set i x }

def step (s : State) : Action → Option State
  | .tick ms => some { s with now := s.now + ms }
  | .acquireLock token =>
      if s.Unused token then
        some { s with sessions := s.sessions ++ [
          { token, deadline := s.now + lockWaitTimeoutMs, phase := .acquiring,
            request := some (.acquire s.now token), beats := [], lockId := none,
            refreshedAt := none }] }
      else none
  | .serve i =>
      s.sessions[i]?.bind fun x =>
        x.request.map fun r =>
          { s with locks := (s.locks.execute r).1 }.put i
            ((x.receive (s.locks.execute r).2).noting r (s.locks.execute r).2)
  | .resume i =>
      s.sessions[i]?.bind fun x => (x.resume s.now).map fun x' => s.put i x'
  | .heartbeat i =>
      s.sessions[i]?.bind fun x =>
        if x.phase = .holding then some (s.put i { x with beats := x.beats ++ [s.now] }) else none
  | .serveHeartbeat i k =>
      s.sessions[i]?.bind fun x =>
        x.beats[k]?.map fun ms =>
          { s with locks := (s.locks.execute (.refresh x.token ms)).1 }.put i
            (({ x with beats := x.beats.eraseIdx k }).noting (.refresh x.token ms)
              (s.locks.execute (.refresh x.token ms)).2)
  | .finish i =>
      s.sessions[i]?.bind fun x =>
        if x.phase = .holding then
          some (s.put i { x with phase := .releasing, request := some (.release x.token) })
        else none
  | .fail i =>
      s.sessions[i]?.bind fun x =>
        if x.phase = .finished then none else some (s.put i { x with phase := .failed })

/-- Before the first session: the collection may hold a lock that an earlier
    deployment, or an older version, left behind. -/
structure Start (s : State) : Prop where
  sessions : s.sessions = []
  ids      : ∀ d ∈ s.locks.doc, d.id < s.locks.nextId

/-! ## What the claim speaks of -/

namespace Session

/-- From the moment the server inserts its document until the work ends. -/
def Owns (x : Session) : Prop :=
  x.phase = .holding ∨ ∃ id, x.phase = .replied (.acquired (some id))

/-- In `acquireLock`, without the lock so far. -/
def Trying (x : Session) : Prop :=
  x.phase = .acquiring ∨ x.phase = .sleeping ∨
    ∃ r, x.phase = .replied r ∧ ∀ id, r ≠ .acquired (some id)

/-- Its last successful refresh is at most `LOCK_STALE_AFTER_MS` ago. -/
def Fresh (x : Session) (now : Nat) : Prop :=
  ∀ ms, x.refreshedAt = some ms → now ≤ ms + lockStaleAfterMs

/-- The lock document is the one this session inserted. -/
def HasLock (x : Session) (locks : LockCollection) : Prop :=
  ∃ d, locks.doc = some d ∧ x.lockId = some d.id

end Session

/-- At every moment of a run, this says that the successful refreshes of a
    holder are never more than `LOCK_STALE_AFTER_MS` apart while it runs. -/
def State.Refreshed (s : State) : Prop :=
  ∀ x ∈ s.sessions, x.phase = .holding → x.Fresh s.now

instance (x : Session) (now : Nat) : Decidable (x.Fresh now) :=
  match h : x.refreshedAt with
  | none    => isTrue fun ms hms => by rw [h] at hms; cases hms
  | some ms =>
      if hle : now ≤ ms + lockStaleAfterMs then
        isTrue fun ms' hms' => by rw [h] at hms'; exact Option.some.inj hms' ▸ hle
      else isFalse fun hf => hle (hf ms h)

instance : DecidablePred State.Refreshed := fun s =>
  inferInstanceAs (Decidable (∀ x ∈ s.sessions, x.phase = .holding → x.Fresh s.now))

/-- At most one session is between the return of `acquireLock` and `releaseLock`. -/
def State.Exclusive (s : State) : Prop :=
  ∀ (i j : Nat) (x y : Session), s.sessions[i]? = some x → s.sessions[j]? = some y →
    x.phase = .holding → y.phase = .holding → i = j

theorem State.exclusive_iff (s : State) : s.Exclusive ↔
    ∀ i < s.sessions.length, ∀ j < s.sessions.length,
      s.sessions[i]?.map Session.phase = some .holding →
      s.sessions[j]?.map Session.phase = some .holding → i = j := by
  constructor
  · intro h i _ j _ hi hj
    obtain ⟨x, hx, hpx⟩ := Option.map_eq_some_iff.mp hi
    obtain ⟨y, hy, hpy⟩ := Option.map_eq_some_iff.mp hj
    exact h i j x y hx hy hpx hpy
  · intro h i j x y hx hy hpx hpy
    refine h i (List.getElem?_eq_some_iff.mp hx).1 j (List.getElem?_eq_some_iff.mp hy).1 ?_ ?_
    · exact Option.map_eq_some_iff.mpr ⟨x, hx, hpx⟩
    · exact Option.map_eq_some_iff.mpr ⟨y, hy, hpy⟩

instance : DecidablePred State.Exclusive := fun s => decidable_of_iff' _ s.exclusive_iff

/-- The server executes a heartbeat or the release of the session. -/
def State.BeatsOrReleases (s : State) (i : Nat) : Action → Prop
  | .serveHeartbeat j _ => j = i
  | .serve j            =>
      j = i ∧ ∃ x owner, s.sessions[i]? = some x ∧ x.request = some (.release owner)
  | _                   => False

end MigrationLock
