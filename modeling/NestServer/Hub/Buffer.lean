import Mathlib.Algebra.Order.Ring.Rat
import Mathlib.Data.Rat.Floor
import NestServer.Runs

/-! # Buffers of the Hub

    `hub-ring-buffer.ts` and `hub-buffer.ts`: the last entries of a process, and the
    list in Redis that all replicas write to. -/

namespace Hub

structure HubBufferEntry (α : Type) where
  seq       : Int
  timestamp : Int
  data      : α
deriving DecidableEq, Repr

/-- What is added: the sequence number is not given. -/
structure NewEntry (α : Type) where
  timestamp : Option Int := none
  data      : α

structure HubBufferData (α : Type) where
  cursor  : Int
  dropped : Int
  entries : List (HubBufferEntry α)
deriving DecidableEq, Repr

/-- `Math.max(1, Math.floor(capacity))` -/
def capacityOf (capacity : ℚ) : Nat := (max 1 (Rat.floor capacity)).toNat

/-! ## The ring buffer -/

structure HubRingBuffer (capacity : Nat) (α : Type) where
  minValidSeq : Nat := 0
  nextSeq     : Nat := 0
  slots       : Nat → Option (HubBufferEntry α) := fun _ => none

namespace HubRingBuffer

variable {capacity : Nat} {α : Type} (b : HubRingBuffer capacity α)

def oldestSeq : Nat := max (b.nextSeq - capacity) b.minValidSeq

def size : Nat := b.nextSeq - b.oldestSeq

def firstRetainedSeq : Int := if b.size = 0 then -1 else b.oldestSeq

def lastSeq : Int := b.nextSeq - 1

def add (entry : NewEntry α) (now : Int) : HubBufferEntry α × HubRingBuffer capacity α :=
  let full := { seq := b.nextSeq, timestamp := entry.timestamp.getD now, data := entry.data }
  (full, { b with
    slots   := fun i => if i = b.nextSeq % capacity then some full else b.slots i
    nextSeq := b.nextSeq + 1 })

def clear : HubRingBuffer capacity α := { b with slots := fun _ => none, minValidSeq := b.nextSeq }

def collect (startSeq : Int) : List (HubBufferEntry α) :=
  let first := (max startSeq (max b.oldestSeq 0)).toNat
  (List.range' first (b.nextSeq - first)).filterMap fun seq =>
    (b.slots (seq % capacity)).filter fun entry => entry.seq = seq

def recent (limit : Option Int) : List (HubBufferEntry α) :=
  b.collect (b.nextSeq - max 0 (limit.getD capacity))

def since (sinceSeq : Int) (limit : Option Int) : List (HubBufferEntry α) :=
  b.collect (max (sinceSeq + 1) (b.nextSeq - max 0 (limit.getD capacity)))

/-- `read` without Redis. -/
def read (since : Option Int) (limit : Option Int) : HubBufferData α where
  cursor  := b.lastSeq
  dropped := b.firstRetainedSeq
  entries := since.elim (b.recent limit) fun sinceSeq => b.since sinceSeq limit

end HubRingBuffer

/-! ## The shared list -/

/-- The counter and the list in Redis, newest first. -/
structure SharedList (α : Type) where
  total : Nat := 0
  list  : List (HubBufferEntry α) := []

/-- What a replica sends. -/
inductive Mirror (α : Type) where
  | append (full : HubBufferEntry α)
  | clear

namespace SharedList

variable {α : Type} (s : SharedList α)

/-- `INCR`, `LPUSH` and `LTRIM` in one, or `DEL` -/
def apply (capacity : Nat) : Mirror α → SharedList α
  | .append full => { total := s.total + 1, list := (full :: s.list).take capacity }
  | .clear       => { s with list := [] }

end SharedList

def SHARED_READ_CHUNK : Int := 64

/-- What one round of a read does. -/
inductive Round (α : Type) where
  | answer (data : HubBufferData α)
  | widen (want : Int)

section Read

variable {α : Type} (capacity : Nat) (since limit : Option Int)

def cap : Int := min (limit.getD capacity) capacity

def firstWant : Int :=
  max 1 (if since.isNone then cap capacity limit else min (cap capacity limit) SHARED_READ_CHUNK)

def needed (total : Nat) : Int :=
  since.elim (cap capacity limit) fun sinceSeq =>
    max 0 (min (cap capacity limit) (total - 1 - sinceSeq))

/-- `{ ...JSON.parse(raw[i]), seq: total - 1 - i }` for the first ones, oldest first. -/
def shape (total : Nat) (raw : List (HubBufferEntry α)) (needed : Int) : HubBufferData α where
  cursor  := total - 1
  dropped := if raw.length ≠ 0 then total - raw.length else -1
  entries := ((raw.take needed.toNat).zipIdx.map fun e =>
    { e.1 with seq := total - 1 - e.2 }).reverse

/-- One `MULTI` of `readShared`, and what it leads to. -/
def readRound (want : Int) (attempt : Nat) (s : SharedList α) : Round α :=
  let raw := s.list.take want.toNat
  let needed := needed capacity since limit s.total
  if needed ≤ raw.length ∨ raw.length < want ∨ 2 ≤ attempt then .answer (shape s.total raw needed)
  else .widen (min (max needed (want * 4)) capacity)

end Read

/-! ## One reader -/

/-- A poll, and what it answered. -/
structure Poll (α : Type) where
  since : Option Int
  data  : HubBufferData α

/-- All that was ever added, and the polls. -/
structure History (α : Type) where
  log    : List (HubBufferEntry α) := []
  cursor : Option Int := none
  polls  : List (Poll α) := []

def History.added {α : Type} (h : History α) (full : HubBufferEntry α) : History α :=
  { h with log := h.log ++ [{ full with seq := h.log.length }] }

/-- The cursor is fed back. -/
def History.answered {α : Type} (h : History α) (data : HubBufferData α) : History α :=
  { h with cursor := some data.cursor, polls := h.polls ++ [{ since := h.cursor, data := data }] }

/-! ## One process -/

inductive LocalEvent (α : Type) where
  | add (entry : NewEntry α) (now : Int)
  | clear
  | poll

structure LocalState (capacity : Nat) (α : Type) where
  buffer  : HubRingBuffer capacity α := {}
  history : History α := {}

def LocalState.step {capacity : Nat} {α : Type} (s : LocalState capacity α) :
    LocalEvent α → Option (LocalState capacity α)
  | .add entry now =>
      let (full, buffer) := s.buffer.add entry now
      some { s with buffer := buffer, history := s.history.added full }
  | .clear         => some { s with buffer := s.buffer.clear }
  | .poll          =>
      some { s with history := s.history.answered (s.buffer.read s.history.cursor none) }

/-! ## Many replicas -/

inductive SharedEvent (α : Type) where
  | add (replica : Nat) (entry : NewEntry α) (now : Int)
  | clear (replica : Nat)
  /-- what a replica has sent gets to Redis -/
  | arrives (i : Nat)
  /-- the time of the list is over -/
  | expires
  | poll
  | round

structure SharedState (capacity : Nat) (α : Type) where
  replicas : Nat → HubRingBuffer capacity α := fun _ => {}
  sent     : List (Mirror α) := []
  shared   : SharedList α := {}
  /-- the range and the number of the round that is next -/
  reading  : Option (Int × Nat) := none
  history  : History α := {}

namespace SharedState

variable {capacity : Nat} {α : Type} (s : SharedState capacity α)

def update (replica : Nat) (buffer : HubRingBuffer capacity α) (mirror : Mirror α) :
    SharedState capacity α :=
  { s with
    replicas := fun r => if r = replica then buffer else s.replicas r
    sent     := s.sent ++ [mirror] }

def applied : Mirror α → SharedState capacity α
  | .append full => { s with
      shared := s.shared.apply capacity (.append full), history := s.history.added full }
  | .clear       => { s with shared := s.shared.apply capacity .clear }

def step : SharedEvent α → Option (SharedState capacity α)
  | .add replica entry now =>
      let (full, buffer) := (s.replicas replica).add entry now
      some (s.update replica buffer (.append full))
  | .clear replica         => some (s.update replica (s.replicas replica).clear .clear)
  | .arrives i             =>
      s.sent[i]?.map fun mirror => { s.applied mirror with sent := s.sent.eraseIdx i }
  | .expires               => some { s with shared := { s.shared with list := [] } }
  | .poll                  =>
      match s.reading with
      | none   => some { s with reading := some (firstWant capacity s.history.cursor none, 0) }
      | some _ => none
  | .round                 =>
      s.reading.map fun (want, attempt) =>
        match readRound capacity s.history.cursor none want attempt s.shared with
        | .answer data => { s with reading := none, history := s.history.answered data }
        | .widen want  => { s with reading := some (want, attempt + 1) }

end SharedState

end Hub
