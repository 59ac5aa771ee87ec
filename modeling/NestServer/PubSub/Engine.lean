import NestServer.Broker
import NestServer.OrderedMap
import NestServer.Runs

/-! # Subscriptions over Redis

    `core-redis-pubsub.ts`: one engine in each process, over the subscriber connection of
    the process.  Redis takes the commands of a connection in order, and the connection
    does not break; what it sends takes any time to arrive. -/

namespace CoreRedisPubSub

open Broker

/-- One handler: its place among all of them is its id. -/
structure Subscription (π : Type) where
  channel  : String
  /-- in `subscriptions` -/
  live     : Bool := true
  /-- how much had been published on the channel when `subscribe` returned -/
  returned : Nat
  /-- `subscribe` returned while the first call for the channel was under way -/
  joined   : Bool
  /-- what the handler was called with -/
  got      : List π := []
deriving DecidableEq

inductive Phase where
  /-- for Redis to answer -/
  | waiting
  | confirmed
  | over
deriving DecidableEq

/-- A call of `subscribe` that was the first one for its channel: its place is the ticket
    of its command. -/
structure Call where
  channel         : String
  /-- the map that it put at the channel -/
  channelHandlers : Nat
  phase           : Phase := .waiting
deriving DecidableEq

structure Engine (π : Type) where
  link          : Link String String := {}
  /-- the `messageListener` is attached -/
  listening     : Bool := false
  handlers      : OrderedMap String Nat := .empty
  /-- the maps of handlers that were ever made -/
  maps          : List (List Nat) := []
  subscriptions : List (Subscription π) := []
  calls         : List Call := []

def Call.pending (call : Call) : Bool := call.phase ≠ .over

/-- `redisService.key('pubsub', triggerName)` -/
def channel (keyPrefix triggerName : String) : String :=
  ":".intercalate [keyPrefix, "pubsub", triggerName]

namespace Engine

variable {π : Type} (e : Engine π)

/-- A call for the channel awaits Redis, or has not gone on. -/
def pendingAt (channel : String) : Bool :=
  e.calls.any fun call => call.pending && call.channel = channel

/-- `channelHandlers.set(subId, onMessage)`, on a map that may no longer be at the channel. -/
def register (channel : String) (channelHandlers published : Nat) (joined : Bool) : Engine π :=
  { e with
    maps          := e.maps.modify channelHandlers fun ids => ids ++ [e.subscriptions.length]
    subscriptions := e.subscriptions ++
      [{ channel := channel, returned := published, joined := joined }] }

def subscribe (channel : String) (published : Nat) : Engine π :=
  match e.handlers.get? channel with
  | some channelHandlers => e.register channel channelHandlers published (e.pendingAt channel)
  | none                 =>
      { e with
        listening := true
        handlers  := e.handlers.set channel e.maps.length
        maps      := e.maps ++ [[]]
        calls     := e.calls ++ [{ channel := channel, channelHandlers := e.maps.length }]
        link      := e.link.send (.subscribe channel e.calls.length) }

/-- Redis answers a call. -/
def confirm (ticket : Nat) : Engine π :=
  { e with calls := e.calls.modify ticket fun call =>
      match call.phase with
      | .waiting => { call with phase := .confirmed }
      | _        => call }

/-- The command fails, or takes too long. -/
def reject (i : Nat) : Option (Engine π) :=
  match e.calls[i]? with
  | none      => none
  | some call =>
      if call.phase = .waiting then
        some { e with
          handlers := e.handlers.delete call.channel
          calls    := e.calls.set i { call with phase := .over } }
      else none

/-- What `subscribe` does after the `await`. -/
def resume (i : Nat) (published : String → Nat) : Option (Engine π) :=
  match e.calls[i]? with
  | none      => none
  | some call =>
      if call.phase = .confirmed then
        some ({ e with calls := e.calls.set i { call with phase := .over } }.register call.channel
          call.channelHandlers (published call.channel) false)
      else none

def unsubscribe (subId : Nat) : Engine π :=
  match e.subscriptions[subId]? with
  | none     => e
  | some sub =>
      if !sub.live then e
      else
        let e := { e with subscriptions := e.subscriptions.set subId { sub with live := false } }
        match e.handlers.get? sub.channel with
        | none                 => e
        | some channelHandlers =>
            let e := { e with maps := e.maps.modify channelHandlers fun ids => ids.erase subId }
            if e.maps[channelHandlers]? = some [] then
              { e with
                listening := true
                handlers  := e.handlers.delete sub.channel
                link      := e.link.send (.unsubscribe [sub.channel]) }
            else e

/-- `for (const handler of channelHandlers.values()) handler(payload)` -/
def deliver (payload : π) (ids : List Nat) (subscriptions : List (Subscription π)) :
    List (Subscription π) :=
  ids.foldl (fun subscriptions id =>
    subscriptions.modify id fun sub => { sub with got := sub.got ++ [payload] }) subscriptions

/-- `read` is `JSON.parse(message, reviveDates)`. -/
def dispatch (read : String → Option π) (channel message : String) : Engine π :=
  match e.handlers.get? channel with
  | none                 => e
  | some channelHandlers =>
      match e.maps[channelHandlers]?, read message with
      | some ids, some payload =>
          { e with subscriptions := deliver payload ids e.subscriptions }
      | _, _                   => e

/-- The next item of the connection. -/
def receive (read : String → Option π) : Option (Engine π) :=
  match e.link.receive with
  | none              => none
  | some (item, link) =>
      let e := { e with link := link }
      match item with
      | .confirmed ticket      => some (e.confirm ticket)
      | .message channel text  => some (if e.listening then e.dispatch read channel text else e)

def onModuleDestroy : Engine π :=
  let channels := e.handlers.entries.map Prod.fst
  let e := { e with
    handlers      := .empty
    subscriptions := e.subscriptions.map fun sub => { sub with live := false }
    listening     := false }
  if channels = [] then e else { e with link := e.link.send (.unsubscribe channels) }

end Engine

/-! ## All replicas -/

structure State (π : Type) where
  /-- what Redis has taken, in order -/
  log     : List (String × String) := []
  engines : List (Engine π)

inductive Event where
  /-- Redis takes a message, from a replica or from elsewhere -/
  | publish (channel message : String)
  /-- Redis takes the next command of a connection -/
  | processes (engine : Nat)
  | receives (engine : Nat)
  | subscribe (engine : Nat) (channel : String)
  | rejects (engine call : Nat)
  | resumes (engine call : Nat)
  | unsubscribe (engine subId : Nat)
  | onModuleDestroy (engine : Nat)
deriving DecidableEq

namespace State

variable {π : Type} (s : State π)

/-- What happens in one engine. -/
def within (i : Nat) (f : Engine π → Option (Engine π)) : Option (State π) :=
  s.engines[i]?.bind fun e => (f e).map fun e => { s with engines := s.engines.set i e }

def step (read : String → Option π) (s : State π) : Event → Option (State π)
  | .publish channel message =>
      some { log     := s.log ++ [(channel, message)]
             engines := s.engines.map fun e => { e with link := e.link.sent channel message } }
  | .processes i             =>
      s.within i fun e => (e.link.process s.log).map fun link => { e with link := link }
  | .receives i              => s.within i fun e => e.receive read
  | .subscribe i channel     =>
      s.within i fun e => some (e.subscribe channel (published s.log channel).length)
  | .rejects i call          => s.within i fun e => e.reject call
  | .resumes i call          =>
      s.within i fun e => e.resume call fun channel => (published s.log channel).length
  | .unsubscribe i subId     => s.within i fun e => some (e.unsubscribe subId)
  | .onModuleDestroy i       => s.within i fun e => some e.onModuleDestroy

/-- `n` replicas that have just started. -/
def boot (n : Nat) : State π := { engines := List.replicate n {} }

end State

end CoreRedisPubSub
