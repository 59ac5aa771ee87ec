import Mathlib.Data.List.Infix
import Mathlib.Logic.Function.Basic

/-! # A broker and its links

    A broker sends what is published on a topic along every link that is subscribed to
    the topic.  A link carries commands to the broker and messages back, both first in,
    first out.

    * `Link.sent`, `Link.process` and `Link.receive` are what happens to a link;
    * `Listening` says what somebody on a link has got of a topic: nothing twice, all in
      order, and everything from a point on;
    * one rule for each of the three says that it stays so. -/

namespace Broker

variable {τ μ π : Type}

inductive Command (τ : Type) where
  | subscribe (topic : τ) (ticket : Nat)
  | unsubscribe (topics : List τ)
deriving DecidableEq

inductive Item (τ μ : Type) where
  | message (topic : τ) (text : μ)
  | confirmed (ticket : Nat)
deriving DecidableEq

structure Link (τ μ : Type) where
  /-- what is sent along it -/
  topics   : τ → Bool := fun _ => false
  /-- how much had been published before -/
  since    : τ → Nat := fun _ => 0
  commands : List (Command τ) := []
  stream   : List (Item τ μ) := []

namespace Link

variable (link : Link τ μ)

def sent (topic : τ) (text : μ) : Link τ μ :=
  if link.topics topic then { link with stream := link.stream ++ [.message topic text] } else link

/-- A command goes along the link. -/
def send (command : Command τ) : Link τ μ := { link with commands := link.commands ++ [command] }

def receive : Option (Item τ μ × Link τ μ) :=
  match link.stream with
  | []           => none
  | item :: rest => some (item, { link with stream := rest })

variable {link} {link' : Link τ μ} {t : τ}

@[simp] theorem send_topics (command : Command τ) : (link.send command).topics = link.topics := rfl

@[simp] theorem send_since (command : Command τ) : (link.send command).since = link.since := rfl

@[simp] theorem send_stream (command : Command τ) : (link.send command).stream = link.stream := rfl

@[simp] theorem sent_topics (text : μ) : (link.sent t text).topics = link.topics := by
  rw [sent]
  split <;> rfl

@[simp] theorem sent_since (text : μ) : (link.sent t text).since = link.since := by
  rw [sent]
  split <;> rfl

@[simp] theorem sent_commands (text : μ) : (link.sent t text).commands = link.commands := by
  rw [sent]
  split <;> rfl

theorem receive_cases {item : Item τ μ} (h : link.receive = some (item, link')) :
    link.stream = item :: link'.stream ∧ link' = { link with stream := link'.stream } := by
  rw [receive] at h
  split at h
  · cases h
  · rename_i first rest hstream
    cases h
    exact ⟨hstream, rfl⟩

end Link

/-! ## Topics that are open -/

def Command.ticket? : Command τ → Option Nat
  | .subscribe _ ticket => some ticket
  | .unsubscribe _      => none

def Item.ticket? : Item τ μ → Option Nat
  | .message _ _      => none
  | .confirmed ticket => some ticket

/-- The tickets that are under way, there or back. -/
def Link.tickets (link : Link τ μ) : List Nat :=
  link.stream.filterMap Item.ticket? ++ link.commands.filterMap Command.ticket?

/-- None of the commands closes the topic. -/
def Keeps (commands : List (Command τ)) (topic : τ) : Prop :=
  ∀ topics, Command.unsubscribe topics ∈ commands → topic ∉ topics

/-- The topic is open, or it will be when a command arrives whose ticket is still waited
    for; and nothing that is under way closes it after that. -/
def Link.Opens (link : Link τ μ) (topic : τ) (waiting : Nat → Prop) : Prop :=
  (link.topics topic = true ∧ Keeps link.commands topic) ∨
    ∃ before ticket after, link.commands = before ++ .subscribe topic ticket :: after ∧
      Keeps after topic ∧ waiting ticket

theorem Keeps.append {commands : List (Command τ)} {topic : τ} (h : Keeps commands topic)
    {command : Command τ} (hc : Keeps [command] topic) : Keeps (commands ++ [command]) topic := by
  intro topics hmem
  rcases List.mem_append.mp hmem with hmem | hmem
  · exact h topics hmem
  · exact hc topics hmem

theorem keeps_subscribe (topic t : τ) (ticket : Nat) : Keeps [.subscribe t ticket] topic := by
  intro topics hmem
  cases List.mem_singleton.mp hmem

section

variable {link link' : Link τ μ} {topic : τ} {waiting : Nat → Prop} {n : Nat}

theorem Link.Opens.send (h : link.Opens topic waiting) {command : Command τ}
    (hc : Keeps [command] topic) : (link.send command).Opens topic waiting := by
  rcases h with ⟨hon, hkeeps⟩ | ⟨before, ticket, after, hcommands, hkeeps, hwaiting⟩
  · exact .inl ⟨hon, hkeeps.append hc⟩
  · refine .inr ⟨before, ticket, after ++ [command], ?_, hkeeps.append hc, hwaiting⟩
    rw [Link.send, hcommands, List.append_assoc, List.cons_append]

/-- A topic is about to be opened. -/
theorem Link.opens_subscribe (link : Link τ μ) (topic : τ) {ticket : Nat} (h : waiting ticket) :
    (link.send (.subscribe topic ticket)).Opens topic waiting :=
  .inr ⟨link.commands, ticket, [], rfl, fun _ hmem => (List.not_mem_nil hmem).elim, h⟩

theorem Link.Opens.sent (h : link.Opens topic waiting) (t : τ) (text : μ) :
    (link.sent t text).Opens topic waiting := by
  rw [Link.Opens, link.sent_topics, link.sent_commands]
  exact h

theorem Link.Opens.receive (h : link.Opens topic waiting) {item : Item τ μ}
    (hr : link.receive = some (item, link')) : link'.Opens topic waiting := by
  rw [(Link.receive_cases hr).2]
  exact h

/-- Who waits may change, if nobody does whose command is under way. -/
theorem Link.Opens.mono (h : link.Opens topic waiting) {waiting' : Nat → Prop}
    (hw : ∀ ticket, Command.subscribe topic ticket ∈ link.commands → waiting ticket →
      waiting' ticket) : link.Opens topic waiting' := by
  rcases h with hopen | ⟨before, ticket, after, hcommands, hkeeps, hwaiting⟩
  · exact .inl hopen
  · refine .inr ⟨before, ticket, after, hcommands, hkeeps, hw ticket ?_ hwaiting⟩
    rw [hcommands]
    exact List.mem_append_right _ List.mem_cons_self

/-- The topic has been open for as long, and nothing that is under way closes it. -/
structure Link.Since (link : Link τ μ) (topic : τ) (n : Nat) : Prop where
  isOpen : link.topics topic = true
  keeps  : Keeps link.commands topic
  le     : link.since topic ≤ n

theorem Link.Since.sent (h : link.Since topic n) (t : τ) (text : μ) :
    (link.sent t text).Since topic n := by
  refine ⟨?_, ?_, ?_⟩
  · rw [link.sent_topics]
    exact h.isOpen
  · rw [link.sent_commands]
    exact h.keeps
  · rw [link.sent_since]
    exact h.le

theorem Link.Since.receive (h : link.Since topic n) {item : Item τ μ}
    (hr : link.receive = some (item, link')) : link'.Since topic n := by
  rw [(Link.receive_cases hr).2]
  exact ⟨h.isOpen, h.keeps, h.le⟩

theorem Link.Since.send (h : link.Since topic n) {command : Command τ}
    (hc : Keeps [command] topic) : (link.send command).Since topic n :=
  ⟨h.isOpen, h.keeps.append hc, h.le⟩

/-! ### Tickets -/

theorem Link.tickets_send (command : Command τ) :
    (link.send command).tickets = link.tickets ++ command.ticket?.toList := by
  rw [Link.tickets, Link.send, List.filterMap_append, ← List.append_assoc]
  cases command <;> rfl

theorem Link.tickets_sent (t : τ) (text : μ) : (link.sent t text).tickets = link.tickets := by
  rw [Link.tickets, link.sent_commands, Link.sent]
  split
  · rw [List.filterMap_append]
    show (_ ++ []) ++ _ = _
    rw [List.append_nil, Link.tickets]
  · rfl

theorem Link.tickets_receive {item : Item τ μ} (hr : link.receive = some (item, link')) :
    link.tickets = item.ticket?.toList ++ link'.tickets := by
  obtain ⟨hstream, hlink⟩ := Link.receive_cases hr
  have hcommands : link'.commands = link.commands := by rw [hlink]
  rw [Link.tickets, Link.tickets, hstream, hcommands, ← List.append_assoc]
  congr 1
  cases item <;> rfl

end

variable [DecidableEq τ]

/-- What has been published on a topic. -/
def published (log : List (τ × μ)) (topic : τ) : List μ :=
  log.filterMap fun p => if p.1 = topic then some p.2 else none

namespace Link

variable (link : Link τ μ)

/-- What is under way on a topic. -/
def coming (topic : τ) : List μ :=
  link.stream.filterMap fun
    | .message t text => if t = topic then some text else none
    | .confirmed _    => none

/-- The broker takes the next command. -/
def process (log : List (τ × μ)) : Option (Link τ μ) :=
  match link.commands with
  | []                              => none
  | .subscribe topic ticket :: rest =>
      some { topics   := Function.update link.topics topic true
             since    := if link.topics topic then link.since
                         else Function.update link.since topic (published log topic).length
             commands := rest
             stream   := link.stream ++ [.confirmed ticket] }
  | .unsubscribe topics :: rest     =>
      some { link with topics := fun t => link.topics t && !topics.contains t, commands := rest }

end Link

/-! ## What is published and what is under way -/

theorem published_append (log : List (τ × μ)) (topic t : τ) (text : μ) :
    published (log ++ [(t, text)]) topic
      = published log topic ++ if t = topic then [text] else [] := by
  rw [published, List.filterMap_append]
  congr 1
  by_cases h : t = topic
  · rw [if_pos h, List.filterMap_cons, if_pos h]
    rfl
  · rw [if_neg h, List.filterMap_cons, if_neg h]
    rfl

namespace Link

variable {link link' : Link τ μ} {topic t : τ} {log : List (τ × μ)}

theorem coming_append (item : Item τ μ) (hstream : link'.stream = link.stream ++ [item]) :
    link'.coming topic = link.coming topic ++ ({ stream := [item] } : Link τ μ).coming topic := by
  rw [coming, hstream, List.filterMap_append, coming, coming]

theorem coming_sent (text : μ) :
    (link.sent t text).coming topic
      = link.coming topic ++ if link.topics t = true ∧ t = topic then [text] else [] := by
  rw [sent]
  by_cases hsub : link.topics t = true
  · have hstream : ({ link with stream := link.stream ++ [.message t text] } : Link τ μ).stream
        = link.stream ++ [.message t text] := rfl
    rw [if_pos hsub, coming_append (.message t text) hstream]
    congr 1
    by_cases h : t = topic
    · rw [if_pos ⟨hsub, h⟩, coming, List.filterMap_cons]
      simp only [if_pos h]
      rfl
    · rw [if_neg fun hboth => h hboth.2, coming, List.filterMap_cons]
      simp only [if_neg h]
      rfl
  · rw [if_neg hsub, if_neg fun hboth => hsub hboth.1, List.append_nil]

/-- A command that is taken is the first one, and leaves what is under way. -/
theorem process_cases (h : link.process log = some link') :
    (∃ t ticket, link.commands = .subscribe t ticket :: link'.commands ∧
      link'.topics = Function.update link.topics t true ∧
      link'.since = (if link.topics t then link.since
        else Function.update link.since t (published log t).length) ∧
      link'.stream = link.stream ++ [.confirmed ticket]) ∨
    (∃ ts, link.commands = .unsubscribe ts :: link'.commands ∧
      link'.topics = (fun t => link.topics t && !ts.contains t) ∧ link'.since = link.since ∧
      link'.stream = link.stream) := by
  rw [process] at h
  split at h
  · cases h
  · rename_i t ticket rest hcommands
    cases h
    exact .inl ⟨t, ticket, hcommands, rfl, rfl, rfl⟩
  · rename_i ts rest hcommands
    cases h
    exact .inr ⟨ts, hcommands, rfl, rfl, rfl⟩

theorem process_coming (h : link.process log = some link') :
    link'.coming topic = link.coming topic := by
  rcases process_cases h with ⟨t, ticket, -, -, -, hstream⟩ | ⟨ts, -, -, -, hstream⟩
  · rw [coming_append (.confirmed ticket) hstream]
    exact List.append_nil _
  · rw [coming, hstream, coming]

/-- What has been received is no longer under way. -/
theorem coming_receive {item : Item τ μ} (h : link.receive = some (item, link')) :
    link.coming topic = ({ stream := [item] } : Link τ μ).coming topic ++ link'.coming topic := by
  rw [coming, (receive_cases h).1, ← List.singleton_append, List.filterMap_append]
  rfl

end Link

/-- What is under way was published, in this order. -/
structure Link.Sound (log : List (τ × μ)) (link : Link τ μ) : Prop where
  since_le : ∀ topic, link.since topic ≤ (published log topic).length
  coming   : ∀ topic, (link.coming topic).Sublist (published log topic)

section

variable {link link' : Link τ μ} {log : List (τ × μ)}

theorem Link.Sound.sent (h : link.Sound log) (t : τ) (text : μ) :
    (link.sent t text).Sound (log ++ [(t, text)]) := by
  refine ⟨fun topic => ?_, fun topic => ?_⟩
  · rw [link.sent_since, published_append, List.length_append]
    exact Nat.le_add_right_of_le (h.since_le topic)
  · rw [Link.coming_sent, published_append]
    refine (h.coming topic).append ?_
    split
    · next hboth => rw [if_pos hboth.2]
    · exact List.nil_sublist _

theorem Link.Sound.process (h : link.Sound log) (hp : link.process log = some link') :
    link'.Sound log := by
  refine ⟨fun topic => ?_, fun topic => Link.process_coming hp ▸ h.coming topic⟩
  rcases Link.process_cases hp with ⟨t, ticket, -, -, hsince, -⟩ | ⟨ts, -, -, hsince, -⟩
  · rw [hsince]
    split
    · exact h.since_le topic
    · by_cases ht : topic = t
      · rw [ht, Function.update_self]
      · rw [Function.update_of_ne ht]
        exact h.since_le topic
  · rw [hsince]
    exact h.since_le topic

theorem Link.Sound.receive (h : link.Sound log) {item : Item τ μ}
    (hr : link.receive = some (item, link')) : link'.Sound log := by
  refine ⟨fun topic => ?_, fun topic => ?_⟩
  · rw [(Link.receive_cases hr).2]
    exact h.since_le topic
  · exact (Link.coming_receive hr ▸ List.sublist_append_right _ _).trans (h.coming topic)

theorem Link.Sound.send (h : link.Sound log) (command : Command τ) :
    (link.send command).Sound log := ⟨h.since_le, h.coming⟩

end

/-! ## What a command does to topics and tickets -/

section

variable {link link' : Link τ μ} {log : List (τ × μ)} {topic : τ} {waiting : Nat → Prop}

theorem Link.Opens.process (h : link.Opens topic waiting) (hp : link.process log = some link') :
    link'.Opens topic waiting := by
  rcases Link.process_cases hp with
    ⟨t, ticket, hcommands, htopics, -, -⟩ | ⟨ts, hcommands, htopics, -, -⟩
  · have hstays : link.topics topic = true → link'.topics topic = true := by
      intro hon
      rw [htopics]
      by_cases ht : topic = t
      · rw [ht, Function.update_self]
      · rwa [Function.update_of_ne ht]
    rcases h with ⟨hon, hkeeps⟩ | ⟨before, ticket', after, hsplit, hkeeps, hwaiting⟩
    · refine .inl ⟨hstays hon, fun topics hmem => hkeeps topics ?_⟩
      rw [hcommands]
      exact List.mem_cons_of_mem _ hmem
    · rw [hcommands] at hsplit
      cases before with
      | nil =>
          -- it is the command that has been waited for
          obtain ⟨hhead, hrest⟩ := List.cons.inj hsplit
          cases hhead
          refine .inl ⟨by rw [htopics, Function.update_self], ?_⟩
          rw [hrest]
          exact hkeeps
      | cons c before =>
          obtain ⟨-, hrest⟩ := List.cons.inj hsplit
          exact .inr ⟨before, ticket', after, hrest, hkeeps, hwaiting⟩
  · rcases h with ⟨hon, hkeeps⟩ | ⟨before, ticket', after, hsplit, hkeeps, hwaiting⟩
    · have hother : topic ∉ ts := hkeeps ts (by rw [hcommands]; exact List.mem_cons_self)
      refine .inl ⟨?_, fun topics hmem => hkeeps topics ?_⟩
      · rw [htopics]
        simp [hon, hother]
      · rw [hcommands]
        exact List.mem_cons_of_mem _ hmem
    · rw [hcommands] at hsplit
      cases before with
      | nil => cases (List.cons.inj hsplit).1
      | cons c before =>
          obtain ⟨-, hrest⟩ := List.cons.inj hsplit
          exact .inr ⟨before, ticket', after, hrest, hkeeps, hwaiting⟩

/-- A ticket that has arrived is on its way back. -/
theorem Link.tickets_process (hp : link.process log = some link') :
    link'.tickets = link.tickets := by
  rcases Link.process_cases hp with
    ⟨t, ticket, hcommands, -, -, hstream⟩ | ⟨ts, hcommands, -, -, hstream⟩
  · rw [Link.tickets, Link.tickets, hcommands, hstream, List.filterMap_append, List.append_assoc]
    rfl
  · rw [Link.tickets, Link.tickets, hcommands, hstream]
    rfl

theorem Link.Since.process {n : Nat} (h : link.Since topic n) (hp : link.process log = some link') :
    link'.Since topic n := by
  have hopens : link.Opens topic fun _ => False := .inl ⟨h.isOpen, h.keeps⟩
  rcases hopens.process hp with ⟨hon, hkeeps⟩ | ⟨_, _, _, -, -, hfalse⟩
  · refine ⟨hon, hkeeps, ?_⟩
    rcases Link.process_cases hp with ⟨t, _, -, -, hsince, -⟩ | ⟨_, -, -, hsince, -⟩
    · rw [hsince]
      split
      · exact h.le
      · next hoff =>
        -- what is opened now is another topic
        rw [Function.update_of_ne (by rintro rfl; exact hoff h.isOpen)]
        exact h.le
    · rw [hsince]
      exact h.le
  · exact hfalse.elim

end

/-! ## Listening -/

/-- With what is under way, somebody gets all messages of a topic but the first `n`, after
    some of these. -/
def GetsFrom (read : μ → Option π) (log : List (τ × μ)) (link : Link τ μ) (topic : τ) (n : Nat)
    (got : List π) : Prop :=
  ∃ early : List π, early.Sublist (((published log topic).take n).filterMap read) ∧
    got ++ (link.coming topic).filterMap read
      = early ++ ((published log topic).drop n).filterMap read

/-- What somebody has got of a topic, who has listened since a number of messages, with
    what is under way: each message at most once and in order, and all of them from
    there on. -/
structure Listening (read : μ → Option π) (log : List (τ × μ)) (link : Link τ μ) (topic : τ)
    (returned : Nat) (got : List π) : Prop where
  returned_le : returned ≤ (published log topic).length
  since_le    : link.since topic ≤ (published log topic).length
  inOrder     : (got ++ (link.coming topic).filterMap read).Sublist
    ((published log topic).filterMap read)
  complete    : link.topics topic = true →
    GetsFrom read log link topic (max returned (link.since topic)) got

variable {read : μ → Option π} {log : List (τ × μ)} {link link' : Link τ μ} {topic : τ}
  {returned : Nat} {got : List π}

/-- Who begins to listen. -/
theorem Listening.start (h : link.Sound log) :
    Listening read log link topic (published log topic).length [] where
  returned_le := Nat.le_refl _
  since_le    := h.since_le topic
  inOrder     := (h.coming topic).filterMap read
  complete    := fun _ => by
    refine ⟨(link.coming topic).filterMap read, ?_, ?_⟩
    · rw [Nat.max_eq_left (h.since_le topic), List.take_length]
      exact (h.coming topic).filterMap read
    · rw [Nat.max_eq_left (h.since_le topic), List.drop_length]
      exact (List.append_nil _).symm

/-- The rule for a message that is published. -/
theorem Listening.sent (h : Listening read log link topic returned got) (t : τ) (text : μ) :
    Listening read (log ++ [(t, text)]) (link.sent t text) topic returned got := by
  have hlen : (published log topic).length ≤ (published (log ++ [(t, text)]) topic).length := by
    rw [published_append, List.length_append]
    exact Nat.le_add_right _ _
  have hmax : max returned (link.since topic) ≤ (published log topic).length :=
    Nat.max_le.mpr ⟨h.returned_le, h.since_le⟩
  refine ⟨h.returned_le.trans hlen, (link.sent_since text ▸ h.since_le).trans hlen, ?_, ?_⟩
  · rw [Link.coming_sent, published_append, List.filterMap_append, List.filterMap_append,
      ← List.append_assoc]
    refine h.inOrder.append (List.Sublist.filterMap read ?_)
    split
    · next hboth => rw [if_pos hboth.2]
    · exact List.nil_sublist _
  · intro htopic
    rw [link.sent_topics] at htopic
    obtain ⟨early, hearly, hgot⟩ := h.complete htopic
    refine ⟨early, ?_, ?_⟩
    · rw [link.sent_since, published_append, List.take_append_of_le_length hmax]
      exact hearly
    · rw [link.sent_since, published_append, List.drop_append_of_le_length hmax,
        List.filterMap_append, ← List.append_assoc, ← hgot, Link.coming_sent, List.filterMap_append,
        List.append_assoc]
      congr 3
      by_cases ht : t = topic
      · rw [if_pos ht, if_pos ⟨ht ▸ htopic, ht⟩]
      · rw [if_neg ht, if_neg fun hboth => ht hboth.2]

/-- The rule for a command that the broker takes. -/
theorem Listening.process (h : Listening read log link topic returned got)
    (hp : link.process log = some link') : Listening read log link' topic returned got := by
  have hcoming : link'.coming topic = link.coming topic := Link.process_coming hp
  have hinOrder := hcoming ▸ h.inOrder
  rcases Link.process_cases hp with ⟨t, ticket, -, htopics, hsince, -⟩ | ⟨ts, -, htopics, hsince, -⟩
  · by_cases hkeep : t = topic ∧ link.topics t = false
    · -- from here on: all that was published is early
      obtain ⟨rfl, hoff⟩ := hkeep
      have hnow : link'.since t = (published log t).length := by
        rw [hsince, if_neg (by rw [hoff]; exact Bool.false_ne_true), Function.update_self]
      refine ⟨h.returned_le, hnow.le, hinOrder, fun _ =>
        ⟨got ++ (link'.coming t).filterMap read, ?_, ?_⟩⟩
      · rw [hnow, Nat.max_eq_right h.returned_le, List.take_length]
        exact hinOrder
      · rw [hnow, Nat.max_eq_right h.returned_le, List.drop_length]
        exact (List.append_nil _).symm
    · have hsame : link'.since topic = link.since topic ∧
          link'.topics topic = link.topics topic := by
        by_cases ht : t = topic
        · have hon : link.topics t = true := by
            cases hon : link.topics t with
            | true => rfl
            | false => exact absurd ⟨ht, hon⟩ hkeep
          rw [hsince, if_pos hon, htopics, ← ht, Function.update_self]
          exact ⟨rfl, hon.symm⟩
        · rw [hsince, htopics, Function.update_of_ne (Ne.symm ht)]
          refine ⟨?_, rfl⟩
          split
          · rfl
          · exact Function.update_of_ne (Ne.symm ht) _ _
      refine ⟨h.returned_le, hsame.1 ▸ h.since_le, hinOrder, fun htopic => ?_⟩
      rw [hsame.1, GetsFrom, hcoming]
      exact h.complete (hsame.2 ▸ htopic)
  · refine ⟨h.returned_le, hsince ▸ h.since_le, hinOrder, fun htopic => ?_⟩
    rw [hsince, GetsFrom, hcoming]
    rw [htopics] at htopic
    exact h.complete (Bool.and_eq_true_iff.mp htopic).1

/-- What is read of an item on a topic. -/
def reads (read : μ → Option π) (topic : τ) : Item τ μ → List π
  | .message t text => if t = topic then (read text).toList else []
  | .confirmed _    => []

/-- The rule for an item that is received: who listens gets what is read of it. -/
theorem Listening.receive (h : Listening read log link topic returned got) {item : Item τ μ}
    (hr : link.receive = some (item, link')) :
    Listening read log link' topic returned (got ++ reads read topic item) := by
  have hreads : (({ stream := [item] } : Link τ μ).coming topic).filterMap read
      = reads read topic item := by
    cases item with
    | confirmed ticket => rfl
    | message t text =>
        rw [reads, Link.coming, List.filterMap_cons]
        by_cases ht : t = topic
        · simp only [if_pos ht]
          cases hread : read text with
          | none => exact List.filterMap_cons_none hread
          | some p => exact List.filterMap_cons_some hread
        · simp only [if_neg ht]
          rfl
  have hsplit : (link.coming topic).filterMap read
      = reads read topic item ++ (link'.coming topic).filterMap read := by
    rw [Link.coming_receive hr, List.filterMap_append, hreads]
  have hinOrder := h.inOrder
  have hcomplete := h.complete
  rw [hsplit, ← List.append_assoc] at hinOrder
  rw [GetsFrom, hsplit, ← List.append_assoc] at hcomplete
  have hlink := (Link.receive_cases hr).2
  rw [hlink] at hinOrder hcomplete ⊢
  exact ⟨h.returned_le, h.since_le, hinOrder, hcomplete⟩

/-- A command that is sent changes nothing yet. -/
theorem Listening.send (h : Listening read log link topic returned got) (command : Command τ) :
    Listening read log (link.send command) topic returned got :=
  ⟨h.returned_le, h.since_le, h.inOrder, h.complete⟩

end Broker
