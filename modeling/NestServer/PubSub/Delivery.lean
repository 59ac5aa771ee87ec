import NestServer.PubSub.Engine

/-! # Delivery of subscriptions

    A call of `subscribe` that awaits Redis holds a map of handlers.  As long as that map
    stays at its channel, whoever has subscribed is called with every message, once and in
    order. -/

namespace CoreRedisPubSub

open Broker

variable {π : Type}

namespace Engine

variable (e : Engine π)

def liveAt (channel : String) : List (Subscription π) :=
  e.subscriptions.filter fun sub => sub.live && sub.channel = channel

/-! ## The maps -/

/-- The channels and the live subscriptions are in the maps, and the calls hold theirs. -/
structure Registry : Prop where
  exact    : ∀ {channel m}, e.handlers.get? channel = some m → ∃ ids, e.maps[m]? = some ids ∧
    ids.Nodup ∧ ∀ i, i ∈ ids ↔ ∃ sub, e.subscriptions[i]? = some sub ∧ sub.live = true ∧
      sub.channel = channel
  own      : ∀ {channel channel' m}, e.handlers.get? channel = some m →
    e.handlers.get? channel' = some m → channel = channel'
  attached : ∀ {i : Nat} {sub}, e.subscriptions[i]? = some sub → sub.live = true →
    ∃ m, e.handlers.get? sub.channel = some m
  pending  : ∀ {i : Nat} {call}, e.calls[i]? = some call → call.phase ≠ .over →
    e.handlers.get? call.channel = some call.channelHandlers
  single   : ∀ {i j : Nat} {call call'}, e.calls[i]? = some call → e.calls[j]? = some call' →
    call.phase ≠ .over → call'.phase ≠ .over → call.channel = call'.channel → i = j
  listens  : ∀ {channel m}, e.handlers.get? channel = some m → e.listening = true

variable {e}

theorem Registry.lt (h : e.Registry) {channel : String} {m : Nat}
    (hm : e.handlers.get? channel = some m) : m < e.maps.length := by
  obtain ⟨ids, hids, -⟩ := h.exact hm
  exact (List.getElem?_eq_some_iff.mp hids).1

theorem registry_boot : (({} : Engine π)).Registry where
  exact    := by rintro channel m ⟨⟩
  own      := by rintro channel channel' m ⟨⟩
  attached := by rintro i sub ⟨⟩
  pending  := by rintro i call ⟨⟩
  single   := by rintro i j call call' ⟨⟩
  listens  := by rintro channel m ⟨⟩

/-- The map at a channel is another one than the one that changes. -/
theorem modify_other {maps : List (List Nat)} {m m' : Nat} {f : List Nat → List Nat}
    (h : m ≠ m') : (maps.modify m f)[m']? = maps[m']? := List.getElem?_modify_ne f maps h

/-- What the elements are after one more. -/
theorem exists_concat_iff {α : Type} {l : List α} {a : α} {i : Nat} {P : α → Prop} :
    (∃ b, (l ++ [a])[i]? = some b ∧ P b) ↔
      (∃ b, l[i]? = some b ∧ P b) ∨ (i = l.length ∧ P a) := by
  constructor
  · rintro ⟨b, hb, hP⟩
    rcases Runs.getElem?_append_cases hb with hold | ⟨hi, rfl⟩
    · exact .inl ⟨b, hold, hP⟩
    · exact .inr ⟨hi, hP⟩
  · rintro (⟨b, hb, hP⟩ | ⟨rfl, hP⟩)
    · exact ⟨b, (List.getElem?_append_left (List.getElem?_eq_some_iff.mp hb).1).trans hb, hP⟩
    · exact ⟨a, List.getElem?_concat_length, hP⟩

/-- A handler joins the map at its channel. -/
theorem Registry.register (h : e.Registry) {channel : String} {m : Nat}
    (hm : e.handlers.get? channel = some m) (published : Nat) (joined : Bool) :
    (e.register channel m published joined).Registry where
  exact := by
    intro c m' hm'
    obtain ⟨ids, hids, hnodup, hexact⟩ := h.exact hm'
    by_cases hc : m = m'
    · subst hc
      obtain rfl := h.own hm hm'
      have hfresh : e.subscriptions.length ∉ ids := by
        intro hmem
        obtain ⟨sub, hsub, -⟩ := (hexact _).mp hmem
        exact absurd (List.getElem?_eq_some_iff.mp hsub).1 (Nat.lt_irrefl _)
      refine ⟨ids ++ [e.subscriptions.length], ?_, ?_, fun i => ?_⟩
      · show (e.maps.modify m _)[m]? = _
        rw [List.getElem?_modify_eq, hids]
        rfl
      · refine List.nodup_append.mpr ⟨hnodup, List.nodup_singleton _, ?_⟩
        rintro a ha b hb rfl
        exact hfresh (List.mem_singleton.mp hb ▸ ha)
      · rw [List.mem_append, hexact, List.mem_singleton, Engine.register, exists_concat_iff]
        exact or_congr_right (and_iff_left ⟨rfl, rfl⟩).symm
    · have hne : channel ≠ c := by
        rintro rfl
        exact hc (Option.some.inj (hm.symm.trans hm'))
      refine ⟨ids, (modify_other hc).trans hids, hnodup, fun i => ?_⟩
      rw [hexact, Engine.register, exists_concat_iff]
      exact (or_iff_left fun hnew => hne hnew.2.2).symm
  own := h.own
  attached := by
    intro i sub hsub hlive
    rcases Runs.getElem?_append_cases hsub with hold | ⟨-, rfl⟩
    · exact h.attached hold hlive
    · exact ⟨m, hm⟩
  pending := h.pending
  single := h.single
  listens := h.listens

/-- A channel gets a new map, and a call that holds it. -/
theorem Registry.subscribe (h : e.Registry) (channel : String) (published : Nat) :
    (e.subscribe channel published).Registry := by
  rw [Engine.subscribe]
  split
  · next m hm => exact h.register hm published _
  · next hnone =>
    have hother : ∀ {c m}, (e.handlers.set channel e.maps.length).get? c = some m →
        (c = channel ∧ m = e.maps.length) ∨ (c ≠ channel ∧ e.handlers.get? c = some m) := by
      intro c m hm
      by_cases hc : c = channel
      · rw [hc, OrderedMap.get?_set_self] at hm
        exact .inl ⟨hc, (Option.some.inj hm).symm⟩
      · rw [OrderedMap.get?_set_of_ne _ _ hc] at hm
        exact .inr ⟨hc, hm⟩
    have hidle : ∀ {i : Nat} {call}, e.calls[i]? = some call → call.phase ≠ .over →
        call.channel ≠ channel := by
      rintro i call hcall hphase rfl
      rw [h.pending hcall hphase] at hnone
      cases hnone
    refine ⟨?_, ?_, ?_, ?_, ?_, fun _ => rfl⟩
    · intro c m hm
      rcases hother hm with ⟨rfl, rfl⟩ | ⟨hc, hm⟩
      · refine ⟨[], List.getElem?_concat_length, List.nodup_nil, fun i => ?_⟩
        refine iff_of_false List.not_mem_nil ?_
        rintro ⟨sub, hsub, hlive, rfl⟩
        obtain ⟨m, hm⟩ := h.attached hsub hlive
        rw [hnone] at hm
        cases hm
      · obtain ⟨ids, hids, hrest⟩ := h.exact hm
        refine ⟨ids, ?_, hrest⟩
        rw [List.getElem?_append_left (List.getElem?_eq_some_iff.mp hids).1]
        exact hids
    · intro c c' m hm hm'
      rcases hother hm with ⟨rfl, rfl⟩ | ⟨hc, hm⟩
      · rcases hother hm' with ⟨rfl, -⟩ | ⟨-, hm'⟩
        · rfl
        · exact absurd (h.lt hm') (Nat.lt_irrefl _)
      · rcases hother hm' with ⟨-, rfl⟩ | ⟨-, hm'⟩
        · exact absurd (h.lt hm) (Nat.lt_irrefl _)
        · exact h.own hm hm'
    · intro i sub hsub hlive
      obtain ⟨m, hm⟩ := h.attached hsub hlive
      refine ⟨m, ?_⟩
      rw [OrderedMap.get?_set_of_ne _ _ (by rintro rfl; rw [hnone] at hm; cases hm)]
      exact hm
    · intro i call hcall hphase
      rcases Runs.getElem?_append_cases hcall with hold | ⟨-, rfl⟩
      · rw [OrderedMap.get?_set_of_ne _ _ (hidle hold hphase)]
        exact h.pending hold hphase
      · exact OrderedMap.get?_set_self ..
    · intro i j call call' hcall hcall' hphase hphase' hchannel
      rcases Runs.getElem?_append_cases hcall with hold | ⟨rfl, rfl⟩
      · rcases Runs.getElem?_append_cases hcall' with hold' | ⟨-, rfl⟩
        · exact h.single hold hold' hphase hphase' hchannel
        · exact absurd hchannel (hidle hold hphase)
      · rcases Runs.getElem?_append_cases hcall' with hold' | ⟨rfl, -⟩
        · exact absurd hchannel.symm (hidle hold' hphase')
        · rfl

/-- Calls may go on or be over. -/
theorem Registry.with_calls (h : e.Registry) {calls : List Call}
    (hcalls : ∀ {i : Nat} {call : Call}, calls[i]? = some call → call.phase ≠ .over →
      ∃ call', e.calls[i]? = some call' ∧ call'.phase ≠ .over ∧ call'.channel = call.channel ∧
        call'.channelHandlers = call.channelHandlers) :
    ({ e with calls := calls } : Engine π).Registry where
  exact := h.exact
  own := h.own
  attached := h.attached
  pending := by
    intro i call hcall hphase
    obtain ⟨call', hcall', hphase', hchannel, hmap⟩ := hcalls hcall hphase
    rw [← hchannel, ← hmap]
    exact h.pending hcall' hphase'
  single := by
    intro i j call call' hcall hcall' hphase hphase' hchannel
    obtain ⟨a, ha, hpa, hca, -⟩ := hcalls hcall hphase
    obtain ⟨b, hb, hpb, hcb, -⟩ := hcalls hcall' hphase'
    exact h.single ha hb hpa hpb (hca.trans (hchannel.trans hcb.symm))
  listens := h.listens

theorem Registry.confirm (h : e.Registry) (ticket : Nat) : (e.confirm ticket).Registry := by
  refine h.with_calls ?_
  intro i call hcall hphase
  by_cases hi : ticket = i
  · rw [hi, List.getElem?_modify_eq] at hcall
    obtain ⟨call', hcall', rfl⟩ := Option.map_eq_some_iff.mp hcall
    refine ⟨call', hcall', ?_, ?_, ?_⟩
    · intro hover
      exact hphase (by rw [hover]; exact hover)
    · split <;> rfl
    · split <;> rfl
  · rw [List.getElem?_modify_ne _ _ hi] at hcall
    exact ⟨call, hcall, hphase, rfl, rfl⟩

/-- A call that is over. -/
theorem Registry.finish (h : e.Registry) {i : Nat} {call : Call} :
    ({ e with calls := e.calls.set i { call with phase := .over } } : Engine π).Registry := by
  refine h.with_calls ?_
  intro j call' hcall' hphase
  rcases Runs.getElem?_set_cases hcall' with ⟨-, rfl⟩ | ⟨-, hold⟩
  · exact absurd rfl hphase
  · exact ⟨call', hold, hphase, rfl, rfl⟩

/-- A channel that nobody has subscribed to, or is about to, may go. -/
theorem Registry.leave (h : e.Registry) {channel : String}
    (hfree : ∀ {i : Nat} {sub : Subscription π}, e.subscriptions[i]? = some sub → sub.live = true →
      sub.channel ≠ channel)
    (hidle : ∀ {i : Nat} {call : Call}, e.calls[i]? = some call → call.phase ≠ .over →
      call.channel ≠ channel) :
    ({ e with handlers := e.handlers.delete channel } : Engine π).Registry := by
  have hother : ∀ {c m}, (e.handlers.delete channel).get? c = some m →
      e.handlers.get? c = some m := by
    intro c m hm
    by_cases hc : c = channel
    · rw [hc, OrderedMap.get?_delete_self] at hm
      cases hm
    · rwa [OrderedMap.get?_delete_of_ne _ hc] at hm
  refine ⟨fun hm => h.exact (hother hm), fun hm hm' => h.own (hother hm) (hother hm'), ?_, ?_,
    h.single, fun hm => h.listens (hother hm)⟩
  · intro i sub hsub hlive
    rw [OrderedMap.get?_delete_of_ne _ (hfree hsub hlive)]
    exact h.attached hsub hlive
  · intro i call hcall hphase
    rw [OrderedMap.get?_delete_of_ne _ (hidle hcall hphase)]
    exact h.pending hcall hphase

theorem Registry.resume (h : e.Registry) {i : Nat} {published : String → Nat} {e' : Engine π}
    (hr : e.resume i published = some e') : e'.Registry := by
  rw [Engine.resume] at hr
  split at hr
  · cases hr
  · rename_i call hcall
    split at hr
    · next hphase =>
      cases hr
      refine h.finish.register ?_ _ _
      exact h.pending hcall (by rw [hphase]; rintro ⟨⟩)
    · cases hr

/-- A call is rejected that nobody has joined. -/
theorem Registry.reject (h : e.Registry) {i : Nat} {e' : Engine π} (hr : e.reject i = some e')
    (halone : ∀ call, e.calls[i]? = some call → e.liveAt call.channel = []) : e'.Registry := by
  rw [Engine.reject] at hr
  split at hr
  · cases hr
  · rename_i call hcall
    split at hr
    · next hphase =>
      cases hr
      refine h.finish.leave ?_ ?_
      · rintro j sub hsub hlive hchannel
        have hmem : sub ∈ e.liveAt call.channel :=
          List.mem_filter.mpr ⟨List.mem_of_getElem? hsub, by rw [hlive, hchannel]; simp⟩
        rw [halone call hcall] at hmem
        cases hmem
      · intro j call' hcall' hphase' hchannel
        rcases Runs.getElem?_set_cases hcall' with ⟨-, rfl⟩ | ⟨hj, hold⟩
        · exact hphase' rfl
        · exact hj (h.single hold hcall hphase' (by rw [hphase]; rintro ⟨⟩) hchannel)
    · cases hr

/-- The handler leaves its map, and not yet the channel. -/
def withdraw (e : Engine π) (id m : Nat) (sub : Subscription π) : Engine π :=
  { e with
    subscriptions := e.subscriptions.set id { sub with live := false }
    maps          := e.maps.modify m fun ids => ids.erase id }

theorem Registry.drop (h : e.Registry) {id m : Nat} {sub : Subscription π}
    (hsub : e.subscriptions[id]? = some sub) (hm : e.handlers.get? sub.channel = some m) :
    (e.withdraw id m sub).Registry where
  exact := by
    intro c m' hm'
    obtain ⟨ids, hids, hnodup, hexact⟩ := h.exact hm'
    have hleft : ∀ i, i ≠ id → (i ∈ ids ↔ ∃ sub', (e.subscriptions.set id
        { sub with live := false })[i]? = some sub' ∧ sub'.live = true ∧ sub'.channel = c) := by
      intro i hi
      rw [hexact, List.getElem?_set_ne (Ne.symm hi)]
    have hgone : ¬ ∃ sub', (e.subscriptions.set id { sub with live := false })[id]? = some sub' ∧
        sub'.live = true ∧ sub'.channel = c := by
      rintro ⟨sub', hsub', hlive, -⟩
      rcases Runs.getElem?_set_cases hsub' with ⟨-, rfl⟩ | ⟨hne, -⟩
      · cases hlive
      · exact hne rfl
    by_cases hc : m = m'
    · subst hc
      refine ⟨ids.erase id, ?_, hnodup.erase id, fun i => ?_⟩
      · show (e.maps.modify m _)[m]? = _
        rw [List.getElem?_modify_eq, hids]
        rfl
      · rw [hnodup.mem_erase_iff]
        by_cases hi : i = id
        · exact iff_of_false (fun hmem => hmem.1 hi) (hi ▸ hgone)
        · exact (and_iff_right hi).trans (hleft i hi)
    · refine ⟨ids, (modify_other hc).trans hids, hnodup, fun i => ?_⟩
      by_cases hi : i = id
      · -- it is in the map of another channel
        refine iff_of_false ?_ (hi ▸ hgone)
        intro hmem
        obtain ⟨sub', hsub', -, rfl⟩ := (hexact i).mp hmem
        rw [hi, hsub] at hsub'
        cases hsub'
        exact hc (Option.some.inj (hm.symm.trans hm'))
      · exact hleft i hi
  own := h.own
  attached := by
    intro i sub' hsub' hlive
    rcases Runs.getElem?_set_cases hsub' with ⟨-, rfl⟩ | ⟨-, hold⟩
    · cases hlive
    · exact h.attached hold hlive
  pending := h.pending
  single := h.single
  listens := h.listens

/-- Nothing happens, or a handler leaves, or the last one does. -/
theorem unsubscribe_cases (h : e.Registry) (id : Nat) :
    e.unsubscribe id = e ∨ ∃ sub m, e.subscriptions[id]? = some sub ∧ sub.live = true ∧
      e.handlers.get? sub.channel = some m ∧ (e.unsubscribe id = e.withdraw id m sub ∨
      (e.withdraw id m sub).maps[m]? = some [] ∧
        e.unsubscribe id = { e.withdraw id m sub with
          listening := true
          handlers  := e.handlers.delete sub.channel
          link      := e.link.send (.unsubscribe [sub.channel]) }) := by
  rw [Engine.unsubscribe]
  split
  · exact .inl rfl
  · rename_i sub hsub
    cases hlive : sub.live with
    | false => exact .inl rfl
    | true =>
        obtain ⟨m, hm⟩ := h.attached hsub hlive
        refine .inr ⟨sub, m, hsub, hlive, hm, ?_⟩
        rw [if_neg (by rintro ⟨⟩)]
        dsimp only
        rw [hm]
        dsimp only
        split
        · next hempty => exact .inr ⟨hempty, rfl⟩
        · exact .inl rfl

/-- Somebody stays, or no call is under way. -/
theorem Registry.unsubscribe (h : e.Registry) {id : Nat}
    (hstays : ∀ sub, e.subscriptions[id]? = some sub → sub.live = true →
      e.pendingAt sub.channel = true → (e.unsubscribe id).liveAt sub.channel ≠ []) :
    (e.unsubscribe id).Registry := by
  rcases unsubscribe_cases h id with hsame | ⟨sub, m, hsub, hlive, hm, hdrop | ⟨hempty, hlast⟩⟩
  · rw [hsame]
    exact h
  · rw [hdrop]
    exact h.drop hsub hm
  · have hdropped := h.drop hsub hm
    have hfree : ∀ {i : Nat} {sub' : Subscription π},
        (e.withdraw id m sub).subscriptions[i]? = some sub' → sub'.live = true →
          sub'.channel ≠ sub.channel := by
      intro i sub' hsub' hlive' hchannel
      obtain ⟨ids, hids, -, hexact⟩ :=
        hdropped.exact (show e.handlers.get? sub.channel = some m from hm)
      have hmem := (hexact i).mpr ⟨sub', hsub', hlive', hchannel⟩
      rw [hempty] at hids
      rw [← Option.some.inj hids] at hmem
      cases hmem
    have hidle : ∀ {i : Nat} {call : Call}, e.calls[i]? = some call → call.phase ≠ .over →
        call.channel ≠ sub.channel := by
      intro i call hcall hphase hchannel
      refine hstays sub hsub hlive ?_ ?_
      · refine List.any_eq_true.mpr ⟨call, List.mem_of_getElem? hcall, ?_⟩
        rw [Call.pending, hchannel]
        simp [hphase]
      · rw [hlast]
        refine List.filter_eq_nil_iff.mpr fun sub' hmem => ?_
        obtain ⟨i, hi⟩ := List.getElem?_of_mem hmem
        intro hboth
        rw [Bool.and_eq_true_iff, decide_eq_true_iff] at hboth
        exact hfree hi hboth.1 hboth.2
    have hleft := hdropped.leave hfree hidle
    rw [hlast]
    exact ⟨hleft.exact, hleft.own, hleft.attached, hleft.pending, hleft.single, fun _ => rfl⟩

/-- All handlers go when no call is under way. -/
theorem Registry.onModuleDestroy (h : ∀ call ∈ e.calls, call.phase = .over) :
    e.onModuleDestroy.Registry := by
  have hdead : ∀ {i : Nat} {sub : Subscription π},
      (e.subscriptions.map fun sub => { sub with live := false })[i]? = some sub →
        sub.live = false := by
    intro i sub hsub
    rw [List.getElem?_map] at hsub
    obtain ⟨sub', -, rfl⟩ := Option.map_eq_some_iff.mp hsub
    rfl
  have hempty : ({ e with
      handlers      := .empty
      subscriptions := e.subscriptions.map fun sub => { sub with live := false }
      listening     := false } : Engine π).Registry := by
    refine ⟨by rintro _ _ ⟨⟩, by rintro _ _ _ ⟨⟩, ?_, ?_, ?_, by rintro _ _ ⟨⟩⟩
    · intro i sub hsub hlive
      rw [hdead hsub] at hlive
      cases hlive
    · intro i call hcall hphase
      exact absurd (h call (List.mem_of_getElem? hcall)) hphase
    · intro i j call call' hcall _ hphase
      exact absurd (h call (List.mem_of_getElem? hcall)) hphase
  rw [Engine.onModuleDestroy]
  dsimp only
  split
  · exact hempty
  · exact ⟨hempty.exact, hempty.own, hempty.attached, hempty.pending, hempty.single,
      hempty.listens⟩

/-- Who is in the list gets the payload, once. -/
theorem getElem?_deliver (payload : π) {ids : List Nat} (hids : ids.Nodup)
    (subscriptions : List (Subscription π)) (i : Nat) :
    (deliver payload ids subscriptions)[i]? = subscriptions[i]?.map fun sub =>
      if i ∈ ids then { sub with got := sub.got ++ [payload] } else sub := by
  induction ids generalizing subscriptions with
  | nil => simp [deliver]
  | cons id ids ih =>
      obtain ⟨hid, hids⟩ := List.nodup_cons.mp hids
      have hstep : deliver payload (id :: ids) subscriptions = deliver payload ids
          (subscriptions.modify id fun sub => { sub with got := sub.got ++ [payload] }) := rfl
      rw [hstep, ih hids]
      by_cases hi : id = i
      · subst hi
        rw [List.getElem?_modify_eq]
        cases subscriptions[id]? with
        | none     => rfl
        | some sub =>
            show some (if id ∈ ids then _ else _) = some (if id ∈ id :: ids then _ else _)
            rw [if_neg hid, if_pos List.mem_cons_self]
      · rw [List.getElem?_modify_ne _ _ hi]
        simp only [List.mem_cons, Ne.symm hi, false_or]

theorem Registry.with_link (h : e.Registry) (link : Link String String) :
    ({ e with link := link } : Engine π).Registry :=
  ⟨h.exact, h.own, h.attached, h.pending, h.single, h.listens⟩

/-- What handlers are called with is not in the maps. -/
theorem Registry.with_got (h : e.Registry) {subscriptions : List (Subscription π)}
    (hsubs : ∀ i : Nat, ∃ f : Subscription π → Subscription π,
      (∀ sub, (f sub).live = sub.live ∧ (f sub).channel = sub.channel) ∧
      subscriptions[i]? = e.subscriptions[i]?.map f) :
    ({ e with subscriptions := subscriptions } : Engine π).Registry where
  exact := by
    intro c m hm
    obtain ⟨ids, hids, hnodup, hexact⟩ := h.exact hm
    refine ⟨ids, hids, hnodup, fun i => ?_⟩
    obtain ⟨f, hf, hi⟩ := hsubs i
    rw [hexact]
    constructor
    · rintro ⟨sub, hsub, hlive, hchannel⟩
      exact ⟨f sub, hi.trans (by rw [hsub]; rfl), (hf sub).1.trans hlive,
        (hf sub).2.trans hchannel⟩
    · rintro ⟨sub, hsub, hlive, hchannel⟩
      obtain ⟨sub', hsub', rfl⟩ := Option.map_eq_some_iff.mp (hi.symm.trans hsub)
      exact ⟨sub', hsub', (hf sub').1.symm.trans hlive, (hf sub').2.symm.trans hchannel⟩
  own := h.own
  attached := by
    intro i sub hsub hlive
    obtain ⟨f, hf, hi⟩ := hsubs i
    obtain ⟨sub', hsub', rfl⟩ := Option.map_eq_some_iff.mp (hi.symm.trans hsub)
    rw [(hf sub').2]
    exact h.attached hsub' ((hf sub').1.symm.trans hlive)
  pending := h.pending
  single := h.single
  listens := h.listens

/-- What a message does: who is at its channel gets what is read of it. -/
theorem dispatch_cases (h : e.Registry) (read : String → Option π) (channel message : String) :
    (e.handlers.get? channel = none ∧ e.dispatch read channel message = e) ∨
    (read message = none ∧ e.dispatch read channel message = e) ∨
    ∃ m ids payload, e.handlers.get? channel = some m ∧ e.maps[m]? = some ids ∧ ids.Nodup ∧
      read message = some payload ∧ e.dispatch read channel message
        = { e with subscriptions := deliver payload ids e.subscriptions } := by
  rw [Engine.dispatch]
  split
  · next hnone => exact .inl ⟨hnone, rfl⟩
  · rename_i m hm
    obtain ⟨ids, hids, hnodup, -⟩ := h.exact hm
    rw [hids]
    cases hread : read message with
    | none         => exact .inr (.inl ⟨rfl, rfl⟩)
    | some payload => exact .inr (.inr ⟨m, ids, payload, hm, hids, hnodup, rfl, rfl⟩)

theorem Registry.dispatch (h : e.Registry) (read : String → Option π) (channel message : String) :
    (e.dispatch read channel message).Registry := by
  rcases dispatch_cases h read channel message with
    ⟨-, hsame⟩ | ⟨-, hsame⟩ | ⟨m, ids, payload, -, -, hnodup, -, hdeliver⟩
  · rw [hsame]
    exact h
  · rw [hsame]
    exact h
  · rw [hdeliver]
    refine h.with_got fun i => ⟨_, fun sub => ?_, getElem?_deliver payload hnodup _ i⟩
    split <;> exact ⟨rfl, rfl⟩

/-- What the next item of the connection does. -/
theorem receive_cases {read : String → Option π} {e' : Engine π} (hr : e.receive read = some e') :
    ∃ item link, e.link.receive = some (item, link) ∧
      ((∃ ticket, item = .confirmed ticket ∧
        e' = ({ e with link := link } : Engine π).confirm ticket) ∨
      (∃ channel text, item = .message channel text ∧ e' = if e.listening then
        ({ e with link := link } : Engine π).dispatch read channel text
          else { e with link := link })) := by
  rw [Engine.receive] at hr
  split at hr
  · cases hr
  · rename_i item link hreceive
    refine ⟨item, link, hreceive, ?_⟩
    cases item with
    | confirmed ticket     => exact .inl ⟨ticket, rfl, (Option.some.inj hr).symm⟩
    | message channel text => exact .inr ⟨channel, text, rfl, (Option.some.inj hr).symm⟩

theorem Registry.receive (h : e.Registry) {read : String → Option π} {e' : Engine π}
    (hr : e.receive read = some e') : e'.Registry := by
  obtain ⟨item, link, -, ⟨ticket, -, rfl⟩ | ⟨channel, text, -, rfl⟩⟩ := receive_cases hr
  · exact (h.with_link link).confirm ticket
  · split
    · exact (h.with_link link).dispatch read channel text
    · exact h.with_link link

/-! ## The connection -/

variable (e) in
/-- A call is still to be answered. -/
def Waiting (ticket : Nat) : Prop := ∃ call, e.calls[ticket]? = some call ∧ call.phase = .waiting

variable (e) in
/-- A channel that has a map is open, or will be when a call is answered. -/
structure Wire : Prop where
  opens     : ∀ {channel m}, e.handlers.get? channel = some m → e.link.Opens channel e.Waiting
  channelOf : ∀ {channel ticket}, .subscribe channel ticket ∈ e.link.commands →
    ∃ call, e.calls[ticket]? = some call ∧ call.channel = channel
  nodup     : e.link.tickets.Nodup
  lt        : ∀ ticket ∈ e.link.tickets, ticket < e.calls.length

theorem wire_boot : (({} : Engine π)).Wire where
  opens     := by rintro channel m ⟨⟩
  channelOf := by rintro channel ticket ⟨⟩
  nodup     := List.nodup_nil
  lt        := by rintro ticket ⟨⟩

/-- The connection is left alone: channels may go, and calls that wait for a command that
    is under way go on waiting. -/
theorem Wire.change (h : e.Wire) {e' : Engine π} (hlink : e'.link = e.link)
    (hcalls : ∀ ticket : Nat,
      e'.calls[ticket]?.map Call.channel = e.calls[ticket]?.map Call.channel)
    (hopens : ∀ channel m, e'.handlers.get? channel = some m →
      (∃ m', e.handlers.get? channel = some m') ∧
        ∀ ticket, .subscribe channel ticket ∈ e.link.commands → e.Waiting ticket →
          e'.Waiting ticket) : e'.Wire where
  opens := by
    intro channel m hm
    obtain ⟨⟨m', hm'⟩, hwaiting⟩ := hopens channel m hm
    rw [hlink]
    exact (h.opens hm').mono hwaiting
  channelOf := by
    intro channel ticket hmem
    obtain ⟨call, hcall, hchannel⟩ := h.channelOf (hlink ▸ hmem)
    have hsame := hcalls ticket
    rw [hcall] at hsame
    obtain ⟨call', hcall', hchannel'⟩ := Option.map_eq_some_iff.mp hsame
    exact ⟨call', hcall', hchannel'.trans hchannel⟩
  nodup := hlink ▸ h.nodup
  lt := by
    intro ticket hmem
    have hlt := h.lt ticket (hlink ▸ hmem)
    have hsame := hcalls ticket
    rw [List.getElem?_eq_getElem hlt] at hsame
    obtain ⟨call', hcall', -⟩ := Option.map_eq_some_iff.mp hsame
    exact (List.getElem?_eq_some_iff.mp hcall').1

theorem Wire.register (h : e.Wire) (channel : String) (m published : Nat) (joined : Bool) :
    (e.register channel m published joined).Wire :=
  h.change rfl (fun _ => rfl) fun _ m' hm' => ⟨⟨m', hm'⟩, fun _ _ hwaiting => hwaiting⟩

theorem Wire.subscribe (h : e.Wire) (channel : String) (published : Nat) :
    (e.subscribe channel published).Wire := by
  rw [Engine.subscribe]
  split
  · exact h.register _ _ _ _
  · have hgrows : ∀ ticket, e.Waiting ticket → ∃ call, (e.calls ++
        [({ channel := channel, channelHandlers := e.maps.length } : Call)])[ticket]? = some call ∧
          call.phase = .waiting := by
      rintro ticket ⟨call, hcall, hphase⟩
      refine ⟨call, ?_, hphase⟩
      rw [List.getElem?_append_left (List.getElem?_eq_some_iff.mp hcall).1]
      exact hcall
    refine ⟨?_, ?_, ?_, ?_⟩
    · intro c m hm
      by_cases hc : c = channel
      · rw [hc]
        exact e.link.opens_subscribe channel ⟨_, List.getElem?_concat_length, rfl⟩
      · rw [OrderedMap.get?_set_of_ne _ _ hc] at hm
        exact ((h.opens hm).send (keeps_subscribe c channel _)).mono fun ticket _ => hgrows ticket
    · intro c ticket hmem
      rcases List.mem_append.mp hmem with hold | hnew
      · obtain ⟨call, hcall, hchannel⟩ := h.channelOf hold
        refine ⟨call, ?_, hchannel⟩
        rw [List.getElem?_append_left (List.getElem?_eq_some_iff.mp hcall).1]
        exact hcall
      · cases List.mem_singleton.mp hnew
        exact ⟨_, List.getElem?_concat_length, rfl⟩
    · rw [Link.tickets_send]
      refine List.nodup_append.mpr ⟨h.nodup, List.nodup_singleton _, ?_⟩
      rintro a ha b hb rfl
      have hlt := h.lt a ha
      rw [List.mem_singleton.mp hb] at hlt
      exact Nat.lt_irrefl _ hlt
    · intro ticket hmem
      rw [Link.tickets_send] at hmem
      rw [List.length_append, List.length_singleton]
      rcases List.mem_append.mp hmem with hold | hnew
      · exact Nat.lt_succ_of_lt (h.lt ticket hold)
      · rw [List.mem_singleton.mp hnew]
        exact Nat.lt_succ_self _

/-- A call that no longer waits is not the one whose command is under way. -/
theorem Wire.set_over (h : e.Wire) {i : Nat} {call : Call} (hcall : e.calls[i]? = some call)
    {handlers : OrderedMap String Nat}
    (hhandlers : ∀ channel m, handlers.get? channel = some m → e.handlers.get? channel = some m ∧
      (call.phase = .waiting → channel ≠ call.channel)) :
    ({ e with
      handlers := handlers
      calls    := e.calls.set i { call with phase := .over } } : Engine π).Wire := by
  refine h.change rfl (fun ticket => ?_) fun channel m hm => ?_
  · show ((e.calls.set i _)[ticket]?).map Call.channel = _
    by_cases hi : i = ticket
    · subst hi
      rw [List.getElem?_set_self (List.getElem?_eq_some_iff.mp hcall).1, hcall]
      rfl
    · rw [List.getElem?_set_ne hi]
  · obtain ⟨hm', hne⟩ := hhandlers channel m hm
    refine ⟨⟨m, hm'⟩, ?_⟩
    rintro ticket hmem ⟨call', hcall', hphase⟩
    refine ⟨call', ?_, hphase⟩
    show (e.calls.set i _)[ticket]? = _
    rw [List.getElem?_set_ne, hcall']
    rintro rfl
    rw [hcall] at hcall'
    cases hcall'
    obtain ⟨call', hcall', hchannel⟩ := h.channelOf hmem
    rw [hcall] at hcall'
    cases hcall'
    exact hne hphase hchannel.symm

theorem Wire.reject (h : e.Wire) {i : Nat} {e' : Engine π} (hr : e.reject i = some e') :
    e'.Wire := by
  rw [Engine.reject] at hr
  split at hr
  · cases hr
  · rename_i call hcall
    split at hr
    · cases hr
      refine h.set_over hcall fun channel m hm => ?_
      by_cases hc : channel = call.channel
      · rw [hc, OrderedMap.get?_delete_self] at hm
        cases hm
      · rw [OrderedMap.get?_delete_of_ne _ hc] at hm
        exact ⟨hm, fun _ => hc⟩
    · cases hr

theorem Wire.resume (h : e.Wire) {i : Nat} {published : String → Nat} {e' : Engine π}
    (hr : e.resume i published = some e') : e'.Wire := by
  rw [Engine.resume] at hr
  split at hr
  · cases hr
  · rename_i call hcall
    split at hr
    · next hphase =>
      cases hr
      refine (h.set_over hcall fun channel m hm => ⟨hm, fun hwaiting => ?_⟩).register _ _ _ _
      rw [hphase] at hwaiting
      cases hwaiting
    · cases hr

theorem Wire.process (h : e.Wire) {log : List (String × String)} {link : Link String String}
    (hp : e.link.process log = some link) : ({ e with link := link } : Engine π).Wire where
  opens := fun hm => (h.opens hm).process hp
  channelOf := by
    intro channel ticket hmem
    refine h.channelOf ?_
    rcases Link.process_cases hp with ⟨_, _, hcommands, -⟩ | ⟨_, hcommands, -⟩ <;>
    · rw [hcommands]
      exact List.mem_cons_of_mem _ hmem
  nodup := by
    rw [Link.tickets_process hp]
    exact h.nodup
  lt := by
    rw [Link.tickets_process hp]
    exact h.lt

theorem Wire.sent (h : e.Wire) (channel text : String) :
    ({ e with link := e.link.sent channel text } : Engine π).Wire where
  opens := fun hm => (h.opens hm).sent channel text
  channelOf := by
    intro c ticket hmem
    rw [e.link.sent_commands] at hmem
    exact h.channelOf hmem
  nodup := by
    rw [Link.tickets_sent]
    exact h.nodup
  lt := by
    rw [Link.tickets_sent]
    exact h.lt

/-- The ticket of an answer is not under way any more. -/
theorem Wire.with_link (h : e.Wire) {item : Item String String} {link : Link String String}
    (hr : e.link.receive = some (item, link)) :
    ({ e with link := link } : Engine π).Wire ∧ ∀ ticket, item = .confirmed ticket →
      ∀ channel, .subscribe channel ticket ∉ link.commands := by
  have hcommands : link.commands = e.link.commands := by rw [(Link.receive_cases hr).2]
  have htickets := Link.tickets_receive hr
  have hnodup := h.nodup
  rw [htickets] at hnodup
  refine ⟨⟨fun hm => (h.opens hm).receive hr, ?_, (List.nodup_append.mp hnodup).2.1, ?_⟩, ?_⟩
  · intro channel ticket hmem
    exact h.channelOf (hcommands ▸ hmem)
  · intro ticket hmem
    exact h.lt ticket (htickets ▸ List.mem_append_right _ hmem)
  · rintro ticket rfl channel hmem
    refine (List.nodup_append.mp hnodup).2.2 ticket List.mem_cons_self ticket ?_ rfl
    refine List.mem_append_right _ (List.mem_filterMap.mpr ⟨_, hmem, rfl⟩)

theorem Wire.receive (h : e.Wire) {read : String → Option π} {e' : Engine π}
    (hr : e.receive read = some e') : e'.Wire := by
  obtain ⟨item, link, hreceive, ⟨ticket, hitem, rfl⟩ | ⟨channel, text, -, rfl⟩⟩ := receive_cases hr
  · obtain ⟨hwire, hgone⟩ := h.with_link hreceive
    refine hwire.change rfl (fun i => ?_) fun channel m hm => ⟨⟨m, hm⟩, ?_⟩
    · show ((e.calls.modify ticket _)[i]?).map Call.channel = _
      by_cases hi : ticket = i
      · subst hi
        rw [List.getElem?_modify_eq]
        cases e.calls[ticket]? with
        | none      => rfl
        | some call =>
            refine congrArg some ?_
            dsimp only
            split <;> rfl
      · rw [List.getElem?_modify_ne _ _ hi]
    · rintro i hmem ⟨call, hcall, hphase⟩
      refine ⟨call, ?_, hphase⟩
      show (e.calls.modify ticket _)[i]? = _
      rw [List.getElem?_modify_ne, hcall]
      rintro rfl
      exact hgone ticket hitem channel hmem
  · have hwire := (h.with_link hreceive).1
    have hdispatch : (({ e with link := link } : Engine π).dispatch read channel text).Wire := by
      rw [Engine.dispatch]
      split
      · exact hwire
      · split
        · exact hwire.change rfl (fun _ => rfl) fun _ m hm => ⟨⟨m, hm⟩, fun _ _ hw => hw⟩
        · exact hwire
    split
    · exact hdispatch
    · exact hwire

/-- Topics are given up that have no map any more. -/
theorem Wire.give_up (h : e.Wire) {topics : List String} {e' : Engine π}
    (hlink : e'.link = e.link.send (.unsubscribe topics)) (hcalls : e'.calls = e.calls)
    (hleft : ∀ {channel m}, e'.handlers.get? channel = some m →
      e.handlers.get? channel = some m ∧ channel ∉ topics) : e'.Wire where
  opens := by
    intro channel m hm
    obtain ⟨hm, hchannel⟩ := hleft hm
    have hwaiting : ∀ ticket, e.Waiting ticket → e'.Waiting ticket := by
      intro ticket hwaits
      rw [Waiting, hcalls]
      exact hwaits
    have hkeeps : Keeps [.unsubscribe topics] channel := by
      intro topics' hmem
      cases List.mem_singleton.mp hmem
      exact hchannel
    rw [hlink]
    exact ((h.opens hm).send hkeeps).mono fun ticket _ => hwaiting ticket
  channelOf := by
    intro channel ticket hmem
    rw [hcalls]
    rw [hlink] at hmem
    rcases List.mem_append.mp hmem with hold | hnew
    · exact h.channelOf hold
    · cases List.mem_singleton.mp hnew
  nodup := by
    rw [hlink, Link.tickets_send]
    exact (List.append_nil _).symm ▸ h.nodup
  lt := by
    rw [hlink, hcalls, Link.tickets_send]
    exact (List.append_nil e.link.tickets).symm ▸ h.lt

theorem Wire.unsubscribe (h : e.Wire) (hr : e.Registry) (id : Nat) : (e.unsubscribe id).Wire := by
  rcases unsubscribe_cases hr id with hsame | ⟨sub, m, -, -, -, hdrop | ⟨-, hlast⟩⟩
  · rw [hsame]
    exact h
  · rw [hdrop]
    exact h.change rfl (fun _ => rfl) fun _ m hm => ⟨⟨m, hm⟩, fun _ _ hw => hw⟩
  · rw [hlast]
    refine h.give_up rfl rfl fun {channel m} hm => ?_
    by_cases hc : channel = sub.channel
    · rw [hc, OrderedMap.get?_delete_self] at hm
      cases hm
    · rw [OrderedMap.get?_delete_of_ne _ hc] at hm
      exact ⟨hm, fun hin => hc (List.mem_singleton.mp hin)⟩

theorem Wire.onModuleDestroy (h : e.Wire) : e.onModuleDestroy.Wire := by
  rw [Engine.onModuleDestroy]
  dsimp only
  split
  · exact ⟨by rintro _ _ ⟨⟩, h.channelOf, h.nodup, h.lt⟩
  · exact h.give_up rfl rfl (by rintro _ _ ⟨⟩)

end Engine

/-! ## What handlers are called with -/

/-- What a live handler gets of the item. -/
def Subscription.receive (read : String → Option π) (item : Item String String)
    (sub : Subscription π) : Subscription π :=
  if sub.live then { sub with got := sub.got ++ reads read sub.channel item } else sub

/-- A handler has been called with what was published, and a live one goes on listening;
    it misses nothing unless it joined another call. -/
structure Heard (read : String → Option π) (log : List (String × String))
    (link : Link String String) (sub : Subscription π) : Prop where
  inOrder   : sub.got.Sublist ((published log sub.channel).filterMap read)
  listening : sub.live = true → Listening read log link sub.channel sub.returned sub.got
  since     : sub.live = true → sub.joined = false → link.Since sub.channel sub.returned

variable {read : String → Option π} {log : List (String × String)} {link : Link String String}
  {sub : Subscription π}

theorem Heard.sent (h : Heard read log link sub) (channel text : String) :
    Heard read (log ++ [(channel, text)]) (link.sent channel text) sub where
  inOrder := by
    rw [published_append, List.filterMap_append]
    exact h.inOrder.trans (List.sublist_append_left _ _)
  listening := fun hlive => (h.listening hlive).sent channel text
  since := fun hlive hjoined => (h.since hlive hjoined).sent channel text

theorem Heard.process (h : Heard read log link sub) {link' : Link String String}
    (hp : link.process log = some link') : Heard read log link' sub where
  inOrder := h.inOrder
  listening := fun hlive => (h.listening hlive).process hp
  since := fun hlive hjoined => (h.since hlive hjoined).process hp

theorem Heard.send (h : Heard read log link sub) {command : Command String}
    (hc : sub.live = true → Keeps [command] sub.channel) :
    Heard read log (link.send command) sub where
  inOrder := h.inOrder
  listening := fun hlive => (h.listening hlive).send command
  since := fun hlive hjoined => (h.since hlive hjoined).send (hc hlive)

/-- A handler that has gone. -/
theorem Heard.gone (h : Heard read log link sub) (link' : Link String String) :
    Heard read log link' { sub with live := false } :=
  ⟨h.inOrder, by rintro ⟨⟩, by rintro ⟨⟩⟩

/-- A live handler gets what is read of the item, and no other does. -/
theorem Heard.receive (h : Heard read log link sub) {item : Item String String}
    {link' : Link String String} (hr : link.receive = some (item, link')) :
    Heard read log link' (sub.receive read item) := by
  rw [Subscription.receive]
  split
  · next hlive =>
    have hlistening := (h.listening hlive).receive hr
    exact ⟨(List.sublist_append_left _ _).trans hlistening.inOrder, fun _ => hlistening,
      fun _ hjoined => (h.since hlive hjoined).receive hr⟩
  · next hdead =>
      exact ⟨h.inOrder, fun hlive => absurd hlive hdead, fun hlive => absurd hlive hdead⟩

namespace Engine

variable {e : Engine π}

theorem receive_eq_self {item : Item String String} {subs : List (Subscription π)}
    (h : ∀ sub ∈ subs, sub.live = true → reads read sub.channel item = []) :
    subs.map (Subscription.receive read item) = subs := by
  refine (List.map_congr_left fun sub hsub => ?_).trans (List.map_id subs)
  rw [Subscription.receive]
  split
  · next hlive =>
    rw [h sub hsub hlive, List.append_nil]
    rfl
  · rfl

/-- A message is for all live handlers of its channel, and for no others. -/
theorem dispatch_subscriptions (h : e.Registry) (channel message : String) :
    (e.dispatch read channel message).subscriptions
      = e.subscriptions.map (Subscription.receive read (.message channel message)) := by
  rcases dispatch_cases h read channel message with
    ⟨hnone, hsame⟩ | ⟨hnone, hsame⟩ | ⟨m, ids, payload, hm, hids, hnodup, hread, hdeliver⟩
  · rw [hsame, receive_eq_self]
    intro sub hmem hlive
    obtain ⟨i, hi⟩ := List.getElem?_of_mem hmem
    obtain ⟨m, hm⟩ := h.attached hi hlive
    exact if_neg (by rintro rfl; rw [hnone] at hm; cases hm)
  · rw [hsame, receive_eq_self]
    intro sub _ _
    rw [reads, hnone]
    exact ite_self _
  · rw [hdeliver]
    refine List.ext_getElem? fun i => ?_
    rw [getElem?_deliver payload hnodup, List.getElem?_map]
    refine Option.map_congr fun sub hsub => ?_
    -- who is in the map is live, and listens to the channel
    have hin : i ∈ ids ↔ sub.live = true ∧ sub.channel = channel := by
      obtain ⟨ids', hids', -, hexact⟩ := h.exact hm
      rw [hids] at hids'
      rw [Option.some.inj hids', hexact, hsub]
      constructor
      · rintro ⟨sub', hsub', hboth⟩
        exact Option.some.inj hsub' ▸ hboth
      · exact fun hboth => ⟨sub, rfl, hboth⟩
    rw [Subscription.receive, reads, hread]
    by_cases hlive : sub.live = true
    · rw [if_pos hlive]
      by_cases hchannel : sub.channel = channel
      · rw [if_pos (hin.mpr ⟨hlive, hchannel⟩), if_pos hchannel.symm]
        rfl
      · rw [if_neg fun hmem => hchannel (hin.mp hmem).2, if_neg (Ne.symm hchannel),
          List.append_nil]
    · rw [if_neg fun hmem => hlive (hin.mp hmem).1, if_neg hlive]

theorem dispatch_link (channel message : String) :
    (e.dispatch read channel message).link = e.link := by
  rw [Engine.dispatch]
  split
  · rfl
  · split <;> rfl

/-- The same of every item of the connection. -/
theorem receive_subscriptions (h : e.Registry) {e' : Engine π} (hr : e.receive read = some e') :
    ∃ item, e.link.receive = some (item, e'.link) ∧
      e'.subscriptions = e.subscriptions.map (Subscription.receive read item) := by
  obtain ⟨item, link, hlink, ⟨ticket, rfl, rfl⟩ | ⟨channel, text, rfl, rfl⟩⟩ := receive_cases hr
  · exact ⟨_, hlink, (receive_eq_self fun _ _ _ => rfl).symm⟩
  · refine ⟨.message channel text, ?_, ?_⟩
    · rw [hlink]
      split
      · rw [dispatch_link]
      · rfl
    · split
      · exact dispatch_subscriptions (h.with_link link) channel text
      · next hoff =>
        -- without the listener nobody is live
        refine (receive_eq_self fun sub hmem hlive => ?_).symm
        obtain ⟨i, hi⟩ := List.getElem?_of_mem hmem
        obtain ⟨m, hm⟩ := h.attached hi hlive
        exact absurd (h.listens hm) hoff

/-! ## One engine -/

variable (read) (log) (e) in
structure Good : Prop where
  registry : e.Registry
  wire     : e.Wire
  sound    : e.link.Sound log
  heard    : ∀ sub ∈ e.subscriptions, Heard read log e.link sub

theorem good_boot : ({} : Engine π).Good read [] where
  registry := registry_boot
  wire     := wire_boot
  sound    := ⟨fun _ => Nat.le_refl _, fun _ => List.Sublist.refl _⟩
  heard    := by rintro sub ⟨⟩

theorem Good.sent (h : e.Good read log) (channel text : String) :
    ({ e with link := e.link.sent channel text } : Engine π).Good read
      (log ++ [(channel, text)]) where
  registry := h.registry.with_link _
  wire     := h.wire.sent channel text
  sound    := h.sound.sent channel text
  heard    := fun sub hsub => (h.heard sub hsub).sent channel text

theorem Good.process (h : e.Good read log) (hp : e.link.process log = some link) :
    ({ e with link := link } : Engine π).Good read log where
  registry := h.registry.with_link _
  wire     := h.wire.process hp
  sound    := h.sound.process hp
  heard    := fun sub hsub => (h.heard sub hsub).process hp

theorem Good.receive (h : e.Good read log) {e' : Engine π} (hr : e.receive read = some e') :
    e'.Good read log := by
  obtain ⟨item, hlink, hsubs⟩ := receive_subscriptions h.registry hr
  refine ⟨h.registry.receive hr, h.wire.receive hr, h.sound.receive hlink, ?_⟩
  intro sub hsub
  rw [hsubs] at hsub
  obtain ⟨old, hold, rfl⟩ := List.mem_map.mp hsub
  exact (h.heard old hold).receive hlink

/-- A channel that has a map, and for which nobody waits, is open. -/
theorem Good.since (h : e.Good read log) {channel : String} {m : Nat}
    (hm : e.handlers.get? channel = some m)
    (hidle : ∀ call ∈ e.calls, call.phase = .waiting → call.channel ≠ channel) :
    e.link.Since channel (published log channel).length := by
  rcases h.wire.opens hm with
    ⟨hon, hkeeps⟩ | ⟨before, ticket, after, hcommands, -, call, hcall, hphase⟩
  · exact ⟨hon, hkeeps, h.sound.since_le channel⟩
  · have hmem : Broker.Command.subscribe channel ticket ∈ e.link.commands := by
      rw [hcommands]
      exact List.mem_append_right _ List.mem_cons_self
    obtain ⟨call', hcall', hchannel⟩ := h.wire.channelOf hmem
    rw [hcall] at hcall'
    cases hcall'
    exact absurd hchannel (hidle call (List.mem_of_getElem? hcall) hphase)

theorem Good.register (h : e.Good read log) {channel : String} {m : Nat} {joined : Bool}
    (hm : e.handlers.get? channel = some m)
    (hidle : joined = false → ∀ call ∈ e.calls, call.phase = .waiting → call.channel ≠ channel) :
    (e.register channel m (published log channel).length joined).Good read log := by
  refine ⟨h.registry.register hm _ _, h.wire.register _ _ _ _, h.sound, fun sub hsub => ?_⟩
  rcases List.mem_append.mp hsub with hold | hnew
  · exact h.heard sub hold
  · obtain rfl := List.mem_singleton.mp hnew
    exact ⟨List.nil_sublist _, fun _ => .start h.sound, fun _ hjoined => h.since hm (hidle hjoined)⟩

theorem Good.subscribe (h : e.Good read log) (channel : String) :
    (e.subscribe channel (published log channel).length).Good read log := by
  cases hm : e.handlers.get? channel with
  | some m =>
      rw [Engine.subscribe, hm]
      refine h.register hm fun hjoined call hcall hphase hchannel => ?_
      refine List.any_eq_false.mp hjoined call hcall ?_
      rw [Call.pending, hphase, hchannel]
      simp
  | none =>
      have hregistry := h.registry.subscribe channel (published log channel).length
      have hwire := h.wire.subscribe channel (published log channel).length
      rw [Engine.subscribe, hm] at hregistry hwire ⊢
      exact ⟨hregistry, hwire, h.sound.send _,
        fun sub hsub => (h.heard sub hsub).send fun _ => keeps_subscribe _ _ _⟩

theorem Good.resume (h : e.Good read log) {i : Nat} {e' : Engine π}
    (hr : e.resume i (fun channel => (published log channel).length) = some e') :
    e'.Good read log := by
  have hregistry := h.registry.resume hr
  have hwire := h.wire.resume hr
  rw [Engine.resume] at hr
  split at hr
  · cases hr
  · rename_i call hcall
    split at hr
    · next hphase =>
      cases hr
      have hm : e.handlers.get? call.channel = some call.channelHandlers :=
        h.registry.pending hcall (by rw [hphase]; rintro ⟨⟩)
      refine ⟨hregistry, hwire, h.sound, fun sub hsub => ?_⟩
      rcases List.mem_append.mp hsub with hold | hnew
      · exact h.heard sub hold
      · obtain rfl := List.mem_singleton.mp hnew
        refine ⟨List.nil_sublist _, fun _ => .start h.sound, fun _ _ => h.since hm ?_⟩
        -- a call that waits would be this one
        intro call' hmem hphase' hchannel
        obtain ⟨j, hj⟩ := List.getElem?_of_mem hmem
        obtain rfl := h.registry.single hj hcall (by rw [hphase']; rintro ⟨⟩)
          (by rw [hphase]; rintro ⟨⟩) hchannel
        rw [hcall] at hj
        cases hj
        rw [hphase] at hphase'
        cases hphase'
    · cases hr

theorem Good.reject (h : e.Good read log) {i : Nat} {e' : Engine π} (hr : e.reject i = some e')
    (halone : ∀ call, e.calls[i]? = some call → e.liveAt call.channel = []) :
    e'.Good read log := by
  have hregistry := h.registry.reject hr halone
  have hwire := h.wire.reject hr
  rw [Engine.reject] at hr
  split at hr
  · cases hr
  · split at hr
    · cases hr
      exact ⟨hregistry, hwire, h.sound, h.heard⟩
    · cases hr

theorem Good.unsubscribe (h : e.Good read log) {id : Nat}
    (hstays : ∀ sub, e.subscriptions[id]? = some sub → sub.live = true →
      e.pendingAt sub.channel = true → (e.unsubscribe id).liveAt sub.channel ≠ []) :
    (e.unsubscribe id).Good read log := by
  have hregistry := h.registry.unsubscribe hstays
  have hwire := h.wire.unsubscribe h.registry id
  rcases unsubscribe_cases h.registry id with hsame | ⟨sub, m, hsub, hlive, hm, hcases⟩
  · rw [hsame]
    exact h
  · have hheard : ∀ sub' ∈ e.subscriptions.set id { sub with live := false },
        Heard read log e.link sub' := by
      intro sub' hmem
      rcases List.mem_or_eq_of_mem_set hmem with hold | rfl
      · exact h.heard sub' hold
      · exact (h.heard sub (List.mem_of_getElem? hsub)).gone e.link
    rcases hcases with hdrop | ⟨hempty, hlast⟩
    · rw [hdrop] at hregistry hwire ⊢
      exact ⟨hregistry, hwire, h.sound, hheard⟩
    · rw [hlast] at hregistry hwire ⊢
      refine ⟨hregistry, hwire, h.sound.send _, fun sub' hmem => ?_⟩
      refine (hheard sub' hmem).send fun hlive' topics hin => ?_
      cases List.mem_singleton.mp hin
      -- its channel still has a map
      intro hchannel
      obtain ⟨i, hi⟩ := List.getElem?_of_mem hmem
      obtain ⟨m', hm'⟩ := hregistry.attached hi hlive'
      rw [List.mem_singleton.mp hchannel, OrderedMap.get?_delete_self] at hm'
      cases hm'

theorem Good.onModuleDestroy (h : e.Good read log) (hover : ∀ call ∈ e.calls, call.phase = .over) :
    e.onModuleDestroy.Good read log := by
  have hregistry : e.onModuleDestroy.Registry := .onModuleDestroy hover
  have hwire := h.wire.onModuleDestroy
  have hheard : ∀ link, ∀ sub ∈ e.subscriptions.map fun sub => { sub with live := false },
      Heard read log link sub := by
    intro link sub hmem
    obtain ⟨old, hold, rfl⟩ := List.mem_map.mp hmem
    exact (h.heard old hold).gone link
  rw [Engine.onModuleDestroy] at hregistry hwire ⊢
  dsimp only at hregistry hwire ⊢
  split
  · next hnone =>
    rw [if_pos hnone] at hregistry hwire
    exact ⟨hregistry, hwire, h.sound, hheard _⟩
  · next hsome =>
    rw [if_neg hsome] at hregistry hwire
    exact ⟨hregistry, hwire, h.sound.send _, hheard _⟩

end Engine

/-! ## All replicas -/

namespace State

/-- No call is rejected that another handler has joined, no handler is the last one to go
    while a call for its channel is under way, and no engine goes down with a call. -/
def undisturbed (s : State π) : Event → Bool
  | .rejects i call      => (s.engines[i]?.bind fun e => e.calls[call]?.map fun call =>
      (e.liveAt call.channel).isEmpty).getD true
  | .unsubscribe i subId => (s.engines[i]?.bind fun e => e.subscriptions[subId]?.map fun sub =>
      !sub.live || !e.pendingAt sub.channel
        || !((e.unsubscribe subId).liveAt sub.channel).isEmpty).getD true
  | .onModuleDestroy i   =>
      (s.engines[i]?.map fun e => e.calls.all fun call => !call.pending).getD true
  | _                    => true

variable {s s' : State π} {read : String → Option π}

def Good (read : String → Option π) (s : State π) : Prop :=
  ∀ e ∈ s.engines, e.Good read s.log

theorem Good.within (h : s.Good read) {i : Nat} {f : Engine π → Option (Engine π)}
    (hs : s.within i f = some s')
    (hf : ∀ e e', s.engines[i]? = some e → e.Good read s.log → f e = some e' →
      e'.Good read s.log) : s'.Good read := by
  obtain ⟨e, he, hs⟩ := Option.bind_eq_some_iff.mp hs
  obtain ⟨e', he', rfl⟩ := Option.map_eq_some_iff.mp hs
  intro e'' hmem
  rcases List.mem_or_eq_of_mem_set hmem with hold | rfl
  · exact h e'' hold
  · exact hf e e'' he (h e (List.mem_of_getElem? he)) he'

theorem Good.step (h : s.Good read) {event : Event} (hu : s.undisturbed event = true)
    (hs : s.step read event = some s') : s'.Good read := by
  cases event with
  | publish channel message =>
      cases hs
      intro e hmem
      obtain ⟨old, hold, rfl⟩ := List.mem_map.mp hmem
      exact (h old hold).sent channel message
  | processes i =>
      refine h.within hs fun e e' _ hgood hf => ?_
      obtain ⟨link, hlink, rfl⟩ := Option.map_eq_some_iff.mp hf
      exact hgood.process hlink
  | receives i => exact h.within hs fun e e' _ hgood hf => hgood.receive hf
  | subscribe i channel =>
      refine h.within hs fun e e' _ hgood hf => ?_
      exact Option.some.inj hf ▸ hgood.subscribe channel
  | rejects i call =>
      refine h.within hs fun e e' he hgood hf => hgood.reject hf fun c hc => ?_
      rw [undisturbed, he] at hu
      dsimp only [Option.bind_some] at hu
      rw [hc] at hu
      exact List.isEmpty_iff.mp hu
  | resumes i call => exact h.within hs fun e e' _ hgood hf => hgood.resume hf
  | unsubscribe i subId =>
      refine h.within hs fun e e' he hgood hf => ?_
      refine Option.some.inj hf ▸ hgood.unsubscribe fun sub hsub hlive hpending hnone => ?_
      rw [undisturbed, he] at hu
      dsimp only [Option.bind_some] at hu
      rw [hsub] at hu
      simp [hlive, hpending, hnone] at hu
  | onModuleDestroy i =>
      refine h.within hs fun e e' he hgood hf => ?_
      refine Option.some.inj hf ▸ hgood.onModuleDestroy fun call hcall => ?_
      rw [undisturbed, he] at hu
      have hdone := List.all_eq_true.mp (Option.some.inj (congrArg some hu)) call hcall
      simpa [Call.pending] using hdone

theorem good_boot (n : Nat) : (boot n : State π).Good read := by
  intro e hmem
  rw [List.eq_of_mem_replicate hmem]
  exact Engine.good_boot

end State

/-- What a handler can rely on. -/
structure Delivered (read : String → Option π) (log : List (String × String)) (e : Engine π)
    (id : Nat) (sub : Subscription π) : Prop where
  /-- nothing twice, and in the order of Redis -/
  inOrder  : sub.got.Sublist ((published log sub.channel).filterMap read)
  /-- a message for the channel calls it, once -/
  attached : sub.live = true → e.listening = true ∧ ∃ m ids,
    e.handlers.get? sub.channel = some m ∧ e.maps[m]? = some ids ∧ ids.count id = 1
  opens    : sub.live = true → e.link.Opens sub.channel e.Waiting
  complete : sub.live = true → sub.joined = false →
    GetsFrom read log e.link sub.channel sub.returned sub.got
  /-- who has joined a call gets all from when Redis has taken the command of the call -/
  joined   : sub.live = true → e.link.topics sub.channel = true →
    GetsFrom read log e.link sub.channel (max sub.returned (e.link.since sub.channel)) sub.got

theorem Engine.Good.delivered {e : Engine π} {read : String → Option π}
    {log : List (String × String)} (h : e.Good read log) {id : Nat} {sub : Subscription π}
    (hsub : e.subscriptions[id]? = some sub) : Delivered read log e id sub := by
  have hheard := h.heard sub (List.mem_of_getElem? hsub)
  refine ⟨hheard.inOrder, fun hlive => ?_, fun hlive => ?_, fun hlive hjoined => ?_,
    fun hlive => (hheard.listening hlive).complete⟩
  · obtain ⟨m, hm⟩ := h.registry.attached hsub hlive
    obtain ⟨ids, hids, hnodup, hexact⟩ := h.registry.exact hm
    refine ⟨h.registry.listens hm, m, ids, hm, hids, ?_⟩
    exact List.count_eq_one_of_mem hnodup ((hexact id).mpr ⟨sub, hsub, hlive, rfl⟩)
  · obtain ⟨m, hm⟩ := h.registry.attached hsub hlive
    exact h.wire.opens hm
  · have hsince := hheard.since hlive hjoined
    rw [← Nat.max_eq_left hsince.le]
    exact (hheard.listening hlive).complete hsince.isOpen

/-- **Every message once.**  Whatever the replicas do and however long Redis takes: a
    handler is called with messages of its channel in the order of Redis, none twice; and
    with all that follow its `subscribe`, as long as no call is rejected that others have
    joined, no last handler goes while a call for its channel is under way, and no engine
    goes down with a call. -/
theorem delivered_once (read : String → Option π) (n : Nat) (events : List Event) (s : State π)
    (hu : Runs.Meets (State.step read) (fun s event => s.undisturbed event = true) (State.boot n)
      events)
    (hr : Runs.run (State.step read) (State.boot n) events = some s) :
    ∀ e ∈ s.engines, ∀ (id : Nat) (sub : Subscription π), e.subscriptions[id]? = some sub →
      Delivered read s.log e id sub := by
  have hgood : s.Good read := Runs.run_invariant (State.step read)
    (fun s event s' h hu hs => State.Good.step h hu hs) events _ _ (State.good_boot n) hu hr
  exact fun e he id sub hsub => (hgood e he).delivered hsub

/-- Two replicas: one hears the other, and its own handler goes. -/
def crossing : List Event :=
  [.subscribe 0 "p:pubsub:x", .processes 0, .publish "p:pubsub:x" "1", .receives 0, .resumes 0 0,
    .publish "p:pubsub:x" "2", .subscribe 1 "p:pubsub:x", .receives 0, .processes 1,
    .publish "p:pubsub:x" "3", .receives 1, .resumes 1 0, .receives 0, .unsubscribe 0 0]

theorem delivered_crossing :
    ∃ s, Runs.run (State.step some) (State.boot 2) crossing = some s ∧
      s.engines.map (fun e => e.subscriptions.map fun sub => sub.got) = [[["1", "2"]], [[]]] ∧
      ∀ e ∈ s.engines, ∀ (id : Nat) (sub : Subscription String), e.subscriptions[id]? = some sub →
        Delivered some s.log e id sub := by
  refine ⟨_, rfl, by decide, delivered_once some 2 crossing _ (by decide) rfl⟩

/-- The last handler goes while a call awaits Redis: what is published later is not sent to
    the handler of the call. -/
example : (Runs.run (State.step some) (State.boot 1)
    [.subscribe 0 "p:pubsub:x", .subscribe 0 "p:pubsub:x", .unsubscribe 0 0, .processes 0,
      .processes 0, .receives 0, .resumes 0 0, .publish "p:pubsub:x" "1"]).map
        (fun s => s.engines.map fun e => e.subscriptions.map fun sub => (sub.live, sub.got))
      = some [[(false, []), (true, [])]] := by decide

end CoreRedisPubSub
