import NestServer.Hub.Buffer

/-! # Polling the Hub

    A buffer answers as an unbounded log does that has lost its beginning.  What such
    answers deliver to a reader who feeds the cursor back is then a matter of the log. -/

namespace Hub

variable {α : Type}

/-! ## Answers of a log -/

/-- Each entry has its place as its number. -/
def Numbered (log : List (HubBufferEntry α)) : Prop := ∀ (i : Nat) e, log[i]? = some e → e.seq = i

/-- What a reader gets of a log of which the entries from `lo` on are left. -/
def window (log : List (HubBufferEntry α)) (since : Option Int) (lo : Nat) : HubBufferData α where
  cursor  := log.length - 1
  dropped := if lo = log.length then -1 else lo
  entries := log.drop (max lo (since.elim 0 fun s => (s + 1).toNat))

/-- What is missing in an answer shows. -/
def Poll.Complete (p : Poll α) : Prop :=
  ∀ s, p.since = some s → ∀ seq, s < seq → seq ≤ p.data.cursor →
    (∃ e ∈ p.data.entries, e.seq = seq) ∨ (p.data.entries = [] ∧ p.data.dropped = -1) ∨
      s + 1 < p.data.dropped

/-- **Exactly once.** -/
structure Delivered (h : History α) : Prop where
  numbered   : Numbered h.log
  /-- the reader is not ahead -/
  cursor     : ∀ c, h.cursor = some c → -1 ≤ c ∧ c < h.log.length
  first      : h.cursor = none → h.polls = []
  /-- what is delivered was added, and is behind the cursor -/
  delivered  : ∀ p ∈ h.polls, ∀ e ∈ p.data.entries, e ∈ h.log ∧ ∀ c, h.cursor = some c → e.seq ≤ c
  /-- nothing twice, all in order -/
  increasing : (h.polls.flatMap fun p => p.data.entries).Pairwise fun a b => a.seq < b.seq
  complete   : ∀ p ∈ h.polls, p.Complete

theorem Numbered.pairwise {log : List (HubBufferEntry α)} (h : Numbered log) :
    log.Pairwise fun a b => a.seq < b.seq := by
  refine List.pairwise_iff_getElem.mpr fun i j hi hj hij => ?_
  rw [h i _ (List.getElem?_eq_getElem hi), h j _ (List.getElem?_eq_getElem hj)]
  omega

/-- An entry is behind what is dropped, in place of its number. -/
theorem Numbered.mem_drop {log : List (HubBufferEntry α)} (h : Numbered log) {n : Nat}
    {e : HubBufferEntry α}
    (he : e ∈ log.drop n) : ∃ i : Nat, e.seq = i ∧ n ≤ i ∧ i < log.length := by
  obtain ⟨k, hk, rfl⟩ := List.getElem_of_mem he
  rw [List.length_drop] at hk
  refine ⟨n + k, ?_, Nat.le_add_right n k, by omega⟩
  rw [List.getElem_drop]
  exact h (n + k) _ (List.getElem?_eq_getElem (by omega))

theorem window_complete {log : List (HubBufferEntry α)} (h : Numbered log) (since : Option Int)
    {lo : Nat}
    (hsince : ∀ s, since = some s → -1 ≤ s) :
    (Poll.mk since (window log since lo)).Complete := by
  rintro s rfl seq hlow hhigh
  have hs := hsince s rfl
  replace hhigh : seq ≤ (log.length : Int) - 1 := hhigh
  by_cases hleft : (lo : Int) ≤ seq
  · -- it is there
    obtain ⟨i, rfl⟩ := Int.eq_ofNat_of_zero_le (show 0 ≤ seq by omega)
    have hi : i < log.length := by omega
    refine Or.inl ⟨log[i], ?_, h i _ (List.getElem?_eq_getElem hi)⟩
    refine List.mem_drop_iff_getElem.mpr
      ⟨i - max lo (s + 1).toNat, by simp only [Option.elim_some]; omega, ?_⟩
    congr 1
    simp only [Option.elim_some]
    omega
  · by_cases hnone : lo = log.length
    · refine Or.inr (Or.inl ⟨List.drop_eq_nil_of_le ?_, if_pos hnone⟩)
      omega
    · refine Or.inr (Or.inr ?_)
      show s + 1 < if lo = log.length then -1 else (lo : Int)
      rw [if_neg hnone]
      omega

/-- A poll that the log answers delivers what is new. -/
theorem Delivered.answered {h : History α} (hd : Delivered h) {lo : Nat} :
    Delivered (h.answered (window h.log h.cursor lo)) := by
  have hentries : ∀ e ∈ (window h.log h.cursor lo).entries, e ∈ h.log ∧
      e.seq ≤ (h.log.length : Int) - 1 ∧
      ∀ c, h.cursor = some c → c < e.seq := by
    intro e he
    obtain ⟨i, hseq, hlow, hhigh⟩ := hd.numbered.mem_drop he
    refine ⟨List.mem_of_mem_drop he, by omega, fun c hc => ?_⟩
    rw [hc, Option.elim_some] at hlow
    omega
  refine ⟨hd.numbered, ?_, ?_, ?_, ?_, ?_⟩
  · rintro c ⟨⟩
    exact ⟨by simp only [window]; omega, by simp only [window]; show _ < (h.log.length : Int); omega⟩
  · rintro ⟨⟩
  · intro p hp e he
    rcases List.mem_append.mp hp with hp | hp
    · obtain ⟨hmem, hle⟩ := hd.delivered p hp e he
      refine ⟨hmem, ?_⟩
      rintro c ⟨⟩
      obtain ⟨i, hi⟩ := List.getElem?_of_mem hmem
      have hseq := hd.numbered i e hi
      have hlt := (List.getElem?_eq_some_iff.mp hi).1
      simp only [window]
      omega
    · rw [List.mem_singleton.mp hp] at he
      obtain ⟨hmem, hle, _⟩ := hentries e he
      refine ⟨hmem, ?_⟩
      rintro c ⟨⟩
      exact hle
  · show ((h.polls ++ [_]).flatMap fun (p : Poll α) => p.data.entries).Pairwise _
    rw [List.flatMap_append, List.flatMap_singleton, List.pairwise_append]
    refine ⟨hd.increasing, hd.numbered.pairwise.sublist (List.drop_sublist _ _), ?_⟩
    intro a ha b hb
    obtain ⟨p, hp, ha⟩ := List.mem_flatMap.mp ha
    cases hcursor : h.cursor with
    | none =>
        rw [hd.first hcursor] at hp
        cases hp
    | some c =>
        have hle := (hd.delivered p hp a ha).2 c hcursor
        have hlt := (hentries b hb).2.2 c hcursor
        omega
  · intro p hp
    rcases List.mem_append.mp hp with hp | hp
    · exact hd.complete p hp
    · rw [List.mem_singleton.mp hp]
      exact window_complete hd.numbered h.cursor fun s hs => (hd.cursor s hs).1

theorem Numbered.append {log : List (HubBufferEntry α)} (h : Numbered log)
    (full : HubBufferEntry α) :
    Numbered (log ++ [{ full with seq := log.length }]) := by
  intro i e he
  rcases Runs.getElem?_append_cases he with hold | ⟨rfl, rfl⟩
  · exact h i e hold
  · rfl

theorem Delivered.added {h : History α} (hd : Delivered h) (full : HubBufferEntry α) :
    Delivered (h.added full) := by
  refine ⟨hd.numbered.append full, ?_, hd.first, ?_, hd.increasing, hd.complete⟩
  · intro c hc
    obtain ⟨hlow, hhigh⟩ := hd.cursor c hc
    refine ⟨hlow, ?_⟩
    show c < ((h.log ++ [_]).length : Int)
    rw [List.length_append, List.length_singleton]
    omega
  · intro p hp e he
    obtain ⟨hmem, hle⟩ := hd.delivered p hp e he
    exact ⟨List.mem_append_left _ hmem, hle⟩

theorem delivered_empty : Delivered ({} : History α) :=
  ⟨by rintro i e ⟨⟩, by rintro c ⟨⟩, fun _ => rfl, by rintro p ⟨⟩, List.Pairwise.nil, by rintro p ⟨⟩⟩

/-! ## The ring buffer -/

variable {capacity : Nat}

/-- What is left of the log is in the slots. -/
structure Retains (b : HubRingBuffer capacity α) (log : List (HubBufferEntry α)) : Prop where
  next  : b.nextSeq = log.length
  valid : b.minValidSeq ≤ log.length
  slots : ∀ i, b.oldestSeq ≤ i → i < log.length → b.slots (i % capacity) = log[i]?

/-- Slots that are less than a round apart differ. -/
theorem mod_ne {a b : Nat} (hlt : a < b) (hround : b - a < capacity) :
    a % capacity ≠ b % capacity := by
  intro heq
  have hdvd : capacity ∣ b - a := Nat.dvd_of_mod_eq_zero (Nat.sub_mod_eq_zero_of_mod_eq heq.symm)
  have hle := Nat.le_of_dvd (by omega) hdvd
  omega

theorem filterMap_range'_eq_drop {f : Nat → Option (HubBufferEntry α)}
    {log : List (HubBufferEntry α)}
    {first n : Nat} (hn : first + n = log.length)
    (hf : ∀ i, first ≤ i → i < log.length → f i = log[i]?) :
    (List.range' first n).filterMap f = log.drop first := by
  induction n generalizing first with
  | zero =>
      rw [List.drop_eq_nil_of_le (by omega)]
      rfl
  | succ n ih =>
      have hfirst : first < log.length := by omega
      rw [List.range'_succ, List.drop_eq_getElem_cons hfirst, ← ih (by omega) fun i hi =>
        hf i (by omega)]
      have hhead : f first = some log[first] := by
        rw [hf first (Nat.le_refl _) hfirst]
        exact List.getElem?_eq_getElem hfirst
      rw [List.filterMap_cons_some hhead]

variable {b : HubRingBuffer capacity α} {log : List (HubBufferEntry α)}

theorem Retains.collect (h : Retains b log) (hlog : Numbered log) (startSeq : Int) :
    b.collect startSeq = log.drop (max startSeq b.oldestSeq).toNat := by
  have hfirst : (max startSeq (max (b.oldestSeq : Int) 0)).toNat =
      (max startSeq b.oldestSeq).toNat := by
    omega
  rw [HubRingBuffer.collect, hfirst, h.next]
  by_cases hle : (max startSeq (b.oldestSeq : Int)).toNat ≤ log.length
  · refine filterMap_range'_eq_drop (by omega) fun i hlow hhigh => ?_
    rw [h.slots i (by omega) hhigh, List.getElem?_eq_getElem hhigh, Option.filter_some,
      if_pos (decide_eq_true (hlog i _ (List.getElem?_eq_getElem hhigh)))]
  · rw [Nat.sub_eq_zero_of_le (by omega), List.drop_eq_nil_of_le (by omega)]
    rfl

theorem Retains.oldest_le (h : Retains b log) : b.oldestSeq ≤ log.length := by
  have hnext := h.next
  have hvalid := h.valid
  rw [HubRingBuffer.oldestSeq]
  omega

theorem Retains.read (h : Retains b log) (hlog : Numbered log) (since : Option Int) :
    b.read since none = window log since b.oldestSeq := by
  have hdropped : b.firstRetainedSeq = if b.oldestSeq = log.length then -1
      else (b.oldestSeq : Int) := by
    have hle := h.oldest_le
    rw [HubRingBuffer.firstRetainedSeq, HubRingBuffer.size, h.next]
    by_cases hnone : b.oldestSeq = log.length
    · rw [if_pos (by omega), if_pos hnone]
    · rw [if_neg (by omega), if_neg hnone]
  have hlast : b.lastSeq = (log.length : Int) - 1 := by rw [HubRingBuffer.lastSeq, h.next]
  -- nothing is older than a round
  have hround : (b.nextSeq : Int) - max 0 (capacity : Int) ≤ b.oldestSeq := by
    rw [HubRingBuffer.oldestSeq]
    omega
  rw [HubRingBuffer.read, window, hdropped, hlast]
  congr 1
  cases since with
  | none =>
      rw [Option.elim_none, Option.elim_none, HubRingBuffer.recent, h.collect hlog,
        Option.getD_none]
      congr 1
      omega
  | some s =>
      rw [Option.elim_some, Option.elim_some, HubRingBuffer.since, h.collect hlog, Option.getD_none]
      congr 1
      omega

theorem Retains.add (h : Retains b log) (entry : NewEntry α) (now : Int) :
    Retains (b.add entry now).2 (log ++ [{ (b.add entry now).1 with seq := log.length }]) := by
  have hnext := h.next
  have hfull : (b.add entry now).1 = { (b.add entry now).1 with seq := log.length } := by
    rw [HubRingBuffer.add, hnext]
  refine ⟨?_, ?_, ?_⟩
  · rw [List.length_append, ← hnext]
    rfl
  · rw [List.length_append]
    exact Nat.le_add_right_of_le h.valid
  · intro i hlow hhigh
    rw [List.length_append, List.length_singleton] at hhigh
    have holdest : b.oldestSeq ≤ i ∧ b.nextSeq + 1 - capacity ≤ i := by
      rw [HubRingBuffer.oldestSeq] at hlow ⊢
      simp only [HubRingBuffer.add] at hlow
      omega
    show (if i % capacity = b.nextSeq % capacity then some (b.add entry now).1
        else b.slots (i % capacity)) = _
    by_cases hlast : i = log.length
    · subst hlast
      rw [hnext, if_pos rfl, List.getElem?_concat_length, ← hfull]
    · have hold : i < log.length := by omega
      rw [if_neg (mod_ne (by omega) (by omega)), h.slots i holdest.1 hold,
        List.getElem?_append_left hold]

theorem Retains.clear (h : Retains b log) : Retains b.clear log := by
  refine ⟨h.next, Nat.le_of_eq h.next, fun i hlow hhigh => ?_⟩
  have hnext := h.next
  simp only [HubRingBuffer.oldestSeq, HubRingBuffer.clear] at hlow
  omega

/-! ## The shared list -/

/-- An entry without its number, which is another one in each replica. -/
def HubBufferEntry.content (e : HubBufferEntry α) : Int × α := (e.timestamp, e.data)

/-- The list has what the log has from `lo` on, newest first. -/
structure Mirrors (list : List (HubBufferEntry α)) (log : List (HubBufferEntry α)) (lo : Nat) :
    Prop where
  le      : lo ≤ log.length
  content : list.map HubBufferEntry.content = ((log.drop lo).map HubBufferEntry.content).reverse

variable {list : List (HubBufferEntry α)} {lo : Nat}

theorem Mirrors.length (h : Mirrors list log lo) : list.length = log.length - lo := by
  have hlength := congrArg List.length h.content
  rwa [List.length_map, List.length_reverse, List.length_map, List.length_drop] at hlength

theorem Mirrors.take (h : Mirrors list log lo) (n : Nat) :
    Mirrors (list.take n) log (max lo (log.length - n)) := by
  have hle := h.le
  refine ⟨by omega, ?_⟩
  rw [List.map_take, h.content, List.take_reverse, List.length_map, List.length_drop,
    ← List.map_drop, List.drop_drop]
  congr 3
  omega

theorem Mirrors.cons (h : Mirrors list log lo) (full : HubBufferEntry α) :
    Mirrors (full :: list) (log ++ [{ full with seq := log.length }]) lo := by
  have hle := h.le
  refine ⟨by rw [List.length_append]; omega, ?_⟩
  rw [List.drop_append_of_le_length hle, List.map_append, List.reverse_append, List.map_cons,
    h.content]
  rfl

/-- The numbers are given again when the list is read. -/
theorem Mirrors.stamped (h : Mirrors list log lo) (hlog : Numbered log) :
    (list.zipIdx.map fun e => { e.1 with seq := (log.length : Int) - 1 - e.2 }).reverse =
      log.drop lo := by
  have hlength := h.length
  have hle := h.le
  refine List.ext_getElem ?_ fun i hi hi' => ?_
  · rw [List.length_reverse, List.length_map, List.length_zipIdx, List.length_drop, hlength]
  · rw [List.length_drop] at hi'
    have hk : list.length - 1 - i < list.length := by omega
    have hsame : (list[list.length - 1 - i]).content = (log[lo + i]).content := by
      have hat : (list.map HubBufferEntry.content)[list.length - 1 - i]? =
          ((log.drop lo).map HubBufferEntry.content).reverse[list.length - 1 - i]? := by
            rw [h.content]
      rw [List.getElem?_reverse (by rw [List.length_map, List.length_drop]; omega), List.length_map,
        List.length_drop, List.getElem?_map, List.getElem?_map, List.getElem?_drop,
        List.getElem?_eq_getElem hk,
        show lo + (log.length - lo - 1 - (list.length - 1 - i)) = lo + i by omega,
        List.getElem?_eq_getElem (show lo + i < log.length by omega)] at hat
      exact Option.some.inj hat
    have hseq := hlog (lo + i) _ (List.getElem?_eq_getElem (by omega))
    rw [List.getElem_reverse, List.getElem_map, List.getElem_zipIdx, List.getElem_drop]
    simp only [List.length_map, List.length_zipIdx, Nat.zero_add]
    generalize list[list.length - 1 - i] = x at hsame
    generalize log[lo + i] = y at hsame hseq
    obtain ⟨seq, timestamp, data⟩ := y
    cases hsame
    subst hseq
    congr 1
    omega

/-- Whatever range is read, the answer is one of the log. -/
theorem Mirrors.shape (h : Mirrors list log lo) (hlog : Numbered log)
    (hcapacity : log.length - lo ≤ capacity)
    {since : Option Int} (hsince : ∀ s, since = some s → -1 ≤ s ∧ s < log.length) (want : Int) :
    Hub.shape log.length (list.take want.toNat) (needed capacity since none log.length) =
      window log since (max lo (log.length - want.toNat)) := by
  have hraw := h.take want.toNat
  have hlength := hraw.length
  have hle := hraw.le
  rw [Hub.shape, window]
  congr 1
  · by_cases hnone : max lo (log.length - want.toNat) = log.length
    · rw [if_neg (by omega), if_pos hnone]
    · rw [if_pos (by omega), if_neg hnone]
      omega
  · rw [(hraw.take _).stamped hlog]
    congr 1
    cases since with
    | none =>
        rw [needed, Option.elim_none, Option.elim_none, cap, Option.getD_none]
        omega
    | some s =>
        obtain ⟨hlow, hhigh⟩ := hsince s rfl
        rw [needed, Option.elim_some, Option.elim_some, cap, Option.getD_none]
        omega

/-- What the shared list holds of the log. -/
structure Shares (capacity : Nat) (shared : SharedList α) (log : List (HubBufferEntry α)) :
    Prop where
  total : shared.total = log.length
  list  : ∃ lo, Mirrors shared.list log lo ∧ log.length - lo ≤ capacity

theorem Shares.append {shared : SharedList α} (h : Shares capacity shared log)
    (full : HubBufferEntry α) :
    Shares capacity (shared.apply capacity (.append full)) (log ++
      [{ full with seq := log.length }]) := by
  obtain ⟨lo, hlist, _⟩ := h.list
  refine ⟨?_, _, (hlist.cons full).take capacity, by omega⟩
  rw [List.length_append, ← h.total]
  rfl

theorem Shares.clear {shared : SharedList α} (h : Shares capacity shared log) :
    Shares capacity { shared with list := [] } log := by
  refine ⟨h.total, log.length, ⟨Nat.le_refl _, ?_⟩, by omega⟩
  rw [List.drop_length]
  rfl

/-- A round that answers gives an answer of the log. -/
theorem Shares.round {shared : SharedList α} (h : Shares capacity shared log) (hlog : Numbered log)
    {since : Option Int} (hsince : ∀ s, since = some s → -1 ≤ s ∧ s < log.length) {want : Int}
    {attempt : Nat} {data : HubBufferData α}
    (hround : readRound capacity since none want attempt shared = .answer data) :
    ∃ lo, data = window log since lo := by
  obtain ⟨lo, hlist, hcapacity⟩ := h.list
  refine ⟨max lo (log.length - want.toNat), ?_⟩
  rw [← hlist.shape hlog hcapacity hsince want, ← h.total]
  rw [readRound] at hround
  split at hround
  · exact (Round.answer.inj hround).symm
  · cases hround

/-! ## Runs -/

structure LocalState.Good (s : LocalState capacity α) : Prop where
  retains   : Retains s.buffer s.history.log
  delivered : Delivered s.history

theorem LocalState.Good.step {s t : LocalState capacity α} {e : LocalEvent α} (hs : s.Good)
    (h : s.step e = some t) : t.Good := by
  cases e with
  | add entry now =>
      cases h
      exact ⟨hs.retains.add entry now, hs.delivered.added _⟩
  | clear =>
      cases h
      exact ⟨hs.retains.clear, hs.delivered⟩
  | poll =>
      cases h
      refine ⟨hs.retains, ?_⟩
      dsimp only
      rw [hs.retains.read hs.delivered.numbered]
      exact hs.delivered.answered

structure SharedState.Good (s : SharedState capacity α) : Prop where
  shares    : Shares capacity s.shared s.history.log
  delivered : Delivered s.history

theorem SharedState.Good.step {s t : SharedState capacity α} {e : SharedEvent α} (hs : s.Good)
    (h : s.step e = some t) : t.Good := by
  cases e with
  | add replica entry now =>
      cases h
      exact ⟨hs.shares, hs.delivered⟩
  | clear replica =>
      cases h
      exact ⟨hs.shares, hs.delivered⟩
  | arrives i =>
      obtain ⟨mirror, _, rfl⟩ := Option.map_eq_some_iff.mp h
      cases mirror with
      | append full => exact ⟨hs.shares.append full, hs.delivered.added full⟩
      | clear => exact ⟨hs.shares.clear, hs.delivered⟩
  | expires =>
      cases h
      exact ⟨hs.shares.clear, hs.delivered⟩
  | poll =>
      rw [SharedState.step] at h
      split at h
      · cases h
        exact ⟨hs.shares, hs.delivered⟩
      · cases h
  | round =>
      obtain ⟨⟨want, attempt⟩, _, hround⟩ := Option.map_eq_some_iff.mp h
      dsimp only at hround
      split at hround
      · rename_i data hanswer
        subst hround
        obtain ⟨lo, rfl⟩ := hs.shares.round hs.delivered.numbered hs.delivered.cursor hanswer
        exact ⟨hs.shares, hs.delivered.answered⟩
      · subst hround
        exact ⟨hs.shares, hs.delivered⟩

theorem good_local : LocalState.Good ({} : LocalState capacity α) :=
  ⟨⟨rfl, Nat.le_refl 0, fun i _ hi => absurd hi (Nat.not_lt_zero i)⟩, delivered_empty⟩

theorem good_shared : SharedState.Good ({} : SharedState capacity α) :=
  ⟨⟨rfl, 0, ⟨Nat.le_refl 0, rfl⟩, Nat.zero_le _⟩, delivered_empty⟩

/-- **Polling.** A reader of one process, and one of many replicas, gets each entry at most once
    and in order, and sees what is lost. -/
theorem exactly_once (capacity : ℚ) :
    (∀ events (s : LocalState (capacityOf capacity) α),
      Runs.run LocalState.step {} events = some s → Delivered s.history) ∧
    ∀ events (s : SharedState (capacityOf capacity) α),
      Runs.run SharedState.step {} events = some s → Delivered s.history := by
  constructor
  · intro events s hrun
    exact (Runs.run_invariant_all _ (fun _ _ _ hs hstep => hs.step hstep) good_local hrun).delivered
  · intro events s hrun
    exact (Runs.run_invariant_all _ (fun _ _ _ hs hstep =>
      hs.step hstep) good_shared hrun).delivered

/-- Two entries in a buffer for one, and a poll before and after. -/
def localEvents : List (LocalEvent String) :=
  [.poll, .add { data := "a" } 5, .add { data := "b" } 6, .poll, .clear, .poll]

def sharedEvents : List (SharedEvent String) :=
  [.poll, .round, .add 0 { data := "a" } 5, .add 1 { data := "b" } 6, .arrives 1, .poll, .arrives 0,
    .round]

theorem exactly_once_events :
    (∃ s : LocalState (capacityOf 1) String, Runs.run LocalState.step {} localEvents = some s ∧
      Delivered s.history) ∧
    ∃ s : SharedState (capacityOf 1) String, Runs.run SharedState.step {} sharedEvents = some s ∧
      Delivered s.history := by
  have hlocal : Runs.run LocalState.step ({} : LocalState (capacityOf 1) String) localEvents =
      some _ := rfl
  have hshared : Runs.run SharedState.step ({} : SharedState (capacityOf 1) String) sharedEvents =
      some _ := rfl
  exact ⟨⟨_, hlocal, (exactly_once 1).1 _ _ hlocal⟩, ⟨_, hshared, (exactly_once 1).2 _ _ hshared⟩⟩

end Hub
