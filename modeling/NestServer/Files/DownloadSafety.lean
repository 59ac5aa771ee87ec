import NestServer.Files.Downloads

/-! # What downloads serve

    The stores only grow in what they have ever had, so what a thread has been told of an id
    stays true; what it has been told of a name stays true while nobody disturbs it. -/

namespace Files.Downloads

open Dialogue Interleaving Mongo

variable {drives drives' : Drives} {config : Config} {caller : Caller} {filename : String}

/-! ## The stores over time -/

/-- All that is in a store has been recorded. -/
structure Recorded (drives : Drives) (driver : FileStorageDriver) (store : Store) : Prop where
  files : ∀ info ∈ store.files,
    drives.described info.id = some (shown driver info) ∧
      ∃ content, drives.written info.id = some (driver, content)
  bytes : ∀ id content, store.bytes id = some content → drives.written id = some (driver, content)

def Drives.Sound (drives : Drives) : Prop := ∀ driver, Recorded drives driver
    (drives.stores.get driver)

/-- Nothing that has been recorded is lost. -/
structure Grows (drives drives' : Drives) : Prop where
  described : ∀ id info, drives.described id = some info → drives'.described id = some info
  written   : ∀ id found, drives.written id = some found → drives'.written id = some found

theorem update_eq_some {α : Type} {f : ObjectId → Option α} {id other : ObjectId} {a b : α}
    (hnew : f id = none)
    (h : f other = some b) : Function.update f id (some a) other = some b := by
  have hne : other ≠ id := by
    rintro rfl
    rw [hnew] at h
    cases h
  rw [Function.update_of_ne hne, h]

theorem change_grows {change : Change} (h : drives.change change = some drives') :
    Grows drives drives' := by
  cases change with
  | put driver id content =>
      rw [Drives.change] at h
      split at h
      · rename_i hnew
        obtain rfl := Option.some.inj h
        exact ⟨fun _ _ hinfo => hinfo, fun _ _ hfound => update_eq_some hnew hfound⟩
      · cases h
  | insert driver info =>
      rw [Drives.change] at h
      split at h
      · rename_i hnew
        obtain rfl := Option.some.inj h
        exact ⟨fun _ _ hinfo => update_eq_some hnew.2 hinfo, fun _ _ hfound => hfound⟩
      · cases h
  | drop driver id =>
      obtain rfl := Option.some.inj h
      exact ⟨fun _ _ hinfo => hinfo, fun _ _ hfound => hfound⟩
  | delete driver id =>
      obtain rfl := Option.some.inj h
      exact ⟨fun _ _ hinfo => hinfo, fun _ _ hfound => hfound⟩

/-- A store that has changed, and the others. -/
theorem get_set_cases {P : FileStorageDriver → Store → Prop} (stores : Stores) {store : Store}
    {driver : FileStorageDriver} (hstore : P driver store) (hothers : ∀ other,
      P other (stores.get other))
    (other : FileStorageDriver) : P other ((stores.set store driver).get other) := by
  by_cases hother : other = driver
  · rw [hother, Stores.get_set]
    exact hstore
  · rw [Stores.get_set_of_ne stores store hother]
    exact hothers other

theorem Recorded.mono {driver : FileStorageDriver} {store : Store}
    (h : Recorded drives driver store)
    (hgrows : Grows drives drives') : Recorded drives' driver store where
  files := fun info hinfo =>
    have ⟨hdescribed, content, hwritten⟩ := h.files info hinfo
    ⟨hgrows.described _ _ hdescribed, content, hgrows.written _ _ hwritten⟩
  bytes := fun id content hcontent => hgrows.written _ _ (h.bytes id content hcontent)

theorem change_sound (hsound : drives.Sound) {change : Change}
    (h : drives.change change = some drives') :
    drives'.Sound := by
  have hothers : ∀ driver, Recorded drives' driver (drives.stores.get driver) := fun driver =>
    (hsound driver).mono (change_grows h)
  cases change with
  | put driver id content =>
      rw [Drives.change] at h
      split at h
      · obtain rfl := Option.some.inj h
        refine get_set_cases _ ⟨(hothers driver).files, fun other found hfound => ?_⟩ hothers
        by_cases hother : other = id
        · subst hother
          rw [put_bytes_self] at hfound
          rw [← Option.some.inj hfound]
          exact Function.update_self ..
        · have hupdate : Function.update (drives.stores.get driver).bytes id (some content) other =
              some found := hfound
          rw [Function.update_of_ne hother] at hupdate
          exact (hothers driver).bytes other found hupdate
      · cases h
  | insert driver info =>
      rw [Drives.change] at h
      split at h
      · rename_i hnew
        obtain rfl := Option.some.inj h
        refine get_set_cases _ ⟨fun other hother => ?_, (hothers driver).bytes⟩ hothers
        rcases List.mem_append.mp hother with hold | hlast
        · exact (hothers driver).files other hold
        · obtain rfl := List.mem_singleton.mp hlast
          obtain ⟨⟨store, content⟩, hwritten, rfl⟩ := Option.map_eq_some_iff.mp hnew.1
          exact ⟨Function.update_self .., content, hwritten⟩
      · cases h
  | drop driver id =>
      obtain rfl := Option.some.inj h
      refine get_set_cases _ ⟨(hothers driver).files, fun other found hfound => ?_⟩ hothers
      have hupdate : Function.update (drives.stores.get driver).bytes id none other = some found :=
        hfound
      by_cases hother : other = id
      · rw [hother, Function.update_self] at hupdate
        cases hupdate
      · rw [Function.update_of_ne hother] at hupdate
        exact (hothers driver).bytes other found hupdate
  | delete driver id =>
      obtain rfl := Option.some.inj h
      refine get_set_cases _ ⟨fun info hinfo => ?_, (hothers driver).bytes⟩ hothers
      exact (hothers driver).files info (List.mem_filter.mp hinfo).1

/-! ## What a thread has been told -/

theorem newest_mem {infos : List FileInfo} {info : FileInfo} (h : newest infos = some info) :
    info ∈ infos := by
  induction infos generalizing info with
  | nil => cases h
  | cons first rest ih =>
      obtain rfl := Option.some.inj h
      cases hrest : newest rest with
      | none => exact List.mem_cons_self ..
      | some other =>
          show newer first other ∈ first :: rest
          rw [newer]
          split
          · exact List.mem_cons_of_mem _ (ih hrest)
          · exact List.mem_cons_self ..

theorem shown_id (driver : FileStorageDriver) (info : FileInfo) :
    (shown driver info).id = info.id := by
  cases driver <;> rfl

/-- What is found is a document of the store. -/
theorem find_eq_some {driver : FileStorageDriver} {key : Key} {info : FileInfo}
    (h : drives.find driver key = some info) :
    ∃ raw ∈ (drives.stores.get driver).files, info = shown driver raw ∧ ∀ id, key = .id id →
      raw.id = id := by
  cases key with
  | id id =>
      obtain ⟨raw, hraw, rfl⟩ := Option.map_eq_some_iff.mp h
      obtain ⟨hmem, hid⟩ := Store.findById_eq_some hraw
      refine ⟨raw, hmem, rfl, ?_⟩
      rintro _ ⟨⟩
      exact hid
  | name filename =>
      obtain ⟨raw, hraw, rfl⟩ := Option.map_eq_some_iff.mp h
      exact ⟨raw, (List.mem_filter.mp (newest_mem hraw)).1, rfl, by rintro id ⟨⟩⟩

structure Told (drives : Drives) (h : Log) : Prop where
  found  : ∀ driver key info, asked driver key (some info) ∈ h →
    drives.described info.id = some info ∧ ∀ id, key = .id id → info.id = id
  read   : ∀ driver id result, served driver id (some result) ∈ h →
    result.id = id ∧ drives.written id = some (result.driver, result.content) ∧
      (driver = .gridfs → ∃ info, drives.described id = some info)
  byName : ∀ filename result, servedByName filename (some result) ∈ h →
    drives.written result.id = some (result.driver, result.content) ∧
      ∃ info, drives.described result.id = some info

theorem Told.nil : Told drives [] := ⟨by rintro _ _ _ ⟨⟩, by rintro _ _ _ ⟨⟩, by rintro _ _ ⟨⟩⟩

theorem Told.mono {h : Log} (htold : Told drives h) (hgrows : Grows drives drives') :
    Told drives' h where
  found  := fun driver key info hinfo =>
    have ⟨hdescribed, hid⟩ := htold.found driver key info hinfo
    ⟨hgrows.described _ _ hdescribed, hid⟩
  read   := fun driver id result hresult =>
    have ⟨hid, hwritten, hgridfs⟩ := htold.read driver id result hresult
    ⟨hid, hgrows.written _ _ hwritten, fun hdriver => (hgridfs hdriver).imp fun _ =>
      hgrows.described _ _⟩
  byName := fun filename result hresult =>
    have ⟨hwritten, info, hinfo⟩ := htold.byName filename result hresult
    ⟨hgrows.written _ _ hwritten, info, hgrows.described _ _ hinfo⟩

theorem read_eq_some (hsound : drives.Sound) {driver : FileStorageDriver} {id : ObjectId}
    {result : Served}
    (h : drives.read driver id = some result) :
    result.id = id ∧ drives.written id = some (result.driver, result.content) ∧
      (driver = .gridfs → ∃ info, drives.described id = some info) := by
  rw [Drives.read] at h
  split at h
  · cases h
  · rename_i hgridfs
    obtain ⟨content, hcontent, rfl⟩ := Option.map_eq_some_iff.mp h
    refine ⟨rfl, (hsound driver).bytes id content hcontent, fun hdriver => ?_⟩
    cases hfound : drives.stores.gridfs.findById id with
    | none =>
        rw [hfound] at hgridfs
        exact absurd ⟨hdriver, rfl⟩ hgridfs
    | some info =>
        obtain ⟨hmem, rfl⟩ := Store.findById_eq_some hfound
        exact ⟨_, ((hsound .gridfs).files info hmem).1⟩

theorem told_append {h h' : Log} (htold : Told drives h) (htold' : Told drives h') :
    Told drives (h ++ h') where
  found  := fun driver key info hinfo =>
    (List.mem_append.mp hinfo).elim (htold.found driver key info)
    (htold'.found driver key info)
  read   := fun driver id result hresult =>
    (List.mem_append.mp hresult).elim (htold.read driver id result)
    (htold'.read driver id result)
  byName := fun filename result hresult =>
    (List.mem_append.mp hresult).elim (htold.byName filename result)
    (htold'.byName filename result)

theorem told_asked (hsound : drives.Sound) (driver : FileStorageDriver) (key : Key) :
    Told drives [asked driver key (drives.find driver key)] where
  found  := by
    intro driver' key' info hinfo
    obtain ⟨hq, ha⟩ := Sigma.mk.inj (List.mem_singleton.mp hinfo)
    obtain ⟨rfl, rfl⟩ := Question.find.inj hq
    obtain ⟨raw, hraw, rfl, hid⟩ := find_eq_some (eq_of_heq ha).symm
    rw [shown_id]
    exact ⟨((hsound driver').files raw hraw).1, hid⟩
  read   := by
    intro driver' id result hresult
    cases (Sigma.mk.inj (List.mem_singleton.mp hresult)).1
  byName := by
    intro filename result hresult
    cases (Sigma.mk.inj (List.mem_singleton.mp hresult)).1

theorem told_presign (url : Bool) : Told drives [⟨.presign, url⟩] where
  found  := by
    intro driver key info hinfo
    cases (Sigma.mk.inj (List.mem_singleton.mp hinfo)).1
  read   := by
    intro driver id result hresult
    cases (Sigma.mk.inj (List.mem_singleton.mp hresult)).1
  byName := by
    intro filename result hresult
    cases (Sigma.mk.inj (List.mem_singleton.mp hresult)).1

theorem told_served (hsound : drives.Sound) (driver : FileStorageDriver) (id : ObjectId) :
    Told drives [served driver id (drives.read driver id)] where
  found  := by
    intro driver' key info hinfo
    cases (Sigma.mk.inj (List.mem_singleton.mp hinfo)).1
  read   := by
    intro driver' id' result hresult
    obtain ⟨hq, ha⟩ := Sigma.mk.inj (List.mem_singleton.mp hresult)
    obtain ⟨rfl, rfl⟩ := Question.read.inj hq
    exact read_eq_some hsound (eq_of_heq ha).symm
  byName := by
    intro filename result hresult
    cases (Sigma.mk.inj (List.mem_singleton.mp hresult)).1

theorem told_servedByName (hsound : drives.Sound) (filename : String) (choice : Nat) :
    Told drives [servedByName filename (drives.readByName filename choice)] where
  found  := by
    intro driver key info hinfo
    cases (Sigma.mk.inj (List.mem_singleton.mp hinfo)).1
  read   := by
    intro driver id result hresult
    cases (Sigma.mk.inj (List.mem_singleton.mp hresult)).1
  byName := by
    intro filename' result hresult
    obtain ⟨hq, ha⟩ := Sigma.mk.inj (List.mem_singleton.mp hresult)
    obtain rfl := Question.readByName.inj hq
    obtain ⟨info, _, hread⟩ := Option.bind_eq_some_iff.mp (eq_of_heq ha).symm
    obtain ⟨hid, hwritten, hdescribed⟩ := read_eq_some hsound hread
    rw [hid]
    exact ⟨hwritten, hdescribed rfl⟩

/-- One more answer. -/
theorem Told.heard {h : Log} (htold : Told drives h) (hsound : drives.Sound) {choice : Nat}
    {q : Question}
    {a : Answer q} (hexec : exec drives choice q = some (a, drives')) :
    drives' = drives ∧ Told drives (h ++ [⟨q, a⟩]) := by
  cases q with
  | find driver key =>
      obtain ⟨rfl, rfl⟩ := Prod.mk.inj (Option.some.inj hexec)
      exact ⟨rfl, told_append htold (told_asked hsound driver key)⟩
  | presign =>
      obtain ⟨rfl, rfl⟩ := Prod.mk.inj (Option.some.inj hexec)
      exact ⟨rfl, told_append htold (told_presign _)⟩
  | read driver id =>
      obtain ⟨rfl, rfl⟩ := Prod.mk.inj (Option.some.inj hexec)
      exact ⟨rfl, told_append htold (told_served hsound driver id)⟩
  | readByName filename =>
      obtain ⟨rfl, rfl⟩ := Prod.mk.inj (Option.some.inj hexec)
      exact ⟨rfl, told_append htold (told_servedByName hsound filename choice)⟩

/-! ## Two lookups of a name -/

/-- What the answers say of one file: that of the first lookup is that of the second. -/
def Agree (filename : String) (h : Log) : Prop :=
  ∀ driver a b, asked driver (.name filename) a ∈ h → asked driver (.name filename) b ∈ h → a = b

/-- The answers would be the same now. -/
def Current (drives : Drives) (filename : String) (h : Log) : Prop :=
  ∀ driver a, asked driver (.name filename) a ∈ h → a = drives.find driver (.name filename)

theorem Current.agree {h : Log} (hcurrent : Current drives filename h) : Agree filename h :=
  fun driver a b ha hb =>
  (hcurrent driver a ha).trans (hcurrent driver b hb).symm

/-- A thread of a caller who is asked for a document. -/
structure Steady (config : Config) (drives : Drives) (τ : Thread) : Prop where
  agree   : ∀ filename, τ.request.download.byName = some filename →
    ¬ Blanket τ.request.caller.currentUser τ.request.caller.force config.preset →
    Agree filename τ.said
  current : ∀ filename q next, τ.request.download.byName = some filename →
    ¬ Blanket τ.request.caller.currentUser τ.request.caller.force config.preset →
    τ.program = .ask q next → q.name = some filename → Current drives filename τ.said

theorem Sought.unique {drivers : List FileStorageDriver} {h : Log} (hagree : Agree filename h)
    {driver driver' : FileStorageDriver} {info info' : FileInfo}
    (hs : Sought (.name filename) drivers h (some (driver, info)))
    (hs' : Sought (.name filename) drivers h (some (driver', info'))) : info = info' := by
  obtain ⟨before, after, rfl, hbefore, hfound⟩ := hs
  obtain ⟨before', after', heq, hbefore', hfound'⟩ := hs'
  -- the one that is asked later has not been asked at all
  rcases List.append_eq_append_iff.mp heq with ⟨between, rfl, hrest⟩ | ⟨between, rfl, hrest⟩
  · cases between with
    | nil =>
        obtain ⟨rfl, _⟩ := List.cons.inj hrest
        exact Option.some.inj (hagree driver _ _ hfound hfound')
    | cons other between =>
        obtain ⟨rfl, _⟩ := List.cons.inj hrest
        cases hagree driver _ _ hfound
          (hbefore' driver (List.mem_append_right _ (List.mem_cons_self ..)))
  · cases between with
    | nil =>
        obtain ⟨rfl, _⟩ := List.cons.inj hrest
        exact Option.some.inj (hagree _ _ _ hfound hfound')
    | cons other between =>
        obtain ⟨rfl, _⟩ := List.cons.inj hrest
        cases hagree driver' _ _ hfound'
          (hbefore driver' (List.mem_append_right _ (List.mem_cons_self ..)))

theorem Sought.not_none {drivers : List FileStorageDriver} {h : Log} (hagree : Agree filename h)
    {driver : FileStorageDriver} {info : FileInfo}
      (hs : Sought (.name filename) drivers h (some (driver, info)))
    (hnone : Sought (.name filename) drivers h none) : False := by
  obtain ⟨hdriver, hfound⟩ := hs.found
  cases hagree driver _ _ hfound (hnone driver hdriver)

/-- A thread goes on: either it looks for the name again, or it has done so for the last time. -/
theorem Steady.heard {τ : Thread} (hsteady : Steady config drives τ)
    (hlawful : Lawful (law config) τ)
    {q : Question} {next : Answer q → Service (Option Served)} (hprogram : τ.program = .ask q next)
    {choice : Nat} {a : Answer q} (hexec : exec drives choice q = some (a, drives')) :
    Steady config drives (τ.heard q a (next a)) := by
  have hnext := hlawful.resume hprogram a
  have hcurrent : ∀ filename, τ.request.download.byName = some filename →
      ¬ Blanket τ.request.caller.currentUser τ.request.caller.force config.preset →
      q.name = some filename →
      Current drives filename (τ.said ++ [⟨q, a⟩]) := by
    intro filename hname hblanket hq driver b hb
    rcases List.mem_append.mp hb with hold | hlast
    · exact hsteady.current filename q next hname hblanket hprogram hq driver b hold
    · obtain ⟨rfl, ha⟩ := Sigma.mk.inj (List.mem_singleton.mp hlast)
      obtain ⟨hfound, _⟩ := Prod.mk.inj (Option.some.inj hexec)
      exact (eq_of_heq ha).trans hfound.symm
  refine ⟨fun filename hname hblanket => ?_, fun filename q' next' hname hblanket hprogram' hq' =>
    ?_⟩
  · by_cases hq : q.name = some filename
    · exact (hcurrent filename hname hblanket hq).agree
    · have hold : ∀ driver b, asked driver (.name filename) b ∈ τ.said ++ [⟨q, a⟩] →
          asked driver (.name filename) b ∈ τ.said := by
        intro driver b hb
        rcases List.mem_append.mp hb with hold | hlast
        · exact hold
        · obtain ⟨rfl, _⟩ := Sigma.mk.inj (List.mem_singleton.mp hlast)
          exact absurd rfl hq
      exact fun driver b b' hb hb' =>
        hsteady.agree filename hname hblanket driver b b' (hold _ _ hb) (hold _ _ hb')
  · -- it has asked for nothing but the name
    have hasks := hnext.asks hprogram' filename hname (by rw [hq']; exact Option.some_ne_none _)
    have hq : q.name = some filename :=
      hasks.2 ⟨q, a⟩ (List.mem_append_right _ (List.mem_singleton.mpr rfl))
    exact hcurrent filename hname hblanket hq

/-! ## All threads -/

structure Invariant (config : Config) (s : State) : Prop where
  lawful : AllLawful (law config) s
  sound  : s.store.Sound
  told   : ∀ τ ∈ s.threads, Told s.store τ.said
  steady : ∀ τ ∈ s.threads, Steady config s.store τ

theorem invariant_nil (config : Config) : Invariant config { store := {} } where
  lawful := allLawful_nil _
  sound  := by
    intro driver
    cases driver
    all_goals exact ⟨by rintro info ⟨⟩, by rintro id content ⟨⟩⟩
  told   := by rintro τ ⟨⟩
  steady := by rintro τ ⟨⟩

/-- **One step.** -/
theorem invariant_step {s t : State} {e : Event} (hs : Invariant config s)
    (he : Undisturbed config s e)
    (h : Interleaving.step (system config) s e = some t) : Invariant config t := by
  have hlawful := allLawful_step (wp_program config) hs.lawful h
  rcases step_cases h with ⟨request, rfl, rfl⟩ | ⟨i, choice, τ, q, next, a, drives, rfl, hτ,
    hprogram, hexec, rfl⟩ |
    ⟨change, drives, rfl, hchange, rfl⟩
  · refine ⟨hlawful, hs.sound, fun τ hτ => ?_, fun τ hτ => ?_⟩
    · rcases List.mem_append.mp hτ with hold | hnew
      · exact hs.told τ hold
      · rw [List.mem_singleton.mp hnew]
        exact Told.nil
    · rcases List.mem_append.mp hτ with hold | hnew
      · exact hs.steady τ hold
      · rw [List.mem_singleton.mp hnew]
        exact ⟨by rintro filename _ _ driver a b ⟨⟩, by rintro filename q next _ _ _ _ driver a ⟨⟩⟩
  · have hmem := List.mem_of_getElem? hτ
    obtain ⟨rfl, htold⟩ := (hs.told τ hmem).heard hs.sound hexec
    refine ⟨hlawful, hs.sound, fun τ' hτ' => ?_, fun τ' hτ' => ?_⟩
    · rcases List.mem_or_eq_of_mem_set hτ' with hold | rfl
      · exact hs.told τ' hold
      · exact htold
    · rcases List.mem_or_eq_of_mem_set hτ' with hold | rfl
      · exact hs.steady τ' hold
      · exact (hs.steady τ hmem).heard (hs.lawful τ hmem) hprogram hexec
  · refine ⟨hlawful, change_sound hs.sound hchange, fun τ hτ =>
      (hs.told τ hτ).mono (change_grows hchange), fun τ hτ =>
      ⟨(hs.steady τ hτ).agree, fun filename q next hname hblanket hprogram hq driver a ha => ?_⟩⟩
    have hbetween : Between config τ filename :=
      ⟨hname, hblanket, List.ne_nil_of_mem ha, q, next, hprogram, hq⟩
    rw [he drives hchange τ hτ filename hbetween driver]
    exact (hs.steady τ hτ).current filename q next hname hblanket hprogram hq driver a ha

/-- It does not matter whether a document is asked for by an id or by a name. -/
theorem allowed_name_iff {info : FileInfo} : allowed config caller .filename (some info) = true ↔
    allowed config caller .id (some info) = true := by
  by_cases hblanket : Blanket caller.currentUser caller.force config.preset
  · exact iff_of_true (decide_blanket hblanket) (decide_blanket hblanket)
  · exact (decide_data hblanket (Or.inr rfl)).trans (decide_data hblanket (Or.inl rfl)).symm

theorem servesApproved_of_invariant {s : State} (hs : Invariant config s) :
    ServesApproved config s := by
  intro τ hτ result hprogram
  have hresult := (hs.lawful τ hτ).result hprogram result rfl
  have htold := hs.told τ hτ
  cases hname : τ.request.download.byName with
  | none =>
      rw [hname] at hresult
      obtain ⟨driver, id, hserved, hchecked, hfound⟩ := hresult
      obtain ⟨rfl, hwritten, hgridfs⟩ := htold.read driver id result hserved
      refine ⟨hwritten, ?_⟩
      rcases hchecked with hblanket | ⟨other, info, hsought, hallowed⟩
      · by_cases hdriver : driver = .gridfs
        · obtain ⟨info, hinfo⟩ := hgridfs hdriver
          exact ⟨info, hinfo, decide_blanket hblanket⟩
        · obtain ⟨info, hinfo⟩ := hfound hdriver
          obtain ⟨hdescribed, hid⟩ := htold.found driver _ info hinfo
          rw [hid _ rfl] at hdescribed
          exact ⟨info, hdescribed, decide_blanket hblanket⟩
      · obtain ⟨hdescribed, hid⟩ := htold.found other _ info hsought.found.2
        rw [hid _ rfl] at hdescribed
        exact ⟨info, hdescribed, hallowed⟩
  | some filename =>
      rw [hname] at hresult
      obtain ⟨hchecked, hserved⟩ := hresult
      have hagree := fun hblanket => (hs.steady τ hτ).agree filename hname hblanket
      rcases hserved with ⟨driver, info, hsought, hread⟩ | ⟨hnone, hread⟩
      · obtain ⟨hid, hwritten, _⟩ := htold.read driver info.id result hread
        obtain ⟨hdescribed, _⟩ := htold.found driver _ info hsought.found.2
        rw [hid]
        refine ⟨hwritten, info, hdescribed, ?_⟩
        by_cases hblanket : Blanket τ.request.caller.currentUser τ.request.caller.force
          config.preset
        · exact decide_blanket hblanket
        · rcases hchecked with hall | ⟨other, first, hfirst, hallowed⟩
          · exact absurd hall hblanket
          · rw [hsought.unique (hagree hblanket) hfirst]
            exact allowed_name_iff.mp hallowed
      · obtain ⟨hwritten, info, hdescribed⟩ := htold.byName filename result hread
        refine ⟨hwritten, info, hdescribed, ?_⟩
        by_cases hblanket : Blanket τ.request.caller.currentUser τ.request.caller.force
          config.preset
        · exact decide_blanket hblanket
        · rcases hchecked with hall | ⟨other, first, hfirst, _⟩
          · exact absurd hall hblanket
          · exact (hfirst.not_none (hagree hblanket) hnone).elim

/-! ## The promise -/

/-- **What is served has been approved**, in every run in which nobody disturbs a download by name.
-/
theorem serves_approved (config : Config) (events : List Event) (t : State)
    (hmeets : Runs.Meets (Interleaving.step (system config)) (Undisturbed config) { store := {} }
      events)
    (hrun : Runs.run (Interleaving.step (system config)) { store := {} } events = some t) :
    ServesApproved config t :=
  servesApproved_of_invariant
    (Runs.run_invariant _ (fun _ _ _ hs he h => invariant_step hs he h) events _ t
    (invariant_nil config) hmeets hrun)

/-- A project where a file is read by the one who has uploaded it. -/
def owners : Config where
  render      := fun _ => ""
  preset      := .owner
  s3Available := false

def alice : Caller where
  currentUser := some { hasRole := some fun _ => false, id := some (.str "alice") }

def report (id : ObjectId) (uploadDate : Int) (owner : String) : FileInfo where
  id         := id
  filename   := "report.pdf"
  length     := some 1
  metadata   := some (OrderedMap.empty.set "ownerId" (.str owner))
  uploadDate := uploadDate

/-- Alice has a report, asks for it, and has been found to be its owner. -/
def hers : List Event :=
  [.outside (.put .gridfs "65f0" [1]), .outside (.insert .gridfs (report "65f0" 0 "alice")),
    .call { caller := alice, download := .getFileStreamByName "report.pdf" }, .resume 0 0,
    .resume 0 0]

/-- The second lookup, and the file. -/
def theRest : List Event := [.resume 0 0, .resume 0 0, .resume 0 0]

theorem serves_approved_undisturbed :
    ∃ t, Runs.run (Interleaving.step (system owners)) { store := {} } (hers ++ theRest) = some t ∧
      ServesApproved owners t := by
  have hrun : Runs.run (Interleaving.step (system owners)) { store := {} } (hers ++ theRest) =
      some _ := rfl
  refine ⟨_, hrun, serves_approved owners (hers ++ theRest) _ ?_ hrun⟩
  have hcalm : ∀ (s : State) (e : Event), s.threads = [] → Undisturbed owners s e := by
    intro s e hnone
    cases e with
    | call request => trivial
    | resume thread choice => trivial
    | outside change =>
        intro drives _ τ hτ
        rw [hnone] at hτ
        cases hτ
  exact Runs.meets_cons _ _ rfl (hcalm _ _ rfl) (Runs.meets_cons _ _ rfl (hcalm _ _ rfl)
    (Runs.meets_cons _ _ rfl trivial
      (Runs.meets_cons _ _ rfl trivial (Runs.meets_cons _ _ rfl trivial
      (Runs.meets_cons _ _ rfl trivial
        (Runs.meets_cons _ _ rfl trivial (Runs.meets_cons _ _ rfl trivial trivial)))))))

/-- Bob uploads a report in between, and Alice is served his. -/
theorem another_report_is_served :
    ∃ t, Runs.run (Interleaving.step (system owners)) { store := {} } (hers ++
      [.outside (.put .gridfs "65f1" [2]), .outside (.insert .gridfs (report "65f1" 1 "bob"))] ++
        theRest) = some t ∧
      ¬ ServesApproved owners t := by
  refine ⟨_, rfl, fun h => ?_⟩
  obtain ⟨_, info, hinfo, happroved⟩ := h _ (List.mem_singleton.mpr rfl) _ rfl
  obtain rfl := Option.some.inj hinfo
  cases happroved

end Files.Downloads
