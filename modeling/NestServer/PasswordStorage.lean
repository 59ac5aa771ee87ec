import NestServer.PasswordPlugin
import NestServer.Runs

/-! # Runs of writes that store passwords

    A collection in which all passwords are protected stays so through a write,
    in all that the write goes through, exactly if the write is refused or closed:
    if no password that it hashes only begins like a hash, and what reaches the
    field from elsewhere is protected.  So it is for runs of writes. -/

namespace Password

open Mongo Mongoose

variable {Salt : Type} (cfg : Config Salt) (salt : Salt)

/-! ## The conditions -/

/-- What reaches the field by an update: from the plain fields or `$set`, where
    it is hashed, or else from another operator, a pipeline or the filter of an
    upsert. -/
def ClosedUpdate (inserting : Bool) (start : Document) : UpdateArgument → Prop
  | .pipeline f => Protected cfg ((f start).bind fun d => d.get? "password")
  | .document u =>
      match (u.set.spread u.plain).get? "password" with
      | some v => ¬ Incomplete cfg (some v)
      | none   => Protected cfg (u.valueAfter inserting start "password").join

/-- The operation with its passwords hashed. -/
def hashed (op : Op) : Op :=
  match hashOp cfg salt op with
  | .ok op'  => op'
  | .error _ => op

def ClosedEffect (e : Effect) : Op → Prop
  | .insertOne _ d               => ¬ Incomplete cfg (d.get? "password")
  | .query (.updateOne _ _ u _)  => ClosedUpdate cfg e.old.isNone e.start u
  | .query (.updateMany _ u _)   => ClosedUpdate cfg e.old.isNone e.start u
  | .query (.replaceOne _ _ d _) => ¬ Incomplete cfg (d.get? "password")
  | .query (.deleteOne _ _)      => True
  | .query (.deleteMany _)       => True

/-- What an operation gives to each document that it makes. -/
def ClosedOp (c : Collection) (op : Op) : Prop :=
  ∀ e ∈ c.effects ((hashed cfg salt op).write c), ClosedEffect cfg e op

def Closed (c : Collection) : ModelWrite → Prop
  -- the password of a new document is hashed where it is marked as modified
  | .create id d modified =>
      c.get? id = none →
        if modified.contains "password" then ¬ Incomplete cfg (d.get? "password")
        else Protected cfg (d.get? "password")
  | .save id d modified elements =>
      modified.contains "password" || (elements.get? "password").isSome →
        ∀ w, mongoosePasswordPlugin cfg salt (.save id d modified elements) = .ok w →
          ∀ op ∈ w.ops.2, ∀ e ∈ c.effects (op.write c), ¬ Incomplete cfg (d.get? "password")
  | .insertMany ordered (.array docs) =>
      AllOps (hashed cfg salt) (ClosedOp cfg salt) ordered
        (docs.map fun e => Op.insertOne e.1 e.2) c
  | .insertMany _ (.single id d) => c.get? id = none → Protected cfg (d.get? "password")
  | .query q => ClosedOp cfg salt c (.query q)
  | .bulkWrite ordered ops => AllOps (hashed cfg salt) (ClosedOp cfg salt) ordered ops c

def Refused (w : ModelWrite) : Prop := ∀ w', mongoosePasswordPlugin cfg salt w ≠ .ok w'

/-! ## One operation -/

section Step

variable {cfg salt}

theorem protected_update (hbcrypt : ∀ salt p, completeHash (cfg.bcrypt salt p) = true)
    {u u' : UpdateArgument} (h : hashUpdatePassword cfg salt u = .ok u') {inserting : Bool}
    {start new : Document} (happly : u'.apply inserting start = some new) :
    Protected cfg (new.get? "password") ↔ ClosedUpdate cfg inserting start u := by
  cases u with
  | pipeline f =>
      cases Except.ok.inj h
      have hf : f start = some new := happly
      rw [ClosedUpdate, hf]
      rfl
  | document u =>
      obtain ⟨plain, hplain, h⟩ := Fallible.bind_eq_ok.mp h
      obtain ⟨set, hset, h⟩ := Fallible.bind_eq_ok.mp h
      cases Except.ok.inj h
      have hnd := UpdateQuery.nodup_of_apply happly
      have hval := UpdateQuery.get?_apply happly "password"
      have hassigned : ∀ {v : Value}, (set.spread plain).get? "password" = some v →
          new.get? "password" = some v := by
        intro v hv
        rw [UpdateQuery.valueAfter_assigned hnd hv] at hval
        exact Option.some.inj hval
      rw [ClosedUpdate, OrderedMap.get?_spread]
      cases hp : u.plain.get? "password" with
      | some v =>
          have hsome := (get?_hashField hplain).2
          rw [hp] at hsome
          obtain ⟨v', hv'⟩ := Option.isSome_iff_exists.mp hsome.symm
          have hprot := protected_hashField hbcrypt hplain
          rw [hp, hv'] at hprot
          rw [hassigned (by rw [OrderedMap.get?_spread, hv']; rfl)]
          exact hprot
      | none =>
          have hplain' := (get?_hashField hplain).1 hp
          rw [Option.none_or]
          cases hs : u.set.get? "password" with
          | some v =>
              have hsome := (get?_hashField hset).2
              rw [hs] at hsome
              obtain ⟨v', hv'⟩ := Option.isSome_iff_exists.mp hsome.symm
              have hprot := protected_hashField hbcrypt hset
              rw [hs, hv'] at hprot
              rw [hassigned (by rw [OrderedMap.get?_spread, hplain', hp, Option.none_or, hv'])]
              exact hprot
          | none =>
              -- nothing is hashed, so the update is as it was
              rw [hplain', (get?_hashField hset).1 hs] at hval
              dsimp only
              rw [← hval]
              rfl

theorem allProtected_exec (c : Collection) (hc : AllProtected cfg c) (w : Write) :
    AllProtected cfg (c.exec w).1 ↔
      ∀ e ∈ c.effects w, Protected cfg (e.new.get? "password") :=
  Collection.all_exec_iff (Q := fun d => Protected cfg (d.get? "password")) hc w

/-- **What an operation stores** with its passwords hashed. -/
theorem exec_iff_closed (hbcrypt : ∀ salt p, completeHash (cfg.bcrypt salt p) = true)
    {op op' : Op} (h : hashOp cfg salt op = .ok op') (c : Collection) (hc : AllProtected cfg c) :
    AllProtected cfg (c.exec ((hashed cfg salt op).write c)).1 ↔ ClosedOp cfg salt c op := by
  rw [allProtected_exec c hc, ClosedOp, hashed, h]
  refine forall₂_congr ?_
  intro e he
  cases op with
  | insertOne id d =>
      obtain ⟨d', hd, h⟩ := Fallible.bind_eq_ok.mp h
      cases Except.ok.inj h
      rw [(effects_insertOne he).1]
      exact protected_hashField hbcrypt hd
  | query q =>
      obtain ⟨q', hq, h⟩ := Fallible.bind_eq_ok.mp h
      cases Except.ok.inj h
      cases q with
      | updateOne filter sort u upsert =>
          obtain ⟨u', hu, hq⟩ := Fallible.bind_eq_ok.mp hq
          cases Except.ok.inj hq
          exact protected_update hbcrypt hu (effects_updateOne he).1
      | updateMany filter u upsert =>
          obtain ⟨u', hu, hq⟩ := Fallible.bind_eq_ok.mp hq
          cases Except.ok.inj hq
          exact protected_update hbcrypt hu (effects_updateMany he).1
      | replaceOne filter sort d upsert =>
          obtain ⟨d', hd, hq⟩ := Fallible.bind_eq_ok.mp hq
          cases Except.ok.inj hq
          rw [(effects_replaceOne he).1]
          exact protected_hashField hbcrypt hd
      | deleteOne filter sort =>
          cases Except.ok.inj hq
          cases he
      | deleteMany filter =>
          cases Except.ok.inj hq
          cases he

/-- A list whose operations are hashed. -/
theorem mapM_hashOp {ops ops' : List Op} (h : ops.mapM (hashOp cfg salt) = .ok ops') :
    ops' = ops.map (hashed cfg salt) ∧ ∀ op ∈ ops, ∃ op', hashOp cfg salt op = .ok op' := by
  have hall := Fallible.mapM_eq_ok.mp h
  clear h
  induction hall with
  | nil => exact ⟨rfl, by simp⟩
  | cons hop _ ih =>
      refine ⟨?_, ?_⟩
      · rw [List.map_cons, ← ih.1, hashed, hop]
      · rintro op hmem
        rcases List.mem_cons.mp hmem with rfl | hmem
        · exact ⟨_, hop⟩
        · exact ih.2 op hmem

theorem mapM_hashDoc {docs docs' : List (String × Document)}
    (h : (docs.mapM fun e => do
      let d ← hashField cfg salt e.2
      pure (e.1, d)) = .ok docs') :
    docs'.map (fun e => Op.insertOne e.1 e.2)
        = (docs.map fun e => Op.insertOne e.1 e.2).map (hashed cfg salt) ∧
      ∀ op ∈ docs.map fun e => Op.insertOne e.1 e.2, ∃ op', hashOp cfg salt op = .ok op' := by
  have hall := Fallible.mapM_eq_ok.mp h
  clear h
  induction hall with
  | nil => exact ⟨rfl, by simp⟩
  | @cons e e' es es' hdoc _ ih =>
      obtain ⟨d, hd, he⟩ := Fallible.bind_eq_ok.mp hdoc
      cases Except.ok.inj he
      have hop : hashOp cfg salt (.insertOne e.1 e.2) = .ok (.insertOne e.1 d) :=
        Fallible.bind_eq_ok.mpr ⟨d, hd, rfl⟩
      refine ⟨?_, ?_⟩
      · rw [List.map_cons, List.map_cons, List.map_cons, ih.1, hashed, hop]
      · intro op hmem
        rcases List.mem_cons.mp hmem with rfl | hmem
        · exact ⟨_, hop⟩
        · exact ih.2 op hmem

end Step

/-! ## Writes -/

/-- The collections that a write goes through; a refused write goes through none. -/
def through (c : Collection) (w : ModelWrite) : List Collection :=
  match mongoosePasswordPlugin cfg salt w with
  | .ok w'   => throughOps w'.ops.1 w'.ops.2 c
  | .error _ => []

def perform (c : Collection) (w : ModelWrite) : Collection :=
  match mongoosePasswordPlugin cfg salt w with
  | .ok w'   => w'.perform c
  | .error _ => c

section Writes

variable {cfg salt}

theorem through_one {c : Collection} {ordered : Bool} {op : Op} :
    (∀ c' ∈ throughOps ordered [op] c, AllProtected cfg c') ↔
      AllProtected cfg (c.exec (op.write c)).1 := by
  rw [throughOps, List.forall_mem_cons]
  refine and_iff_left ?_
  split
  · simp
  · simp [throughOps]

variable (hbcrypt : ∀ salt p, completeHash (cfg.bcrypt salt p) = true)
  {c : Collection} (hc : AllProtected cfg c)

include hc

theorem insert_iff (id : String) (d : Document) :
    AllProtected cfg (c.exec (.insertOne id d)).1 ↔
      (c.get? id = none → Protected cfg (d.get? "password")) := by
  rw [allProtected_exec c hc, Collection.effects]
  constructor
  · intro h hid
    exact h ⟨none, d, d⟩ (Collection.mem_upsertEffects.mpr ⟨id, d, rfl, rfl, hid, rfl⟩)
  · intro h e he
    obtain ⟨id', d', hid', hd', hnone, rfl⟩ := Collection.mem_upsertEffects.mp he
    cases hid'
    cases hd'
    exact h hnone

/-- A document that is saved without its password keeps it. -/
theorem save_untouched {id : String} {d : Document} {modified : List String}
    {elements : OrderedMap String (List Nat)} (hm : modified.contains "password" = false)
    (he : elements.get? "password" = none) {q : QueryOp} (hq : q ∈ saveOps id d modified elements) :
    AllProtected cfg (c.exec (q.write c)).1 := by
  rw [allProtected_exec c hc]
  intro e heff
  obtain ⟨happly, hold⟩ := effects_save hq heff
  have hval := UpdateQuery.get?_apply happly "password"
  rw [valueAfter_delta hm, he] at hval
  obtain ⟨i, hi⟩ := Collection.mem_of_effects heff hold
  rw [Option.some.inj hval]
  exact hc i _ hi

/-- A password that is no text or empty is written as it is, or not at all. -/
theorem save_blank {id : String} {d : Document} {modified : List String}
    {elements : OrderedMap String (List Nat)} (hd : (d.get? "password").any Value.truthy = false)
    {q : QueryOp} (hq : q ∈ saveOps id d modified elements) :
    AllProtected cfg (c.exec (q.write c)).1 := by
  have hblank : Protected cfg (d.get? "password") := by
    cases hv : d.get? "password" with
    | none => trivial
    | some v =>
        rw [hv] at hd
        exact protected_of_blank hd
  rw [allProtected_exec c hc]
  intro e heff
  obtain ⟨happly, hold⟩ := effects_save hq heff
  have hval := UpdateQuery.get?_apply happly "password"
  cases hm : modified.contains "password" with
  | true =>
      rw [valueAfter_delta_marked hm] at hval
      rw [Option.some.inj hval]
      exact hblank
  | false =>
      cases he : elements.get? "password" with
      | none =>
          have hkeep := save_untouched hc hm he hq
          rw [allProtected_exec c hc] at hkeep
          exact hkeep e heff
      | some places =>
          -- elements are written of an array only
          rw [valueAfter_delta hm, he] at hval
          dsimp only at hval
          rw [setElements.eq_def] at hval
          split at hval
          · split at hval
            · next ws hws =>
                rw [hws] at hd
                cases hd
            · cases hval
          · cases hval

include hbcrypt

/-- A document that is saved with its password hashed. -/
theorem save_hashed_iff {id : String} {d d' : Document} {modified : List String}
    {elements : OrderedMap String (List Nat)} (hd : hashField cfg salt d = .ok d')
    (hm : modified.contains "password" = true) {q : QueryOp}
    (hq : q ∈ saveOps id d' modified elements) :
    AllProtected cfg (c.exec (q.write c)).1 ↔
      ∀ e ∈ c.effects (q.write c), ¬ Incomplete cfg (d.get? "password") := by
  rw [allProtected_exec c hc]
  refine forall₂_congr ?_
  intro e heff
  have hval := UpdateQuery.get?_apply (effects_save hq heff).1 "password"
  rw [valueAfter_delta_marked hm] at hval
  rw [Option.some.inj hval]
  exact protected_hashField hbcrypt hd

theorem through_save_iff (id : String) (d : Document) (modified : List String)
    (elements : OrderedMap String (List Nat)) :
    (∀ c' ∈ through cfg salt c (.save id d modified elements), AllProtected cfg c') ↔
      Refused cfg salt (.save id d modified elements) ∨
        Closed cfg salt c (.save id d modified elements) := by
  have hlist : ∀ (d : Document) (modified : List String),
      (∀ c' ∈ throughOps true ((saveOps id d modified elements).map .query) c,
        AllProtected cfg c') ↔
      ∀ q ∈ saveOps id d modified elements, AllProtected cfg (c.exec (q.write c)).1 := by
    intro d modified
    rw [saveOps]
    split
    · simp [throughOps]
    · rw [List.map_singleton, through_one]
      simp only [List.mem_singleton, forall_eq]
      rfl
  rw [through, Closed]
  cases hplugin : mongoosePasswordPlugin cfg salt (.save id d modified elements) with
  | error msg =>
      refine iff_of_true (by simp) (Or.inl ?_)
      intro w' hw'
      rw [hplugin] at hw'
      cases hw'
  | ok w =>
      have hnot : ¬ Refused cfg salt (.save id d modified elements) := fun h => h w hplugin
      rw [or_iff_right hnot]
      have hw := hplugin
      rw [mongoosePasswordPlugin] at hw
      split at hw
      · next hskip =>
          cases Except.ok.inj hw
          refine (hlist d modified).trans ?_
          rw [Bool.or_eq_true, Bool.not_eq_true', Bool.or_eq_false_iff, Option.isSome_eq_false_iff,
            Option.isNone_iff_eq_none, Bool.not_eq_true'] at hskip
          rcases hskip with ⟨hm, he⟩ | hblank
          · refine iff_of_true (fun q hq => save_untouched hc hm he hq) ?_
            intro ht
            rw [hm, he] at ht
            cases ht
          · refine iff_of_true (fun q hq => save_blank hc hblank hq) ?_
            intro _ w' _ op _ e _ hinc
            cases hv : d.get? "password" with
            | none => rw [hv] at hinc; exact hinc
            | some v =>
                rw [hv] at hinc hblank
                rw [Option.any_some, incomplete_truthy hinc] at hblank
                cases hblank
      · next hgo =>
          obtain ⟨d', hd, hw⟩ := Fallible.bind_eq_ok.mp hw
          cases Except.ok.inj hw
          refine (hlist d' _).trans ?_
          have hmarked : (if modified.contains "password" then modified
              else modified ++ ["password"]).contains "password" = true := by
            split
            · assumption
            · simp
          have htouched : (modified.contains "password" || (elements.get? "password").isSome) =
              true := by
            rw [Bool.or_eq_true, not_or, Bool.not_eq_true', Bool.not_eq_false] at hgo
            exact hgo.1
          constructor
          · intro h _ w' hw' op hop e he
            cases Except.ok.inj hw'
            obtain ⟨q, hq, rfl⟩ := List.mem_map.mp hop
            exact (save_hashed_iff hbcrypt hc hd hmarked hq).mp (h q hq) e he
          · intro h q hq
            refine (save_hashed_iff hbcrypt hc hd hmarked hq).mpr ?_
            intro e he
            exact h htouched _ rfl (.query q) (List.mem_map_of_mem hq) e he

/-- **What a write stores.** All that it goes through is protected exactly if it
    is refused or closed. -/
theorem through_iff_closed (w : ModelWrite) :
    (∀ c' ∈ through cfg salt c w, AllProtected cfg c') ↔
      Refused cfg salt w ∨ Closed cfg salt c w := by
  cases hplugin : mongoosePasswordPlugin cfg salt w with
  | error msg =>
      rw [through, hplugin]
      refine iff_of_true (by simp) (Or.inl ?_)
      intro w' hw'
      rw [hplugin] at hw'
      cases hw'
  | ok w' =>
      have hnot : ¬ Refused cfg salt w := fun h => h w' hplugin
      cases w with
      | save id d modified elements => exact through_save_iff hbcrypt hc id d modified elements
      | create id d modified =>
          rw [or_iff_right hnot, through, hplugin, Closed]
          rw [mongoosePasswordPlugin] at hplugin
          cases hm : modified.contains "password" with
          | false =>
              rw [hm] at hplugin
              cases Except.ok.inj hplugin
              exact through_one.trans (insert_iff hc id d)
          | true =>
              rw [hm] at hplugin
              obtain ⟨d', hd, hw⟩ := Fallible.bind_eq_ok.mp hplugin
              cases Except.ok.inj hw
              refine (through_one.trans (insert_iff hc id d')).trans ?_
              exact imp_congr_right fun _ => protected_hashField hbcrypt hd
      | insertMany ordered docs =>
          rw [or_iff_right hnot, through, hplugin]
          cases docs with
          | single id d =>
              cases Except.ok.inj hplugin
              exact through_one.trans (insert_iff hc id d)
          | array docs =>
              obtain ⟨docs', hdocs, hw⟩ := Fallible.bind_eq_ok.mp hplugin
              cases Except.ok.inj hw
              obtain ⟨hmap, hall⟩ := mapM_hashDoc hdocs
              rw [Closed, ← through_iff (Q := AllProtected cfg) _ ?_ c hc]
              · rw [← hmap]
                rfl
              · intro c op hop hc
                obtain ⟨op', hop'⟩ := hall op hop
                exact exec_iff_closed hbcrypt hop' c hc
      | query q =>
          rw [or_iff_right hnot, through, hplugin]
          obtain ⟨q', hq, hw⟩ := Fallible.bind_eq_ok.mp hplugin
          cases Except.ok.inj hw
          have hop : hashOp cfg salt (.query q) = .ok (.query q') :=
            Fallible.bind_eq_ok.mpr ⟨q', hq, rfl⟩
          refine through_one.trans ?_
          have hexec := exec_iff_closed hbcrypt hop c hc
          rw [hashed, hop] at hexec
          exact hexec
      | bulkWrite ordered ops =>
          rw [or_iff_right hnot, through, hplugin]
          obtain ⟨ops', hops, hw⟩ := Fallible.bind_eq_ok.mp hplugin
          cases Except.ok.inj hw
          obtain ⟨rfl, hall⟩ := mapM_hashOp hops
          refine through_iff (Q := AllProtected cfg) ops ?_ c hc
          intro c op hop hc
          obtain ⟨op', hop'⟩ := hall op hop
          exact exec_iff_closed hbcrypt hop' c hc

end Writes

/-! ## Runs -/

/-- The collection, and those that the last write went through. -/
abbrev Store := Collection × List Collection

def step (s : Store) (e : Salt × ModelWrite) : Option Store :=
  some (perform cfg e.1 s.1 e.2, through cfg e.1 s.1 e.2)

/-- No password that is not protected is stored. -/
def StoresProtected (s : Store) : Prop := AllProtected cfg s.1 ∧ ∀ c ∈ s.2, AllProtected cfg c

theorem run_isSome (es : List (Salt × ModelWrite)) (s : Store) :
    ∃ t, Runs.run (step cfg) s es = some t := by
  induction es generalizing s with
  | nil => exact ⟨s, rfl⟩
  | cons e es ih => exact ih _

/-- **Passwords in store, exactly.** From a collection in which all passwords are
    protected, a run of writes never stores one that is not, exactly if every
    write of it is refused or closed. -/
theorem always_protected_iff (cfg : Config Salt)
    (hbcrypt : ∀ salt p, completeHash (cfg.bcrypt salt p) = true) (c : Collection)
    (hc : AllProtected cfg c) (es : List (Salt × ModelWrite)) :
    Runs.Always (step cfg) (StoresProtected cfg) (c, []) es ↔
      Runs.Meets (step cfg) (fun s e => Refused cfg e.1 e.2 ∨
        Closed cfg e.1 s.1 e.2) (c, []) es := by
  obtain ⟨t, ht⟩ := run_isSome cfg es (c, [])
  refine Runs.always_iff (step cfg) (I := fun _ => True) (fun _ _ _ _ _ => trivial) ?_ es (c, []) t
    trivial ⟨hc, by simp⟩ ht
  rintro ⟨m, ms⟩ ⟨salt, w⟩ s' - ⟨hm, -⟩ hs
  cases Option.some.inj hs
  rw [← through_iff_closed hbcrypt hm w]
  refine and_iff_right_of_imp ?_
  intro hall
  show AllProtected cfg (perform cfg salt m w)
  rw [perform]
  rw [through] at hall
  cases hw : mongoosePasswordPlugin cfg salt w with
  | error msg => exact hm
  | ok w' =>
      rw [hw] at hall
      exact performOps_of_through w'.ops.2 m hm hall

/-- A hash of the right form. -/
def someHash : String := "$2b$10$abcdefghijklmnopqrstuuABCDEFGHIJKLMNOPQRSTUVWXYZ01234"

theorem completeHash_someHash : completeHash someHash = true := by decide

def bcryptOnly : Config Unit where
  sha256Enabled := false
  sha256        := id
  bcrypt        := fun _ _ => someHash
  skipPatterns  := []

/-- `updateOne({}, { $set: { password: '$2b$10$secret' } }, { upsert: true })` -/
def setIncomplete : ModelWrite :=
  .query (.updateOne .empty (fun _ _ => true)
    (.document { set := OrderedMap.empty.set "password" (.str "$2b$10$secret") }) (some "u1"))

/-- A password that begins like a hash is stored as it is. -/
theorem incomplete_stored :
    (perform bcryptOnly () .empty setIncomplete).get? "u1"
        = some (OrderedMap.empty.set "password" (.str "$2b$10$secret")) ∧
      ¬ Runs.Always (step bcryptOnly) (StoresProtected bcryptOnly) (.empty, [])
        [((), setIncomplete)] := by
  have hstored : (perform bcryptOnly () .empty setIncomplete).get? "u1"
      = some (OrderedMap.empty.set "password" (.str "$2b$10$secret")) := by decide
  refine ⟨hstored, ?_⟩
  rintro ⟨-, hall⟩
  have hprot := (hall _ rfl).1 "u1" _ hstored
  exact absurd hprot (by decide)

/-- A clear text is hashed. -/
theorem always_protected_clear :
    Runs.Always (step bcryptOnly) (StoresProtected bcryptOnly) (.empty, [])
        [((), .create "u1" (OrderedMap.empty.set "password" (.str "secret")) ["password"])] ↔
      Runs.Meets (step bcryptOnly)
        (fun s e => Refused bcryptOnly e.1 e.2 ∨ Closed bcryptOnly e.1 s.1 e.2) (.empty, [])
        [((), .create "u1" (OrderedMap.empty.set "password" (.str "secret")) ["password"])] :=
  always_protected_iff bcryptOnly (fun _ _ => completeHash_someHash) .empty
    (fun _ _ h => by cases h) _

end Password
