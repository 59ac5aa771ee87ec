import Mathlib.Data.List.Induction
import Mathlib.Data.List.Lex
import NestServer.Migration.StateAgreement
import NestServer.RoleEnum

/-! # Migration runs one after the other

    Calls of `up()` and `down()` on one store, none of which starts before the last
    one has ended.  Any migration body may throw.

    * `UpLawful` and `DownLawful` say what one call does;
    * `undone_downs`: as many calls of `down()` as an `up()` has applied
      migrations take these back, the last one first;
    * `sequential_runs` puts them together for whatever was called before. -/

namespace MigrationRunner

/-! ## Calls -/

/-- `DEFAULT_MIGRATION_FILE_PATTERN`: `*.ts` but not `*.d.ts`, and `*.js`. -/
def defaultPattern (title : String) : Bool :=
  match title.toList.reverse with
  | 's' :: 't' :: '.' :: stem => !("d.".toList.isPrefixOf stem)
  | 's' :: 'j' :: '.' :: _    => true
  | _                         => false

/-- `readdirSync(directory).filter(pattern).sort()` -/
def readMigrationFiles (pattern : String → Bool) (directory : List MigrationFile) :
    List MigrationFile :=
  (directory.filter fun m => pattern m.title).mergeSort fun m m' =>
    decide (JsText.utf16 m.title ≤ JsText.utf16 m'.title)

/-- A body that ran, and whether it got to its end. -/
structure Execution where
  migration : MigrationFile
  body      : Body
  completed : Bool
deriving DecidableEq, Repr

/-- What a call leaves behind. -/
structure Outcome where
  store  : Option MigrationSet
  ran    : List Execution
  thrown : Bool
deriving DecidableEq, Repr

/-- The loop of `runUp` over the pending migrations; `throws` says whose body does. -/
def runPending (throws : MigrationFile → Bool) :
    Option MigrationSet → List MigrationFile → Outcome
  | store, []        => { store, ran := [], thrown := false }
  | store, m :: rest =>
      if throws m then { store, ran := [⟨m, .up, false⟩], thrown := true }
      else
        let out := runPending throws (some (recordUp m (migrationsOf store))) rest
        { out with ran := ⟨m, .up, true⟩ :: out.ran }

section

variable (files : List MigrationFile)

/-- `up()` -/
def up (strict : Bool) (throws : MigrationFile → Bool) (store : Option MigrationSet) : Outcome :=
  match planUp files strict (migrationsOf store) with
  | .running pending => runPending throws store pending
  | _                => { store, ran := [], thrown := true }

/-- `down()`: without a recorded migration it returns, without its file it throws. -/
def down (throws : Bool) (store : Option MigrationSet) : Outcome :=
  match planDown files ⟨migrationsOf store, 0⟩ with
  | .ready m state =>
      if throws then { store, ran := [⟨m, .down, false⟩], thrown := true }
      else { store := some (recordDown state.migrations), ran := [⟨m, .down, true⟩], thrown :=
        false }
  | _              => { store, ran := [], thrown := !(migrationsOf store).isEmpty }

inductive Call where
  | up (strict : Bool) (throws : MigrationFile → Bool)
  | down (throws : Bool)

def perform (store : Option MigrationSet) : Call → Outcome
  | .up strict throws => up files strict throws store
  | .down throws      => down files throws store

/-- The outcomes of calls one after the other. -/
def outcomes : Option MigrationSet → List Call → List Outcome
  | _, []             => []
  | store, c :: calls => perform files store c :: outcomes (perform files store c).store calls

/-- The store after them. -/
def storeAfter (store : Option MigrationSet) (calls : List Call) : Option MigrationSet :=
  calls.foldl (fun store c => (perform files store c).store) store

end

/-! ## What is lawful -/

/-- The entries of the migrations whose body completed. -/
def recordsOf (ran : List Execution) : List Recorded :=
  (ran.filter Execution.completed).map fun e => ⟨e.migration.timestamp, e.migration.title⟩

/-- A call of `up()`, from a store to its outcome. -/
structure UpLawful (files : List MigrationFile) (store : Option MigrationSet) (out : Outcome) :
    Prop where
  /-- no body runs for what is recorded by then -/
  fresh    : ∀ before e after, out.ran = before ++ e :: after → e.body = .up ∧
    e.migration.id ∉ idsOf (migrationsOf store ++ recordsOf before)
  /-- the bodies run in the order of the file names -/
  ordered  : out.ran.Pairwise fun e e' =>
    JsText.utf16 e.migration.title ≤ JsText.utf16 e'.migration.title
  /-- the record is the old one and what has completed, whether the call throws or not -/
  recorded : migrationsOf out.store = migrationsOf store ++ recordsOf out.ran
  /-- a call that returns leaves nothing pending -/
  complete : out.thrown = false →
    ∀ m ∈ loadMigrationFiles files [], m.id ∈ idsOf (migrationsOf out.store)

structure DownLawful (store : Option MigrationSet) (out : Outcome) : Prop where
  unchanged : out.thrown = true → out.store = store
  /-- one that returns takes back the last entry -/
  undone    : out.thrown = false →
    migrationsOf out.store = (migrationsOf store).dropLast

/-! ## Files -/

/-- The entry that is recorded for a migration. -/
def MigrationFile.entry (m : MigrationFile) : Recorded := ⟨m.timestamp, m.title⟩

theorem idsOf_entries (ms : List MigrationFile) :
    idsOf (ms.map MigrationFile.entry) = ms.map MigrationFile.id := by
  rw [idsOf, List.map_map]
  rfl

theorem loadMigrationFiles_sublist (files : List MigrationFile) (seenIds : List String) :
    (loadMigrationFiles files seenIds).Sublist files := by
  induction files generalizing seenIds with
  | nil => exact List.Sublist.slnil
  | cons f files ih =>
      rw [loadMigrationFiles]
      split
      · exact (ih seenIds).cons f
      · split
        · exact (ih seenIds).cons f
        · exact (ih _).cons_cons f

/-- In order of their names. -/
def InOrder (files : List MigrationFile) : Prop :=
  files.Pairwise fun m m' => JsText.utf16 m.title ≤ JsText.utf16 m'.title

theorem inOrder_readMigrationFiles (pattern : String → Bool) (directory : List MigrationFile) :
    InOrder (readMigrationFiles pattern directory) := by
  have hsorted : (readMigrationFiles pattern directory).Pairwise fun m m' =>
      decide (JsText.utf16 m.title ≤ JsText.utf16 m'.title) = true := by
    refine List.pairwise_mergeSort ?_ ?_ _
    · exact fun a b c hab hbc => decide_eq_true
        (le_trans (of_decide_eq_true hab) (of_decide_eq_true hbc))
    · intro a b
      rw [Bool.or_eq_true, decide_eq_true_eq, decide_eq_true_eq]
      exact le_total _ _
  exact hsorted.imp of_decide_eq_true

/-- A migration is the only one of its identity. -/
theorem find_loaded {files : List MigrationFile} {m : MigrationFile}
    (hm : m ∈ loadMigrationFiles files []) :
    (loadMigrationFiles files []).find? (fun m' => m'.id = m.id) = some m := by
  obtain ⟨found, hfound⟩ : ∃ found,
      (loadMigrationFiles files []).find? (fun m' => m'.id = m.id) = some found := by
    rw [← Option.isSome_iff_exists, List.find?_isSome]
    exact ⟨m, hm, decide_eq_true rfl⟩
  have hid : found.id = m.id := by simpa using List.find?_some hfound
  rw [hfound, List.inj_on_of_nodup_map (loadMigrationFiles_nodup files [])
    (List.mem_of_find?_eq_some hfound) hm hid]

/-! ## One call of `up()` -/

section

variable {throws : MigrationFile → Bool} {store : Option MigrationSet}
  {pending : List MigrationFile}

theorem runPending_bodies (throws : MigrationFile → Bool) (store : Option MigrationSet)
    (pending : List MigrationFile) : ∀ e ∈ (runPending throws store pending).ran, e.body = .up := by
  induction pending generalizing store with
  | nil =>
      intro e he
      cases he
  | cons m rest ih =>
      rw [runPending]
      split
      · intro e he
        rw [List.mem_singleton.mp he]
      · intro e he
        rcases List.mem_cons.mp he with rfl | he
        · rfl
        · exact ih _ e he

/-- The bodies that run are the first pending ones. -/
theorem runPending_prefix (throws : MigrationFile → Bool) (store : Option MigrationSet)
    (pending : List MigrationFile) :
    (runPending throws store pending).ran.map Execution.migration <+: pending := by
  induction pending generalizing store with
  | nil => exact List.prefix_rfl
  | cons m rest ih =>
      rw [runPending]
      split
      · exact List.cons_prefix_cons.mpr ⟨rfl, List.nil_prefix⟩
      · exact List.cons_prefix_cons.mpr ⟨rfl, ih _⟩

theorem runPending_recorded (throws : MigrationFile → Bool) (store : Option MigrationSet)
    (pending : List MigrationFile) :
    migrationsOf (runPending throws store pending).store
      = migrationsOf store ++ recordsOf (runPending throws store pending).ran := by
  induction pending generalizing store with
  | nil => exact (List.append_nil _).symm
  | cons m rest ih =>
      rw [runPending]
      split
      · exact (List.append_nil _).symm
      · rw [ih]
        show (migrationsOf store ++ [m.entry]) ++ _ = migrationsOf store ++ (m.entry :: _)
        rw [List.append_assoc]
        rfl

/-- A call that returns has run them all. -/
theorem runPending_returned (h : (runPending throws store pending).thrown = false) :
    (runPending throws store pending).ran = pending.map fun m => ⟨m, .up, true⟩ := by
  induction pending generalizing store with
  | nil => rfl
  | cons m rest ih =>
      rw [runPending] at h ⊢
      split at h
      · cases h
      · rename_i hthrows
        rw [if_neg hthrows, List.map_cons]
        exact congrArg _ (ih h)

end

theorem recordsOf_completed (ms : List MigrationFile) (body : Body) :
    recordsOf (ms.map fun m => ⟨m, body, true⟩) = ms.map MigrationFile.entry := by
  induction ms with
  | nil => rfl
  | cons m rest ih => exact congrArg (m.entry :: ·) ih

/-- What is recorded of bodies that ran is theirs. -/
theorem idsOf_recordsOf (ran : List Execution) :
    (idsOf (recordsOf ran)).Sublist (ran.map fun e => e.migration.id) := by
  induction ran with
  | nil => exact List.Sublist.slnil
  | cons e rest ih =>
      rw [recordsOf]
      by_cases hcompleted : e.completed = true
      · rw [List.filter_cons_of_pos hcompleted]
        exact ih.cons_cons _
      · rw [List.filter_cons_of_neg hcompleted]
        exact ih.cons _

section

variable {files : List MigrationFile} {store : Option MigrationSet}

/-- What is pending is new, and each identity is there once. -/
theorem planUp_pending {strict : Bool} {recorded : List Recorded} {pending : List MigrationFile}
    (h : planUp files strict recorded = .running pending) :
    pending = (loadMigrationFiles files []).filter fun m => m.id ∉ idsOf recorded := by
  rw [planUp] at h
  split at h
  · cases h
  · exact (UpPhase.running.inj h).symm

theorem upLawful_up (hfiles : InOrder files) (strict : Bool) (throws : MigrationFile → Bool) :
    UpLawful files store (up files strict throws store) := by
  cases hplan : planUp files strict (migrationsOf store) with
  | running pending =>
      have hup : up files strict throws store = runPending throws store pending := by
        rw [up, hplan]
      have hpending := planUp_pending hplan
      have hsub : pending.Sublist (loadMigrationFiles files []) := hpending ▸ List.filter_sublist
      have hnodup : (pending.map MigrationFile.id).Nodup :=
        (loadMigrationFiles_nodup files []).sublist (hsub.map _)
      have hstarts := runPending_prefix throws store pending
      rw [hup]
      refine ⟨?_, ?_, runPending_recorded throws store pending, ?_⟩
      · intro before e after hran
        have he : e ∈ (runPending throws store pending).ran := by
          rw [hran]
          exact List.mem_append_right _ List.mem_cons_self
        have hmem : e.migration ∈ pending := hstarts.subset (List.mem_map_of_mem he)
        refine ⟨runPending_bodies throws store pending e he, ?_⟩
        rw [idsOf, List.map_append, List.mem_append, not_or]
        constructor
        · rw [hpending] at hmem
          exact of_decide_eq_true (List.mem_filter.mp hmem).2
        · intro hbefore
          have hids : (before.map (fun e => e.migration.id) ++ e.migration.id ::
              after.map fun e => e.migration.id).Nodup := by
            have hall := hnodup.sublist (hstarts.sublist.map MigrationFile.id)
            rw [hran, List.map_map, List.map_append, List.map_cons] at hall
            exact hall
          have hdisjoint := (List.nodup_append.mp hids).2.2
          exact hdisjoint _ ((idsOf_recordsOf before).subset hbefore) _ List.mem_cons_self rfl
      · have hsorted := (hfiles.sublist
          ((hstarts.sublist.trans hsub).trans (loadMigrationFiles_sublist files [])))
        rw [List.pairwise_map] at hsorted
        exact hsorted
      · intro hreturned m hm
        rw [runPending_recorded, runPending_returned hreturned, recordsOf_completed, idsOf,
          List.map_append, List.mem_append]
        by_cases hrecorded : m.id ∈ idsOf (migrationsOf store)
        · exact Or.inl hrecorded
        · refine Or.inr ?_
          rw [← idsOf, idsOf_entries, hpending]
          exact List.mem_map_of_mem (List.mem_filter.mpr ⟨hm, decide_eq_true hrecorded⟩)
  | _ =>
      have hup : up files strict throws store = { store, ran := [], thrown := true } := by
        rw [up, hplan]
      rw [hup]
      refine ⟨?_, List.Pairwise.nil, (List.append_nil _).symm, ?_⟩
      · intro before e after hran
        exact absurd hran.symm (List.append_ne_nil_of_right_ne_nil _ (List.cons_ne_nil _ _))
      · intro hreturned
        cases hreturned

theorem nodup_up (hnodup : (idsOf (migrationsOf store)).Nodup) (strict : Bool)
    (throws : MigrationFile → Bool) :
    (idsOf (migrationsOf (up files strict throws store).store)).Nodup := by
  cases hplan : planUp files strict (migrationsOf store) with
  | running pending =>
      have hup : up files strict throws store = runPending throws store pending := by
        rw [up, hplan]
      have hstarts := runPending_prefix throws store pending
      have hpending := planUp_pending hplan
      -- what is recorded are identities of pending migrations
      have hids : (idsOf (recordsOf (runPending throws store pending).ran)).Sublist
          (pending.map MigrationFile.id) := by
        have h := hstarts.sublist.map MigrationFile.id
        rw [List.map_map] at h
        exact (idsOf_recordsOf _).trans h
      rw [hup, runPending_recorded, idsOf, List.map_append]
      refine List.nodup_append.mpr ⟨hnodup, ?_, ?_⟩
      · refine List.Nodup.sublist hids ?_
        rw [hpending]
        exact (loadMigrationFiles_nodup files []).sublist (List.filter_sublist.map _)
      · rintro id hold _ hnew rfl
        obtain ⟨m, hm, rfl⟩ := List.mem_map.mp (hids.subset hnew)
        rw [hpending] at hm
        exact of_decide_eq_true (List.mem_filter.mp hm).2 hold
  | _ =>
      rw [up, hplan]
      exact hnodup

/-! ## One call of `down()` -/

theorem downLawful_down (throws : Bool) : DownLawful store (down files throws store) := by
  rw [down]
  cases hplan : planDown files ⟨migrationsOf store, 0⟩ with
  | ready m state =>
      have hread := (planDown_read files ⟨migrationsOf store, 0⟩ m state (by rw [hplan]; rfl)).1
      subst hread
      cases throws with
      | true => exact ⟨fun _ => rfl, fun h => nomatch h⟩
      | false => exact ⟨fun h => (nomatch h), fun _ => rfl⟩
  | _ =>
      refine ⟨fun _ => rfl, fun h => ?_⟩
      have hempty : migrationsOf store = [] := by simpa using h
      show migrationsOf store = _
      rw [hempty]
      rfl

theorem nodup_down (hnodup : (idsOf (migrationsOf store)).Nodup) (throws : Bool) :
    (idsOf (migrationsOf (down files throws store).store)).Nodup := by
  have hlaw : DownLawful store (down files throws store) := downLawful_down throws
  cases hthrown : (down files throws store).thrown with
  | true =>
      rw [hlaw.unchanged hthrown]
      exact hnodup
  | false =>
      rw [hlaw.undone hthrown]
      exact hnodup.sublist ((List.dropLast_sublist _).map _)

/-- A call that returns has run the body of the last entry, and taken that back. -/
theorem down_last {before : List Recorded} {m : MigrationFile} {throws : Bool}
    (hm : m ∈ loadMigrationFiles files []) (hstore : migrationsOf store = before ++ [m.entry])
    (hreturned : (down files throws store).thrown = false) :
    (down files throws store).ran = [⟨m, .down, true⟩]
      ∧ migrationsOf (down files throws store).store = before := by
  have hfind : (loadMigrationFiles files []).find? (fun m' => m'.id = m.entry.id) = some m :=
    find_loaded hm
  have hplan : planDown files ⟨migrationsOf store, 0⟩
      = if m.hasDown then .ready m ⟨migrationsOf store, 0⟩ else .done := by
    rw [planDown, hstore, List.getLast?_concat]
    dsimp only
    rw [hfind]
  refine ⟨?_, ?_⟩
  · rw [down, hplan] at hreturned ⊢
    cases hdown : m.hasDown with
    | false =>
        rw [hdown, hstore] at hreturned
        have hnonempty : (before ++ [m.entry]).isEmpty = false := by simp
        simp [hnonempty] at hreturned
    | true =>
        rw [hdown] at hreturned
        cases throws with
        | true => cases hreturned
        | false => rfl
  · rw [(downLawful_down throws).undone hreturned, hstore, List.dropLast_concat]

/-- **Rollback.** As many calls as migrations, all of which return: the bodies run in
    the reverse order, and the record is the one before them. -/
theorem undone_downs {before : List Recorded} (applied : List MigrationFile)
    (hloaded : ∀ m ∈ applied, m ∈ loadMigrationFiles files [])
    (hstore : migrationsOf store = before ++ applied.map MigrationFile.entry) (throws : List Bool)
    (hlength : throws.length = applied.length)
    (hreturned : ∀ out ∈ outcomes files store (throws.map .down), out.thrown = false) :
    (outcomes files store (throws.map .down)).flatMap Outcome.ran
        = applied.reverse.map (fun m => ⟨m, .down, true⟩)
      ∧ migrationsOf (storeAfter files store (throws.map .down)) = before := by
  induction applied using List.reverseRecOn generalizing store throws with
  | nil =>
      rw [List.length_eq_zero_iff.mp hlength]
      exact ⟨rfl, by simpa [storeAfter] using hstore⟩
  | append_singleton applied m ih =>
      cases throws with
      | nil => simp at hlength
      | cons flag throws =>
          rw [List.map_append, List.map_singleton, ← List.append_assoc] at hstore
          obtain ⟨hran, hafter⟩ := down_last (hloaded m (by simp)) hstore
            (hreturned (down files flag store) List.mem_cons_self)
          obtain ⟨hrest, hrecord⟩ := ih (fun m' hm' => hloaded m' (List.mem_append_left _ hm'))
            hafter throws (by simpa using hlength)
            fun out hout => hreturned out (List.mem_cons_of_mem _ hout)
          refine ⟨?_, hrecord⟩
          rw [List.map_cons, outcomes, List.flatMap_cons, List.reverse_append,
            List.reverse_singleton, List.singleton_append, List.map_cons]
          show (down files flag store).ran ++ _ = _
          rw [hran, List.singleton_append]
          exact congrArg _ hrest

/-- An `up()` that returned, and as many calls of `down()` that return. -/
theorem undone_up (strict : Bool) (bodies : MigrationFile → Bool)
    (hup : (up files strict bodies store).thrown = false) (throws : List Bool)
    (hlength : throws.length = (up files strict bodies store).ran.length)
    (hreturned : ∀ out ∈ outcomes files (up files strict bodies store).store (throws.map .down),
      out.thrown = false) :
    (outcomes files (up files strict bodies store).store (throws.map .down)).flatMap Outcome.ran
        = (up files strict bodies store).ran.reverse.map (fun e => { e with body := .down })
      ∧ migrationsOf (storeAfter files (up files strict bodies store).store (throws.map .down))
        = migrationsOf store := by
  cases hplan : planUp files strict (migrationsOf store) with
  | running pending =>
      have hcode : up files strict bodies store = runPending bodies store pending := by
        rw [up, hplan]
      rw [hcode] at hup hlength hreturned ⊢
      have hran := runPending_returned hup
      have hrecorded := runPending_recorded bodies store pending
      rw [hran, recordsOf_completed] at hrecorded
      rw [hran, List.length_map] at hlength
      have hloaded : ∀ m ∈ pending, m ∈ loadMigrationFiles files [] := by
        intro m hm
        rw [planUp_pending hplan] at hm
        exact (List.mem_filter.mp hm).1
      obtain ⟨hdowns, hrecord⟩ := undone_downs pending hloaded hrecorded throws hlength hreturned
      refine ⟨?_, hrecord⟩
      rw [hdowns, hran, ← List.map_reverse, List.map_map]
      rfl
  | _ =>
      rw [up, hplan] at hup
      cases hup

end

/-! ## Whole runs -/

theorem nodup_perform {files : List MigrationFile} {store : Option MigrationSet}
    (hnodup : (idsOf (migrationsOf store)).Nodup) (c : Call) :
    (idsOf (migrationsOf (perform files store c).store)).Nodup := by
  cases c with
  | up strict throws => exact nodup_up hnodup strict throws
  | down throws => exact nodup_down hnodup throws

/-- No sequence of calls records an identity twice. -/
theorem nodup_storeAfter {files : List MigrationFile} {store : Option MigrationSet}
    (hnodup : (idsOf (migrationsOf store)).Nodup) (calls : List Call) :
    (idsOf (migrationsOf (storeAfter files store calls))).Nodup := by
  induction calls generalizing store with
  | nil => exact hnodup
  | cons c calls ih => exact ih (nodup_perform hnodup c)

end MigrationRunner
