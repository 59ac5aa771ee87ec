import NestServer.Files.Stores
import NestServer.Runs

/-! # Orphaned bytes

    Which operations of the helpers leave bytes that no document names, when one of
    their steps fails. -/

namespace Files

open Injection Injection.Program

/-! ## Operations -/

inductive FileStorageDriver where
  | filesystem
  | gridfs
  | s3
deriving DecidableEq

structure Stores where
  filesystem : Store := {}
  gridfs     : Store := {}
  s3         : Store := {}

def Stores.get (stores : Stores) : FileStorageDriver → Store
  | .filesystem => stores.filesystem
  | .gridfs     => stores.gridfs
  | .s3         => stores.s3

def Stores.set (stores : Stores) (store : Store) : FileStorageDriver → Stores
  | .filesystem => { stores with filesystem := store }
  | .gridfs     => { stores with gridfs := store }
  | .s3         => { stores with s3 := store }

/-- A create has the id that it has made up. -/
inductive Operation where
  | filesystemWrite (id : ObjectId) (now : Int) (options : WriteOptions)
  | gridfsWrite (id : ObjectId) (now : Int) (chunks : List Bytes) (options : WriteOptions)
  | s3Write (id : ObjectId) (now : Int) (options : WriteOptions)
  | s3Copy (id : ObjectId) (now : Int) (source : Option Bytes) (options : WriteOptions)
  | filesystemDelete (id : ObjectId)
  | gridfsDelete (id : ObjectId)
  | s3Delete (id : ObjectId)

namespace Operation

def driver : Operation → FileStorageDriver
  | filesystemWrite .. => .filesystem
  | filesystemDelete _ => .filesystem
  | gridfsWrite ..     => .gridfs
  | gridfsDelete _     => .gridfs
  | s3Write ..         => .s3
  | s3Copy ..          => .s3
  | s3Delete _         => .s3

/-- What a create returns; a delete returns nothing. -/
def program : Operation → Program Step Store (Option FileInfo)
  | filesystemWrite id now options    => some <$> FilesystemFileHelper.writeFile id now options
  | gridfsWrite id now chunks options =>
      some <$> GridFSHelper.writeFileFromStream id now chunks options
  | s3Write id now options            => some <$> S3FileHelper.writeFile id now options
  | s3Copy id now source options      => some <$> S3FileHelper.copyFile id now source options
  | filesystemDelete id               => (fun _ => none) <$> FilesystemFileHelper.deleteFile id
  | gridfsDelete id                   => (fun _ => none) <$> GridFSHelper.deleteFile id
  | s3Delete id                       => (fun _ => none) <$> S3FileHelper.deleteFile id

/-- The id of a new file. -/
def new : Operation → Option ObjectId
  | filesystemWrite id _ _ => some id
  | gridfsWrite id _ _ _   => some id
  | s3Write id _ _         => some id
  | s3Copy id _ _ _        => some id
  | _                      => none

end Operation

/-- An operation, and the step that fails. -/
structure Event where
  operation : Operation
  failure   : Option (Step × String) := none

def failing (failure : Option (Step × String)) (step : Step) : Outcome :=
  match failure with
  | none             => .done
  | some (failed, e) => if step = failed then .fails e else .done

def Event.run (event : Event) (store : Store) : Except String (Option FileInfo) × Store :=
  event.operation.program.run (failing event.failure) store

/-- No file has the id. -/
def Store.Unused (store : Store) (id : ObjectId) : Prop :=
  store.bytes id = none ∧ ∀ info ∈ store.files, info.id ≠ id

instance (store : Store) (id : ObjectId) : Decidable (store.Unused id) :=
  inferInstanceAs (Decidable (_ ∧ _))

def step (stores : Stores) (event : Event) : Option Stores :=
  let store := stores.get event.operation.driver
  if ∀ id ∈ event.operation.new, store.Unused id then
    some (stores.set (event.run store).2 event.operation.driver)
  else none

/-! ## What is promised -/

/-- All bytes are named by a document. -/
def Store.Named (store : Store) : Prop :=
  ∀ id, store.bytes id ≠ none → ∃ info ∈ store.files, info.id = id

def Stores.Named (stores : Stores) : Prop := ∀ driver, (stores.get driver).Named

/-- **The promise** about one operation. -/
structure Tidy (stores : Stores) (event : Event) : Prop where
  named     : ∀ t, step stores event = some t → t.Named
  unchanged : ∀ t e, step stores event = some t → event.operation.new ≠ none →
    (event.run (stores.get event.operation.driver)).1 = .error e → t = stores

/-- The steps whose failure leaves something behind. -/
def Operation.Leaves : Operation → Step → Prop
  | .gridfsWrite _ _ chunks _, .chunk i     => 0 < i ∧ i < chunks.length
  | .gridfsWrite _ _ chunks _, .filesDocument => chunks ≠ []
  | .gridfsWrite .., .find                  => True
  | .s3Write _ _ options, .headObject       => ¬ (options.body = none ∧ options.buffer = none)
  | .s3Write _ _ options, .insertOne        => ¬ (options.body = none ∧ options.buffer = none)
  | .s3Copy _ _ source _, .headObject       => source ≠ none
  | .s3Copy _ _ source _, .insertOne        => source ≠ none
  | _, _                                    => False

def Spared (event : Event) : Prop :=
  ∀ step e, event.failure = some (step, e) → ¬ event.operation.Leaves step

/-! ## The stores -/

variable {store : Store} {id : ObjectId}

@[simp] theorem put_bytes_self (content : Bytes) : (store.put id content).bytes id = some content :=
  Function.update_self ..

theorem put_put (content content' : Bytes) :
    (store.put id content).put id content' = store.put id content' := by
  rw [Store.put, Store.put, Store.put, Function.update_idem]

theorem drop_append (chunk : Bytes) : (store.append id chunk).drop id = store.drop id := by
  rw [Store.append, Store.put, Store.drop, Store.drop, Function.update_idem]

theorem drop_put (hnew : store.bytes id = none) (content : Bytes) :
    (store.put id content).drop id = store := by
  rw [Store.drop, Store.put, Function.update_idem, ← hnew, Function.update_eq_self]

theorem drop_unused (hnew : store.bytes id = none) : store.drop id = store := by
  rw [Store.drop, ← hnew, Function.update_eq_self]

theorem Store.Named.created (h : store.Named) (content : Bytes) (info : FileInfo) :
    ((store.put info.id content).insert info).Named := by
  intro other hother
  by_cases hsame : other = info.id
  · exact ⟨info, List.mem_append_right _ (List.mem_singleton.mpr rfl), hsame.symm⟩
  · have hbytes : (Function.update store.bytes info.id (some content)) other ≠ none := hother
    rw [Function.update_of_ne hsame] at hbytes
    obtain ⟨found, hfound, hid⟩ := h other hbytes
    exact ⟨found, List.mem_append_left _ hfound, hid⟩

theorem Store.Named.drop (h : store.Named) (id : ObjectId) : (store.drop id).Named := by
  intro other hother
  have hbytes : (Function.update store.bytes id none) other ≠ none := hother
  by_cases hsame : other = id
  · rw [hsame, Function.update_self] at hbytes
    exact absurd rfl hbytes
  · rw [Function.update_of_ne hsame] at hbytes
    exact h other hbytes

/-- What has no bytes needs no document. -/
theorem Store.Named.delete (h : store.Named) (id : ObjectId) :
    ((store.drop id).delete id).Named := by
  intro other hother
  have hbytes : (Function.update store.bytes id none) other ≠ none := hother
  have hne : other ≠ id := by
    rintro rfl
    exact hbytes (Function.update_self ..)
  obtain ⟨info, hinfo, hid⟩ := h.drop id other hother
  refine ⟨info, List.mem_filter.mpr ⟨hinfo, ?_⟩, hid⟩
  rw [hid]
  exact decide_eq_true hne

/-- Bytes at a new id are orphaned. -/
theorem not_named_put (hunused : store.Unused id) (content : Bytes) :
    ¬ (store.put id content).Named := by
  intro h
  have hbytes : (store.put id content).bytes id ≠ none := by
    show Function.update store.bytes id (some content) id ≠ none
    rw [Function.update_self]
    rintro ⟨⟩
  obtain ⟨info, hinfo, hid⟩ := h id hbytes
  exact hunused.2 info hinfo hid

/-! ## One operation -/

/-- Whatever is there is named, and an error leaves nothing behind. -/
def AllOrNothing (store : Store) (r : Except String FileInfo × Store) : Prop :=
  r.2.Named ∧ ∀ e, r.1 = .error e → r.2 = store

theorem allOrNothing_created (h : store.Named) (content : Bytes) {info : FileInfo}
    (hid : info.id = id)
    (answer : FileInfo) : AllOrNothing store (.ok answer, (store.put id content).insert info) := by
  subst hid
  exact ⟨h.created content info, by rintro e ⟨⟩⟩

theorem allOrNothing_unchanged (h : store.Named) (r : Except String FileInfo) :
    AllOrNothing store (r, store) :=
  ⟨h, fun _ _ => rfl⟩

theorem not_allOrNothing_put (hunused : store.Unused id) (r : Except String FileInfo)
    (content : Bytes) :
    ¬ AllOrNothing store (r, store.put id content) := fun h => not_named_put hunused content h.1

variable (failure : Option (Step × String))

theorem failing_cases (step : Step) :
    failing failure step = .done ∨ ∃ e, failing failure step = .fails e ∧
      failure = some (step, e) := by
  rcases failure with _ | ⟨failed, e⟩
  · exact Or.inl rfl
  · by_cases hstep : step = failed
    · subst hstep
      exact Or.inr ⟨e, if_pos rfl, rfl⟩
    · exact Or.inl (if_neg hstep)

/-- One step fails at most. -/
theorem failing_other {step other : Step} {e : String} (h : failure = some (step, e))
    (hne : other ≠ step) :
    failing failure other = .done := by
  rw [h]
  exact if_neg hne

theorem not_failed {step : Step} (h : failing failure step = .done) (e : String) :
    failure ≠ some (step, e) := by
  rintro rfl
  rw [failing, if_pos rfl] at h
  cases h

@[simp] theorem run_ensureFilenameIndex {faults : Step → Outcome} :
    ensureFilenameIndex.run faults store = (.ok (), store) := by
  rw [ensureFilenameIndex, run_quietly, run_perform]
  cases faults .createIndex with
  | done => rfl
  | fails e => rfl
  | lost e => rfl

variable (store id) in
/-- `tryWrite` with something to write: its failure leaves the bytes, if a step after the first
fails. -/
theorem tryWrite_cases {options : WriteOptions} {content : Bytes}
    (hcontent : options.buffer.or options.body = some content) (now : Int) :
    (∃ info, info.id = id ∧ (FilesystemFileHelper.tryWrite id now options).run (failing failure)
      store =
      (.ok info, (store.put id content).insert info)) ∨
    (∃ e, (FilesystemFileHelper.tryWrite id now options).run (failing failure) store =
      (.error e, store)) ∨
    ∃ e, (FilesystemFileHelper.tryWrite id now options).run (failing failure) store =
      (.error e, store.put id content) ∧ failing failure .rm = .done := by
  have hwrite : FilesystemFileHelper.writeBytes id options = perform .pipeline fun store =>
      store.put id content := by
    rw [FilesystemFileHelper.writeBytes]
    cases hbuffer : options.buffer with
    | some buffer =>
        rw [hbuffer] at hcontent
        cases hcontent
        rfl
    | none =>
        rw [hbuffer] at hcontent
        rw [show options.body = some content from hcontent]
  have hempty : ¬ (content.length = 0 ∧ 0 < (options.buffer.getD []).length) := by
    rintro ⟨hzero, hpos⟩
    cases hbuffer : options.buffer with
    | some buffer =>
        rw [hbuffer] at hcontent hpos
        cases hcontent
        exact absurd hpos (Nat.not_lt.mpr (Nat.le_of_eq hzero))
    | none =>
        rw [hbuffer] at hpos
        exact absurd hpos (Nat.lt_irrefl 0)
  have hthere : (store.put id content).bytes id = some content := Function.update_self ..
  rcases failing_cases failure .pipeline with hpipeline | ⟨e, hpipeline, _⟩
  · rcases failing_cases failure .stat with hstat | ⟨e, hstat, hfailure⟩
    · rcases failing_cases failure .insertOne with hinsert | ⟨e, hinsert, hfailure⟩
      · refine Or.inl ⟨FilesystemFileHelper.fileInfo id now options content.length, rfl, ?_⟩
        simp only [FilesystemFileHelper.tryWrite, hwrite, run_bind, run_perform, hpipeline,
          decide_done, settle_ok, FilesystemFileHelper.stat, run_observe, hstat, hthere,
          if_neg hempty, run_ensureFilenameIndex, hinsert, run_pure]
      · refine Or.inr (Or.inr ⟨e, ?_, failing_other failure hfailure (by rintro ⟨⟩)⟩)
        simp only [FilesystemFileHelper.tryWrite, hwrite, run_bind, run_perform, hpipeline,
          decide_done, settle_ok, FilesystemFileHelper.stat, run_observe, hstat, hthere,
          if_neg hempty, run_ensureFilenameIndex, hinsert, decide_fails, settle_error]
    · refine Or.inr (Or.inr ⟨e, ?_, failing_other failure hfailure (by rintro ⟨⟩)⟩)
      simp only [FilesystemFileHelper.tryWrite, hwrite, run_bind, run_perform, hpipeline,
        decide_done, settle_ok, FilesystemFileHelper.stat, run_observe, hstat, decide_fails,
        settle_error]
  · refine Or.inr (Or.inl ⟨e, ?_⟩)
    simp only [FilesystemFileHelper.tryWrite, hwrite, run_bind, run_perform, hpipeline,
      decide_fails, settle_error]

theorem filesystem_write (hnamed : store.Named) (hnew : store.bytes id = none) (now : Int)
    (options : WriteOptions) :
    AllOrNothing store ((FilesystemFileHelper.writeFile id now options).run (failing failure)
      store) := by
  rcases failing_cases failure .mkdir with hmkdir | ⟨e, hmkdir, _⟩
  · have hrun : (FilesystemFileHelper.writeFile id now options).run (failing failure) store = _ :=
      run_bind_ok (step_done hmkdir)
    rw [hrun]
    -- there are no bytes, whether the clean-up works or not
    have hcleanup : ∀ error, (quietly (perform .rm fun store => store.drop id) >>= fun _ =>
        (Program.throw error : Program Step Store FileInfo)).run (failing failure) store =
          (.error error, store) := by
      intro error
      simp only [run_bind, run_quietly, run_perform, settle_ok, run_throw]
      rcases failing_cases failure .rm with hrm | ⟨e', hrm, _⟩
      · rw [hrm, decide_done, drop_unused hnew]
      · rw [hrm, decide_fails]
    cases hcontent : options.buffer.or options.body with
    | some content =>
        rcases tryWrite_cases store id failure hcontent now
          with ⟨info, hid, hrun⟩ | ⟨e, hrun⟩ | ⟨e, hrun, hrm⟩
        · rw [run_rescue_ok hrun]
          exact allOrNothing_created hnamed content hid info
        · rw [run_rescue_error hrun, hcleanup]
          exact allOrNothing_unchanged hnamed _
        · rw [run_rescue_error hrun]
          simp only [run_bind, run_quietly, run_perform, settle_ok, run_throw, hrm, decide_done]
          rw [drop_put hnew content]
          exact allOrNothing_unchanged hnamed _
    | none =>
        -- there is nothing to write, and nothing is written
        have hwrite : FilesystemFileHelper.writeBytes id options =
            Program.throw "FilesystemFileHelper.writeFile requires either `buffer` or `body`" := by
          obtain ⟨hbuffer, hbody⟩ := Option.or_eq_none_iff.mp hcontent
          rw [FilesystemFileHelper.writeBytes, hbuffer, hbody]
        have hrun : (FilesystemFileHelper.tryWrite id now options).run (failing failure) store =
            (.error _, store) :=
          run_bind_error (by rw [hwrite]; rfl)
        rw [run_rescue_error hrun, hcleanup]
        exact allOrNothing_unchanged hnamed _
  · have hrun : (FilesystemFileHelper.writeFile id now options).run (failing failure) store = _ :=
      run_bind_error (step_fails hmkdir)
    rw [hrun]
    exact allOrNothing_unchanged hnamed _

/-! ### S3 -/

/-- The two steps after which an object stays. -/
def Unrecorded (failure : Option (Step × String)) : Prop :=
  failure.map Prod.fst = some .headObject ∨ failure.map Prod.fst = some .insertOne

theorem recordFile_cases (content : Bytes) (now : Int) (options : WriteOptions)
    (length : Option Nat) :
    (¬ Unrecorded failure ∧
      (S3FileHelper.recordFile id now options length).run (failing failure) (store.put id content) =
        (.ok (S3FileHelper.fileInfo id now options length),
          (store.put id content).insert (S3FileHelper.fileInfo id now options length))) ∨
    (Unrecorded failure ∧ ∃ e,
      (S3FileHelper.recordFile id now options length).run (failing failure) (store.put id content) =
        (.error e, store.put id content)) := by
  have hthere : (store.put id content).bytes id = some content := Function.update_self ..
  rcases failing_cases failure .headObject with hhead | ⟨e, hhead, hfailure⟩
  · rcases failing_cases failure .insertOne with hinsert | ⟨e, hinsert, hfailure⟩
    · refine Or.inl ⟨?_, ?_⟩
      · rcases failure with _ | ⟨step, e⟩
        · rintro (h | h)
          · cases h
          · cases h
        · rintro (h | h)
          · cases h
            cases hhead
          · cases h
            cases hinsert
      · simp only [S3FileHelper.recordFile, run_bind, run_observe, hhead, decide_done, settle_ok,
          hthere, Option.isSome_some, if_true, run_ensureFilenameIndex, run_perform, hinsert,
          run_pure]
    · refine Or.inr ⟨Or.inr (by rw [hfailure]; rfl), e, ?_⟩
      simp only [S3FileHelper.recordFile, run_bind, run_observe, hhead, decide_done, settle_ok,
        hthere, Option.isSome_some, if_true, run_ensureFilenameIndex, run_perform, hinsert,
        decide_fails, settle_error]
  · refine Or.inr ⟨Or.inl (by rw [hfailure]; rfl), e, ?_⟩
    simp only [S3FileHelper.recordFile, run_bind, run_observe, hhead, decide_fails, settle_error]

theorem putObject_cases (content : Bytes) (streamed : Bool) (length : Option Nat) :
    (S3FileHelper.putObject id content streamed length).run (failing failure) store =
      (.ok (), store.put id content) ∨
    ¬ Unrecorded failure ∧ ∃ e,
      (S3FileHelper.putObject id content streamed length).run (failing failure) store =
        (.error e, store) := by
  have hnot : ∀ step e, failure = some (step, e) → step ≠ .headObject → step ≠ .insertOne →
      ¬ Unrecorded failure := by
    rintro step e rfl hhead hinsert (h | h)
    · exact hhead (Option.some.inj h)
    · exact hinsert (Option.some.inj h)
  have hput : (perform .putObject fun store => store.put id content).run (failing failure) store =
      (.ok (), store.put id content) ∨ ¬ Unrecorded failure ∧ ∃ e,
        (perform .putObject fun store => store.put id content).run (failing failure) store =
          (.error e, store) := by
    rcases failing_cases failure .putObject with hput | ⟨e, hput, hfailure⟩
    · exact Or.inl (step_done hput)
    · exact Or.inr ⟨hnot _ e hfailure (by rintro ⟨⟩) (by rintro ⟨⟩), e, step_fails hput⟩
  rw [S3FileHelper.putObject]
  by_cases hcollect : streamed = true ∧ length = none
  · rw [if_pos hcollect]
    rcases failing_cases failure .collect with hdone | ⟨e, hfails, hfailure⟩
    · have hrun : (perform Step.collect fun store => store).run (failing failure) store =
          (.ok (), store) :=
        step_done hdone
      rw [run_bind_ok hrun]
      exact hput
    · have hrun : (perform Step.collect fun store => store).run (failing failure) store =
          (.error e, store) :=
        step_fails hfails
      rw [run_bind_error hrun]
      exact Or.inr ⟨hnot _ e hfailure (by rintro ⟨⟩) (by rintro ⟨⟩), e, rfl⟩
  · rw [if_neg hcollect]
    exact hput

/-- An object that is put, and then recorded. -/
theorem putAndRecord_iff (hnamed : store.Named) (hunused : store.Unused id)
    {p : Program Step Store Unit} {content : Bytes}
    (hp : p.run (failing failure) store = (.ok (), store.put id content) ∨
      ¬ Unrecorded failure ∧ ∃ e, p.run (failing failure) store = (.error e, store))
    (now : Int) (options : WriteOptions) (length : Option Nat) :
    AllOrNothing store
      ((p >>= fun _ => S3FileHelper.recordFile id now options length).run (failing failure) store) ↔
      ¬ Unrecorded failure := by
  rcases hp with hrun | ⟨hspared, e, hrun⟩
  · rw [run_bind_ok hrun]
    rcases recordFile_cases failure content now options length
      with ⟨hspared, hrecord⟩ | ⟨hunrecorded, e, hrecord⟩
    · rw [hrecord]
      have hid : (S3FileHelper.fileInfo id now options length).id = id := rfl
      exact iff_of_true (allOrNothing_created hnamed content hid _) hspared
    · rw [hrecord]
      exact iff_of_false (not_allOrNothing_put hunused _ content) fun h => h hunrecorded
  · rw [run_bind_error hrun]
    exact iff_of_true (allOrNothing_unchanged hnamed _) hspared

theorem s3_write_iff (hnamed : store.Named) (hunused : store.Unused id) (now : Int)
    (options : WriteOptions) :
    AllOrNothing store ((S3FileHelper.writeFile id now options).run (failing failure) store) ↔
      (Unrecorded failure → options.body = none ∧ options.buffer = none) := by
  have hsome : ∀ (content : Bytes) (streamed : Bool),
      ¬ (options.body = none ∧ options.buffer = none) →
      S3FileHelper.writeFile id now options = (S3FileHelper.putObject id content streamed
        (S3FileHelper.lengthOf options) >>= fun _ =>
          S3FileHelper.recordFile id now options (S3FileHelper.lengthOf options)) →
      (AllOrNothing store ((S3FileHelper.writeFile id now options).run (failing failure) store) ↔
        (Unrecorded failure → options.body = none ∧ options.buffer = none)) := by
    intro content streamed hcontent hwrite
    rw [hwrite, putAndRecord_iff failure hnamed hunused
      (putObject_cases failure content streamed _)]
    exact ⟨fun h hunrecorded => absurd hunrecorded h, fun h hunrecorded => hcontent (h hunrecorded)⟩
  rcases hbody : options.body with _ | body
  · rcases hbuffer : options.buffer with _ | buffer
    · have hwrite : S3FileHelper.writeFile id now options =
          Program.throw "S3FileHelper.writeFile needs either a body stream or a buffer" := by
        rw [S3FileHelper.writeFile, hbody, hbuffer]
      rw [hwrite, run_throw]
      exact iff_of_true (allOrNothing_unchanged hnamed _) fun _ => ⟨rfl, rfl⟩
    · rw [hbody, hbuffer] at hsome
      exact hsome buffer false (by rintro ⟨_, ⟨⟩⟩) (by rw [S3FileHelper.writeFile, hbody, hbuffer])
  · rw [hbody] at hsome
    exact hsome body true (by rintro ⟨⟨⟩, _⟩) (by rw [S3FileHelper.writeFile, hbody])

theorem s3_copy_iff (hnamed : store.Named) (hunused : store.Unused id) (now : Int)
    (source : Option Bytes)
    (options : WriteOptions) :
    AllOrNothing store ((S3FileHelper.copyFile id now source options).run (failing failure) store) ↔
      (Unrecorded failure → source = none) := by
  cases source with
  | none =>
      refine iff_of_true ?_ fun _ => rfl
      rcases failing_cases failure .copyObject with hcopy | ⟨e, hcopy, _⟩
      · have hrun : (S3FileHelper.copyFile id now none options).run (failing failure) store = _ :=
          run_bind_error (step_done hcopy)
        rw [hrun]
        exact allOrNothing_unchanged hnamed _
      · have hrun : (S3FileHelper.copyFile id now none options).run (failing failure) store = _ :=
          run_bind_error (step_fails hcopy)
        rw [hrun]
        exact allOrNothing_unchanged hnamed _
  | some content =>
      have hcopy : (Program.step .copyObject fun store =>
          ((.ok (), store.put id content) : Except String Unit × Store)).run
            (failing failure) store = (.ok (), store.put id content) ∨ ¬ Unrecorded failure ∧ ∃ e,
          (Program.step .copyObject fun store =>
            ((.ok (), store.put id content) : Except String Unit × Store)).run
            (failing failure) store = (.error e, store) := by
        rcases failing_cases failure .copyObject with hcopy | ⟨e, hcopy, rfl⟩
        · exact Or.inl (step_done hcopy)
        · refine Or.inr ⟨?_, e, step_fails hcopy⟩
          rintro (h | h)
          · cases h
          · cases h
      refine (putAndRecord_iff failure hnamed hunused hcopy now options options.contentLength).trans
        ?_
      constructor
      · intro h hunrecorded
        exact absurd hunrecorded h
      · intro h hunrecorded
        cases h hunrecorded

/-! ### GridFS -/

def Store.appendAll (store : Store) (id : ObjectId) (chunks : List Bytes) : Store :=
  chunks.foldl (fun store chunk => store.append id chunk) store

theorem appendAll_files (chunks : List Bytes) :
    (store.appendAll id chunks).files = store.files := by
  induction chunks generalizing store with
  | nil => rfl
  | cons chunk rest ih => exact ih

theorem appendAll_eq_put {chunks : List Bytes} (hsome : chunks ≠ []) :
    store.appendAll id chunks = store.put id ((store.bytes id).getD [] ++ chunks.flatten) := by
  induction chunks generalizing store with
  | nil => exact absurd rfl hsome
  | cons chunk rest ih =>
      show (store.append id chunk).appendAll id rest = _
      by_cases hrest : rest = []
      · subst hrest
        rw [List.flatten_singleton]
        rfl
      · rw [ih hrest, Store.append, put_bytes_self, put_put, Option.getD_some, List.flatten_cons,
          List.append_assoc]

variable (store id) in
/-- A source that fails has its chunks discarded. -/
theorem source_cases (i : Nat) :
    ((perform (.source i) fun store => store).rescue fun error => do
        quietly (perform .abort fun store => store.drop id)
        throw error).run (failing failure) store = (.ok (), store) ∨
    ∃ e, failure = some (.source i, e) ∧
      ((perform (.source i) fun store => store).rescue fun error => do
        quietly (perform .abort fun store => store.drop id)
        throw error).run (failing failure) store = (.error e, store.drop id) := by
  rcases failing_cases failure (.source i) with hsource | ⟨e, hsource, hfailure⟩
  · exact Or.inl (run_rescue_ok (step_done hsource))
  · have habort : failing failure .abort = .done := failing_other failure hfailure (by rintro ⟨⟩)
    refine Or.inr ⟨e, hfailure, ?_⟩
    simp only [run_rescue, run_perform, hsource, decide_fails, settle_error, run_bind, run_quietly,
      habort, decide_done, settle_ok, run_throw]

variable (store id) in
theorem pipe_cases (chunks : List Bytes) (i : Nat) :
    ((GridFSHelper.pipe id chunks i).run (failing failure) store =
      (.ok (), store.appendAll id chunks) ∧
      ∀ n, n < chunks.length → failure.map Prod.fst ≠ some (.chunk (i + n))) ∨
    (∃ e j, failure = some (.source j, e) ∧
      (GridFSHelper.pipe id chunks i).run (failing failure) store = (.error e, store.drop id)) ∨
    ∃ e n, n < chunks.length ∧ failure = some (.chunk (i + n), e) ∧
      (GridFSHelper.pipe id chunks i).run (failing failure) store =
        (.error e, store.appendAll id (chunks.take n)) := by
  induction chunks generalizing i store with
  | nil =>
      rcases source_cases store id failure i with hsource | ⟨e, hfailure, hsource⟩
      · refine Or.inl ⟨?_, ?_⟩
        · rw [GridFSHelper.pipe, run_bind_ok hsource]
          rfl
        · rintro n ⟨⟩
      · refine Or.inr (Or.inl ⟨e, i, hfailure, ?_⟩)
        rw [GridFSHelper.pipe, run_bind_error hsource]
  | cons chunk rest ih =>
      rcases source_cases store id failure i with hsource | ⟨e, hfailure, hsource⟩
      · rcases failing_cases failure (.chunk i) with hchunk | ⟨e, hchunk, hfailure⟩
        · have hstep : (GridFSHelper.pipe id (chunk :: rest) i).run (failing failure) store =
              (GridFSHelper.pipe id rest (i + 1)).run (failing failure)
                (store.append id chunk) := by
            rw [GridFSHelper.pipe, run_bind_ok hsource]
            exact run_bind_ok (step_done hchunk)
          rcases @ih (store.append id chunk) (i + 1) with ⟨hrun, hnone⟩ | ⟨e, j, hfailure, hrun⟩ |
            ⟨e, n, hn, hfailure, hrun⟩
          · refine Or.inl ⟨hstep.trans hrun, ?_⟩
            intro n hn
            cases n with
            | zero =>
                intro hfailed
                obtain ⟨⟨step, e⟩, hfailure, rfl⟩ := Option.map_eq_some_iff.mp hfailed
                rw [Nat.add_zero] at hfailure
                rw [hfailure, failing, if_pos rfl] at hchunk
                cases hchunk
            | succ n =>
                have hindex : i + (n + 1) = i + 1 + n := by omega
                rw [hindex]
                exact hnone n (Nat.lt_of_succ_lt_succ hn)
          · refine Or.inr (Or.inl ⟨e, j, hfailure, ?_⟩)
            rw [hstep, hrun, drop_append]
          · refine Or.inr (Or.inr ⟨e, n + 1, Nat.succ_lt_succ hn, ?_, ?_⟩)
            · rw [hfailure, show i + 1 + n = i + (n + 1) by omega]
            · rw [hstep, hrun]
              rfl
        · refine Or.inr (Or.inr ⟨e, 0, Nat.succ_pos _, hfailure, ?_⟩)
          rw [GridFSHelper.pipe, run_bind_ok hsource]
          exact run_bind_error (step_fails hchunk)
      · refine Or.inr (Or.inl ⟨e, i, hfailure, ?_⟩)
        rw [GridFSHelper.pipe, run_bind_error hsource]

variable (store) in
/-- A document that was inserted is found. -/
theorem run_onFinish {faults : Step → Outcome} (hfind : faults .find = .done) {info : FileInfo}
    (hid : info.id = id) : ∃ answer,
      (GridFSHelper.onFinish id).run faults (store.insert info) =
        (.ok answer, store.insert info) := by
  have hsome : ((store.insert info).files.find? fun found => found.id = id).isSome = true := by
    rw [List.find?_isSome]
    exact ⟨info, List.mem_append_right _ (List.mem_singleton.mpr rfl), decide_eq_true hid⟩
  obtain ⟨found, hfound⟩ := Option.isSome_iff_exists.mp hsome
  refine ⟨GridFSHelper.normalizeFileInfo found, ?_⟩
  rw [GridFSHelper.onFinish, run_observe, hfind, hfound]
  rfl

/-- What the chunks have become. -/
theorem appendAll_unused (hnew : store.bytes id = none) (chunks : List Bytes) :
    chunks = [] ∧ store.appendAll id chunks = store ∨
    chunks ≠ [] ∧ store.appendAll id chunks = store.put id chunks.flatten := by
  by_cases hchunks : chunks = []
  · subst hchunks
    exact Or.inl ⟨rfl, rfl⟩
  · refine Or.inr ⟨hchunks, ?_⟩
    rw [appendAll_eq_put hchunks, hnew]
    rfl

theorem Store.Named.insert (h : store.Named) (info : FileInfo) : (store.insert info).Named := by
  intro other hother
  obtain ⟨found, hfound, hid⟩ := h other hother
  exact ⟨found, List.mem_append_left _ hfound, hid⟩

theorem gridfs_write_iff (hnamed : store.Named) (hunused : store.Unused id) (now : Int)
    (chunks : List Bytes)
    (options : WriteOptions) :
    AllOrNothing store ((GridFSHelper.writeFileFromStream id now chunks options).run
      (failing failure) store) ↔
      Spared ⟨.gridfsWrite id now chunks options, failure⟩ := by
  rcases pipe_cases store id failure chunks 0
    with ⟨hpipe, hchunks⟩ | ⟨e, j, rfl, hpipe⟩ | ⟨e, n, hn, rfl, hpipe⟩
  · have hrun : (GridFSHelper.writeFileFromStream id now chunks options).run (failing failure)
        store = _ :=
      run_bind_ok hpipe
    rw [hrun]
    rcases failing_cases failure .filesDocument with hdocument | ⟨e, hdocument, hfailure⟩
    · have hinsert : ((perform .filesDocument fun store =>
            store.insert (GridFSHelper.rawFile id now options chunks.flatten.length)) >>= fun _ =>
          GridFSHelper.onFinish id).run (failing failure) (store.appendAll id chunks) = _ :=
        run_bind_ok (step_done hdocument)
      rw [hinsert]
      rcases failing_cases failure .find with hfind | ⟨e, hfind, hfailure⟩
      · have hid : (GridFSHelper.rawFile id now options chunks.flatten.length).id = id := rfl
        obtain ⟨answer, hanswer⟩ := run_onFinish (store.appendAll id chunks) hfind hid
        rw [hanswer]
        refine iff_of_true ?_ ?_
        · rcases appendAll_unused hunused.1 chunks with ⟨_, heq⟩ | ⟨_, heq⟩
          · rw [heq]
            exact ⟨hnamed.insert _, by rintro e ⟨⟩⟩
          · rw [heq]
            exact allOrNothing_created hnamed _ hid answer
        · intro step e hfailure hleaves
          cases step with
          | chunk i =>
              refine hchunks i hleaves.2 ?_
              rw [show failure = some (.chunk i, e) from hfailure, Nat.zero_add]
              rfl
          | filesDocument => exact not_failed failure hdocument e hfailure
          | find => exact not_failed failure hfind e hfailure
          | _ => exact hleaves
      · have hanswer : (GridFSHelper.onFinish id).run (failing failure)
            ((store.appendAll id chunks).insert
            (GridFSHelper.rawFile id now options chunks.flatten.length)) = (.error e, _) :=
              step_fails hfind
        rw [hanswer]
        refine iff_of_false ?_ fun h => h _ e hfailure trivial
        rintro ⟨_, hunchanged⟩
        have hfiles := congrArg (fun s => s.files.length) (hunchanged e rfl)
        dsimp only [Store.insert] at hfiles
        rw [List.length_append, List.length_singleton, appendAll_files] at hfiles
        omega
    · have hinsert : ((perform .filesDocument fun store =>
            store.insert (GridFSHelper.rawFile id now options chunks.flatten.length)) >>= fun _ =>
          GridFSHelper.onFinish id).run (failing failure) (store.appendAll id chunks) = _ :=
        run_bind_error (step_fails hdocument)
      rw [hinsert]
      rcases appendAll_unused hunused.1 chunks with ⟨hnil, heq⟩ | ⟨hsome, heq⟩
      · rw [heq]
        refine iff_of_true (allOrNothing_unchanged hnamed _) ?_
        intro step e' hstep hleaves
        rw [hfailure] at hstep
        cases hstep
        exact hleaves hnil
      · rw [heq]
        exact iff_of_false (not_allOrNothing_put hunused _ _) fun h => h _ e hfailure hsome
  · have hrun : (GridFSHelper.writeFileFromStream id now chunks options).run _ store = _ :=
      run_bind_error hpipe
    rw [hrun, drop_unused hunused.1]
    refine iff_of_true (allOrNothing_unchanged hnamed _) ?_
    rintro step e' ⟨⟩ ⟨⟩
  · have hrun : (GridFSHelper.writeFileFromStream id now chunks options).run _ store = _ :=
      run_bind_error hpipe
    rw [hrun, Nat.zero_add]
    rcases appendAll_unused hunused.1 (chunks.take n) with ⟨hnil, heq⟩ | ⟨hsome, heq⟩
    · rw [heq]
      refine iff_of_true (allOrNothing_unchanged hnamed _) ?_
      rintro step e' ⟨⟩ ⟨hpos, _⟩
      rcases List.take_eq_nil_iff.mp hnil with hzero | hnil
      · exact absurd hpos (Nat.not_lt.mpr (Nat.le_of_eq hzero))
      · subst hnil
        cases hn
    · rw [heq]
      refine iff_of_false (not_allOrNothing_put hunused _ _) fun h => ?_
      refine h _ e rfl ⟨Nat.pos_of_ne_zero ?_, hn⟩
      rintro rfl
      exact hsome rfl

/-! ### Deletes -/

/-- A delete names what is left, whether it fails or not. -/
theorem delete_named {p : Program Step Store Unit} (hnamed : store.Named) (step : Step)
    (hp : p = (perform step fun store => store.drop id) >>= fun _ => perform .deleteOne fun store =>
      store.delete id) :
    (p.run (failing failure) store).2.Named := by
  subst hp
  rcases failing_cases failure step with hdrop | ⟨e, hdrop, _⟩
  · have hrun : ((perform step fun store => store.drop id) >>= fun _ =>
        perform .deleteOne fun store => store.delete id).run (failing failure) store = _ :=
      run_bind_ok (step_done hdrop)
    rw [hrun, run_perform]
    rcases failing_cases failure .deleteOne with hdelete | ⟨e, hdelete, _⟩
    · rw [hdelete]
      exact hnamed.delete id
    · rw [hdelete]
      exact hnamed.drop id
  · have hrun : ((perform step fun store => store.drop id) >>= fun _ =>
        perform .deleteOne fun store => store.delete id).run (failing failure) store = _ :=
      run_bind_error (step_fails hdrop)
    rw [hrun]
    exact hnamed

theorem gridfs_delete_named (hnamed : store.Named) :
    ((GridFSHelper.deleteFile id).run (failing failure) store).2.Named := by
  rw [GridFSHelper.deleteFile, run_step]
  rcases failing_cases failure .bucketDelete with hdelete | ⟨e, hdelete, _⟩
  · rw [hdelete, decide_done]
    split
    · exact hnamed.delete id
    · exact hnamed.delete id
  · rw [hdelete]
    exact hnamed

/-! ## Runs -/

theorem Stores.get_set (stores : Stores) (store : Store) (driver : FileStorageDriver) :
    (stores.set store driver).get driver = store := by
  cases driver with
  | filesystem => rfl
  | gridfs => rfl
  | s3 => rfl

theorem Stores.get_set_of_ne (stores : Stores) (store : Store) {driver other : FileStorageDriver}
    (hne : other ≠ driver) : (stores.set store driver).get other = stores.get other := by
  cases driver <;> cases other <;> first | rfl | exact absurd rfl hne

theorem Stores.set_get (stores : Stores) (driver : FileStorageDriver) :
    stores.set (stores.get driver) driver = stores := by
  cases driver with
  | filesystem => rfl
  | gridfs => rfl
  | s3 => rfl

variable {stores t : Stores} {event : Event}

theorem step_eq_some (h : step stores event = some t) :
    (∀ id ∈ event.operation.new, (stores.get event.operation.driver).Unused id) ∧
    t = stores.set (event.run (stores.get event.operation.driver)).2 event.operation.driver := by
  rw [step] at h
  split at h
  · rename_i hnew
    exact ⟨hnew, (Option.some.inj h).symm⟩
  · cases h

theorem Stores.Named.set (h : stores.Named) {store : Store} (hstore : store.Named)
    (driver : FileStorageDriver) :
    (stores.set store driver).Named := by
  intro other
  by_cases hsame : other = driver
  · rw [hsame, Stores.get_set]
    exact hstore
  · rw [Stores.get_set_of_ne _ _ hsame]
    exact h other

/-- A create keeps the promise when it does all or nothing. -/
theorem create_tidy_iff (hnamed : stores.Named) (h : step stores event = some t)
    {p : Program Step Store FileInfo}
    (hprogram : event.operation.program = some <$> p) (hnew : event.operation.new ≠ none) :
    Tidy stores event ↔
      AllOrNothing (stores.get event.operation.driver)
        (p.run (failing event.failure) (stores.get event.operation.driver)) := by
  have hrun : event.run (stores.get event.operation.driver) =
      ((p.run (failing event.failure) (stores.get event.operation.driver)).1.map some,
        (p.run (failing event.failure) (stores.get event.operation.driver)).2) := by
    rw [Event.run, hprogram, run_map]
  obtain ⟨_, ht⟩ := step_eq_some h
  rcases hp : p.run (failing event.failure) (stores.get event.operation.driver) with ⟨answer, after⟩
  rw [hp] at hrun
  rw [hrun] at ht
  constructor
  · intro htidy
    refine ⟨?_, fun e he => ?_⟩
    · have hafter := htidy.named t h event.operation.driver
      rw [ht, Stores.get_set] at hafter
      exact hafter
    · have hunchanged := htidy.unchanged t e h hnew
          (by rw [hrun, show answer = .error e from he]; rfl)
      rw [ht] at hunchanged
      rw [← hunchanged, Stores.get_set]
  · rintro ⟨hafter, hunchanged⟩
    refine ⟨fun t' ht' => ?_, fun t' e ht' _ he => ?_⟩
    · rw [h] at ht'
      rw [← Option.some.inj ht', ht]
      exact hnamed.set hafter _
    · rw [h] at ht'
      rw [hrun] at he
      have herror : answer = .error e := by
        cases answer with
        | error e' => rw [Except.error.inj he]
        | ok info => cases he
      rw [← Option.some.inj ht', ht, show after = _ from hunchanged e herror, Stores.set_get]

/-- A delete keeps it in any case. -/
theorem delete_tidy (hnamed : stores.Named) (hnew : event.operation.new = none)
    (hafter : (event.run (stores.get event.operation.driver)).2.Named) : Tidy stores event := by
  refine ⟨fun t ht => ?_, fun t e _ hsome => absurd hnew hsome⟩
  rw [(step_eq_some ht).2]
  exact hnamed.set hafter _

theorem spared_of_unrecorded {operation : Operation} {P : Prop}
    (hleaves : ∀ step, operation.Leaves step ↔ (step = .headObject ∨ step = .insertOne) ∧ ¬ P) :
    (Unrecorded failure → P) ↔ Spared ⟨operation, failure⟩ := by
  constructor
  · intro h step e hfailure hstep
    obtain ⟨hone, hnot⟩ := (hleaves step).mp hstep
    refine hnot (h ?_)
    rw [Unrecorded, show failure = some (step, e) from hfailure]
    exact hone.imp (congrArg some) (congrArg some)
  · intro h hunrecorded
    by_contra hnot
    rcases failure with _ | ⟨step, e⟩
    · rcases hunrecorded with hone | hone
      · cases hone
      · cases hone
    · exact h step e rfl ((hleaves step).mpr ⟨hunrecorded.imp Option.some.inj Option.some.inj,
        hnot⟩)

theorem tidy_iff (hnamed : stores.Named) (h : step stores event = some t) : Tidy stores event ↔
    Spared event := by
  obtain ⟨operation, failure⟩ := event
  have hunused := (step_eq_some h).1
  cases operation with
  | filesystemWrite id now options =>
      refine (create_tidy_iff hnamed h rfl (by rintro ⟨⟩)).trans (iff_of_true ?_ ?_)
      · exact filesystem_write failure (hnamed .filesystem) (hunused id rfl).1 now options
      · rintro step e _ ⟨⟩
  | gridfsWrite id now chunks options =>
      refine (create_tidy_iff hnamed h rfl (by rintro ⟨⟩)).trans ?_
      exact gridfs_write_iff failure (hnamed .gridfs) (hunused id rfl) now chunks options
  | s3Write id now options =>
      refine (create_tidy_iff hnamed h rfl (by rintro ⟨⟩)).trans ?_
      refine (s3_write_iff failure (hnamed .s3) (hunused id rfl) now options).trans
        (spared_of_unrecorded failure fun step => ?_)
      cases step <;> simp [Operation.Leaves]
  | s3Copy id now source options =>
      refine (create_tidy_iff hnamed h rfl (by rintro ⟨⟩)).trans ?_
      refine (s3_copy_iff failure (hnamed .s3) (hunused id rfl) now source options).trans
        (spared_of_unrecorded failure fun step => ?_)
      cases step <;> simp [Operation.Leaves]
  | filesystemDelete id =>
      refine iff_of_true (delete_tidy hnamed rfl ?_) (by rintro step e _ ⟨⟩)
      rw [Event.run, Operation.program, run_map]
      exact delete_named failure (hnamed .filesystem) .rm rfl
  | gridfsDelete id =>
      refine iff_of_true (delete_tidy hnamed rfl ?_) (by rintro step e _ ⟨⟩)
      rw [Event.run, Operation.program, run_map]
      exact gridfs_delete_named failure (hnamed .gridfs)
  | s3Delete id =>
      refine iff_of_true (delete_tidy hnamed rfl ?_) (by rintro step e _ ⟨⟩)
      rw [Event.run, Operation.program, run_map]
      exact delete_named failure (hnamed .s3) .deleteObject rfl

/-- **No orphans, exactly.** The operations of a run keep the promise when none of them
    fails where its helper does not clean up. -/
theorem no_orphans_iff (events : List Event) (s t : Stores) (hnamed : s.Named)
    (hrun : Runs.run step s events = some t) :
    Runs.Meets step Tidy s events ↔ Runs.Meets step (fun _ event => Spared event) s events :=
  Runs.meets_iff step (C := fun _ event => Spared event) (D := Tidy) (I := Stores.Named)
    (fun _ _ _ hs h => tidy_iff hs h) (fun _ _ s' _ htidy h =>
      htidy.named s' h) events s t hnamed hrun

/-- One object is stored, another one is not recorded, the first is deleted. -/
def stored : Event := { operation := .s3Write "65f0" 0 { buffer := some [1], filename := "a" } }

def unrecorded : Event :=
  { operation := .s3Write "65f1" 0 { buffer := some [2], filename := "a" }, failure :=
    some (.insertOne, "down") }

def deleted : Event := { operation := .s3Delete "65f0", failure := some (.deleteOne, "down") }

theorem named_empty : ({} : Stores).Named := by
  intro driver id hbytes
  cases driver <;> exact absurd rfl hbytes

theorem no_orphans_iff_deleted : Runs.Meets step Tidy {} [stored, deleted] := by
  have hrun : Runs.run step {} [stored, deleted] = some _ := rfl
  refine (no_orphans_iff [stored, deleted] {} _ named_empty hrun).mpr (Runs.meets_cons step _ rfl ?_
    (Runs.meets_cons step _ rfl ?_ trivial))
  · rintro _ _ ⟨⟩
  · rintro _ _ _ ⟨⟩

/-- The document is not inserted, and the object stays. -/
theorem s3_orphan : (∃ t, Runs.run step {} [unrecorded] = some t) ∧
    ¬ Runs.Meets step Tidy {} [unrecorded] := by
  have hstep : step {} unrecorded = some _ := rfl
  refine ⟨⟨_, rfl⟩, fun h => ?_⟩
  obtain ⟨info, hinfo, _⟩ := h.1.named _ hstep .s3 "65f1" (by rintro ⟨⟩)
  cases hinfo

end Files
