import NestServer.Files.Orphans

/-! # A finished upload

    `CoreTusService.onUploadComplete`: the staged bytes are moved to the store that the
    downloads read, and then deleted where they were staged. -/

namespace Tus.Finish

open Files Injection Injection.Program Mongo

/-! ## Uploads -/

/-- What the client has sent, as a string if the server has not parsed it. -/
inductive UploadMetadata where
  | absent
  | text (metadata : String)
  | parsed (metadata : Metadata)

structure Upload where
  id       : String
  size     : Option Nat
  metadata : UploadMetadata := .absent

def TUS_OWNER_METADATA_KEY : String := "ltOwnerId"

def MAX_COPY_OBJECT_BYTES : Nat := 5 * 1024 * 1024 * 1024

/-- Where uploads in progress are: `s3Store`, and `s3StoreSharesEndpoint`. -/
inductive Staging where
  | disk
  | s3 (sharesEndpoint : Bool)
deriving DecidableEq

/-- The configuration, and what comes from packages: base64, and the chunks of a GridFS file. -/
structure Deployment where
  staging        : Staging
  /-- of `resolveFileStorage` -/
  driver         : FileStorageDriver
  /-- `options.s3Service` of this service is enabled -/
  s3Enabled      : Bool
  /-- that of the file service is -/
  s3Available    : Bool
  /-- asserted at the start of the file service -/
  asserted       : driver = .s3 → s3Available = true
  decode         : String → String
  chunks         : Bytes → List Bytes
  chunks_flatten : ∀ content, (chunks content).flatten = content

namespace Deployment

variable (d : Deployment)

def sharesEndpoint : Bool :=
  match d.staging with
  | .disk => false
  | .s3 b => b

def s3FileStorage : Bool := d.s3Enabled && d.driver = .s3

def canCopyWithinS3 (upload : Upload) : Bool :=
  if !d.sharesEndpoint || !d.s3FileStorage then false
  else
    match upload.size with
    | none      => false
    | some size => size ≤ MAX_COPY_OBJECT_BYTES

end Deployment

def trim (cs : List Char) : List Char :=
  ((cs.dropWhile Char.isWhitespace).reverse.dropWhile Char.isWhitespace).reverse

/-- One pair of the raw format. -/
def addPair (decode : String → String) (result : Metadata) (pair : List Char) : Metadata :=
  match (trim pair).splitOn ' ' with
  | []                => result
  | [key]             => if key = [] then result else result.set (String.ofList key) (.str "")
  | key :: value :: _ =>
      if key = [] then result
      else result.set (String.ofList key)
        (.str (if value = [] then "" else decode (String.ofList value)))

def parseMetadata (decode : String → String) : UploadMetadata → Metadata
  | .absent          => .empty
  | .text text       => if text = "" then .empty
      else (text.toList.splitOn ',').foldl (addPair decode) .empty
  | .parsed metadata => metadata

/-- A text that is not empty. -/
def textAt (metadata : Metadata) (key : String) : Option String :=
  match metadata.get? key with
  | some (.str text) => if text = "" then none else some text
  | _                => none

def fileMetadata (metadata : Metadata) (id : String) (now : Int) : Metadata :=
  let original : Metadata := OrderedMap.empty.set "originalMetadata" (.doc metadata.entries)
  let owned : Metadata :=
    match textAt metadata TUS_OWNER_METADATA_KEY with
    | some owner => original.set "ownerId" (.str owner)
    | none       => original
  (owned.set "tusUploadId" (.str id)).set "uploadedAt" (.date now)

/-! ## Steps -/

structure State where
  staged  : Option Bytes
  /-- the `.info` or `.json` file of the upload -/
  sidecar : Bool := true
  stores  : Stores := {}

inductive FinishStep where
  | files (step : Files.Step)
  | access
  | read
  | remove
  | deleteObject
  | deleteInfo
deriving DecidableEq

/-- A helper on one of the stores. -/
def onStore {α : Type} (driver : FileStorageDriver) (p : Program Files.Step Store α) :
    Program FinishStep State α :=
  p.within .files (fun s => s.stores.get driver) fun store s =>
    { s with stores := s.stores.set store driver }

section Finish

variable (d : Deployment)

/-- `null` when the file cannot be accessed. -/
def readStagedUpload : Program FinishStep State (Option Bytes) :=
  match d.staging with
  | .s3 _ => observe .read fun s =>
      match s.staged with
      | some content => .ok (some content)
      | none         => .error "NoSuchKey"
  | .disk => (observe .access fun s =>
      match s.staged with
      | some content => .ok (some content)
      | none         => .error "ENOENT").rescue fun _ => pure none

def removeStaged (step : FinishStep) : Program FinishStep State Unit :=
  quietly (perform step fun s => { s with staged := none })

def removeSidecar (step : FinishStep) : Program FinishStep State Unit :=
  quietly (perform step fun s => { s with sidecar := false })

def deleteStagedUpload : Program FinishStep State Unit :=
  match d.staging with
  | .s3 sharesEndpoint => do
      quietly (perform .remove fun s => { s with staged := none, sidecar := false })
      if sharesEndpoint && d.s3Enabled then do
        removeStaged .deleteObject
        removeSidecar .deleteInfo
      else pure ()
  | .disk => do
      removeStaged .deleteObject
      removeSidecar .deleteInfo

/-- The options that all of the stores are given. -/
def writeOptions (upload : Upload) (now : Int) : WriteOptions :=
  let metadata := parseMetadata d.decode upload.metadata
  { filename := (textAt metadata "filename").getD upload.id
    contentType := some ((textAt metadata "filetype").getD "application/octet-stream")
    metadata := some (fileMetadata metadata upload.id now) }

/-- The store that the file goes to: `gridfs` too, if S3 is configured and not there. -/
def target : FileStorageDriver :=
  if d.driver = .filesystem then .filesystem else if d.s3FileStorage then .s3 else .gridfs

def writeFile (id : ObjectId) (now : Int) (upload : Upload) (content : Bytes) :
    Program Files.Step Store FileInfo :=
  match target d with
  | .filesystem => FilesystemFileHelper.writeFile id now { writeOptions d upload now with
      body := some content }
  | .s3         =>
      S3FileHelper.writeFile id now { writeOptions d upload now with
        body := some content, contentLength := upload.size }
  | .gridfs     => GridFSHelper.writeFileFromStream id now (d.chunks content)
      (writeOptions d upload now)

def onUploadComplete (id : ObjectId) (now : Int) (upload : Upload) :
    Program FinishStep State Unit := do
  if d.canCopyWithinS3 upload then do
    let s ← inspect
    let _ ← onStore .s3 (S3FileHelper.copyFile id now s.staged
      { writeOptions d upload now with contentLength := upload.size })
    deleteStagedUpload d
  else do
    match ← readStagedUpload d with
    | none         => pure ()
    | some content => do
        let _ ← onStore (target d) (writeFile d id now upload content)
        deleteStagedUpload d

/-- The hook; an error is answered with the status 500. -/
def onUploadFinish (id : ObjectId) (now : Int) (upload : Upload) : Program FinishStep State Unit :=
  (onUploadComplete d id now upload).rescue fun error =>
    throw s!"Upload could not be stored: {error}"

end Finish

/-! ## What is promised -/

def isOf (uploadId : String) (info : FileInfo) : Bool :=
  info.metadata.bind (fun metadata => metadata.get? "tusUploadId") = some (.str uploadId)

/-- The documents of an upload, in all the stores. -/
def documents (stores : Stores) (uploadId : String) : List FileInfo :=
  (stores.s3.files ++ (stores.filesystem.files ++ stores.gridfs.files)).filter (isOf uploadId)

def describes (store : Store) (id : ObjectId) : Bool := store.files.any fun info => info.id = id

/-- `CoreFileService.getFileStream`: the store that has the document has the bytes. -/
def Deployment.download (d : Deployment) (stores : Stores) (id : ObjectId) : Option Bytes :=
  if d.s3Available && describes stores.s3 id then stores.s3.bytes id
  else if describes stores.filesystem id then stores.filesystem.bytes id
  else if describes stores.gridfs id then some ((stores.gridfs.bytes id).getD [])
  else none

/-- The upload has one document, and its bytes are served. -/
def Stored (d : Deployment) (upload : Upload) (content : Bytes) (stores : Stores) : Prop :=
  ∃ info, documents stores upload.id = [info] ∧ d.download stores info.id = some content

/-- **The promise** about a call of the hook. -/
structure Lossless (d : Deployment) (upload : Upload) (content : Bytes) (s : State)
    (r : Except String Unit × State) : Prop where
  finished : r.1 = .ok () → Stored d upload content r.2.stores
  kept     : ∀ e, r.1 = .error e → r.2.staged = s.staged ∧ r.2.sidecar = s.sidecar

/-! ## When it is kept -/

/-- There is no staged file, or it seems so. -/
def Skips (d : Deployment) (faults : FinishStep → Outcome) (s : State) : Prop :=
  d.staging = .disk ∧ (s.staged = none ∨ faults .access ≠ .done)

/-- The steps of a write that must be done. -/
def Deployment.awaits (d : Deployment) (upload : Upload) (content : Bytes) : List Files.Step :=
  match target d with
  | .filesystem => [.mkdir, .pipeline, .stat, .insertOne]
  | .s3         => (if upload.size = none then [.collect] else []) ++
      [.putObject, .headObject, .insertOne]
  | .gridfs     =>
      (List.range ((d.chunks content).length + 1)).map .source ++
        ((List.range (d.chunks content).length).map .chunk ++ [.filesDocument, .find])

/-- The upload is there, and no step fails that must be done. -/
def Completes (d : Deployment) (upload : Upload) (faults : FinishStep → Outcome) (s : State) :
    Prop :=
  ∃ content, s.staged = some content ∧
    if d.canCopyWithinS3 upload then
      ∀ step ∈ [Files.Step.copyObject, .headObject, .insertOne], faults (.files step) = .done
    else
      (∀ sharesEndpoint, d.staging = .s3 sharesEndpoint → faults .read = .done) ∧
      ∀ step ∈ d.awaits upload content, faults (.files step) = .done

/-! ## The helpers -/

variable {faults : Files.Step → Outcome} {store t : Store} {id : ObjectId} {now : Int}
  {options : WriteOptions}
  {info : FileInfo} {content : Bytes}

theorem tryWrite_ok_iff (hbuffer : options.buffer = none) (hbody : options.body = some content) :
    (FilesystemFileHelper.tryWrite id now options).run faults store = (.ok info, t) ↔
      (∀ step ∈ [Files.Step.pipeline, .stat, .insertOne], faults step = .done) ∧
        info = FilesystemFileHelper.fileInfo id now options content.length ∧
        t = (store.put id content).insert info := by
  have hwrite : FilesystemFileHelper.writeBytes id options = perform .pipeline fun store =>
      store.put id content := by
    rw [FilesystemFileHelper.writeBytes, hbuffer, hbody]
  have hempty : ¬ (content.length = 0 ∧ 0 < (options.buffer.getD []).length) := by
    rw [hbuffer]
    exact fun h => Nat.lt_irrefl 0 h.2
  simp only [List.forall_mem_cons]
  constructor
  · intro h
    obtain ⟨_, s1, hpipeline', h⟩ := bind_eq_ok.mp h
    rw [hwrite] at hpipeline'
    obtain ⟨hpipeline, rfl⟩ := perform_eq_ok.mp hpipeline'
    obtain ⟨size, s2, hstat', h⟩ := bind_eq_ok.mp h
    obtain ⟨hstat, hsize, rfl⟩ := observe_eq_ok.mp hstat'
    rw [put_bytes_self] at hsize
    obtain rfl := Except.ok.inj hsize
    rw [if_neg hempty] at h
    obtain ⟨_, s3, hindex', h⟩ := bind_eq_ok.mp h
    rw [run_ensureFilenameIndex] at hindex'
    cases hindex'
    obtain ⟨_, s4, hinsert', h⟩ := bind_eq_ok.mp h
    obtain ⟨hinsert, rfl⟩ := perform_eq_ok.mp hinsert'
    cases h
    exact ⟨⟨hpipeline, hstat, hinsert, by rintro _ ⟨⟩⟩, rfl, rfl⟩
  · rintro ⟨⟨hpipeline, hstat, hinsert, _⟩, rfl, rfl⟩
    simp only [FilesystemFileHelper.tryWrite, hwrite, run_bind, run_perform, hpipeline, decide_done,
      settle_ok, FilesystemFileHelper.stat, run_observe, hstat, put_bytes_self, if_neg hempty,
      run_ensureFilenameIndex, hinsert, run_pure]

theorem filesystem_write_ok_iff (hbuffer : options.buffer = none)
    (hbody : options.body = some content) :
    (FilesystemFileHelper.writeFile id now options).run faults store = (.ok info, t) ↔
      (∀ step ∈ [Files.Step.mkdir, .pipeline, .stat, .insertOne], faults step = .done) ∧
        info = FilesystemFileHelper.fileInfo id now options content.length ∧
        t = (store.put id content).insert info := by
  have hthrows : ∀ e u, ∃ e' u',
      ((quietly (perform Step.rm fun store : Store => store.drop id) >>= fun _ =>
      (Program.throw e : Program Files.Step Store FileInfo))).run faults u = (.error e', u') :=
        fun e u =>
    ⟨e, _, run_bind_ok (run_quietly _)⟩
  rw [List.forall_mem_cons, FilesystemFileHelper.writeFile, bind_eq_ok]
  constructor
  · rintro ⟨_, u, hmkdir', h⟩
    obtain ⟨hmkdir, rfl⟩ := perform_eq_ok.mp hmkdir'
    obtain ⟨hsteps, hrest⟩ := (tryWrite_ok_iff hbuffer hbody).mp ((rescue_eq_ok hthrows).mp h)
    exact ⟨⟨hmkdir, hsteps⟩, hrest⟩
  · rintro ⟨⟨hmkdir, hsteps⟩, hrest⟩
    exact ⟨(), store, perform_eq_ok.mpr ⟨hmkdir, rfl⟩,
      (rescue_eq_ok hthrows).mpr ((tryWrite_ok_iff hbuffer hbody).mpr ⟨hsteps, hrest⟩)⟩

theorem recordFile_ok_iff (length : Option Nat) :
    (S3FileHelper.recordFile id now options length).run faults (store.put id content) =
      (.ok info, t) ↔
      (∀ step ∈ [Files.Step.headObject, .insertOne], faults step = .done) ∧
        info = S3FileHelper.fileInfo id now options length ∧
        t = (store.put id content).insert info := by
  simp only [List.forall_mem_cons]
  constructor
  · intro h
    obtain ⟨found, s1, hhead', h⟩ := bind_eq_ok.mp h
    obtain ⟨hhead, hfound, rfl⟩ := observe_eq_ok.mp hhead'
    rw [put_bytes_self] at hfound
    obtain rfl := Except.ok.inj hfound
    rw [Option.isSome_some, if_pos rfl] at h
    obtain ⟨_, s3, hindex', h⟩ := bind_eq_ok.mp h
    rw [run_ensureFilenameIndex] at hindex'
    cases hindex'
    obtain ⟨_, s4, hinsert', h⟩ := bind_eq_ok.mp h
    obtain ⟨hinsert, rfl⟩ := perform_eq_ok.mp hinsert'
    cases h
    exact ⟨⟨hhead, hinsert, by rintro _ ⟨⟩⟩, rfl, rfl⟩
  · rintro ⟨⟨hhead, hinsert, _⟩, rfl, rfl⟩
    simp only [S3FileHelper.recordFile, run_bind, run_observe, hhead, decide_done, settle_ok,
      put_bytes_self, Option.isSome_some, if_true, run_ensureFilenameIndex, run_perform, hinsert,
      run_pure]

theorem s3_copy_ok_iff (source : Option Bytes) :
    (S3FileHelper.copyFile id now source options).run faults store = (.ok info, t) ↔
      ∃ content, source = some content ∧
        (∀ step ∈ [Files.Step.copyObject, .headObject, .insertOne], faults step = .done) ∧
        info = S3FileHelper.fileInfo id now options options.contentLength ∧
        t = (store.put id content).insert info := by
  rw [List.forall_mem_cons, S3FileHelper.copyFile, bind_eq_ok]
  constructor
  · rintro ⟨_, u, hcopy', h⟩
    obtain ⟨hcopy, heq⟩ := step_eq_ok.mp hcopy'
    cases source with
    | none => cases heq
    | some content =>
        cases heq
        obtain ⟨hsteps, hrest⟩ := (recordFile_ok_iff _).mp h
        exact ⟨content, rfl, ⟨hcopy, hsteps⟩, hrest⟩
  · rintro ⟨content, rfl, ⟨hcopy, hsteps⟩, hrest⟩
    exact ⟨(), store.put id content, step_eq_ok.mpr ⟨hcopy, rfl⟩,
      (recordFile_ok_iff _).mpr ⟨hsteps, hrest⟩⟩

theorem putObject_ok_iff (length : Option Nat) {a : Unit} :
    (S3FileHelper.putObject id content true length).run faults store = (.ok a, t) ↔
      (∀ step ∈ (if length = none then [Files.Step.collect] else []) ++ [.putObject],
        faults step = .done) ∧
        t = store.put id content := by
  rw [S3FileHelper.putObject]
  by_cases hlength : length = none
  · rw [if_pos ⟨rfl, hlength⟩, if_pos hlength, bind_eq_ok, List.singleton_append,
      List.forall_mem_cons, List.forall_mem_singleton]
    constructor
    · rintro ⟨_, u, hcollect', h⟩
      obtain ⟨hcollect, rfl⟩ := perform_eq_ok.mp hcollect'
      obtain ⟨hput, rfl⟩ := perform_eq_ok.mp h
      exact ⟨⟨hcollect, hput⟩, rfl⟩
    · rintro ⟨⟨hcollect, hput⟩, rfl⟩
      exact ⟨(), store, perform_eq_ok.mpr ⟨hcollect, rfl⟩, perform_eq_ok.mpr ⟨hput, rfl⟩⟩
  · rw [if_neg fun h => hlength h.2, if_neg hlength, List.nil_append, List.forall_mem_singleton]
    exact perform_eq_ok.trans (and_congr_right fun _ => eq_comm)

theorem s3_write_ok_iff (hbody : options.body = some content) (hbuffer : options.buffer = none) :
    (S3FileHelper.writeFile id now options).run faults store = (.ok info, t) ↔
      (∀ step ∈ (if options.contentLength = none then [Files.Step.collect] else []) ++
        [.putObject, .headObject, .insertOne], faults step = .done) ∧
      info = S3FileHelper.fileInfo id now options options.contentLength ∧
      t = (store.put id content).insert info := by
  have hlength : S3FileHelper.lengthOf options = options.contentLength := by
    rw [S3FileHelper.lengthOf, hbuffer, Option.map_none, Option.or_none]
  have hsplit : (if options.contentLength = none then [Files.Step.collect] else []) ++
        [.putObject, .headObject, .insertOne] =
      ((if options.contentLength = none then [Files.Step.collect] else []) ++ [.putObject]) ++
        [.headObject, .insertOne] := by
    rw [List.append_assoc]
    rfl
  have hwrite : S3FileHelper.writeFile id now options =
      (S3FileHelper.putObject id content true options.contentLength >>= fun _ =>
        S3FileHelper.recordFile id now options options.contentLength) := by
    rw [S3FileHelper.writeFile, hbody, hlength]
  rw [hwrite, hsplit, List.forall_mem_append, bind_eq_ok]
  constructor
  · rintro ⟨_, u, hput', h⟩
    obtain ⟨hput, rfl⟩ := (putObject_ok_iff _).mp hput'
    obtain ⟨hsteps, hrest⟩ := (recordFile_ok_iff _).mp h
    exact ⟨⟨hput, hsteps⟩, hrest⟩
  · rintro ⟨⟨hput, hsteps⟩, hrest⟩
    exact ⟨(), store.put id content, (putObject_ok_iff _).mpr ⟨hput, rfl⟩,
      (recordFile_ok_iff _).mpr ⟨hsteps, hrest⟩⟩

theorem pipe_ok_iff (chunks : List Bytes) (i : Nat) {a : Unit} :
    (GridFSHelper.pipe id chunks i).run faults store = (.ok a, t) ↔
      (∀ n, n ≤ chunks.length → faults (.source (i + n)) = .done) ∧
      (∀ n, n < chunks.length → faults (.chunk (i + n)) = .done) ∧
      t = store.appendAll id chunks := by
  have hthrows : ∀ e u, ∃ e' u',
      ((quietly (perform Step.abort fun store : Store => store.drop id) >>= fun _ =>
      (Program.throw e : Program Files.Step Store Unit))).run faults u = (.error e', u') :=
        fun e u =>
    ⟨e, _, run_bind_ok (run_quietly _)⟩
  induction chunks generalizing i store with
  | nil =>
      rw [GridFSHelper.pipe, bind_eq_ok]
      constructor
      · rintro ⟨_, u, hsource', h⟩
        obtain ⟨hsource, rfl⟩ := perform_eq_ok.mp ((rescue_eq_ok hthrows).mp hsource')
        cases h
        refine ⟨fun n hn => ?_, by rintro n ⟨⟩, rfl⟩
        rw [Nat.le_zero.mp hn]
        exact hsource
      · rintro ⟨hsource, _, rfl⟩
        exact ⟨(), _, (rescue_eq_ok hthrows).mpr
          (perform_eq_ok.mpr ⟨hsource 0 (Nat.le_refl 0), rfl⟩), rfl⟩
  | cons chunk rest ih =>
      rw [GridFSHelper.pipe, bind_eq_ok]
      constructor
      · rintro ⟨_, u, hsource', h⟩
        obtain ⟨hsource, rfl⟩ := perform_eq_ok.mp ((rescue_eq_ok hthrows).mp hsource')
        obtain ⟨_, v, hchunk', h⟩ := bind_eq_ok.mp h
        obtain ⟨hchunk, rfl⟩ := perform_eq_ok.mp hchunk'
        obtain ⟨hsources, hchunks, rfl⟩ := (ih (i + 1)).mp h
        refine ⟨fun n hn => ?_, fun n hn => ?_, rfl⟩
        · cases n with
          | zero => exact hsource
          | succ n =>
              rw [show i + (n + 1) = i + 1 + n by omega]
              exact hsources n (Nat.le_of_succ_le_succ hn)
        · cases n with
          | zero => exact hchunk
          | succ n =>
              rw [show i + (n + 1) = i + 1 + n by omega]
              exact hchunks n (Nat.lt_of_succ_lt_succ hn)
      · rintro ⟨hsources, hchunks, rfl⟩
        refine ⟨(), store, (rescue_eq_ok hthrows).mpr
          (perform_eq_ok.mpr ⟨hsources 0 (Nat.zero_le _), rfl⟩), ?_⟩
        refine bind_eq_ok.mpr ⟨(), store.append id chunk,
          perform_eq_ok.mpr ⟨hchunks 0 (Nat.succ_pos _), rfl⟩, ?_⟩
        refine (ih (i + 1)).mpr ⟨fun n hn => ?_, fun n hn => ?_, rfl⟩
        · rw [show i + 1 + n = i + (n + 1) by omega]
          exact hsources (n + 1) (Nat.succ_le_succ hn)
        · rw [show i + 1 + n = i + (n + 1) by omega]
          exact hchunks (n + 1) (Nat.succ_lt_succ hn)

/-- A document without predecessor is the one that is found. -/
theorem onFinish_ok_iff (hnew : ∀ other ∈ store.files, other.id ≠ id) {raw : FileInfo}
    (hid : raw.id = id) :
    (GridFSHelper.onFinish id).run faults (store.insert raw) = (.ok info, t) ↔
      faults .find = .done ∧ info = GridFSHelper.normalizeFileInfo raw ∧ t = store.insert raw := by
  have hfind : (store.insert raw).files.find? (fun found => found.id = id) = some raw := by
    show (store.files ++ [raw]).find? _ = some raw
    rw [List.find?_append, List.find?_eq_none.mpr fun other hother h =>
      hnew other hother (of_decide_eq_true h), Option.none_or]
    exact List.find?_cons_of_pos (decide_eq_true hid)
  rw [GridFSHelper.onFinish, observe_eq_ok, hfind, Except.ok.injEq]
  exact and_congr_right fun _ => and_congr eq_comm eq_comm

theorem gridfs_write_ok_iff (hunused : store.Unused id) (chunks : List Bytes) :
    (GridFSHelper.writeFileFromStream id now chunks options).run faults store = (.ok info, t) ↔
      (∀ step ∈ (List.range (chunks.length + 1)).map Files.Step.source ++
        ((List.range chunks.length).map .chunk ++ [.filesDocument, .find]), faults step = .done) ∧
      info = GridFSHelper.normalizeFileInfo
        (GridFSHelper.rawFile id now options chunks.flatten.length) ∧
      t = (store.appendAll id chunks).insert
        (GridFSHelper.rawFile id now options chunks.flatten.length) := by
  have hnew : ∀ other ∈ (store.appendAll id chunks).files, other.id ≠ id := by
    rw [appendAll_files]
    exact hunused.2
  rw [List.forall_mem_append, List.forall_mem_append, List.forall_mem_map, List.forall_mem_map,
    List.forall_mem_cons, List.forall_mem_singleton, GridFSHelper.writeFileFromStream, bind_eq_ok]
  constructor
  · rintro ⟨_, u, hpipe', h⟩
    obtain ⟨hsources, hchunks, rfl⟩ := (pipe_ok_iff chunks 0).mp hpipe'
    obtain ⟨_, v, hdocument', h⟩ := bind_eq_ok.mp h
    obtain ⟨hdocument, rfl⟩ := perform_eq_ok.mp hdocument'
    obtain ⟨hfind, hrest⟩ := (onFinish_ok_iff hnew rfl).mp h
    refine ⟨⟨fun n hn => ?_, fun n hn => ?_, hdocument, hfind⟩, hrest⟩
    · have hsource := hsources n (Nat.le_of_lt_succ (List.mem_range.mp hn))
      rwa [Nat.zero_add] at hsource
    · have hchunk := hchunks n (List.mem_range.mp hn)
      rwa [Nat.zero_add] at hchunk
  · rintro ⟨⟨hsources, hchunks, hdocument, hfind⟩, hrest⟩
    refine ⟨(), store.appendAll id chunks,
      (pipe_ok_iff chunks 0).mpr ⟨fun n hn => ?_, fun n hn => ?_, rfl⟩, ?_⟩
    · rw [Nat.zero_add]
      exact hsources n (List.mem_range.mpr (Nat.lt_succ_of_le hn))
    · rw [Nat.zero_add]
      exact hchunks n (List.mem_range.mpr hn)
    · exact bind_eq_ok.mpr ⟨(), _, perform_eq_ok.mpr ⟨hdocument, rfl⟩,
        (onFinish_ok_iff hnew rfl).mpr ⟨hfind, hrest⟩⟩

/-! ## One finish -/

/-- What the target store has after a write. -/
def written (d : Deployment) (id : ObjectId) (now : Int) (upload : Upload) (content : Bytes)
    (store : Store) : Store :=
  match target d with
  | .filesystem => (store.put id content).insert
      (FilesystemFileHelper.fileInfo id now { writeOptions d upload now with
        body := some content } content.length)
  | .s3         => (store.put id content).insert
      (S3FileHelper.fileInfo id now { writeOptions d upload now with
        body := some content, contentLength := upload.size }
        upload.size)
  | .gridfs     => (store.appendAll id (d.chunks content)).insert
      (GridFSHelper.rawFile id now (writeOptions d upload now) (d.chunks content).flatten.length)

theorem writeFile_ok_iff (d : Deployment) (upload : Upload) (hunused : store.Unused id) :
    (∃ info, (writeFile d id now upload content).run faults store = (.ok info, t)) ↔
      (∀ step ∈ d.awaits upload content, faults step = .done) ∧
      t = written d id now upload content store := by
  rw [writeFile, Deployment.awaits, written]
  cases target d with
  | filesystem =>
      constructor
      · rintro ⟨info, h⟩
        obtain ⟨hsteps, rfl, ht⟩ := (filesystem_write_ok_iff rfl rfl).mp h
        exact ⟨hsteps, ht⟩
      · rintro ⟨hsteps, ht⟩
        exact ⟨_, (filesystem_write_ok_iff rfl rfl).mpr ⟨hsteps, rfl, ht⟩⟩
  | s3 =>
      constructor
      · rintro ⟨info, h⟩
        obtain ⟨hsteps, rfl, ht⟩ := (s3_write_ok_iff rfl rfl).mp h
        exact ⟨hsteps, ht⟩
      · rintro ⟨hsteps, ht⟩
        exact ⟨_, (s3_write_ok_iff rfl rfl).mpr ⟨hsteps, rfl, ht⟩⟩
  | gridfs =>
      constructor
      · rintro ⟨info, h⟩
        obtain ⟨hsteps, rfl, ht⟩ := (gridfs_write_ok_iff hunused _).mp h
        exact ⟨hsteps, ht⟩
      · rintro ⟨hsteps, ht⟩
        exact ⟨_, (gridfs_write_ok_iff hunused _).mpr ⟨hsteps, rfl, ht⟩⟩

variable {fault : FinishStep → Outcome} {s s' : State}

/-- A clean-up leaves the stores alone, and nobody hears of its failures. -/
theorem run_deleteStagedUpload (d : Deployment) (fault : FinishStep → Outcome) (s : State) :
    ∃ s', (deleteStagedUpload d).run fault s = (.ok (), s') ∧ s'.stores = s.stores := by
  have hquiet : ∀ (p : Program FinishStep State Unit) (s : State),
      (∀ s, (p.run fault s).2.stores = s.stores) →
      ∃ s', (quietly p).run fault s = (.ok (), s') ∧ s'.stores = s.stores := fun p s hp =>
    ⟨_, run_quietly p, hp s⟩
  have hstores : ∀ (key : FinishStep) (effect : State → State),
      (∀ s, (effect s).stores = s.stores) →
      ∀ s, ((perform key effect).run fault s).2.stores = s.stores := by
    intro key effect heffect s
    rw [run_perform]
    cases fault key with
    | done => exact heffect s
    | fails e => rfl
    | lost e => exact heffect s
  have htwo : ∀ s, ∃ s', (removeStaged .deleteObject >>= fun _ =>
      removeSidecar .deleteInfo).run fault s =
      (.ok (), s') ∧ s'.stores = s.stores := by
    intro s
    obtain ⟨s1, hrun, hs1⟩ :=
      hquiet _ s (hstores .deleteObject (fun s => { s with staged := none }) fun _ => rfl)
    obtain ⟨s2, hrun', hs2⟩ :=
      hquiet _ s1 (hstores .deleteInfo (fun s => { s with sidecar := false }) fun _ => rfl)
    exact ⟨s2, (run_bind_ok hrun).trans hrun', hs2.trans hs1⟩
  rw [deleteStagedUpload]
  cases d.staging with
  | disk => exact htwo s
  | s3 sharesEndpoint =>
      obtain ⟨s1, hrun, hs1⟩ := hquiet _ s
        (hstores .remove (fun s => { s with staged := none, sidecar := false }) fun _ => rfl)
      dsimp only
      rw [run_bind_ok hrun]
      split
      · obtain ⟨s2, hrun', hs2⟩ := htwo s1
        exact ⟨s2, hrun', hs2.trans hs1⟩
      · exact ⟨s1, rfl, hs1⟩

/-- A helper touches its store only. -/
theorem run_onStore {α : Type} (driver : FileStorageDriver) (p : Program Files.Step Store α) :
    (onStore driver p).run fault s =
      ((p.run (fun step => fault (.files step)) (s.stores.get driver)).1,
        { s with stores := s.stores.set (p.run (fun step => fault (.files step)) (s.stores.get driver)).2 driver }) :=
  rfl

/-- A step that changes nothing, and is not done. -/
theorem observe_not_done {α : Type} {key : FinishStep} (hkey : fault key ≠ .done)
    (answer : State → Except String α) :
    ∃ e, (observe key answer).run fault s = (.error e, s) := by
  rw [run_observe]
  cases houtcome : fault key with
  | done => exact absurd houtcome hkey
  | fails e => exact ⟨e, rfl⟩
  | lost e => exact ⟨e, rfl⟩

theorem read_cases (d : Deployment) (fault : FinishStep → Outcome) (s : State) :
    (Skips d fault s ∧ (readStagedUpload d).run fault s = (.ok none, s)) ∨
    (¬ Skips d fault s ∧ (∀ sharesEndpoint, d.staging = .s3 sharesEndpoint → fault .read = .done) ∧
      ∃ content, s.staged = some content ∧
      (readStagedUpload d).run fault s = (.ok (some content), s)) ∨
    (¬ Skips d fault s ∧
      (s.staged = none ∨ ∃ sharesEndpoint, d.staging = .s3 sharesEndpoint ∧ fault .read ≠ .done) ∧
      ∃ e, (readStagedUpload d).run fault s = (.error e, s)) := by
  rw [readStagedUpload]
  cases hstaging : d.staging with
  | disk =>
      by_cases haccess : fault .access = .done
      · cases hstaged : s.staged with
        | none =>
            refine Or.inl ⟨⟨hstaging, Or.inl hstaged⟩, ?_⟩
            dsimp only
            rw [run_rescue, run_observe, haccess, hstaged]
            rfl
        | some content =>
            refine Or.inr (Or.inl ⟨?_, by rintro _ ⟨⟩, content, rfl, ?_⟩)
            · rintro ⟨_, hnone | hfails⟩
              · rw [hstaged] at hnone
                cases hnone
              · exact hfails haccess
            · dsimp only
              rw [run_rescue, run_observe, haccess, hstaged]
              rfl
      · refine Or.inl ⟨⟨hstaging, Or.inr haccess⟩, ?_⟩
        obtain ⟨e, hrun⟩ := observe_not_done (s := s) haccess fun s =>
          match s.staged with
          | some content => .ok (some content)
          | none         => .error "ENOENT"
        exact run_rescue_error hrun
  | s3 sharesEndpoint =>
      have hskips : ¬ Skips d fault s := by
        rintro ⟨hdisk, _⟩
        rw [hstaging] at hdisk
        cases hdisk
      by_cases hread : fault .read = .done
      · cases hstaged : s.staged with
        | none =>
            refine Or.inr (Or.inr ⟨hskips, Or.inl rfl, "NoSuchKey", ?_⟩)
            dsimp only
            rw [run_observe, hread, hstaged]
            rfl
        | some content =>
            refine Or.inr (Or.inl ⟨hskips, fun _ _ => hread, content, rfl, ?_⟩)
            dsimp only
            rw [run_observe, hread, hstaged]
            rfl
      · exact Or.inr (Or.inr ⟨hskips, Or.inr ⟨sharesEndpoint, rfl, hread⟩,
          observe_not_done hread _⟩)

theorem canCopy_target {d : Deployment} {upload : Upload} (h : d.canCopyWithinS3 upload = true) :
    d.staging = .s3 true ∧ target d = .s3 := by
  rw [Deployment.canCopyWithinS3] at h
  split at h
  · cases h
  · rename_i hboth
    rw [Bool.or_eq_true, not_or, Bool.not_eq_true', Bool.not_eq_true', Bool.not_eq_false,
      Bool.not_eq_false] at hboth
    obtain ⟨hshares, hstorage⟩ := hboth
    refine ⟨?_, ?_⟩
    · rw [Deployment.sharesEndpoint] at hshares
      cases hstaging : d.staging with
      | disk =>
          rw [hstaging] at hshares
          cases hshares
      | s3 sharesEndpoint =>
          rw [hstaging] at hshares
          rw [show sharesEndpoint = true from hshares]
    · have hdriver := hstorage
      rw [Deployment.s3FileStorage, Bool.and_eq_true, decide_eq_true_eq] at hdriver
      rw [target, hdriver.2, if_neg (by rintro ⟨⟩), if_pos hstorage]

theorem complete_cases (d : Deployment) (now : Int) (upload : Upload) (fault : FinishStep → Outcome)
    (hunused : ∀ driver, (s.stores.get driver).Unused id) :
    (Skips d fault s ∧ (onUploadComplete d id now upload).run fault s = (.ok (), s)) ∨
    (¬ Skips d fault s ∧ Completes d upload fault s ∧ ∃ content s', s.staged = some content ∧
      (onUploadComplete d id now upload).run fault s = (.ok (), s') ∧
      s'.stores = s.stores.set (written d id now upload content (s.stores.get (target d)))
        (target d)) ∨
    (¬ Skips d fault s ∧ ¬ Completes d upload fault s ∧ ∃ e s',
      (onUploadComplete d id now upload).run fault s = (.error e, s') ∧ s'.staged = s.staged ∧
      s'.sidecar = s.sidecar) := by
  rw [onUploadComplete]
  by_cases hcopy : d.canCopyWithinS3 upload = true
  · obtain ⟨hstaging, htarget⟩ := canCopy_target hcopy
    have hskips : ¬ Skips d fault s := by
      rintro ⟨hdisk, _⟩
      rw [hstaging] at hdisk
      cases hdisk
    rw [if_pos hcopy, run_bind_ok run_inspect]
    rcases hrun : (S3FileHelper.copyFile id now s.staged { writeOptions d upload now with
      contentLength := upload.size }).run
      (fun step => fault (.files step)) (s.stores.get .s3) with ⟨e | info, t⟩
    · refine Or.inr (Or.inr ⟨hskips, ?_, e, { s with stores := s.stores.set t .s3 }, ?_, rfl, rfl⟩)
      · rintro ⟨content, hstaged, hsteps⟩
        rw [if_pos hcopy] at hsteps
        rw [(s3_copy_ok_iff s.staged).mpr ⟨content, hstaged, hsteps, rfl, rfl⟩] at hrun
        cases hrun
      · refine run_bind_error ?_
        rw [run_onStore, hrun]
    · obtain ⟨content, hstaged, hsteps, hinfo, ht⟩ := (s3_copy_ok_iff s.staged).mp hrun
      have hstore : (onStore .s3 (S3FileHelper.copyFile id now s.staged
          { writeOptions d upload now with contentLength := upload.size })).run fault s =
            (.ok info, { s with stores := s.stores.set t .s3 }) := by
        rw [run_onStore, hrun]
      obtain ⟨s', hdelete, hstores⟩ :=
        run_deleteStagedUpload d fault { s with stores := s.stores.set t .s3 }
      refine Or.inr (Or.inl ⟨hskips, ⟨content, hstaged, ?_⟩, content, s', hstaged,
        (run_bind_ok hstore).trans hdelete, ?_⟩)
      · rw [if_pos hcopy]
        exact hsteps
      · rw [hstores, htarget, written, htarget, ht, hinfo]
        rfl
  · rw [if_neg hcopy]
    rcases read_cases d fault s with ⟨hskips, hrun⟩ | ⟨hskips, hread, content, hstaged, hrun⟩ |
      ⟨hskips, hmissing, e, hrun⟩
    · refine Or.inl ⟨hskips, ?_⟩
      rw [run_bind_ok hrun]
      rfl
    · rw [run_bind_ok hrun]
      dsimp only
      rcases hwrite : (writeFile d id now upload content).run (fun step => fault (.files step))
        (s.stores.get (target d)) with ⟨e | info, t⟩
      · refine Or.inr (Or.inr ⟨hskips, ?_, e, { s with stores := s.stores.set t (target d) }, ?_,
          rfl, rfl⟩)
        · rintro ⟨content', hstaged', hsteps⟩
          rw [hstaged] at hstaged'
          obtain rfl := Option.some.inj hstaged'
          rw [if_neg hcopy] at hsteps
          obtain ⟨info, hok⟩ := (writeFile_ok_iff d upload (hunused (target d))).mpr ⟨hsteps.2, rfl⟩
          rw [hok] at hwrite
          cases hwrite
        · refine run_bind_error ?_
          rw [run_onStore, hwrite]
      · obtain ⟨hsteps, rfl⟩ := (writeFile_ok_iff d upload (hunused (target d))).mp ⟨info, hwrite⟩
        obtain ⟨s', hdelete, hstores⟩ := run_deleteStagedUpload d fault
          { s with stores :=
            s.stores.set (written d id now upload content (s.stores.get (target d))) (target d) }
        refine Or.inr (Or.inl ⟨hskips, ⟨content, hstaged, ?_⟩, content, s', hstaged, ?_, hstores⟩)
        · rw [if_neg hcopy]
          exact ⟨hread, hsteps⟩
        · have hstore : (onStore (target d) (writeFile d id now upload content)).run fault s = (.ok info,
              { s with stores :=
                s.stores.set (written d id now upload content (s.stores.get (target d))) (target d) }) := by
            rw [run_onStore, hwrite]
          exact (run_bind_ok hstore).trans hdelete
    · refine Or.inr (Or.inr ⟨hskips, ?_, e, s, run_bind_error hrun, rfl, rfl⟩)
      rintro ⟨content, hstaged, hsteps⟩
      rw [if_neg hcopy] at hsteps
      rcases hmissing with hnone | ⟨sharesEndpoint, hstaging, hread⟩
      · rw [hnone] at hstaged
        cases hstaged
      · exact hread (hsteps.1 sharesEndpoint hstaging)

/-! ## What is stored -/

theorem get?_fileMetadata (metadata : Metadata) (uploadId : String) (now : Int) :
    (fileMetadata metadata uploadId now).get? "tusUploadId" = some (.str uploadId) := by
  rw [fileMetadata, OrderedMap.get?_set_of_ne _ _ (by decide), OrderedMap.get?_set_self]

theorem get?_rawMetadata {key : String} (hkey : key ≠ "contentType") {metadata : Metadata}
    (h : options.metadata = some metadata) :
      (GridFSHelper.rawMetadata options).get? key = metadata.get? key := by
  rw [GridFSHelper.rawMetadata, h]
  cases options.contentType with
  | none => rfl
  | some contentType =>
      dsimp only [Option.getD_some]
      split
      · rfl
      · exact OrderedMap.get?_set_of_ne _ _ hkey

/-- The new document is of the upload. -/
theorem written_files (d : Deployment) (id : ObjectId) (now : Int) (upload : Upload)
    (content : Bytes)
    (store : Store) : ∃ info,
    (written d id now upload content store).files = store.files ++ [info] ∧ info.id = id ∧
      isOf upload.id info = true := by
  rw [written]
  cases target d with
  | filesystem => exact ⟨_, rfl, rfl, decide_eq_true (get?_fileMetadata _ upload.id now)⟩
  | s3 => exact ⟨_, rfl, rfl, decide_eq_true (get?_fileMetadata _ upload.id now)⟩
  | gridfs =>
      refine ⟨GridFSHelper.rawFile id now (writeOptions d upload now)
        (d.chunks content).flatten.length, ?_, rfl, ?_⟩
      · show (store.appendAll id (d.chunks content)).files ++ _ = _
        rw [appendAll_files]
      · refine decide_eq_true ?_
        exact (get?_rawMetadata (by decide) rfl).trans (get?_fileMetadata _ upload.id now)

theorem written_bytes (d : Deployment) (now : Int) (upload : Upload) (content : Bytes)
    (hunused : store.Unused id) :
    ((written d id now upload content store).bytes id).getD [] = content ∧
      (target d ≠ .gridfs → (written d id now upload content store).bytes id = some content) := by
  rw [written]
  cases target d with
  | filesystem =>
      have hbytes : (store.put id content).bytes id = some content := put_bytes_self content
      exact ⟨congrArg (·.getD []) hbytes, fun _ => hbytes⟩
  | s3 =>
      have hbytes : (store.put id content).bytes id = some content := put_bytes_self content
      exact ⟨congrArg (·.getD []) hbytes, fun _ => hbytes⟩
  | gridfs =>
      refine ⟨?_, fun h => absurd rfl h⟩
      show ((store.appendAll id (d.chunks content)).bytes id).getD [] = content
      have hflatten := d.chunks_flatten content
      rcases appendAll_unused hunused.1 (d.chunks content) with ⟨hnil, heq⟩ | ⟨_, heq⟩
      · rw [heq, hunused.1, ← hflatten, hnil]
        rfl
      · rw [heq, put_bytes_self]
        exact hflatten

theorem describes_unused (hunused : store.Unused id) : describes store id = false := by
  rw [describes, List.any_eq_false]
  intro info hinfo h
  exact hunused.2 info hinfo (of_decide_eq_true h)

theorem describes_written (d : Deployment) (id : ObjectId) (now : Int) (upload : Upload)
    (content : Bytes)
    (store : Store) :
    describes (written d id now upload content store) id = true := by
  obtain ⟨info, hfiles, hid, _⟩ := written_files d id now upload content store
  rw [describes, hfiles, List.any_eq_true]
  exact ⟨info, List.mem_append_right _ (List.mem_singleton.mpr rfl), decide_eq_true hid⟩

/-- The file is served from the store that it has been written to. -/
theorem download_written (d : Deployment) (now : Int) (upload : Upload) (content : Bytes)
    {stores : Stores}
    (hunused : ∀ driver, (stores.get driver).Unused id) :
    d.download (stores.set (written d id now upload content (stores.get (target d))) (target d))
      id =
      some content := by
  obtain ⟨hbytes, hsome⟩ := written_bytes d now upload content (hunused (target d))
  have hthere := describes_written d id now upload content (stores.get (target d))
  have hs3 := describes_unused (hunused .s3)
  have hfilesystem := describes_unused (hunused .filesystem)
  rw [Deployment.download]
  cases htarget : target d with
  | filesystem =>
      rw [htarget] at hthere hsome
      have hnot : describes (stores.set (written d id now upload content (stores.get .filesystem))
          .filesystem).s3 id =
          false := hs3
      have hyes : describes (stores.set (written d id now upload content (stores.get .filesystem))
          .filesystem).filesystem id = true := hthere
      rw [hnot, Bool.and_false, if_neg Bool.false_ne_true, if_pos hyes]
      exact hsome (by rintro ⟨⟩)
  | s3 =>
      have havailable : d.s3Available = true := by
        refine d.asserted ?_
        rw [target] at htarget
        split at htarget
        · cases htarget
        · split at htarget
          · rename_i hstorage
            rw [Deployment.s3FileStorage, Bool.and_eq_true, decide_eq_true_eq] at hstorage
            exact hstorage.2
          · cases htarget
      rw [htarget] at hthere hsome
      have hyes : describes (stores.set (written d id now upload content (stores.get .s3)) .s3).s3
          id = true := hthere
      rw [havailable, hyes, Bool.and_self, if_pos rfl]
      exact hsome (by rintro ⟨⟩)
  | gridfs =>
      rw [htarget] at hthere hbytes
      have hnot : describes (stores.set (written d id now upload content (stores.get .gridfs))
          .gridfs).s3 id =
          false := hs3
      have hnot' : describes (stores.set (written d id now upload content (stores.get .gridfs))
          .gridfs).filesystem id = false := hfilesystem
      have hyes : describes (stores.set (written d id now upload content (stores.get .gridfs))
          .gridfs).gridfs id =
          true := hthere
      rw [hnot, Bool.and_false, if_neg Bool.false_ne_true,
        if_neg (by rw [hnot']; exact Bool.false_ne_true), if_pos hyes]
      exact congrArg some hbytes

theorem length_documents_set (stores : Stores) (store : Store) (driver : FileStorageDriver)
    {info : FileInfo}
    (hfiles : store.files = (stores.get driver).files ++ [info]) {uploadId : String}
    (hof : isOf uploadId info = true) :
    (documents (stores.set store driver) uploadId).length = (documents stores uploadId).length + 1 ∧
      info ∈ documents (stores.set store driver) uploadId := by
  have hone : [info].filter (isOf uploadId) = [info] := by
    rw [List.filter_cons_of_pos hof, List.filter_nil]
  have hmem : info ∈ [info] := List.mem_singleton.mpr rfl
  cases driver with
  | filesystem =>
      constructor
      · simp only [documents, Stores.set, List.filter_append, List.length_append, hfiles, hone,
          Stores.get, List.length_singleton]
        omega
      · simp only [documents, Stores.set, List.filter_append, List.mem_append, hfiles, hone]
        exact Or.inr (Or.inl (Or.inr hmem))
  | gridfs =>
      constructor
      · simp only [documents, Stores.set, List.filter_append, List.length_append, hfiles, hone,
          Stores.get, List.length_singleton]
        omega
      · simp only [documents, Stores.set, List.filter_append, List.mem_append, hfiles, hone]
        exact Or.inr (Or.inr (Or.inr hmem))
  | s3 =>
      constructor
      · simp only [documents, Stores.set, List.filter_append, List.length_append, hfiles, hone,
          Stores.get, List.length_singleton]
        omega
      · simp only [documents, Stores.set, List.filter_append, List.mem_append, hfiles, hone]
        exact Or.inl (Or.inr hmem)

/-- A finish that writes leaves one document, if there was none. -/
theorem stored_written_iff (d : Deployment) (now : Int) (upload : Upload) (content : Bytes)
    {stores : Stores}
    (hunused : ∀ driver, (stores.get driver).Unused id) :
    Stored d upload content
        (stores.set (written d id now upload content (stores.get (target d))) (target d)) ↔
      documents stores upload.id = [] := by
  obtain ⟨info, hfiles, hid, hof⟩ := written_files d id now upload content (stores.get (target d))
  obtain ⟨hlength, hmem⟩ := length_documents_set stores _ (target d) hfiles hof
  have hdownload := download_written d now upload content hunused
  constructor
  · rintro ⟨other, hdocuments, _⟩
    rw [hdocuments, List.length_singleton] at hlength
    exact List.length_eq_zero_iff.mp (by omega)
  · intro hnone
    rw [hnone, List.length_nil, Nat.zero_add] at hlength
    obtain ⟨other, hother⟩ := List.length_eq_one_iff.mp hlength
    rw [hother, List.mem_singleton] at hmem
    subst hmem
    refine ⟨info, hother, ?_⟩
    rw [hid]
    exact hdownload

/-! ## The promise, exactly -/

/-- What it takes: an upload whose file is missing has been stored before, one that is
    moved now has not. -/
def Obeys (d : Deployment) (upload : Upload) (content : Bytes) (fault : FinishStep → Outcome)
    (s : State) : Prop :=
  (Skips d fault s → Stored d upload content s.stores) ∧
    (¬ Skips d fault s → Completes d upload fault s → documents s.stores upload.id = [])

theorem run_hook (d : Deployment) (id : ObjectId) (now : Int) (upload : Upload)
    (fault : FinishStep → Outcome)
    (s : State) :
    (∀ s', (onUploadComplete d id now upload).run fault s = (.ok (), s') →
      (onUploadFinish d id now upload).run fault s = (.ok (), s')) ∧
    (∀ e s', (onUploadComplete d id now upload).run fault s = (.error e, s') →
      (onUploadFinish d id now upload).run fault s =
        (.error s!"Upload could not be stored: {e}", s')) :=
  ⟨fun _ h => run_rescue_ok h, fun _ _ h => run_rescue_error h⟩

/-- **When a finish loses nothing**, whatever fails. -/
theorem lossless_iff (d : Deployment) (id : ObjectId) (now : Int) (upload : Upload)
    (content : Bytes)
    (fault : FinishStep → Outcome) (s : State) (hunused : ∀ driver, (s.stores.get driver).Unused id)
    (hstaged : s.staged = none ∨ s.staged = some content) :
    Lossless d upload content s ((onUploadFinish d id now upload).run fault s) ↔
      Obeys d upload content fault s := by
  obtain ⟨hok, herror⟩ := run_hook d id now upload fault s
  rcases complete_cases d now upload fault hunused with ⟨hskips, hrun⟩ |
    ⟨hskips, hcompletes, found, s', hfound, hrun, hstores⟩ | ⟨hskips, hcompletes, e, s', hrun,
      hkept, hsidecar⟩
  · rw [hok s hrun]
    constructor
    · intro h
      exact ⟨fun _ => h.finished rfl, fun hnot => absurd hskips hnot⟩
    · rintro ⟨hstored, _⟩
      exact ⟨fun _ => hstored hskips, by rintro e ⟨⟩⟩
  · have hcontent : found = content := by
      rcases hstaged with hnone | hsome
      · rw [hfound] at hnone
        cases hnone
      · rw [hfound] at hsome
        exact Option.some.inj hsome
    subst hcontent
    have hiff := stored_written_iff d now upload found hunused
    rw [hok s' hrun]
    constructor
    · intro h
      have hstored : Stored d upload found s'.stores := h.finished rfl
      rw [hstores] at hstored
      exact ⟨fun h => absurd h hskips, fun _ _ => hiff.mp hstored⟩
    · rintro ⟨_, hnone⟩
      refine ⟨fun _ => ?_, by rintro e ⟨⟩⟩
      show Stored d upload found s'.stores
      rw [hstores]
      exact hiff.mpr (hnone hskips hcompletes)
  · rw [herror e s' hrun]
    refine iff_of_true ⟨by rintro ⟨⟩, fun _ _ => ⟨hkept, hsidecar⟩⟩ ?_
    exact ⟨fun h => absurd h hskips, fun _ h => absurd h hcompletes⟩

/-- Uploads are staged on the disk, and files are stored there. -/
def onDisk : Deployment where
  staging        := .disk
  driver         := .filesystem
  s3Enabled      := false
  s3Available    := false
  asserted       := by rintro ⟨⟩
  decode         := fun s => s
  chunks         := fun content => if content = [] then [] else [content]
  chunks_flatten := by
    intro content
    split
    · rename_i hnil
      rw [hnil]
      rfl
    · exact List.flatten_singleton

def note : Upload := { id := "u1", size := some 2 }

theorem lossless_iff_moved : Lossless onDisk note [7, 8] { staged := some [7, 8] }
    ((onUploadFinish onDisk "65f0" 0 note).run (fun _ => .done) { staged := some [7, 8] }) := by
  refine (lossless_iff onDisk "65f0" 0 note [7, 8] (fun _ =>
    .done) { staged := some [7, 8] } ?_ (Or.inr rfl)).mpr
    ⟨?_, fun _ _ => rfl⟩
  · intro driver
    cases driver <;> exact ⟨rfl, by rintro info ⟨⟩⟩
  · rintro ⟨_, hnone | hfails⟩
    · cases hnone
    · exact absurd rfl hfails

/-- The staged file is gone: the client is told that all is well, and there is no file. -/
theorem missing_upload_is_reported_finished :
    ((onUploadFinish onDisk "65f0" 0 note).run (fun _ => .done) { staged := none }).1 = .ok () ∧
    ¬ Lossless onDisk note [7, 8] { staged := none }
      ((onUploadFinish onDisk "65f0" 0 note).run (fun _ => .done) { staged := none }) := by
  refine ⟨rfl, fun h => ?_⟩
  obtain ⟨info, hdocuments, _⟩ := h.finished rfl
  cases hdocuments

end Tus.Finish
