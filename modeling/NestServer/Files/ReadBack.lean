import NestServer.Files.Access
import NestServer.Tus.Finish

/-! # Reading back

    A user uploads a file, by `createFile` or in chunks, and reads it: what the upload has
    stamped on the document against what `decideFileAccess` asks for. -/

namespace Files.ReadBack

open Injection Injection.Program Mongo Tus.Finish

/-! ## The two ways to upload -/

/-- Exact, or all the types of a kind. -/
def validateFileType (allowedTypes : List String) (filetype : Option String) : Bool :=
  if allowedTypes = [] then true
  else filetype.any fun filetype =>
    allowedTypes.contains filetype ||
      allowedTypes.any fun allowed =>
        ['/', '*'].isSuffixOf allowed.toList && allowed.toList.dropLast.isPrefixOf filetype.toList

/-- An upload has the metadata of the client, and the user under a key of the server's. -/
def onUploadCreate (render : Bson → String) (allowedTypes : List String)
    (currentUser : Option CurrentUser)
    (metadata : Metadata) : Except String Metadata :=
  if validateFileType allowedTypes (textAt metadata "filetype") then
    .ok (metadata.set TUS_OWNER_METADATA_KEY
      ((stampable currentUser).elim .null fun id => .str (text render (some id))))
  else
    .error ("File type '" ++ (textAt metadata "filetype").getD "unknown" ++
      "' is not allowed. Allowed types: "
      ++ ", ".intercalate allowedTypes)

structure Setting where
  render       : Bson → String
  deployment   : Deployment
  /-- `file.access` -/
  access       : Option String
  allowedTypes : List String := []

/-- The metadata of `createFile` is that of the service options, the other is the client's. -/
inductive UploadPath where
  | createFile (file : FileUploadSource) (force : Bool) (metadata : Option Metadata)
  | tus (uploadId : String) (size : Option Nat) (metadata : Metadata)

/-- Who uploads, and where. -/
structure Uploader where
  user     : CurrentUser
  /-- of the `RequestContext` -/
  tenantId : Option String := none

section Upload

variable (setting : Setting)

def Setting.preset : FileAccessPreset := resolveFileAccessPreset setting.access

/-- The stores after an upload that has succeeded. -/
def upload (uploader : Uploader) (path : UploadPath) (id : ObjectId) (now : Int)
    (faults : FinishStep → Outcome)
    (s : State) : Option Stores :=
  match path with
  | .createFile file force metadata =>
      match (createFile setting.render setting.deployment.driver setting.preset uploader.tenantId id now file
        { currentUser := some uploader.user, force := force, metadata := metadata }).run
          (fun step => faults (.files step)) s.stores with
      | (.ok (some _), stores) => some stores
      | _                      => none
  | .tus uploadId size metadata =>
      match onUploadCreate setting.render setting.allowedTypes (some uploader.user) metadata with
      | .error _     => none
      | .ok metadata =>
          match (onUploadFinish setting.deployment id now
            { id := uploadId, size := size, metadata := .parsed metadata }).run faults s with
          | (.ok _, s') => some s'.stores
          | _           => none

/-- The user is signed in: the id is not empty. -/
def Authenticated (user : CurrentUser) : Prop :=
  ∃ id, user.id = some id ∧ FilterHelper.truthy id = true ∧ text setting.render (some id) ≠ ""

/-- What the caller has supplied says this, if anything. -/
def Supplied (metadata : Option Metadata) (key value : String) : Prop :=
  ∀ found, metadata.bind (fun metadata => metadata.get? key) = some found →
    FilterHelper.truthy found = true ∧ text setting.render (some found) = value

/-- Where the document has to say something, it does. -/
def Matches (uploader : Uploader) : FileAccessPreset → UploadPath → Prop
  | .owner,  .createFile _ _ metadata =>
      Supplied setting metadata "ownerId" (text setting.render uploader.user.id)
  | .owner,  .tus ..                  => True
  | .tenant, .createFile _ _ metadata =>
      ∃ id, uploader.tenantId = some id ∧ id ≠ "" ∧ Supplied setting metadata "tenantId" id
  | _,       _                        => False

/-- **When it is read back.** -/
def Readable (uploader : Uploader) (path : UploadPath) : Prop :=
  Blanket (some uploader.user) false setting.preset ∨ Matches setting uploader setting.preset path

end Upload

/-! ## The stamp -/

section Stamp

variable {setting : Setting} {metadata : Metadata} {key value : String}

theorem get?_stamp_self (metadata : Metadata) (key value : String) :
    (metadata.stamp key (some value)).get? key = some ((metadata.get? key).getD (.str value)) := by
  rw [Metadata.stamp]
  cases hkey : metadata.get? key with
  | none => exact OrderedMap.get?_set_self ..
  | some found => exact hkey

theorem get?_stamp_of_ne (metadata : Metadata) (value : Option String) {other : String}
    (hne : other ≠ key) :
    (metadata.stamp key value).get? other = metadata.get? other := by
  rw [Metadata.stamp]
  split
  · rfl
  · cases value with
    | none => rfl
    | some value => exact OrderedMap.get?_set_of_ne _ _ hne

theorem get?_of_entries_nil (h : metadata.entries = []) (key : String) :
    metadata.get? key = none := by
  rw [OrderedMap.get?, h]
  rfl

theorem stampable_of_authenticated {user : CurrentUser} {id : Bson} (hid : user.id = some id)
    (htruthy : FilterHelper.truthy id = true) : stampable (some user) = some id := by
  have hbind : (some user : Option CurrentUser).bind CurrentUser.id = some id := hid
  rw [stampable, hbind]
  split
  · rename_i hnull
    cases hnull
    cases htruthy
  · rename_i hempty
    cases hempty
    cases htruthy
  · rfl

/-- What is asked for is there if it was stamped, or supplied so. -/
theorem truthy_getD_iff (metadata : Option Metadata) (hvalue : value ≠ "") :
    (FilterHelper.truthy (((metadata.getD .empty).get? key).getD (.str value)) = true ∧
      text setting.render (some (((metadata.getD .empty).get? key).getD (.str value))) = value) ↔
      Supplied setting metadata key value := by
  have hbind : metadata.bind (fun metadata => metadata.get? key) =
      (metadata.getD .empty).get? key := by
    cases metadata with
    | none => rfl
    | some metadata => rfl
  rw [Supplied, hbind]
  cases (metadata.getD .empty).get? key with
  | none => exact iff_of_true ⟨decide_eq_true hvalue, rfl⟩ (by rintro found ⟨⟩)
  | some found => simp

theorem entries_ne_nil {found : Bson} (h : metadata.get? key = some found) :
    metadata.entries ≠ [] := by
  intro hnil
  rw [get?_of_entries_nil hnil] at h
  cases h

/-- The owner that is on a file after `accessMetadata`. -/
theorem accessMetadata_owner {options : FileServiceOptions} {user : CurrentUser} {id : Bson}
    (huser : options.currentUser = some user) (hid : user.id = some id)
      (htruthy : FilterHelper.truthy id = true)
    (render : Bson → String) (tenantId : Option String) :
    (accessMetadata render .owner tenantId options).bind (fun metadata => metadata.get? "ownerId") =
      some (((options.metadata.getD .empty).get? "ownerId").getD
        (.str (text render (some id)))) := by
  have hget := get?_stamp_self (options.metadata.getD .empty) "ownerId" (text render (some id))
  rw [accessMetadata, if_neg (by decide), huser, stampable_of_authenticated hid htruthy,
    Option.map_some]
  dsimp only
  rw [if_neg (show FileAccessPreset.owner ≠ .tenant by decide), if_neg (entries_ne_nil hget)]
  exact hget

/-- The tenant that is. -/
theorem accessMetadata_tenant {options : FileServiceOptions} {tenantId : String}
    (htenant : tenantId ≠ "")
    (render : Bson → String) :
    (accessMetadata render .tenant (some tenantId) options).bind (fun metadata =>
      metadata.get? "tenantId") =
      some (((options.metadata.getD .empty).get? "tenantId").getD (.str tenantId)) := by
  have hfilter : (some tenantId).filter (fun id => id ≠ "") = some tenantId :=
    if_pos (decide_eq_true htenant)
  have hget := get?_stamp_self (Metadata.stamp (options.metadata.getD .empty) "ownerId"
    ((stampable options.currentUser).map fun id => text render (some id))) "tenantId" tenantId
  have hother := get?_stamp_of_ne (options.metadata.getD .empty)
    ((stampable options.currentUser).map fun id => text render (some id))
    (show "tenantId" ≠ "ownerId" by decide)
  rw [hother] at hget
  rw [accessMetadata, if_neg (by decide), hfilter]
  dsimp only
  rw [if_pos rfl, if_neg (entries_ne_nil hget)]
  exact hget

end Stamp

/-! ## What is stored -/

section Stored

variable {faults : Files.Step → Outcome} {store t : Store} {id : ObjectId} {now : Int}

/-- A document with these fields has been added. -/
def Adds (store t : Store) (id : ObjectId) (field : String → Option Bson) : Prop :=
  ∃ raw, t.files = store.files ++ [raw] ∧ raw.id = id ∧ ∀ key, key ≠ "contentType" →
    raw.field key = field key

theorem adds_insert (content : Bytes) {raw : FileInfo} (hid : raw.id = id)
    {metadata : Option Metadata}
    (hmetadata : raw.metadata = metadata) :
    Adds store ((store.put id content).insert raw) id fun key => metadata.bind fun metadata =>
      metadata.get? key :=
  ⟨raw, rfl, hid, fun key _ => by rw [FileInfo.field, hmetadata]⟩

theorem adds_gridfs (chunks : List Bytes) (options : WriteOptions) (length : Nat) :
    Adds store ((store.appendAll id chunks).insert (GridFSHelper.rawFile id now options length)) id
      fun key => options.metadata.bind fun metadata => metadata.get? key := by
  refine ⟨GridFSHelper.rawFile id now options length, ?_, rfl, fun key hkey => ?_⟩
  · show (store.appendAll id chunks).files ++ _ = _
    rw [appendAll_files]
  · show (some (GridFSHelper.rawMetadata options)).bind (fun metadata => metadata.get? key) = _
    cases hmetadata : options.metadata with
    | some metadata => exact get?_rawMetadata hkey hmetadata
    | none =>
        show (GridFSHelper.rawMetadata options).get? key = none
        rw [GridFSHelper.rawMetadata, hmetadata]
        cases options.contentType with
        | none => rfl
        | some contentType =>
            dsimp only [Option.getD_none]
            split
            · rfl
            · exact OrderedMap.get?_set_of_ne _ _ hkey

/-- `createFile`, on any of the stores. -/
theorem adds_write {driver : FileStorageDriver} {file : FileUploadSource}
    {metadata : Option Metadata}
    (hunused : store.Unused id) {info : FileInfo}
    (h : (write driver id now file metadata).run faults store = (.ok info, t)) :
    Adds store t id fun key => metadata.bind fun metadata => metadata.get? key := by
  cases driver with
  | filesystem =>
      obtain ⟨_, rfl, rfl⟩ := (filesystem_write_ok_iff rfl rfl).mp h
      exact adds_insert _ rfl rfl
  | gridfs =>
      obtain ⟨_, _, rfl⟩ := (gridfs_write_ok_iff hunused _).mp h
      exact adds_gridfs _ _ _
  | s3 =>
      obtain ⟨_, s1, hcollect', h⟩ := bind_eq_ok.mp h
      obtain ⟨_, rfl⟩ := perform_eq_ok.mp hcollect'
      obtain ⟨_, s2, hput', h⟩ := bind_eq_ok.mp h
      have hput : (perform Files.Step.putObject fun store =>
          store.put id file.chunks.flatten).run faults store =
          (.ok (), s2) := hput'
      obtain ⟨_, rfl⟩ := perform_eq_ok.mp hput
      obtain ⟨_, rfl, rfl⟩ := (recordFile_ok_iff _).mp h
      exact adds_insert _ rfl rfl

/-- A finished upload, on any of them. -/
theorem adds_written (d : Deployment) (upload : Upload) (content : Bytes) :
    Adds store (written d id now upload content store) id
      fun key => (fileMetadata (parseMetadata d.decode upload.metadata) upload.id now).get?
        key := by
  rw [written]
  cases target d with
  | filesystem => exact adds_insert content rfl rfl
  | gridfs => exact adds_gridfs (d.chunks content) (Tus.Finish.writeOptions d upload now) _
  | s3 => exact adds_insert content rfl rfl

/-- What is found under the new id is the new document. -/
theorem getRawFileInfo_set {stores : Stores} {driver : FileStorageDriver}
    {field : String → Option Bson}
    (hunused : ∀ driver, (stores.get driver).Unused id)
      (hadds : Adds (stores.get driver) t id field)
    {s3Available : Bool} {raw : FileInfo} (h : (stores.set t driver).getRawFileInfo s3Available id =
      some raw)
    {key : String} (hkey : key ≠ "contentType") : raw.field key = field key := by
  have hnone : ∀ driver, (stores.get driver).findById id = none := fun driver =>
    List.find?_eq_none.mpr fun info hinfo hid =>
      (hunused driver).2 info hinfo (of_decide_eq_true hid)
  obtain ⟨added, hfiles, hid, hfield⟩ := hadds
  have hfound : t.findById id = some added := by
    have hold := hnone driver
    rw [Store.findById] at hold ⊢
    rw [hfiles, List.find?_append, hold, Option.none_or]
    exact List.find?_cons_of_pos (decide_eq_true hid)
  have hraw : raw = added ∨ raw = GridFSHelper.normalizeFileInfo added := by
    have hs3 := hnone .s3
    have hfilesystem := hnone .filesystem
    have hgridfs := hnone .gridfs
    cases driver with
    | filesystem => simp_all [Stores.getRawFileInfo, Stores.set, Stores.get]
    | gridfs => simp_all [Stores.getRawFileInfo, Stores.set, Stores.get]
    | s3 => simp_all [Stores.getRawFileInfo, Stores.set, Stores.get]
  rcases hraw with rfl | rfl
  · exact hfield key hkey
  · exact hfield key hkey

end Stored

section Uploaded

variable {setting : Setting} {uploader : Uploader} {id : ObjectId} {now : Int}
  {faults : FinishStep → Outcome}
  {s : State} {stores : Stores}

theorem run_onDriver {α : Type} {faults : Files.Step → Outcome} {driver : FileStorageDriver}
    {p : Program Files.Step Store α} {result : Except String α} {t : Store}
    (h : p.run faults (stores.get driver) = (result, t)) :
    (onDriver driver p).run faults stores = (result, stores.set t driver) :=
  congrArg (fun r => (Prod.fst r, stores.set (Prod.snd r) driver)) h

/-- The store that `createFile` writes to has the stamped document. -/
theorem upload_createFile {file : FileUploadSource} {force : Bool} {metadata : Option Metadata}
    (hunused : ∀ driver, (s.stores.get driver).Unused id)
    (h : upload setting uploader (.createFile file force metadata) id now faults s = some stores) :
    ∃ t, stores = s.stores.set t setting.deployment.driver ∧
      Adds (s.stores.get setting.deployment.driver) t id fun key =>
        (accessMetadata setting.render setting.preset uploader.tenantId
          { currentUser := some uploader.user, force := force, metadata := metadata }).bind
            fun metadata => metadata.get? key := by
  rw [upload, createFile] at h
  split at h
  · rename_i info t hrun
    obtain rfl := Option.some.inj h
    split at hrun
    · rw [run_map] at hrun
      obtain ⟨hok, rfl⟩ := Prod.mk.inj hrun
      rcases hwrite : (write setting.deployment.driver id now file
        (accessMetadata setting.render setting.preset
        uploader.tenantId { currentUser := some uploader.user, force := force, metadata :=
          metadata })).run
          (fun step => faults (.files step)) (s.stores.get setting.deployment.driver)
            with ⟨e | found, t⟩
      · rw [run_onDriver hwrite] at hok
        cases hok
      · rw [run_onDriver hwrite]
        exact ⟨t, rfl, adds_write (hunused _) hwrite⟩
    · cases hrun
  · cases h

/-- A finished upload is in its store, with the metadata that it was created with; or nothing is
there. -/
theorem upload_tus {uploadId : String} {size : Option Nat} {metadata : Metadata}
    (hunused : ∀ driver, (s.stores.get driver).Unused id)
    (h : upload setting uploader (.tus uploadId size metadata) id now faults s = some stores) :
    stores = s.stores ∨ ∃ t, stores = s.stores.set t (target setting.deployment) ∧
      Adds (s.stores.get (target setting.deployment)) t id
        fun key => (fileMetadata (metadata.set TUS_OWNER_METADATA_KEY
          ((stampable (some uploader.user)).elim .null fun id =>
            .str (text setting.render (some id))))
            uploadId now).get? key := by
  rw [upload, onUploadCreate] at h
  by_cases hvalid : validateFileType setting.allowedTypes (textAt metadata "filetype") = true
  · rw [if_pos hvalid] at h
    dsimp only at h
    generalize hcreated : metadata.set TUS_OWNER_METADATA_KEY
      ((stampable (some uploader.user)).elim .null fun id => .str (text setting.render (some id))) =
        created at h ⊢
    obtain ⟨hok, herror⟩ := run_hook setting.deployment id now
      { id := uploadId, size := size, metadata := .parsed created } faults s
    rcases complete_cases setting.deployment now { id := uploadId, size := size, metadata := .parsed created } faults
      hunused with ⟨_, hrun⟩ | ⟨_, _, content, s', _, hrun, hstores⟩ | ⟨_, _, e, s', hrun, _⟩
    · rw [hok _ hrun] at h
      exact Or.inl (Option.some.inj h).symm
    · rw [hok _ hrun] at h
      refine Or.inr ⟨_, (Option.some.inj h).symm.trans hstores, ?_⟩
      exact adds_written setting.deployment { id := uploadId, size := size, metadata := .parsed created } content
    · rw [herror _ _ hrun] at h
      cases h
  · rw [if_neg hvalid] at h
    cases h

theorem get?_fileMetadata_owner {metadata : Metadata} {owner : String} (howner : owner ≠ "")
    (uploadId : String) (now : Int) :
    (fileMetadata (metadata.set TUS_OWNER_METADATA_KEY (.str owner)) uploadId now).get? "ownerId" =
      some (.str owner) := by
  have htext : textAt (metadata.set TUS_OWNER_METADATA_KEY (.str owner)) TUS_OWNER_METADATA_KEY =
      some owner := by
    rw [textAt, OrderedMap.get?_set_self]
    exact if_neg howner
  rw [fileMetadata, OrderedMap.get?_set_of_ne _ _ (by decide),
    OrderedMap.get?_set_of_ne _ _ (by decide), htext]
  exact OrderedMap.get?_set_self ..

/-- No tenant is stamped on a finished upload. -/
theorem get?_fileMetadata_tenant (metadata : Metadata) (uploadId : String) (now : Int) :
    (fileMetadata metadata uploadId now).get? "tenantId" = none := by
  rw [fileMetadata, OrderedMap.get?_set_of_ne _ _ (by decide),
    OrderedMap.get?_set_of_ne _ _ (by decide)]
  cases textAt metadata TUS_OWNER_METADATA_KEY with
  | none =>
      dsimp only
      rw [OrderedMap.get?_set_of_ne _ _ (by decide), OrderedMap.get?_empty]
  | some owner =>
      dsimp only
      rw [OrderedMap.get?_set_of_ne _ _ (by decide), OrderedMap.get?_set_of_ne _ _ (by decide),
        OrderedMap.get?_empty]

theorem fieldIs_iff {render : Bson → String} {raw : FileInfo} {key value : String} {found : Bson}
    (h : raw.field key = some found) : fieldIs render (some raw) key value = true ↔
      FilterHelper.truthy found = true ∧ text render (some found) = value := by
  rw [fieldIs, Option.bind_some, h, Option.any_some, Bool.and_eq_true, decide_eq_true_eq]

theorem fieldIs_none {render : Bson → String} {raw : FileInfo} {key value : String}
    (h : raw.field key = none) :
    fieldIs render (some raw) key value = false := by
  rw [fieldIs, Option.bind_some, h]
  rfl

/-! ## The promise, exactly -/

/-- **Who can read what they have uploaded.** -/
theorem reads_back_iff (setting : Setting) (uploader : Uploader) (path : UploadPath) (id : ObjectId)
    (now : Int)
    (faults : FinishStep → Outcome) (s : State) (hunused : ∀ driver,
      (s.stores.get driver).Unused id)
    (huser : Authenticated setting uploader.user) {stores : Stores}
    (hupload : upload setting uploader path id now faults s = some stores) {raw : FileInfo}
    (hraw : stores.getRawFileInfo setting.deployment.s3Available id = some raw)
      {checkInputType : CheckInputType}
    (hcheck : checkInputType = .id ∨ checkInputType = .filename) :
    decideFileAccess setting.render checkInputType (some uploader.user) false setting.preset
      (some raw)
      uploader.tenantId = true ↔ Readable setting uploader path := by
  by_cases hblanket : Blanket (some uploader.user) false setting.preset
  · exact iff_of_true (decide_blanket hblanket) (Or.inl hblanket)
  obtain ⟨userId, hid, htruthy, htext⟩ := huser
  rw [decide_data hblanket hcheck, Readable, or_iff_right hblanket, Option.bind_some]
  cases path with
  | createFile file force metadata =>
      obtain ⟨t, rfl, hadds⟩ := upload_createFile hunused hupload
      have hfield : ∀ key, key ≠ "contentType" → raw.field key = _ := fun key hkey =>
        getRawFileInfo_set hunused hadds hraw hkey
      cases hpreset : setting.preset with
      | authenticated => simp [Matches]
      | custom => simp [Matches]
      | «public» => simp [Matches]
      | owner =>
          rw [hpreset] at hfield
          have howner := (hfield "ownerId" (by decide)).trans
              (accessMetadata_owner rfl hid htruthy setting.render _)
          simp only [true_and, reduceCtorEq, false_and, or_false]
          show _ ↔ Supplied setting metadata "ownerId" (text setting.render uploader.user.id)
          rw [fieldIs_iff howner, hid]
          exact truthy_getD_iff metadata htext
      | tenant =>
          rw [hpreset] at hfield
          simp only [true_and, reduceCtorEq, false_and, false_or]
          refine exists_congr fun tenantId => and_congr_right fun htenantId =>
            and_congr_right fun htenant => ?_
          rw [htenantId] at hfield
          have hfound := (hfield "tenantId" (by decide)).trans
              (accessMetadata_tenant htenant setting.render)
          rw [fieldIs_iff hfound]
          exact truthy_getD_iff metadata htenant
  | tus uploadId size metadata =>
      have hfield : ∀ key, key ≠ "contentType" →
          raw.field key = (fileMetadata (metadata.set TUS_OWNER_METADATA_KEY
          (.str (text setting.render (some userId)))) uploadId now).get? key := by
        intro key hkey
        rcases upload_tus hunused hupload with rfl | ⟨t, rfl, hadds⟩
        · -- nothing has been moved, so nothing is found
          have hnone : ∀ driver, (s.stores.get driver).findById id = none := fun driver =>
            List.find?_eq_none.mpr fun info hinfo hid =>
              (hunused driver).2 info hinfo (of_decide_eq_true hid)
          have hs3 : s.stores.s3.findById id = none := hnone .s3
          have hfilesystem : s.stores.filesystem.findById id = none := hnone .filesystem
          have hgridfs : s.stores.gridfs.findById id = none := hnone .gridfs
          rw [Stores.getRawFileInfo, hs3, hfilesystem, hgridfs, ite_self] at hraw
          cases hraw
        · rw [stampable_of_authenticated hid htruthy] at hadds
          exact getRawFileInfo_set hunused hadds hraw hkey
      cases hpreset : setting.preset with
      | authenticated => simp [Matches]
      | custom => simp [Matches]
      | «public» => simp [Matches]
      | owner =>
          have howner := (hfield "ownerId" (by decide)).trans
              (get?_fileMetadata_owner htext uploadId now)
          refine iff_of_true (Or.inl ⟨rfl, ?_⟩) trivial
          rw [fieldIs_iff howner, hid]
          exact ⟨decide_eq_true htext, rfl⟩
      | tenant =>
          have htenant := (hfield "tenantId" (by decide)).trans
              (get?_fileMetadata_tenant _ uploadId now)
          simp [Matches, fieldIs_none htenant]

end Uploaded

/-- A project with files on the disk. -/
def onDisk (access : String) : Setting where
  render     := fun _ => ""
  deployment := Tus.Finish.onDisk
  access     := some access

/-- A user in a tenant. -/
def alice : Uploader where
  user     := { hasRole := some fun _ => false, id := some (.str "65a1") }
  tenantId := some "acme"

def notes : FileUploadSource where
  filename := "notes.txt"
  mimetype := "text/plain"
  chunks   := [[7], [8]]

theorem unused_empty (staged : Option Bytes) (driver : FileStorageDriver) :
    (({ staged := staged } : State).stores.get driver).Unused "65f0" := by
  cases driver <;> exact ⟨rfl, by rintro info ⟨⟩⟩

theorem reads_back_iff_created : ∃ stores raw,
    upload (onDisk "tenant") alice (.createFile notes false none) "65f0" 0 (fun _ =>
      .done) { staged := none } =
      some stores ∧
    stores.getRawFileInfo false "65f0" = some raw ∧
    decideFileAccess (onDisk "tenant").render .id (some alice.user) false .tenant (some raw)
      alice.tenantId = true :=
  ⟨_, _, rfl, rfl, (reads_back_iff (onDisk "tenant") alice (.createFile notes false none) "65f0" 0
    (fun _ => .done) { staged := none } (unused_empty none) ⟨.str "65a1", rfl,
      rfl, by decide⟩ rfl rfl
    (Or.inl rfl)).mpr (Or.inr ⟨"acme", rfl, by decide, by rintro found ⟨⟩⟩)⟩

/-- An upload in chunks has no tenant, and its user may not read it. -/
theorem tus_upload_is_lost_to_its_tenant : ∃ stores raw,
    upload (onDisk "tenant") alice (.tus "u1" (some 2) .empty) "65f0" 0 (fun _ =>
      .done) { staged := some [7, 8] } =
      some stores ∧
    stores.getRawFileInfo false "65f0" = some raw ∧
    decideFileAccess (onDisk "tenant").render .id (some alice.user) false .tenant (some raw)
      alice.tenantId = false :=
  ⟨_, _, rfl, rfl, rfl⟩

end Files.ReadBack
