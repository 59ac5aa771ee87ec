import NestServer.FilterHelper
import NestServer.Files.Orphans
import NestServer.RoleEnum

/-! # File access

    The setting `file.access`: what it stamps on a file that is written, and whom it lets
    read.  What JavaScript writes for a number, a date or an object is a parameter. -/

namespace Files

open Injection Injection.Program Mongo

/-! ## The decision -/

inductive FileAccessPreset where
  | authenticated
  | custom
  | owner
  | «public»
  | tenant
deriving DecidableEq

/-- A value that is not known is not `custom`. -/
def resolveFileAccessPreset : Option String → FileAccessPreset
  | none                 => .custom
  | some "authenticated" => .authenticated
  | some "custom"        => .custom
  | some "public"        => .«public»
  | some "tenant"        => .tenant
  | some _               => .owner

inductive CheckInputType where
  | file
  | filename
  | files
  | filterArgs
  | id
deriving DecidableEq

/-- `hasRole` may be missing, and the id. -/
structure CurrentUser where
  hasRole : Option (List String → Bool) := none
  id      : Option Bson := none

def CurrentUser.isAdmin (user : CurrentUser) : Bool :=
  user.hasRole.any fun hasRole => hasRole [RoleEnum.ADMIN.value]

def CurrentUser.hasId (user : CurrentUser) : Bool := user.id.any FilterHelper.truthy

structure FileServiceOptions where
  currentUser : Option CurrentUser := none
  force       : Bool := false
  metadata    : Option Metadata := none

/-- `raw?.metadata?.[key]` -/
def FileInfo.field (raw : FileInfo) (key : String) : Option Bson :=
  raw.metadata.bind fun metadata => metadata.get? key

def fileAccessNeedsRawDocument (preset : FileAccessPreset) (checkInputType : CheckInputType) :
    Bool :=
  if preset ≠ .owner ∧ preset ≠ .tenant then false
  else checkInputType = .id ∨ checkInputType = .filename

section Decision

variable (render : Bson → String)

/-- `String(value)` -/
def text : Option Bson → String
  | none               => "undefined"
  | some .null         => "null"
  | some (.bool true)  => "true"
  | some (.bool false) => "false"
  | some (.str s)      => s
  | some (.objectId h) => h
  | some value         => render value

/-- The field is there, and says this. -/
def fieldIs (raw : Option FileInfo) (key : String) (value : String) : Bool :=
  (raw.bind fun raw => raw.field key).any fun found =>
    FilterHelper.truthy found && text render (some found) = value

def decideFileAccess (checkInputType : CheckInputType) (currentUser : Option CurrentUser)
    (force : Bool)
    (preset : FileAccessPreset) (raw : Option FileInfo) (tenantId : Option String) : Bool :=
  if force then true
  else if preset = .custom ∨ preset = .«public» then true
  else if preset = .authenticated then currentUser.any CurrentUser.hasId
  else if currentUser.any CurrentUser.isAdmin then true
  else if checkInputType = .file ∨ checkInputType = .files then true
  else if checkInputType = .filterArgs then false
  else if preset = .owner then
    fieldIs render raw "ownerId" (text render (currentUser.bind CurrentUser.id))
  else tenantId.any fun id => id ≠ "" && fieldIs render raw "tenantId" id

/-! ## The stamp -/

/-- An id that can be stamped: not `undefined`, `null` or empty. -/
def stampable (currentUser : Option CurrentUser) : Option Bson :=
  match currentUser.bind CurrentUser.id with
  | some .null      => none
  | some (.str "")  => none
  | id              => id

/-- What the caller has supplied is never overwritten. -/
def Metadata.stamp (metadata : Metadata) (key : String) (value : Option String) : Metadata :=
  if (metadata.get? key).isSome then metadata
  else value.elim metadata fun value => metadata.set key (.str value)

def accessMetadata (preset : FileAccessPreset) (tenantId : Option String)
    (options : FileServiceOptions) :
    Option Metadata :=
  if preset ≠ .owner ∧ preset ≠ .tenant then options.metadata
  else
    let owned := Metadata.stamp (options.metadata.getD .empty) "ownerId"
      ((stampable options.currentUser).map fun id => text render (some id))
    let stamped := if preset = .tenant then
      Metadata.stamp owned "tenantId" (tenantId.filter (· ≠ "")) else owned
    if stamped.entries = [] then none else some stamped

/-! ## The upload -/

/-- The chunks that the stream will give. -/
structure FileUploadSource where
  filename : String
  mimetype : String
  chunks   : List Bytes

/-- A helper on one of the stores. -/
def onDriver {α : Type} (driver : FileStorageDriver) (p : Program Step Store α) :
    Program Step Stores α :=
  p.within (fun step => step) (fun stores => stores.get driver) fun store stores =>
    stores.set store driver

def writeOptions (file : FileUploadSource) (metadata : Option Metadata) : WriteOptions where
  contentType := some file.mimetype
  filename    := file.filename
  metadata    := metadata

/-- The three branches of `createFile`. -/
def write (driver : FileStorageDriver) (id : ObjectId) (now : Int) (file : FileUploadSource)
    (metadata : Option Metadata) : Program Step Store FileInfo :=
  match driver with
  | .filesystem =>
      FilesystemFileHelper.writeFile id now { writeOptions file metadata with
        body := some file.chunks.flatten }
  | .s3         => do
      perform .collect fun store => store
      S3FileHelper.writeFile id now { writeOptions file metadata with
        buffer := some file.chunks.flatten }
  | .gridfs     => GridFSHelper.writeFileFromStream id now file.chunks (writeOptions file metadata)

/-- `null` when the rights do not allow it. -/
def createFile (driver : FileStorageDriver) (preset : FileAccessPreset) (tenantId : Option String)
    (id : ObjectId)
    (now : Int) (file : FileUploadSource) (options : FileServiceOptions) :
    Program Step Stores (Option FileInfo) :=
  if decideFileAccess render .file options.currentUser options.force preset none tenantId then
    some <$> onDriver driver
      (write driver id now file (accessMetadata render preset tenantId options))
  else pure none

end Decision

/-! ## Lookups -/

def Store.findById (store : Store) (id : ObjectId) : Option FileInfo :=
  store.files.find? fun info => info.id = id

theorem Store.findById_eq_some {store : Store} {id : ObjectId} {info : FileInfo}
    (h : store.findById id = some info) : info ∈ store.files ∧ info.id = id := by
  have hfound := List.find?_some (p := fun info : FileInfo => Decidable.decide (info.id = id)) h
  exact ⟨List.mem_of_find?_eq_some h, of_decide_eq_true hfound⟩

/-- `getRawFileInfo`: S3 is asked if it can be used. -/
def Stores.getRawFileInfo (stores : Stores) (s3Available : Bool) (id : ObjectId) :
    Option FileInfo :=
  ((if s3Available then stores.s3.findById id else none).or (stores.filesystem.findById id)).or
    ((stores.gridfs.findById id).map GridFSHelper.normalizeFileInfo)

/-! ## Rules -/

section Rules

variable {render : Bson → String} {checkInputType : CheckInputType}
  {currentUser : Option CurrentUser} {force : Bool}
  {preset : FileAccessPreset} {raw : Option FileInfo} {tenantId : Option String}

/-- Who is let in whatever the document says. -/
def Blanket (currentUser : Option CurrentUser) (force : Bool) (preset : FileAccessPreset) : Prop :=
  force = true ∨ preset = .custom ∨ preset = .«public» ∨
    (preset = .authenticated ∧ currentUser.any CurrentUser.hasId = true) ∨
    (preset ≠ .authenticated ∧ currentUser.any CurrentUser.isAdmin = true)

instance (currentUser : Option CurrentUser) (force : Bool) (preset : FileAccessPreset) :
    Decidable (Blanket currentUser force preset) :=
  inferInstanceAs (Decidable (_ ∨ _ ∨ _ ∨ _ ∨ _))

theorem decide_blanket (h : Blanket currentUser force preset) :
    decideFileAccess render checkInputType currentUser force preset raw tenantId = true := by
  rw [decideFileAccess]
  rcases h with rfl | rfl | rfl | ⟨rfl, hid⟩ | ⟨hpreset, hadmin⟩
  · rfl
  · simp
  · simp
  · simp [hid]
  · simp [hpreset, hadmin]

/-- The others are asked for what the document says; a listing they never get. -/
theorem decide_data (h : ¬ Blanket currentUser force preset)
    (hid : checkInputType = .id ∨ checkInputType = .filename) :
    decideFileAccess render checkInputType currentUser force preset raw tenantId = true ↔
      (preset = .owner ∧ fieldIs render raw "ownerId"
        (text render (currentUser.bind CurrentUser.id)) = true) ∨
      (preset = .tenant ∧ ∃ id, tenantId = some id ∧ id ≠ "" ∧
        fieldIs render raw "tenantId" id = true) := by
  have hfile : ¬ (checkInputType = .file ∨ checkInputType = .files) ∧
      checkInputType ≠ .filterArgs := by
    rcases hid with rfl | rfl
    · decide
    · decide
  rw [decideFileAccess, if_neg fun hforce => h (Or.inl hforce), if_neg fun hpreset =>
    h (Or.inr (hpreset.elim Or.inl
    fun hpublic => Or.inr (Or.inl hpublic)))]
  cases hpreset : preset with
  | authenticated =>
      have hnot : currentUser.any CurrentUser.hasId ≠ true := fun huser =>
        h (Or.inr (Or.inr (Or.inr (Or.inl ⟨hpreset, huser⟩))))
      simpa using hnot
  | custom => exact absurd (Or.inr (Or.inl hpreset)) h
  | «public» => exact absurd (Or.inr (Or.inr (Or.inl hpreset))) h
  | owner =>
      have hnot : currentUser.any CurrentUser.isAdmin ≠ true := fun huser =>
        h (Or.inr (Or.inr (Or.inr (Or.inr ⟨by rw [hpreset]; decide, huser⟩))))
      rw [if_neg (by decide), if_neg hnot, if_neg hfile.1, if_neg hfile.2, if_pos rfl]
      simp
  | tenant =>
      have hnot : currentUser.any CurrentUser.isAdmin ≠ true := fun huser =>
        h (Or.inr (Or.inr (Or.inr (Or.inr ⟨by rw [hpreset]; decide, huser⟩))))
      rw [if_neg (by decide), if_neg hnot, if_neg hfile.1, if_neg hfile.2, if_neg (by decide)]
      cases tenantId with
      | none => simp
      | some id => simp

end Rules

end Files
