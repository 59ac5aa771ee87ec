import NestServer.Files.Access
import NestServer.Interleaving

/-! # Downloads

    A download asks the stores for a document to decide on, and then for the file to serve.
    Between two of its lookups files are uploaded, copied and deleted; names are not unique. -/

namespace Files.Downloads

open Dialogue Interleaving Mongo

/-! ## The stores -/

inductive Key where
  | id (id : ObjectId)
  | name (filename : String)
deriving DecidableEq

def Key.checkInputType : Key → CheckInputType
  | .id _   => .id
  | .name _ => .filename

/-- By `uploadDate`, then by `_id`. -/
def newer (a b : FileInfo) : FileInfo :=
  if a.uploadDate < b.uploadDate ∨ (a.uploadDate = b.uploadDate ∧ a.id < b.id) then b else a

def newest : List FileInfo → Option FileInfo
  | []           => none
  | info :: rest => some ((newest rest).elim info (newer info))

/-- What a lookup in a store hands out. -/
def shown (driver : FileStorageDriver) (info : FileInfo) : FileInfo :=
  match driver with
  | .gridfs => GridFSHelper.normalizeFileInfo info
  | _       => info

/-- The stores, and what has ever been in them: a document for an id, and its bytes in a store. -/
structure Drives where
  stores    : Stores := {}
  described : ObjectId → Option FileInfo := fun _ => none
  written   : ObjectId → Option (FileStorageDriver × Bytes) := fun _ => none

def Drives.find (drives : Drives) (driver : FileStorageDriver) : Key → Option FileInfo
  | .id id         => ((drives.stores.get driver).findById id).map (shown driver)
  | .name filename =>
      (newest ((drives.stores.get driver).files.filter fun info => info.filename = filename)).map
        (shown driver)

/-- The bytes that are served, and where they are from. -/
structure Served where
  driver  : FileStorageDriver
  id      : ObjectId
  content : Bytes

/-- GridFS looks for the document first. -/
def Drives.read (drives : Drives) (driver : FileStorageDriver) (id : ObjectId) : Option Served :=
  if driver = .gridfs ∧ (drives.stores.gridfs.findById id).isNone then none
  else ((drives.stores.get driver).bytes id).map fun content =>
    { driver := driver, id := id, content := content }

/-- `openDownloadStreamByName`: one of the files that have the latest date. -/
def Drives.readByName (drives : Drives) (filename : String) (choice : Nat) : Option Served :=
  let named := drives.stores.gridfs.files.filter fun info => info.filename = filename
  (named.filter fun info => named.all fun other => other.uploadDate ≤ info.uploadDate)[choice]?.bind
    fun info =>
    drives.read .gridfs info.id

/-- The steps of uploads and of deletes, of any files by any users. -/
inductive Change where
  | put (driver : FileStorageDriver) (id : ObjectId) (content : Bytes)
  | insert (driver : FileStorageDriver) (info : FileInfo)
  | drop (driver : FileStorageDriver) (id : ObjectId)
  | delete (driver : FileStorageDriver) (id : ObjectId)

/-- An id is made up once, and its document is in the store of its bytes. -/
def Drives.change (drives : Drives) : Change → Option Drives
  | .put driver id content =>
      if drives.written id = none then
        some { drives with
          stores  := drives.stores.set ((drives.stores.get driver).put id content) driver
          written := Function.update drives.written id (some (driver, content)) }
      else none
  | .insert driver info    =>
      if (drives.written info.id).map Prod.fst = some driver ∧ drives.described info.id = none then
        some { drives with
          stores    := drives.stores.set ((drives.stores.get driver).insert info) driver
          described := Function.update drives.described info.id (some (shown driver info)) }
      else none
  | .drop driver id        =>
      some { drives with stores := drives.stores.set ((drives.stores.get driver).drop id) driver }
  | .delete driver id      =>
      some { drives with stores := drives.stores.set ((drives.stores.get driver).delete id) driver }

/-! ## Questions -/

inductive Question where
  | find (driver : FileStorageDriver) (key : Key)
  /-- can a URL be made? -/
  | presign
  | read (driver : FileStorageDriver) (id : ObjectId)
  | readByName (filename : String)

abbrev Answer : Question → Type
  | .find ..      => Option FileInfo
  | .presign      => Bool
  | .read ..      => Option Served
  | .readByName _ => Option Served

def exec (drives : Drives) (choice : Nat) : (q : Question) → Option (Answer q × Drives)
  | .find driver key     => some (drives.find driver key, drives)
  | .presign             => some (choice ≠ 0, drives)
  | .read driver id      => some (drives.read driver id, drives)
  | .readByName filename => some (drives.readByName filename choice, drives)

/-! ## The service -/

structure Config where
  render      : Bson → String
  preset      : FileAccessPreset
  s3Available : Bool

structure Caller where
  currentUser : Option CurrentUser := none
  force       : Bool := false
  tenantId    : Option String := none

abbrev Service (α : Type) := Dialogue Question Answer α

def find (driver : FileStorageDriver) (key : Key) : Service (Option FileInfo) :=
  query (Question.find driver key)

def presign : Service Bool := query Question.presign

def read (driver : FileStorageDriver) (id : ObjectId) : Service (Option Served) :=
  query (Question.read driver id)

def readByName (filename : String) : Service (Option Served) := query (Question.readByName filename)

/-- The first store of some that has such a file. -/
def firstOf (key : Key) : List FileStorageDriver → Service (Option (FileStorageDriver × FileInfo))
  | []                => pure none
  | driver :: drivers => do
      match ← find driver key with
      | some info => return some (driver, info)
      | none      => firstOf key drivers

section Service

variable (config : Config)

/-- The stores that are asked, in this order. -/
def Config.drivers : List FileStorageDriver :=
  (if config.s3Available then [.s3] else []) ++ [.filesystem, .gridfs]

def getRawFileInfo (key : Key) : Service (Option FileInfo) := do
  return (← firstOf key config.drivers).map Prod.snd

variable (caller : Caller)

def allowed (checkInputType : CheckInputType) (raw : Option FileInfo) : Bool :=
  decideFileAccess config.render checkInputType caller.currentUser caller.force config.preset raw
    caller.tenantId

/-- `resolveAccessPreset` -/
def checkRights (key : Key) : Service Bool :=
  if config.preset = .custom then pure true
  else do
    let raw ← (if !caller.force && fileAccessNeedsRawDocument config.preset key.checkInputType then
        getRawFileInfo config key
      else pure none : Service (Option FileInfo))
    return allowed config caller key.checkInputType raw

/-- `resolveFile`, and `getFileInfoByName`. -/
def resolveFile (key : Key) : Service (Option (FileStorageDriver × FileInfo)) := do
  if ← checkRights config caller key then firstOf key config.drivers
  else return none

/-- GridFS is not asked. -/
def locateFile (id : ObjectId) : Service FileStorageDriver := do
  return (← firstOf (.id id) (config.drivers.filter (· ≠ .gridfs))).elim .gridfs Prod.fst

def getFileStream (id : ObjectId) (knownStore : Option FileStorageDriver) :
    Service (Option Served) := do
  if ← checkRights config caller (.id id) then
    let store ← knownStore.elim (locateFile config id) pure
    read store id
  else return none

def getBuffer (id : ObjectId) : Service (Option Served) := do
  if ← checkRights config caller (.id id) then
    let store ← locateFile config id
    read store id
  else return none

/-- The second half of the two downloads by name. -/
def readFirst (filename : String) : Service (Option Served) := do
  match ← firstOf (.name filename) config.drivers with
  | some (driver, info) => read driver info.id
  | none                => readByName filename

def getFileStreamByName (filename : String) : Service (Option Served) := do
  if ← checkRights config caller (.name filename) then readFirst config filename
  else return none

def getBufferByName (filename : String) : Service (Option Served) := do
  if ← checkRights config caller (.name filename) then readFirst config filename
  else return none

/-- A URL to the bytes in S3, or not. -/
def getDownloadUrl (id : ObjectId) : Service Bool := do
  if ← checkRights config caller (.id id) then
    match ← firstOf (.id id) (if config.s3Available then [.s3] else []) with
    | some _ => presign
    | none   => return false
  else return false

/-! ## The controller -/

def getFileById (id : ObjectId) : Service (Option Served) := do
  match ← resolveFile config caller (.id id) with
  | none            => return none
  | some (store, _) => do
      let url ← (if store = .s3 then getDownloadUrl config caller id else pure false : Service Bool)
      if url then read .s3 id
      else getFileStream config caller id (some store)

def getFile (filename : String) : Service (Option Served) := do
  match ← resolveFile config caller (.name filename) with
  | none           => return none
  | some (_, file) => do
      if ← getDownloadUrl config caller file.id then read .s3 file.id
      else getFileStream config caller file.id none

end Service

inductive Download where
  | getFileStream (id : ObjectId)
  | getBuffer (id : ObjectId)
  | getFileStreamByName (filename : String)
  | getBufferByName (filename : String)
  | getFileById (id : ObjectId)
  | getFile (filename : String)

structure Request where
  caller   : Caller
  download : Download

def program (config : Config) (request : Request) : Service (Option Served) :=
  match request.download with
  | .getFileStream id             => getFileStream config request.caller id none
  | .getBuffer id                 => getBuffer config request.caller id
  | .getFileStreamByName filename => getFileStreamByName config request.caller filename
  | .getBufferByName filename     => getBufferByName config request.caller filename
  | .getFileById id               => getFileById config request.caller id
  | .getFile filename             => getFile config request.caller filename

def system (config : Config) : System Drives Request Change Nat Question Answer
    (Option Served) where
  program := program config
  exec    := exec
  outside := Drives.change

abbrev State := Interleaving.State Drives Request Question Answer (Option Served)

abbrev Thread := Interleaving.Thread Request Question Answer (Option Served)

abbrev Event := Interleaving.Event Request Change Nat

/-! ## What is promised -/

/-- The file is one that the caller may read, by its document. -/
def Approved (config : Config) (caller : Caller) (info : FileInfo) : Prop :=
  allowed config caller .id (some info) = true

/-- **The promise**: all that is served belongs to a document that has been approved. -/
def ServesApproved (config : Config) (s : State) : Prop :=
  ∀ τ ∈ s.threads, ∀ served, τ.program = .returned (some served) →
    s.store.written served.id = some (served.driver, served.content) ∧
    ∃ info, s.store.described served.id = some info ∧ Approved config τ.request.caller info

/-- The name of a download that decides and serves by it. -/
def Download.byName : Download → Option String
  | .getFileStreamByName filename => some filename
  | .getBufferByName filename     => some filename
  | _                             => none

def Question.name : Question → Option String
  | .find _ (.name filename) => some filename
  | .readByName filename     => some filename
  | _                        => none

/-- A thread has looked for a name, and is going to look once more; its caller is not let in to
everything. -/
def Between (config : Config) (τ : Thread) (filename : String) : Prop :=
  τ.request.download.byName = some filename ∧
    ¬ Blanket τ.request.caller.currentUser τ.request.caller.force config.preset ∧
    τ.said ≠ [] ∧ ∃ q next, τ.program = .ask q next ∧ q.name = some filename

/-- **When the promise is kept**: while a thread is between two lookups of a name, no store
    gets another newest file of that name. -/
def Undisturbed (config : Config) (s : State) : Event → Prop
  | .outside change => ∀ drives, s.store.change change = some drives → ∀ τ ∈ s.threads, ∀ filename,
      Between config τ filename →
        ∀ driver, drives.find driver (.name filename) = s.store.find driver (.name filename)
  | _               => True

/-! ## What a download asks for -/

abbrev Log := History Question Answer

def asked (driver : FileStorageDriver) (key : Key) (answer : Option FileInfo) :
    Exchange Question Answer :=
  ⟨.find driver key, answer⟩

def served (driver : FileStorageDriver) (id : ObjectId) (answer : Option Served) :
    Exchange Question Answer :=
  ⟨.read driver id, answer⟩

def servedByName (filename : String) (answer : Option Served) : Exchange Question Answer :=
  ⟨.readByName filename, answer⟩

def IsFind (key : Key) (q : Question) : Prop := ∃ driver, q = .find driver key

/-- All the stores before the one that has the file have been asked. -/
def Sought (key : Key) (drivers : List FileStorageDriver) (h : Log) :
    Option (FileStorageDriver × FileInfo) → Prop
  | some (driver, info) => ∃ before after, drivers = before ++ driver :: after ∧
      (∀ other ∈ before, asked other key none ∈ h) ∧ asked driver key (some info) ∈ h
  | none                => ∀ driver ∈ drivers, asked driver key none ∈ h

/-- The caller is let in to everything, or to the document that has been found. -/
def Checked (config : Config) (caller : Caller) (key : Key) (h : Log) : Prop :=
  Blanket caller.currentUser caller.force config.preset ∨
    ∃ driver info, Sought key config.drivers h (some (driver, info)) ∧
      allowed config caller key.checkInputType (some info) = true

/-- By an id, in the store that has it; GridFS looks by itself. -/
def ServesById (config : Config) (caller : Caller) (h : Log) (result : Served) : Prop :=
  ∃ driver id, served driver id (some result) ∈ h ∧ Checked config caller (.id id) h ∧
    (driver ≠ .gridfs → ∃ info, asked driver (.id id) (some info) ∈ h)

def ServesByName (config : Config) (caller : Caller) (filename : String) (h : Log)
    (result : Served) : Prop :=
  Checked config caller (.name filename) h ∧
    ((∃ driver info, Sought (.name filename) config.drivers h (some (driver, info)) ∧
        served driver info.id (some result) ∈ h) ∨
      (Sought (.name filename) config.drivers h none ∧ servedByName filename (some result) ∈ h))

/-- What the downloads keep to: one by name looks for nothing else before it serves. -/
def law (config : Config) : Law Request Question Answer (Option Served) where
  asks request h q := ∀ filename, request.download.byName = some filename → q.name ≠ none →
    q.name = some filename ∧ ∀ x ∈ h, x.1.name = some filename
  result request answer h := ∀ result, answer = some result →
    match request.download.byName with
    | some filename => ServesByName config request.caller filename h result
    | none          => ServesById config request.caller h result

variable {config : Config} {caller : Caller} {key : Key} {h h' : Log} {filename : String}
  {id : ObjectId}
  {G : Log → Question → Prop} {F : Log → Prop}

theorem Sought.mono {drivers : List FileStorageDriver}
    {found : Option (FileStorageDriver × FileInfo)}
    (hs : Sought key drivers h found) (hsub : ∀ x ∈ h, x ∈ h') : Sought key drivers h' found := by
  cases found with
  | none => exact fun driver hdriver => hsub _ (hs driver hdriver)
  | some found =>
      obtain ⟨before, after, heq, hbefore, hfound⟩ := hs
      exact ⟨before, after, heq, fun other hother => hsub _ (hbefore other hother), hsub _ hfound⟩

theorem Checked.mono (hc : Checked config caller key h) (hsub : ∀ x ∈ h, x ∈ h') :
    Checked config caller key h' := by
  rcases hc with hblanket | ⟨driver, info, hsought, hallowed⟩
  · exact Or.inl hblanket
  · exact Or.inr ⟨driver, info, hsought.mono hsub, hallowed⟩

theorem wp_firstOf (drivers : List FileStorageDriver)
    (hG : ∀ h' driver, Adds (IsFind key) h h' → G h' (.find driver key)) :
    wp G F (firstOf key drivers)
      (fun found h' => Adds (IsFind key) h h' ∧ Sought key drivers h' found) h := by
  induction drivers generalizing h with
  | nil => exact wp_pure ⟨Adds.refl h, by rintro driver ⟨⟩⟩
  | cons driver drivers ih =>
      refine wp_bind (wp_query (hG h driver (Adds.refl h))
        (R := fun answer h' => h' = h ++ [asked driver key answer]) fun _ => rfl) ?_
      rintro answer h' rfl
      have hadds : Adds (IsFind key) h (h ++ [asked driver key answer]) := adds_one h ⟨driver, rfl⟩
      have hlast : asked driver key answer ∈ h ++ [asked driver key answer] :=
        List.mem_append_right _ (List.mem_singleton.mpr rfl)
      cases answer with
      | some info => exact wp_pure ⟨hadds, [], drivers, rfl, by rintro other ⟨⟩, hlast⟩
      | none =>
          refine wp_mono ?_ (ih fun h' other hother => hG h' other (hadds.trans hother))
          rintro found h' ⟨hmore, hsought⟩
          refine ⟨hadds.trans hmore, ?_⟩
          cases found with
          | none =>
              intro other hother
              rcases List.mem_cons.mp hother with rfl | hother
              · exact hmore.mem hlast
              · exact hsought other hother
          | some found =>
              obtain ⟨before, after, rfl, hbefore, hfound⟩ := hsought
              refine ⟨driver :: before, after, rfl, ?_, hfound⟩
              intro other hother
              rcases List.mem_cons.mp hother with rfl | hother
              · exact hmore.mem hlast
              · exact hbefore other hother

/-- Without a document nobody else is let in. -/
theorem allowed_none {checkInputType : CheckInputType}
    (hcheck : checkInputType = .id ∨ checkInputType = .filename)
    (hblanket : ¬ Blanket caller.currentUser caller.force config.preset) :
    allowed config caller checkInputType none ≠ true := by
  intro hallowed
  rcases (decide_data hblanket hcheck).mp hallowed with ⟨_, hfield⟩ | ⟨_, _, _, _, hfield⟩
  · cases hfield
  · cases hfield

theorem checkInputType_cases (key : Key) : key.checkInputType = .id ∨
    key.checkInputType = .filename := by
  cases key with
  | id id => exact Or.inl rfl
  | name filename => exact Or.inr rfl

theorem wp_checkRights (hG : ∀ h' driver, Adds (IsFind key) h h' → G h' (.find driver key)) :
    wp G F (checkRights config caller key)
      (fun ok h' => Adds (IsFind key) h h' ∧ (ok = true → Checked config caller key h')) h := by
  rw [checkRights]
  split
  · rename_i hcustom
    exact wp_pure ⟨Adds.refl h, fun _ => Or.inl (Or.inr (Or.inl hcustom))⟩
  · by_cases hblanket : Blanket caller.currentUser caller.force config.preset
    · -- who is let in to everything may be looked up all the same
      refine wp_bind (R := fun _ h' => Adds (IsFind key) h h') ?_ fun raw h' hadds =>
        wp_pure ⟨hadds, fun _ => Or.inl hblanket⟩
      split
      · exact wp_bind (wp_firstOf _ hG) fun _ _ hfound => wp_pure hfound.1
      · exact wp_pure (Adds.refl h)
    · refine wp_bind (R := fun raw h' => Adds (IsFind key) h h' ∧ ∀ info, raw = some info →
        ∃ driver, Sought key config.drivers h' (some (driver, info))) ?_ ?_
      · split
        · refine wp_bind (wp_firstOf _ hG) ?_
          rintro found h' ⟨hadds, hsought⟩
          refine wp_pure ⟨hadds, ?_⟩
          rintro info hinfo
          obtain ⟨⟨driver, _⟩, rfl, rfl⟩ := Option.map_eq_some_iff.mp hinfo
          exact ⟨driver, hsought⟩
        · exact wp_pure ⟨Adds.refl h, by rintro info ⟨⟩⟩
      · rintro raw h' ⟨hadds, hraw⟩
        refine wp_pure ⟨hadds, fun hallowed => ?_⟩
        cases raw with
        | none => exact absurd hallowed (allowed_none (checkInputType_cases key) hblanket)
        | some info =>
            obtain ⟨driver, hsought⟩ := hraw info rfl
            exact Or.inr ⟨driver, info, hsought, hallowed⟩

theorem Sought.found {drivers : List FileStorageDriver} {driver : FileStorageDriver}
    {info : FileInfo}
    (hs : Sought key drivers h (some (driver, info))) : driver ∈ drivers ∧
      asked driver key (some info) ∈ h := by
  obtain ⟨before, after, rfl, _, hfound⟩ := hs
  exact ⟨List.mem_append_right _ (List.mem_cons_self ..), hfound⟩

/-- The store that has the file, if it is not GridFS. -/
theorem wp_locateFile (hG : ∀ h q, G h q) :
    wp G F (locateFile config id) (fun driver h' => (∀ x ∈ h, x ∈ h') ∧
      (driver ≠ .gridfs → ∃ info, asked driver (.id id) (some info) ∈ h')) h := by
  refine wp_bind (wp_firstOf _ fun _ _ _ => hG ..) ?_
  rintro found h' ⟨hadds, hsought⟩
  refine wp_pure ⟨fun _ hx => hadds.mem hx, fun hdriver => ?_⟩
  cases found with
  | none => exact absurd rfl hdriver
  | some found => exact ⟨found.2, hsought.found.2⟩

theorem wp_read (hG : ∀ h q, G h q) {driver : FileStorageDriver}
    (hchecked : Checked config caller (.id id) h)
    (hfound : driver ≠ .gridfs → ∃ info, asked driver (.id id) (some info) ∈ h) :
    wp G F (read driver id)
      (fun answer h' => ∀ result, answer = some result → ServesById config caller h' result) h := by
  refine wp_query (hG ..) fun answer result hresult => ⟨driver, id, ?_, ?_, fun hdriver => ?_⟩
  · rw [hresult]
    exact List.mem_append_right _ (List.mem_singleton.mpr rfl)
  · exact hchecked.mono fun x hx => List.mem_append_left _ hx
  · obtain ⟨info, hinfo⟩ := hfound hdriver
    exact ⟨info, List.mem_append_left _ hinfo⟩

theorem wp_getFileStream (hG : ∀ h q, G h q) {knownStore : Option FileStorageDriver}
    (hknown : ∀ driver, knownStore = some driver → driver ≠ .gridfs →
      ∃ info, asked driver (.id id) (some info) ∈ h) :
    wp G F (getFileStream config caller id knownStore)
      (fun answer h' => ∀ result, answer = some result → ServesById config caller h' result) h := by
  refine wp_bind (wp_checkRights fun _ _ _ => hG ..) ?_
  rintro ok h' ⟨hadds, hchecked⟩
  cases ok with
  | false => exact wp_pure (by rintro result ⟨⟩)
  | true =>
      cases knownStore with
      | none =>
          refine wp_bind (wp_locateFile hG) ?_
          rintro driver h'' ⟨hsub, hfound⟩
          exact wp_read hG ((hchecked rfl).mono hsub) hfound
      | some driver =>
          refine wp_read hG (hchecked rfl) fun hdriver => ?_
          obtain ⟨info, hinfo⟩ := hknown driver rfl hdriver
          exact ⟨info, hadds.mem hinfo⟩

theorem wp_getBuffer (hG : ∀ h q, G h q) :
    wp G F (getBuffer config caller id)
      (fun answer h' => ∀ result, answer = some result → ServesById config caller h' result) h := by
  refine wp_bind (wp_checkRights fun _ _ _ => hG ..) ?_
  rintro ok h' ⟨hadds, hchecked⟩
  cases ok with
  | false => exact wp_pure (by rintro result ⟨⟩)
  | true =>
      refine wp_bind (wp_locateFile hG) ?_
      rintro driver h'' ⟨hsub, hfound⟩
      exact wp_read hG ((hchecked rfl).mono hsub) hfound

/-- There is a URL for a file of S3 only. -/
theorem wp_getDownloadUrl (hG : ∀ h q, G h q) :
    wp G F (getDownloadUrl config caller id) (fun url h' => (∀ x ∈ h, x ∈ h') ∧
      (url = true → Checked config caller (.id id) h' ∧
        ∃ info, asked .s3 (.id id) (some info) ∈ h')) h := by
  refine wp_bind (wp_checkRights fun _ _ _ => hG ..) ?_
  rintro ok h' ⟨hadds, hchecked⟩
  cases ok with
  | false => exact wp_pure ⟨fun _ hx => hadds.mem hx, by rintro ⟨⟩⟩
  | true =>
      refine wp_bind (wp_firstOf _ fun _ _ _ => hG ..) ?_
      rintro found h'' ⟨hmore, hsought⟩
      cases found with
      | none => exact wp_pure ⟨fun _ hx => hmore.mem (hadds.mem hx), by rintro ⟨⟩⟩
      | some found =>
          obtain ⟨driver, info⟩ := found
          refine wp_query (hG ..) fun url =>
            ⟨fun _ hx => List.mem_append_left _ (hmore.mem (hadds.mem hx)), fun _ => ⟨?_, info, ?_⟩⟩
          · exact (hchecked rfl).mono fun _ hx => List.mem_append_left _ (hmore.mem hx)
          · obtain ⟨hdriver, hfound⟩ := hsought.found
            have hs3 : driver = .s3 := by
              split at hdriver
              · exact List.mem_singleton.mp hdriver
              · cases hdriver
            rw [← hs3]
            exact List.mem_append_left _ hfound

theorem wp_resolveFile (hG : ∀ h q, G h q) :
    wp G F (resolveFile config caller key) (fun found h' => (∀ x ∈ h, x ∈ h') ∧
      ∀ driver info, found = some (driver, info) → asked driver key (some info) ∈ h') h := by
  refine wp_bind (wp_checkRights fun _ _ _ => hG ..) ?_
  rintro ok h' ⟨hadds, _⟩
  cases ok with
  | false => exact wp_pure ⟨fun _ hx => hadds.mem hx, by rintro driver info ⟨⟩⟩
  | true =>
      refine wp_mono ?_ (wp_firstOf _ fun _ _ _ => hG ..)
      rintro found h'' ⟨hmore, hsought⟩
      refine ⟨fun _ hx => hmore.mem (hadds.mem hx), ?_⟩
      rintro driver info rfl
      exact hsought.found.2

theorem wp_getFileById (hG : ∀ h q, G h q) :
    wp G F (getFileById config caller id)
      (fun answer h' => ∀ result, answer = some result → ServesById config caller h' result) h := by
  refine wp_bind (wp_resolveFile hG) ?_
  rintro found h' ⟨_, hfound⟩
  cases found with
  | none => exact wp_pure (by rintro result ⟨⟩)
  | some found =>
      obtain ⟨store, info⟩ := found
      refine wp_bind (R := fun url h'' => (∀ x ∈ h', x ∈ h'') ∧
        (url = true → Checked config caller (.id id) h'' ∧
          ∃ info, asked .s3 (.id id) (some info) ∈ h'')) ?_ ?_
      · split
        · exact wp_getDownloadUrl hG
        · exact wp_pure ⟨fun _ hx => hx, by rintro ⟨⟩⟩
      · rintro url h'' ⟨hsub, hurl⟩
        cases url with
        | true => exact wp_read hG (hurl rfl).1 fun _ => (hurl rfl).2
        | false =>
            refine wp_getFileStream hG ?_
            rintro driver ⟨⟩ _
            exact ⟨info, hsub _ (hfound _ _ rfl)⟩

theorem wp_getFile (hG : ∀ h q, G h q) :
    wp G F (getFile config caller filename)
      (fun answer h' => ∀ result, answer = some result → ServesById config caller h' result) h := by
  refine wp_bind (wp_resolveFile hG) ?_
  rintro found h' _
  cases found with
  | none => exact wp_pure (by rintro result ⟨⟩)
  | some found =>
      refine wp_bind (wp_getDownloadUrl hG) ?_
      rintro url h'' ⟨_, hurl⟩
      cases url with
      | true => exact wp_read hG (hurl rfl).1 fun _ => (hurl rfl).2
      | false => exact wp_getFileStream hG (by rintro driver ⟨⟩)

/-- The two downloads by name: the second lookup is like the first. -/
theorem wp_byName (hfinds : ∀ h q, q.name = some filename → (∀ x ∈ h, x.1.name = some filename) →
    G h q)
    (hreads : ∀ h driver id, G h (.read driver id)) :
    wp G F (getFileStreamByName config caller filename)
      (fun answer h' => ∀ result, answer = some result →
        ServesByName config caller filename h' result) [] := by
  have hnames : ∀ h' : Log, Adds (IsFind (.name filename)) [] h' →
      ∀ x ∈ h', x.1.name = some filename := by
    rintro h' ⟨xs, rfl, hxs⟩ x hx
    obtain ⟨driver, hdriver⟩ := hxs x hx
    rw [hdriver]
    rfl
  have hG : ∀ (h' : Log) driver, Adds (IsFind (.name filename)) [] h' →
      G h' (.find driver (.name filename)) :=
    fun h' driver hadds => hfinds h' _ rfl (hnames h' hadds)
  refine wp_bind (wp_checkRights hG) ?_
  rintro ok h' ⟨hadds, hchecked⟩
  cases ok with
  | false => exact wp_pure (by rintro result ⟨⟩)
  | true =>
      refine wp_bind (wp_firstOf _ fun h'' driver hmore => hG h'' driver (hadds.trans hmore)) ?_
      rintro found h'' ⟨hmore, hsought⟩
      have hfirst : Checked config caller (.name filename) h'' := (hchecked rfl).mono fun _ hx =>
          hmore.mem hx
      have hleft : ∀ answer : Exchange Question Answer, ∀ x ∈ h'', x ∈ h'' ++ [answer] :=
        fun _ _ hx =>
        List.mem_append_left _ hx
      cases found with
      | none =>
          refine wp_query (hfinds h'' _ rfl (hnames h'' (hadds.trans hmore))) fun answer result
            hresult =>
            ⟨hfirst.mono (hleft _), Or.inr ⟨hsought.mono (hleft _), ?_⟩⟩
          rw [hresult]
          exact List.mem_append_right _ (List.mem_singleton.mpr rfl)
      | some found =>
          refine wp_query (hreads ..) fun answer result hresult =>
            ⟨hfirst.mono (hleft _), Or.inl ⟨found.1, found.2, hsought.mono (hleft _), ?_⟩⟩
          rw [hresult]
          exact List.mem_append_right _ (List.mem_singleton.mpr rfl)

/-- **Every download keeps to the law.** -/
theorem wp_program (config : Config) (request : Request) :
    wp ((law config).asks request) ((law config).fails request) (program config request)
      ((law config).result request) [] := by
  obtain ⟨caller, download⟩ := request
  have hall : download.byName = none → ∀ h q, (law config).asks ⟨caller, download⟩ h q := by
    intro hnone h q filename hname
    rw [show download.byName = some filename from hname] at hnone
    cases hnone
  have hfinds : ∀ filename, download.byName = some filename →
      ∀ (h : Log) q, q.name = some filename →
      (∀ x ∈ h, x.1.name = some filename) → (law config).asks ⟨caller, download⟩ h q := by
    intro filename hname h q hq hh other hother _
    obtain rfl := Option.some.inj (hname.symm.trans hother)
    exact ⟨hq, hh⟩
  have hreads : ∀ h driver id, (law config).asks ⟨caller, download⟩ h (.read driver id) :=
    fun _ _ _ _ _ hname =>
    absurd rfl hname
  cases download with
  | getFileStream id => exact wp_getFileStream (hall rfl) (by rintro driver ⟨⟩)
  | getBuffer id => exact wp_getBuffer (hall rfl)
  | getFileStreamByName filename => exact wp_byName (hfinds filename rfl) hreads
  | getBufferByName filename => exact wp_byName (hfinds filename rfl) hreads
  | getFileById id => exact wp_getFileById (hall rfl)
  | getFile filename => exact wp_getFile (hall rfl)

end Files.Downloads
