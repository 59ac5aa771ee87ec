import Mathlib.Logic.Function.Basic
import NestServer.Injection
import NestServer.Mongo.Bson
import NestServer.OrderedMap

/-! # File stores

    The three file helpers.  Each has bytes by the id of a file, and a collection of
    documents that describe the files; `gridfs` keeps the bytes in chunks. -/

namespace Files

open Injection Injection.Program Mongo

abbrev Bytes := List UInt8

/-- The hex form. -/
abbrev ObjectId := String

abbrev Metadata := OrderedMap String Bson

inductive FileStorageMarker where
  | filesystem
  | s3
deriving DecidableEq

/-- `FileMetadataInfo` -/
structure FileInfo where
  id          : ObjectId
  contentType : Option String := none
  filename    : String
  length      : Option Nat
  metadata    : Option Metadata := none
  storage     : Option FileStorageMarker := none
  uploadDate  : Int
deriving DecidableEq

structure Store where
  bytes : ObjectId → Option Bytes := fun _ => none
  files : List FileInfo := []

inductive Step where
  | mkdir
  | pipeline
  | stat
  | rm
  | putObject
  | collect
  | copyObject
  | headObject
  | deleteObject
  /-- the next chunk of the source, or its end -/
  | source (i : Nat)
  | chunk (i : Nat)
  | abort
  | filesDocument
  | find
  | bucketDelete
  | createIndex
  | insertOne
  | deleteOne
deriving DecidableEq

namespace Store

variable (store : Store)

def put (id : ObjectId) (content : Bytes) : Store :=
  { store with bytes := Function.update store.bytes id (some content) }

def drop (id : ObjectId) : Store := { store with bytes := Function.update store.bytes id none }

/-- A chunk after those that are there. -/
def append (id : ObjectId) (chunk : Bytes) : Store :=
  store.put id ((store.bytes id).getD [] ++ chunk)

def insert (info : FileInfo) : Store := { store with files := store.files ++ [info] }

def delete (id : ObjectId) : Store :=
  { store with files := store.files.filter fun info => info.id ≠ id }

end Store

/-- The options of the three write functions. -/
structure WriteOptions where
  body          : Option Bytes := none
  buffer        : Option Bytes := none
  contentLength : Option Nat := none
  contentType   : Option String := none
  filename      : String
  metadata      : Option Metadata := none

/-- It never throws. -/
def ensureFilenameIndex : Program Step Store Unit := quietly (perform .createIndex id)

/-! ## The filesystem -/

namespace FilesystemFileHelper

def writeBytes (id : ObjectId) (options : WriteOptions) : Program Step Store Unit :=
  match options.buffer, options.body with
  | some buffer, _   => perform .pipeline fun store => store.put id buffer
  | none, some body  => perform .pipeline fun store => store.put id body
  | none, none       => throw "FilesystemFileHelper.writeFile requires either `buffer` or `body`"

def stat (id : ObjectId) : Program Step Store Nat :=
  observe .stat fun store =>
    match store.bytes id with
    | some content => .ok content.length
    | none         => .error "ENOENT"

/-- The document of a file of this size. -/
def fileInfo (id : ObjectId) (now : Int) (options : WriteOptions) (size : Nat) : FileInfo where
  id          := id
  contentType := options.contentType
  filename    := options.filename
  length      := some size
  metadata    := options.metadata
  storage     := some .filesystem
  uploadDate  := now

/-- The part of `writeFile` that is tried. -/
def tryWrite (id : ObjectId) (now : Int) (options : WriteOptions) : Program Step Store FileInfo :=
  do
  writeBytes id options
  let size ← stat id
  if size = 0 ∧ 0 < (options.buffer.getD []).length then throw s!"File {id} was written empty"
  else
    ensureFilenameIndex
    perform .insertOne fun store => store.insert (fileInfo id now options size)
    return fileInfo id now options size

def writeFile (id : ObjectId) (now : Int) (options : WriteOptions) : Program Step Store FileInfo :=
  do
  perform .mkdir fun store => store
  (tryWrite id now options).rescue fun error => do
    quietly (perform .rm fun store => store.drop id)
    throw error

def deleteFile (id : ObjectId) : Program Step Store Unit := do
  perform .rm fun store => store.drop id
  perform .deleteOne fun store => store.delete id

end FilesystemFileHelper

/-! ## S3 -/

namespace S3FileHelper

/-- A body without a known length is read into memory first. -/
def putObject (id : ObjectId) (content : Bytes) (streamed : Bool) (contentLength : Option Nat) :
    Program Step Store Unit := do
  if streamed ∧ contentLength = none then perform .collect fun store => store
  else pure ()
  perform .putObject fun store => store.put id content

def fileInfo (id : ObjectId) (now : Int) (options : WriteOptions) (length : Option Nat) :
    FileInfo where
  id          := id
  contentType := options.contentType
  filename    := options.filename
  length      := length
  metadata    := options.metadata
  storage     := some .s3
  uploadDate  := now

def recordFile (id : ObjectId) (now : Int) (options : WriteOptions) (length : Option Nat) :
    Program Step Store FileInfo := do
  let found ← observe .headObject fun store => .ok (store.bytes id).isSome
  if found then
    ensureFilenameIndex
    perform .insertOne fun store => store.insert (fileInfo id now options length)
    return fileInfo id now options length
  else throw "File uploaded but not found in S3"

/-- `options.contentLength ?? options.buffer?.length` -/
def lengthOf (options : WriteOptions) : Option Nat :=
  options.contentLength.or (options.buffer.map List.length)

def writeFile (id : ObjectId) (now : Int) (options : WriteOptions) : Program Step Store FileInfo :=
  match options.body, options.buffer with
  | some body, _      => do
      putObject id body true (lengthOf options)
      recordFile id now options (lengthOf options)
  | none, some buffer => do
      putObject id buffer false (lengthOf options)
      recordFile id now options (lengthOf options)
  | none, none        => throw "S3FileHelper.writeFile needs either a body stream or a buffer"

/-- `source` is what is at the source key. -/
def copyFile (id : ObjectId) (now : Int) (source : Option Bytes) (options : WriteOptions) :
    Program Step Store FileInfo := do
  step .copyObject fun store =>
    match source with
    | some content => (.ok (), store.put id content)
    | none         => (.error "NoSuchKey", store)
  recordFile id now options options.contentLength

def deleteFile (id : ObjectId) : Program Step Store Unit := do
  perform .deleteObject fun store => store.drop id
  perform .deleteOne fun store => store.delete id

end S3FileHelper

/-! ## GridFS -/

namespace GridFSHelper

/-- `contentType` is in the metadata. -/
def rawMetadata (options : WriteOptions) : Metadata :=
  match options.contentType with
  | some contentType =>
      if contentType = "" then options.metadata.getD .empty
      else (options.metadata.getD .empty).set "contentType" (.str contentType)
  | none             => options.metadata.getD .empty

/-- The document that the driver writes. -/
def rawFile (id : ObjectId) (now : Int) (options : WriteOptions) (length : Nat) : FileInfo where
  id         := id
  filename   := options.filename
  length     := some length
  metadata   := some (rawMetadata options)
  uploadDate := now

def normalizeFileInfo (info : FileInfo) : FileInfo :=
  { info with contentType :=
      match info.metadata.bind fun metadata => metadata.get? "contentType" with
      | some (.str contentType) => some contentType
      | _                       => none }

/-- `stream.pipe(uploadStream)`: an error of the source discards the chunks, an error of the
    upload does not. -/
def pipe (id : ObjectId) : List Bytes → Nat → Program Step Store Unit
  | chunks, i => do
      (perform (.source i) fun store => store).rescue fun error => do
        quietly (perform .abort fun store => store.drop id)
        throw error
      match chunks with
      | []            => pure ()
      | chunk :: rest => do
          perform (.chunk i) fun store => store.append id chunk
          pipe id rest (i + 1)

/-- The document is read back. -/
def onFinish (id : ObjectId) : Program Step Store FileInfo :=
  observe .find fun store =>
    match store.files.find? fun info => info.id = id with
    | some info => .ok (normalizeFileInfo info)
    | none      => .error "File uploaded but metadata not found"

def writeFileFromStream (id : ObjectId) (now : Int) (chunks : List Bytes) (options : WriteOptions) :
    Program Step Store FileInfo := do
  pipe id chunks 0
  perform .filesDocument fun store => store.insert (rawFile id now options chunks.flatten.length)
  onFinish id

/-- `bucket.delete` -/
def deleteFile (id : ObjectId) : Program Step Store Unit :=
  step .bucketDelete fun store =>
    if store.files.any fun info => info.id = id then (.ok (), (store.drop id).delete id)
    else (.error s!"File not found for id {id}", (store.drop id).delete id)

end GridFSHelper

end Files
