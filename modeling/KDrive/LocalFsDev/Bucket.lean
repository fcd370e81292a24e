import KDrive.LocalFsDev.Host
import Mathlib.Logic.Function.Basic

/-! What the provider is for: a bucket in which every key has a stack of versions and
delete markers, the newest on top, and in which uploads are kept apart until they are
complete. -/
namespace KDrive.LocalFsDev
open Go Blobstore

/-- A version without a body is a delete marker. -/
structure Version where
  versionID : String
  body : Option Bytes
  contentType : String := ""
  retention : RetentionState := {}
  writeTime : Time

/-- An upload that is not complete. -/
structure Staged where
  contentType : String
  checksumSHA256 : String
  parts : Int → Option Bytes

/-- The time is the last one read from the clock. -/
structure Bucket where
  stack : String → List Version
  staged : String → String → Option Staged
  time : Time

/-- What is told about a version. -/
def Version.sidecar (key : String) (v : Version) : Sidecar where
  key := key
  versionID := v.versionID
  sizeBytes := (v.body.getD []).length
  checksumSHA256 := (v.body.map checksumSHA256).getD ""
  contentType := v.contentType
  versioningState := .enabled
  retention := v.retention
  writeTime := v.writeTime
  isDeleteMarker := v.body.isNone

namespace Bucket

def empty (time : Time) : Bucket := ⟨fun _ => [], fun _ _ => none, time⟩

section Updates
variable (b : Bucket)

def restack (key : String) (stack : List Version) : Bucket :=
  { b with stack := Function.update b.stack key stack }

def push (key : String) (v : Version) : Bucket :=
  { b.restack key (v :: b.stack key) with time := v.writeTime }

/-- The version with an ID is taken out of the stack, wherever it is. -/
def remove (ref : VersionedObjectRef) : Bucket :=
  b.restack ref.key ((b.stack ref.key).filter fun v => v.versionID ≠ ref.versionID)

/-- The version with an ID gets another retention and stays where it is. -/
def retain (ref : VersionedObjectRef) (retention : RetentionState) : Bucket :=
  b.restack ref.key ((b.stack ref.key).map fun v =>
    if v.versionID = ref.versionID then { v with retention } else v)

def stage (key uploadID : String) (upload : Option Staged) : Bucket :=
  { b with staged := Function.update b.staged key (Function.update (b.staged key) uploadID upload) }

def setPart (upload : MultipartUpload) (st : Staged) (n : Int) (data : Bytes) : Bucket :=
  b.stage upload.key upload.uploadID
    (some { st with parts := Function.update st.parts n (some data) })

end Updates

/-- In every stack the newest version is on top, and none is from a time to come. -/
def Ordered (b : Bucket) : Prop := ∀ key,
  (b.stack key).Pairwise (fun above below => below.writeTime < above.writeTime) ∧
    ∀ v ∈ b.stack key, v.writeTime ≤ b.time

section Lookups
variable (b : Bucket)

def version (ref : VersionedObjectRef) : Option Version :=
  (b.stack ref.key).find? fun v => v.versionID = ref.versionID

/-- The version a request is for, with its bytes: the one on top, or the one with the ID. -/
def current (ref : VersionedObjectRef) : Option (Version × Bytes) :=
  (if ref.versionID = "" then (b.stack ref.key).head? else b.version ref).bind fun v =>
    v.body.map fun data => (v, data)

/-- The version a copy is made of: the newest that has bytes, or the one with the ID. -/
def source (ref : VersionedObjectRef) : Option (Version × Bytes) :=
  (if ref.versionID = "" then (b.stack ref.key).find? fun v => v.body.isSome
    else b.version ref).bind fun v => v.body.map fun data => (v, data)

end Lookups

/-- The listed parts, one behind the other. -/
def joined (st : Staged) (parts : List CompletedPart) : Option Bytes :=
  (parts.mapM fun part => st.parts part.partNumber).map List.flatten

section Behaviour
variable (later : Time → Time → Prop) (b b' : Bucket)

/-- Nothing happens but that time passes. -/
def Keeps : Prop := ∃ now, (now = b.time ∨ later b.time now) ∧ b' = { b with time := now }

/-- A version with a new ID is put on top, with the time that is read then. -/
def Pushes (key : String) (body : Option Bytes) (contentType : String) (retention : RetentionState)
    (v : Version) : Prop :=
  v.versionID ∉ (b.stack key).map Version.versionID ∧ later b.time v.writeTime ∧ v.body = body ∧
    v.contentType = contentType ∧ v.retention = retention ∧ b' = b.push key v

/-- The dates of a record, one of them read just now, cannot be written. -/
def Undated (retainUntil : Time) : Prop :=
  later b.time b'.time ∧ ¬ (dated retainUntil ∧ dated b'.time)

/-- The body is not the one that was announced. -/
def Mismatch (req : PutRequest) : Prop :=
  (0 < req.expectedLength ∧ (req.body.data.length : Int) ≠ req.expectedLength) ∨
    (req.checksumSHA256 ≠ "" ∧ req.checksumSHA256 ≠ checksumSHA256 req.body.data)

/-- What an operation answers and what it leaves. An operation that fails says why, and
leaves every stack as it is. -/
def Does : (op : Operation) → Except GoError op.Answer → Prop
  | .put req, .ok result =>
    ¬ (req.ifNoneMatch = true ∧ b.stack req.key ≠ []) ∧ req.body.failure = none ∧ ¬ Mismatch req ∧
      ∃ v, b.Pushes later b' req.key (some req.body.data) req.contentType (effectiveRetention req.retention) v ∧
        result = putResult (v.sidecar req.key)
  | .put req, .error err => b.Keeps later b' ∧ (validateKey req.key = some err ∨
      req.ifNoneMatch = true ∧ b.stack req.key ≠ [] ∧ err.is errPreconditionFailed = true ∨
      req.body.failure ≠ none ∨ Mismatch req ∧ err.is errChecksumMismatch = true ∨
      b.Undated later b' (effectiveRetention req.retention).retainUntil)
  | .head ref, .ok info => b.Keeps later b' ∧ ∃ v data, b.current ⟨ref.key, ""⟩ = some (v, data) ∧
      info = sidecarToMeta (v.sidecar ref.key)
  | .head ref, .error err => b.Keeps later b' ∧ (validateKey ref.key = some err ∨
      b.current ⟨ref.key, ""⟩ = none ∧ err.is errNotFound = true)
  | .get ref range, .ok (body, info) => b.Keeps later b' ∧ ∃ v data, b.current ref = some (v, data) ∧
      Provider.ranged ref.key ⟨data, none⟩ range = .ok body ∧
      info = sidecarToMeta (v.sidecar ref.key)
  | .get ref range, .error err => b.Keeps later b' ∧ (validateKey ref.key = some err ∨
      b.current ref = none ∧ err.is errNotFound = true ∨
      ∃ v data, b.current ref = some (v, data) ∧
        Provider.ranged ref.key ⟨data, none⟩ range = .error err)
  | .delete ref, .ok _ =>
    b.stack ref.key ≠ [] ∧ ∃ v, b.Pushes later b' ref.key none "" {} v
  | .delete ref, .error err => b.Keeps later b' ∧ (validateKey ref.key = some err ∨
      b.stack ref.key = [] ∧ err.is errNotFound = true ∨ b.Undated later b' 0)
  | .deleteVersion ref, .ok _ => b' = b.remove ref
  | .deleteVersion ref, .error err => b.Keeps later b' ∧ validateKey ref.key = some err
  | .purgeAllVersions ref, .ok _ => b' = b.restack ref.key []
  | .purgeAllVersions ref, .error err => b.Keeps later b' ∧ validateKey ref.key = some err
  | .createMultipart req, .ok upload => upload.key = req.key ∧
      b.staged req.key upload.uploadID = none ∧ ∃ now, later b.time now ∧
      b' = { b.stage req.key upload.uploadID
        (some ⟨req.contentType, req.checksumSHA256, fun _ => none⟩) with time := now }
  | .createMultipart req, .error err => b.Keeps later b' ∧ (validateKey req.key = some err ∨
      b.Undated later b' req.retention.retainUntil)
  | .uploadPart upload n body, .ok part =>
    ∃ st, b.staged upload.key upload.uploadID = some st ∧ 1 ≤ n ∧ body.failure = none ∧
      part = ⟨n, checksumSHA256 body.data, body.data.length⟩ ∧ b' = b.setPart upload st n body.data
  | .uploadPart upload n body, .error err =>
    b.Keeps later b' ∧ (validateKey upload.key = some err ∨ n < 1 ∨
      b.staged upload.key upload.uploadID = none ∧ err.is errNotFound = true) ∨
    ∃ st, b.staged upload.key upload.uploadID = some st ∧ body.failure ≠ none ∧
      b' = b.setPart upload st n body.data
  | .completeMultipart req, .ok result =>
    ∃ st data, b.staged req.upload.key req.upload.uploadID = some st ∧
      joined st req.parts = some data ∧
      (st.checksumSHA256 = "" ∨ st.checksumSHA256 = checksumSHA256 data) ∧
      ∃ v, (b.stage req.upload.key req.upload.uploadID none).Pushes later b' req.upload.key (some data)
          st.contentType (effectiveRetention req.retention) v ∧
        result = putResult (v.sidecar req.upload.key)
  | .completeMultipart req, .error err => b.Keeps later b' ∧ (validateKey req.upload.key = some err ∨
      b.staged req.upload.key req.upload.uploadID = none ∧ err.is errNotFound = true ∨
      ∃ st, b.staged req.upload.key req.upload.uploadID = some st ∧
        (joined st req.parts = none ∨
          ∃ data, joined st req.parts = some data ∧
            (st.checksumSHA256 ≠ "" ∧ st.checksumSHA256 ≠ checksumSHA256 data ∧
              err.is errChecksumMismatch = true ∨
              b.Undated later b' (effectiveRetention req.retention).retainUntil)))
  | .abortMultipart upload, .ok _ => b' = b.stage upload.key upload.uploadID none
  | .abortMultipart upload, .error err => b.Keeps later b' ∧ validateKey upload.key = some err
  | .copyWithinProvider src dstKey retention, .ok result => ∃ v data,
      b.source src = some (v, data) ∧ ∃ copy,
      b.Pushes later b' dstKey (some data) v.contentType (effectiveRetention retention) copy ∧
        result = putResult (copy.sidecar dstKey)
  | .copyWithinProvider src dstKey retention, .error err => b.Keeps later b' ∧
      (validateKey src.key = some err ∨ validateKey dstKey = some err ∨ b.source src = none ∨
        b.Undated later b' (effectiveRetention retention).retainUntil)
  | .getRetention ref, .ok retention => b.Keeps later b' ∧
      ∃ v, b.version ref = some v ∧ retention = v.retention
  | .getRetention ref, .error err => b.Keeps later b' ∧ (validateKey ref.key = some err ∨
      b.version ref = none ∧ err.is errNotFound = true)
  | .updateRetention ref change, .ok retention => ∃ v, b.version ref = some v ∧
      Provider.updatedRetention v.retention change = .ok retention ∧ b' = b.retain ref retention
  | .updateRetention ref change, .error err => b.Keeps later b' ∧ (validateKey ref.key = some err ∨
      b.version ref = none ∧ err.is errNotFound = true ∨ ∃ v, b.version ref = some v ∧
        (Provider.updatedRetention v.retention change = .error err ∨ ∃ retention,
          Provider.updatedRetention v.retention change = .ok retention ∧
          ¬ (dated retention.retainUntil ∧ dated v.writeTime)))
  | .setLegalHold ref enabled, .ok retention => ∃ v, b.version ref = some v ∧
      retention = { v.retention with legalHold := enabled } ∧ b' = b.retain ref retention
  | .setLegalHold ref _, .error err => b.Keeps later b' ∧ (validateKey ref.key = some err ∨
      b.version ref = none ∧ err.is errNotFound = true ∨ ∃ v, b.version ref = some v ∧
        ¬ (dated v.retention.retainUntil ∧ dated v.writeTime))
  | .listObjectVersions key, .ok versions => b.Keeps later b' ∧
      versions = (b.stack key).reverse.map fun v => sidecarToMeta (v.sidecar key)
  | .listObjectVersions key, .error err => b.Keeps later b' ∧ validateKey key = some err
  | .deleteBatch refs, .ok results => results = refs.map (fun ref => (ref, validateKey ref.key)) ∧
      b' = refs.foldl (fun b ref => if validateKey ref.key = none then b.remove ref else b) b
  | .deleteBatch _, .error _ => False
  | _, _ => b.Keeps later b'

end Behaviour

/-- Operations one after another; `later` says which times may be read next. -/
inductive Run (later : Time → Time → Prop) : Bucket → List Event → Bucket → Prop where
  | start : Run later b [] b
  | step : Run later b past b₁ → b₁.Does later b₂ e.op e.answer → Run later b (past ++ [e]) b₂

end Bucket
end KDrive.LocalFsDev
