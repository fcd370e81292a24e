import KDrive.S3.Api
import Mathlib.Data.List.Infix

/-! The S3 adapter. Every operation the breaker guards asks it first and tells it how the
API call went, unless the error is one a client causes; an operation that fails on its own
between the two tells it nothing. -/
namespace KDrive.S3
open Go Blobstore

structure Provider where
  providerName : String := "s3"
  bucket : String := ""
  breaker : Bool := true

structure GetRequest where
  ref : VersionedObjectRef
  range : Option (Int × Int) := none

structure VersionPage where
  versions : List ObjectMeta
  nextCursor : String
  isTruncated : Bool
  deriving DecidableEq

structure UploadPage where
  uploads : List MultipartUpload
  nextCursor : String
  deriving DecidableEq

/-- `strings.ToLower` on a character, as far as a letter of the word looked for can come
of it. -/
def toLower (c : Char) : Char := if c = 'İ' then 'i' else c.toLower

def contains (text part : String) : Bool := decide (part.toList <:+: text.toList)

/-- The SDK error as it is wrapped; no error of this code base is in it. -/
def ApiError.raw (err : ApiError) : GoError := .errorf "%s" [.str err.text]

/-- Not-found, failed preconditions, retention conflicts and checksum mismatches. -/
def isClientError (err : GoError) : Bool :=
  err.is errNotFound || err.is errPreconditionFailed || err.is errRetentionConflict ||
    err.is errChecksumMismatch

namespace Provider
variable (p : Provider)

def errPrefix : String := p.providerName ++ ": "

/-- `S3ObjectLock` of the provider's capabilities. -/
def s3ObjectLock : Bool := p.providerName = "wasabi" || p.providerName = "s3"

def classifyError (err : ApiError) (key : String) : GoError :=
  let wrap (sentinel : GoError) : GoError :=
    .wrap (p.errPrefix ++ "%w: key %q (%v)") [.str key, .str err.text] sentinel
  match err.typed, err.status with
  | some .noSuchKey, _ | some .notFound, _ => wrap errNotFound
  | some .noSuchBucket, _ =>
    .wrap (p.errPrefix ++ "%w: bucket %q (%v)") [.str p.bucket, .str err.text] errNotFound
  | some .noSuchUpload, _ =>
    .wrap (p.errPrefix ++ "%w: upload for key %q (%v)") [.str key, .str err.text] errNotFound
  | none, some 404 => wrap errNotFound
  | none, some 412 => wrap errPreconditionFailed
  | none, some 503 => wrap errThrottled
  | none, _ =>
    if contains err.text "ObjectLock" ∨
        contains (String.ofList (err.text.toList.map toLower)) "retention" then
      wrap errRetentionConflict
    else .wrap (p.errPrefix ++ "key %q: %w") [.str key] err.raw

/-- The start of a guarded operation. -/
def guarded (proceed : Api (Except GoError α)) : Api (Except GoError α) :=
  if p.breaker then do
    match (← ask .allow : Passage) with
    | .refused err => pure (.error err)
    | .admitted _ => proceed
  else proceed

/-- What follows the API call of a guarded operation: a failure counts unless it is the
client's, and a success goes on to the result. -/
def concluded (key : String) (reply : Except ApiError β) (result : β → Api (Except GoError α)) :
    Api (Except GoError α) :=
  match reply with
  | .error err => do
    let classified := p.classifyError err key
    if p.breaker ∧ ¬ isClientError classified then ask .recordFailure
    pure (.error classified)
  | .ok out => do
    if p.breaker then ask .recordSuccess
    result out

def missing (what : String) : GoError := .new (p.errPrefix ++ what)

/-- The retention is asked for; the zero value of the mode is not `RetentionNone`. -/
def retains (spec : RetentionSpec) : Bool := spec.mode ≠ .none || spec.legalHold

/-- `applyRetentionTo…` and the legal hold. -/
def objectLock (spec : RetentionSpec) : ObjectLock where
  mode := match spec.mode with
    | .compliance => some "COMPLIANCE"
    | .governance => some "GOVERNANCE"
    | _ => none
  retainUntilDate := if spec.mode ≠ .none ∧ spec.retainUntil ≠ 0 then some spec.retainUntil else none
  legalHoldStatus := if spec.legalHold then some "ON" else none

/-- A string field that is only set when it is not empty. -/
def optional (text : String) : Option String := if text = "" then none else some text

def versioningText : BucketVersioningState → String
  | .unset => ""
  | .neverEnabled => "NEVER_ENABLED"
  | .enabled => "ENABLED"
  | .suspendedVersionAware => "SUSPENDED_VERSION_AWARE"

def computeWriteResultHash (provider bucket key versionID : String) (state : BucketVersioningState)
    (size : Int) (sum : String) : String :=
  let provider := if provider = "" then "s3" else provider
  checksumSHA256 (utf8 ("\x00".intercalate
    [provider ++ "/v1", bucket, key, versionID, versioningText state, toString size, sum]))

/-- What a write came to. -/
def putResult (key versionID : String) (size : Int) (sum : String) (writeTime : Time) :
    PutResult where
  key := key
  versionID := versionID
  versioningState := .enabled
  size := size
  checksumSHA256 := sum
  writeTime := writeTime
  writeResultHash :=
    computeWriteResultHash p.providerName p.bucket key versionID .enabled size sum

def put (req : PutRequest) : Api (Except GoError PutResult) :=
  if req.key = "" then pure (.error (p.missing "key is required"))
  else p.guarded do
    if retains req.retention ∧ ¬ p.s3ObjectLock then
      pure (.error (p.missing "object lock not supported by this provider"))
    else
      let reply : Except ApiError PutObjectOutput ← ask (.putObject {
        key := req.key
        body := req.body
        contentType := optional req.contentType
        contentLength := if 0 < req.expectedLength then some req.expectedLength else none
        checksumSHA256 := optional req.checksumSHA256
        ifNoneMatch := if req.ifNoneMatch then some "*" else none
        lock := objectLock req.retention })
      p.concluded req.key reply fun out => do
        let now : Time ← ask .now
        pure (.ok (p.putResult req.key (out.versionId.getD "") (out.size.getD req.expectedLength)
          (out.checksumSHA256.getD req.checksumSHA256) now))

def headOutputToMeta (key : String) (out : HeadObjectOutput) : ObjectMeta where
  key := key
  versionID := out.versionId.getD ""
  versioningState := .enabled
  size := out.contentLength.getD 0
  checksumSHA256 := out.checksumSHA256.getD ""
  writeTime := out.lastModified.getD 0

def head (ref : ObjectRef) : Api (Except GoError ObjectMeta) :=
  if ref.key = "" then pure (.error (p.missing "key is required"))
  else p.guarded do
    let reply : Except ApiError HeadObjectOutput ← ask (.headObject ref.key none)
    p.concluded ref.key reply fun out => pure (.ok (headOutputToMeta ref.key out))

def formatRange (range : Int × Int) : String :=
  if range.2 < 0 then "bytes=" ++ toString range.1 ++ "-"
  else "bytes=" ++ toString range.1 ++ "-" ++ toString range.2

def get (req : GetRequest) : Api (Except GoError (Reader × ObjectMeta)) :=
  if req.ref.key = "" then pure (.error (p.missing "key is required"))
  else p.guarded do
    let reply : Except ApiError GetObjectOutput ←
      ask (.getObject req.ref.key (optional req.ref.versionID) (req.range.map formatRange))
    p.concluded req.ref.key reply fun out =>
      pure (.ok (out.body, headOutputToMeta req.ref.key out.toHeadObjectOutput))

def delete (ref : ObjectRef) : Api (Except GoError Unit) :=
  if ref.key = "" then pure (.error (p.missing "key is required"))
  else p.guarded do
    let reply : Except ApiError Unit ← ask (.deleteObject ref.key none)
    p.concluded ref.key reply fun _ => pure (.ok ())

def createMultipart (req : MultipartRequest) : Api (Except GoError MultipartUpload) :=
  if req.key = "" then pure (.error (p.missing "key is required"))
  else p.guarded do
    if retains req.retention ∧ ¬ p.s3ObjectLock then
      pure (.error (p.missing "object lock not supported by this provider"))
    else
      let reply : Except ApiError (Option String) ← ask (.createMultipartUpload {
        key := req.key
        contentType := optional req.contentType
        checksumAlgorithm := if req.checksumSHA256 = "" then none else some "SHA256"
        lock := objectLock req.retention })
      p.concluded req.key reply fun uploadId => pure (.ok ⟨req.key, uploadId.getD ""⟩)

/-- The size and the checksum come from a second call, whose failure leaves them zero. -/
def completeMultipart (req : CompleteRequest) : Api (Except GoError PutResult) :=
  if req.upload.key = "" ∨ req.upload.uploadID = "" then
    pure (.error (p.missing "upload key and id are required"))
  else p.guarded do
    let reply : Except ApiError (Option String) ← ask (.completeMultipartUpload {
      key := req.upload.key
      uploadId := req.upload.uploadID
      parts := req.parts.map fun part => (part.partNumber, part.checksumSHA256) })
    p.concluded req.upload.key reply fun versionId => do
      let headed : Except ApiError HeadObjectOutput ← ask (.headObject req.upload.key versionId)
      let now : Time ← ask .now
      let out := headed.toOption.getD {}
      pure (.ok (p.putResult req.upload.key (versionId.getD "") (out.contentLength.getD 0)
        (out.checksumSHA256.getD "") (out.lastModified.getD now)))

def maxPartBytes : Int := 5 * 1024 * 1024 * 1024

/-- `UploadPart`, with the reader of the part. -/
def uploadPart (upload : MultipartUpload) (partNumber : Int) (body : Reader) :
    Api (Except GoError UploadedPart) :=
  if upload.key = "" ∨ upload.uploadID = "" then
    pure (.error (p.missing "upload key and id are required"))
  else if partNumber < 1 ∨ 10000 < partNumber then
    pure (.error (p.missing "part number must be 1-10000"))
  else p.guarded do
    match (← ask .createTemp : Option GoError) with
    | some err => pure (.error
        (.wrap (p.errPrefix ++ "create temp file for part %d: %w") [.int partNumber] err))
    | none =>
      let limited := body.limit (maxPartBytes + 1)
      let readError (err : GoError) : Api (Except GoError UploadedPart) :=
        pure (.error (.wrap (p.errPrefix ++ "read part %d: %w") [.int partNumber] err))
      match (← ask (.copyToTemp limited.data) : Option GoError), limited.failure with
      | some err, _ => readError err
      | none, some err => readError err
      | none, none =>
        if maxPartBytes < limited.data.length then
          pure (.error (p.missing "part size exceeds 5 GiB limit"))
        else
          match (← ask .seekTemp : Option GoError) with
          | some err => pure (.error
              (.wrap (p.errPrefix ++ "seek temp file for part %d: %w") [.int partNumber] err))
          | none =>
            let reply : Except ApiError Unit ← ask (.uploadPart {
              key := upload.key
              uploadId := upload.uploadID
              partNumber := partNumber
              body := limited.data
              contentLength := limited.data.length
              checksumSHA256 := checksumSHA256 limited.data })
            p.concluded upload.key reply fun _ =>
              pure (.ok ⟨partNumber, checksumSHA256 limited.data, limited.data.length⟩)

/-- The page size a listing asks for. -/
def pageSize (maxKeys : Int) : Int := if maxKeys ≤ 0 ∨ 1000 < maxKeys then 1000 else maxKeys

def listObjectVersions (key cursor : String) (maxKeys : Int) : Api (Except GoError VersionPage) :=
  if key = "" then pure (.error (p.missing "key is required"))
  else do
    match (← ask (.listObjectVersions ⟨key, optional cursor, pageSize maxKeys⟩) :
        Except ApiError ListObjectVersionsOutput) with
    | .error err => pure (.error (p.classifyError err key))
    | .ok out =>
      let versions : List ObjectMeta := (out.versions.filter fun v => v.key = key).map fun v => {
        key := key
        versionID := v.versionId
        size := v.size
        versioningState := .enabled
        writeTime := v.lastModified }
      pure (.ok ⟨versions, out.nextKeyMarker.getD "", out.isTruncated⟩)

def listMultipartUploads (keyPrefix cursor : String) : Api (Except GoError UploadPage) := do
  match (← ask (.listMultipartUploads ⟨optional keyPrefix, optional cursor⟩) :
      Except ApiError ListMultipartUploadsOutput) with
  | .error err => pure (.error (p.classifyError err ""))
  | .ok out => pure (.ok ⟨out.uploads, out.nextKeyMarker.getD ""⟩)

/-- The identifiers of the key on a page, versions first. -/
def purged (key : String) (out : ListObjectVersionsOutput) : List ObjectIdentifier :=
  ((out.versions.filter fun v => v.key = key).map fun v => ⟨key, v.versionId⟩) ++
    ((out.deleteMarkers.filter fun d => d.key = key).map fun d => ⟨key, d.versionId⟩)

/-- The page has a key behind this one, in the order of the bytes of their texts. -/
def passedKey (key : String) (out : ListObjectVersionsOutput) : Bool :=
  (out.versions.any fun v => key < v.key) || out.deleteMarkers.any fun d => key < d.key

/-- The loop of `PurgeAllVersions`, for at most so many pages; `none` means that it has
not ended by then. The identifiers that could not be deleted are not looked at. -/
def purgePages (key : String) : Nat → Option String → Api (Option (Except GoError Unit))
  | 0, _ => pure none
  | rounds + 1, cursor => do
    match (← ask (.listObjectVersions ⟨key, cursor, 1000⟩) :
        Except ApiError ListObjectVersionsOutput) with
    | .error err => pure (some (.error (p.classifyError err key)))
    | .ok out =>
      let rest : Api (Option (Except GoError Unit)) :=
        if passedKey key out ∨ ¬ out.isTruncated then pure (some (.ok ()))
        else purgePages key rounds out.nextKeyMarker
      if purged key out = [] then rest
      else do
        match (← ask (.deleteObjects (purged key out)) :
            Except ApiError (List ObjectIdentifier)) with
        | .error err => pure (some (.error (p.classifyError err key)))
        | .ok _ => rest

def purgeAllVersions (rounds : Nat) (key : String) : Api (Option (Except GoError Unit)) :=
  if key = "" then pure (some (.error (p.missing "key is required")))
  else p.purgePages key rounds none

end Provider
end KDrive.S3
