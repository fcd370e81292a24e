import KDrive.Blobio.Interface
import KDrive.Blobio.Parts

/-! The pipeline operations as programs over their requests: `Write`, `Read` with
the goroutine it starts, `Promote` and `Evict`, on every path a failing or
panicking call sends them. The parts of a multipart upload are sent one after
another here; `Multipart` is about the goroutines that send them. -/
namespace KDrive.Blobio
open Go Blobstore Hotcache Interaction

/-- A goroutine inside the pipeline; an exception is a panic that unwinds it. -/
abbrev Action := ExceptT String (Program pipeline)

def call (c : Call) : Action c.Result := ExceptT.mk do
  match ← (Program.request (I := pipeline) (.call c) : Program pipeline (Outcome c.Result)) with
  | .returned value => pure (.ok value)
  | .panicked message => pure (.error message)

/-- An access to the pipeline's own state, which does not panic. -/
def access (q : Request) : Action (Request.Reply q) :=
  ExceptT.lift (Program.request (I := pipeline) q)

/-- Run `work` up to its return or its panic, as a deferred `recover` sees it. -/
def recovered (work : Action α) : Action (Except String α) :=
  ExceptT.mk (do return .ok (← work.run))

structure Config where
  maxRestoreBytes : Int := 256 * 1024 * 1024
  multipartParallelism : Int := 4
  deriving DecidableEq

def promoteMultipartThreshold : Int := 100 * 1024 * 1024

section Restore

/-- What `restoreFromL2` makes of the store's answer. -/
def restoreBody (maxRestoreBytes : Int) (b : String) :
    Except GoError (Reader × ObjectMeta) → Except GoError (Bytes × ObjectMeta)
  | .error err => .error (.wrap "blobio: l2 get: %w" [] err)
  | .ok (r, info) =>
    match (r.capped maxRestoreBytes).readAll with
    | .error err => .error (.wrap "blobio: l2 read: %w" [] err)
    | .ok body =>
      if 0 < maxRestoreBytes ∧ maxRestoreBytes < body.length then
        .error (.errorf "blobio: l2 restore of %q exceeds max_restore_bytes %d"
          [.str b, .int maxRestoreBytes])
      else if info.checksumSHA256 = "" then
        .ok (body, { info with checksumSHA256 := checksumSHA256 body })
      else if checksumSHA256 body ≠ info.checksumSHA256 then
        .error (.wrap "blobio: %w: l2 checksum mismatch" [] errChecksumMismatch)
      else .ok (body, info)

/-- A restore that succeeds returns all bytes of the object, with their checksum,
unless its limit is the largest `int64`: then it returns none of them. -/
theorem restoreBody_ok {r : Reader} (range : IsInt64 maxRestoreBytes)
    (ok : restoreBody maxRestoreBytes b (.ok (r, info)) = .ok (body, info')) :
    body = (if maxRestoreBytes = maxInt64 then [] else r.data) ∧
      info' = { info with checksumSHA256 := checksumSHA256 body } ∧
      (info.checksumSHA256 = "" ∨ info.checksumSHA256 = checksumSHA256 body) := by
  simp only [restoreBody] at ok
  split at ok
  · contradiction
  · rename_i read readAll
    split at ok
    · contradiction
    · rename_i fits
      have bytes := Reader.capped_readAll range readAll fits
      split at ok
      · rename_i unknown
        cases ok
        exact ⟨bytes, rfl, .inl unknown⟩
      · split at ok
        · contradiction
        · rename_i verified
          cases ok
          have same := (not_not.mp verified).symm
          exact ⟨bytes, by rw [← same], .inr same⟩

/-- The leader's deferred functions after the recovery: close, then delete. -/
def land (table : Table) (b : String) (flight : Nat) : Action Unit := do
  access (.closeDone table flight)
  access (.delete table b)

def restoreFromL2 (cfg : Config) (ctx : Context) (b : String) :
    Action (Except GoError (Bytes × ObjectMeta)) := do
  match (← access (.join .restore b) : Joined) with
  | .waits flight =>
    match (← access (.await .restore ctx flight) : Except GoError Flight) with
    | .error err => return .error err
    | .ok record =>
      match record.err with
      | some err => return .error err
      | none => return .ok (record.body, record.info)
  | .leads flight =>
    match ← recovered (call (.storeGet ctx { key := b })) with
    | .error message =>
      access (.publish .restore flight
        (some (.errorf "blobio: panic in restoreFromL2: %v" [.str message])) [] {})
      land .restore b flight
      -- The results are unnamed, so a recovered panic leaves them zero: no error.
      return .ok ([], {})
    | .ok answer =>
      match restoreBody cfg.maxRestoreBytes b answer with
      | .error err =>
        access (.publish .restore flight (some err) [] {})
        land .restore b flight
        return .error err
      | .ok (body, info) =>
        access (.publish .restore flight none body info)
        land .restore b flight
        return .ok (body, info)

end Restore

section Promote

/-- `checkAlreadyDurable` on the answer of the HEAD. -/
def headMatches (status : BlobStatus) : Except GoError ObjectMeta → Bool
  | .error _ => false
  | .ok info => info.size = status.size ∧
      (info.checksumSHA256 = "" ∨ status.checksumSHA256 = "" ∨
        info.checksumSHA256 = status.checksumSHA256)

def promoteSingle (ctx : Context) (b : String) (r : Reader) (status : BlobStatus) :
    Action (Except GoError PutResult) := do
  let req : PutRequest := {
    key := b
    body := r
    expectedLength := status.size
    checksumSHA256 := status.checksumSHA256
    contentType := "application/octet-stream"
    retention := status.retention }
  match (← call (.storePut ctx req) : Except GoError (PutResult × Bytes)) with
  | .error err => return .error (.wrap "blobio: promote put: %w" [] err)
  | .ok (res, hashed) =>
    if status.checksumSHA256 ≠ "" ∧ checksumSHA256 hashed ≠ status.checksumSHA256 then
      return .error (.wrap "blobio: %w: promote checksum mismatch" [] errChecksumMismatch)
    else return .ok res

def uploadParts (ctx : Context) (upload : MultipartUpload) (partSize : Nat) (data : Bytes) :
    List Nat → Action (Except GoError (List CompletedPart))
  | [] => return .ok []
  | i :: rest => do
    let req : UploadPartRequest := ⟨upload, partNumber i, slice partSize data i⟩
    match (← call (.uploadPart ctx req) : Except GoError UploadedPart) with
    | .error err => return .error (.wrap "blobio: upload part %d: %w" [.int (partNumber i)] err)
    | .ok part =>
      match ← uploadParts ctx upload partSize data rest with
      | .error err => return .error err
      | .ok parts =>
        return .ok (⟨part.partNumber, part.checksumSHA256, part.size⟩ :: parts)

/-- What follows when all parts are uploaded and the reader came to its end. -/
def completeParts (ctx : Context) (upload : MultipartUpload) (data : Bytes) (status : BlobStatus)
    (parts : List CompletedPart) (missing : Option Int) : Action (Except GoError PutResult) := do
  match missing with
  | some n => return .error (.errorf "blobio: missing part %d result" [.int n])
  | none =>
    if checksumSHA256 data ≠ status.checksumSHA256 then
      return .error (.wrap "blobio: %w: multipart checksum mismatch" [] errChecksumMismatch)
    else
      match (← call (.completeMultipart ctx { upload, parts }) : Except GoError PutResult) with
      | .error err => return .error (.wrap "blobio: complete multipart: %w" [] err)
      | .ok res => return .ok res

/-- Everything between the creation of the upload and the deferred abort. -/
def sendParts (ctx : Context) (upload : MultipartUpload) (r : Reader) (status : BlobStatus) :
    Action (Except GoError PutResult) := do
  let whole := match r.failure with
    | none => partCount promotePartSize r.data.length
    | some _ => r.data.length / promotePartSize
  match ← uploadParts ctx upload promotePartSize r.data (List.range whole) with
  | .error err => return .error err
  | .ok parts =>
    match r.failure with
    | some err =>
      return .error (.wrap "blobio: multipart read part %d: %w" [.int (partNumber whole)] err)
    | none => completeParts ctx upload r.data status parts (missingPart whole)

def promoteMultipart (ctx : Context) (b : String) (r : Reader) (status : BlobStatus) :
    Action (Except GoError PutResult) := do
  let req : MultipartRequest :=
    { key := b, contentType := "application/octet-stream", retention := status.retention }
  match (← call (.createMultipart ctx req) : Except GoError MultipartUpload) with
  | .error err => return .error (.wrap "blobio: create multipart: %w" [] err)
  | .ok upload =>
    match ← recovered (sendParts ctx upload r status) with
    | .ok (.ok res) => return .ok res
    | .ok (.error err) =>
      let _ ← call (.abortMultipart upload)
      return .error err
    | .error message =>
      let _ ← call (.abortMultipart upload)
      throw message

/-- The entry is written again without its protection; failures are only logged. The status
is the row as it was looked up, by value, as `PostgresStatusStore` returns it: the one that
`MemoryStatusStore` returns is its own, which `MarkDurable` has changed by now. -/
def clearProtection (ctx : Context) (b : String) (status : BlobStatus) : Action Unit := do
  match (← call (.cacheGet ctx b) : Except GoError (Reader × Metadata)) with
  | .error _ => return ()
  | .ok (cacheBody, _) =>
    let _ ← call (.cachePut ctx b cacheBody
      { sizeBytes := status.size, hash := utf8 status.checksumSHA256, nonEvictable := false })
    return ()

/-- Single PUT or multipart, by size. -/
def sendBody (ctx : Context) (b : String) (r : Reader) (status : BlobStatus) :
    Action (Except GoError PutResult) :=
  if promoteMultipartThreshold < status.size then promoteMultipart ctx b r status
  else promoteSingle ctx b r status

/-- The upload of a blob whose HEAD did not match. -/
def upload (ctx : Context) (b : String) (status : BlobStatus) : Action (Option GoError) := do
  match (← call (.cacheGet ctx b) : Except GoError (Reader × Metadata)) with
  | .error err => return some (.wrap "blobio: promote cache get: %w" [] err)
  | .ok (r, _) =>
    match ← sendBody ctx b r status with
    | .error err => return some err
    | .ok res =>
      match (← call (.markDurable ctx b res.versionID res.size res.checksumSHA256 res.writeTime) :
        Option GoError) with
      | some err => return some (.wrap "blobio: mark durable after promote: %w" [] err)
      | none =>
        clearProtection ctx b status
        return none

def promoteLocked (ctx : Context) (b : String) : Action (Option GoError) := do
  match (← call (.statusGet ctx b) : Except GoError (Option BlobStatus)) with
  | .error err => return some (.wrap "blobio: status get: %w" [] err)
  | .ok none => return some (.wrap "blobio: %w: blob %q not in status store" [.str b] errNotFound)
  | .ok (some status) =>
    if status.commitState = .durable then return none
    else if headMatches status (← call (.storeHead ctx ⟨b⟩)) then
      let now ← access .now
      match (← call (.markDurable ctx b status.versionID status.size status.checksumSHA256 now) :
        Option GoError) with
      | some err => return some (.wrap "blobio: mark durable after HEAD skip: %w" [] err)
      | none => return none
    else upload ctx b status

def promote (ctx : Context) (b : String) : Action (Option GoError) := do
  match (← access (.join .promote b) : Joined) with
  | .waits flight =>
    match (← access (.await .promote ctx flight) : Except GoError Flight) with
    | .error err => return some err
    | .ok record => return record.err
  | .leads flight =>
    match ← recovered (promoteLocked ctx b) with
    | .error message =>
      access (.publish .promote flight
        (some (.errorf "blobio: panic in Promote: %v" [.str message])) [] {})
      land .promote b flight
      -- As in `restoreFromL2`, the leader itself returns the zero value.
      return none
    | .ok err =>
      access (.publish .promote flight err [] {})
      land .promote b flight
      return err

end Promote

def write (ctx : Context) (b : String) (body : Bytes) (opts : WriteOptions) :
    Action (Except GoError WriteResult) := do
  if b = "" then return .error (.new "blobio: blob_id is required")
  let checksum := checksumSHA256 body
  match (← call (.cachePut ctx b ⟨body, none⟩
      { sizeBytes := body.length, hash := utf8 checksum, pinHot := opts.pinHot, nonEvictable := true }) :
    Option GoError) with
  | some err => return .error (.wrap "blobio: cache put: %w" [] err)
  | none =>
    let now ← access .now
    let status : BlobStatus := {
      blobID := b
      commitState := .cached
      size := body.length
      checksumSHA256 := checksum
      cachedAt := now
      fileID := opts.fileID
      tenantID := opts.tenantID
      retention := opts.retention }
    match (← call (.statusPut ctx status) : Option GoError) with
    | some err => return .error (.wrap "blobio: status put: %w" [] err)
    | none =>
      if opts.promoteSync then
        match ← promote ctx b with
        | some err => return .error (.wrap "blobio: sync promote: %w" [] err)
        | none => return .ok ⟨b, .durable, body.length, checksum⟩
      else return .ok ⟨b, .cached, body.length, checksum⟩

/-- The body of the goroutine a Read starts. -/
def fillCache (fill : Fill) : Action Unit := do
  match (← access .lifecycleErr : Option GoError) with
  | some _ => return ()
  | none =>
    let _ ← call (.cachePut .lifecycle fill.blobID ⟨fill.body, none⟩
      { sizeBytes := fill.info.size, hash := utf8 fill.info.checksumSHA256, nonEvictable := false })
    let _ ← call (.statusPut .lifecycle {
      blobID := fill.blobID
      commitState := .durable
      size := fill.info.size
      checksumSHA256 := fill.info.checksumSHA256
      versionID := fill.info.versionID
      durableAt := fill.info.writeTime
      retention := ⟨fill.info.retention.mode, fill.info.retention.retainUntil,
        fill.info.retention.legalHold⟩ })
    return ()

def read (cfg : Config) (ctx : Context) (b : String) : Action (Except GoError ReadResult) := do
  if b = "" then return .error (.new "blobio: blob_id is required")
  match (← call (.cacheGet ctx b) : Except GoError (Reader × Metadata)) with
  | .ok (r, _) =>
    -- The error of the status lookup is dropped.
    match (← call (.statusGet ctx b) : Except GoError (Option BlobStatus)) with
    | .ok (some status) =>
      return .ok {
        body := r
        size := status.size
        checksumSHA256 := status.checksumSHA256
        versionID := status.versionID
        fromCache := true }
    | _ => return .ok { body := r, fromCache := true }
  | .error err =>
    if err.is errCacheMiss then
      match ← restoreFromL2 cfg ctx b with
      | .error err => return .error err
      | .ok (body, info) =>
        access (.go ⟨b, body, info⟩)
        return .ok {
          body := ⟨body, none⟩
          size := info.size
          checksumSHA256 := info.checksumSHA256
          versionID := info.versionID
          fromCache := false }
    else return .error (.wrap "blobio: cache get: %w" [] err)

def evict (ctx : Context) (b : String) : Action (Option GoError) := do
  -- As in `read`, a failed lookup is taken for a missing row.
  match (← call (.statusGet ctx b) : Except GoError (Option BlobStatus)) with
  | .ok (some status) =>
    if status.commitState ≠ .durable then
      return some (.errorf "blobio: cannot evict blob %q: not yet durable" [.str b])
    else call (.cacheEvict ctx b)
  | _ => call (.cacheEvict ctx b)

inductive Operation where
  | write (ctx : Context) (b : String) (body : Bytes) (opts : WriteOptions)
  | read (ctx : Context) (b : String)
  | promote (ctx : Context) (b : String)
  | evict (ctx : Context) (b : String)
  | fill (fill : Fill)
  deriving DecidableEq

def Operation.context : Operation → Context
  | .write ctx .. | .read ctx _ | .promote ctx _ | .evict ctx _ => ctx
  | .fill _ => .lifecycle

inductive Answer where
  | wrote (result : Except GoError WriteResult)
  | read (result : Except GoError ReadResult)
  | promoted (err : Option GoError)
  | evicted (err : Option GoError)
  | filled

def Operation.body (cfg : Config) : Operation → Action Answer
  | .write ctx b body opts => return .wrote (← Blobio.write ctx b body opts)
  | .read ctx b => return .read (← Blobio.read cfg ctx b)
  | .promote ctx b => return .promoted (← Blobio.promote ctx b)
  | .evict ctx b => return .evicted (← Blobio.evict ctx b)
  | .fill task => do
    fillCache task
    return .filled

end KDrive.Blobio
