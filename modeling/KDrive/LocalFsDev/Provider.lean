import KDrive.Blobstore.Types
import KDrive.Filesystem.Calls

/-! The `local_fs_dev` provider as programs over the calls it makes on its files. A file
holds the bytes of a body or of a part, or a JSON text, which is kept as the value it is
the text of. The wall clock and the counter behind a version ID are asked for, as the
clock is. -/
namespace KDrive.LocalFsDev
open Go Blobstore Filesystem Interaction

/-- Its key and its other texts are valid UTF-8, which JSON gives back as it was written
(`Go.jsonText_utf8`); of any other key the sidecar would hold another text. -/
structure Sidecar where
  key : String := ""
  versionID : String := ""
  sizeBytes : Int := 0
  checksumSHA256 : String := ""
  contentType : String := ""
  versioningState : BucketVersioningState := .unset
  retention : RetentionState := {}
  writeTime : Time := 0
  isDeleteMarker : Bool := false
  deriving DecidableEq

structure MultipartMeta where
  key : String := ""
  uploadID : String := ""
  contentType : String := ""
  checksumSHA256 : String := ""
  retention : RetentionSpec := {}
  startedAt : Time := 0
  deriving DecidableEq

inductive Content where
  | bytes (data : Bytes)
  | sidecar (sc : Sidecar)
  | upload (mp : MultipartMeta)
  deriving DecidableEq

namespace Content

/-- What a reader of the file gets; no body and no part is a JSON text. -/
def raw : Content → Bytes
  | .bytes data => data
  | _ => []

instance : Contents Content where
  empty := .bytes []
  append
    | .bytes first, .bytes second => .bytes (first ++ second)
    | _, second => second

def notJSON : GoError := .new "invalid character in JSON text"

/-- `json.Unmarshal` into a `sidecar`: fields of another text are taken by their names. -/
def asSidecar : Content → Except GoError Sidecar
  | .sidecar sc => .ok sc
  | .upload mp => .ok {
      key := mp.key
      contentType := mp.contentType
      checksumSHA256 := mp.checksumSHA256
      retention := ⟨mp.retention.mode, mp.retention.retainUntil, mp.retention.legalHold⟩ }
  | .bytes _ => .error notJSON

/-- `json.Unmarshal` into a `multipartMeta`. -/
def asUpload : Content → Except GoError MultipartMeta
  | .upload mp => .ok mp
  | .sidecar sc => .ok {
      key := sc.key
      contentType := sc.contentType
      checksumSHA256 := sc.checksumSHA256
      retention := ⟨sc.retention.mode, sc.retention.retainUntil, sc.retention.legalHold⟩ }
  | .bytes _ => .error notJSON

end Content

def undatedError : GoError :=
  .wrap "json: error calling MarshalJSON for type %s: %w" [.str "time.Time"]
    (.new "Time.MarshalJSON: year outside of range [0,9999]")

def Sidecar.marshal (sc : Sidecar) : Except GoError Content :=
  if dated sc.retention.retainUntil ∧ dated sc.writeTime then .ok (.sidecar sc)
  else .error undatedError

def MultipartMeta.marshal (mp : MultipartMeta) : Except GoError Content :=
  if dated mp.retention.retainUntil ∧ dated mp.startedAt then .ok (.upload mp)
  else .error undatedError

inductive Request where
  | os (c : Call Content)
  | now
  | newVersionID

/-- The reply of `newVersionID` is the time in nanoseconds and the counter. -/
def Request.Reply : Request → Type
  | .os c => Except Errno c.Result
  | .now => Time
  | .newVersionID => Nat × Nat

def host : Interface := ⟨Request, Request.Reply⟩

/-- An operation that may return early with an error. -/
abbrev Action := ExceptT GoError (Program host)

def errNotExist : GoError := .new "file does not exist"

def osError : Errno → GoError
  | .notExist => errNotExist
  | .notDir => .new "not a directory"
  | .isDir => .new "is a directory"
  | .notEmpty => .new "directory not empty"
  | .failed reason => .new reason

def ask (q : Request) : Action q.Reply := ExceptT.lift (Program.request (I := host) q)

def os (c : Call Content) : Action (Except Errno c.Result) := ask (.os c)

/-- Return early if the call fails. -/
def attempt (c : Call Content) (wrapped : GoError → GoError) : Action c.Result := do
  match ← os c with
  | .ok value => pure value
  | .error err => throw (wrapped (osError err))

def check : Option GoError → Action Unit
  | none => pure ()
  | some err => throw err

/-- The deferred removal of a temporary file. -/
def removing (tmp : Path) (body : Action α) : Action α := ExceptT.mk do
  let result ← body.run
  let _ ← (os (.remove tmp)).run
  pure result

section Names

def zeros (width : Nat) (digits : List Char) : List Char :=
  List.replicate (width - digits.length) '0' ++ digits

/-- `%016x-%08x`. -/
def versionText (nano seq : Nat) : String :=
  String.ofList (zeros 16 (Nat.toDigits 16 nano) ++ '-' :: zeros 8 (Nat.toDigits 16 seq))

/-- `part-%05d`. -/
def partName (n : Int) : String :=
  "part-" ++ String.ofList (if n < 0 then '-' :: zeros 4 (Nat.toDigits 10 n.natAbs)
    else zeros 5 (Nat.toDigits 10 n.natAbs))

def render (path : Path) : String := "/" ++ "/".intercalate path

/-- `path + ".tmp"`. -/
def tmpOf (path : Path) : Path := path.dropLast ++ [path.getLastD "" ++ ".tmp"]

def hasSuffix (name suf : String) : Bool := suf.toList.isSuffixOf name.toList

def hasPrefix (name start : String) : Bool := start.toList.isPrefixOf name.toList

end Names

def newVersionID : Action String := do
  let (nano, seq) ← (ask .newVersionID : Action (Nat × Nat))
  pure (versionText nano seq)

def clock : Action Time := ask .now

def validateKey (key : String) : Option GoError :=
  if key = "" then some (.new "local_fs_dev: key is required")
  else if key.toList.contains '\\' then
    some (.errorf "local_fs_dev: key %q must not contain backslashes" [.str key])
  else if key.toList.contains '\x00' then
    some (.errorf "local_fs_dev: key %q must not contain NUL bytes" [.str key])
  else
    match (components key).find? fun seg => ¬ Proper seg with
    | some "" => some (.errorf "local_fs_dev: key %q must not contain empty path segments" [.str key])
    | some _ =>
      some (.errorf "local_fs_dev: key %q must not contain relative path components" [.str key])
    | none =>
      if key = "_multipart" then some (.errorf "local_fs_dev: key %q is reserved" [.str key])
      else none

def sidecarToMeta (sc : Sidecar) : ObjectMeta where
  key := sc.key
  versionID := sc.versionID
  versioningState := sc.versioningState
  size := sc.sizeBytes
  checksumSHA256 := sc.checksumSHA256
  retention := sc.retention
  writeTime := sc.writeTime

def effectiveRetentionMode (spec : RetentionSpec) : RetentionMode :=
  if spec.mode = .unset then .none else spec.mode

/-- The retention a new version gets. -/
def effectiveRetention (spec : RetentionSpec) : RetentionState where
  mode := effectiveRetentionMode spec
  retainUntil := if spec.mode ≠ .none ∧ spec.retainUntil ≠ 0 then spec.retainUntil else 0
  legalHold := spec.legalHold

def versioningText : BucketVersioningState → String
  | .unset => ""
  | .neverEnabled => "NEVER_ENABLED"
  | .enabled => "ENABLED"
  | .suspendedVersionAware => "SUSPENDED_VERSION_AWARE"

def computeWriteResultHash (key versionID : String) (state : BucketVersioningState) (size : Int)
    (sum : String) : String :=
  checksumSHA256 (utf8 ("\x00".intercalate
    ["local_fs_dev/v1", key, versionID, versioningText state, toString size, sum]))

def putResult (sc : Sidecar) : PutResult where
  key := sc.key
  versionID := sc.versionID
  versioningState := .enabled
  retention := sc.retention
  writeTime := sc.writeTime
  size := sc.sizeBytes
  checksumSHA256 := sc.checksumSHA256
  writeResultHash :=
    computeWriteResultHash sc.key sc.versionID .enabled sc.sizeBytes sc.checksumSHA256

/-- `sort.Slice` by write time may leave equal times in any order. -/
structure Provider where
  root : Path
  sortVersions : List Sidecar → List Sidecar
  sorts : ∀ versions, (sortVersions versions).Perm versions ∧
    (sortVersions versions).Pairwise fun first second => first.writeTime ≤ second.writeTime

def latestVersion (versions : List Sidecar) : Option Sidecar := versions.getLast?

def latestNonDeleteMarker (versions : List Sidecar) : Option Sidecar :=
  versions.reverse.find? fun sc => !sc.isDeleteMarker

/-- What `readJSON` reads from a file. -/
def readJSON (path : Path) (parse : Content → Except GoError α) : Action (Except GoError α) := do
  match ← os (.readFile path) with
  | .error err => pure (.error (osError err))
  | .ok content => pure (parse content)

def writeJSON (path : Path) (marshalled : Except GoError Content) : Action Unit := do
  match marshalled with
  | .error err => throw (.wrap "local_fs_dev: marshal: %w" [] err)
  | .ok body =>
    attempt (.writeFile (tmpOf path) body)
      (.wrap "local_fs_dev: write %q: %w" [.str (render path)])
    match ← os (.rename (tmpOf path) path) with
    | .ok _ => pure ()
    | .error err => do
      let _ ← os (.remove (tmpOf path))
      throw (.wrap "local_fs_dev: publish %q: %w" [.str (render path)] (osError err))

/-- `io.Copy` to an open file: what the reader has before it ends or fails. -/
def copyTo (path : Path) (r : Reader) (wrapped : GoError → GoError) : Action Unit := do
  attempt (.write path (.bytes r.data)) wrapped
  check (r.failure.map wrapped)

namespace Provider
variable (p : Provider)

def versionsDir (key : String) : Path := join p.root [key]

def versionBodyPath (key versionID : String) : Path :=
  join (p.versionsDir key) [versionID ++ ".bin"]

def versionMetaPath (key versionID : String) : Path :=
  join (p.versionsDir key) [versionID ++ ".json"]

def multipartDir (key uploadID : String) : Path := join p.root ["_multipart", key, uploadID]

def notFound (key : String) : GoError := .wrap "local_fs_dev: %w: key %q" [.str key] errNotFound

def unknownUpload (uploadID : String) : GoError :=
  .wrap "local_fs_dev: %w: upload %q" [.str uploadID] errNotFound

def hasAnyVersionLocked (key : String) : Action Bool := do
  match ← os (.readDir (p.versionsDir key)) with
  | .error _ => pure false
  | .ok (entries : List (String × Bool)) => pure (entries.any fun entry => hasSuffix entry.1 ".json")

/-- The loop over the entries of a versions directory. -/
def loadSidecars (dir : Path) : List (String × Bool) → Action (List Sidecar)
  | [] => pure []
  | (name, _) :: rest =>
    if hasSuffix name ".json" then do
      match ← readJSON (join dir [name]) Content.asSidecar with
      | .error _ => loadSidecars dir rest
      | .ok sc => return sc :: (← loadSidecars dir rest)
    else loadSidecars dir rest

def listVersionsLocked (key : String) : Action (List Sidecar) := do
  match ← os (.readDir (p.versionsDir key)) with
  | .error .notExist => pure []
  | .error err =>
    throw (.wrap "local_fs_dev: read versions %q: %w" [.str key] (osError err))
  | .ok entries => return p.sortVersions (← loadSidecars (p.versionsDir key) entries)

def readSidecar (key versionID : String) : Action Sidecar := do
  match ← readJSON (p.versionMetaPath key versionID) Content.asSidecar with
  | .ok sc => pure sc
  | .error err =>
    if err.is errNotExist then
      throw (.wrap "local_fs_dev: %w: key %q version %q" [.str key, .str versionID] errNotFound)
    else throw err

/-- The end of every write: the body takes its place, and the sidecar is written next to
it. The time is read in between. -/
def publish (tmp : Path) (sc : Sidecar) (finalize : GoError → GoError) : Action PutResult := do
  attempt (.rename tmp (p.versionBodyPath sc.key sc.versionID)) finalize
  let now ← clock
  let sc := { sc with writeTime := now }
  tryCatch (writeJSON (p.versionMetaPath sc.key sc.versionID) sc.marshal) fun err => do
    let _ ← os (.remove (p.versionBodyPath sc.key sc.versionID))
    throw err
  pure (putResult sc)

/-- The sidecar of a new version, before its time is known. -/
def newSidecar (key versionID : String) (data : Bytes) (contentType : String)
    (retention : RetentionSpec) : Sidecar where
  key := key
  versionID := versionID
  sizeBytes := data.length
  checksumSHA256 := checksumSHA256 data
  contentType := contentType
  versioningState := .enabled
  retention := effectiveRetention retention

def checksumMismatch (sum want : String) : GoError :=
  .wrap "local_fs_dev: %w: got %s want %s" [.str sum, .str want] errChecksumMismatch

/-- A new version is written to a temporary file in the directory of its key. -/
def newVersion (key : String) (mkdirFails tempFails : GoError → GoError)
    (fill : String → Path → Action α) : Action α := do
  attempt (.mkdirAll (p.versionsDir key)) mkdirFails
  let versionID ← newVersionID
  let tmp ← attempt (.createTemp (p.versionsDir key) ".tmp-") tempFails
  removing tmp (fill versionID tmp)

/-- The conditional write. -/
def refuseExisting (req : PutRequest) : Action Unit :=
  if req.ifNoneMatch then do
    if ← p.hasAnyVersionLocked req.key then
      throw (.wrap "local_fs_dev: %w: key %q already exists" [.str req.key] errPreconditionFailed)
    else pure ()
  else pure ()

/-- What is wrong with the body that was received. -/
def bodyMismatch (req : PutRequest) : Option GoError :=
  let n : Int := req.body.data.length
  let sum := checksumSHA256 req.body.data
  if 0 < req.expectedLength ∧ n ≠ req.expectedLength then
    some (.wrap "local_fs_dev: %w: wrote %d want %d" [.int n, .int req.expectedLength]
      errChecksumMismatch)
  else if req.checksumSHA256 ≠ "" ∧ req.checksumSHA256 ≠ sum then
    some (checksumMismatch sum req.checksumSHA256)
  else none

def put (req : PutRequest) : Action PutResult := do
  check (validateKey req.key)
  p.refuseExisting req
  p.newVersion req.key (.wrap "local_fs_dev: mkdir %q: %w" [.str req.key])
    (.wrap "local_fs_dev: create temp: %w" []) fun versionID tmp => do
      copyTo tmp req.body (.wrap "local_fs_dev: write %q: %w" [.str req.key])
      attempt (.close tmp) (.wrap "local_fs_dev: close %q: %w" [.str req.key])
      check (bodyMismatch req)
      p.publish tmp (newSidecar req.key versionID req.body.data req.contentType req.retention)
        (.wrap "local_fs_dev: finalize %q: %w" [.str req.key])

/-- The current version of a key. -/
def current (key : String) : Action Sidecar := do
  let versions ← p.listVersionsLocked key
  match latestVersion versions with
  | none => throw (notFound key)
  | some sc => if sc.isDeleteMarker then throw (notFound key) else pure sc

def head (ref : ObjectRef) : Action ObjectMeta := do
  check (validateKey ref.key)
  return sidecarToMeta (← p.current ref.key)

/-- Reading a directory fails. -/
def reader : Node Content → Reader
  | .file content => ⟨content.raw, none⟩
  | .dir => ⟨[], some (osError .isDir)⟩

/-- The part of a body that was asked for. -/
def ranged (key : String) (body : Reader) : Option (Int × Int) → Except GoError Reader
  | none => .ok body
  | some (start, stop) =>
    let size : Int := body.data.length
    let last := if stop < 0 ∨ size ≤ stop then size - 1 else stop
    if start < 0 ∨ last < start then
      .error (.errorf "local_fs_dev: invalid range [%d,%d] for %q size %d"
        [.int start, .int stop, .str key, .int size])
    else
      let rest : Reader := { body with data := body.data.drop start.toNat }
      .ok (rest.limit (last - start + 1))

/-- The version that is read. -/
def chosen (ref : VersionedObjectRef) : Action Sidecar :=
  if ref.versionID ≠ "" then p.readSidecar ref.key ref.versionID else p.current ref.key

def get (ref : VersionedObjectRef) (range : Option (Int × Int)) : Action (Reader × ObjectMeta) := do
  check (validateKey ref.key)
  let sc ← p.chosen ref
  match ← os (.openFile (p.versionBodyPath sc.key sc.versionID)) with
  | .error .notExist => throw (notFound ref.key)
  | .error err => throw (.wrap "local_fs_dev: open %q: %w" [.str ref.key] (osError err))
  | .ok node =>
    match ranged ref.key (reader node) range with
    | .error err => throw err
    | .ok body => pure (body, sidecarToMeta sc)

def delete (ref : ObjectRef) : Action Unit := do
  check (validateKey ref.key)
  if ← p.hasAnyVersionLocked ref.key then
    let versionID ← newVersionID
    let now ← clock
    let sc : Sidecar := {
      key := ref.key
      versionID := versionID
      versioningState := .enabled
      isDeleteMarker := true
      writeTime := now }
    writeJSON (p.versionMetaPath ref.key versionID) sc.marshal
  else throw (notFound ref.key)

def purgeAllVersions (ref : ObjectRef) : Action Unit := do
  check (validateKey ref.key)
  match ← os (.stat (p.versionsDir ref.key)) with
  | .error .notExist => pure ()
  | .error err => throw (.wrap "local_fs_dev: stat %q: %w" [.str ref.key] (osError err))
  | .ok _ =>
    attempt (.removeAll (p.versionsDir ref.key))
      (.wrap "local_fs_dev: purge %q: %w" [.str ref.key])

def createMultipart (req : MultipartRequest) : Action MultipartUpload := do
  check (validateKey req.key)
  let uploadID ← newVersionID
  let dir := p.multipartDir req.key uploadID
  attempt (.mkdirAll dir) (.wrap "local_fs_dev: mkdir multipart: %w" [])
  let now ← clock
  let mp : MultipartMeta := {
    key := req.key
    uploadID := uploadID
    contentType := req.contentType
    checksumSHA256 := req.checksumSHA256
    retention := req.retention
    startedAt := now }
  tryCatch (writeJSON (join dir ["upload.json"]) mp.marshal) fun err => do
    let _ ← os (.removeAll dir)
    throw err
  pure ⟨req.key, uploadID⟩

def signUploadPart (upload : MultipartUpload) (partNumber : Int) : Action (String × Time) := do
  let dir := p.multipartDir upload.key upload.uploadID
  let _ ← attempt (.stat dir) fun _ => unknownUpload upload.uploadID
  let now ← clock
  pure ("file://" ++ render (join dir [partName partNumber]), now + 15 * 60 * 10 ^ 9)

def uploadPart (upload : MultipartUpload) (partNumber : Int) (body : Reader) :
    Action UploadedPart := do
  check (validateKey upload.key)
  if partNumber < 1 then throw (.new "local_fs_dev: part number must be >= 1")
  let dir := p.multipartDir upload.key upload.uploadID
  let _ ← attempt (.stat dir) fun _ => unknownUpload upload.uploadID
  let partPath := join dir [partName partNumber]
  attempt (.create partPath) (.wrap "local_fs_dev: create part: %w" [])
  copyTo partPath body (.wrap "local_fs_dev: write part: %w" [])
  pure ⟨partNumber, checksumSHA256 body.data, body.data.length⟩

/-- The loop over the listed parts: each is copied behind the ones before it. -/
def copyParts (dir out : Path) : List CompletedPart → Action Bytes
  | [] => pure []
  | part :: rest => do
    let node : Node Content ← attempt (.openFile (join dir [partName part.partNumber]))
      (.wrap "local_fs_dev: open part: %w" [])
    copyTo out (reader node) (.wrap "local_fs_dev: copy part: %w" [])
    return (reader node).data ++ (← copyParts dir out rest)

/-- What is wrong with the parts that were put together. -/
def partsMismatch (mp : MultipartMeta) (data : Bytes) : Option GoError :=
  let sum := checksumSHA256 data
  if mp.checksumSHA256 ≠ "" ∧ mp.checksumSHA256 ≠ sum then
    some (checksumMismatch sum mp.checksumSHA256)
  else none

def completeMultipart (req : CompleteRequest) : Action PutResult := do
  let key := req.upload.key
  check (validateKey key)
  let dir := p.multipartDir key req.upload.uploadID
  match ← readJSON (join dir ["upload.json"]) Content.asUpload with
  | .error _ => throw (unknownUpload req.upload.uploadID)
  | .ok mp =>
    p.newVersion key (.wrap "local_fs_dev: mkdir versions: %w" [])
      (.wrap "local_fs_dev: temp: %w" []) fun versionID out => do
        let data ← copyParts dir out req.parts
        attempt (.close out) (.wrap "local_fs_dev: close: %w" [])
        check (partsMismatch mp data)
        let result ← p.publish out (newSidecar key versionID data mp.contentType req.retention)
          (.wrap "local_fs_dev: finalize: %w" [])
        let _ ← os (.removeAll dir)
        pure result

def abortMultipart (upload : MultipartUpload) : Action Unit := do
  check (validateKey upload.key)
  attempt (.removeAll (p.multipartDir upload.key upload.uploadID))
    (.wrap "local_fs_dev: abort multipart: %w" [])

/-- The version a copy is made of. -/
def source (src : VersionedObjectRef) : Action Sidecar :=
  if src.versionID ≠ "" then p.readSidecar src.key src.versionID else do
    let versions ← p.listVersionsLocked src.key
    match latestNonDeleteMarker versions with
    | some sc => pure sc
    | none => throw (.wrap "local_fs_dev: %w: src %q" [.str src.key] errNotFound)

def copyMismatch (srcSC : Sidecar) (data : Bytes) : Option GoError :=
  if checksumSHA256 data ≠ srcSC.checksumSHA256 then
    some (.wrap "local_fs_dev: %w: copy checksum" [] errChecksumMismatch)
  else none

def copyWithinProvider (src : VersionedObjectRef) (dstKey : String) (retention : RetentionSpec) :
    Action PutResult := do
  check (validateKey src.key)
  check (validateKey dstKey)
  let srcSC ← p.source src
  let srcBody : Node Content ← attempt (.openFile (p.versionBodyPath srcSC.key srcSC.versionID))
    (.wrap "local_fs_dev: open src: %w" [])
  p.newVersion dstKey (.wrap "local_fs_dev: mkdir dst: %w" [])
    (.wrap "local_fs_dev: temp: %w" []) fun versionID tmp => do
      copyTo tmp (reader srcBody) (.wrap "local_fs_dev: copy: %w" [])
      attempt (.close tmp) (.wrap "local_fs_dev: close: %w" [])
      check (copyMismatch srcSC (reader srcBody).data)
      p.publish tmp (newSidecar dstKey versionID (reader srcBody).data srcSC.contentType retention)
        (.wrap "local_fs_dev: finalize copy: %w" [])

def getRetention (ref : VersionedObjectRef) : Action RetentionState := do
  check (validateKey ref.key)
  return (← p.readSidecar ref.key ref.versionID).retention

/-- A request is `RetentionUpdate` without the version it is for. -/
structure RetentionChange where
  mode : RetentionMode
  retainUntil : Time
  clearRetention : Bool
  deriving DecidableEq

/-- The date is to be moved back. -/
def shortens (held : RetentionState) (change : RetentionChange) : Bool :=
  change.retainUntil ≠ 0 ∧ held.retainUntil ≠ 0 ∧ change.retainUntil < held.retainUntil

def laterDate (held : RetentionState) (change : RetentionChange) : Time :=
  if change.retainUntil ≠ 0 then change.retainUntil else held.retainUntil

def retentionConflict (reason : String) : GoError :=
  .wrap ("local_fs_dev: %w: " ++ reason) [] errRetentionConflict

/-- What `UpdateRetention` makes of the retention it found. -/
def updatedRetention (held : RetentionState) (change : RetentionChange) :
    Except GoError RetentionState :=
  if held.mode = .compliance then
    if change.clearRetention then .error (retentionConflict "compliance lock cannot be cleared")
    else if shortens held change then
      .error (retentionConflict "compliance retain-until cannot be shortened")
    else if change.mode ≠ .none ∧ change.mode ≠ .compliance then
      .error (retentionConflict "compliance mode cannot be downgraded")
    else .ok { held with retainUntil := laterDate held change }
  else if change.clearRetention then .ok { mode := .none }
  else if shortens held change then .error (retentionConflict "cannot shorten retention")
  else .ok { held with
    mode := if change.mode ≠ .none then change.mode else held.mode
    retainUntil := laterDate held change }

def updateRetention (ref : VersionedObjectRef) (change : RetentionChange) :
    Action RetentionState := do
  check (validateKey ref.key)
  let sc ← p.readSidecar ref.key ref.versionID
  match updatedRetention sc.retention change with
  | .error err => throw err
  | .ok retention =>
    writeJSON (p.versionMetaPath ref.key ref.versionID) { sc with retention }.marshal
    pure retention

def setLegalHold (ref : VersionedObjectRef) (enabled : Bool) : Action RetentionState := do
  check (validateKey ref.key)
  let sc ← p.readSidecar ref.key ref.versionID
  let retention := { sc.retention with legalHold := enabled }
  writeJSON (p.versionMetaPath ref.key ref.versionID) { sc with retention }.marshal
  pure retention

structure ObjectPage where
  objects : List ObjectMeta
  nextCursor : String := ""
  isTruncated : Bool := false
  deriving DecidableEq

structure UploadPage where
  uploads : List MultipartUpload
  nextCursor : String := ""
  deriving DecidableEq

/-- The loop of `ListObjects` over the directories below the root. -/
def listed (start cursor : String) : List (String × Bool) → Action (List ObjectMeta)
  | [] => pure []
  | (key, isDir) :: rest =>
    if !isDir ∨ (start ≠ "" ∧ !hasPrefix key start) ∨ (cursor ≠ "" ∧ key ≤ cursor) then
      listed start cursor rest
    else do
      let versions ← tryCatch (p.listVersionsLocked key) fun _ => pure []
      match latestNonDeleteMarker versions with
      | none => listed start cursor rest
      | some sc => return sidecarToMeta sc :: (← listed start cursor rest)

def pageSize (maxKeys : Int) : Nat :=
  if maxKeys ≤ 0 ∨ 1000 < maxKeys then 1000 else maxKeys.toNat

/-- The objects in the order of their keys, up to the size of a page. -/
def objectPage (metas : List ObjectMeta) (maxKeys : Int) : ObjectPage :=
  let metas := metas.insertionSort fun first second => first.key ≤ second.key
  let page := metas.take (pageSize maxKeys)
  if page.length < metas.length then ⟨page, (page.getLast?.map ObjectMeta.key).getD "", true⟩
  else ⟨page, "", false⟩

def listObjects (start cursor : String) (maxKeys : Int) : Action ObjectPage := do
  let entries ← attempt (.readDir p.root) (.wrap "local_fs_dev: list root: %w" [])
  return objectPage (← p.listed start cursor entries) maxKeys

def listObjectVersions (key : String) : Action (List ObjectMeta) := do
  check (validateKey key)
  return (← p.listVersionsLocked key).map sidecarToMeta

/-- A file that is not there is as good as removed. -/
def removeExisting (path : Path) (wrapped : GoError → GoError) : Action Unit := do
  match ← os (.remove path) with
  | .ok _ | .error .notExist => pure ()
  | .error err => throw (wrapped (osError err))

def deleteVersion (ref : VersionedObjectRef) : Action Unit := do
  check (validateKey ref.key)
  removeExisting (p.versionMetaPath ref.key ref.versionID)
    (.wrap "local_fs_dev: delete version meta: %w" [])
  removeExisting (p.versionBodyPath ref.key ref.versionID)
    (.wrap "local_fs_dev: delete version body: %w" [])

/-- The outcome for every reference. -/
def deleteBatch : List VersionedObjectRef → Action (List (VersionedObjectRef × Option GoError))
  | [] => pure []
  | ref :: rest => do
    let failure ← tryCatch (do p.deleteVersion ref; pure none) fun err => pure (some err)
    return (ref, failure) :: (← deleteBatch rest)

/-- The uploads of the keys that are directories, each with the directories below it. -/
def uploadsIn (start : String) : List (String × Bool) → Action (List MultipartUpload)
  | [] => pure []
  | (key, isDir) :: rest =>
    if !isDir ∨ (start ≠ "" ∧ !hasPrefix key start) then uploadsIn start rest
    else do
      match ← os (.readDir (join p.root ["_multipart", key])) with
      | .error _ => uploadsIn start rest
      | .ok (entries : List (String × Bool)) =>
        let found := (entries.filter fun entry => entry.2).map fun entry => ⟨key, entry.1⟩
        return found ++ (← uploadsIn start rest)

def uploadCursor (upload : MultipartUpload) : String := upload.key ++ "/" ++ upload.uploadID

def uploadPage (uploads : List MultipartUpload) (cursor : String) (maxKeys : Int) : UploadPage :=
  let uploads := uploads.insertionSort fun first second =>
    first.key < second.key ∨ first.key = second.key ∧ first.uploadID ≤ second.uploadID
  let uploads := if cursor ≠ "" then uploads.filter fun u => cursor < uploadCursor u else uploads
  if 0 < maxKeys ∧ maxKeys < uploads.length then
    let page := uploads.take maxKeys.toNat
    ⟨page, (page.getLast?.map uploadCursor).getD ""⟩
  else ⟨uploads, ""⟩

def listMultipartUploads (start cursor : String) (maxKeys : Int) : Action UploadPage := do
  match ← os (.readDir (join p.root ["_multipart"])) with
  | .error .notExist => pure ⟨[], ""⟩
  | .error err => throw (.wrap "local_fs_dev: list multipart: %w" [] (osError err))
  | .ok entries => return uploadPage (← p.uploadsIn start entries) cursor maxKeys

def digits (text : List Char) : Option Int :=
  if text = [] ∨ ¬ text.all Char.isDigit then none else some (Nat.ofDigitChars 10 text 0)

def signed (read : List Char → Option Int) : List Char → Option Int
  | '-' :: rest => (read rest).map Int.neg
  | '+' :: rest => read rest
  | text => read text

/-- `fmt.Sscanf(name, "part-%05d", …)`: a sign and digits, five characters at most. -/
def scanPart (name : String) : Option Int :=
  signed (fun text => digits (text.takeWhile Char.isDigit)) ((name.toList.drop 5).take 5)

/-- `strconv.Atoi`, with zero for a text that is no number. One beyond an `int` is cut to the
range of those, where it is still beyond every part number. -/
def cursorNumber (cursor : String) : Int := (signed digits cursor.toList).getD 0

/-- The sizes of the part files. -/
def partsIn (dir : Path) : List (String × Bool) → Action (List (Int × Int))
  | [] => pure []
  | (name, _) :: rest =>
    if hasPrefix name "part-" then do
      match (← os (.stat (join dir [name])) : Except Errno (Node Content)), scanPart name with
      | .ok node, some n => return (n, (reader node).data.length) :: (← partsIn dir rest)
      | _, _ => partsIn dir rest
    else partsIn dir rest

def listParts (upload : MultipartUpload) (cursor : String) : Action (List (Int × Int)) := do
  match ← os (.readDir (p.multipartDir upload.key upload.uploadID)) with
  | .error .notExist => pure []
  | .error err => throw (.wrap "local_fs_dev: list parts: %w" [] (osError err))
  | .ok entries =>
    let parts := (← partsIn (p.multipartDir upload.key upload.uploadID) entries).insertionSort
      fun first second => first.1 ≤ second.1
    if cursor ≠ "" then pure (parts.filter fun part => cursorNumber cursor < part.1)
    else pure parts

end Provider
end KDrive.LocalFsDev
