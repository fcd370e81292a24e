import KDrive.Blobio.World
import KDrive.Metadata.Postgres

/-! The two status stores behind the pipeline: `PostgresStatusStore`, by its statements on
`blob_placements`, and `MemoryStatusStore`, a map. -/
namespace KDrive.Metadata
open Go Blobstore Blobio

/-- What the columns take: the texts a TEXT can be, the rows of texts that fit into an index, and
what a TIMESTAMPTZ keeps of a time, if it is in range. -/
structure Columns where
  text : String → Bool
  indexes : List String → Bool
  stamp : Time → Option Time

/-- A row of `blob_placements`, beside its key. -/
structure Placement where
  commitState : CommitState
  blobVersionID : Option String
  sizeBytes : Int
  checksumSHA256 : String
  cachedAt : Time
  durableAt : Option Time
  retentionMode : RetentionMode
  retainUntil : Option Time
  legalHold : Bool
  deriving DecidableEq

abbrev Placements := String → Option Placement

/-- The index on `(tenant_id, checksum_sha256)`; no statement sets the tenant, whose default is
the empty text. -/
def Columns.indexesChecksum (cols : Columns) (checksum : String) : Bool :=
  cols.indexes ["", checksum]

abbrev Statuses := String → Option BlobStatus

def retentionText : RetentionMode → String
  | .unset => ""
  | .none => "NONE"
  | .governance => "GOVERNANCE"
  | .compliance => "COMPLIANCE"
  | .other name => name

def nullString (s : String) : Option String := if s = "" then none else some s

/-- A zero time becomes NULL. -/
def nullTime (t : Time) : Option Time := if t = 0 then none else some t

def Columns.stampNull (cols : Columns) : Option Time → Option (Option Time)
  | none => some none
  | some t => (cols.stamp t).map some

/-- What the SELECT of `Get` makes of a row. -/
def Placement.status (blobID : String) (row : Placement) : BlobStatus where
  blobID := blobID
  commitState := row.commitState
  size := row.sizeBytes
  checksumSHA256 := row.checksumSHA256
  versionID := row.blobVersionID.getD ""
  cachedAt := row.cachedAt
  durableAt := row.durableAt.getD 0
  retention := ⟨row.retentionMode, row.retainUntil.getD 0, row.legalHold⟩

/-- The row an INSERT is to add: none if a value is not taken by its column, and `cached_at` is
NOT NULL. -/
def Columns.row (cols : Columns) (status : BlobStatus) : Option Placement := do
  if cols.text status.blobID ∧ cols.text status.versionID ∧ cols.text status.checksumSHA256 ∧
      cols.text (retentionText status.retention.mode) ∧ cols.indexes [status.blobID] ∧
      cols.indexesChecksum status.checksumSHA256 then
    let cachedAt ← cols.stamp (← nullTime status.cachedAt)
    let durableAt ← cols.stampNull (nullTime status.durableAt)
    let retainUntil ← cols.stampNull (nullTime status.retention.retainUntil)
    return {
      commitState := status.commitState
      blobVersionID := nullString status.versionID
      sizeBytes := status.size
      checksumSHA256 := status.checksumSHA256
      cachedAt
      durableAt
      retentionMode := status.retention.mode
      retainUntil
      legalHold := status.retention.legalHold }
  else none

namespace PostgresStatusStore
variable (cols : Columns) (table : Placements)

def get (blobID : String) : Except GoError (Option BlobStatus) :=
  if cols.text blobID then .ok ((table blobID).map (Placement.status blobID))
  else .error (.wrap "metadata: status get: %w" [] errStatement)

/-- `cached_at` is not among the columns that `DO UPDATE` sets. -/
def put (status : BlobStatus) : Option GoError × Placements :=
  match cols.row status with
  | none => (some (.wrap "metadata: status put: %w" [] errStatement), table)
  | some row =>
    (none, Function.update table status.blobID (some
      { row with cachedAt := ((table status.blobID).map Placement.cachedAt).getD row.cachedAt }))

def markDurable (blobKey blobVersionID : String) (size : Int) (checksum : String)
    (durableAt : Time) : Option GoError × Placements :=
  if cols.text blobKey ∧ cols.text blobVersionID ∧ cols.text checksum then
    match cols.stamp durableAt with
    | none => (some (.wrap "metadata: mark durable: %w" [] errStatement), table)
    | some durableAt =>
      match table blobKey with
      | none => (some errNotFound, table)
      | some row =>
        if cols.indexesChecksum checksum then
          (none, Function.update table blobKey (some { row with
            commitState := .durable
            blobVersionID := nullString blobVersionID
            sizeBytes := size
            checksumSHA256 := checksum
            durableAt := some durableAt }))
        else (some (.wrap "metadata: mark durable: %w" [] errStatement), table)
  else (some (.wrap "metadata: mark durable: %w" [] errStatement), table)

end PostgresStatusStore

/-- How a status store serves the calls on it. -/
def postgresServes (cols : Columns) (table : Placements) :
    (c : Call) → Option (c.Result × Placements)
  | .statusGet _ b => some (PostgresStatusStore.get cols table b, table)
  | .statusPut _ status => some (PostgresStatusStore.put cols table status)
  | .markDurable _ b versionID size checksum durableAt =>
    some (PostgresStatusStore.markDurable cols table b versionID size checksum durableAt)
  | _ => none

/-- `MarkDurable` of a blob that is not there changes nothing and returns nil. -/
def memoryServes (statuses : Statuses) : (c : Call) → Option (c.Result × Statuses)
  | .statusGet _ b => some (.ok (statuses b), statuses)
  | .statusPut _ status => some (none, Function.update statuses status.blobID (some status))
  | .markDurable _ b versionID size checksum durableAt =>
    some (none, Blobio.markDurable statuses b versionID size checksum durableAt)
  | _ => none

/-- What can be compared of an answer: that the call failed, that it was carried out, or the
status it found, without the owners that only one of the stores keeps. -/
inductive Shown where
  | failed
  | done
  | found (status : Option BlobStatus)
  deriving DecidableEq

def placement (status : BlobStatus) : BlobStatus := { status with fileID := "", tenantID := "" }

def shown : (c : Call) → c.Result → Shown
  | .statusGet .., .ok found => .found (found.map placement)
  | .statusGet .., .error _ => .failed
  | .statusPut .., none | .markDurable .., none => .done
  | .statusPut .., some _ | .markDurable .., some _ => .failed
  | _, _ => .done

end KDrive.Metadata
