import KDrive.Go.Runtime

/-! The provider-independent vocabulary of the durable store: requests, results,
metadata and the normalized errors every adapter wraps its own into. -/
namespace KDrive.Blobstore
open Go

structure ObjectRef where
  key : String
  deriving DecidableEq

structure VersionedObjectRef where
  key : String
  versionID : String := ""
  deriving DecidableEq

/-- `unset` is the empty string, the zero value of the type. -/
inductive RetentionMode where
  | unset
  | none
  | governance
  | compliance
  | other (name : String)
  deriving DecidableEq

structure RetentionSpec where
  mode : RetentionMode := .unset
  retainUntil : Time := 0
  legalHold : Bool := false
  deriving DecidableEq

structure RetentionState where
  mode : RetentionMode := .unset
  retainUntil : Time := 0
  legalHold : Bool := false
  deriving DecidableEq

inductive BucketVersioningState where
  | unset
  | neverEnabled
  | enabled
  | suspendedVersionAware
  deriving DecidableEq

structure PutRequest where
  key : String
  body : Reader
  expectedLength : Int := 0
  checksumSHA256 : String := ""
  contentType : String := ""
  retention : RetentionSpec := {}
  ifNoneMatch : Bool := false
  deriving DecidableEq

structure PutResult where
  key : String := ""
  versionID : String := ""
  versioningState : BucketVersioningState := .unset
  retention : RetentionState := {}
  writeTime : Time := 0
  size : Int := 0
  checksumSHA256 : String := ""
  writeResultHash : String := ""
  deriving DecidableEq

/-- The read-side projection of a stored object. A provider that reports no
checksum leaves the text empty. -/
structure ObjectMeta where
  key : String := ""
  versionID : String := ""
  versioningState : BucketVersioningState := .unset
  size : Int := 0
  checksumSHA256 : String := ""
  retention : RetentionState := {}
  writeTime : Time := 0
  deriving DecidableEq

structure MultipartRequest where
  key : String
  contentType : String := ""
  checksumSHA256 : String := ""
  retention : RetentionSpec := {}
  deriving DecidableEq

structure MultipartUpload where
  key : String
  uploadID : String
  deriving DecidableEq

structure UploadPartRequest where
  upload : MultipartUpload
  partNumber : Int
  body : Bytes
  deriving DecidableEq

structure UploadedPart where
  partNumber : Int := 0
  checksumSHA256 : String := ""
  size : Int := 0
  deriving DecidableEq

structure CompletedPart where
  partNumber : Int
  checksumSHA256 : String := ""
  size : Int := 0
  deriving DecidableEq

structure CompleteRequest where
  upload : MultipartUpload
  parts : List CompletedPart
  retention : RetentionSpec := {}
  deriving DecidableEq

def errNotFound : GoError := .new "blobstore: not found"
def errPreconditionFailed : GoError := .new "blobstore: precondition failed"
def errThrottled : GoError := .new "blobstore: throttled"
def errRetentionConflict : GoError := .new "blobstore: retention conflict"
def errChecksumMismatch : GoError := .new "blobstore: checksum mismatch"

end KDrive.Blobstore
