import KDrive.Interaction.Program
import KDrive.Blobstore.Types
import KDrive.S3.Breaker

/-! What the S3 adapter works with: the calls of the S3 API it makes, all of them on its
one bucket, its circuit breaker, and the temporary file of a part. Response fields that
are optional in the API may be missing. -/
namespace KDrive.S3
open Go Blobstore

/-- Errors the SDK has types of its own for. -/
inductive TypedError where
  | noSuchKey
  | noSuchBucket
  | noSuchUpload
  | notFound
  deriving DecidableEq

/-- What can be found in the chain of an SDK error, and its text. -/
structure ApiError where
  typed : Option TypedError := none
  status : Option Int := none
  text : String
  deriving DecidableEq

/-- The Object Lock fields of a request. -/
structure ObjectLock where
  mode : Option String := none
  retainUntilDate : Option Time := none
  legalHoldStatus : Option String := none
  deriving DecidableEq

structure PutObjectInput where
  key : String
  body : Reader
  contentType : Option String
  contentLength : Option Int
  checksumSHA256 : Option String
  ifNoneMatch : Option String
  lock : ObjectLock

structure PutObjectOutput where
  size : Option Int := none
  versionId : Option String := none
  checksumSHA256 : Option String := none

structure HeadObjectOutput where
  contentLength : Option Int := none
  versionId : Option String := none
  checksumSHA256 : Option String := none
  lastModified : Option Time := none

structure GetObjectOutput extends HeadObjectOutput where
  body : Reader

structure CreateMultipartUploadInput where
  key : String
  contentType : Option String
  checksumAlgorithm : Option String
  lock : ObjectLock

structure UploadPartInput where
  key : String
  uploadId : String
  partNumber : Int
  body : Bytes
  contentLength : Int
  checksumSHA256 : String

structure CompleteMultipartUploadInput where
  key : String
  uploadId : String
  parts : List (Int × String)

structure ObjectIdentifier where
  key : String
  versionId : String
  deriving DecidableEq

structure ListObjectVersionsInput where
  keyPrefix : String
  keyMarker : Option String
  maxKeys : Int

structure ObjectVersion where
  key : String
  versionId : String
  size : Int := 0
  lastModified : Time := 0
  deriving DecidableEq

structure ListObjectVersionsOutput where
  versions : List ObjectVersion
  deleteMarkers : List ObjectIdentifier
  isTruncated : Bool
  nextKeyMarker : Option String

structure ListMultipartUploadsInput where
  keyPrefix : Option String
  keyMarker : Option String

structure ListMultipartUploadsOutput where
  uploads : List MultipartUpload
  nextKeyMarker : Option String

/-- `Allow` as it went. The caller sees a nil or the error; the state it found the breaker
in is kept for what is said about runs. -/
inductive Passage where
  | admitted (found : CircuitState)
  | refused (err : GoError)
  deriving DecidableEq

inductive Request where
  | allow
  | recordSuccess
  | recordFailure
  | putObject (input : PutObjectInput)
  | getObject (key : String) (versionId range : Option String)
  | headObject (key : String) (versionId : Option String)
  | deleteObject (key : String) (versionId : Option String)
  | deleteObjects (objects : List ObjectIdentifier)
  | listObjectVersions (input : ListObjectVersionsInput)
  | createMultipartUpload (input : CreateMultipartUploadInput)
  | uploadPart (input : UploadPartInput)
  | completeMultipartUpload (input : CompleteMultipartUploadInput)
  | listMultipartUploads (input : ListMultipartUploadsInput)
  | createTemp
  | copyToTemp (data : Bytes)
  | seekTemp
  | now

/-- `DeleteObjects` answers with the identifiers it could not delete. -/
def Request.Reply : Request → Type
  | .allow => Passage
  | .recordSuccess | .recordFailure => Unit
  | .putObject _ => Except ApiError PutObjectOutput
  | .getObject .. => Except ApiError GetObjectOutput
  | .headObject .. => Except ApiError HeadObjectOutput
  | .deleteObject .. => Except ApiError Unit
  | .deleteObjects _ => Except ApiError (List ObjectIdentifier)
  | .listObjectVersions _ => Except ApiError ListObjectVersionsOutput
  | .createMultipartUpload _ => Except ApiError (Option String)
  | .uploadPart _ => Except ApiError Unit
  | .completeMultipartUpload _ => Except ApiError (Option String)
  | .listMultipartUploads _ => Except ApiError ListMultipartUploadsOutput
  | .createTemp | .copyToTemp _ | .seekTemp => Option GoError
  | .now => Time

def api : Interaction.Interface := ⟨Request, Request.Reply⟩

abbrev Api := Interaction.Program api

def ask (q : Request) : Api q.Reply := Interaction.Program.request (I := api) q

end KDrive.S3
