import KDrive.Interaction.Program
import KDrive.Blobstore.Types
import KDrive.Hotcache.Policy

/-! What the pipeline works with: blob statuses, results, and the requests through
which it touches anything shared. One request is one call on the cache, on the
status store or on the durable store, or one access to a single-flight table; the
code between two requests is local to its goroutine. -/
namespace KDrive.Blobio
open Go Blobstore Hotcache

inductive CommitState where
  | cached
  | durable
  deriving DecidableEq

structure BlobStatus where
  blobID : String
  commitState : CommitState
  size : Int
  checksumSHA256 : String
  versionID : String := ""
  cachedAt : Time := 0
  durableAt : Time := 0
  fileID : String := ""
  tenantID : String := ""
  retention : RetentionSpec := {}
  deriving DecidableEq

structure WriteOptions where
  promoteSync : Bool := false
  pinHot : Bool := false
  retention : RetentionSpec := {}
  fileID : String := ""
  tenantID : String := ""
  deriving DecidableEq

structure WriteResult where
  blobID : String
  commitState : CommitState
  size : Int
  checksumSHA256 : String
  deriving DecidableEq

structure ReadResult where
  body : Reader
  size : Int := 0
  checksumSHA256 : String := ""
  versionID : String := ""
  fromCache : Bool
  deriving DecidableEq

inductive Context where
  | caller (id : Nat)
  | lifecycle
  deriving DecidableEq

/-- The two single-flight tables: `inflight` and `promoteInflight`. -/
inductive Table where
  | restore
  | promote
  deriving DecidableEq

/-- `inflightCall`, with the blob ID it is stored under; `done` says that the channel
is closed. A `promoteCall` is one whose `body` and `info` stay zero. -/
structure Flight where
  blobID : String
  done : Bool := false
  err : Option GoError := none
  body : Bytes := []
  info : ObjectMeta := {}
  deriving DecidableEq

def Flight.publish (err : Option GoError) (body : Bytes) (info : ObjectMeta) (flight : Flight) :
    Flight :=
  { flight with err, body, info }

def Flight.close (flight : Flight) : Flight := { flight with done := true }

/-- `LoadOrStore`: the caller's own call record was stored, or one was there. -/
inductive Joined where
  | leads (flight : Nat)
  | waits (flight : Nat)
  deriving DecidableEq

/-- The goroutine a Read leaves behind to fill the cache. -/
structure Fill where
  blobID : String
  body : Bytes
  info : ObjectMeta
  deriving DecidableEq

/-- A call on the cache, the status store or the durable store. -/
inductive Call where
  | cacheGet (ctx : Context) (b : String)
  | cachePut (ctx : Context) (b : String) (r : Reader) (opts : PutOptions)
  | cacheEvict (ctx : Context) (b : String)
  | statusGet (ctx : Context) (b : String)
  | statusPut (ctx : Context) (status : BlobStatus)
  | markDurable (ctx : Context) (b versionID : String) (size : Int) (checksum : String)
      (durableAt : Time)
  | storePut (ctx : Context) (req : PutRequest)
  | storeGet (ctx : Context) (ref : VersionedObjectRef)
  | storeHead (ctx : Context) (ref : ObjectRef)
  | createMultipart (ctx : Context) (req : MultipartRequest)
  | uploadPart (ctx : Context) (req : UploadPartRequest)
  | completeMultipart (ctx : Context) (req : CompleteRequest)
  | abortMultipart (upload : MultipartUpload)

/-- A successful `storePut` also tells what the store drew from the body reader,
which is what the hashing reader saw. -/
def Call.Result : Call → Type
  | .cacheGet .. => Except GoError (Reader × Metadata)
  | .cachePut .. | .cacheEvict .. => Option GoError
  | .statusGet .. => Except GoError (Option BlobStatus)
  | .statusPut .. | .markDurable .. => Option GoError
  | .storePut .. => Except GoError (PutResult × Bytes)
  | .storeGet .. => Except GoError (Reader × ObjectMeta)
  | .storeHead .. => Except GoError ObjectMeta
  | .createMultipart .. => Except GoError MultipartUpload
  | .uploadPart .. => Except GoError UploadedPart
  | .completeMultipart .. => Except GoError PutResult
  | .abortMultipart _ => Option GoError

/-- A call into another component returns or panics. -/
inductive Outcome (α : Type) where
  | returned (value : α)
  | panicked (message : String)
  deriving DecidableEq

instance (c : Call) : DecidableEq c.Result :=
  match c with
  | .cacheGet .. => inferInstanceAs (DecidableEq (Except GoError (Reader × Metadata)))
  | .cachePut .. | .cacheEvict .. => inferInstanceAs (DecidableEq (Option GoError))
  | .statusGet .. => inferInstanceAs (DecidableEq (Except GoError (Option BlobStatus)))
  | .statusPut .. | .markDurable .. => inferInstanceAs (DecidableEq (Option GoError))
  | .storePut .. => inferInstanceAs (DecidableEq (Except GoError (PutResult × Bytes)))
  | .storeGet .. => inferInstanceAs (DecidableEq (Except GoError (Reader × ObjectMeta)))
  | .storeHead .. => inferInstanceAs (DecidableEq (Except GoError ObjectMeta))
  | .createMultipart .. => inferInstanceAs (DecidableEq (Except GoError MultipartUpload))
  | .uploadPart .. => inferInstanceAs (DecidableEq (Except GoError UploadedPart))
  | .completeMultipart .. => inferInstanceAs (DecidableEq (Except GoError PutResult))
  | .abortMultipart _ => inferInstanceAs (DecidableEq (Option GoError))

inductive Request where
  | call (c : Call)
  | join (table : Table) (b : String)
  | await (table : Table) (ctx : Context) (flight : Nat)
  | publish (table : Table) (flight : Nat) (err : Option GoError) (body : Bytes) (info : ObjectMeta)
  | closeDone (table : Table) (flight : Nat)
  | delete (table : Table) (b : String)
  | go (fill : Fill)
  | lifecycleErr
  | now

/-- A waiter gets the shared record, or the error of its own context. -/
def Request.Reply : Request → Type
  | .call c => Outcome c.Result
  | .join .. => Joined
  | .await .. => Except GoError Flight
  | .publish .. | .closeDone .. | .delete .. | .go _ => Unit
  | .lifecycleErr => Option GoError
  | .now => Time

def pipeline : Interaction.Interface := ⟨Request, Request.Reply⟩

end KDrive.Blobio
