import KDrive.Blobstore.Types
import KDrive.Interaction.Program
import KDrive.Metadata.Postgres

/-! The content dedup API of the gateway. Each handler has two implementations, over the
tables `content_entries` and `content_chunks` and over the map of the dev mode; what they ask
of either, of the blob store and of the id generator are the requests of one interface. -/
namespace KDrive.Server
open Go Interaction Metadata

/-- A row of `content_entries`. -/
structure ContentEntry where
  contentID : String
  tenantID : String
  plaintextSize : Int
  chunkCount : Int
  chunkSize : Int
  chunkPlanRoot : String
  pepperGeneration : Int
  deriving DecidableEq

/-- A row of `content_chunks` below its content_id. -/
structure ContentChunk where
  chunkIndex : Int
  chunkContentHash : String
  blobKey : String
  plaintextLen : Int
  ciphertextLen : Int
  deriving DecidableEq

structure MemContentEntry where
  tenantID : String
  plaintextSize : Int
  chunkCount : Int
  chunkSize : Int
  chunkPlanRoot : String
  blobKeys : List String
  ciphertextHashes : List String
  deriving DecidableEq

/-- An entry and the chunks that are put with it. -/
structure MemContent extends MemContentEntry where
  chunks : List ContentChunk
  deriving DecidableEq

/-- Statements outside a transaction, and the transaction that inserts chunks; the locked
sections over the map; and what else a handler calls. -/
inductive ContentCall where
  | selectEntry (contentID tenantID : String)
  | selectAnyEntry (contentID : String)
  | insertEntry (entry : ContentEntry)
  | selectChunks (contentID tenantID : String)
  | insertChunks (contentID : String) (chunks : List ContentChunk)
  | selectHashes (tenantID : String) (hashes : List String)
  | getMem (key : String)
  | putMem (key : String) (content : MemContent)
  | rangeMem
  | head (key : String)
  | generateID

def ContentCall.Reply : ContentCall → Type
  | .selectEntry .. => Except GoError (Option ContentEntry)
  | .selectAnyEntry .. => Except GoError (Option ContentEntry)
  | .insertEntry .. => Except GoError Unit
  | .selectChunks .. => Except GoError (List ContentChunk)
  | .insertChunks .. => Except GoError Unit
  | .selectHashes .. => Except GoError (List (String × String))
  | .getMem .. => Option MemContent
  | .putMem .. => Unit
  | .rangeMem => List MemContent
  | .head .. => Except GoError Unit
  | .generateID => String

abbrev contentInterface : Interface := ⟨ContentCall, ContentCall.Reply⟩

abbrev ContentProgram := Program contentInterface

/-- A row or `ErrNotFound`. -/
def scanEntry : Except GoError (Option ContentEntry) → Except GoError ContentEntry
  | .error err => .error (if err.is errNoRows then errNotFound else err)
  | .ok none => .error errNotFound
  | .ok (some entry) => .ok entry

def getContentEntry (contentID tenantID : String) : ContentProgram (Except GoError ContentEntry) :=
  .ask (.selectEntry contentID tenantID) fun reply => .ret (scanEntry reply)

def getContentEntryByContentID (contentID : String) :
    ContentProgram (Except GoError ContentEntry) :=
  .ask (.selectAnyEntry contentID) fun reply => .ret (scanEntry reply)

def createContentEntry (entry : ContentEntry) : ContentProgram (Except GoError Unit) :=
  .ask (.insertEntry entry) .ret

def getContentChunks (contentID tenantID : String) :
    ContentProgram (Except GoError (List ContentChunk)) :=
  .ask (.selectChunks contentID tenantID) .ret

def maxChunksPerCall : Nat := 10000

def createContentChunks (contentID : String) (chunks : List ContentChunk) :
    ContentProgram (Except GoError Unit) :=
  if chunks.length = 0 then .ret (.ok ())
  else if chunks.length > maxChunksPerCall then
    .ret (.error (.errorf "metadata: CreateContentChunks: %d chunks exceeds limit of %d"
      [.int chunks.length, .int maxChunksPerCall]))
  else .ask (.insertChunks contentID chunks) .ret

/-- The map `knownHashes`, filled in the order of the rows. -/
def knownHash (rows : List (String × String)) (hash : String) : Option String :=
  (rows.reverse.find? fun row => row.1 = hash).map Prod.snd

def checkChunkHashes (tenantID : String) (hashes : List String) :
    ContentProgram (Except GoError (List (String × Option String))) :=
  .ask (.selectHashes tenantID hashes) fun
    | .error err => .ret (.error err)
    | .ok rows => .ret (.ok (hashes.map fun hash => (hash, knownHash rows hash)))

/-- The JSON bodies of the answers. -/
inductive Payload where
  | empty
  | error (text : String)
  | absent
  | content (blobKeys ciphertextHashes : List String) (chunkCount plaintextSize : Int)
  | results (results : List (String × Option String))
  | registered (contentID : String) (alreadyExisted : Bool)
  | committed (versionID : String) (dedupedChunks newChunks : Nat)
  deriving DecidableEq

structure Response where
  status : Nat
  body : Payload
  deriving DecidableEq

def writeError (status : Nat) (text : String) : Response := ⟨status, .error text⟩

inductive Method where
  | options
  | post
  | other
  deriving DecidableEq

/-- `body` is what the JSON decoder makes of the body, if it makes anything. -/
structure Request (Body : Type) where
  method : Method
  tenantID : String
  body : Option Body

/-- `d.gw.metaDB != nil` and `d.gw.store != nil`. -/
structure Gateway where
  metaDB : Bool
  store : Bool
  deriving DecidableEq

/-- What every handler does first. -/
def answering {Body : Type} (r : Request Body) (handler : String → Body → ContentProgram Response) :
    ContentProgram Response :=
  match r.method with
  | .options => .ret ⟨200, .empty⟩
  | .other => .ret (writeError 405 "method not allowed")
  | .post =>
    if r.tenantID = "" then .ret (writeError 400 "missing X-Demo-Tenant header")
    else
      match r.body with
      | none => .ret (writeError 400 "invalid body")
      | some body => handler r.tenantID body

def handleContentCheck (g : Gateway) (r : Request String) : ContentProgram Response :=
  answering r fun tenantID contentID =>
    if g.metaDB then do
      match ← getContentEntry contentID tenantID with
      | .error err =>
        if err.is errNotFound then return ⟨200, .absent⟩
        else return writeError 500 "internal error"
      | .ok entry =>
        match ← getContentChunks contentID tenantID with
        | .error _ => return writeError 500 "internal error"
        | .ok chunks =>
          return ⟨200, .content (chunks.map ContentChunk.blobKey)
            (chunks.map ContentChunk.chunkContentHash) entry.chunkCount entry.plaintextSize⟩
    else
      .ask (.getMem contentID) fun
        | none => .ret ⟨200, .absent⟩
        | some entry =>
          if entry.tenantID ≠ tenantID then .ret ⟨200, .absent⟩
          else .ret ⟨200, .content entry.blobKeys entry.ciphertextHashes entry.chunkCount
            entry.plaintextSize⟩

structure CheckChunksBody where
  contentID : String
  chunkHashes : List String

/-- The chunks of a tenant's entries, as the loop over the map meets them. -/
def tenantHashes (entries : List MemContent) (tenantID : String) : List (String × String) :=
  (entries.filter fun entry => entry.tenantID = tenantID).flatMap fun entry =>
    entry.chunks.map fun c => (c.chunkContentHash, c.blobKey)

def handleContentCheckChunks (g : Gateway) (r : Request CheckChunksBody) :
    ContentProgram Response :=
  answering r fun tenantID body =>
    if g.metaDB then do
      match ← checkChunkHashes tenantID body.chunkHashes with
      | .error _ => return writeError 500 "internal error"
      | .ok results => return ⟨200, .results results⟩
    else
      .ask .rangeMem fun entries =>
        let rows := tenantHashes entries tenantID
        .ret ⟨200, .results (body.chunkHashes.map fun hash => (hash, knownHash rows hash))⟩

structure RegisterBody where
  contentID : String
  plaintextSize : Int
  chunkCount : Int
  chunkSize : Int
  chunkPlanRoot : String
  chunks : List ContentChunk
  deriving DecidableEq

abbrev Register := Request RegisterBody

def RegisterBody.entry (body : RegisterBody) (tenantID : String) : ContentEntry :=
  ⟨body.contentID, tenantID, body.plaintextSize, body.chunkCount, body.chunkSize,
    body.chunkPlanRoot, 1⟩

def RegisterBody.content (body : RegisterBody) (tenantID : String) : MemContent :=
  ⟨⟨tenantID, body.plaintextSize, body.chunkCount, body.chunkSize, body.chunkPlanRoot,
    body.chunks.map ContentChunk.blobKey, body.chunks.map ContentChunk.chunkContentHash⟩,
    body.chunks⟩

def foreignContent : Response := writeError 403 "content_id owned by another tenant"

/-- An error of the first read is an internal one unless nothing was found; an error of the
second read is passed over. -/
def handleContentRegister (g : Gateway) (r : Register) : ContentProgram Response :=
  answering r fun tenantID body =>
    if g.metaDB then do
      match ← getContentEntry body.contentID tenantID with
      | .ok _ => return ⟨200, .registered body.contentID true⟩
      | .error err =>
        if ¬ err.is errNotFound then return writeError 500 "internal error"
        else
          let owner ← getContentEntryByContentID body.contentID
          if (owner.toOption.any fun other => other.tenantID ≠ tenantID) then return foreignContent
          else
            match ← createContentEntry (body.entry tenantID) with
            | .error _ => return writeError 500 "internal error"
            | .ok () =>
              match ← createContentChunks body.contentID body.chunks with
              | .error _ => return writeError 500 "internal error"
              | .ok () => return ⟨200, .registered body.contentID false⟩
    else
      .ask (.getMem body.contentID) fun
        | some existing =>
          if existing.tenantID ≠ tenantID then .ret foreignContent
          else .ret ⟨200, .registered body.contentID true⟩
        | none => .ask (.putMem body.contentID (body.content tenantID)) fun _ =>
          .ret ⟨200, .registered body.contentID false⟩

structure CommitBody where
  protocol : String
  contentID : String
  reusedBlobKeys : List String
  newBlobKeys : List String

/-- The HEADs of the new blob keys. -/
def headAll (next : ContentProgram Response) : List String → ContentProgram Response
  | [] => next
  | k :: rest => .ask (.head k) fun
    | .error err =>
      if err.is Blobstore.errNotFound then .ret (writeError 400 ("new blob key not uploaded: " ++ k))
      else .ret (writeError 500 "internal error")
    | .ok _ => headAll next rest

def handleUploadCommitDedup (g : Gateway) (r : Request CommitBody) : ContentProgram Response :=
  answering r fun tenantID body =>
    let verified : ContentProgram Response :=
      let committed : ContentProgram Response := .ask .generateID fun versionID =>
        .ret ⟨200, .committed versionID body.reusedBlobKeys.length body.newBlobKeys.length⟩
      if g.store then headAll committed body.newBlobKeys else committed
    let reusing (known : List String) : ContentProgram Response :=
      if body.reusedBlobKeys.all known.contains then verified
      else .ret (writeError 400 "reused blob key not found")
    if body.protocol ≠ "KDRV1" then .ret (writeError 400 "expected protocol KDRV1")
    else if g.metaDB then do
      match ← getContentEntry body.contentID tenantID with
      | .error err =>
        if err.is errNotFound then return writeError 400 "content_id not registered"
        else return writeError 500 "internal error"
      | .ok _ =>
        match ← getContentChunks body.contentID tenantID with
        | .error _ => return writeError 500 "internal error"
        | .ok chunks => reusing (chunks.map ContentChunk.blobKey)
    else
      .ask (.getMem body.contentID) fun
        | none => .ret (writeError 400 "content_id not registered")
        | some entry =>
          if entry.tenantID ≠ tenantID then .ret (writeError 400 "content_id not registered")
          else reusing entry.blobKeys

end KDrive.Server
