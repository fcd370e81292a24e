import KDrive.Server.Registration

/-! What the two back ends of the dedup API are for, said once: a catalog from content_ids to
contents, and the answer it gives to each request. The tables refine it on the requests that
Postgres can take as they are, the map refines it below its size limit. -/
namespace KDrive.Server
open Go Interaction Metadata

/-- A request to one of the four handlers. -/
inductive DedupRequest where
  | check (r : Request String)
  | checkChunks (r : Request CheckChunksBody)
  | register (r : Register)
  | commit (r : Request CommitBody)

def handleDedup (g : Gateway) : DedupRequest → ContentProgram Response
  | .check r => handleContentCheck g r
  | .checkChunks r => handleContentCheckChunks g r
  | .register r => handleContentRegister g r
  | .commit r => handleUploadCommitDedup g r

/-- The answer up to a generated version id. -/
def Response.masked : Response → Response
  | ⟨status, .committed _ deduped new⟩ => ⟨status, .committed "" deduped new⟩
  | answer => answer

theorem Request.refused_masked {r : Request Body} (refused : r.received = .error answer) :
    answer.masked = answer := by
  obtain ⟨status, body⟩ := answer
  have away := Request.refused refused
  cases body with
  | committed => simp [turnedAway] at away
  | _ => rfl

section
variable {Body : Type}

/-- The abstract counterpart of `answering`. -/
def Request.reply (r : Request Body) (f : String → Body → Response) : Response :=
  match r.received with
  | .error answer => answer
  | .ok body => f r.tenantID body

end

/-- The contents that are registered. -/
abbrev Catalog := String → Option MemContent

namespace Catalog

def own (c : Catalog) (contentID tenantID : String) : Option MemContent :=
  (c contentID).filter fun content => content.tenantID = tenantID

/-- Some content of the tenant has a chunk with the hash. -/
def Holds (c : Catalog) (tenantID hash : String) : Prop :=
  ∃ contentID content, c contentID = some content ∧ content.tenantID = tenantID ∧
    ∃ chunk ∈ content.chunks, chunk.chunkContentHash = hash

/-- The first of the keys that cannot be confirmed. -/
def unconfirmed (head : String → Except GoError Unit) : List String → Option Response
  | [] => none
  | k :: rest =>
    match head k with
    | .error err =>
      some (if err.is Blobstore.errNotFound then writeError 400 ("new blob key not uploaded: " ++ k)
        else writeError 500 "internal error")
    | .ok _ => unconfirmed head rest

def checked (c : Catalog) (tenantID contentID : String) : Response :=
  match c.own contentID tenantID with
  | none => ⟨200, .absent⟩
  | some content => ⟨200, .content content.blobKeys content.ciphertextHashes content.chunkCount
      content.plaintextSize⟩

def registered (c : Catalog) (tenantID : String) (body : RegisterBody) : Response :=
  match c body.contentID with
  | none => ⟨200, .registered body.contentID false⟩
  | some content =>
    if content.tenantID ≠ tenantID then foreignContent
    else ⟨200, .registered body.contentID true⟩

def committed (c : Catalog) (store : Bool) (head : String → Except GoError Unit)
    (tenantID : String) (body : CommitBody) : Response :=
  if body.protocol ≠ "KDRV1" then writeError 400 "expected protocol KDRV1"
  else
    match c.own body.contentID tenantID with
    | none => writeError 400 "content_id not registered"
    | some content =>
      if body.reusedBlobKeys.all content.blobKeys.contains then
        (if store then unconfirmed head body.newBlobKeys else none).getD
          ⟨200, .committed "" body.reusedBlobKeys.length body.newBlobKeys.length⟩
      else writeError 400 "reused blob key not found"

open Classical in
/-- `keyOf` is the blob key of a hash. -/
noncomputable def answer (c : Catalog) (keyOf : String → String) (store : Bool)
    (head : String → Except GoError Unit) : DedupRequest → Response
  | .check r => r.reply c.checked
  | .checkChunks r => r.reply fun tenantID body =>
      ⟨200, .results (body.chunkHashes.map fun hash =>
        (hash, if c.Holds tenantID hash then some (keyOf hash) else none))⟩
  | .register r => r.reply c.registered
  | .commit r => r.reply (c.committed store head)

/-- The catalog after a request: only a new registration changes it. -/
def next (c : Catalog) : DedupRequest → Catalog
  | .register r =>
    match r.received with
    | .error _ => c
    | .ok body =>
      match c body.contentID with
      | some _ => c
      | none => Function.update c body.contentID (some (body.content r.tenantID))
  | _ => c

/-- The lists of a content are those of its chunks, and a hash has one blob key. -/
def Sound (keyOf : String → String) (c : Catalog) : Prop :=
  ∀ contentID content, c contentID = some content →
    content.blobKeys = content.chunks.map ContentChunk.blobKey ∧
      content.ciphertextHashes = content.chunks.map ContentChunk.chunkContentHash ∧
      ∀ chunk ∈ content.chunks, chunk.blobKey = keyOf chunk.chunkContentHash

end Catalog

/-- Requests of existing tenants, with no more chunks than one call inserts, and each hash with
its one blob key. -/
def DedupRequest.Domestic (limits : Limits) (keyOf : String → String) : DedupRequest → Prop
  | .check r => limits.tenants r.tenantID = true
  | .checkChunks r => limits.tenants r.tenantID = true
  | .commit r => limits.tenants r.tenantID = true
  | .register r => limits.tenants r.tenantID = true ∧ ∀ body, r.body = some body →
      body.chunks.length ≤ maxChunksPerCall ∧
        ∀ c ∈ body.chunks, c.blobKey = keyOf c.chunkContentHash

/-- What Postgres stores exactly as it is given. -/
def ContentChunk.Storable (limits : Limits) (contentID : String) (c : ContentChunk) : Prop :=
  IsInteger c.chunkIndex ∧ storable c.chunkContentHash = true ∧
    (chunkIndexRows contentID c).all limits.indexes = true ∧ storable c.blobKey = true

/-- Requests whose texts and numbers the tables take, with chunks in the order in which the
tables return them. -/
def DedupRequest.Portable (limits : Limits) : DedupRequest → Prop
  | .check r => ∀ contentID, r.body = some contentID → storable contentID = true
  | .checkChunks r => ∀ body, r.body = some body → ∀ hash ∈ body.chunkHashes, storable hash = true
  | .commit r => ∀ body, r.body = some body → storable body.contentID = true
  | .register r => ∀ body, r.body = some body →
      storable body.contentID = true ∧
        (entryIndexRows r.tenantID body.contentID).all limits.indexes = true ∧
        storable body.chunkPlanRoot = true ∧ ChunkRows.Sorted body.chunks ∧
        ∀ c ∈ body.chunks, c.Storable limits body.contentID

/-- No statement fails, except one that Postgres rejects. -/
def undisturbed (limits : Limits) : Handler contentInterface World :=
  statements limits fun _ _ luck => luck.fate = .done

theorem Catalog.Sound.next {c : Catalog} (sound : c.Sound keyOf) {q : DedupRequest}
    (domestic : q.Domestic limits keyOf) : (c.next q).Sound keyOf := by
  cases q with
  | register r =>
    cases received : r.received with
    | error answer => simpa only [Catalog.next, received] using sound
    | ok body =>
      cases there : c body.contentID with
      | some content => simpa only [Catalog.next, received, there] using sound
      | none =>
        simp only [Catalog.next, received, there]
        intro contentID content found
        by_cases same : contentID = body.contentID
        · subst same
          rw [Function.update_self] at found
          cases found
          exact ⟨rfl, rfl, (domestic.2 body (Request.received_body received)).2⟩
        · rw [Function.update_of_ne same] at found
          exact sound contentID content found
  | _ => exact sound

end KDrive.Server
