import KDrive.Hotcache.MemoryCache
import KDrive.Hotcache.Files

/-! The disk cache as programs over its files: `Get`, `Put`, `Evict`, and
`NewDiskCache` with the scan that rebuilds the index. The index and the lists live in
memory and are passed along; a crash loses them and leaves the files. `fsync` and the
pool of copy buffers are left out. -/
namespace KDrive.Hotcache
open Go Interaction

abbrev DiskCache := Regions DiskEntry

abbrev Disk := Program disk

def validateBlobID (blobID : String) : Option GoError :=
  if blobID = "" then some (.new "hotcache: blobID is required")
  else if blobID.toList.any fun c => c = '/' ∨ c = '\\' then
    some (.errorf "hotcache: blobID %q must not contain path separators" [.str blobID])
  else if blobID = "." ∨ blobID = ".." ∨ "..".toList <:+: blobID.toList then
    some (.errorf "hotcache: blobID %q must not be a relative path component" [.str blobID])
  else none

namespace DiskCache

def access (q : FileRequest) : Disk (FileRequest.Reply q) := Program.request (I := disk) q

/-- The two removals at the end of `removeLocked`. -/
def removeFiles (blobID : String) : Disk Unit := do
  access (.remove (bodyPath blobID))
  access (.remove (metaPath blobID))

/-- The files of elements that were removed, in the order they went. -/
def removeAll : List (Element DiskEntry) → Disk Unit
  | [] => pure ()
  | el :: rest => do
    removeFiles el.value.blobID
    removeAll rest

def expired (e : DiskEntry) (now : Time) : Bool := e.expiresAt ≠ 0 ∧ e.expiresAt < now

def hit (now : Time) (e : DiskEntry) : DiskEntry := { e with hits := e.hits + 1, lastAccess := now }

def metadata (e : DiskEntry) : Metadata :=
  { blobID := e.blobID, sizeBytes := e.sizeBytes, hash := e.hash, storedAt := e.storedAt,
    lastAccess := e.lastAccess, hitCount := e.hits, pinned := e.pinned,
    nonEvictable := e.nonEvictable }

def get (c : DiskCache) (b : String) (now : Time) :
    Disk (Except GoError (Reader × Metadata) × DiskCache) :=
  match validateBlobID b with
  | some err => pure (.error err, c)
  | none =>
    match c.find b with
    | none => pure (.error errCacheMiss, { c with stats.misses := c.stats.misses + 1 })
    | some el =>
      if expired el.value now then do
        removeFiles el.value.blobID
        let c := c.removeLocked el
        pure (.error errCacheMiss, { c with stats.misses := c.stats.misses + 1 })
      else do
        let touched := c.touch el (hit now)
        match (← access (.openFile (bodyPath b)) : Except GoError Content) with
        | .ok content =>
          pure (.ok (⟨content.raw, none⟩, metadata (hit now el.value)),
            { touched with stats.hits := touched.stats.hits + 1 })
        | .error _ =>
          -- The count of the hit is taken back.
          removeFiles el.value.blobID
          let c := touched.removeLocked ⟨el.ref, hit now el.value⟩
          pure (.error errCacheMiss, { c with stats.misses := c.stats.misses + 1 })

/-- `io.CopyBuffer` to the temporary file, piece by piece, with the error it ends in. -/
def copyPieces (tmp : Path) (failure : Option GoError) : List Bytes → Disk (Option GoError)
  | [] => pure failure
  | piece :: rest => do
    match (← access (.write tmp (.bytes piece)) : Option GoError) with
    | some err => pure (some err)
    | none => copyPieces tmp failure rest

/-- Drop the temporary file and fail. -/
def discard (tmp : Path) (err : GoError) : Disk (Except GoError Path) := do
  access (.remove tmp)
  pure (.error err)

/-- The part of `Put` outside the lock: the body in a temporary file, or an error. -/
def receive (policy : EvictionPolicy) (b : String) (r : Reader) : Disk (Except GoError Path) := do
  match (← access (.mkdirAll (shardOf b)) : Option GoError) with
  | some err => pure (.error (.wrap "hotcache: create shard dir: %w" [] err))
  | none =>
    match (← access (.createTemp (shardOf b) b) : Except GoError Path) with
    | .error err => pure (.error (.wrap "hotcache: create temp file: %w" [] err))
    | .ok tmp => do
      let pieces : List Bytes ← access (.pieces r.data)
      let copyErr ← copyPieces tmp r.failure pieces
      let closeErr : Option GoError ← access (.close tmp)
      match copyErr, closeErr with
      | some err, _ => discard tmp (.wrap "hotcache: write body: %w" [] err)
      | none, some err => discard tmp (.wrap "hotcache: close body: %w" [] err)
      | none, none =>
        if 0 < policy.maxBytes ∧ policy.maxBytes < r.data.length then
          discard tmp (MemoryCache.exceedsCapacity r.data.length policy.maxBytes)
        else pure (.ok tmp)

def metaFile (e : DiskEntry) : MetaFile :=
  { blobID := e.blobID, sizeBytes := e.sizeBytes, hash := e.hash, storedAt := e.storedAt,
    expiresAt := e.expiresAt, pinned := e.pinned, nonEvictable := e.nonEvictable,
    hitCount := e.hits }

/-- `os.WriteFile` creates the file and then writes it. -/
def writeMeta (path : Path) (e : DiskEntry) : Disk (Option GoError) :=
  match (metaFile e).marshal with
  | .error err => pure (some (.wrap "hotcache: marshal meta: %w" [] err))
  | .ok body => do
    match (← access (.create path.tmp) : Option GoError) with
    | some err => pure (some (.wrap "hotcache: write meta: %w" [] err))
    | none =>
      match (← access (.write path.tmp body) : Option GoError) with
      | some err => pure (some (.wrap "hotcache: write meta: %w" [] err))
      | none =>
        match (← access (.rename path.tmp path) : Option GoError) with
        | some err => do
          access (.remove path.tmp)
          pure (some (.wrap "hotcache: publish meta: %w" [] err))
        | none => pure none

def newEntry (policy : EvictionPolicy) (b : String) (size : Int) (opts : PutOptions)
    (now : Time) : DiskEntry :=
  { blobID := b, sizeBytes := size, hash := opts.hash, storedAt := now, lastAccess := now,
    pinned := opts.pinHot && policy.kind = .lruHotPin, nonEvictable := opts.nonEvictable,
    expiresAt :=
      if 0 < opts.ttl then now + opts.ttl
      else if 0 < policy.ttl then now + policy.ttl
      else 0 }

/-- The two files of the entry, body first, and then its place in the index. -/
def publish (c : DiskCache) (tmp : Path) (entry : DiskEntry) : Disk (Option GoError × DiskCache) := do
  match (← access (.rename tmp (bodyPath entry.blobID)) : Option GoError) with
  | some err => do
    access (.remove tmp)
    pure (some (.wrap "hotcache: publish body: %w" [] err), c)
  | none =>
    match ← writeMeta (metaPath entry.blobID) entry with
    | some err => do
      access (.remove (bodyPath entry.blobID))
      pure (some err, c)
    | none => pure (none, c.pushFront entry)

def put (c : DiskCache) (b : String) (r : Option Reader) (opts : PutOptions) (now : Time) :
    Disk (Option GoError × DiskCache) :=
  match validateBlobID b with
  | some err => pure (some err, c)
  | none =>
    match r with
    | none => pure (some (.new "hotcache: reader is required"), c)
    | some r => do
      match ← receive c.policy b r with
      | .error err => pure (some err, c)
      | .ok tmp => do
        let entry := newEntry c.policy b r.data.length opts now
        let room := c.makeRoom b entry.pinned entry.sizeBytes
        removeAll room.2
        publish room.1 tmp entry

def evict (c : DiskCache) (b : String) : Disk DiskCache :=
  match c.find b with
  | none => pure c
  | some el => do
    removeFiles el.value.blobID
    pure (c.removeLocked el)

section Scan

/-- The temporary files among the names, removed as they are met. -/
def removeTemps (shard : Shard) : List String → Disk Unit
  | [] => pure ()
  | name :: rest => do
    if classify name = .temp then access (.remove ⟨shard, name⟩)
    removeTemps shard rest

/-- `loadMeta`. -/
def loadMeta (path : Path) : Disk (Except GoError DiskEntry) := do
  match (← access (.readFile path) : Except GoError Content) with
  | .error err => pure (.error err)
  | .ok body =>
    match MetaFile.unmarshal body with
    | .error err => pure (.error err)
    | .ok m => pure (.ok
        { blobID := m.blobID, sizeBytes := m.sizeBytes, hash := m.hash, storedAt := m.storedAt,
          expiresAt := m.expiresAt, pinned := m.pinned, nonEvictable := m.nonEvictable,
          hits := m.hitCount })

/-- The loop over the metadata files: the entries with a body, and the bodies that are
left over. -/
def loadAll (shard : Shard) (bodies : List String) :
    List String → Disk (List DiskEntry × List String)
  | [] => pure ([], bodies)
  | id :: rest =>
    if id ∉ bodies then do
      access (.remove ⟨shard, id ++ ".meta.json"⟩)
      loadAll shard bodies rest
    else do
      match ← loadMeta ⟨shard, id ++ ".meta.json"⟩ with
      | .error _ => do
        access (.remove ⟨shard, id ++ ".meta.json"⟩)
        access (.remove ⟨shard, id ++ ".bin"⟩)
        loadAll shard bodies rest
      | .ok entry => do
        let (entries, left) ← loadAll shard (bodies.filter (· ≠ id)) rest
        pure (entry :: entries, left)

def removeBodies (shard : Shard) : List String → Disk Unit
  | [] => pure ()
  | id :: rest => do
    access (.remove ⟨shard, id ++ ".bin"⟩)
    removeBodies shard rest

def bodiesOf (names : List String) : List String :=
  names.filterMap fun name => match classify name with
    | .body blobID => some blobID
    | _ => none

def metasOf (names : List String) : List String :=
  names.filterMap fun name => match classify name with
    | .metadata blobID => some blobID
    | _ => none

/-- `%q` of a path below the root. -/
def shown (root : String) (shard : Shard) : Arg :=
  .str (root ++ "/" ++ String.ofList (shard.map fun byte => Char.ofNat byte.toNat))

def readShard (root : String) (shard : Shard) : Disk (Except GoError (List DiskEntry)) := do
  match (← access (.readShard shard) : Except GoError (List String)) with
  | .error err => pure (.error (.wrap "hotcache: read shard %q: %w" [shown root shard] err))
  | .ok names => do
    removeTemps shard names
    let order : List String ← access (.range (metasOf names))
    let (entries, left) ← loadAll shard (bodiesOf names) order
    let orphans : List String ← access (.range left)
    removeBodies shard orphans
    pure (.ok entries)

def readEach (root : String) : List Shard → Disk (Except GoError (List DiskEntry))
  | [] => pure (.ok [])
  | shard :: rest => do
    match ← readShard root shard with
    | .error err => pure (.error err)
    | .ok entries => do
      match ← readEach root rest with
      | .error err => pure (.error err)
      | .ok more => pure (.ok (entries ++ more))

def readShards (root : String) : Disk (Except GoError (List DiskEntry)) := do
  match (← access .readRoot : Except GoError (List Shard)) with
  | .error err =>
    if err = errNotExist then pure (.ok [])
    else pure (.error (.wrap "hotcache: read root %q: %w" [.str root] err))
  | .ok shards => readEach root shards

/-- The entry as `warm` puts it into a list. -/
def warmed (policy : EvictionPolicy) (e : DiskEntry) : DiskEntry :=
  { e with lastAccess := e.storedAt, pinned := e.pinned && policy.kind = .lruHotPin }

/-- The loop of `warm` over the sorted entries. The counters of the statistics are kept
up to date by every `pushFront`; the code sets them once behind the loop. -/
def load (now : Time) (c : DiskCache) : List DiskEntry → Disk DiskCache
  | [] => pure c
  | e :: rest =>
    if expired e now then do
      removeFiles e.blobID
      load now c rest
    else load now (c.pushFront (warmed c.policy e)) rest

def warm (root : String) (now : Time) (c : DiskCache) : Disk (Except GoError DiskCache) := do
  match ← readShards root with
  | .error err => pure (.error err)
  | .ok entries => do
    let sorted : List DiskEntry ← access (.sortByStored entries)
    let c ← load now c sorted
    let fitted := c.evictMainLocked 0
    removeAll fitted.2
    pure (.ok fitted.1)

end Scan

/-- `scale` stands for `int64(float64(maxBytes) * fraction)`. -/
def empty (scale : Int → ℚ → Int) (policy : EvictionPolicy) : DiskCache :=
  { policy
    stats := { bytesLimit := policy.maxBytes }
    hotLimit :=
      if policy.kind = .lruHotPin ∧ 0 < policy.hotRegionFraction ∧ 0 < policy.maxBytes then
        scale policy.maxBytes policy.hotRegionFraction
      else 0 }

end DiskCache

def newDiskCache (root : String) (scale : Int → ℚ → Int) (policy : EvictionPolicy) (now : Time) :
    Disk (Except GoError DiskCache) :=
  if root = "" then pure (.error (.new "hotcache: disk cache root_path is required"))
  else
    let policy := policy.withDefaultKind
    match policy.validate with
    | some err => pure (.error err)
    | none => do
      match (← DiskCache.access .mkdirRoot : Option GoError) with
      | some err => pure (.error (.wrap "hotcache: create cache root %q: %w" [.str root] err))
      | none => DiskCache.warm root now (DiskCache.empty scale policy)

end KDrive.Hotcache
