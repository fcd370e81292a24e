import KDrive.Hotcache.RegionInvariant

/-! The in-memory cache: `NewMemoryCache`, `Get`, `Put` and `Evict`, with what each
does to the entry of every blob ID. The clock reading of a call is an argument. -/
namespace KDrive.Hotcache
open Go

structure MemEntry where
  blobID : String
  body : Bytes
  hash : Bytes := []
  storedAt : Time := 0
  lastAccess : Time := 0
  hits : Nat := 0
  pinned : Bool := false
  nonEvictable : Bool := false
  expiresAt : Time := 0
  deriving DecidableEq

instance : Resident MemEntry where
  blobID := MemEntry.blobID
  size e := e.body.length
  pinned := MemEntry.pinned
  nonEvictable := MemEntry.nonEvictable

abbrev MemoryCache := Regions MemEntry

/-- `scale` stands for `int64(float64(maxBytes) * fraction)`. -/
def newMemoryCache (scale : Int → ℚ → Int) (policy : EvictionPolicy) :
    Except GoError MemoryCache :=
  let policy := policy.withDefaultKind
  match policy.validate with
  | some err => .error err
  | none => .ok {
      policy
      stats := { bytesLimit := policy.maxBytes }
      hotLimit :=
        if policy.kind = .lruHotPin ∧ 0 < policy.hotRegionFraction ∧ 0 < policy.maxBytes then
          scale policy.maxBytes policy.hotRegionFraction
        else 0 }

namespace MemoryCache

/-- `entry.expiresAt` is set and past. -/
def expired (e : MemEntry) (now : Time) : Bool := e.expiresAt ≠ 0 ∧ e.expiresAt < now

def hit (now : Time) (e : MemEntry) : MemEntry := { e with hits := e.hits + 1, lastAccess := now }

def metadata (e : MemEntry) : Metadata :=
  { blobID := e.blobID, sizeBytes := e.body.length, hash := e.hash, storedAt := e.storedAt,
    lastAccess := e.lastAccess, hitCount := e.hits, pinned := e.pinned,
    nonEvictable := e.nonEvictable }

def get (c : MemoryCache) (b : String) (now : Time) :
    Except GoError (Reader × Metadata) × MemoryCache :=
  if b = "" then (.error (.new "hotcache: blob_id is required"), c)
  else match c.find b with
    | none => (.error errCacheMiss, { c with stats.misses := c.stats.misses + 1 })
    | some el =>
      if expired el.value now then
        let c := c.removeLocked el
        (.error errCacheMiss, { c with stats.misses := c.stats.misses + 1 })
      else
        let c := c.touch el (hit now)
        (.ok (⟨el.value.body, none⟩, metadata (hit now el.value)),
          { c with stats.hits := c.stats.hits + 1 })

def exceedsCapacity (size maxBytes : Int) : GoError :=
  .errorf "hotcache: blob %d bytes exceeds cache capacity %d" [.int size, .int maxBytes]

/-- The bytes `Put` keeps, or why it keeps none. -/
def buffer (policy : EvictionPolicy) (r : Reader) (opts : PutOptions) : Except GoError Bytes :=
  if 0 < opts.sizeBytes ∧ 0 < policy.maxBytes ∧ policy.maxBytes < opts.sizeBytes then
    .error (exceedsCapacity opts.sizeBytes policy.maxBytes)
  else
    match (r.capped policy.maxBytes).readAll with
    | .error err => .error (.wrap "hotcache: buffer blob: %w" [] err)
    | .ok data =>
      if 0 < policy.maxBytes ∧ policy.maxBytes < data.length then
        .error (exceedsCapacity data.length policy.maxBytes)
      else .ok data

def newEntry (policy : EvictionPolicy) (b : String) (data : Bytes) (opts : PutOptions)
    (now : Time) : MemEntry :=
  { blobID := b, body := data, hash := opts.hash, storedAt := now, lastAccess := now,
    pinned := opts.pinHot && policy.kind = .lruHotPin, nonEvictable := opts.nonEvictable,
    expiresAt :=
      if 0 < opts.ttl then now + opts.ttl
      else if 0 < policy.ttl then now + policy.ttl
      else 0 }

/-- The error of the call, if it has one, and the cache after it. -/
def put (c : MemoryCache) (b : String) (r : Option Reader) (opts : PutOptions) (now : Time) :
    Option GoError × MemoryCache :=
  if b = "" then (some (.new "hotcache: blob_id is required"), c)
  else match r with
    | none => (some (.new "hotcache: reader is required"), c)
    | some r =>
      match buffer c.policy r opts with
      | .error err => (some err, c)
      | .ok data =>
        let entry := newEntry c.policy b data opts now
        (none, (c.makeRoom b entry.pinned data.length).1.pushFront entry)

def evict (c : MemoryCache) (b : String) : MemoryCache :=
  match c.find b with
  | none => c
  | some el => c.removeLocked el

instance : Cache MemoryCache where
  get := get
  put c b r := put c b (some r)
  evict c b := (none, evict c b)

theorem buffer_keeps {policy : EvictionPolicy} (range : IsInt64 policy.maxBytes) {r : Reader}
    (ok : buffer policy r opts = .ok data) :
    data = if policy.maxBytes = maxInt64 then [] else r.data := by
  unfold buffer at ok
  split at ok
  · contradiction
  · split at ok
    · contradiction
    · rename_i read readAll
      split at ok
      · contradiction
      · rename_i fits
        cases ok
        exact Reader.capped_readAll range readAll fits

theorem buffer_accepts {policy : EvictionPolicy} (range : IsInt64 policy.maxBytes)
    (below : policy.maxBytes ≠ maxInt64) {data : Bytes} {opts : PutOptions}
    (announced : opts.sizeBytes ≤ data.length)
    (fits : 0 < policy.maxBytes → (data.length : Int) ≤ policy.maxBytes) :
    buffer policy ⟨data, none⟩ opts = .ok data := by
  have small : ¬ (0 < policy.maxBytes ∧ policy.maxBytes < data.length) := by
    rintro ⟨positive, excess⟩
    have fit := fits positive
    omega
  simp only [buffer, Reader.capped_of_fits range below fits, Reader.readAll, if_neg small]
  rw [if_neg (by omega)]

variable {c : MemoryCache} {b : String}

theorem get_wellFormed (wf : c.WellFormed) (b : String) (now : Time) :
    (get c b now).2.WellFormed := by
  unfold get
  split
  · exact wf
  · split
    · exact { wf with }
    · rename_i el found
      have member := ((wf.find_iff b).mp found).1
      split
      · exact { wf.removeLocked member with }
      · exact { wf.touch (hit now) member rfl rfl rfl with }

theorem put_wellFormed (wf : c.WellFormed) (b : String) (r : Option Reader) (opts : PutOptions)
    (now : Time) : (put c b r opts now).2.WellFormed := by
  unfold put
  split
  · exact wf
  · split
    · exact wf
    · split
      · exact wf
      · rename_i data _
        have room := Regions.makeRoom_roomMade wf b (newEntry c.policy b data opts now).pinned data.length
        refine room.wellFormed.pushFront room.vacant fun pin => ?_
        rw [room.policy]
        simp only [Resident.pinned, newEntry, Bool.and_eq_true, decide_eq_true_eq] at pin
        exact pin.2

theorem evict_wellFormed (wf : c.WellFormed) (b : String) : (evict c b).WellFormed := by
  unfold evict
  split
  · exact wf
  · rename_i el found
    exact wf.removeLocked ((wf.find_iff b).mp found).1

theorem put_policy (c : MemoryCache) (wf : c.WellFormed) (b : String) (r : Option Reader)
    (opts : PutOptions) (now : Time) : (put c b r opts now).2.policy = c.policy := by
  unfold put
  split
  · rfl
  · split
    · rfl
    · split
      · rfl
      · exact (Regions.makeRoom_roomMade wf b _ _).policy

theorem get_policy (c : MemoryCache) (b : String) (now : Time) :
    (get c b now).2.policy = c.policy := by
  unfold get
  split
  · rfl
  · split
    · rfl
    · split <;> rfl

theorem evict_policy (c : MemoryCache) (b : String) : (evict c b).policy = c.policy := by
  unfold evict
  split <;> rfl

/-- A Put that fails leaves the cache as it was. -/
theorem put_error (failed : (put c b r opts now).1 = some err) : (put c b r opts now).2 = c := by
  unfold put at failed ⊢
  split at failed
  · rename_i empty
    simp only [if_pos empty]
  · rename_i nonempty
    simp only [if_neg nonempty]
    cases r with
    | none => rfl
    | some r =>
      simp only at failed ⊢
      split at failed
      · rfl
      · contradiction

theorem put_ok_iff (b : String) (r : Reader) :
    (put c b (some r) opts now).1 = none ↔ b ≠ "" ∧ ∃ data, buffer c.policy r opts = .ok data := by
  unfold put
  split
  · rename_i empty
    simp [empty]
  · rename_i nonempty
    simp only
    split
    · rename_i err failed
      simp [failed]
    · rename_i data stored
      simp [stored, nonempty]

theorem put_entry (wf : c.WellFormed) (ok : (put c b (some r) opts now).1 = none) :
    ∃ data, buffer c.policy r opts = .ok data ∧
      (put c b (some r) opts now).2.entry b = some (newEntry c.policy b data opts now) ∧
      ∀ other, other ≠ b → (put c b (some r) opts now).2.entry other = c.entry other ∨
        (put c b (some r) opts now).2.entry other = none ∧
          ∃ value, c.entry other = some value ∧ value.nonEvictable = false := by
  obtain ⟨nonempty, data, stored⟩ := (put_ok_iff b r).mp ok
  refine ⟨data, stored, ?_⟩
  have room := Regions.makeRoom_roomMade wf b (newEntry c.policy b data opts now).pinned data.length
  have kind : pinned (newEntry c.policy b data opts now) = true →
      (c.makeRoom b (newEntry c.policy b data opts now).pinned data.length).1.policy.kind =
        .lruHotPin := by
    intro pin
    rw [room.policy]
    simp only [Resident.pinned, newEntry, Bool.and_eq_true, decide_eq_true_eq] at pin
    exact pin.2
  have pushed := room.wellFormed.pushFront_entry room.vacant kind
  simp only [put, if_neg nonempty, stored]
  constructor
  · exact (pushed b).trans (if_pos rfl)
  · intro other different
    rw [(pushed other).trans (if_neg different)]
    exact room.entry other different

theorem evict_entry (wf : c.WellFormed) (b other : String) :
    (evict c b).entry other = if other = b then none else c.entry other := by
  unfold evict
  split
  · rename_i missing
    split
    · rename_i same
      simp [Regions.entry, same, missing]
    · rfl
  · rename_i el found
    obtain ⟨member, named⟩ := (wf.find_iff b).mp found
    rw [wf.removeLocked_entry member, named]

theorem get_missing (nonempty : b ≠ "") (missing : c.entry b = none) (now : Time) :
    (get c b now).1 = .error errCacheMiss ∧ (get c b now).2.entry = c.entry := by
  have absent : c.find b = none := by simpa [Regions.entry] using missing
  simp only [get, if_neg nonempty, absent]
  exact ⟨trivial, rfl⟩

section
variable (wf : c.WellFormed)
include wf

theorem get_present (nonempty : b ≠ "") (found : c.entry b = some e)
    (alive : expired e now = false) :
    (get c b now).1 = .ok (⟨e.body, none⟩, metadata (hit now e)) ∧
      ∀ other, (get c b now).2.entry other =
        if other = b then some (hit now e) else c.entry other := by
  obtain ⟨el, held, rfl⟩ := Option.map_eq_some_iff.mp found
  obtain ⟨member, named⟩ := (wf.find_iff b).mp held
  have touched := wf.touch_entry (hit now) member rfl rfl rfl
  rw [named] at touched
  simp only [get, if_neg nonempty, held, alive]
  exact ⟨rfl, touched⟩

theorem get_expired (nonempty : b ≠ "") (found : c.entry b = some e)
    (lapsed : expired e now = true) :
    (get c b now).1 = .error errCacheMiss ∧
      ∀ other, (get c b now).2.entry other = if other = b then none else c.entry other := by
  obtain ⟨el, held, rfl⟩ := Option.map_eq_some_iff.mp found
  obtain ⟨member, named⟩ := (wf.find_iff b).mp held
  have removed := wf.removeLocked_entry member
  rw [named] at removed
  simp only [get, if_neg nonempty, held, lapsed, if_true]
  exact ⟨trivial, removed⟩

/-- A Get touches the entry of its own blob ID only. -/
theorem get_entry (b : String) (now : Time) (other : String) :
    (get c b now).2.entry other = c.entry other ∨ other = b ∧ ∃ e, c.entry b = some e ∧
      ((get c b now).2.entry b = some (hit now e) ∨
        expired e now = true ∧ (get c b now).2.entry b = none) := by
  by_cases empty : b = ""
  · simp [get, empty]
  · cases found : c.entry b with
    | none => exact .inl (by rw [(get_missing empty found now).2])
    | some e =>
      by_cases same : other = b <;> cases lapsed : expired e now
      · simp [same, (get_present wf empty found lapsed).2]
      · simp [same, lapsed, (get_expired wf empty found lapsed).2]
      · simp [same, (get_present wf empty found lapsed).2]
      · simp [same, (get_expired wf empty found lapsed).2]

end
end MemoryCache
end KDrive.Hotcache
