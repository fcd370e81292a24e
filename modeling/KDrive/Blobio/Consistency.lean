import KDrive.Blobio.Rules
import KDrive.Hotcache.Steady

/-! One body for every blob ID: what then holds of the cache, the status rows, the
durable objects and the flights between any two requests, and what a request has
to respect so that it goes on holding. -/
namespace KDrive.Blobio
open Go Blobstore Hotcache Interaction

abbrev Node := World MemoryCache MapStore
abbrev nodeMachine := machine MemoryCache MapStore

def Stored (store : MapStore) (b : String) : Prop := ∃ object, store.objects b = some object

/-- Recorded size and checksum are those of the body. -/
structure Describes (body : Bytes) (size : Int) (checksum : String) : Prop where
  size : size = body.length
  checksum : checksum = checksumSHA256 body

/-- The body of every blob ID, whether every answer of the store tells its size and
checksum, and whether the cache has no TTL. -/
structure Contents where
  body : String → Bytes
  told : Prop
  lasting : Prop

instance : CoeFun Contents fun _ => String → Bytes := ⟨Contents.body⟩

def Contents.Described (content : Contents) (b : String) (size : Int) (checksum : String) : Prop :=
  content.told → Describes (content b) size checksum

section
variable (content : Contents)

/-- What a restore of `b` may hand on. -/
structure Restored (store : MapStore) (b : String) (body : Bytes) (info : ObjectMeta) : Prop where
  body : body = content b
  stored : Stored store b
  described : content.Described b info.size info.checksumSHA256

def FlightSound (store : MapStore) (flight : Flight) : Prop :=
  flight.err = none → Restored content store flight.blobID flight.body flight.info

/-- An evictable entry and a durable row both mean that the object is stored. -/
structure Consistent (w : Node) : Prop where
  steady : w.cache.Steady content.lasting
  cached : ∀ b held, w.cache.view b = some held →
    held.body = content b ∧ (held.nonEvictable = false → Stored w.store b)
  objects : ∀ b object, w.store.objects b = some object → object.data = content b
  parts : ∀ upload parts, w.store.uploads upload = some parts → ∀ part ∈ parts,
    1 ≤ part.1 ∧ part.2 = slice promotePartSize (content upload.key) (part.1 - 1).toNat
  rows : ∀ b status, w.status b = some status →
    content.Described b status.size status.checksumSHA256 ∧
      (status.commitState = .durable → Stored w.store b)
  keyed : ∀ b n, (w.flights .restore).inflight b = some n →
    ∃ flight, w.flight .restore n = some flight ∧ flight.blobID = b
  landed : ∀ n flight, w.flight .restore n = some flight → flight.done = true →
    FlightSound content w.store flight
  fills : ∀ fill ∈ w.fills, Restored content w.store fill.blobID fill.body fill.info

/-- The body of `b` is in the cache or is the current object. -/
def Holds (w : Node) (b : String) : Prop :=
  (∃ held, w.cache.view b = some held ∧ held.body = content b) ∨
    ∃ object, w.store.objects b = some object ∧ object.data = content b

/-- What no request undoes: stored objects stay, flights keep their blob and their
sound result, and, without a TTL and with guarded evictions, held bodies stay held. -/
structure Keeps (guarded : Prop) (w w' : Node) : Prop where
  stored : ∀ b, Stored w.store b → Stored w'.store b
  flights : ∀ n flight, w.flight .restore n = some flight →
    ∃ flight', w'.flight .restore n = some flight' ∧
      flight'.blobID = flight.blobID ∧ (FlightSound content w.store flight → FlightSound content w'.store flight')
  held : guarded → content.lasting → ∀ b, Holds content w b → Holds content w' b

def custody (guarded : Prop) : Discipline Node :=
  ⟨Consistent content, Keeps content guarded, Keeps content guarded⟩

/-- What a request has to respect. -/
def Respects (guarded : Prop) (w : Node) : Request → Prop
  | .call (.cachePut _ b r opts) =>
    r = ⟨content b, none⟩ ∧ opts.ttl = 0 ∧ (opts.nonEvictable = false → Stored w.store b)
  | .call (.cacheEvict _ b) => guarded → Stored w.store b ∨ w.cache.view b = none
  | .call (.statusPut _ status) =>
    content.Described status.blobID status.size status.checksumSHA256 ∧
      (status.commitState = .durable → Stored w.store status.blobID)
  | .call (.markDurable _ b _ size checksum _) =>
    Stored w.store b ∧ content.Described b size checksum
  | .call (.storePut _ req) => req.body = ⟨content req.key, none⟩
  | .call (.uploadPart _ req) => 1 ≤ req.partNumber →
    req.body = slice promotePartSize (content req.upload.key) (req.partNumber - 1).toNat
  | .call (.completeMultipart _ req) => req.parts.map CompletedPart.partNumber =
    partNumbers (partCount promotePartSize (content req.upload.key).length)
  | .publish .restore n err body info => ∀ flight, w.flight .restore n = some flight →
    FlightSound content w.store (flight.publish err body info)
  | .closeDone .restore n => ∀ flight, w.flight .restore n = some flight →
    FlightSound content w.store flight
  | .go fill => Restored content w.store fill.blobID fill.body fill.info
  | _ => True

end

variable {content : Contents} {guarded : Prop} {w w' w'' : Node} {b : String}

theorem Restored.mono {store store' : MapStore} {body : Bytes} {info : ObjectMeta}
    (restored : Restored content store b body info)
    (stored : ∀ b, Stored store b → Stored store' b) : Restored content store' b body info :=
  { restored with stored := stored b restored.stored }

theorem Keeps.refl (w : Node) : Keeps content guarded w w :=
  ⟨fun _ stored => stored, fun _ flight found => ⟨flight, found, rfl, fun sound => sound⟩,
    fun _ _ _ held => held⟩

theorem Keeps.trans (first : Keeps content guarded w w') (second : Keeps content guarded w' w'') :
    Keeps content guarded w w'' where
  stored b stored := second.stored b (first.stored b stored)
  flights n flight found := by
    obtain ⟨middle, found', named, sound⟩ := first.flights n flight found
    obtain ⟨last, found'', named', sound'⟩ := second.flights n middle found'
    exact ⟨last, found'', named'.trans named, fun s => sound' (sound s)⟩
  held guard last b held := second.held guard last b (first.held guard last b held)

section Updates

theorem Consistent.setCache (inv : Consistent content w) {cache : MemoryCache}
    (steady : cache.Steady content.lasting)
    (cached : ∀ b held, cache.view b = some held →
      held.body = content b ∧ (held.nonEvictable = false → Stored w.store b)) :
    Consistent content { w with cache } :=
  { inv with steady, cached }

theorem Keeps.setCache {cache : MemoryCache}
    (held : guarded → content.lasting → ∀ b, Holds content w b → Holds content { w with cache } b) :
    Keeps content guarded w { w with cache } :=
  { (Keeps.refl w : Keeps content guarded w w) with held }

theorem Consistent.setStatus (inv : Consistent content w) {status : String → Option BlobStatus}
    (rows : ∀ b row, status b = some row → content.Described b row.size row.checksumSHA256 ∧
      (row.commitState = .durable → Stored w.store b)) :
    Consistent content { w with status } :=
  { inv with rows }

theorem Keeps.setStatus {status : String → Option BlobStatus} :
    Keeps content guarded w { w with status } :=
  { (Keeps.refl w : Keeps content guarded w w) with }

/-- An update of the store that only adds objects and parts of the right bodies. -/
structure Extends (content : Contents) (w : Node) (store : MapStore) : Prop where
  grows : ∀ b, Stored w.store b → Stored store b
  objects : ∀ b object, store.objects b = some object → object.data = content b
  parts : ∀ upload parts, store.uploads upload = some parts → ∀ part ∈ parts,
    1 ≤ part.1 ∧ part.2 = slice promotePartSize (content upload.key) (part.1 - 1).toNat

theorem Consistent.setStore (inv : Consistent content w) {store : MapStore}
    (extended : Extends content w store) : Consistent content { w with store } where
  steady := inv.steady
  cached b held found :=
    ⟨(inv.cached b held found).1, fun free => extended.grows b ((inv.cached b held found).2 free)⟩
  objects := extended.objects
  parts := extended.parts
  rows b row found :=
    ⟨(inv.rows b row found).1, fun durable => extended.grows b ((inv.rows b row found).2 durable)⟩
  keyed := inv.keyed
  landed n flight found closed noErr := (inv.landed n flight found closed noErr).mono extended.grows
  fills fill member := (inv.fills fill member).mono extended.grows

theorem Keeps.setStore {store : MapStore} (extended : Extends content w store) :
    Keeps content guarded w { w with store } where
  stored := extended.grows
  flights n flight found := ⟨flight, found, rfl, fun sound noErr => (sound noErr).mono extended.grows⟩
  held _ _ b := by
    rintro (cached | ⟨object, found, _⟩)
    · exact .inl cached
    · obtain ⟨later, found'⟩ := extended.grows b ⟨object, found⟩
      exact .inr ⟨later, found', extended.objects b later found'⟩

end Updates

end KDrive.Blobio
