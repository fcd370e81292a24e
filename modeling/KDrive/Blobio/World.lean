import KDrive.Blobio.Pipeline
import KDrive.Blobstore.Store
import KDrive.Interaction.Schedule

/-! What a pipeline shares between its goroutines, and how each request is served:
as it should be, or with an error or a panic in place of the answer, before or
after the call took effect. -/
namespace KDrive.Blobio
open Go Blobstore Hotcache Interaction

/-- One `sync.Map` of calls. `calls` keeps every call ever stored: waiters hold on
to theirs after it left the map. -/
structure Flights where
  inflight : String → Option Nat := fun _ => none
  calls : List Flight := []

structure World (C S : Type) where
  cache : C
  status : String → Option BlobStatus := fun _ => none
  store : S
  flights : Table → Flights := fun _ => {}
  ctxErr : Context → Option GoError := fun _ => none
  fills : List Fill := []
  clock : Time := 0

inductive Trouble where
  | calm
  | fails (err : GoError) (applied : Bool)
  | panics (message : String) (applied : Bool)
  deriving DecidableEq

structure Fault (S : Type) [Store S] where
  weather : Store.Weather S
  trouble : Trouble := .calm

/-- What a failing call returns. A cache call has no failures of its own, and a
panic in `UploadPart` is on a worker goroutine, where nothing recovers it. -/
def Call.failure : (c : Call) → GoError → Option c.Result
  | .cacheGet .., _ | .cachePut .., _ | .cacheEvict .., _ => none
  | .statusGet .., err => some (.error err)
  | .statusPut .., err | .markDurable .., err => some (some err)
  | .storePut .., err | .storeGet .., err | .storeHead .., err => some (.error err)
  | .createMultipart .., err | .uploadPart .., err | .completeMultipart .., err => some (.error err)
  | .abortMultipart _, err => some (some err)

def Call.recoverable : Call → Bool
  | .uploadPart .. => false
  | _ => true

section
variable {C S : Type} [Cache C] [Store S]

def markDurable (status : String → Option BlobStatus) (b versionID : String) (size : Int)
    (checksum : String) (durableAt : Time) : String → Option BlobStatus :=
  match status b with
  | none => status
  | some existing => Function.update status b (some { existing with
      commitState := .durable
      versionID := versionID
      size := size
      checksumSHA256 := checksum
      durableAt := durableAt })

theorem markDurable_apply (status : String → Option BlobStatus) (b versionID : String) (size : Int)
    (checksum : String) (durableAt : Time) (other : String) :
    markDurable status b versionID size checksum durableAt other =
      if other = b then (status b).map fun existing => { existing with
        commitState := .durable
        versionID := versionID
        size := size
        checksumSHA256 := checksum
        durableAt := durableAt }
      else status other := by
  unfold markDurable
  cases found : status b with
  | none =>
    split
    · rename_i same
      simp [same, found]
    · rfl
  | some existing => simp [Function.update_apply]

/-- The call as its component performs it. -/
def perform (weather : Store.Weather S) (w : World C S) : (c : Call) → c.Result × World C S
  | .cacheGet _ b => ((Cache.get w.cache b w.clock).1,
      { w with cache := (Cache.get w.cache b w.clock).2 })
  | .cachePut _ b r opts => ((Cache.put w.cache b r opts w.clock).1,
      { w with cache := (Cache.put w.cache b r opts w.clock).2 })
  | .cacheEvict _ b => ((Cache.evict w.cache b).1, { w with cache := (Cache.evict w.cache b).2 })
  | .statusGet _ b => (.ok (w.status b), w)
  | .statusPut _ status =>
      (none, { w with status := Function.update w.status status.blobID (some status) })
  | .markDurable _ b versionID size checksum durableAt =>
      (none, { w with status := markDurable w.status b versionID size checksum durableAt })
  | .storePut _ req => ((Store.put weather w.clock w.store req).1,
      { w with store := (Store.put weather w.clock w.store req).2 })
  | .storeGet _ ref => ((Store.get weather w.store ref).1,
      { w with store := (Store.get weather w.store ref).2 })
  | .storeHead _ ref => ((Store.head weather w.store ref).1,
      { w with store := (Store.head weather w.store ref).2 })
  | .createMultipart _ req => ((Store.createMultipart weather w.store req).1,
      { w with store := (Store.createMultipart weather w.store req).2 })
  | .uploadPart _ req => ((Store.uploadPart weather w.store req).1,
      { w with store := (Store.uploadPart weather w.store req).2 })
  | .completeMultipart _ req => ((Store.completeMultipart weather w.clock w.store req).1,
      { w with store := (Store.completeMultipart weather w.clock w.store req).2 })
  | .abortMultipart upload => ((Store.abortMultipart weather w.store upload).1,
      { w with store := (Store.abortMultipart weather w.store upload).2 })

def World.flight (w : World C S) (table : Table) (n : Nat) : Option Flight :=
  (w.flights table).calls[n]?

def World.setFlights (w : World C S) (table : Table) (flights : Flights) : World C S :=
  { w with flights := Function.update w.flights table flights }

/-- Store a new call under `b`, as its leader. -/
def World.lead (w : World C S) (table : Table) (b : String) : World C S :=
  let flights := w.flights table
  w.setFlights table ⟨Function.update flights.inflight b (some flights.calls.length),
    flights.calls ++ [{ blobID := b }]⟩

def World.modifyCall (w : World C S) (table : Table) (n : Nat) (f : Flight → Flight) :
    World C S :=
  w.setFlights table { w.flights table with calls := (w.flights table).calls.modify n f }

def World.delete (w : World C S) (table : Table) (b : String) : World C S :=
  let flights := w.flights table
  w.setFlights table { flights with inflight := Function.update flights.inflight b none }

/-- An access to the single-flight tables, the background tasks or the clock; a
waiter whose context is done may leave before the flight lands. -/
def serve (fault : Fault S) (w : World C S) : (q : Request) → Option (q.Reply × World C S)
  | .call c =>
    match fault.trouble with
    | .calm => some (.returned (perform fault.weather w c).1, (perform fault.weather w c).2)
    | .fails err applied => (c.failure err).map fun result =>
        (.returned result, if applied then (perform fault.weather w c).2 else w)
    | .panics message applied =>
      if c.recoverable then
        some (.panicked message, if applied then (perform fault.weather w c).2 else w)
      else none
  | .join table b =>
    match (w.flights table).inflight b with
    | some n => some (.waits n, w)
    | none => some (.leads (w.flights table).calls.length, w.lead table b)
  | .await table ctx n =>
    match fault.trouble, w.ctxErr ctx, w.flight table n with
    | .calm, _, some flight => if flight.done then some (.ok flight, w) else none
    | .fails .., some err, _ => some (.error err, w)
    | _, _, _ => none
  | .publish table n err body info =>
    some ((), w.modifyCall table n (.publish err body info))
  | .closeDone table n => some ((), w.modifyCall table n .close)
  | .delete table b => some ((), w.delete table b)
  | .go fill => some ((), { w with fills := w.fills ++ [fill] })
  | .lifecycleErr => some (w.ctxErr .lifecycle, w)
  | .now => some (w.clock, w)

/-- A fill starts once, after the Read that left it behind. -/
def World.starts (w : World C S) : Operation → Option (World C S)
  | .fill task => if task ∈ w.fills then some { w with fills := w.fills.erase task } else none
  | _ => some w

inductive Change where
  | tick (now : Time)
  | cancel (ctx : Context) (err : GoError)
  deriving DecidableEq

def World.change (w : World C S) : Change → Option (World C S)
  | .tick now => if w.clock ≤ now then some { w with clock := now } else none
  | .cancel ctx err =>
    if w.ctxErr ctx = none then
      some { w with ctxErr := Function.update w.ctxErr ctx (some err) }
    else none

/-- Requests meet only faults that are `allowed`. -/
def driver (C S : Type) [Cache C] [Store S] (allowed : Fault S → Prop) :
    Driver pipeline (World C S) Operation { fault : Fault S // allowed fault } Change where
  serve _ fault := serve fault.val
  starts := World.starts
  change c w := w.change c

/-- Any number of clients of one pipeline. `opens` restricts what they call and
`admits` the runs. -/
def machine (C S : Type) [Cache C] [Store S] (cfg : Config) (allowed : Fault S → Prop)
    (opens : Operation → Prop) (admits : Admission pipeline (World C S) Operation) :
    Machine pipeline (World C S) Operation (Except String Answer) :=
  (driver C S allowed).machine (fun op => (op.body cfg).run) opens admits

end

section
variable {C S : Type} (w : World C S) (table other : Table) (b : String)

theorem flight_lead (n : Nat) : (w.lead table b).flight other n =
    if other = table ∧ n = (w.flights table).calls.length then some { blobID := b }
    else w.flight other n := by
  simp only [World.flight, World.lead, World.setFlights, Function.update_apply]
  by_cases same : other = table
  · subst same
    simp only [if_true, true_and, List.getElem?_append, List.getElem?_singleton]
    split
    · rw [if_neg (by omega)]
    · by_cases last : n = (w.flights other).calls.length
      · simp [last]
      · rw [if_neg (by omega), if_neg last, List.getElem?_eq_none (by omega)]
  · simp only [same, if_false, false_and]

theorem inflight_lead (x : String) : ((w.lead table b).flights other).inflight x =
    if other = table ∧ x = b then some (w.flights table).calls.length
    else (w.flights other).inflight x := by
  simp only [World.lead, World.setFlights, Function.update_apply]
  by_cases same : other = table
  · subst same
    simp [Function.update_apply]
  · simp [same]

theorem flight_modifyCall (i n : Nat) (f : Flight → Flight) :
    (w.modifyCall table i f).flight other n =
      if other = table ∧ i = n then (w.flight other n).map f else w.flight other n := by
  simp only [World.flight, World.modifyCall, World.setFlights, Function.update_apply]
  by_cases same : other = table
  · subst same
    by_cases here : i = n <;> simp [here]
  · simp [same]

theorem inflight_modifyCall (i : Nat) (f : Flight → Flight) :
    ((w.modifyCall table i f).flights other).inflight = (w.flights other).inflight := by
  simp only [World.modifyCall, World.setFlights, Function.update_apply]
  split
  · rename_i same
    rw [same]
  · rfl

theorem flight_delete (n : Nat) : (w.delete table b).flight other n = w.flight other n := by
  simp only [World.flight, World.delete, World.setFlights, Function.update_apply]
  split
  · rename_i same
    rw [same]
  · rfl

theorem inflight_delete (x : String) : ((w.delete table b).flights other).inflight x =
    if other = table ∧ x = b then none else (w.flights other).inflight x := by
  simp only [World.delete, World.setFlights, Function.update_apply]
  by_cases same : other = table
  · subst same
    simp [Function.update_apply]
  · simp [same]

end
end KDrive.Blobio
