import KDrive.Blobio.FlightResults
import KDrive.Blobio.Acknowledged

/-! No caller of a flight, leader or waiter, is told of a success that did not happen,
as long as no component panics, no Write puts a blob back while its promotion is still
landing, and the restore limit is below the largest `int64`. -/
namespace KDrive.Blobio
open Go Blobstore Hotcache Interaction

section Composition
variable {C S : Type}

/-- What a call that has returned says about the flight it joined. -/
def Explained (calm : Prop) (cfg : Config) (op : Stamped Operation) (history : History pipeline)
    (result : Except String Answer) (w : Log C S) : Prop :=
  match op.op, result with
  | .promote ctx b, .ok (.promoted err) =>
    (∃ n, Aboard .promote b n history ∧
      ((∃ e, err = some e ∧ w.now.ctxErr ctx = some e) ∨ Promotes w.deeds n b err)) ∧
    (err = none → Secured calm w.worlds op.since b)
  | .write _ b _ _, .ok (.wrote (.ok res)) => res.commitState = .durable →
    (∃ n, Aboard .promote b n history ∧ Promotes w.deeds n b none) ∧
      Secured calm w.worlds op.since b
  | .read ctx b, .ok (.read result) => ReadExplained cfg ctx b history result w
  | _, .ok _ => True
  | _, .error _ => False

variable [Cache C] [Store S] {calm : Prop} {cfg : Config} {opens : Operation → Prop}
  {admits : Admission pipeline (World C S) Operation}
  (keeps : calm → ∀ op history w q reply, admits op history w q reply → ¬ Recaches w q)
include keeps

theorem body_reports {w : Log C S} (op : Stamped Operation)
    (late : op.since ≤ w.past.length) :
    Reports calm cfg opens admits op (op.op.body cfg) [] w fun full answer w' =>
      Explained calm cfg op full (.ok answer) w' := by
  obtain ⟨op, since⟩ := op
  cases op with
  | promote ctx b => exact Returns.map (promote_reports keeps rfl late b)
  | read ctx b => exact Returns.map (read_reports keeps rfl b)
  | evict ctx b => exact Returns.map ((evict_reports keeps ctx b).mono fun _ _ _ _ _ => trivial)
  | fill task => exact Returns.map ((fillCache_reports keeps task).mono fun _ _ _ _ _ => trivial)
  | write ctx b body opts =>
    refine Returns.map ((write_reports keeps rfl late b body opts).mono
      fun _ result w' _ explained => ?_)
    cases result with
    | error err => trivial
    | ok res => exact explained res rfl

theorem flights_compose : Composes (machine C S cfg NoPanic opens admits).logged
    (singleFlight calm cfg C S) (Explained calm cfg) where
  toCoherent := singleFlight_coherent
  environment := by
    rintro w w' inv ⟨now, ⟨change, changed⟩, rfl⟩
    obtain ⟨flights, status, cancelled⟩ := change_same changed
    have changes : Changes calm cfg w now := .same flights cancelled
      (fun _ _ _ _ durable => by rwa [Durable, status]) fun _ present => by rwa [status]
    exact changes.advances inv none
  starts := by
    rintro w op w' inv ⟨now, ⟨-, started⟩, punctual, rfl⟩
    obtain ⟨flights, ctxErr, status⟩ := starts_same started
    have changes : Changes calm cfg w now :=
      .same flights (fun _ _ done => by rw [ctxErr, done])
        (fun _ _ _ _ durable => by rwa [Durable, status]) fun _ present => by rwa [status]
    obtain ⟨kept, advances⟩ := changes.advances inv none
    refine ⟨kept, advances, Assures.mono ?_ (body_reports keeps op ?_)⟩
    · rintro _ _ _ _ ⟨value, rfl, told⟩
      exact told
    · rw [punctual]
      exact advances.later.length

end Composition

section Honesty
variable {C S : Type}

abbrev Past (C S : Type) :=
  System pipeline (Log C S) (Stamped Operation) (Except String Answer)

/-- The result is made of what the call that leads flight `n` got from the store: all its
bytes, and their checksum, which is the one the store gave if it gave any. -/
def Fetched (deeds : Deeds) (n : Nat) (b : String) (res : ReadResult) : Prop :=
  ∃ (leader : Stamped Operation) (r : Reader) (info : ObjectMeta),
    List.Sublist [⟨leader, .join .restore b, .leads n⟩,
      ⟨leader, .call (.storeGet leader.op.context { key := b }), .returned (.ok (r, info))⟩] deeds ∧
    res.body = ⟨r.data, none⟩ ∧ res.size = info.size ∧ res.versionID = info.versionID ∧
    res.checksumSHA256 = checksumSHA256 r.data ∧
    (info.checksumSHA256 = "" ∨ info.checksumSHA256 = checksumSHA256 r.data)

/-- The leader's promotion came to success, and the blob was durable from `since` on. -/
def Achieves (w : Log C S) (n since : Nat) (b : String) : Prop :=
  Promotes w.deeds n b none ∧ WasDurable w.worlds since b

/-- Whoever was told of a success of its flight was told the truth. -/
structure NoFalseSuccess (s : Past C S) : Prop where
  restored : ∀ ctx b since history res,
    ⟨⟨.read ctx b, since⟩, history, .ret (.ok (.read (.ok res)))⟩ ∈ s.threads →
    res.fromCache = false → ∃ n, Aboard .restore b n history ∧ Fetched s.world.deeds n b res
  promoted : ∀ ctx b since history,
    ⟨⟨.promote ctx b, since⟩, history, .ret (.ok (.promoted none))⟩ ∈ s.threads →
    ∃ n, Aboard .promote b n history ∧ Achieves s.world n since b
  synced : ∀ ctx b body opts since history res,
    ⟨⟨.write ctx b body opts, since⟩, history, .ret (.ok (.wrote (.ok res)))⟩ ∈ s.threads →
    res.commitState = .durable → ∃ n, Aboard .promote b n history ∧ Achieves s.world n since b

/-- No Write replaces a durable row while a promote flight of its blob is in the table. -/
def KeepsDurable : Admission pipeline (World C S) Operation := fun _ _ w q _ => ¬ Recaches w q

theorem Restores.fetched (restores : Restores cfg deeds n b (.ok (body, info)))
    (range : IsInt64 cfg.maxRestoreBytes) (below : cfg.maxRestoreBytes ≠ maxInt64)
    (result : readResult (.ok (body, info)) = .ok res) : Fetched deeds n b res := by
  obtain ⟨leader, answer, logged, restored⟩ := restores
  cases result
  match answer, restored with
  | .error err, restored => cases restored
  | .ok (r, info'), restored =>
    obtain ⟨bytes, rfl, verified⟩ := restoreBody_ok range restored
    rw [if_neg below] at bytes
    subst bytes
    exact ⟨leader, r, info', logged, rfl, rfl, rfl, rfl, verified⟩

variable [Cache C] [Store S] {cfg : Config} {w : World C S} {s : Past C S}

/-- In every run, whatever the interleaving and whatever fails, and for the states in
which a call has just returned in particular. -/
theorem flights_honest (range : IsInt64 cfg.maxRestoreBytes)
    (below : cfg.maxRestoreBytes ≠ maxInt64) (idle : ∀ table, w.flights table = {})
    (run : (machine C S cfg NoPanic (fun _ => True) KeepsDurable).logged.Reaches ⟨⟨w, []⟩, []⟩ s) :
    NoFalseSuccess s := by
  have composed : Composes (machine C S cfg NoPanic (fun _ => True) KeepsDurable).logged
      (singleFlight True cfg C S) (Explained True cfg) :=
    flights_compose fun _ _ _ _ _ _ admitted => admitted
  have initial : Honest True cfg ⟨w, []⟩ := honest_idle idle
  constructor
  · intro ctx b since history res member missed
    have explained : ReadExplained cfg ctx b history (.ok res) s.world :=
      composed.returned initial run member
    rcases explained with ⟨-, cached⟩ | ⟨n, aboard, ⟨err, failed, -⟩ | ⟨restored, restores, result⟩⟩
    · rw [cached res rfl] at missed
      contradiction
    · cases failed
    · match restored, restores, result with
      | .error err, _, result => cases result
      | .ok (body, info), restores, result =>
        exact ⟨n, aboard, restores.fetched range below result.symm⟩
  · intro ctx b since history member
    obtain ⟨⟨n, aboard, ⟨e, failed, -⟩ | promotes⟩, durable⟩ :=
      composed.returned initial run member
    · cases failed
    · exact ⟨n, aboard, promotes, (durable rfl).2 trivial⟩
  · intro ctx b body opts since history res member state
    obtain ⟨⟨n, aboard, promotes⟩, durable⟩ := composed.returned initial run member state
    exact ⟨n, aboard, promotes, durable.2 trivial⟩

end Honesty

section Runs
variable {allowed : Fault MapStore → Prop} {admits : Admission pipeline Node Operation}

abbrev Schedule (allowed : Fault MapStore → Prop) :=
  List (Move Operation { fault : Fault MapStore // allowed fault } Change)

/-- The moves, logged, from a pipeline over an empty cache and this store. -/
def followLogged (cfg : Config) (store : MapStore)
    (checks : Operation → History pipeline → Node → (q : Request) → q.Reply → Bool)
    (moves : Schedule allowed) : Option (Past MemoryCache MapStore) :=
  (driver MemoryCache MapStore allowed).logged.follow (fun op => (op.op.body cfg).run)
    (fun op history w q reply => checks op.op history w.now q reply) (stamp moves)
    ⟨⟨bareNode store, []⟩, []⟩

theorem followLogged_exhibits {opens : Operation → Prop} (cfg : Config) (store : MapStore)
    (checks : Operation → History pipeline → Node → (q : Request) → q.Reply → Bool)
    (moves : Schedule allowed)
    (sound : ∀ op history w q reply, checks op history w q reply = true →
      admits op history w q reply)
    (opened : ∀ op, .start op ∈ moves → opens op)
    {p : Past MemoryCache MapStore → Bool}
    (found : (followLogged cfg store checks moves).any p = true) :
    ∃ s, (nodeMachine cfg allowed opens admits).logged.Reaches
      ⟨⟨bareNode store, []⟩, []⟩ s ∧ p s = true := by
  rw [nodeMachine, machine, ← Driver.logged_machine]
  exact Driver.follow_exhibits
    (fun (op : Stamped Operation) history (w : Log MemoryCache MapStore) q reply =>
      sound op.op history w.now q reply)
    (fun op member => opened op.op (start_mem_stamp member)) found

def keepsDurable (_ : Operation) (_ : History pipeline) (w : Node) (q : Request) (_ : q.Reply) :
    Bool :=
  match q with
  | .call (.statusPut _ row) => ((w.flights .promote).inflight row.blobID).isNone
  | _ => true

theorem keepsDurable_sound (op : Operation) (history : History pipeline) (w : Node) (q : Request)
    (reply : q.Reply) (checked : keepsDurable op history w q reply = true) :
    KeepsDurable op history w q reply := by
  rintro ⟨ctx, row, rfl, -, -, inside⟩
  exact inside (Option.isNone_iff_eq_none.mp checked)

/-- A nil Promote during which the blob was at no time durable, or a Read with bytes
the store never gave. -/
def forged (w : Log MemoryCache MapStore) :
    Thread pipeline (Stamped Operation) (Except String Answer) → Bool
  | ⟨⟨.promote _ b, since⟩, _, .ret (.ok (.promoted none))⟩ =>
    (w.worlds.drop since).all fun u => (u.status b).all fun row => row.commitState ≠ .durable
  | ⟨⟨.read _ _, _⟩, _, .ret (.ok (.read (.ok res)))⟩ =>
    !res.fromCache && w.deeds.all fun deed => match deed.event with
      | ⟨.call (.storeGet _ _), .returned (.ok (r, _))⟩ => r.data ≠ res.body.data
      | _ => true
  | _ => false

theorem forged_false {s : Past MemoryCache MapStore}
    (found : s.threads.any (forged s.world) = true) : ¬ NoFalseSuccess s := by
  intro honest
  obtain ⟨t, member, found⟩ := List.any_eq_true.mp found
  unfold forged at found
  split at found
  · rename_i ctx b since history
    obtain ⟨n, -, -, time, u, late, present, row, there, durable⟩ :=
      honest.promoted ctx b since history member
    have inside : u ∈ s.world.worlds.drop since := by
      rw [List.mem_iff_getElem?]
      refine ⟨time - since, ?_⟩
      rw [List.getElem?_drop, Nat.add_sub_cancel' late, present]
    have pending := List.all_eq_true.mp found u inside
    rw [there] at pending
    simp [durable] at pending
  · rename_i ctx b since history res
    obtain ⟨missed, found⟩ := Bool.and_eq_true_iff.mp found
    obtain ⟨n, -, leader, r, info, logged, body, -⟩ :=
      honest.restored ctx b since history res member (by simpa using missed)
    have differs := List.all_eq_true.mp found _
      (logged.subset (List.mem_cons_of_mem _ (List.mem_singleton_self _)))
    simp [body] at differs
  · contradiction

theorem forged_exhibited {opens : Operation → Prop} {cfg : Config} {store : MapStore}
    (checks : Operation → History pipeline → Node → (q : Request) → q.Reply → Bool)
    (moves : Schedule allowed)
    (sound : ∀ op history w q reply, checks op history w q reply = true →
      admits op history w q reply)
    (opened : ∀ op, .start op ∈ moves → opens op)
    (found : (followLogged cfg store checks moves).any (fun s => s.threads.any (forged s.world)) =
      true) :
    ∃ s, (nodeMachine cfg allowed opens admits).logged.Reaches
      ⟨⟨bareNode store, []⟩, []⟩ s ∧ ¬ NoFalseSuccess s := by
  obtain ⟨s, run, found⟩ := followLogged_exhibits cfg store checks moves sound opened found
  exact ⟨s, run, forged_false found⟩

section Faults

def anyFault (trouble : Trouble) : { _fault : Fault MapStore // True } :=
  ⟨⟨({} : Omission), trouble⟩, trivial⟩

def quiet (omitted : Omission) : { fault : Fault MapStore // NoPanic fault } :=
  ⟨⟨omitted, .calm⟩, by simp [NoPanic]⟩

end Faults

private def panickingHead : Schedule fun _ => True :=
  .start (.write (.caller 0) "a" [7] {}) :: List.replicate 3 (.call 0 (anyFault .calm)) ++
    .start (.promote (.caller 1) "a") :: List.replicate 2 (.call 1 (anyFault .calm)) ++
    .call 1 (anyFault (.panics "nil pointer" false)) :: List.replicate 3 (.call 1 (anyFault .calm))

private def panickingGet : Schedule fun _ => True :=
  .start (.read (.caller 0) "a") :: List.replicate 2 (.call 0 (anyFault .calm)) ++
    .call 0 (anyFault (.panics "nil pointer" false)) :: List.replicate 4 (.call 0 (anyFault .calm))

private def rewrittenWhileLanding : Schedule NoPanic :=
  .start (.write (.caller 0) "a" [7] {}) :: List.replicate 3 (.call 0 (quiet {})) ++
    .start (.promote (.caller 1) "a") :: List.replicate 10 (.call 1 (quiet {})) ++
    .start (.write (.caller 2) "a" [8] {}) :: List.replicate 3 (.call 2 (quiet {})) ++
    .start (.promote (.caller 3) "a") :: List.replicate 2 (.call 3 (quiet {}))

private def wrappedLimit : Schedule NoPanic :=
  .start (.read (.caller 0) "a") :: List.replicate 2 (.call 0 (quiet {})) ++
    .call 0 (quiet { checksum := true }) :: List.replicate 4 (.call 0 (quiet {}))

def storing (b : String) (data : Bytes) : MapStore :=
  { objects := fun key => if key = b then some { data } else none }

end Runs

/-- A recovered panic in the leader's work is a nil Promote of a blob that never became
durable and an empty Read; a Promote that joins a landing flight after the blob was
written again is told of the earlier success; and a restore limit of the largest `int64`
cuts the body to nothing. -/
theorem flights_forged :
    (∃ s, (nodeMachine {} (fun _ => True) (fun _ => True) KeepsDurable).logged.Reaches
      ⟨⟨bareNode, []⟩, []⟩ s ∧ ¬ NoFalseSuccess s) ∧
    (∃ s, (nodeMachine {} (fun _ => True) (fun op => ∃ ctx, op = .read ctx "a")
        KeepsDurable).logged.Reaches
      ⟨⟨bareNode, []⟩, []⟩ s ∧ ¬ NoFalseSuccess s) ∧
    (∃ s, (nodeMachine {} NoPanic (fun _ => True) fun _ _ _ _ _ => True).logged.Reaches
      ⟨⟨bareNode, []⟩, []⟩ s ∧ ¬ NoFalseSuccess s) ∧
    ∃ s, (nodeMachine { maxRestoreBytes := maxInt64 } NoPanic (fun _ => True)
        KeepsDurable).logged.Reaches
      ⟨⟨bareNode (storing "a" [7]), []⟩, []⟩ s ∧ ¬ NoFalseSuccess s := by
  refine ⟨?_, ?_, ?_, ?_⟩
  · exact forged_exhibited keepsDurable panickingHead keepsDurable_sound (fun _ _ => trivial)
      (by decide +kernel)
  · exact forged_exhibited keepsDurable panickingGet keepsDurable_sound (by simp [panickingGet])
      (by decide +kernel)
  · exact forged_exhibited (fun _ _ _ _ _ => true) rewrittenWhileLanding
      (fun _ _ _ _ _ _ => trivial) (fun _ _ => trivial) (by decide +kernel)
  · exact forged_exhibited keepsDurable wrappedLimit keepsDurable_sound (fun _ _ => trivial)
      (by decide +kernel)

private def sharedFlights : Schedule NoPanic :=
  .start (.write (.caller 0) "a" [7] {}) :: List.replicate 3 (.call 0 (quiet {})) ++
    .start (.promote (.caller 1) "a") :: List.replicate 2 (.call 1 (quiet {})) ++
    .start (.promote (.caller 2) "a") :: .call 2 (quiet {}) ::
    List.replicate 9 (.call 1 (quiet {})) ++ .call 2 (quiet {}) ::
    .start (.evict (.caller 3) "a") :: List.replicate 2 (.call 3 (quiet {})) ++
    .start (.read (.caller 4) "a") :: List.replicate 2 (.call 4 (quiet {})) ++
    .start (.read (.caller 5) "a") :: List.replicate 2 (.call 5 (quiet {})) ++
    List.replicate 5 (.call 4 (quiet {})) ++ List.replicate 2 (.call 5 (quiet {}))

/-- The call succeeded by way of a flight. -/
def succeeded : Thread pipeline (Stamped Operation) (Except String Answer) → Bool
  | ⟨⟨.promote _ _, _⟩, _, .ret (.ok (.promoted none))⟩ => true
  | ⟨⟨.read _ _, _⟩, _, .ret (.ok (.read (.ok res)))⟩ => !res.fromCache
  | _ => false

/-- A blob that two promote and, once evicted, two read, one waiting for the other. -/
theorem flights_honest_shared : ∃ s,
    (nodeMachine {} NoPanic (fun _ => True) KeepsDurable).logged.Reaches
      ⟨⟨bareNode, []⟩, []⟩ s ∧
    (s.threads.filter succeeded).length = 4 ∧ NoFalseSuccess s := by
  obtain ⟨s, run, found⟩ := followLogged_exhibits {} {} keepsDurable sharedFlights
    keepsDurable_sound (fun _ _ => trivial)
    (p := fun s => (s.threads.filter succeeded).length = 4) (by decide +kernel)
  exact ⟨s, run, of_decide_eq_true found,
    flights_honest (by decide) (by decide) (fun _ => rfl) run⟩

end KDrive.Blobio
