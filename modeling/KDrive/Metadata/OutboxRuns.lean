import KDrive.Metadata.Outbox
import KDrive.Relational.Solo
import Mathlib.Data.List.Nodup

/-! What any number of workers make of the outbox together. -/
namespace KDrive.Metadata
open Go Interaction Relational

/-- No more failures than allowed, and FAILED exactly at the last one. -/
def OutboxRow.Sane (row : OutboxRow) : Prop :=
  row.attempts ≤ row.maxAttempts ∧ (row.state = .failed ↔ row.attempts = row.maxAttempts)

instance (row : OutboxRow) : Decidable row.Sane := inferInstanceAs (Decidable (_ ∧ _))

def priorAttempts (initial : Table Int OutboxRow) (id : Int) : Int :=
  ((initial id).map OutboxRow.attempts).getD 0

structure Orderly (initial table : Table Int OutboxRow) (hands : Hands) : Prop where
  sane : ∀ id row, table id = some row → row.Sane
  counted : ∀ id row, table id = some row →
    row.attempts = priorAttempts initial id + hands.failures id
  absent : ∀ id, table id = none → initial id = none ∧ hands.failures id = 0
  busy : ∀ worker id, (worker, id) ∈ hands.held →
    ∃ row, table id = some row ∧ row.state = .inProgress
  once : (hands.held.map Prod.snd).Nodup

/-- No statement of the call failed. -/
def Healthy (past : History OutboxSql) : Prop := ∀ event ∈ past, ∃ answer, event.reply = .ok answer

/-- A claim whose statements all went through hands out the events it selected. -/
def Delivered (call : OutboxCall) (past : History OutboxSql) (value : OutboxReply) : Prop :=
  match call with
  | .claim _ limit => Healthy past → ∃ rows events, ⟨.lock (FirstDue limit), .ok rows⟩ ∈ past ∧
      scanEvents rows = .ok events ∧ value = .events (.ok events)
  | _ => True

theorem not_healthy {past : History OutboxSql} {q : Statement Int OutboxRow} {e : GoError}
    (failed : ⟨q, .error e⟩ ∈ past) : ¬ Healthy past := by
  intro healthy
  obtain ⟨answer, fine⟩ := healthy _ failed
  cases fine

theorem delivered_of_failed {call : OutboxCall} {past : History OutboxSql} {value : OutboxReply}
    {q : Statement Int OutboxRow} {e : GoError} (failed : ⟨q, .error e⟩ ∈ past) :
    Delivered call past value := by
  cases call with
  | claim worker limit => exact fun healthy => absurd healthy (not_healthy failed)
  | _ => trivial

variable {initial table : Table Int OutboxRow} {hands : Hands} {row row' : OutboxRow} {id : Int}
  {worker : Nat}

theorem takeUp_sane (sane : row.Sane) (pending : row.state = .pending) : (takeUp row).Sane := by
  obtain ⟨bounded, failed⟩ := sane
  rw [pending] at failed
  refine ⟨bounded, ?_⟩
  constructor
  · intro impossible
    cases impossible
  · intro full
    cases failed.mpr full

theorem done_sane (sane : row.Sane) (busy : row.state = .inProgress) :
    OutboxRow.Sane { row with state := .done } := by
  obtain ⟨bounded, failed⟩ := sane
  rw [busy] at failed
  refine ⟨bounded, ?_⟩
  constructor
  · intro impossible
    cases impossible
  · intro full
    cases failed.mpr full

theorem failRow_sane (sane : row.Sane) (busy : row.state = .inProgress) (lastError : String)
    (backoff : Duration) (now : Time) : (failRow lastError backoff now row).Sane := by
  obtain ⟨bounded, failed⟩ := sane
  have room : row.attempts ≠ row.maxAttempts := by
    intro full
    rw [busy] at failed
    cases failed.mpr full
  constructor
  · simp only [failRow]
    omega
  · simp only [failRow]
    split
    · simp only [true_iff]
      omega
    · simp only [reduceCtorEq, false_iff]
      omega

section
variable (orderly : Orderly initial table hands)
include orderly

/-- After a worker has given one up, nobody has that event. -/
theorem Orderly.given_up (mine : (worker, id) ∈ hands.held)
    {other : Nat} : (other, id) ∉ hands.held.erase (worker, id) := by
  intro still
  have distinct : hands.held.Nodup := List.Nodup.of_map _ orderly.once
  obtain ⟨apart, member⟩ := distinct.mem_erase_iff.mp still
  exact apart (List.inj_on_of_nodup_map orderly.once member mine rfl)

/-- One row is written that nobody has afterwards. -/
theorem Orderly.put {hands' : Hands} (sane : row'.Sane)
    (counted : row'.attempts = priorAttempts initial id + hands'.failures id)
    (others : ∀ other, other ≠ id → hands'.failures other = hands.failures other)
    (kept : ∀ worker other, (worker, other) ∈ hands'.held →
      other ≠ id ∧ (worker, other) ∈ hands.held)
    (once : (hands'.held.map Prod.snd).Nodup) :
    Orderly initial (Function.update table id (some row')) hands' := by
  constructor
  · intro other held found
    by_cases same : other = id
    · subst same
      rw [Function.update_self] at found
      cases found
      exact sane
    · rw [Function.update_of_ne same] at found
      exact orderly.sane other held found
  · intro other held found
    by_cases same : other = id
    · subst same
      rw [Function.update_self] at found
      cases found
      exact counted
    · rw [Function.update_of_ne same] at found
      rw [others other same]
      exact orderly.counted other held found
  · intro other missing
    by_cases same : other = id
    · subst same
      rw [Function.update_self] at missing
      cases missing
    · rw [Function.update_of_ne same] at missing
      rw [others other same]
      exact orderly.absent other missing
  · intro worker other member
    obtain ⟨apart, before⟩ := kept worker other member
    rw [Function.update_of_ne apart]
    exact orderly.busy worker other before
  · exact once

/-- A worker finishes one of its events. -/
theorem Orderly.finish (mine : (worker, id) ∈ hands.held) (sane : row'.Sane) {failures : Int → Nat}
    (counted : row'.attempts = priorAttempts initial id + failures id)
    (others : ∀ other, other ≠ id → failures other = hands.failures other) :
    Orderly initial (Function.update table id (some row'))
      ⟨hands.held.erase (worker, id), failures⟩ := by
  apply orderly.put sane counted others
  · intro worker' other member
    refine ⟨?_, List.mem_of_mem_erase member⟩
    rintro rfl
    exact orderly.given_up mine member
  · exact orderly.once.sublist (List.erase_sublist.map _)

/-- A new event. -/
theorem Orderly.insert (missing : table id = none)
    (sane : row'.Sane) (unattempted : row'.attempts = 0) :
    Orderly initial (Function.update table id (some row')) hands := by
  obtain ⟨never, unfailed⟩ := orderly.absent id missing
  apply orderly.put sane
  · simp [priorAttempts, never, unfailed, unattempted]
  · exact fun _ _ => rfl
  · intro worker' other member
    refine ⟨?_, member⟩
    rintro rfl
    obtain ⟨held, found, _⟩ := orderly.busy worker' other member
    rw [missing] at found
    cases found
  · exact orderly.once

/-- A transaction that has taken up pending rows. -/
structure TakenUp (h : Holding Int OutboxRow) (keys : List Int) : Prop where
  rows : ∀ k was now, h k = some (was, now) → was.state = .pending ∧ now = takeUp was
  keys : ∀ k, k ∈ keys ↔ h k ≠ none

/-- A claim is committed, and its worker learns of it or not. -/
theorem Orderly.claim {h : Holding Int OutboxRow}
    {keys : List Int} (taken : TakenUp h keys) (distinct : keys.Nodup)
    (current : Holding.Current (some h) table) (told : Bool) :
    Orderly initial (h.view table)
      (if told then { hands with held := hands.held ++ keys.map (worker, ·) } else hands) := by
  -- Where the transaction holds a row, it was there and pending.
  have cases : ∀ k, (∃ was, h k = some (was, takeUp was) ∧ table k = some was ∧
      was.state = .pending ∧ h.view table k = some (takeUp was)) ∨
      h k = none ∧ h.view table k = table k := by
    intro k
    cases found : h k with
    | none => exact .inr ⟨rfl, by simp [Holding.view, found]⟩
    | some pair =>
      obtain ⟨was, now⟩ := pair
      obtain ⟨pending, rfl⟩ := taken.rows k was now found
      exact .inl ⟨was, rfl, current h rfl k _ _ found, pending, by simp [Holding.view, found]⟩
  have busyBefore : ∀ worker' k, (worker', k) ∈ hands.held →
      h k = none ∧ ∃ row, h.view table k = some row ∧ row.state = .inProgress := by
    intro worker' k member
    obtain ⟨row, found, busy⟩ := orderly.busy worker' k member
    rcases cases k with ⟨was, _, present, pending, _⟩ | ⟨free, same⟩
    · rw [present] at found
      cases found
      rw [pending] at busy
      cases busy
    · exact ⟨free, row, same.trans found, busy⟩
  have failures : (if told then { hands with held := hands.held ++ keys.map (worker, ·) }
      else hands).failures = hands.failures := by
    split <;> rfl
  constructor
  · intro k row found
    rcases cases k with ⟨was, _, present, pending, taken⟩ | ⟨_, same⟩
    · rw [taken] at found
      cases found
      exact takeUp_sane (orderly.sane k was present) pending
    · exact orderly.sane k row (same ▸ found)
  · intro k row found
    rw [failures]
    rcases cases k with ⟨was, _, present, pending, taken⟩ | ⟨_, same⟩
    · rw [taken] at found
      cases found
      exact orderly.counted k was present
    · exact orderly.counted k row (same ▸ found)
  · intro k missing
    rw [failures]
    rcases cases k with ⟨was, _, _, _, taken⟩ | ⟨_, same⟩
    · rw [taken] at missing
      cases missing
    · exact orderly.absent k (same ▸ missing)
  · intro worker' k member
    cases told with
    | false => exact (busyBefore worker' k member).2
    | true =>
      rcases List.mem_append.mp member with old | new
      · exact (busyBefore worker' k old).2
      · obtain ⟨key, picked, same⟩ := List.mem_map.mp new
        cases same
        rcases cases k with ⟨was, _, _, _, view⟩ | ⟨free, _⟩
        · exact ⟨_, view, rfl⟩
        · exact absurd free ((taken.keys k).mp picked)
  · cases told with
    | false => exact orderly.once
    | true =>
      have ids : (keys.map fun k => (worker, k)).map Prod.snd = keys := by
        rw [List.map_map]
        exact List.map_id keys
      simp only [if_true, List.map_append, ids]
      apply orderly.once.append distinct
      intro k old picked
      obtain ⟨pair, member, rfl⟩ := List.mem_map.mp old
      exact (taken.keys _).mp picked (busyBefore pair.1 pair.2 member).1

end

theorem scanEvents_ok {rows : List (Int × OutboxRow)}
    (readable : ∀ pair ∈ rows, pair.2.lastError ≠ none) : ∃ events, scanEvents rows = .ok events ∧
      events.map OutboxEvent.id = rows.map Prod.fst := by
  induction rows with
  | nil => exact ⟨[], rfl, rfl⟩
  | cons pair rest ih =>
    obtain ⟨events, scanned, ids⟩ := ih fun other member =>
      readable other (List.mem_cons_of_mem _ member)
    obtain ⟨id, row⟩ := pair
    obtain ⟨text, found⟩ : ∃ text, row.lastError = some text :=
      Option.ne_none_iff_exists'.mp (readable (id, row) List.mem_cons_self)
    refine ⟨_, by simp only [scanEvents, scanEvent, found, scanned]; rfl, ?_⟩
    simp only [List.map_cons, ids]

/-- The UPDATEs one by one: what is still to come is held as it was. -/
structure TakingUp (h : Holding Int OutboxRow) (keys rest : List Int) : Prop where
  rows : ∀ k was now, h k = some (was, now) → was.state = .pending ∧
    (now = was ∨ now = takeUp was) ∧ (k ∉ rest → now = takeUp was)
  keys : ∀ k, k ∈ keys ↔ h k ≠ none

theorem TakingUp.update {h : Holding Int OutboxRow} {keys rest : List Int}
    (taking : TakingUp h keys (id :: rest)) (picked : id ∈ keys) : ∃ was now,
    h id = some (was, now) ∧
      TakingUp (Function.update h id (some (was, takeUp now))) keys rest := by
  obtain ⟨⟨was, now⟩, found⟩ := Option.ne_none_iff_exists'.mp ((taking.keys id).mp picked)
  obtain ⟨pending, either, _⟩ := taking.rows id was now found
  have once : takeUp now = takeUp was := by
    rcases either with rfl | rfl <;> rfl
  refine ⟨was, now, found, ?_, ?_⟩
  · intro k was' now' held
    by_cases same : k = id
    · subst same
      rw [Function.update_self] at held
      cases held
      exact ⟨pending, .inr once, fun _ => once⟩
    · rw [Function.update_of_ne same] at held
      obtain ⟨pending', either', later⟩ := taking.rows k was' now' held
      refine ⟨pending', either', fun absent => later ?_⟩
      simp only [List.mem_cons, not_or]
      exact ⟨same, absent⟩
  · intro k
    by_cases same : k = id
    · subst same
      simp [picked]
    · rw [Function.update_of_ne same]
      exact taking.keys k

theorem markInProgress_upholds (limit : Int) {rows : List (Int × OutboxRow)}
    (distinct : (rows.map Prod.fst).Nodup) {events : List OutboxEvent}
    (scanned : scanEvents rows = .ok events) (begun : Event OutboxSql) (rest : List Int)
    (within : ∀ k ∈ rest, k ∈ rows.map Prod.fst) (later : History OutboxSql)
    (h : Holding Int OutboxRow) (taking : TakingUp h (rows.map Prod.fst) rest) :
    Upholds readableOutbox (Orderly initial) Delivered (.claim worker limit)
      (markInProgress events rest) (begun :: ⟨.lock (FirstDue limit), .ok rows⟩ :: later)
      (some h) := by
  induction rest generalizing later h with
  | nil =>
    apply Upholds.commit
    · intro e held
      exact delivered_of_failed (List.mem_append_right _ List.mem_cons_self)
    · intro table hands reply orderly current
      have taken : TakenUp h (rows.map Prod.fst) := by
        refine ⟨fun k was now found => ?_, taking.keys⟩
        obtain ⟨pending, _, up⟩ := taking.rows k was now found
        exact ⟨pending, up List.not_mem_nil⟩
      refine ⟨orderly.claim taken distinct current _, ?_⟩
      cases reply with
      | error e => exact delivered_of_failed (List.mem_append_right _ List.mem_cons_self)
      | ok _ =>
        intro _
        exact ⟨rows, events, List.mem_cons_of_mem _ List.mem_cons_self, scanned, rfl⟩
  | cons id rest ih =>
    apply Upholds.update
    · intro e held
      apply upholds_rollingBack
      intro reply
      exact delivered_of_failed
        (List.mem_append_left _ (List.mem_append_right _ List.mem_cons_self))
    · intro table hands orderly current
      obtain ⟨was, now, found, next⟩ := taking.update (within id List.mem_cons_self)
      have written : h.write table id (fun row => some (takeUp row)) =
          Function.update h id (some (was, takeUp now)) := Holding.write_held found rfl
      rw [written]
      exact ih (fun k member => within k (List.mem_cons_of_mem _ member)) _ _ next

/-- What a claim locks is held as it was found. -/
theorem takingUp_of_firstDue {scene : OutboxScene} {limit : Int} {keys : List Int}
    (picked : FirstDue limit scene.began scene.table scene.free keys) :
    TakingUp (Holding.take (fun _ => none) scene.table keys) keys keys := by
  constructor
  · intro k was now found
    rcases Holding.take_cases found with impossible | ⟨member, present, rfl⟩
    · cases impossible
    · obtain ⟨_, row, there, pending, _⟩ := picked.due k member
      rw [there] at present
      cases present
      exact ⟨pending, .inl rfl, fun absent => absurd member absent⟩
  · intro k
    by_cases member : k ∈ keys
    · obtain ⟨_, row, there, _⟩ := picked.due k member
      simp [Holding.take, member, there]
    · simp [Holding.take, member]

theorem rows_of_firstDue {scene : OutboxScene} {limit : Int} {keys : List Int}
    (picked : FirstDue limit scene.began scene.table scene.free keys) :
    (Holding.rows (fun _ => none) scene.table keys).map Prod.fst = keys ∧
      ∀ pair ∈ Holding.rows (fun _ => none) scene.table keys,
        pair.1 ∈ keys ∧ scene.table pair.1 = some pair.2 := by
  constructor
  · have found : ∀ k ∈ keys, ∃ row, scene.table k = some row := fun k member =>
      let ⟨_, row, there, _⟩ := picked.due k member
      ⟨row, there⟩
    clear picked
    induction keys with
    | nil => rfl
    | cons k rest ih =>
      obtain ⟨row, there⟩ := found k List.mem_cons_self
      have tail := ih fun k' member => found k' (List.mem_cons_of_mem _ member)
      simp only [Holding.rows, Holding.view] at tail ⊢
      simp [there, tail]
  · rintro ⟨k, row⟩ member
    obtain ⟨k', picked', same⟩ := List.mem_filterMap.mp member
    obtain ⟨row', there, pair⟩ := Option.map_eq_some_iff.mp same
    cases pair
    exact ⟨picked', there⟩

theorem claim_upholds (initial : Table Int OutboxRow) (worker : Nat) (limit : Int) :
    Upholds readableOutbox (Orderly initial) Delivered (.claim worker limit)
      (claimOutboxEvents limit) [] none := by
  apply Upholds.begin
  · intro e held
    exact delivered_of_failed List.mem_cons_self
  apply Upholds.lock
  · intro e held
    apply upholds_rollingBack
    intro reply
    exact delivered_of_failed (List.mem_append_left _ (List.mem_append_right _ List.mem_cons_self))
  · intro scene keys orderly admitted _ picked
    obtain ⟨_, small, readable⟩ := admitted
    have first : FirstDue limit scene.began scene.table scene.free keys := picked
    obtain ⟨ids, there⟩ := rows_of_firstDue first
    obtain ⟨events, scanned, same⟩ := scanEvents_ok fun pair member =>
      readable keys first pair.1 (there pair member).1 pair.2 (there pair member).2
    simp only [if_neg (Int.not_lt.mpr small), scanned]
    have taking : TakingUp (Holding.take (fun _ => none) scene.table keys)
        ((Holding.rows (fun _ => none) scene.table keys).map Prod.fst)
        ((Holding.rows (fun _ => none) scene.table keys).map Prod.fst) := by
      rw [ids]
      exact takingUp_of_firstDue first
    have distinct : keys.Nodup := first.ordered.imp fun less => Int.ne_of_lt less
    rw [same]
    rw [← ids] at distinct
    exact markInProgress_upholds limit distinct scanned _ _ (fun _ member => member) _ _ taking

theorem call_upholds (initial : Table Int OutboxRow) (call : OutboxCall) :
    Upholds readableOutbox (Orderly initial) Delivered call call.run [] none := by
  cases call with
  | claim worker limit => exact claim_upholds initial worker limit
  | enqueue eventType payload =>
    apply Upholds.exec
    · intro e held
      trivial
    · intro scene key row reply orderly _ effected
      obtain ⟨missing, rfl⟩ := effected
      refine ⟨orderly.insert missing ?_ rfl, trivial⟩
      simp [OutboxRow.Sane]
  | complete worker id =>
    apply Upholds.exec
    · intro e held
      trivial
    · intro scene key new reply orderly admitted effected
      obtain ⟨rfl, rfl⟩ := effected
      obtain ⟨row, present, busy⟩ := orderly.busy worker key admitted.1
      rw [present]
      refine ⟨orderly.finish admitted.1 (done_sane (orderly.sane key row present) busy) ?_ ?_, trivial⟩
      · exact orderly.counted key row present
      · exact fun _ _ => rfl
  | fail worker id lastError backoff =>
    apply Upholds.exec
    · intro e held
      trivial
    · intro scene key new reply orderly admitted effected
      obtain ⟨rfl, rfl, _⟩ := effected
      obtain ⟨row, present, busy⟩ := orderly.busy worker key admitted.1
      rw [present]
      refine ⟨orderly.finish admitted.1
        (failRow_sane (orderly.sane key row present) busy lastError backoff scene.now) ?_ ?_, trivial⟩
      · have before := orderly.counted key row present
        rw [Function.update_self]
        simp only [failRow]
        push_cast
        omega
      · exact fun other apart => Function.update_of_ne apart _ _

abbrev OutboxDatabase := Database Int OutboxRow GoError OutboxCall OutboxReply Hands

/-- What the SELECT of a claim answers in the state it is executed in. -/
theorem claim_selects {d d' : OutboxDatabase}
    (run : readableOutbox.Reaches ⟨now, initial, fun _ => none, {}⟩ d)
    (step : readableOutbox.Step d d') {i : Nat} {limit : Int} {held held' : Option (Holding _ _)}
    {began began' : Int}
    {next : Except GoError (List (Int × OutboxRow)) → Program OutboxSql OutboxReply}
    {p : Program OutboxSql OutboxReply} {rows : List (Int × OutboxRow)}
    (before : d.callers i = some ⟨.claim worker limit, [⟨.begin, .ok ()⟩], held, began,
      .ask (.lock (FirstDue limit)) next⟩)
    (after : d'.callers i = some ⟨.claim worker limit,
      [⟨.begin, .ok ()⟩, ⟨.lock (FirstDue limit), .ok rows⟩], held', began', p⟩) :
    ∃ keys, FirstDue limit began d.table (d.Free i) keys ∧
      rows = keys.filterMap fun k => (d.table k).map fun row => (k, row) := by
  have nothing := Service.begun_holds_nothing run before rfl
  cases step with
  | start unused started =>
    rcases update_eq_some after with ⟨rfl, _⟩ | ⟨_, same⟩
    · rw [before] at unused
      cases unused
    · rw [before] at same
      cases same
  | answer found admitted served =>
    rcases update_eq_some after with ⟨rfl, same⟩ | ⟨_, same⟩
    · rw [before] at found
      cases found
      cases same
      cases served with
      | lock picked _ =>
        rcases nothing with empty | impossible
        · cases empty
          exact ⟨_, picked, rfl⟩
        · cases impossible
    · rw [before] at same
      cases same
  | rollback found =>
    rcases update_eq_some after with ⟨rfl, same⟩ | ⟨_, same⟩
    · rw [before] at found
      cases found
      cases same
    · rw [before] at same
      cases same
  | tick later =>
    rw [before] at after
    cases after

/-- The outbox hands every event out once per attempt. -/
structure HandsOut (initial : Table Int OutboxRow) (d : OutboxDatabase) : Prop where
  /-- A claim on a healthy database succeeds with the events it selected. -/
  claims : ∀ i worker limit past held began value,
    d.callers i = some ⟨.claim worker limit, past, held, began, .ret value⟩ → Healthy past →
    ∃ rows events, ⟨.lock (FirstDue limit), .ok rows⟩ ∈ past ∧ scanEvents rows = .ok events ∧
      value = .events (.ok events)
  /-- Those are the first ones that were due when its transaction began and are not locked. -/
  selects : ∀ d' i worker limit held held' began began' next p rows, readableOutbox.Step d d' →
    d.callers i = some ⟨.claim worker limit, [⟨.begin, .ok ()⟩], held, began,
      .ask (.lock (FirstDue limit)) next⟩ →
    d'.callers i = some ⟨.claim worker limit,
      [⟨.begin, .ok ()⟩, ⟨.lock (FirstDue limit), .ok rows⟩], held', began', p⟩ →
    ∃ keys, FirstDue limit began d.table (d.Free i) keys ∧
      rows = keys.filterMap fun k => (d.table k).map fun row => (k, row)
  /-- What a worker was given and has not finished is in progress, and nobody else has it. -/
  busy : ∀ worker id, (worker, id) ∈ d.ghost.held →
    ∃ row, d.table id = some row ∧ row.state = .inProgress
  alone : ∀ worker other id, (worker, id) ∈ d.ghost.held → (other, id) ∈ d.ghost.held →
    worker = other
  failed : ∀ id row, d.table id = some row →
    (row.state = .failed ↔ priorAttempts initial id + d.ghost.failures id = row.maxAttempts)

/-- In every run of workers that keep to what they were given, in which no claim selects an
event that was never attempted, every state reached has this. -/
theorem handsOut_of_readable (now : Int) (initial : Table Int OutboxRow)
    (sane : ∀ id row, initial id = some row → row.Sane) (d : OutboxDatabase)
    (run : readableOutbox.Reaches ⟨now, initial, fun _ => none, {}⟩ d) : HandsOut initial d := by
  have first : Orderly initial initial {} := by
    constructor
    · exact sane
    · intro id row found
      simp [priorAttempts, found]
    · exact fun id missing => ⟨missing, rfl⟩
    · intro worker id member
      contradiction
    · exact List.nodup_nil
  have kept : Kept readableOutbox (Orderly initial) Delivered d :=
    Kept.reaches (fun whole started => ⟨started ▸ whole, call_upholds initial _⟩) first run
  constructor
  · intro i worker limit past held began value found
    exact kept.returned found
  · intro d' i worker limit held held' began began' next p rows step before after
    exact claim_selects run step before after
  · exact kept.whole.busy
  · intro worker other id mine theirs
    have same := List.inj_on_of_nodup_map kept.whole.once mine theirs rfl
    exact congrArg Prod.fst same
  · intro id row found
    rw [← kept.whole.counted id row found]
    exact (kept.whole.sane id row found).2

/-- An event that has been attempted once. -/
def retriedEvent : OutboxRow :=
  { eventType := "PROMOTE_BLOB", payload := "{}", attempts := 1, lastError := some "timeout",
    availableAt := 0, createdAt := 0 }

def oneEvent (row : OutboxRow) : Table Int OutboxRow := Function.update (fun _ => none) 1 (some row)

theorem firstDue_oneEvent (row : OutboxRow) (due : DuePending 0 row) :
    FirstDue 1 0 (oneEvent row) (fun _ => True) [1] := by
  constructor
  · intro k member
    cases List.mem_singleton.mp member
    exact ⟨trivial, row, Function.update_self _ _ _, due⟩
  · exact List.pairwise_singleton _ _
  · decide
  · intro k row' found _ _ absent
    have apart : k ≠ 1 := fun same => absent (List.mem_singleton.mpr same)
    rw [oneEvent, Function.update_of_ne apart] at found
    cases found

/-- Nothing but the one event can be selected. -/
theorem eq_of_firstDue {row : OutboxRow} {limit now : Int} {free : Int → Prop} {keys : List Int}
    (picked : FirstDue limit now (oneEvent row) free keys) : ∀ k ∈ keys, k = 1 := by
  intro k member
  obtain ⟨_, found, there, _⟩ := picked.due k member
  by_contra apart
  rw [oneEvent, Function.update_of_ne apart] at there
  cases there

theorem handsOut_retried : ∃ d, readableOutbox.Reaches
    ⟨0, oneEvent retriedEvent, fun _ => none, {}⟩ d ∧ d.ghost.held = [(7, 1)] ∧
      HandsOut (oneEvent retriedEvent) d := by
  have readable : Readable ⟨0, 0, fun _ => True, oneEvent retriedEvent, {}⟩ (.lock (FirstDue 1))
      (.claim 7 1) := by
    refine ⟨by decide, fun keys picked k member row found => ?_⟩
    cases eq_of_firstDue picked k member
    cases found
    exact Option.some_ne_none _
  have solo : ∃ table past events, Solo readableOutbox 0 (.claim 7 1) (oneEvent retriedEvent) {} []
      none (claimOutboxEvents 1) table ⟨[(7, 1)], fun _ => 0⟩ past (.events (.ok events)) :=
    ⟨_, _, _, .ask ⟨trivial, trivial⟩ .begin (.ask ⟨trivial, readable⟩
      (.lock (firstDue_oneEvent retriedEvent ⟨rfl, by decide⟩) fun _ _ => trivial)
      (.ask ⟨trivial, trivial⟩ (.update trivial) (.commit ⟨trivial, trivial⟩ .ret)))⟩
  obtain ⟨table, past, events, solo⟩ := solo
  have run : readableOutbox.Reaches ⟨0, oneEvent retriedEvent, fun _ => none, {}⟩ _ :=
    Solo.called (i := 0) rfl solo rfl idle_none
  refine ⟨_, run, rfl, handsOut_of_readable 0 _ ?_ _ run⟩
  intro id row found
  by_cases same : id = 1
  · subst same
    cases found
    decide
  · rw [oneEvent, Function.update_of_ne same] at found
    cases found

/-- The row that EnqueueOutbox makes at time 0. -/
def newEvent : OutboxRow :=
  { eventType := "PROMOTE_BLOB", payload := "{}", availableAt := 0, createdAt := 0 }

/-- A new event cannot be claimed: its `last_error` is NULL. -/
theorem claim_of_new_event_fails : ∃ d past, disciplinedOutbox.Reaches
    ⟨0, fun _ => none, fun _ => none, {}⟩ d ∧
      d.callers 1 = some ⟨.claim 7 1, past, none, 0, .ret (.events (.error errScanNull))⟩ ∧
      Healthy past ∧ ¬ HandsOut (fun _ => none) d := by
  have enqueue : ∃ past, Solo disciplinedOutbox 0 (.enqueue "PROMOTE_BLOB" "{}") (fun _ => none) {}
      [] none (enqueueOutbox "PROMOTE_BLOB" "{}") (oneEvent newEvent) {} past
      (.finished (.ok ())) :=
    ⟨_, .exec trivial ⟨rfl, rfl⟩ .ret⟩
  have claim : Solo disciplinedOutbox 0 (.claim 7 1) (oneEvent newEvent) {} [] none
      (claimOutboxEvents 1) (oneEvent newEvent) {}
      [⟨.begin, .ok ()⟩, ⟨.lock (FirstDue 1), .ok [(1, newEvent)]⟩, ⟨.rollback, .ok ()⟩]
      (.events (.error errScanNull)) :=
    .ask trivial .begin (.ask trivial
      (.lock (firstDue_oneEvent newEvent ⟨rfl, by decide⟩) fun _ _ => trivial)
      (.ask trivial .rollback .ret))
  obtain ⟨first, enqueue⟩ := enqueue
  have run := (enqueue.called (i := 0) rfl rfl idle_none).trans
    (claim.called (i := 1) rfl rfl (idle_none.set rfl))
  have healthy : Healthy
      [⟨.begin, .ok ()⟩, ⟨.lock (FirstDue 1), .ok [(1, newEvent)]⟩, ⟨.rollback, .ok ()⟩] := by
    intro event member
    simp only [List.mem_cons, List.not_mem_nil, or_false] at member
    rcases member with rfl | rfl | rfl <;> exact ⟨_, rfl⟩
  refine ⟨_, _, run, rfl, healthy, ?_⟩
  intro handsOut
  obtain ⟨rows, events, _, _, impossible⟩ := handsOut.claims 1 7 1 _ none _ _ rfl healthy
  cases impossible

end KDrive.Metadata
