import KDrive.Metadata.UploadSessions

/-! The outbox: events that workers claim in batches, each batch in one transaction that
skips the rows others have locked, and finish one by one. -/
namespace KDrive.Metadata
open Go Interaction Relational

inductive OutboxState where
  | pending
  | inProgress
  | done
  | failed
  deriving DecidableEq

/-- A row of `outbox` below its id; `last_error` may be NULL. -/
structure OutboxRow where
  eventType : String
  payload : String
  state : OutboxState := .pending
  attempts : Int := 0
  maxAttempts : Int := 5
  lastError : Option String := none
  availableAt : Time
  createdAt : Time
  deriving DecidableEq

structure OutboxEvent where
  id : Int
  eventType : String
  payload : String
  state : OutboxState
  attempts : Int
  maxAttempts : Int
  lastError : String
  availableAt : Time
  createdAt : Time
  deriving DecidableEq

abbrev OutboxSql := Sql Int OutboxRow GoError

/-- `database/sql` has no string for NULL. -/
def errScanNull : GoError :=
  .new "sql: Scan error on column index 6, name \"last_error\": converting NULL to string is unsupported"

def scanEvent (id : Int) (row : OutboxRow) : Except GoError OutboxEvent :=
  match row.lastError with
  | none => .error errScanNull
  | some text => .ok ⟨id, row.eventType, row.payload, row.state, row.attempts, row.maxAttempts, text,
      row.availableAt, row.createdAt⟩

/-- The loop over `rows.Next`. -/
def scanEvents : List (Int × OutboxRow) → Except GoError (List OutboxEvent)
  | [] => .ok []
  | (id, row) :: rest =>
    match scanEvent id row with
    | .error err => .error err
    | .ok event => (scanEvents rest).map (event :: ·)

def DuePending (now : Time) (row : OutboxRow) : Prop :=
  row.state = .pending ∧ row.availableAt ≤ now

/-- `WHERE state = 'PENDING' AND available_at <= now() ORDER BY id LIMIT $1 FOR UPDATE SKIP
LOCKED`, where `now()` is the start of the transaction; a negative limit has no answer. -/
structure FirstDue (limit : Int) (now : Time) (table : Table Int OutboxRow) (free : Int → Prop)
    (keys : List Int) : Prop where
  due : ∀ k ∈ keys, free k ∧ ∃ row, table k = some row ∧ DuePending now row
  ordered : keys.Pairwise (· < ·)
  few : (keys.length : Int) ≤ limit
  rest : ∀ k row, table k = some row → DuePending now row → free k → k ∉ keys →
    (keys.length : Int) = limit ∧ ∀ k' ∈ keys, k' < k

/-- What the methods return. -/
inductive OutboxReply where
  | events (result : Except GoError (List OutboxEvent))
  | finished (result : Except GoError Unit)
  | panicked

def takeUp (row : OutboxRow) : OutboxRow := { row with state := .inProgress }

/-- The loop of UPDATEs and the COMMIT. -/
def markInProgress (events : List OutboxEvent) : List Int → Program OutboxSql OutboxReply
  | [] => .ask .commit fun
    | .error err => .ret (.events (.error err))
    | .ok () => .ret (.events (.ok events))
  | id :: rest => .ask (.update id fun row => some (takeUp row)) fun
    | .error err => rollingBack (.events (.error err))
    | .ok () => markInProgress events rest

/-- `make([]int64, 0, limit)` panics beyond the address space. -/
def maxClaim : Int := 2 ^ 45

def claimOutboxEvents (limit : Int) : Program OutboxSql OutboxReply :=
  .ask .begin fun
    | .error err => .ret (.events (.error err))
    | .ok () => .ask (.lock (FirstDue limit)) fun
      | .error err => rollingBack (.events (.error err))
      | .ok rows =>
        if maxClaim < limit then rollingBack .panicked
        else
          match scanEvents rows with
          | .error err => rollingBack (.events (.error err))
          | .ok events => markInProgress events (events.map OutboxEvent.id)

def execute (effect : Time → Int → Option OutboxRow → Option OutboxRow → Prop) :
    Program OutboxSql OutboxReply :=
  .ask (.exec effect) fun reply => .ret (.finished reply)

/-- The columns it leaves out get their defaults; the id is a new one. -/
def enqueueOutbox (eventType payload : String) : Program OutboxSql OutboxReply :=
  execute fun now _ old new =>
    old = none ∧ new = some { eventType, payload, availableAt := now, createdAt := now }

def completeOutboxEvent (id : Int) : Program OutboxSql OutboxReply :=
  execute fun _ k old new => k = id ∧ new = old.map fun row => { row with state := .done }

/-- `fmt.Sprintf("%.0f", backoff.Seconds())`: the nearest second, of two the even one. -/
def roundSeconds (backoff : Duration) : Int :=
  let whole := backoff / 1000000000
  let part := backoff % 1000000000
  if part < 500000000 ∨ part = 500000000 ∧ whole % 2 = 0 then whole else whole + 1

def failRow (lastError : String) (backoff : Duration) (now : Time) (row : OutboxRow) : OutboxRow :=
  { row with
    attempts := row.attempts + 1
    lastError := some lastError
    state := if row.attempts + 1 ≥ row.maxAttempts then .failed else .pending
    availableAt := now + roundSeconds backoff * 1000000000 }

def failOutboxEvent (id : Int) (lastError : String) (backoff : Duration) :
    Program OutboxSql OutboxReply :=
  execute fun now k old new => k = id ∧ new = old.map (failRow lastError backoff now) ∧
    ∀ row, new = some row → IsInteger row.attempts

/-- A call, and the worker that makes it. -/
inductive OutboxCall where
  | enqueue (eventType payload : String)
  | claim (worker : Nat) (limit : Int)
  | complete (worker : Nat) (id : Int)
  | fail (worker : Nat) (id : Int) (lastError : String) (backoff : Duration)

def OutboxCall.run : OutboxCall → Program OutboxSql OutboxReply
  | .enqueue eventType payload => enqueueOutbox eventType payload
  | .claim _ limit => claimOutboxEvents limit
  | .complete _ id => completeOutboxEvent id
  | .fail _ id lastError backoff => failOutboxEvent id lastError backoff

/-- Who has been given which event and has not finished it, and how often each event was
failed. -/
structure Hands where
  held : List (Nat × Int) := []
  failures : Int → Nat := fun _ => 0

/-- The events of the SELECT, the second statement of a claim. -/
def selectedIds (past : History OutboxSql) : List Int :=
  match past with
  | _ :: ⟨.lock _, .ok rows⟩ :: _ => rows.map Prod.fst
  | _ => []

def lastOk (past : History OutboxSql) : Bool :=
  match past.getLast? with
  | some ⟨_, .ok _⟩ => true
  | _ => false

/-- A worker gets the events of a claim when it is told that the COMMIT went through. -/
def Hands.note (call : OutboxCall) (past : History OutboxSql) (hands : Hands) : Hands :=
  match call with
  | .enqueue .. => hands
  | .claim worker _ =>
    if lastOk past then { hands with held := hands.held ++ (selectedIds past).map (worker, ·) }
    else hands
  | .complete worker id => { hands with held := hands.held.erase (worker, id) }
  | .fail worker id .. =>
    { held := hands.held.erase (worker, id)
      failures := Function.update hands.failures id (hands.failures id + 1) }

abbrev OutboxScene := Scene Int OutboxRow Hands

/-- A worker finishes only what it has been given, and each once. -/
def Disciplined (scene : OutboxScene) (call : OutboxCall) : Prop :=
  match call with
  | .complete worker id => (worker, id) ∈ scene.ghost.held
  | .fail worker id .. => (worker, id) ∈ scene.ghost.held
  | _ => True

/-- The rows a claim is about to select have all been failed before, and its limit is one a
slice can have. -/
def Readable (scene : OutboxScene) : Statement Int OutboxRow → OutboxCall → Prop
  | .lock _, .claim _ limit => limit ≤ maxClaim ∧
      ∀ keys, FirstDue limit scene.began scene.table scene.free keys →
        ∀ k ∈ keys, ∀ row, scene.table k = some row → row.lastError ≠ none
  | _, _ => True

def outbox (admits : OutboxScene → OutboxCall → History OutboxSql → Statement Int OutboxRow → Prop) :
    Service Int OutboxRow GoError OutboxCall OutboxReply Hands where
  body := OutboxCall.run
  starts hands _ hands' := hands' = hands
  notes := Hands.note
  admits := admits

/-- Any workers that keep to what they were given. -/
def disciplinedOutbox := outbox fun scene call _ _ => Disciplined scene call

def readableOutbox := outbox fun scene call _ q => Disciplined scene call ∧ Readable scene q call

end KDrive.Metadata
