import KDrive.Blobstore.Types
import KDrive.Blobio.Parts

/-! The goroutines of `promoteMultipart` behind the creation of the upload: a reader,
the upload workers, the goroutine that waits for them and the collector, which is the
caller's own. They meet on two bounded channels, and any of them may move next. -/
namespace KDrive.Blobio.Multipart
open Go Blobstore

structure Job where
  partNum : Int
  body : Bytes
  deriving DecidableEq

/-- A `partResult`, together with the job it answers and whether UploadPart was
called for it: a worker that finds the context cancelled answers without a call. -/
structure PartResult where
  job : Job
  attempted : Bool
  answer : Except GoError UploadedPart

inductive Phase where
  | loop
  | reading
  | sending (job : Job) (last : Bool)
  | closing
  | closed

structure ReaderState where
  unread : Bytes
  partNum : Int := 1
  phase : Phase := .loop
  /-- The bytes written to the hash. -/
  hashed : Bytes := []
  readErr : Option GoError := none

inductive Worker where
  | idle
  | holding (job : Job)
  | cleared (job : Job)
  | uploading (job : Job)
  | sending (result : PartResult)
  | exited

inductive Collector where
  | collecting
  | draining
  | completing (parts : List CompletedPart)
  | aborting (err : GoError)
  | cancelling (res : Except GoError PutResult)
  | returned (res : Except GoError PutResult)

/-- A call on the durable store, as it is issued. -/
inductive StoreCall where
  | uploadPart (job : Job)
  | completeMultipart (parts : List CompletedPart)
  | abortMultipart
  deriving DecidableEq

structure State where
  reader : ReaderState
  partCh : List Job := []
  workers : List Worker
  resultCh : List PartResult := []
  workersDone : Bool := false
  collector : Collector := .collecting
  results : List PartResult := []
  cancelled : Bool := false
  log : List StoreCall := []

/-- What a run of `promoteMultipart` depends on: the body, the settings, which calls
fail, and whether the caller's context is cancelled on the way. Every adapter rejects
part numbers below one. -/
structure Setup where
  source : Reader
  partSize : Nat
  multipartParallelism : Int
  checksum : String
  fails : Job → Option GoError
  completes : Except GoError PutResult
  cancels : Bool := false
  sized : 0 < partSize
  rejects : ∀ job, job.partNum < 1 → fails job ≠ none

namespace Setup

/-- The number of workers, and the capacity of both channels. -/
def parallelism (S : Setup) : Nat :=
  if S.multipartParallelism < 1 then 1 else S.multipartParallelism.toNat

def start (S : Setup) : State :=
  { reader := { unread := S.source.data }, workers := List.replicate S.parallelism .idle }

def uploaded (job : Job) : UploadedPart := ⟨job.partNum, checksumSHA256 job.body, job.body.length⟩

def upload (S : Setup) (job : Job) : Except GoError UploadedPart :=
  match S.fails job with
  | some err => .error err
  | none => .ok (uploaded job)

/-- One pass of `io.ReadFull` and the checks behind it. -/
def read (S : Setup) (cancelled : Bool) (r : ReaderState) : ReaderState :=
  let body := r.unread.take S.partSize
  let sent (last : Bool) : ReaderState := { r with
    unread := r.unread.drop S.partSize
    hashed := r.hashed ++ body
    phase := .sending ⟨r.partNum, body⟩ last }
  if body.length < S.partSize then
    match S.source.failure with
    | some err =>
      let failed := GoError.wrap "blobio: multipart read part %d: %w" [.int r.partNum] err
      { r with phase := .closing, readErr := some (if cancelled then contextCanceled else failed) }
    | none => if body = [] then { r with phase := .closing } else sent true
  else sent false

/-- A step of the reader. Where a send and the cancelled context are both ready,
`quits` decides. -/
def readerStep (S : Setup) (quits : Bool) (s : State) : Option State :=
  let stopped : ReaderState := { s.reader with phase := .closing, readErr := some contextCanceled }
  match s.reader.phase with
  | .loop =>
    if s.cancelled then some { s with reader := stopped }
    else some { s with reader := { s.reader with phase := .reading } }
  | .reading => some { s with reader := S.read s.cancelled s.reader }
  | .sending job last =>
    if quits then if s.cancelled then some { s with reader := stopped } else none
    else if s.partCh.length < S.parallelism then
      some { s with
        partCh := s.partCh ++ [job]
        reader := { s.reader with
          partNum := int32 (s.reader.partNum + 1)
          phase := if last then .closing else .loop } }
    else none
  | .closing => some { s with reader := { s.reader with phase := .closed } }
  | .closed => none

/-- A step of worker `k`. The check of the context and the call are two steps. -/
def workerStep (S : Setup) (k : Nat) (s : State) : Option State :=
  match s.workers[k]?, s.partCh, s.reader.phase with
  | some .idle, job :: rest, _ =>
    some { s with partCh := rest, workers := s.workers.set k (.holding job) }
  | some .idle, [], .closed => some { s with workers := s.workers.set k .exited }
  | some (.holding job), _, _ =>
    if s.cancelled then
      some { s with workers := s.workers.set k (.sending ⟨job, false, .error contextCanceled⟩) }
    else some { s with workers := s.workers.set k (.cleared job) }
  | some (.cleared job), _, _ =>
    some { s with workers := s.workers.set k (.uploading job), log := s.log ++ [.uploadPart job] }
  | some (.uploading job), _, _ =>
    some { s with workers := s.workers.set k (.sending ⟨job, true, S.upload job⟩) }
  | some (.sending result), _, _ =>
    if s.resultCh.length < S.parallelism then
      some { s with workers := s.workers.set k .idle, resultCh := s.resultCh ++ [result] }
    else none
  | _, _, _ => none

end Setup

def Worker.hasExited : Worker → Bool
  | .exited => true
  | _ => false

/-- The uploaded part a result carries; with an error it is the zero value. -/
def PartResult.part (r : PartResult) : UploadedPart :=
  match r.answer with
  | .ok part => part
  | .error _ => {}

def lookup (results : List PartResult) (n : Int) : Option UploadedPart :=
  (results.find? (·.job.partNum = n)).map PartResult.part

def maxPart (results : List PartResult) : Int :=
  results.foldl (fun most r => max most r.job.partNum) 0

def completedPart (part : UploadedPart) : CompletedPart :=
  ⟨part.partNumber, part.checksumSHA256, part.size⟩

/-- `for i := int32(1); i <= maxPart; i++`, from `i` on. -/
def listParts (results : List PartResult) (most : Int) :
    Nat → Int → Option (Except GoError (List CompletedPart))
  | 0, _ => none
  | fuel + 1, i =>
    if i ≤ most then
      match lookup results i with
      | none => some (.error (.errorf "blobio: missing part %d result" [.int i]))
      | some part =>
        (listParts results most fuel (int32 (i + 1))).map (·.map (completedPart part :: ·))
    else some (.ok [])

/-- The completed parts in order. The counter is an `int32`, so a loop that has not
ended when each of its values has come never ends. -/
def completedParts (results : List PartResult) : Option (Except GoError (List CompletedPart)) :=
  listParts results (maxPart results) (2 ^ 32) 1

/-- The cases of the collector's `select`. -/
inductive Ready where
  | result
  | workersDone
  | cancelled
  deriving DecidableEq

def receive (s : State) : Option State :=
  match s.resultCh with
  | [] => none
  | result :: rest => some { s with
      resultCh := rest
      results := result :: s.results
      collector := match result.answer with
        | .ok _ => s.collector
        | .error err =>
          .aborting (.wrap "blobio: upload part %d: %w" [.int result.job.partNum] err) }

namespace Setup

/-- Where the collector goes when the workers are done and the results drained. -/
def assembled (S : Setup) (s : State) : Option Collector :=
  match s.reader.readErr with
  | some err => some (.aborting err)
  | none => (completedParts s.results).map fun
    | .error err => .aborting err
    | .ok parts =>
      if checksumSHA256 s.reader.hashed ≠ S.checksum then
        .aborting (.wrap "blobio: %w: multipart checksum mismatch" [] errChecksumMismatch)
      else .completing parts

/-- A step of the collector. The deferred abort runs before the deferred cancel. -/
def collectorStep (S : Setup) (ready : Ready) (s : State) : Option State :=
  match s.collector with
  | .collecting =>
    match ready with
    | .result => receive s
    | .workersDone => if s.workersDone then some { s with collector := .draining } else none
    | .cancelled =>
      if s.cancelled then some { s with collector := .aborting contextCanceled } else none
  | .draining =>
    match s.resultCh with
    | [] => (S.assembled s).map fun next => { s with collector := next }
    | _ :: _ => receive s
  | .completing parts => some { s with
      log := s.log ++ [.completeMultipart parts]
      collector := match S.completes with
        | .ok res => .cancelling (.ok res)
        | .error err => .aborting (.wrap "blobio: complete multipart: %w" [] err) }
  | .aborting err => some { s with
      log := s.log ++ [.abortMultipart], collector := .cancelling (.error err) }
  | .cancelling res => some { s with cancelled := true, collector := .returned res }
  | .returned _ => none

def waiterStep (s : State) : Option State :=
  if s.workers.all Worker.hasExited ∧ s.workersDone = false then some { s with workersDone := true }
  else none

def callerStep (S : Setup) (s : State) : Option State :=
  if S.cancels ∧ s.cancelled = false then some { s with cancelled := true } else none

end Setup

inductive Move where
  | reader (quits : Bool)
  | worker (k : Nat)
  | waiter
  | collector (ready : Ready)
  | caller

def Setup.move (S : Setup) : Move → State → Option State
  | .reader quits => S.readerStep quits
  | .worker k => S.workerStep k
  | .waiter => Setup.waiterStep
  | .collector ready => S.collectorStep ready
  | .caller => S.callerStep

def Setup.Step (S : Setup) (s t : State) : Prop := ∃ m, S.move m s = some t

/-- What the reader, the workers, the waiting goroutine and the caller can do. -/
inductive Moved (S : Setup) (s : State) : State → Prop where
  | readerStops (phase : s.reader.phase = .loop ∨ ∃ job last, s.reader.phase = .sending job last)
      (cancelled : s.cancelled = true) :
      Moved S s { s with
        reader := { s.reader with phase := .closing, readErr := some contextCanceled } }
  | readerContinues (phase : s.reader.phase = .loop) (live : s.cancelled = false) :
      Moved S s { s with reader := { s.reader with phase := .reading } }
  | reads (phase : s.reader.phase = .reading) :
      Moved S s { s with reader := S.read s.cancelled s.reader }
  | sendsJob (phase : s.reader.phase = .sending job last)
      (room : s.partCh.length < S.parallelism) :
      Moved S s { s with
        partCh := s.partCh ++ [job]
        reader := { s.reader with
          partNum := int32 (s.reader.partNum + 1)
          phase := if last then .closing else .loop } }
  | closes (phase : s.reader.phase = .closing) :
      Moved S s { s with reader := { s.reader with phase := .closed } }
  | takes (position : s.workers = before ++ .idle :: after) (queued : s.partCh = job :: rest) :
      Moved S s { s with partCh := rest, workers := before ++ .holding job :: after }
  | exits (position : s.workers = before ++ .idle :: after) (empty : s.partCh = [])
      (closed : s.reader.phase = .closed) :
      Moved S s { s with workers := before ++ .exited :: after }
  | skips (position : s.workers = before ++ .holding job :: after) (cancelled : s.cancelled = true) :
      Moved S s { s with
        workers := before ++ .sending ⟨job, false, .error contextCanceled⟩ :: after }
  | clears (position : s.workers = before ++ .holding job :: after) (live : s.cancelled = false) :
      Moved S s { s with workers := before ++ .cleared job :: after }
  | issues (position : s.workers = before ++ .cleared job :: after) :
      Moved S s { s with
        workers := before ++ .uploading job :: after, log := s.log ++ [.uploadPart job] }
  | answers (position : s.workers = before ++ .uploading job :: after) :
      Moved S s { s with workers := before ++ .sending ⟨job, true, S.upload job⟩ :: after }
  | sendsResult (position : s.workers = before ++ .sending result :: after)
      (room : s.resultCh.length < S.parallelism) :
      Moved S s { s with
        workers := before ++ .idle :: after, resultCh := s.resultCh ++ [result] }
  | finishes (exited : ∀ w ∈ s.workers, w = .exited) (waiting : s.workersDone = false) :
      Moved S s { s with workersDone := true }
  | callerCancels (may : S.cancels = true) (live : s.cancelled = false) :
      Moved S s { s with cancelled := true }

/-- What the collector can do. -/
inductive Collected (S : Setup) (s : State) : State → Prop where
  | receivesPart (collecting : s.collector = .collecting ∨ s.collector = .draining)
      (queued : s.resultCh = result :: rest) (ok : result.answer = .ok part) :
      Collected S s { s with resultCh := rest, results := result :: s.results }
  | receivesError (collecting : s.collector = .collecting ∨ s.collector = .draining)
      (queued : s.resultCh = result :: rest) (failed : result.answer = .error err) :
      Collected S s { s with
        resultCh := rest
        results := result :: s.results
        collector := .aborting (.wrap "blobio: upload part %d: %w" [.int result.job.partNum] err) }
  | seesDone (collecting : s.collector = .collecting) (done : s.workersDone = true) :
      Collected S s { s with collector := .draining }
  | seesCancelled (collecting : s.collector = .collecting) (cancelled : s.cancelled = true) :
      Collected S s { s with collector := .aborting contextCanceled }
  | assembles (draining : s.collector = .draining) (drained : s.resultCh = [])
      (assembled : S.assembled s = some next) :
      Collected S s { s with collector := next }
  | completes (completing : s.collector = .completing parts) (ok : S.completes = .ok res) :
      Collected S s { s with
        log := s.log ++ [.completeMultipart parts], collector := .cancelling (.ok res) }
  | completeFails (completing : s.collector = .completing parts) (failed : S.completes = .error err) :
      Collected S s { s with
        log := s.log ++ [.completeMultipart parts]
        collector := .aborting (.wrap "blobio: complete multipart: %w" [] err) }
  | aborts (aborting : s.collector = .aborting err) :
      Collected S s { s with
        log := s.log ++ [.abortMultipart], collector := .cancelling (.error err) }
  | cancels (cancelling : s.collector = .cancelling res) :
      Collected S s { s with cancelled := true, collector := .returned res }

section Inversion
variable {S : Setup} {s t : State}

theorem readerStep_moved (step : S.readerStep quits s = some t) : Moved S s t := by
  unfold Setup.readerStep at step
  split at step
  · rename_i phase
    split at step
    · rename_i cancelled
      cases step
      exact .readerStops (.inl phase) cancelled
    · rename_i live
      cases step
      exact .readerContinues phase (by simpa using live)
  · rename_i phase
    cases step
    exact .reads phase
  · rename_i job last phase
    split at step
    · split at step
      · rename_i cancelled
        cases step
        exact .readerStops (.inr ⟨job, last, phase⟩) cancelled
      · contradiction
    · split at step
      · rename_i room
        cases step
        exact .sendsJob phase room
      · contradiction
  · rename_i phase
    cases step
    exact .closes phase
  · contradiction

/-- Worker `k` and its neighbours. -/
theorem worker_split {workers : List Worker} (found : workers[k]? = some w) :
    ∃ before after, workers = before ++ w :: after ∧
      ∀ w', workers.set k w' = before ++ w' :: after := by
  obtain ⟨bound, rfl⟩ := List.getElem?_eq_some_iff.mp found
  refine ⟨workers.take k, workers.drop (k + 1), ?_, fun w' => ?_⟩
  · rw [List.getElem_cons_drop, List.take_append_drop]
  · rw [List.set_eq_take_append_cons_drop, if_pos bound]

theorem workerStep_moved (step : S.workerStep k s = some t) : Moved S s t := by
  unfold Setup.workerStep at step
  split at step
  · rename_i job rest found queued
    obtain ⟨before, after, position, set⟩ := worker_split found
    cases step
    rw [set]
    exact .takes position queued
  · rename_i found empty closed
    obtain ⟨before, after, position, set⟩ := worker_split found
    cases step
    rw [set]
    exact .exits position empty closed
  · rename_i job found
    obtain ⟨before, after, position, set⟩ := worker_split found
    simp only [set] at step
    split at step
    · rename_i cancelled
      cases step
      exact .skips position cancelled
    · rename_i live
      cases step
      exact .clears position (by simpa using live)
  · rename_i job found
    obtain ⟨before, after, position, set⟩ := worker_split found
    cases step
    rw [set]
    exact .issues position
  · rename_i job found
    obtain ⟨before, after, position, set⟩ := worker_split found
    cases step
    rw [set]
    exact .answers position
  · rename_i result found
    obtain ⟨before, after, position, set⟩ := worker_split found
    simp only [set] at step
    split at step
    · rename_i room
      cases step
      exact .sendsResult position room
    · contradiction
  · contradiction

theorem receive_collected (collecting : s.collector = .collecting ∨ s.collector = .draining)
    (step : receive s = some t) : Collected S s t := by
  unfold receive at step
  split at step
  · contradiction
  · rename_i result rest queued
    cases step
    cases answer : result.answer with
    | ok part => exact .receivesPart collecting queued answer
    | error err => exact .receivesError collecting queued answer

theorem collectorStep_collected (step : S.collectorStep ready s = some t) : Collected S s t := by
  unfold Setup.collectorStep at step
  split at step
  · rename_i collecting
    cases ready with
    | result => exact receive_collected (.inl collecting) step
    | workersDone =>
      simp only [Option.ite_none_right_eq_some, Option.some.injEq] at step
      obtain ⟨done, rfl⟩ := step
      exact .seesDone collecting done
    | cancelled =>
      simp only [Option.ite_none_right_eq_some, Option.some.injEq] at step
      obtain ⟨cancelled, rfl⟩ := step
      exact .seesCancelled collecting cancelled
  · rename_i draining
    split at step
    · rename_i drained
      obtain ⟨next, assembled, rfl⟩ := Option.map_eq_some_iff.mp step
      exact .assembles draining drained assembled
    · exact receive_collected (.inr draining) step
  · rename_i parts completing
    cases step
    cases answer : S.completes with
    | ok res => exact .completes completing answer
    | error err => exact .completeFails completing answer
  · rename_i err aborting
    cases step
    exact .aborts aborting
  · rename_i res cancelling
    cases step
    exact .cancels cancelling
  · contradiction

theorem step_cases (step : S.Step s t) : Moved S s t ∨ Collected S s t := by
  obtain ⟨m, step⟩ := step
  cases m with
  | reader quits => exact .inl (readerStep_moved step)
  | worker k => exact .inl (workerStep_moved step)
  | waiter =>
    simp only [Setup.move, Setup.waiterStep, Option.ite_none_right_eq_some, Option.some.injEq] at step
    obtain ⟨⟨exited, waiting⟩, rfl⟩ := step
    refine .inl (.finishes (fun w member => ?_) waiting)
    have done := List.all_eq_true.mp exited w member
    cases w <;> first | rfl | contradiction
  | collector ready => exact .inr (collectorStep_collected step)
  | caller =>
    simp only [Setup.move, Setup.callerStep, Option.ite_none_right_eq_some, Option.some.injEq] at step
    obtain ⟨⟨may, live⟩, rfl⟩ := step
    exact .inl (.callerCancels may live)

end Inversion

end KDrive.Blobio.Multipart
