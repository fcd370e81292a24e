import KDrive.Blobio.MultipartAssembly

/-! What a failed multipart upload leaves behind. The collector returns on the first
error it receives, and its abort is deferred behind its cancel, so it runs first: other
parts may still be on their way. Nothing is left behind when none can be, that is when
the only part that fails is the last one a single worker uploads. -/
namespace KDrive.Blobio.Multipart
open Go Blobstore Interaction Relation

/-- A part fails only where no other one can be under way: the parts before the last
are accepted, and the last one too unless there is one worker or one part. -/
structure FailsLast (S : Setup) : Prop where
  live : S.cancels = false
  earlier : ∀ i, i + 1 < S.parts → S.fails (S.job i) = none
  last : S.parallelism = 1 ∨ S.parts ≤ 1 ∨ ∀ i < S.parts, S.fails (S.job i) = none

/-- Every schedule stops; until then no UploadPart follows the abort; and where it
stops an error was returned, the upload was aborted and no goroutine is left. -/
structure CleansUp (S : Setup) : Prop where
  halts : Halts S.Step S.start
  aborted : ∀ s, ReflTransGen S.Step S.start s →
    ∀ before after, s.log = before ++ .abortMultipart :: after → uploads after = []
  ended : ∀ s, Ends S.Step S.start s →
    (∃ err, s.collector = .returned (.error err)) ∧ .abortMultipart ∈ s.log ∧
    s.workersDone = true ∧ ∀ w ∈ s.workers, w = .exited

/-- Whether the collector still takes results. -/
def Collector.collects : Collector → Bool
  | .collecting | .draining => true
  | _ => false

/-- No job is left anywhere. -/
structure Quiet (partCh : List Job) (workers : List Worker) (resultCh : List PartResult) : Prop where
  queue : partCh = []
  workers : workers.flatMap Worker.jobs = []
  results : resultCh = []

def handed (s : State) : Nat := (placed s.results s.resultCh s.workers s.partCh).length

structure Tidy (S : Setup) (s : State) : Prop where
  /-- A single worker keeps the parts in order. -/
  ordered : S.parallelism = 1 →
    s.results.reverse.map PartResult.job ++ s.resultCh.map PartResult.job ++
      s.workers.flatMap Worker.jobs ++ s.partCh = (List.range (handed s)).map S.job
  quiet : s.collector.collects = false →
    Quiet s.partCh s.workers s.resultCh ∧ (handed s = S.parts ∨ s.reader.phase = .closed)
  aborted : ∀ before after, s.log = before ++ .abortMultipart :: after → after = []

section Log

theorem last_of_absent {x : StoreCall} (absent : x ∉ log)
    (same : log ++ [call] = before ++ x :: after) : after = [] := by
  rcases List.eq_nil_or_concat after with empty | ⟨rest, last, rfl⟩
  · exact empty
  · have split : log ++ [call] = (before ++ x :: rest) ++ [last] := by
      rw [same]
      simp
    have inside := (List.append_inj_left' split rfl)
    exact absurd (by simp [inside]) absent

variable {S : Setup} {s : State}

theorem Sound.handed_eq (sound : Sound S n s) : handed s = n := by
  rw [handed, sound.jobs.length_eq, List.length_map, List.length_range]

theorem Sound.unaborted (sound : Sound S n s)
    (early : (∀ res, s.collector ≠ .cancelling res) ∧ ∀ res, s.collector ≠ .returned res) :
    .abortMultipart ∉ s.log := by
  intro aborted
  have called := mem_closings aborted rfl
  have stage := sound.stage
  cases here : s.collector with
  | collecting | draining | completing parts =>
    rw [here] at stage
    rw [stage.1] at called
    contradiction
  | aborting err =>
    rw [here] at stage
    rcases stage with ⟨calls, -⟩ | ⟨parts, err, calls, -, -⟩ <;> simp [calls] at called
  | cancelling res => exact early.1 res here
  | returned res => exact early.2 res here

theorem Tidy.collects_of_job (tidy : Tidy S s) (position : s.workers = before ++ w :: after)
    (job : w.jobs ≠ []) : s.collector.collects = true := by
  by_contra left
  obtain ⟨⟨-, none, -⟩, -⟩ := tidy.quiet (by simpa using left)
  rw [List.flatMap_eq_nil_iff] at none
  exact job (none w (by simp [position]))

theorem unaborted_of_collects (sound : Sound S n s) (collects : s.collector.collects = true) :
    .abortMultipart ∉ s.log := by
  refine sound.unaborted ⟨fun res here => ?_, fun res here => ?_⟩ <;>
    simp [here, Collector.collects] at collects

end Log

section Steps
variable {S : Setup} {s t : State}

theorem tidy_start (S : Setup) : Tidy S S.start := by
  have none : S.start.workers.flatMap Worker.jobs = [] := by
    rw [List.flatMap_eq_nil_iff]
    intro w member
    rw [List.eq_of_mem_replicate member, Worker.jobs]
  constructor
  · intro _
    rw [handed, placed, none]
    simp [Setup.start]
  · simp [Setup.start, Collector.collects]
  · simp [Setup.start]

namespace Tidy

variable {n : Nat} (tidy : Tidy S s)
include tidy

theorem setReader (opened : s.reader.phase ≠ .closed) (r : ReaderState) :
    Tidy S { s with reader := r } :=
  { tidy with
    quiet := fun left => by
      obtain ⟨quiet, all | closed⟩ := tidy.quiet left
      · exact ⟨quiet, .inl all⟩
      · exact absurd closed opened }

variable (sound : Sound S n s)
include sound

theorem sendsJob (phase : s.reader.phase = .sending job last) (r : ReaderState) :
    Tidy S { s with partCh := s.partCh ++ [job], reader := r } := by
  have progress := sound.reads.progress
  rw [phase] at progress
  obtain ⟨more, rfl, -⟩ := progress
  have collects : s.collector.collects = true := by
    by_contra left
    obtain ⟨-, all | closed⟩ := tidy.quiet (by simpa using left)
    · rw [sound.handed_eq] at all
      omega
    · rw [phase] at closed
      contradiction
  have grown : handed { s with partCh := s.partCh ++ [S.job n], reader := r } = n + 1 := by
    have before := sound.handed_eq
    simp only [handed, placed, List.length_append, List.length_singleton] at before ⊢
    omega
  exact { tidy with
    ordered := fun single => by
      have before := tidy.ordered single
      rw [sound.handed_eq] at before
      rw [grown, List.range_succ, List.map_append, ← before]
      simp
    quiet := fun left => by simp [collects] at left }

omit sound in
/-- A worker goes on with the job it has, or with none. -/
theorem setWorker (position : s.workers = before ++ w :: after)
    (jobs : w'.jobs = w.jobs) : Tidy S { s with workers := before ++ w' :: after } := by
  have same : (before ++ w' :: after).flatMap Worker.jobs = s.workers.flatMap Worker.jobs := by
    simp only [position, List.flatMap_append, List.flatMap_cons, jobs]
  have count : handed { s with workers := before ++ w' :: after } = handed s := by
    simp only [handed, placed, same]
  exact { tidy with
    ordered := fun single => by
      rw [count, same]
      exact tidy.ordered single
    quiet := fun left => by
      obtain ⟨quiet, rest⟩ := tidy.quiet left
      exact ⟨⟨quiet.queue, same.trans quiet.workers, quiet.results⟩, count ▸ rest⟩ }

theorem issues (position : s.workers = before ++ .cleared job :: after) : Tidy S { s with
      workers := before ++ .uploading job :: after, log := s.log ++ [.uploadPart job] } :=
  { tidy.setWorker position (by rfl : (Worker.uploading job).jobs = _) with
    aborted := fun _ _ => last_of_absent
      (unaborted_of_collects sound (tidy.collects_of_job position (by simp [Worker.jobs]))) }

omit tidy in
/-- With a single worker there is nobody else whose jobs could be overtaken. -/
theorem alone (single : S.parallelism = 1)
    (position : s.workers = before ++ w :: after) : before = [] ∧ after = [] := by
  have count := sound.count
  rw [position, single, List.length_append, List.length_cons] at count
  exact ⟨List.eq_nil_of_length_eq_zero (by omega), List.eq_nil_of_length_eq_zero (by omega)⟩

theorem takes (position : s.workers = before ++ .idle :: after) (queued : s.partCh = job :: rest) :
    Tidy S { s with partCh := rest, workers := before ++ .holding job :: after } := by
  have count : handed { s with partCh := rest, workers := before ++ .holding job :: after } =
      handed s := by
    simp only [handed, placed, position, queued, List.flatMap_append, List.flatMap_cons,
      Worker.jobs, List.length_append, List.length_cons, List.length_nil]
    omega
  have collects : s.collector.collects = true := by
    by_contra left
    obtain ⟨⟨empty, -, -⟩, -⟩ := tidy.quiet (by simpa using left)
    rw [queued] at empty
    contradiction
  exact { tidy with
    ordered := fun single => by
      obtain ⟨rfl, rfl⟩ := alone sound single position
      have before := tidy.ordered single
      rw [position, queued] at before
      rw [count, ← before]
      simp [Worker.jobs]
    quiet := fun left => by simp [collects] at left }

theorem sendsResult (position : s.workers = before ++ .sending result :: after) :
    Tidy S { s with workers := before ++ .idle :: after, resultCh := s.resultCh ++ [result] } := by
  have count : handed { s with
      workers := before ++ .idle :: after, resultCh := s.resultCh ++ [result] } = handed s := by
    simp only [handed, placed, position, List.flatMap_append, List.flatMap_cons, Worker.jobs,
      List.map_append, List.map_cons, List.map_nil, List.length_append, List.length_cons,
      List.length_nil]
    omega
  have collects := tidy.collects_of_job position (by simp [Worker.jobs])
  exact { tidy with
    ordered := fun single => by
      obtain ⟨rfl, rfl⟩ := alone sound single position
      have before := tidy.ordered single
      rw [position] at before
      rw [count, ← before]
      simp [Worker.jobs]
    quiet := fun left => by simp [collects] at left }

theorem moved (moved : Moved S s t) : Tidy S t := by
  cases moved with
  | readerStops phase =>
    refine tidy.setReader ?_ _
    rcases phase with phase | ⟨job, last, phase⟩ <;> simp [phase]
  | readerContinues phase | reads phase | closes phase => exact tidy.setReader (by simp [phase]) _
  | sendsJob phase => exact tidy.sendsJob sound phase _
  | takes position queued => exact tidy.takes sound position queued
  | exits position | skips position | clears position | answers position =>
    exact tidy.setWorker position rfl
  | issues position => exact tidy.issues sound position
  | sendsResult position => exact tidy.sendsResult sound position
  | finishes | callerCancels => exact { tidy with }

omit sound in
/-- The collector moves on with no job left. -/
theorem setCollector (quiet : collector.collects = false →
      Quiet s.partCh s.workers s.resultCh ∧ (handed s = S.parts ∨ s.reader.phase = .closed)) :
    Tidy S { s with collector } :=
  { tidy with quiet }

theorem calls (left : s.collector.collects = false)
    (early : (∀ res, s.collector ≠ .cancelling res) ∧ ∀ res, s.collector ≠ .returned res) :
    Tidy S { s with log := s.log ++ [call], collector } :=
  { tidy with
    quiet := fun _ => tidy.quiet left
    aborted := fun _ _ => last_of_absent (sound.unaborted early) }

omit tidy sound in
theorem received_count (queued : s.resultCh = result :: rest) (c : Collector) :
    handed { s with resultCh := rest, results := result :: s.results, collector := c } =
      handed s := by
  simp only [handed, placed, queued, List.map_cons, List.length_append, List.length_cons]
  omega

omit sound in
theorem received_ordered (queued : s.resultCh = result :: rest) (single : S.parallelism = 1) :
    (result :: s.results).reverse.map PartResult.job ++ rest.map PartResult.job ++
      s.workers.flatMap Worker.jobs ++ s.partCh = (List.range (handed s)).map S.job := by
  rw [← tidy.ordered single, queued]
  simp

/-- A part that fails is the last one, and it is the last one to come. -/
theorem failed_quiet (late : FailsLast S)
    (queued : s.resultCh = result :: rest) (failed : S.upload result.job = .error err) :
    Quiet s.partCh s.workers rest ∧ handed s = S.parts := by
  have total := sound.handed_eq
  have bound := sound.reads.bound
  have placedAll := sound.jobs
  have refused {i : Nat} (same : result.job = S.job i) : S.fails (S.job i) ≠ none := by
    intro accepted
    rw [same, Setup.upload, accepted] at failed
    contradiction
  -- Some job is refused, so all parts have been handed over.
  have member : result.job ∈ placed s.results s.resultCh s.workers s.partCh := by
    simp [placed, queued]
  obtain ⟨i, below, same⟩ := List.mem_map.mp (placedAll.mem_iff.mp member)
  have below := List.mem_range.mp below
  have last : S.parts ≤ i + 1 := by
    by_contra more
    exact refused same.symm (late.earlier i (by omega))
  have all : n = S.parts := by omega
  -- The results received before it are all the others.
  have before : n ≤ s.results.length + 1 := by
    rcases late.last with single | few | accepted
    · have position := congrArg (·[s.results.length]?) (tidy.ordered single)
      simp only [queued, List.map_cons, List.append_assoc, List.cons_append] at position
      rw [List.getElem?_append_right (by simp)] at position
      simp only [List.length_map, List.length_reverse, Nat.sub_self, List.getElem?_cons_zero,
        List.getElem?_map, total] at position
      obtain ⟨j, ranged, here⟩ := Option.map_eq_some_iff.mp position.symm
      obtain ⟨counted, rfl⟩ := List.getElem?_eq_some_iff.mp ranged
      rw [List.getElem_range] at here
      by_contra more
      exact refused here.symm (late.earlier s.results.length (by omega))
    · omega
    · exact absurd (accepted i (by omega)) (refused same.symm)
  have length : s.results.length + (rest.length + 1) + (s.workers.flatMap Worker.jobs).length +
      s.partCh.length = n := by
    have counted := total
    simp only [handed, placed, queued, List.length_append, List.length_map, List.length_cons] at counted
    exact counted
  exact ⟨⟨List.eq_nil_of_length_eq_zero (by omega), List.eq_nil_of_length_eq_zero (by omega),
    List.eq_nil_of_length_eq_zero (by omega)⟩, total.trans all⟩

theorem collected (late : FailsLast S) (collected : Collected S s t) : Tidy S t := by
  have calm (unreturned : ∀ res, s.collector ≠ .returned res) : s.cancelled = false := by
    by_contra cancelled
    have cancels := sound.cancels_of_live unreturned (by simpa using cancelled)
    rw [late.live] at cancels
    contradiction
  cases collected with
  | receivesPart collecting queued =>
    exact { tidy with
      ordered := fun single => by
        rw [received_count queued]
        exact tidy.received_ordered queued single
      quiet := fun left => by
        rcases collecting with here | here <;> simp [here, Collector.collects] at left }
  | @receivesError result rest err collecting queued failed =>
    have live := calm (by rcases collecting with here | here <;> simp [here])
    have answered := sound.answers result (by simp [answered, queued])
    simp only [Answered, live, Bool.false_eq_true, and_false] at answered
    split at answered
    · obtain ⟨quiet, all⟩ := tidy.failed_quiet sound late queued (answered ▸ failed)
      exact { tidy with
        ordered := fun single => by
          rw [received_count queued]
          exact tidy.received_ordered queued single
        quiet := fun _ => ⟨quiet, .inl ((received_count queued _).trans all)⟩ }
    · contradiction
  | seesDone => exact tidy.setCollector (by simp [Collector.collects])
  | seesCancelled here cancelled =>
    rw [calm (by simp [here])] at cancelled
    contradiction
  | assembles here drained =>
    have stage := sound.stage
    rw [here] at stage
    obtain ⟨empty, closed, none⟩ := sound.at_rest stage.2.2
    exact tidy.setCollector fun _ => ⟨⟨empty, none _ rfl, drained⟩, .inr closed⟩
  | completes here | completeFails here | aborts here =>
    exact tidy.calls sound (by simp [here, Collector.collects]) (by simp [here])
  | cancels here =>
    exact { tidy with quiet := fun _ => tidy.quiet (by simp [here, Collector.collects]) }

end Tidy

end Steps

theorem tidy_reaches {S : Setup} (late : FailsLast S) (run : ReflTransGen S.Step S.start s) :
    ∃ n, Sound S n s ∧ Tidy S s := by
  have preserves {s t : State} (inv : (∃ n, Sound S n s) ∧ Tidy S s) (step : S.Step s t) :
      (∃ n, Sound S n t) ∧ Tidy S t := by
    obtain ⟨⟨n, sound⟩, tidy⟩ := inv
    rcases step_cases step with moved | collected
    · exact ⟨sound.moved moved, tidy.moved sound moved⟩
    · exact ⟨⟨n, sound.collects collected⟩, tidy.collected sound late collected⟩
  obtain ⟨⟨n, sound⟩, tidy⟩ := reaches_invariant (fun s => (∃ n, Sound S n s) ∧ Tidy S s)
    preserves run ⟨⟨0, sound_start S⟩, tidy_start S⟩
  exact ⟨n, sound, tidy⟩

/-- Where a run with a failure stops, the error was returned and the upload aborted. -/
theorem failing_aborts {S : Setup}
    (failing : S.source.failure ≠ none ∨ ∃ i < S.parts, S.fails (S.job i) ≠ none)
    (sound : Sound S n s) (returned : s.collector = .returned res) :
    (∃ err, res = .error err) ∧ .abortMultipart ∈ s.log := by
  have stage := sound.stage
  rw [returned] at stage
  cases res with
  | error err =>
    have called : .abortMultipart ∈ closings s.log := by
      rcases stage with ⟨calls, -⟩ | ⟨parts, err, calls, -, -⟩ <;> simp [calls]
    exact ⟨⟨err, rfl⟩, (List.mem_filter.mp called).1⟩
  | ok res =>
    exfalso
    obtain ⟨parts, -, whole, -⟩ := stage
    obtain ⟨read, all, -⟩ := sound.read_whole whole.toSettled whole.read
    rcases failing with failure | ⟨i, below, refused⟩
    · exact failure read
    · have complete := sound.complete whole.toSettled
      obtain ⟨r, member, same⟩ := complete.exists_result (all ▸ below)
      have accepted := complete.answers r member
      rw [same, Setup.upload] at accepted
      split at accepted
      · contradiction
      · contradiction

/-- Nobody is left where a run stops without a job. -/
theorem quiet_exits {S : Setup} (stuck : ∀ t, ¬ S.Step s t)
    (quiet : Quiet s.partCh s.workers s.resultCh) :
    s.workersDone = true ∧ ∀ w ∈ s.workers, w = .exited := by
  have positive := S.parallelism_pos
  have closed : s.reader.phase = .closed := by
    rcases stuck_reader stuck with closed | ⟨job, last, -, full⟩
    · exact closed
    · rw [quiet.queue, List.length_nil] at full
      omega
  have exited : ∀ w ∈ s.workers, w = .exited := by
    intro w member
    rcases stuck_worker stuck member with exited | ⟨-, -, opened⟩ | ⟨r, -, full⟩
    · exact exited
    · exact absurd closed opened
    · rw [quiet.results, List.length_nil] at full
      omega
  refine ⟨?_, exited⟩
  by_contra waiting
  have waiter := move_none stuck .waiter
  have all : s.workers.all Worker.hasExited = true := by
    rw [List.all_eq_true]
    intro w member
    rw [exited w member, Worker.hasExited]
  simp [Setup.move, Setup.waiterStep, all, waiting] at waiter

/-- A failed upload cleans up when the part that fails is the last one under way. -/
theorem failed_cleansUp (S : Setup)
    (failing : S.source.failure ≠ none ∨ ∃ i < S.parts, S.fails (S.job i) ≠ none)
    (late : FailsLast S) : CleansUp S where
  halts := upload_halts S S.start
  aborted := by
    intro s run before after same
    obtain ⟨n, -, tidy⟩ := tidy_reaches late run
    rw [tidy.aborted before after same, uploads, List.filterMap_nil]
  ended := by
    rintro s ⟨run, stuck⟩
    obtain ⟨n, sound, tidy⟩ := tidy_reaches late run
    obtain ⟨res, returned⟩ := stuck_returned stuck sound
    obtain ⟨⟨err, rfl⟩, aborted⟩ := failing_aborts failing sound returned
    obtain ⟨quiet, -⟩ := tidy.quiet (by simp [returned, Collector.collects])
    exact ⟨⟨err, returned⟩, aborted, quiet_exits stuck quiet⟩

section Runs

/-- The state a list of moves leads to. -/
def Setup.follow (S : Setup) : List Move → State → Option State
  | [], s => some s
  | m :: rest, s => (S.move m s).bind (S.follow rest)

theorem follow_reaches {S : Setup} {moves : List Move} (followed : S.follow moves s = some t) :
    ReflTransGen S.Step s t := by
  induction moves generalizing s with
  | nil =>
    cases followed
    exact .refl
  | cons m rest ih =>
    obtain ⟨u, first, later⟩ := Option.bind_eq_some_iff.mp followed
    exact .head ⟨m, first⟩ (ih later)

/-- The moves that can be possible at all. -/
def candidates (s : State) : List Move :=
  [.reader true, .reader false, .waiter, .collector .result, .collector .workersDone,
    .collector .cancelled, .caller] ++ (List.range s.workers.length).map .worker

theorem stuck_of_candidates {S : Setup} (none : ∀ m ∈ candidates s, S.move m s = none) (t : State) :
    ¬ S.Step s t := by
  rintro ⟨m, moved⟩
  suffices possible : m ∈ candidates s by
    rw [none m possible] at moved
    contradiction
  cases m with
  | reader quits => cases quits <;> simp [candidates]
  | waiter | caller => simp [candidates]
  | collector ready => cases ready <;> simp [candidates]
  | worker k =>
    by_contra absent
    have beyond : s.workers.length ≤ k := by simpa [candidates] using absent
    simp [Setup.move, Setup.workerStep, List.getElem?_eq_none beyond] at moved

/-- A body in parts of one byte, of which the parts with the given numbers fail. -/
def refusing (data : Bytes) (parallelism : Int) (numbers : List Int) : Setup where
  source := ⟨data, none⟩
  partSize := 1
  multipartParallelism := parallelism
  checksum := checksumSHA256 data
  fails job :=
    if job.partNum < 1 ∨ job.partNum ∈ numbers then some (.new "service unavailable") else none
  completes := .ok {}
  sized := Nat.one_pos
  rejects job low := by simp [low]

private def sendPart : List Move := [.reader false, .reader false, .reader false]

private def uploadPart : List Move := List.replicate 4 (.worker 0)

/-- Part 1 fails and is received, and the upload aborted; then part 2 is read and sent. -/
private def lateUpload : List Move :=
  sendPart ++ uploadPart ++ [.worker 0, .collector .result, .collector .result] ++ sendPart ++ uploadPart

/-- Part 1 fails and is received; parts 2 and 3 are uploaded before the context is
cancelled, and there is room for only one of their results. -/
private def leftBehind : List Move :=
  sendPart ++ uploadPart ++ [.worker 0, .collector .result] ++ sendPart ++ uploadPart ++ [.worker 0] ++
    sendPart ++ uploadPart ++ List.replicate 2 (.collector .result) ++ [.reader false, .reader false]

def Worker.blocked : Worker → Bool
  | .sending _ => true
  | _ => false

def Collector.failed : Collector → Bool
  | .returned (.error _) => true
  | _ => false

theorem Collector.failed_iff {c : Collector} : c.failed = true ↔ ∃ err, c = .returned (.error err) := by
  constructor
  · intro failed
    unfold Collector.failed at failed
    split at failed
    · exact ⟨_, rfl⟩
    · contradiction
  · rintro ⟨err, rfl⟩
    rfl

theorem follow_exhibits {S : Setup} {moves : List Move} (check : State → Bool)
    (found : (S.follow moves S.start).any check = true) :
    ∃ s, ReflTransGen S.Step S.start s ∧ check s = true := by
  cases followed : S.follow moves S.start with
  | none => simp [followed] at found
  | some s => exact ⟨s, follow_reaches followed, by simpa [followed] using found⟩

end Runs

/-- With one worker: an UploadPart issued after the abort, and a worker that is left
waiting for room in the result channel when nothing can move any more. -/
theorem failed_leavesBehind :
    (∃ s before after, ReflTransGen (refusing [1, 2] 1 [1]).Step (refusing [1, 2] 1 [1]).start s ∧
      s.log = before ++ .abortMultipart :: after ∧ uploads after ≠ []) ∧
    ∃ s err, Ends (refusing [1, 2, 3] 1 [1]).Step (refusing [1, 2, 3] 1 [1]).start s ∧
      s.collector = .returned (.error err) ∧ s.workersDone = false ∧
      s.workers.any Worker.blocked = true := by
  constructor
  · obtain ⟨s, run, log⟩ := follow_exhibits (S := refusing [1, 2] 1 [1])
      (fun s => s.log = [.uploadPart ⟨1, [1]⟩, .abortMultipart, .uploadPart ⟨2, [2]⟩])
      (by decide +kernel : ((refusing [1, 2] 1 [1]).follow lateUpload _).any _ = true)
    exact ⟨s, [.uploadPart ⟨1, [1]⟩], [.uploadPart ⟨2, [2]⟩], run, of_decide_eq_true log,
      by simp [uploads, StoreCall.job?]⟩
  · obtain ⟨s, run, checked⟩ := follow_exhibits (S := refusing [1, 2, 3] 1 [1])
      (fun s => s.collector.failed && (s.workersDone == false && (s.workers.any Worker.blocked &&
        (candidates s).all fun m => ((refusing [1, 2, 3] 1 [1]).move m s).isNone)))
      (by decide +kernel : ((refusing [1, 2, 3] 1 [1]).follow leftBehind _).any _ = true)
    simp only [Bool.and_eq_true, beq_iff_eq, List.all_eq_true, Option.isNone_iff_eq_none] at checked
    obtain ⟨failed, waiting, blocked, none⟩ := checked
    obtain ⟨err, returned⟩ := Collector.failed_iff.mp failed
    exact ⟨s, err, ⟨run, stuck_of_candidates none⟩, returned, waiting, blocked⟩

/-- Two parts and one worker, with the second part failing. -/
theorem failed_cleansUp_second : CleansUp (refusing [1, 2] 1 [2]) := by
  have parts : (refusing [1, 2] 1 [2]).parts = 2 := by decide
  refine failed_cleansUp _ (.inr ⟨1, by rw [parts]; decide, by decide⟩) ⟨rfl, fun i early => ?_, .inl rfl⟩
  rw [parts] at early
  obtain rfl : i = 0 := by omega
  decide

end KDrive.Blobio.Multipart
