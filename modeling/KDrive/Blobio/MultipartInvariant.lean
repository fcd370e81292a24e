import KDrive.Blobio.Multipart
import KDrive.Interaction.Halting

/-! What holds of a multipart upload in every state its goroutines can reach: each part
that was handed over is in exactly one place, and the collector completes nothing but
the whole body. -/
namespace KDrive.Blobio.Multipart
open Go Blobstore Interaction Relation

namespace Setup

/-- The job of part `i`, counted from zero. -/
def job (S : Setup) (i : Nat) : Job := ⟨partNumber i, slice S.partSize S.source.data i⟩

@[simp] theorem job_partNum (S : Setup) (i : Nat) : (S.job i).partNum = partNumber i := by
  simp only [job]

/-- How many parts the reader hands over when nothing stops it. -/
def parts (S : Setup) : Nat :=
  match S.source.failure with
  | none => partCount S.partSize S.source.data.length
  | some _ => S.source.data.length / S.partSize

theorem parallelism_pos (S : Setup) : 0 < S.parallelism := by
  unfold parallelism
  split <;> omega

variable {S : Setup}

theorem parts_full (full : (n + 1) * S.partSize ≤ S.source.data.length) : n < S.parts := by
  unfold parts
  split
  · have covers := le_partCount_mul S.sized S.source.data.length
    have sized := S.sized
    rw [Nat.succ_mul] at full
    exact Nat.lt_of_mul_lt_mul_right (by omega : n * S.partSize < _ * S.partSize)
  · exact (Nat.le_div_iff_mul_le S.sized).mpr full

theorem parts_ended (whole : S.source.failure = none) (start : n * S.partSize = S.source.data.length) :
    S.parts = n := by
  simp only [parts, whole, partCount, ← start]
  have sized := S.sized
  rw [Nat.add_sub_assoc sized, Nat.add_comm, Nat.add_mul_div_right _ _ sized,
    Nat.div_eq_of_lt (by omega), Nat.zero_add]

theorem parts_short (whole : S.source.failure = none) (some : n * S.partSize < S.source.data.length)
    (short : S.source.data.length < (n + 1) * S.partSize) : S.parts = n + 1 := by
  simp only [parts, whole, partCount]
  have sized := S.sized
  have upper : (S.source.data.length + S.partSize - 1) / S.partSize < n + 2 := by
    rw [Nat.div_lt_iff_lt_mul sized]
    simp only [Nat.succ_mul] at short ⊢
    omega
  have lower : n + 1 ≤ (S.source.data.length + S.partSize - 1) / S.partSize := by
    rw [Nat.le_div_iff_mul_le sized, Nat.succ_mul]
    omega
  omega

end Setup

/-- How far the reader is when it has handed over `n` parts. -/
def Progress (S : Setup) (n : Nat) (r : ReaderState) : Phase → Prop
  | .loop | .reading => n * S.partSize ≤ S.source.data.length ∧
      r.unread = S.source.data.drop (n * S.partSize) ∧
      r.hashed = S.source.data.take (n * S.partSize) ∧ r.readErr = none
  | .sending job last => n < S.parts ∧ job = S.job n ∧
      r.unread = S.source.data.drop ((n + 1) * S.partSize) ∧
      r.hashed = S.source.data.take ((n + 1) * S.partSize) ∧ r.readErr = none ∧
      (if last then S.source.failure = none ∧ n + 1 = S.parts ∧ S.source.data.length ≤ (n + 1) * S.partSize
        else (n + 1) * S.partSize ≤ S.source.data.length)
  | .closing | .closed => r.readErr = none →
      S.source.failure = none ∧ n = S.parts ∧ r.hashed = S.source.data

structure Reads (S : Setup) (n : Nat) (r : ReaderState) : Prop where
  number : r.partNum = partNumber n
  bound : n ≤ S.parts
  progress : Progress S n r r.phase

section Reader
variable {S : Setup} {r : ReaderState}

theorem reads_start (S : Setup) : Reads S 0 S.start.reader :=
  ⟨rfl, Nat.zero_le _, by simp [Setup.start, Progress]⟩

theorem partNumber_succ (n : Nat) : int32 (partNumber n + 1) = partNumber (n + 1) := by
  simp only [partNumber, int32, Int.bmod_add_bmod, Int.natCast_add, Int.cast_ofNat_Int]

variable {n : Nat} (reads : Reads S n r)
include reads

theorem Reads.read (phase : r.phase = .reading) (cancelled : Bool) :
    Reads S n (S.read cancelled r) := by
  obtain ⟨number, bound, progress⟩ := reads
  rw [phase] at progress
  obtain ⟨start, unread, hashed, clean⟩ := progress
  have extended : S.source.data.take (n * S.partSize) ++ r.unread.take S.partSize =
      S.source.data.take ((n + 1) * S.partSize) := by
    rw [unread, Nat.succ_mul, List.take_add]
  have advanced : r.unread.drop S.partSize = S.source.data.drop ((n + 1) * S.partSize) := by
    rw [unread, List.drop_drop, Nat.succ_mul]
  have body : (⟨r.partNum, r.unread.take S.partSize⟩ : Job) = S.job n := by
    rw [Setup.job, slice, number, unread]
  have taken : (r.unread.take S.partSize).length =
      min S.partSize (S.source.data.length - n * S.partSize) := by
    rw [List.length_take, unread, List.length_drop]
  have next : (n + 1) * S.partSize = n * S.partSize + S.partSize := Nat.succ_mul _ _
  have sized := S.sized
  unfold Setup.read
  simp only
  split
  · rename_i short
    split
    · exact ⟨number, bound, by simp [Progress]⟩
    · rename_i whole
      split
      · rename_i empty
        -- Nothing is left: the parts so far are the body.
        rw [empty, List.length_nil] at taken
        have ended : n * S.partSize = S.source.data.length := by omega
        refine ⟨number, bound, fun _ => ⟨whole, (Setup.parts_ended whole ended).symm, ?_⟩⟩
        rw [hashed, ended, List.take_length]
      · rename_i some
        have positive := List.length_pos_iff.mpr some
        have last := Setup.parts_short (n := n) whole (by omega) (by omega)
        exact ⟨number, bound, by omega, body, advanced, hashed ▸ extended, clean, whole,
          last.symm, by omega⟩
  · rename_i full
    have fits : (n + 1) * S.partSize ≤ S.source.data.length := by omega
    exact ⟨number, bound, Setup.parts_full fits, body, advanced, hashed ▸ extended, clean, fits⟩

theorem Reads.sent (phase : r.phase = .sending job last) : job = S.job n ∧ Reads S (n + 1) { r with
      partNum := int32 (r.partNum + 1), phase := if last then .closing else .loop } := by
  obtain ⟨number, bound, progress⟩ := reads
  rw [phase] at progress
  obtain ⟨more, rfl, unread, hashed, clean, rest⟩ := progress
  refine ⟨rfl, by rw [number, partNumber_succ], more, ?_⟩
  cases last with
  | true =>
    obtain ⟨whole, count, covered⟩ := rest
    exact fun _ => ⟨whole, count, by rw [hashed, List.take_of_length_le covered]⟩
  | false => exact ⟨rest, unread, hashed, clean⟩

theorem Reads.stopped (err : GoError) :
    Reads S n { r with phase := .closing, readErr := some err } :=
  ⟨reads.number, reads.bound, by simp [Progress]⟩

theorem Reads.continues (phase : r.phase = .loop) : Reads S n { r with phase := .reading } := by
  obtain ⟨number, bound, progress⟩ := reads
  rw [phase] at progress
  exact ⟨number, bound, progress⟩

theorem Reads.closes (phase : r.phase = .closing) : Reads S n { r with phase := .closed } := by
  obtain ⟨number, bound, progress⟩ := reads
  rw [phase] at progress
  exact ⟨number, bound, progress⟩

end Reader

section Termination

/-- How many steps each goroutine can still take, bounded from above. -/
def ReaderState.weight (r : ReaderState) : Nat :=
  match r.phase with
  | .loop => 12 * r.unread.length + 3
  | .reading => 12 * r.unread.length + 2
  | .sending _ _ => 12 * r.unread.length + 11
  | .closing => 1
  | .closed => 0

def Worker.weight : Worker → Nat
  | .holding _ => 6
  | .cleared _ => 5
  | .uploading _ => 4
  | .sending _ => 3
  | .idle => 1
  | .exited => 0

def Collector.weight : Collector → Nat
  | .collecting => 5
  | .draining => 4
  | .completing _ => 3
  | .aborting _ => 2
  | .cancelling _ => 1
  | .returned _ => 0

def State.weight (s : State) : Nat :=
  s.reader.weight + 7 * s.partCh.length + (s.workers.map Worker.weight).sum + s.resultCh.length +
    (if s.workersDone then 0 else 1) + s.collector.weight + (if s.cancelled then 0 else 1)

variable {S : Setup} {s t : State}

theorem read_weight (phase : r.phase = .reading) (cancelled : Bool) :
    (S.read cancelled r).weight < r.weight := by
  have here : r.weight = 12 * r.unread.length + 2 := by simp only [ReaderState.weight, phase]
  have sized := S.sized
  have taken : (r.unread.take S.partSize).length = min S.partSize r.unread.length :=
    List.length_take
  rw [here, Setup.read]
  simp only
  split
  · split
    · simp only [ReaderState.weight]
      omega
    · split
      · simp only [ReaderState.weight]
        omega
      · rename_i some
        have positive := List.length_pos_iff.mpr some
        simp only [ReaderState.weight, List.length_drop]
        omega
  · simp only [ReaderState.weight, List.length_drop]
    omega

theorem moved_weight (moved : Moved S s t) : t.weight < s.weight := by
  cases moved with
  | readerStops phase cancelled =>
    rcases phase with phase | ⟨job, last, phase⟩ <;>
      simp only [State.weight, ReaderState.weight, phase] <;> omega
  | readerContinues phase => simp only [State.weight, ReaderState.weight, phase]; omega
  | reads phase =>
    have lower := read_weight (S := S) phase s.cancelled
    simp only [State.weight]
    omega
  | @sendsJob job last phase room =>
    cases last <;>
      simp only [State.weight, ReaderState.weight, phase, List.length_append, List.length_singleton,
        if_true, Bool.false_eq_true, if_false] <;> omega
  | closes phase => simp only [State.weight, ReaderState.weight, phase]; omega
  | takes position queued =>
    simp only [State.weight, position, queued, List.map_append, List.map_cons, List.sum_append,
      List.sum_cons, Worker.weight, List.length_cons]
    omega
  | finishes exited waiting => simp [State.weight, waiting]
  | callerCancels may live => simp [State.weight, live]
  | sendsResult position room =>
    simp only [State.weight, position, List.map_append, List.map_cons, List.sum_append,
      List.sum_cons, Worker.weight, List.length_append, List.length_singleton]
    omega
  | exits position | skips position | clears position | issues position | answers position =>
    simp only [State.weight, position, List.map_append, List.map_cons, List.sum_append,
      List.sum_cons, Worker.weight]
    omega

theorem assembled_weight (assembled : S.assembled s = some next) : next.weight < 4 := by
  unfold Setup.assembled at assembled
  split at assembled
  · cases assembled
    simp [Collector.weight]
  · obtain ⟨result, -, rfl⟩ := Option.map_eq_some_iff.mp assembled
    cases result with
    | error err => simp [Collector.weight]
    | ok parts =>
      simp only
      split <;> simp [Collector.weight]

theorem collected_weight (collected : Collected S s t) : t.weight < s.weight := by
  cases collected with
  | receivesPart collecting queued =>
    simp only [State.weight, queued, List.length_cons]
    omega
  | receivesError collecting queued =>
    rcases collecting with collecting | collecting <;>
      simp only [State.weight, queued, collecting, Collector.weight, List.length_cons] <;> omega
  | assembles draining drained assembled =>
    have lower := assembled_weight assembled
    simp only [State.weight, draining, Collector.weight] at lower ⊢
    omega
  | cancels cancelling =>
    simp only [State.weight, cancelling, Collector.weight, if_true]
    split <;> omega
  | seesDone here | seesCancelled here | completes here | completeFails here | aborts here =>
    simp only [State.weight, here, Collector.weight]
    omega

theorem step_weight (step : S.Step s t) : t.weight < s.weight := by
  rcases step_cases step with moved | collected
  · exact moved_weight moved
  · exact collected_weight collected

/-- No schedule goes on for ever. -/
theorem upload_halts (S : Setup) (s : State) : Halts S.Step s :=
  halts_of_measure State.weight (fun _ _ => step_weight) s

end Termination

section Placement

/-- The job a worker has in hand, its result included. -/
def Worker.jobs : Worker → List Job
  | .holding job | .cleared job | .uploading job => [job]
  | .sending result => [result.job]
  | .idle | .exited => []

def Worker.results : Worker → List PartResult
  | .sending result => [result]
  | _ => []

def Worker.calling : Worker → List Job
  | .uploading job => [job]
  | _ => []

/-- All jobs that were handed over, wherever they are. -/
def placed (results resultCh : List PartResult) (workers : List Worker) (partCh : List Job) :
    List Job :=
  results.map PartResult.job ++ resultCh.map PartResult.job ++ workers.flatMap Worker.jobs ++ partCh

def answered (results resultCh : List PartResult) (workers : List Worker) : List PartResult :=
  results ++ resultCh ++ workers.flatMap Worker.results

def attempted (rs : List PartResult) : List Job := (rs.filter (·.attempted)).map PartResult.job

def StoreCall.job? : StoreCall → Option Job
  | .uploadPart job => some job
  | _ => none

/-- The parts UploadPart was called with. -/
def uploads (log : List StoreCall) : List Job := log.filterMap StoreCall.job?

/-- The other calls: CompleteMultipart and AbortMultipart. -/
def closings (log : List StoreCall) : List StoreCall := log.filter (·.job?.isNone)

/-- A result is the store's answer, or says that the context was cancelled. -/
def Answered (S : Setup) (cancelled : Bool) (r : PartResult) : Prop :=
  if r.attempted then r.answer = S.upload r.job
  else r.answer = .error contextCanceled ∧ cancelled = true

theorem Answered.cancelled (answered : Answered S c r) : Answered S true r := by
  unfold Answered at answered ⊢
  split
  · rename_i attempted
    rwa [if_pos attempted] at answered
  · rename_i skipped
    rw [if_neg skipped] at answered
    exact ⟨answered.1, rfl⟩

def AllOk (results : List PartResult) : Prop := ∀ r ∈ results, ∃ part, r.answer = .ok part

end Placement

section Stages

/-- The workers are done and have left only successes behind. -/
structure Settled (s : State) : Prop where
  done : s.workersDone = true
  drained : s.resultCh = []
  ok : AllOk s.results

/-- The collector has checked everything and may complete the upload with `parts`. -/
structure Whole (S : Setup) (s : State) (parts : List CompletedPart) : Prop extends Settled s where
  read : s.reader.readErr = none
  verified : checksumSHA256 s.reader.hashed = S.checksum
  listed : completedParts s.results = some (.ok parts)

/-- Why an upload is given up before it is completed. -/
def Cause (S : Setup) (s : State) : Prop :=
  (∃ r ∈ s.results, ∃ err, S.upload r.job = .error err) ∨ S.cancels = true ∨
    Settled s ∧ (S.source.failure ≠ none ∨ (∃ err, completedParts s.results = some (.error err)) ∨
      s.reader.readErr = none ∧ checksumSHA256 s.reader.hashed ≠ S.checksum)

/-- An upload that failed: `rest` is what the collector did about it. -/
def Undone (S : Setup) (s : State) (rest : List StoreCall) : Prop :=
  (closings s.log = rest ∧ Cause S s) ∨
    ∃ parts err, closings s.log = .completeMultipart parts :: rest ∧ Whole S s parts ∧
      S.completes = .error err

/-- What the collector has done and learned by the time it is where it is. -/
def Stage (S : Setup) (s : State) : Collector → Prop
  | .collecting => closings s.log = [] ∧ AllOk s.results
  | .draining => closings s.log = [] ∧ AllOk s.results ∧ s.workersDone = true
  | .completing parts => closings s.log = [] ∧ Whole S s parts
  | .aborting _ => Undone S s []
  | .cancelling (.ok res) | .returned (.ok res) =>
      ∃ parts, closings s.log = [.completeMultipart parts] ∧ Whole S s parts ∧ S.completes = .ok res
  | .cancelling (.error _) | .returned (.error _) => Undone S s [.abortMultipart]

end Stages

/-- The invariant, when the reader has handed over `n` parts. -/
structure Sound (S : Setup) (n : Nat) (s : State) : Prop where
  reads : Reads S n s.reader
  stopped : s.reader.readErr ≠ none → S.source.failure ≠ none ∨ s.cancelled = true
  jobs : (placed s.results s.resultCh s.workers s.partCh).Perm ((List.range n).map S.job)
  answers : ∀ r ∈ answered s.results s.resultCh s.workers, Answered S s.cancelled r
  issued : (uploads s.log).Perm
    (attempted (answered s.results s.resultCh s.workers) ++ s.workers.flatMap Worker.calling)
  count : s.workers.length = S.parallelism
  closed : .exited ∈ s.workers → s.partCh = [] ∧ s.reader.phase = .closed
  done : s.workersDone = true → ∀ w ∈ s.workers, w = .exited
  live : s.cancelled = true → S.cancels = true ∨ ∃ res, s.collector = .returned res
  stage : Stage S s s.collector

theorem sound_start (S : Setup) : Sound S 0 S.start := by
  have idle : ∀ w ∈ S.start.workers, w = .idle := fun w member => List.eq_of_mem_replicate member
  have none {α : Type} (f : Worker → List α) (at_idle : f .idle = []) :
      S.start.workers.flatMap f = [] := by
    rw [List.flatMap_eq_nil_iff]
    intro w member
    rw [idle w member, at_idle]
  constructor
  · exact reads_start S
  · simp [Setup.start]
  · rw [placed, none _ rfl]
    simp [Setup.start]
  · rw [answered, none _ rfl]
    simp [Setup.start]
  · rw [answered, none _ rfl, none _ rfl]
    simp [Setup.start, uploads, attempted]
  · simp [Setup.start]
  · intro exited
    cases idle _ exited
  · simp [Setup.start]
  · simp [Setup.start]
  · simp [Setup.start, Stage, closings, AllOk]

section Background
variable {S : Setup} {s t : State}

/-- Once the workers are done, only the collector changes what it reads. -/
structure Leaves (s t : State) : Prop where
  results : t.results = s.results
  frozen : s.workersDone = true →
    t.reader = s.reader ∧ t.resultCh = s.resultCh ∧ t.workersDone = true

theorem Settled.left (settled : Settled s) (leaves : Leaves s t) : Settled t := by
  obtain ⟨-, resultCh, done⟩ := leaves.frozen settled.done
  exact ⟨done, resultCh.trans settled.drained, leaves.results ▸ settled.ok⟩

theorem Whole.left (whole : Whole S s parts) (leaves : Leaves s t) : Whole S t parts := by
  obtain ⟨reader, -, -⟩ := leaves.frozen whole.done
  exact ⟨whole.toSettled.left leaves, reader ▸ whole.read, reader ▸ whole.verified,
    leaves.results ▸ whole.listed⟩

theorem Cause.left (cause : Cause S s) (leaves : Leaves s t) : Cause S t := by
  rcases cause with failed | cancels | ⟨settled, reason⟩
  · exact .inl (leaves.results ▸ failed)
  · exact .inr (.inl cancels)
  · obtain ⟨reader, -, -⟩ := leaves.frozen settled.done
    refine .inr (.inr ⟨settled.left leaves, ?_⟩)
    rw [reader, leaves.results]
    exact reason

theorem Undone.left (undone : Undone S s rest) (leaves : Leaves s t)
    (calls : closings t.log = closings s.log ++ more) : Undone S t (rest ++ more) := by
  rcases undone with ⟨called, cause⟩ | ⟨parts, err, called, whole, failed⟩
  · exact .inl ⟨by rw [calls, called], cause.left leaves⟩
  · exact .inr ⟨parts, err, by rw [calls, called, List.cons_append], whole.left leaves, failed⟩

theorem Undone.kept (undone : Undone S s rest) (leaves : Leaves s t)
    (calls : closings t.log = closings s.log) : Undone S t rest := by
  simpa using undone.left leaves (calls.trans (List.append_nil _).symm)

theorem Stage.left (stage : Stage S s c) (leaves : Leaves s t)
    (calls : closings t.log = closings s.log) : Stage S t c := by
  cases c with
  | collecting => exact ⟨calls.trans stage.1, leaves.results ▸ stage.2⟩
  | draining =>
    obtain ⟨none, ok, done⟩ := stage
    exact ⟨calls.trans none, leaves.results ▸ ok, (leaves.frozen done).2.2⟩
  | completing parts => exact ⟨calls.trans stage.1, stage.2.left leaves⟩
  | aborting err => exact Undone.kept stage leaves calls
  | cancelling res | returned res =>
    cases res with
    | ok res =>
      obtain ⟨parts, called, whole, completed⟩ := stage
      exact ⟨parts, calls.trans called, whole.left leaves, completed⟩
    | error err => exact Undone.kept stage leaves calls

namespace Sound

variable {n : Nat} (sound : Sound S n s)
include sound

theorem open_reader (opened : s.reader.phase ≠ .closed) :
    .exited ∉ s.workers ∧ s.workersDone = false := by
  have working : .exited ∉ s.workers := fun exited => opened (sound.closed exited).2
  refine ⟨working, Bool.eq_false_iff.mpr fun done => working ?_⟩
  have some : 0 < s.workers.length := sound.count ▸ S.parallelism_pos
  obtain ⟨w, member⟩ := List.exists_mem_of_length_pos some
  exact sound.done done w member ▸ member

theorem busy (position : s.workers = before ++ w :: after)
    (working : w ≠ .exited) : s.workersDone = false :=
  Bool.eq_false_iff.mpr fun done => working (sound.done done w (by simp [position]))

theorem setReader (opened : s.reader.phase ≠ .closed) (reads : Reads S n r)
    (stopped : r.readErr ≠ none → S.source.failure ≠ none ∨ s.cancelled = true) :
    Sound S n { s with reader := r } := by
  obtain ⟨working, waiting⟩ := sound.open_reader opened
  exact { sound with
    reads
    stopped
    closed := fun exited => absurd exited working
    stage := sound.stage.left ⟨rfl, fun done => by simp [waiting] at done⟩ rfl }

theorem sendsJob (phase : s.reader.phase = .sending job last) : Sound S (n + 1) { s with
      partCh := s.partCh ++ [job]
      reader := { s.reader with
        partNum := int32 (s.reader.partNum + 1)
        phase := if last then .closing else .loop } } := by
  obtain ⟨working, waiting⟩ := sound.open_reader (by simp [phase])
  obtain ⟨rfl, reads⟩ := sound.reads.sent phase
  exact { sound with
    reads
    jobs := by
      rw [List.range_succ, List.map_append, placed, ← List.append_assoc]
      exact sound.jobs.append_right _
    closed := fun exited => absurd exited working
    stage := sound.stage.left ⟨rfl, fun done => by simp [waiting] at done⟩ rfl }

theorem setWorker (position : s.workers = before ++ w :: after)
    (working : w ≠ .exited) (jobs : w'.jobs = w.jobs)
    (answers : ∀ r ∈ w'.results, Answered S s.cancelled r)
    (issued : (uploads log ++ (attempted w.results ++ w.calling)).Perm
      (uploads s.log ++ (attempted w'.results ++ w'.calling)))
    (calls : closings log = closings s.log)
    (closed : w' = .exited → s.partCh = [] ∧ s.reader.phase = .closed) :
    Sound S n { s with workers := before ++ w' :: after, log } := by
  have waiting := sound.busy position working
  have count := sound.count
  have placedBefore := sound.jobs
  have answersBefore := sound.answers
  have issuedBefore := sound.issued
  have closedBefore := sound.closed
  simp only [position, placed, answered, List.flatMap_append, List.flatMap_cons, List.length_append,
    List.length_cons, List.mem_append] at count placedBefore answersBefore
  simp only [position, answered, List.flatMap_append, List.flatMap_cons, List.mem_append,
    List.mem_cons] at issuedBefore closedBefore
  exact { sound with
    jobs := by simpa only [placed, List.flatMap_append, List.flatMap_cons, jobs] using placedBefore
    answers := by
      intro r member
      simp only [answered, List.flatMap_append, List.flatMap_cons, List.mem_append] at member
      rcases member with (earlier | queued) | before | here | after
      · exact answersBefore r (.inl (.inl earlier))
      · exact answersBefore r (.inl (.inr queued))
      · exact answersBefore r (.inr (.inl before))
      · exact answers r here
      · exact answersBefore r (.inr (.inr (.inr after)))
    issued := by
      rw [List.perm_iff_count] at issued issuedBefore ⊢
      intro job
      have now := issued job
      have earlier := issuedBefore job
      simp only [attempted, answered, List.flatMap_append, List.flatMap_cons, List.filter_append,
        List.map_append, List.count_append] at now earlier ⊢
      omega
    count := by simpa using count
    closed := by
      intro exited
      simp only [List.mem_append, List.mem_cons] at exited
      rcases exited with earlier | here | later
      · exact closedBefore (.inl earlier)
      · exact closed here.symm
      · exact closedBefore (.inr (.inr later))
    done := fun done => by simp [waiting] at done
    stage := sound.stage.left ⟨rfl, fun done => by simp [waiting] at done⟩ calls }

theorem takes (position : s.workers = before ++ .idle :: after) (queued : s.partCh = job :: rest) :
    Sound S n { s with partCh := rest, workers := before ++ .holding job :: after } := by
  have working : .exited ∉ s.workers := by
    intro exited
    have empty := (sound.closed exited).1
    rw [queued] at empty
    contradiction
  have waiting := sound.busy position (by simp)
  have count := sound.count
  have placedBefore := sound.jobs
  have answersBefore := sound.answers
  have issuedBefore := sound.issued
  simp only [position, queued, placed, List.flatMap_append, List.flatMap_cons, Worker.jobs,
    List.length_append, List.length_cons] at count placedBefore
  simp only [position, answered, List.flatMap_append, List.flatMap_cons, Worker.results,
    Worker.calling] at issuedBefore answersBefore
  simp only [position, List.mem_append, List.mem_cons, not_or] at working
  exact { sound with
    jobs := by
      rw [List.perm_iff_count] at placedBefore ⊢
      intro job'
      have earlier := placedBefore job'
      simp only [placed, List.flatMap_append, List.flatMap_cons, Worker.jobs, List.count_append,
        List.count_cons, List.count_nil] at earlier ⊢
      omega
    answers := by
      simpa only [answered, List.flatMap_append, List.flatMap_cons, Worker.results] using answersBefore
    issued := by
      simpa only [answered, List.flatMap_append, List.flatMap_cons, Worker.results, Worker.calling]
        using issuedBefore
    count := by simpa using count
    closed := by simp [working]
    done := fun done => by simp [waiting] at done
    stage := sound.stage.left ⟨rfl, fun done => by simp [waiting] at done⟩ rfl }

theorem sendsResult (position : s.workers = before ++ .sending result :: after) : Sound S n { s with
      workers := before ++ .idle :: after, resultCh := s.resultCh ++ [result] } := by
  have waiting := sound.busy position (by simp)
  have count := sound.count
  have placedBefore := sound.jobs
  have answersBefore := sound.answers
  have issuedBefore := sound.issued
  have closedBefore := sound.closed
  simp only [position, placed, List.flatMap_append, List.flatMap_cons, Worker.jobs,
    List.length_append, List.length_cons] at count placedBefore
  simp only [position, answered, List.flatMap_append, List.flatMap_cons, Worker.results,
    Worker.calling, List.mem_append, List.mem_cons] at issuedBefore answersBefore closedBefore
  exact { sound with
    jobs := by
      rw [List.perm_iff_count] at placedBefore ⊢
      intro job
      have earlier := placedBefore job
      simp only [placed, List.flatMap_append, List.flatMap_cons, Worker.jobs, List.map_append,
        List.map_cons, List.map_nil, List.count_append, List.count_nil] at earlier ⊢
      omega
    answers := by
      intro r member
      simp only [answered, List.flatMap_append, List.flatMap_cons, Worker.results, List.mem_append,
        List.mem_cons] at member
      exact answersBefore r (by tauto)
    issued := by
      rw [List.perm_iff_count] at issuedBefore ⊢
      intro job
      have earlier := issuedBefore job
      simp only [attempted, answered, List.flatMap_append, List.flatMap_cons, Worker.results,
        Worker.calling, List.filter_append, List.map_append, List.count_append, List.filter_nil,
        List.map_nil, List.count_nil] at earlier ⊢
      omega
    count := by simpa using count
    closed := by
      intro exited
      simp only [List.mem_append, List.mem_cons] at exited
      exact closedBefore (by simpa using exited)
    done := fun done => by simp [waiting] at done
    stage := sound.stage.left ⟨rfl, fun done => by simp [waiting] at done⟩ rfl }

theorem cancels (may : S.cancels = true) : Sound S n { s with cancelled := true } := by
  exact { sound with
    stopped := fun _ => .inr rfl
    answers := fun r member => (sound.answers r member).cancelled
    live := fun _ => .inl may
    stage := sound.stage.left ⟨rfl, fun done => ⟨rfl, rfl, done⟩⟩ rfl }

theorem read_stopped : (S.read s.cancelled s.reader).readErr ≠ none →
      S.source.failure ≠ none ∨ s.cancelled = true := by
  unfold Setup.read
  simp only
  split
  · split
    · rename_i failure
      exact fun _ => .inl (by simp [failure])
    · split <;> exact sound.stopped
  · exact sound.stopped

/-- What the other goroutines do. -/
theorem moved (moved : Moved S s t) : ∃ m, Sound S m t := by
  cases moved with
  | readerStops phase cancelled =>
    have opened : s.reader.phase ≠ .closed := by
      rcases phase with phase | ⟨job, last, phase⟩ <;> simp [phase]
    exact ⟨n, sound.setReader opened (sound.reads.stopped _) fun _ => .inr cancelled⟩
  | readerContinues phase =>
    exact ⟨n, sound.setReader (by simp [phase]) (sound.reads.continues phase) sound.stopped⟩
  | reads phase =>
    exact ⟨n, sound.setReader (by simp [phase]) (sound.reads.read phase _) sound.read_stopped⟩
  | sendsJob phase => exact ⟨n + 1, sound.sendsJob phase⟩
  | closes phase =>
    exact ⟨n, sound.setReader (by simp [phase]) (sound.reads.closes phase) sound.stopped⟩
  | takes position queued => exact ⟨n, sound.takes position queued⟩
  | exits position empty closed =>
    exact ⟨n, sound.setWorker position (by simp) rfl (by simp [Worker.results])
      (by simp [Worker.results, Worker.calling]) rfl fun _ => ⟨empty, closed⟩⟩
  | skips position cancelled =>
    exact ⟨n, sound.setWorker position (by simp) rfl (by simp [Worker.results, Answered, cancelled])
      (by simp [Worker.results, Worker.calling, attempted]) rfl (by simp)⟩
  | clears position =>
    exact ⟨n, sound.setWorker position (by simp) rfl (by simp [Worker.results])
      (by simp [Worker.results, Worker.calling]) rfl (by simp)⟩
  | issues position =>
    exact ⟨n, sound.setWorker position (by simp) rfl (by simp [Worker.results])
      (by simp [Worker.results, Worker.calling, uploads, StoreCall.job?, attempted])
      (by simp [closings, StoreCall.job?]) (by simp)⟩
  | answers position =>
    exact ⟨n, sound.setWorker position (by simp) rfl (by simp [Worker.results, Answered])
      (by simp [Worker.results, Worker.calling, attempted]) rfl (by simp)⟩
  | sendsResult position => exact ⟨n, sound.sendsResult position⟩
  | finishes exited =>
    exact ⟨n, { sound with
      done := fun _ => exited
      stage := sound.stage.left ⟨rfl, fun _ => ⟨rfl, rfl, rfl⟩⟩ rfl }⟩
  | callerCancels may => exact ⟨n, sound.cancels may⟩

end Sound

end Background

section Collecting
variable {S : Setup} {s t : State}

theorem uploads_closing (log : List StoreCall) (closing : call.job? = none) :
    uploads (log ++ [call]) = uploads log := by
  simp [uploads, closing]

theorem closings_closing (log : List StoreCall) (closing : call.job? = none) :
    closings (log ++ [call]) = closings log ++ [call] := by
  simp [closings, closing]

/-- Where the collector goes from a settled state. -/
theorem assembled_stage (settled : Settled s) (calls : closings s.log = [])
    (stopped : s.reader.readErr ≠ none → S.source.failure ≠ none ∨ S.cancels = true)
    (assembled : S.assembled s = some next) : Stage S { s with collector := next } next := by
  have gives_up {c : Collector} (cause : Cause S s) : Undone S { s with collector := c } [] :=
    .inl ⟨calls, cause.left ⟨rfl, fun done => ⟨rfl, rfl, done⟩⟩⟩
  unfold Setup.assembled at assembled
  split at assembled
  · rename_i err readErr
    cases assembled
    rcases stopped (by simp [readErr]) with failure | cancels
    · exact gives_up (.inr (.inr ⟨settled, .inl failure⟩))
    · exact gives_up (.inr (.inl cancels))
  · rename_i readErr
    obtain ⟨result, listed, rfl⟩ := Option.map_eq_some_iff.mp assembled
    cases result with
    | error err => exact gives_up (.inr (.inr ⟨settled, .inr (.inl ⟨err, listed⟩)⟩))
    | ok parts =>
      simp only
      split
      · rename_i mismatch
        exact gives_up (.inr (.inr ⟨settled, .inr (.inr ⟨readErr, mismatch⟩)⟩))
      · rename_i verified
        exact ⟨calls, Whole.left ⟨settled, readErr, not_not.mp verified, listed⟩
          ⟨rfl, fun done => ⟨rfl, rfl, done⟩⟩⟩

namespace Sound

variable {n : Nat} (sound : Sound S n s)
include sound

section
variable (unreturned : ∀ res, s.collector ≠ .returned res)
include unreturned

theorem cancels_of_live (cancelled : s.cancelled = true) : S.cancels = true := by
  rcases sound.live cancelled with cancels | ⟨res, returned⟩
  · exact cancels
  · exact absurd returned (unreturned res)

theorem setCollector (stage : Stage S { s with collector } collector) :
    Sound S n { s with collector } :=
  { sound with
    live := fun cancelled => .inl (sound.cancels_of_live unreturned cancelled)
    stage }

theorem calls (closing : call.job? = none)
    (stage : Stage S { s with log := s.log ++ [call], collector } collector) :
    Sound S n { s with log := s.log ++ [call], collector } :=
  { sound with
    issued := by
      rw [uploads_closing _ closing]
      exact sound.issued
    live := fun cancelled => .inl (sound.cancels_of_live unreturned cancelled)
    stage }

theorem receives (queued : s.resultCh = result :: rest)
    (stage : Stage S { s with resultCh := rest, results := result :: s.results, collector } collector) :
    Sound S n { s with resultCh := rest, results := result :: s.results, collector } := by
  have placedBefore := sound.jobs
  have answersBefore := sound.answers
  have issuedBefore := sound.issued
  simp only [queued, placed] at placedBefore
  simp only [queued, answered, List.mem_append, List.mem_cons] at issuedBefore answersBefore
  exact { sound with
    jobs := by
      rw [List.perm_iff_count] at placedBefore ⊢
      intro job
      have earlier := placedBefore job
      simp only [placed, List.map_cons, List.count_append, List.count_cons] at earlier ⊢
      omega
    answers := by
      intro r member
      simp only [answered, List.mem_append, List.mem_cons] at member
      exact answersBefore r (by tauto)
    issued := by
      rw [List.perm_iff_count] at issuedBefore ⊢
      intro job
      have earlier := issuedBefore job
      have split : result :: rest = [result] ++ rest := rfl
      have joined : result :: s.results = [result] ++ s.results := rfl
      rw [split] at earlier
      rw [joined]
      simp only [attempted, answered, List.filter_append, List.map_append,
        List.count_append] at earlier ⊢
      omega
    live := fun cancelled => .inl (sound.cancels_of_live unreturned cancelled)
    stage }

end

theorem collects (collected : Collected S s t) : Sound S n t := by
  have stage := sound.stage
  have kept (c : Collector) : Leaves s { s with collector := c } :=
    ⟨rfl, fun done => ⟨rfl, rfl, done⟩⟩
  have logged (c : Collector) (call : StoreCall) :
      Leaves s { s with log := s.log ++ [call], collector := c } :=
    ⟨rfl, fun done => ⟨rfl, rfl, done⟩⟩
  cases collected with
  | @receivesPart result rest part collecting queued ok =>
    have more (earlier : AllOk s.results) : AllOk (result :: s.results) := by
      intro r member
      rcases List.mem_cons.mp member with rfl | member
      · exact ⟨part, ok⟩
      · exact earlier r member
    refine sound.receives (by rcases collecting with here | here <;> simp [here]) queued ?_
    rcases collecting with here | here <;> rw [here] at stage ⊢
    · exact ⟨stage.1, more stage.2⟩
    · exact ⟨stage.1, more stage.2.1, stage.2.2⟩
  | @receivesError result rest err collecting queued failed =>
    have unreturned : ∀ res, s.collector ≠ .returned res := by
      rcases collecting with here | here <;> simp [here]
    refine sound.receives unreturned queued ?_
    have calls : closings s.log = [] := by
      rcases collecting with here | here <;> rw [here] at stage <;> exact stage.1
    have answered := sound.answers result (by simp [answered, queued])
    unfold Answered at answered
    split at answered
    · exact .inl ⟨calls, .inl ⟨result, List.mem_cons_self, err, answered ▸ failed⟩⟩
    · exact .inl ⟨calls, .inr (.inl (sound.cancels_of_live unreturned answered.2))⟩
  | seesDone here done =>
    rw [here] at stage
    exact sound.setCollector (by simp [here]) ⟨stage.1, stage.2, done⟩
  | seesCancelled here cancelled =>
    rw [here] at stage
    have cancels := sound.cancels_of_live (by simp [here]) cancelled
    exact sound.setCollector (by simp [here]) (.inl ⟨stage.1, .inr (.inl cancels)⟩)
  | assembles here drained assembled =>
    rw [here] at stage
    have stopped (failed : s.reader.readErr ≠ none) := (sound.stopped failed).imp_right
      (sound.cancels_of_live (by simp [here]))
    exact sound.setCollector (by simp [here])
      (assembled_stage ⟨stage.2.2, drained, stage.2.1⟩ stage.1 stopped assembled)
  | @completes parts res here ok =>
    rw [here] at stage
    refine sound.calls (by simp [here]) rfl ⟨parts, ?_, stage.2.left (logged _ _), ok⟩
    rw [closings_closing _ rfl, stage.1, List.nil_append]
  | @completeFails parts err here failed =>
    rw [here] at stage
    refine sound.calls (by simp [here]) rfl (.inr ⟨parts, err, ?_, stage.2.left (logged _ _), failed⟩)
    rw [closings_closing _ rfl, stage.1, List.nil_append]
  | aborts here =>
    rw [here] at stage
    exact sound.calls (by simp [here]) rfl (Undone.left stage (logged _ _) (closings_closing _ rfl))
  | @cancels res here =>
    rw [here] at stage
    exact { sound with
      stopped := fun _ => .inr rfl
      answers := fun r member => (sound.answers r member).cancelled
      live := fun _ => .inr ⟨res, rfl⟩
      stage := by
        have leaves : Leaves s { s with cancelled := true, collector := .returned res } :=
          ⟨rfl, fun done => ⟨rfl, rfl, done⟩⟩
        cases res with
        | ok res =>
          obtain ⟨parts, called, whole, completed⟩ := stage
          exact ⟨parts, called, whole.left leaves, completed⟩
        | error err => exact Undone.kept stage leaves rfl }

end Sound

end Collecting

theorem sound_reaches {S : Setup} (run : ReflTransGen S.Step S.start s) : ∃ n, Sound S n s := by
  have preserves {s t : State} (sound : ∃ n, Sound S n s) (step : S.Step s t) :
      ∃ n, Sound S n t := by
    obtain ⟨n, sound⟩ := sound
    rcases step_cases step with moved | collected
    · exact sound.moved moved
    · exact ⟨n, sound.collects collected⟩
  exact reaches_invariant (fun s => ∃ n, Sound S n s) preserves run ⟨0, sound_start S⟩

end KDrive.Blobio.Multipart
