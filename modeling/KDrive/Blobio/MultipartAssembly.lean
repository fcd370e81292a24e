import KDrive.Blobio.MultipartInvariant

/-! A multipart upload assembles exactly the body it read, in whatever order its
goroutines run. The one exception is a body of as many parts as there are positive
`int32` numbers: the loop that lists the parts then overruns. -/
namespace KDrive.Blobio.Multipart
open Go Blobstore Interaction Relation

/-- The parts CompleteMultipart is to be called with. -/
def Setup.completed (S : Setup) (n : Nat) : List CompletedPart :=
  (List.range n).map fun i => completedPart (Setup.uploaded (S.job i))

theorem completedPart_number (job : Job) :
    (completedPart (Setup.uploaded job)).partNumber = job.partNum := rfl

section Listing
variable {S : Setup} {results : List PartResult}

theorem maxPart_bounds (results : List PartResult) :
    0 ≤ maxPart results ∧ ∀ r ∈ results, r.job.partNum ≤ maxPart results := by
  have grows : ∀ (rs : List PartResult) (most : Int),
      most ≤ rs.foldl (fun most r => max most r.job.partNum) most ∧
        ∀ r ∈ rs, r.job.partNum ≤ rs.foldl (fun most r => max most r.job.partNum) most := by
    intro rs
    induction rs with
    | nil => simp
    | cons first rest ih =>
      intro most
      obtain ⟨lower, bounds⟩ := ih (max most first.job.partNum)
      refine ⟨by simp only [List.foldl_cons]; omega, fun r member => ?_⟩
      rcases List.mem_cons.mp member with rfl | later
      · simp only [List.foldl_cons]
        omega
      · exact bounds r later
  exact grows results 0

theorem maxPart_le (bounded : ∀ r ∈ results, r.job.partNum ≤ m) (nonneg : 0 ≤ m) :
    maxPart results ≤ m := by
  have stays : ∀ (rs : List PartResult) (most : Int), most ≤ m → (∀ r ∈ rs, r.job.partNum ≤ m) →
      rs.foldl (fun most r => max most r.job.partNum) most ≤ m := by
    intro rs
    induction rs with
    | nil => simp
    | cons first rest ih =>
      intro most lower bounds
      have here := bounds first List.mem_cons_self
      exact ih _ (Int.max_le.mpr ⟨lower, here⟩) fun r later => bounds r (List.mem_cons_of_mem _ later)
  exact stays results 0 nonneg bounded

/-- The results of the first `n` parts, all of them successes, in any order. -/
structure Complete (S : Setup) (n : Nat) (results : List PartResult) : Prop where
  jobs : (results.map PartResult.job).Perm ((List.range n).map S.job)
  answers : ∀ r ∈ results, S.upload r.job = .ok r.part

namespace Complete

variable {n : Nat} (complete : Complete S n results)
include complete

theorem result (member : r ∈ results) : ∃ i < n, r.job = S.job i := by
  have placed := (complete.jobs.mem_iff).mp (List.mem_map_of_mem member)
  obtain ⟨i, bound, same⟩ := List.mem_map.mp placed
  exact ⟨i, List.mem_range.mp bound, same.symm⟩

theorem exists_result (bound : i < n) : ∃ r ∈ results, r.job = S.job i := by
  have placed := (complete.jobs.mem_iff).mpr (List.mem_map_of_mem (List.mem_range.mpr bound))
  exact List.mem_map.mp placed

/-- No adapter accepts a number below one, so the numbers have not wrapped. -/
theorem bound : n ≤ 2 ^ 31 - 1 := by
  by_contra many
  obtain ⟨r, member, same⟩ := complete.exists_result (i := 2 ^ 31 - 1) (by omega)
  have accepted := complete.answers r member
  have rejected := S.rejects r.job (by rw [same]; exact partNumber_wraps)
  unfold Setup.upload at accepted
  split at accepted
  · contradiction
  · contradiction

theorem part (member : r ∈ results) : r.part = Setup.uploaded r.job := by
  have answer := complete.answers r member
  unfold Setup.upload at answer
  split at answer
  · contradiction
  · exact (Except.ok.inj answer).symm

theorem number (bound : i < n) : partNumber i = i + 1 :=
  partNumber_eq (by have := complete.bound; omega)

theorem lookup_eq (bound : i < n) :
    lookup results (partNumber i) = some (Setup.uploaded (S.job i)) := by
  obtain ⟨r, member, same⟩ := complete.exists_result bound
  cases found : results.find? (·.job.partNum = partNumber i) with
  | none =>
    have absent := List.find?_eq_none.mp found r member
    simp [same] at absent
  | some r' =>
    have member' := List.mem_of_find?_eq_some found
    obtain ⟨j, bound', same'⟩ := complete.result member'
    have numbered : r'.job.partNum = partNumber i := by simpa using List.find?_some found
    rw [same', Setup.job_partNum, complete.number bound', complete.number bound] at numbered
    obtain rfl : j = i := by omega
    rw [lookup, found, Option.map_some, complete.part member', same']

theorem lookup_none (low : m < 1) : lookup results m = none := by
  rw [lookup, Option.map_eq_none_iff, List.find?_eq_none]
  intro r member
  obtain ⟨i, bound, same⟩ := complete.result member
  rw [same, Setup.job_partNum, complete.number bound]
  simp only [decide_eq_true_eq]
  omega

theorem maxPart_eq : maxPart results = n := by
  apply Int.le_antisymm
  · refine maxPart_le (fun r member => ?_) (by omega)
    obtain ⟨i, bound, same⟩ := complete.result member
    rw [same, Setup.job_partNum, complete.number bound]
    omega
  · cases n with
    | zero => simpa using (maxPart_bounds results).1
    | succ n =>
      obtain ⟨r, member, same⟩ := complete.exists_result (Nat.lt_succ_self n)
      have below := (maxPart_bounds results).2 r member
      rw [same, Setup.job_partNum, complete.number (Nat.lt_succ_self n)] at below
      omega

/-- The loop over the numbers from `i` on, when nothing was missed before. -/
theorem listParts_eq (bound : i ≤ n) (fuel : n - i < f)
    (ends : ∀ f, 0 < f → listParts results n f (partNumber n) = some ending) :
    listParts results n f (partNumber i) = some (ending.map
      ((List.range' i (n - i)).map (fun i => completedPart (Setup.uploaded (S.job i))) ++ ·)) := by
  induction rest : n - i generalizing i f with
  | zero =>
    obtain rfl : i = n := by omega
    rw [ends f (by omega)]
    cases ending <;> rfl
  | succ rest ih =>
    obtain ⟨f, rfl⟩ : ∃ f', f = f' + 1 := ⟨f - 1, by omega⟩
    have here : i < n := by omega
    have counted : partNumber i ≤ n := by
      rw [complete.number here]
      omega
    rw [listParts, if_pos counted, complete.lookup_eq here]
    simp only
    rw [partNumber_succ, ih (by omega) (by omega) (by omega), List.range'_succ]
    cases ending <;> rfl

/-- What the collector lists: the parts in order, unless the counter overruns. -/
theorem completedParts_eq : completedParts results = some (match missingPart n with
      | none => .ok (S.completed n)
      | some m => .error (.errorf "blobio: missing part %d result" [.int m])) := by
  have bound := complete.bound
  have ends : ∀ f, 0 < f → listParts results n f (partNumber n) = some (match missingPart n with
      | none => .ok []
      | some m => .error (.errorf "blobio: missing part %d result" [.int m])) := by
    intro f positive
    obtain ⟨f, rfl⟩ : ∃ f', f = f' + 1 := ⟨f - 1, by omega⟩
    by_cases last : n = 2 ^ 31 - 1
    · simp only [missingPart, if_pos last]
      -- The number after the last one has wrapped: it is looked for and not found.
      have wrapped : partNumber n < 1 := last ▸ partNumber_wraps
      rw [listParts, if_pos (by omega), complete.lookup_none wrapped]
    · have next := partNumber_eq (i := n) (by omega)
      simp only [missingPart, if_neg last]
      rw [listParts, if_neg (by omega)]
  have listed := complete.listParts_eq (Nat.zero_le n) (f := 2 ^ 32) (by omega) ends
  rw [completedParts, complete.maxPart_eq]
  refine Eq.trans listed ?_
  cases missingPart n with
  | none => simp [Except.map, Setup.completed, List.range_eq_range']
  | some m => rfl

end Complete

end Listing

section Settling
variable {S : Setup} {s : State}

namespace Sound

variable {n : Nat} (sound : Sound S n s)
include sound

theorem at_rest (done : s.workersDone = true) : s.partCh = [] ∧ s.reader.phase = .closed ∧
      ∀ {α : Type} (f : Worker → List α), f .exited = [] → s.workers.flatMap f = [] := by
  have exited := sound.done done
  have some : 0 < s.workers.length := sound.count ▸ S.parallelism_pos
  obtain ⟨w, member⟩ := List.exists_mem_of_length_pos some
  obtain ⟨empty, closed⟩ := sound.closed (exited w member ▸ member)
  refine ⟨empty, closed, fun f none => ?_⟩
  rw [List.flatMap_eq_nil_iff]
  intro w member
  rw [exited w member, none]

theorem result_job (member : r ∈ s.results) : ∃ i < n, r.job = S.job i := by
  have handed : r.job ∈ placed s.results s.resultCh s.workers s.partCh := by
    simp [placed, List.mem_map_of_mem member]
  obtain ⟨i, bound, same⟩ := List.mem_map.mp (sound.jobs.mem_iff.mp handed)
  exact ⟨i, List.mem_range.mp bound, same.symm⟩

/-- A success is the store's own answer. -/
theorem answer (ok : AllOk s.results) (member : r ∈ s.results) :
    r.attempted = true ∧ S.upload r.job = .ok r.part := by
  obtain ⟨part, answer⟩ := ok r member
  have answered := sound.answers r (by simp [answered, member])
  unfold Answered at answered
  split at answered
  · rename_i attempted
    exact ⟨attempted, by rw [← answered, PartResult.part, answer]⟩
  · rw [answer] at answered
    obtain ⟨impossible, -⟩ := answered
    contradiction

theorem complete (settled : Settled s) : Complete S n s.results := by
  obtain ⟨empty, -, none⟩ := sound.at_rest settled.done
  have jobs := sound.jobs
  rw [placed, none _ rfl, empty, settled.drained] at jobs
  exact ⟨by simpa using jobs, fun r member => (sound.answer settled.ok member).2⟩

/-- Every part was uploaded exactly once. -/
theorem uploads_perm (settled : Settled s) : (uploads s.log).Perm ((List.range n).map S.job) := by
  obtain ⟨empty, -, none⟩ := sound.at_rest settled.done
  have issued := sound.issued
  have all : s.results.filter (·.attempted) = s.results :=
    List.filter_eq_self.mpr fun r member => (sound.answer settled.ok member).1
  rw [answered, none _ rfl, none _ rfl, settled.drained, attempted] at issued
  simp only [List.append_nil, all] at issued
  exact issued.trans (sound.complete settled).jobs

theorem read_whole (settled : Settled s) (clean : s.reader.readErr = none) :
    S.source.failure = none ∧ n = S.parts ∧ s.reader.hashed = S.source.data := by
  obtain ⟨-, closed, -⟩ := sound.at_rest settled.done
  have progress := sound.reads.progress
  rw [closed] at progress
  exact progress clean

end Sound

end Settling

section Stuck
variable {S : Setup} {s : State} (stuck : ∀ t, ¬ S.Step s t)
include stuck

theorem move_none (m : Move) : S.move m s = none := by
  cases moved : S.move m s with
  | none => rfl
  | some t => exact absurd ⟨m, moved⟩ (stuck t)

/-- A worker that cannot move has exited, or waits for a job or for room. -/
theorem stuck_worker (member : w ∈ s.workers) :
    w = .exited ∨ (w = .idle ∧ s.partCh = [] ∧ s.reader.phase ≠ .closed) ∨
      ∃ r, w = .sending r ∧ S.parallelism ≤ s.resultCh.length := by
  obtain ⟨k, found⟩ := List.mem_iff_getElem?.mp member
  have none := move_none stuck (.worker k)
  simp only [Setup.move, Setup.workerStep, found] at none
  cases w with
  | exited => exact .inl rfl
  | idle =>
    right; left
    cases queued : s.partCh with
    | nil =>
      refine ⟨rfl, rfl, fun closed => ?_⟩
      simp [queued, closed] at none
    | cons job rest => simp [queued] at none
  | holding job =>
    simp only at none
    split at none <;> contradiction
  | cleared job | uploading job => simp at none
  | sending r =>
    right; right
    refine ⟨r, rfl, ?_⟩
    by_contra room
    simp [Nat.not_le.mp room] at none

theorem stuck_reader : s.reader.phase = .closed ∨
    ∃ job last, s.reader.phase = .sending job last ∧ S.parallelism ≤ s.partCh.length := by
  have none := move_none stuck (.reader false)
  simp only [Setup.move, Setup.readerStep] at none
  cases phase : s.reader.phase with
  | closed => exact .inl rfl
  | loop =>
    simp only [phase] at none
    split at none <;> contradiction
  | reading | closing => simp [phase] at none
  | sending job last =>
    refine .inr ⟨job, last, rfl, ?_⟩
    by_contra room
    simp [phase, Nat.not_le.mp room] at none

/-- While the collector waits, somebody else can move. -/
theorem collecting_moves (sound : Sound S n s) : s.collector ≠ .collecting := by
  intro collecting
  have result := move_none stuck (.collector .result)
  have done := move_none stuck (.collector .workersDone)
  have waiter := move_none stuck .waiter
  simp only [Setup.move, Setup.collectorStep, collecting, receive] at result done
  have drained : s.resultCh = [] := by
    cases queued : s.resultCh with
    | nil => rfl
    | cons r rest => simp [queued] at result
  have waiting : s.workersDone = false := by
    simpa using done
  have positive := S.parallelism_pos
  have idle : ∀ w ∈ s.workers, w ≠ .exited → s.partCh = [] ∧ s.reader.phase ≠ .closed := by
    intro w member working
    rcases stuck_worker stuck member with exited | ⟨-, empty, opened⟩ | ⟨r, -, full⟩
    · exact absurd exited working
    · exact ⟨empty, opened⟩
    · rw [drained, List.length_nil] at full
      omega
  have some : 0 < s.workers.length := sound.count ▸ positive
  obtain ⟨w, member⟩ := List.exists_mem_of_length_pos some
  rcases stuck_reader stuck with closed | ⟨job, last, phase, full⟩
  · -- The channel is closed, so every worker has gone through it to its exit.
    have exited : s.workers.all Worker.hasExited = true := by
      rw [List.all_eq_true]
      intro w member
      by_contra working
      exact (idle w member (by rintro rfl; exact working rfl)).2 closed
    simp [Setup.move, Setup.waiterStep, exited, waiting] at waiter
  · -- The channel is full, so no worker is idle, and none can have exited.
    have busy : w = .exited := by
      by_contra working
      rw [(idle w member working).1, List.length_nil] at full
      omega
    have closed := (sound.closed (busy ▸ member)).2
    rw [phase] at closed
    contradiction

theorem stuck_returned (sound : Sound S n s) : ∃ res, s.collector = .returned res := by
  have none := move_none stuck (.collector .result)
  simp only [Setup.move, Setup.collectorStep] at none
  cases here : s.collector with
  | returned res => exact ⟨res, rfl⟩
  | collecting => exact absurd here (collecting_moves stuck sound)
  | draining =>
    have stage := sound.stage
    rw [here] at stage none
    cases queued : s.resultCh with
    | cons r rest => simp [queued, receive] at none
    | nil =>
      have listed := (sound.complete ⟨stage.2.2, queued, stage.2.1⟩).completedParts_eq
      simp only [queued, Option.map_eq_none_iff, Setup.assembled] at none
      cases readErr : s.reader.readErr <;> simp [readErr, listed] at none
  | completing parts | aborting err | cancelling res => simp [here] at none

end Stuck

section Assembly

/-- No call fails, the reader comes to its end, and the caller does not give up. -/
structure Healthy (S : Setup) : Prop where
  read : S.source.failure = none
  uploads : ∀ i < S.parts, S.fails (S.job i) = none
  completes : ∃ res, S.completes = .ok res
  live : S.cancels = false

/-- The upload was completed once, with the parts `1..n` in order, each of which was
uploaded once, and together they are the body. -/
structure Assembled (S : Setup) (s : State) : Prop where
  completed : closings s.log =
    [.completeMultipart (S.completed (partCount S.partSize S.source.data.length))]
  numbered : (S.completed (partCount S.partSize S.source.data.length)).map CompletedPart.partNumber =
    partNumbers (partCount S.partSize S.source.data.length)
  uploaded : (uploads s.log).Perm ((partNumbers (partCount S.partSize S.source.data.length)).map
    fun n => ⟨n, slice S.partSize S.source.data (n - 1).toNat⟩)
  concatenated : ((partNumbers (partCount S.partSize S.source.data.length)).map
    fun n => slice S.partSize S.source.data (n - 1).toNat).flatten = S.source.data

/-- However the goroutines are scheduled: a healthy upload of bytes with the recorded
checksum assembles the body, and bytes with another checksum are never completed and
end aborted. -/
structure Assembles (S : Setup) : Prop where
  halts : Halts S.Step S.start
  assembled : Healthy S → checksumSHA256 S.source.data = S.checksum →
    ∀ s, Ends S.Step S.start s → Assembled S s
  rejected : checksumSHA256 S.source.data ≠ S.checksum →
    (∀ s, ReflTransGen S.Step S.start s → ∀ parts, .completeMultipart parts ∉ s.log) ∧
    ∀ s, Ends S.Step S.start s → .abortMultipart ∈ s.log

variable {S : Setup} {s : State}

theorem mem_closings {call : StoreCall} (member : call ∈ log) (closing : call.job? = none) :
    call ∈ closings log := by
  simp [closings, member, closing]

/-- Whatever is completed is whole. -/
theorem Sound.completed_whole (sound : Sound S n s) (member : .completeMultipart parts ∈ s.log) :
    Whole S s parts := by
  have called := mem_closings member rfl
  have undone {rest} (undone : Undone S s rest) (other : .completeMultipart parts ∉ rest) :
      Whole S s parts := by
    rcases undone with ⟨calls, -⟩ | ⟨parts', err, calls, whole, -⟩
    · rw [calls] at called
      contradiction
    · rw [calls, List.mem_cons] at called
      rcases called with same | later
      · cases same
        exact whole
      · contradiction
  have finished {parts'} (calls : closings s.log = [.completeMultipart parts'])
      (whole : Whole S s parts') : Whole S s parts := by
    rw [calls, List.mem_singleton] at called
    cases called
    exact whole
  have stage := sound.stage
  cases here : s.collector with
  | collecting | draining | completing parts =>
    rw [here] at stage
    rw [stage.1] at called
    contradiction
  | aborting err =>
    rw [here] at stage
    exact undone stage (by simp)
  | cancelling res | returned res =>
    rw [here] at stage
    cases res with
    | ok res =>
      obtain ⟨parts', calls, whole, -⟩ := stage
      exact finished calls whole
    | error err => exact undone stage (by simp)

/-- A healthy upload is given up only over its list of parts. -/
theorem Sound.healthy_cause (sound : Sound S n s) (healthy : Healthy S)
    (verified : checksumSHA256 S.source.data = S.checksum) (cause : Cause S s) :
    Settled s ∧ ∃ err, completedParts s.results = some (.error err) := by
  rcases cause with ⟨r, member, err, failed⟩ | cancels | ⟨settled, failure | listed | ⟨clean, mismatch⟩⟩
  · obtain ⟨i, bound, same⟩ := sound.result_job member
    have accepted := healthy.uploads i (Nat.lt_of_lt_of_le bound sound.reads.bound)
    rw [same, Setup.upload, accepted] at failed
    contradiction
  · simp [healthy.live] at cancels
  · exact absurd healthy.read failure
  · exact ⟨settled, listed⟩
  · obtain ⟨-, -, hashed⟩ := sound.read_whole settled clean
    exact absurd (hashed ▸ verified) mismatch

/-- No adapter takes as many parts as to make the number wrap. -/
theorem Healthy.bound (healthy : Healthy S) : S.parts ≤ 2 ^ 31 - 1 := by
  by_contra many
  have accepted := healthy.uploads (2 ^ 31 - 1) (by omega)
  exact S.rejects _ (by rw [Setup.job_partNum]; exact partNumber_wraps) accepted

theorem parts_eq (read : S.source.failure = none) :
    S.parts = partCount S.partSize S.source.data.length := by
  simp only [Setup.parts, read]

/-- What was completed with is the list of all parts. -/
theorem Sound.whole_parts (sound : Sound S n s) (whole : Whole S s parts) :
    n = partCount S.partSize S.source.data.length ∧ n ≠ 2 ^ 31 - 1 ∧ parts = S.completed n := by
  obtain ⟨read, count, -⟩ := sound.read_whole whole.toSettled whole.read
  have listed := (sound.complete whole.toSettled).completedParts_eq
  rw [whole.listed] at listed
  refine ⟨count.trans (parts_eq read), ?_, ?_⟩
  · intro last
    simp only [missingPart, if_pos last] at listed
    cases Option.some.inj listed
  · split at listed
    · cases listed
      rfl
    · cases Option.some.inj listed

theorem Sound.whole_assembled (sound : Sound S n s) (whole : Whole S s parts)
    (calls : closings s.log = [.completeMultipart parts]) : Assembled S s := by
  obtain ⟨count, -, rfl⟩ := sound.whole_parts whole
  have complete := sound.complete whole.toSettled
  have uploaded := sound.uploads_perm whole.toSettled
  have jobs : (List.range n).map S.job = (partNumbers n).map
      fun n => ⟨n, slice S.partSize S.source.data (n - 1).toNat⟩ := by
    rw [partNumbers, List.map_map]
    refine List.map_congr_left fun i bound => ?_
    rw [Setup.job, complete.number (List.mem_range.mp bound)]
    simp
  have numbered : (S.completed n).map CompletedPart.partNumber = partNumbers n := by
    rw [Setup.completed, List.map_map, partNumbers]
    refine List.map_congr_left fun i bound => ?_
    rw [Function.comp_apply, completedPart_number, S.job_partNum,
      complete.number (List.mem_range.mp bound)]
  rw [jobs] at uploaded
  subst count
  exact ⟨calls, numbered, uploaded, slices_partNumbers S.sized _⟩

/-- A body of exactly `2 ^ 31 - 1` parts is not completed under any schedule. -/
theorem overrun_uncompleted (count : partCount S.partSize S.source.data.length = 2 ^ 31 - 1)
    (run : ReflTransGen S.Step S.start s) : .completeMultipart parts ∉ s.log := by
  intro completed
  obtain ⟨n, sound⟩ := sound_reaches run
  obtain ⟨whole, fits, -⟩ := sound.whole_parts (sound.completed_whole completed)
  exact fits (whole.trans count)

theorem healthy_assembled (healthy : Healthy S) (verified : checksumSHA256 S.source.data = S.checksum)
    (fits : partCount S.partSize S.source.data.length ≠ 2 ^ 31 - 1)
    (ended : Ends S.Step S.start s) : Assembled S s := by
  obtain ⟨run, stuck⟩ := ended
  obtain ⟨n, sound⟩ := sound_reaches run
  obtain ⟨res, returned⟩ := stuck_returned stuck sound
  have stage := sound.stage
  rw [returned] at stage
  cases res with
  | ok res =>
    obtain ⟨parts, calls, whole, -⟩ := stage
    exact sound.whole_assembled whole calls
  | error err =>
    exfalso
    rcases stage with ⟨-, cause⟩ | ⟨parts, err, -, -, failed⟩
    · obtain ⟨settled, err, listed⟩ := sound.healthy_cause healthy verified cause
      rw [(sound.complete settled).completedParts_eq] at listed
      have last : n = 2 ^ 31 - 1 := by
        by_contra fits
        simp only [missingPart, if_neg fits] at listed
        cases Option.some.inj listed
      have bound := sound.reads.bound
      have most := healthy.bound
      rw [parts_eq healthy.read] at bound most
      omega
    · obtain ⟨res, ok⟩ := healthy.completes
      rw [ok] at failed
      contradiction

theorem mismatch_rejected (mismatch : checksumSHA256 S.source.data ≠ S.checksum)
    (run : ReflTransGen S.Step S.start s) : .completeMultipart parts ∉ s.log := by
  intro completed
  obtain ⟨n, sound⟩ := sound_reaches run
  have whole := sound.completed_whole completed
  obtain ⟨-, -, hashed⟩ := sound.read_whole whole.toSettled whole.read
  exact mismatch (hashed ▸ whole.verified)

theorem mismatch_aborted (mismatch : checksumSHA256 S.source.data ≠ S.checksum)
    (ended : Ends S.Step S.start s) : .abortMultipart ∈ s.log := by
  obtain ⟨run, stuck⟩ := ended
  obtain ⟨n, sound⟩ := sound_reaches run
  obtain ⟨res, returned⟩ := stuck_returned stuck sound
  have stage := sound.stage
  rw [returned] at stage
  suffices called : .abortMultipart ∈ closings s.log from (List.mem_filter.mp called).1
  cases res with
  | ok res =>
    obtain ⟨parts, calls, -, -⟩ := stage
    have completed : .completeMultipart parts ∈ closings s.log := by simp [calls]
    exact absurd (List.mem_filter.mp completed).1 (mismatch_rejected mismatch run)
  | error err => rcases stage with ⟨calls, -⟩ | ⟨parts, err, calls, -, -⟩ <;> simp [calls]

end Assembly

/-- A multipart upload assembles exactly the body, unless it is a healthy upload of
exactly `2 ^ 31 - 1` parts. -/
theorem multipart_assembles (S : Setup) : Assembles S ↔
    ¬ (Healthy S ∧ checksumSHA256 S.source.data = S.checksum ∧
      partCount S.partSize S.source.data.length = 2 ^ 31 - 1) := by
  constructor
  · rintro assembles ⟨healthy, verified, count⟩
    obtain ⟨s, ended⟩ := exists_ends State.weight (fun _ _ => step_weight) S.start
    have completed := (assembles.assembled healthy verified s ended).completed
    have called : StoreCall.completeMultipart
        (S.completed (partCount S.partSize S.source.data.length)) ∈ closings s.log := by
      rw [completed]
      exact List.mem_singleton_self _
    exact overrun_uncompleted count ended.1 (List.mem_filter.mp called).1
  · intro fits
    exact {
      halts := upload_halts S S.start
      assembled := fun healthy verified s ended =>
        healthy_assembled healthy verified (fun count => fits ⟨healthy, verified, count⟩) ended
      rejected := fun mismatch =>
        ⟨fun s run parts => mismatch_rejected mismatch run,
          fun s ended => mismatch_aborted mismatch ended⟩ }

section Overrun

/-- One-byte parts, one worker, a store that accepts every positive part number. -/
def byteParts (data : Bytes) : Setup where
  source := ⟨data, none⟩
  partSize := 1
  multipartParallelism := 0
  checksum := checksumSHA256 data
  fails job := if job.partNum < 1 then some (.new "invalid part number") else none
  completes := .ok {}
  sized := Nat.one_pos
  rejects job low := by simp [low]

theorem byteParts_count (data : Bytes) : partCount 1 data.length = data.length := by
  simp [partCount]

theorem byteParts_healthy (bound : data.length ≤ 2 ^ 31 - 1) : Healthy (byteParts data) := by
  refine ⟨rfl, fun i below => ?_, ⟨{}, rfl⟩, rfl⟩
  have small : i < data.length := by
    rwa [parts_eq rfl, show (byteParts data).partSize = 1 from rfl,
      show (byteParts data).source.data = data from rfl, byteParts_count] at below
  have positive : ¬ ((byteParts data).job i).partNum < 1 := by
    rw [Setup.job_partNum, partNumber_eq (by omega)]
    omega
  simp only [byteParts] at positive ⊢
  rw [if_neg positive]

end Overrun

/-- `2 ^ 31 - 1` zero bytes in parts of one byte: no call fails, every run stops, and
CompleteMultipart is never called. -/
theorem multipart_overruns : Healthy (byteParts (List.replicate (2 ^ 31 - 1) 0)) ∧
    (∃ s, Ends (byteParts (List.replicate (2 ^ 31 - 1) 0)).Step
      (byteParts (List.replicate (2 ^ 31 - 1) 0)).start s) ∧
    ∀ s, Ends (byteParts (List.replicate (2 ^ 31 - 1) 0)).Step
        (byteParts (List.replicate (2 ^ 31 - 1) 0)).start s →
      ∀ parts, .completeMultipart parts ∉ s.log := by
  generalize big : 2 ^ 31 - 1 = n
  have length : (List.replicate n (0 : UInt8)).length = 2 ^ 31 - 1 := by
    rw [List.length_replicate, big]
  refine ⟨byteParts_healthy (Nat.le_of_eq length), ?_, fun s ended parts => ?_⟩
  · exact exists_ends State.weight (fun _ _ => step_weight) _
  · exact overrun_uncompleted ((byteParts_count _).trans length) ended.1

end KDrive.Blobio.Multipart
