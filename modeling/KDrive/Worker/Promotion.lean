import KDrive.Go.Runtime
import KDrive.Interaction.Pool
import Mathlib.Data.List.Nodup
import Mathlib.Data.List.Sort

/-! The sweeps of the promotion job: `runOnce` lists the oldest CACHED placements and promotes
them with a pool of workers, and the next sweep lists again what is still CACHED. -/
namespace KDrive.Worker
open Go Interaction Relation

structure CachedPlacement where
  blobKey : String
  cachedAt : Time
  deriving DecidableEq

structure Result where
  blobKey : String
  err : Option GoError
  deriving DecidableEq

structure PromotionStats where
  promotedTotal : Nat := 0
  failedTotal : Nat := 0
  batchCount : Nat := 0

/-- What each sweep meets: the error of its query, what `pipeline.Promote` returns for a placement,
and whether the row is COMMITTED_DURABLE then. It is when Promote returns nil, and it may be after
an error as well (an answer that was lost). `cancels` is whether the job's context is cancelled on
the way. -/
structure PromotionJob where
  batchSize : Nat
  parallelism : Int
  listErr : Nat → Option GoError := fun _ => none
  promotes : Nat → CachedPlacement → Option GoError
  durable : Nat → CachedPlacement → Bool
  marked : ∀ n p, promotes n p = none → durable n p = true
  cancels : Bool := false

/-- The CACHED rows of `blob_placements`, whose primary key is the blob key. -/
structure JobState where
  rows : List CachedPlacement
  stats : PromotionStats := {}
  keys : (rows.map CachedPlacement.blobKey).Nodup

/-- `ORDER BY cached_at LIMIT $1`: rows of the same time may come in any order. -/
def ListsCached (rows : List CachedPlacement) (limit : Nat) (out : List CachedPlacement) : Prop :=
  ∃ sorted : List CachedPlacement, sorted.Perm rows ∧
    sorted.Pairwise (fun p q => p.cachedAt ≤ q.cachedAt) ∧ out = sorted.take limit

/-- What the loop over the results adds up. -/
def PromotionStats.batch (stats : PromotionStats) (results : List Result) : PromotionStats where
  promotedTotal := stats.promotedTotal + results.countP fun res => res.err = none
  failedTotal := stats.failedTotal + results.countP fun res => res.err ≠ none
  batchCount := stats.batchCount + 1

namespace PromotionJob

def par (job : PromotionJob) (count : Nat) : Nat :=
  let par := if job.parallelism < 1 then 1 else job.parallelism
  if par > count then count else par.toNat

theorem par_bounds (job : PromotionJob) (count : Nat) :
    0 < job.par (count + 1) ∧ (job.par (count + 1) : Int) ≤ max 1 job.parallelism := by
  unfold par
  split <;> simp only <;> split <;> omega

/-- The pool of a sweep for its batch, which is not empty. -/
def pool (job : PromotionJob) (n : Nat) (first : CachedPlacement) (rest : List CachedPlacement) :
    Pool CachedPlacement Result where
  jobs := first :: rest
  crew := job.par (rest.length + 1)
  answer p := ⟨p.blobKey, job.promotes n p⟩
  pass p := ⟨p.blobKey, some contextCanceled⟩
  cancels := job.cancels
  staffed := (job.par_bounds rest.length).1

/-- Sweep `n`. A placement that was taken up and is COMMITTED_DURABLE is no longer listed. -/
inductive RunOnce (job : PromotionJob) (n : Nat) (s : JobState) : JobState → Prop where
  | unlisted (failed : job.listErr n ≠ none) : RunOnce job n s s
  | nothing (lists : job.listErr n = none) (listed : ListsCached s.rows job.batchSize []) :
      RunOnce job n s s
  | batch (lists : job.listErr n = none) (listed : ListsCached s.rows job.batchSize (first :: rest))
      (ended : Ends (job.pool n first rest).Step (job.pool n first rest).start t) :
      RunOnce job n s {
        rows := s.rows.filter fun p => ¬ (p ∈ t.worked ∧ job.durable n p)
        stats := s.stats.batch t.collected
        keys := s.keys.sublist (List.filter_sublist.map _) }

/-- So many sweeps of the job, one after another. -/
inductive Sweeps (job : PromotionJob) : Nat → JobState → JobState → Prop where
  | none : Sweeps job 0 s s
  | next : Sweeps job n s t → RunOnce job n t u → Sweeps job (n + 1) s u

end PromotionJob

variable {job : PromotionJob} {s t : JobState} {p : CachedPlacement}

/-- A sweep comes to an end whatever the order of its goroutines: every placement is promoted or
passed over once and counted once, and no more promotions go on at a time than there may. -/
theorem runOnce_settles (job : PromotionJob) (n : Nat) (first : CachedPlacement)
    (rest : List CachedPlacement) (stats : PromotionStats) :
    let pool := job.pool n first rest
    Halts pool.Step pool.start ∧
      (∀ s, ReflTransGen pool.Step pool.start s →
        (s.workers.length : Int) ≤ max 1 job.parallelism) ∧
      ∀ t, Ends pool.Step pool.start t → pool.Settled t ∧
        let after := stats.batch t.collected
        after.promotedTotal + after.failedTotal =
          stats.promotedTotal + stats.failedTotal + (first :: rest).length ∧
        after.promotedTotal =
          stats.promotedTotal + t.worked.countP fun p => job.promotes n p = none := by
  intro pool
  refine ⟨pool.halts, fun s run => ?_, fun t ended => ?_⟩
  · rw [(Pool.sound_reaches run).crew]
    exact (job.par_bounds rest.length).2
  · have settled := Pool.settled_of_ends ended
    refine ⟨settled, ?_⟩
    have length : t.collected.length = (first :: rest).length := by
      have begun : _ = (first :: rest).length := settled.jobs.length_eq
      rw [settled.answers.length_eq, ← begun]
      simp
    have split := List.length_eq_countP_add_countP (l := t.collected) fun res => res.err = none
    have nils : t.collected.countP (fun res => res.err = none) =
        t.worked.countP fun p => job.promotes n p = none := by
      rw [settled.answers.countP_eq, List.countP_append, List.countP_map, List.countP_map]
      simp [pool, PromotionJob.pool, Function.comp_def]
    simp only [decide_eq_true_eq, decide_not, PromotionStats.batch] at split ⊢
    omega

/-- The rows that are as old as a placement. -/
def elders (p : CachedPlacement) (rows : List CachedPlacement) : List CachedPlacement :=
  rows.filter fun q => q.cachedAt ≤ p.cachedAt

/-- What a sweep is for: the rows it lists are taken up, and those that are durable then are done. -/
theorem runOnce_rows (once : job.RunOnce n s t) (live : job.cancels = false) : ∃ placements,
    (placements = [] ∧ job.listErr n ≠ none ∨ ListsCached s.rows job.batchSize placements) ∧
      t.rows = s.rows.filter fun p => ¬ (p ∈ placements ∧ job.durable n p) := by
  cases once with
  | unlisted failed => exact ⟨[], .inl ⟨rfl, failed⟩, by simp⟩
  | nothing _ listed => exact ⟨[], .inr listed, by simp⟩
  | @batch first rest t _ listed ended =>
    refine ⟨first :: rest, .inr listed, List.filter_congr fun p _ => ?_⟩
    have settled := Pool.settled_of_ends ended
    have begun : (t.worked ++ t.passed).Perm (first :: rest) := settled.jobs
    rw [settled.live live, List.append_nil] at begun
    simp only [begun.mem_iff]

/-- What is not listed is younger than a whole batch. -/
theorem batch_elders (listed : ListsCached rows limit placements) (member : p ∈ rows)
    (unlisted : p ∉ placements) : placements.length = limit ∧ placements ⊆ elders p rows ∧
      (rows.Nodup → placements.Nodup) := by
  obtain ⟨sorted, perm, ordered, rfl⟩ := listed
  have behind : p ∈ sorted.drop limit := by
    have there := perm.mem_iff.mpr member
    rw [← List.take_append_drop limit sorted, List.mem_append] at there
    exact there.resolve_left unlisted
  have long : limit < sorted.length := by
    by_contra short
    simp [List.drop_eq_nil_of_le (not_lt.mp short)] at behind
  rw [← List.take_append_drop limit sorted, List.pairwise_append] at ordered
  refine ⟨by simp; omega, fun q taken => ?_, fun nodup => ?_⟩
  · exact List.mem_filter.mpr ⟨perm.mem_iff.mp (List.mem_of_mem_take taken),
      decide_eq_true (ordered.2.2 q taken p behind)⟩
  · exact (perm.nodup_iff.mpr nodup).sublist (List.take_sublist _ _)

/-- Rows that are older than a listed one are listed as well. -/
theorem older_of_listed (listed : ListsCached rows limit placements) (member : p ∈ placements) :
    (rows.filter fun q => q.cachedAt < p.cachedAt).length < limit := by
  obtain ⟨sorted, perm, ordered, rfl⟩ := listed
  obtain ⟨before, rest, split⟩ := List.append_of_mem member
  have short : (before ++ p :: rest).length ≤ limit := split ▸ List.length_take_le _ _
  rw [← List.take_append_drop limit sorted, split, List.append_assoc] at ordered
  obtain ⟨younger, _⟩ := List.pairwise_cons.mp (List.pairwise_append.mp ordered).2.1
  have none : (p :: (rest ++ sorted.drop limit)).filter (·.cachedAt < p.cachedAt) = [] := by
    refine List.filter_eq_nil_iff.mpr fun q member => ?_
    rcases List.mem_cons.mp member with rfl | behind
    · simp
    · simpa using younger q behind
  rw [← (perm.filter _).length_eq, ← List.take_append_drop limit sorted, split, List.append_assoc,
    List.filter_append, List.cons_append, none, List.append_nil]
  have fewer := List.length_filter_le (fun q => decide (q.cachedAt < p.cachedAt)) before
  simp at short
  omega

/-- The rows that come before a placement in every listing and stay there. -/
def ahead (stuck : CachedPlacement → Bool) (p : CachedPlacement) (rows : List CachedPlacement) :
    List CachedPlacement :=
  rows.filter fun q => q.cachedAt < p.cachedAt ∧ stuck q

section Reliable
-- the placements whose promotion succeeds in every sweep that takes them up
variable {reliable : CachedPlacement → Bool}

/-- A reliable placement that is still left has seen an older one go. -/
theorem elders_fewer (once : job.RunOnce n s t) (live : job.cancels = false)
    (lists : job.listErr n = none) (succeeds : ∀ q, reliable q → job.promotes n q = none)
    (healthy : reliable p) (few : ((elders p s.rows).filter (¬ reliable ·)).length < job.batchSize)
    (left : p ∈ t.rows) : (elders p t.rows).length < (elders p s.rows).length := by
  obtain ⟨placements, listed, rows⟩ := runOnce_rows once live
  replace listed := listed.resolve_left fun failed => failed.2 lists
  have goes : ∀ q, reliable q → job.durable n q = true := fun q sure =>
    job.marked n q (succeeds q sure)
  simp only [rows, List.mem_filter, goes p healthy, and_true, decide_eq_true_eq] at left
  obtain ⟨full, older, nodup⟩ := batch_elders listed left.1 left.2
  obtain ⟨q, taken, sure⟩ : ∃ q ∈ placements, reliable q := by
    by_contra none
    have failing : placements ⊆ (elders p s.rows).filter (¬ reliable ·) := by
      intro q taken
      exact List.mem_filter.mpr ⟨older taken, decide_eq_true fun sure => none ⟨q, taken, sure⟩⟩
    have := (List.subperm_of_subset (nodup s.keys.of_map) failing).length_le
    omega
  have same : elders p t.rows = (elders p s.rows).filter fun q =>
      ¬ (q ∈ placements ∧ job.durable n q) := by
    simp only [elders, rows, List.filter_filter, Bool.and_comm]
  rw [same, List.length_filter_lt_length_iff_exists]
  exact ⟨q, older taken, by simp [taken, goes q sure]⟩

/-- The placements as old as a reliable one that are not reliable are fewer than a batch: it is
promoted within as many sweeps as there are placements as old. -/
theorem sweeps_promote (run : job.Sweeps n s t) (live : job.cancels = false)
    (lists : ∀ n, job.listErr n = none) (succeeds : ∀ n q, reliable q → job.promotes n q = none)
    (healthy : reliable p) (few : ((elders p s.rows).filter (¬ reliable ·)).length < job.batchSize)
    (enough : (elders p s.rows).length ≤ n) : p ∉ t.rows := by
  have left : t.rows.Sublist s.rows ∧
      (p ∈ t.rows → (elders p t.rows).length + n ≤ (elders p s.rows).length) := by
    clear enough
    induction run with
    | none => exact ⟨.refl _, fun _ => le_rfl⟩
    | @next n s t u run once ih =>
      obtain ⟨fewer, bound⟩ := ih few
      obtain ⟨placements, _, rows⟩ := runOnce_rows once live
      have less : u.rows.Sublist t.rows := rows ▸ List.filter_sublist
      refine ⟨less.trans fewer, fun member => ?_⟩
      have still := (fewer.filter (·.cachedAt ≤ p.cachedAt)).filter (¬ reliable ·)
      have shrinks := elders_fewer once live (lists n) (succeeds n) healthy
        (still.length_le.trans_lt few) member
      have before := bound (less.subset member)
      omega
  intro member
  have itself : p ∈ elders p t.rows := List.mem_filter.mpr ⟨member, by simp⟩
  have positive := List.length_pos_of_mem itself
  have bound := left.2 member
  omega

end Reliable

/-- A batch of older placements that stay CACHED is listed again and again, and nothing behind
it. -/
theorem sweeps_starve {stuck : CachedPlacement → Bool} (run : job.Sweeps n s t)
    (live : job.cancels = false) (fails : ∀ n q, stuck q → job.durable n q = false)
    (waits : p ∈ s.rows)
    (many : job.batchSize ≤ (ahead stuck p s.rows).length) : p ∈ t.rows := by
  have stays : p ∈ t.rows ∧ ahead stuck p t.rows = ahead stuck p s.rows := by
    induction run with
    | none => exact ⟨waits, rfl⟩
    | @next n s t u run once ih =>
      obtain ⟨waits', same⟩ := ih waits many
      obtain ⟨placements, listed, rows⟩ := runOnce_rows once live
      have unlisted : p ∉ placements := by
        intro member
        rcases listed with ⟨rfl, _⟩ | listed
        · simp at member
        have few := older_of_listed listed member
        have more : (ahead stuck p t.rows).Sublist _ := List.monotone_filter_right t.rows
          (q := (·.cachedAt < p.cachedAt)) (by simp +contextual)
        have := more.length_le
        rw [same] at this
        omega
      refine ⟨rows ▸ List.mem_filter.mpr ⟨waits', by simp [unlisted]⟩, ?_⟩
      rw [← same]
      simp only [ahead, rows, List.filter_filter]
      refine List.filter_congr fun q _ => ?_
      cases held : stuck q <;> simp [fails n q, held]
  exact stays.1

/-- Sweeps can go on for ever. -/
theorem exists_sweeps (job : PromotionJob) (n : Nat) (s : JobState) : ∃ t, job.Sweeps n s t := by
  induction n with
  | zero => exact ⟨s, .none⟩
  | succ n ih =>
    obtain ⟨t, run⟩ := ih
    rcases ne_or_eq (job.listErr n) none with failed | lists
    · exact ⟨t, run.next (.unlisted failed)⟩
    have total : Std.Total fun p q : CachedPlacement => p.cachedAt ≤ q.cachedAt :=
      ⟨fun _ _ => le_total _ _⟩
    have trans : IsTrans CachedPlacement fun p q => p.cachedAt ≤ q.cachedAt :=
      ⟨fun _ _ _ => le_trans⟩
    let older (p q : CachedPlacement) : Prop := p.cachedAt ≤ q.cachedAt
    have perm := List.perm_insertionSort older t.rows
    have ordered := List.pairwise_insertionSort older t.rows
    cases taken : (t.rows.insertionSort fun p q => p.cachedAt ≤ q.cachedAt).take job.batchSize with
    | nil => exact ⟨t, run.next (.nothing lists ⟨_, perm, ordered, taken.symm⟩)⟩
    | cons first rest =>
      obtain ⟨u, ended⟩ := (job.pool n first rest).exists_settled
      exact ⟨_, run.next (.batch lists ⟨_, perm, ordered, taken.symm⟩ ended)⟩

/-- One blob is never in the worker's cache, another comes there after the first sweep, and a
younger one always is. -/
def backlog : JobState where
  rows := [⟨"lost", 1⟩, ⟨"late", 2⟩, ⟨"kept", 3⟩]
  keys := by decide

def sweeper (batchSize : Nat) : PromotionJob where
  batchSize := batchSize
  parallelism := 4
  promotes n p := if p.blobKey = "lost" ∨ p.blobKey = "late" ∧ n = 0 then
    some (.new "blobio: promote cache get") else none
  durable n p := ¬ (p.blobKey = "lost" ∨ p.blobKey = "late" ∧ n = 0)
  marked n p nil := by by_contra fails; simp_all

theorem sweeps_promote_three : ∃ t, (sweeper 3).Sweeps 3 backlog t ∧ ⟨"kept", 3⟩ ∉ t.rows := by
  obtain ⟨t, run⟩ := exists_sweeps (sweeper 3) 3 backlog
  refine ⟨t, run, sweeps_promote run rfl (fun _ => rfl)
    (fun n q (sure : decide (q.blobKey = "kept")) => ?_) (by decide) (by decide) (by decide)⟩
  simp [sweeper, of_decide_eq_true sure]

theorem sweeps_starve_one : ⟨"kept", 3⟩ ∈ backlog.rows ∧ ∀ n, ∃ t,
    (sweeper 1).Sweeps n backlog t ∧ ⟨"kept", 3⟩ ∈ t.rows := by
  refine ⟨by decide, fun n => ?_⟩
  obtain ⟨t, run⟩ := exists_sweeps (sweeper 1) n backlog
  refine ⟨t, run, sweeps_starve run rfl
    (fun n q (lost : decide (q.blobKey = "lost")) => ?_) (by decide) (by decide)⟩
  simp [sweeper, of_decide_eq_true lost]

end KDrive.Worker
