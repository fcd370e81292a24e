import KDrive.LocalFsDev.Refinement
import KDrive.LocalFsDev.Survival

/-! The sweeps of the repair job over a `local_fs_dev` store: every sampled placement is read
again and its checksum compared with the one on record. -/
namespace KDrive.Worker
open Go Blobstore Interaction LocalFsDev

structure DurablePlacement where
  blobKey : String
  blobVersionID : String
  checksumSHA256 : String

structure RepairStats where
  checkedTotal : Nat := 0
  mismatchTotal : Nat := 0
  scanCount : Nat := 0

def verifyChecksum (store : Provider) (key versionID expectedSHA : String) : Action Unit := do
  let r ← tryCatch (store.get ⟨key, versionID⟩ none) fun err =>
    throw (.wrap "repair: get %q: %w" [.str key] err)
  match r.1.readAll with
  | .error err => throw (.wrap "repair: read %q: %w" [.str key] err)
  | .ok data =>
    let got := checksumSHA256 data
    if got ≠ expectedSHA then
      throw (.errorf "repair: checksum mismatch for %q: got %s, want %s"
        [.str key, .str got, .str expectedSHA])

/-- The loop of `runOnce` over the samples that it comes to before a cancellation. -/
def verifySamples (store : Provider) : List DurablePlacement → RepairStats → Action RepairStats
  | [], stats => pure stats
  | s :: rest, stats => do
    let mismatch ← tryCatch
      (do verifyChecksum store s.blobKey s.blobVersionID s.checksumSHA256; pure 0) fun _ => pure 1
    verifySamples store rest { stats with
      checkedTotal := stats.checkedTotal + 1
      mismatchTotal := stats.mismatchTotal + mismatch }

def repairOnce (store : Provider) (samples : List DurablePlacement) (stats : RepairStats) :
    Action RepairStats :=
  verifySamples store samples { stats with scanCount := stats.scanCount + 1 }

/-- The version on record, or the newest one if none is, has the bytes of the checksum. -/
def holds (b : Bucket) (s : DurablePlacement) : Bool :=
  (b.current ⟨s.blobKey, s.blobVersionID⟩).any fun found =>
    checksumSHA256 found.2 = s.checksumSHA256

/-- A blob key that the store accepts, and a version ID. -/
abbrev Named (s : DurablePlacement) : Prop :=
  validateKey s.blobKey = none ∧ '/' ∉ s.blobKey.toList ∧ '/' ∉ s.blobVersionID.toList

variable {p : Provider} {w w' : World} {b : Bucket} {s : DurablePlacement}

/-- The check succeeds exactly when the bytes come whole and have the checksum. -/
theorem ends_verifyChecksum {setting : Setting} {post : Except GoError Unit → World → Prop}
    (reads : Ends setting (p.get ⟨key, versionID⟩ none).run (fun found w' => ∀ answer,
      (answer = .ok () ↔ ∃ data info, found = .ok (⟨data, none⟩, info) ∧
        checksumSHA256 data = expectedSHA) → post answer w') w) :
    Ends setting (verifyChecksum p key versionID expectedSHA).run post w := by
  refine Acts.step (Acts.tryCatch (reads.imp ?_))
  rintro (err | ⟨⟨data, failure⟩, info⟩) w' next
  · exact next _ (by simp)
  · simp only [Handled, Continues]
    cases failure with
    | some err => exact next _ (by simp)
    | none =>
      simp only [Reader.readAll]
      split
      · rename_i differs
        exact next _ (by simpa using differs)
      · rename_i same
        exact next _ (by simpa using same)

theorem ends_verifyChecksum_iff (rep : p.Represents w b) (ordered : b.Ordered) (named : Named s) :
    Ends ticking (verifyChecksum p s.blobKey s.blobVersionID s.checksumSHA256).run (fun answer w' =>
      (∃ b', b.Keeps (· < ·) b' ∧ p.Represents w' b') ∧ (answer = .ok () ↔ holds b s = true)) w := by
  obtain ⟨valid, flat, noSlash⟩ := named
  refine ends_verifyChecksum ((mirrors_get quiet_ticking rep ordered flat noSlash).imp ?_)
  rintro (err | ⟨body, info⟩) w' ⟨b', does, rep'⟩ answer verdict
  · obtain ⟨keeps, invalid | ⟨absent, _⟩ | ⟨_, _, _, impossible⟩⟩ := does
    · exact absurd (valid.symm.trans invalid) (by simp)
    · exact ⟨⟨b', keeps, rep'⟩, verdict.trans (by simp [holds, absent])⟩
    · contradiction
  · obtain ⟨keeps, v, data, found, whole, _⟩ := does
    cases whole
    exact ⟨⟨b', keeps, rep'⟩, verdict.trans (by simp [holds, found])⟩

theorem ends_verifySamples (rep : p.Represents w b) (ordered : b.Ordered)
    (samples : List DurablePlacement) (named : ∀ s ∈ samples, Named s) (stats : RepairStats) :
    Ends ticking (verifySamples p samples stats).run (fun answer w' =>
      answer = .ok { stats with
        checkedTotal := stats.checkedTotal + samples.length
        mismatchTotal := stats.mismatchTotal + samples.countP fun s => !holds b s } ∧
      ∃ b', b'.stack = b.stack ∧ p.Represents w' b') w := by
  induction samples generalizing w b stats with
  | nil => exact ⟨rfl, b, rfl, rep⟩
  | cons s rest ih =>
    have first := ends_verifyChecksum_iff rep ordered (named s List.mem_cons_self)
    refine Acts.step (Acts.tryCatch (Acts.step (first.imp ?_)))
    rintro answer w' ⟨⟨b', keeps, rep'⟩, verdict⟩
    have ordered' := keeps.ordered ordered
    obtain ⟨now, _, rfl⟩ := keeps
    have later := fun stats => ih rep' ordered' (fun s member => named s (.tail _ member)) stats
    have same : ∀ s, holds { b with time := now } s = holds b s := fun _ => rfl
    cases answer with
    | ok _ =>
      refine (later _).imp fun answer w'' ⟨counted, b'', rest⟩ => ⟨counted.trans ?_, b'', rest⟩
      simp [same, verdict.mp rfl, Nat.add_right_comm, Nat.add_assoc]
    | error err =>
      have unsound : holds b s = false := by simpa using verdict
      refine (later _).imp fun answer w'' ⟨counted, b'', rest⟩ => ⟨counted.trans ?_, b'', rest⟩
      simp [same, unsound]
      omega

/-- After any run of operations a sweep ends, counts the samples whose bytes are not those on
record, and changes no version. -/
theorem repair_counts_unsound (fresh : p.Fresh w) (history : p.History ticking w past w')
    (flat : ∀ t ∈ past, t.event.op.Flat) (samples : List DurablePlacement)
    (named : ∀ s ∈ samples, Named s) (stats : RepairStats) :
    ∃ b, Bucket.Run (· < ·) (.empty w.clock) (past.map Transition.event) b ∧
      (∃ answer w'', Runs (serves ticking) w' (repairOnce p samples stats).run answer w'') ∧
      ∀ answer w'', Runs (serves ticking) w' (repairOnce p samples stats).run answer w'' →
        answer = .ok {
          checkedTotal := stats.checkedTotal + samples.length
          mismatchTotal := stats.mismatchTotal + samples.countP fun s => !holds b s
          scanCount := stats.scanCount + 1 } ∧
        ∃ b', b'.stack = b.stack ∧ p.Represents w'' b' := by
  obtain ⟨b, run, ordered, rep⟩ := history.mirrors fresh flat
  refine ⟨b, run, exists_runs ticking_total _ w', fun answer w'' ran => ?_⟩
  exact (ends_verifySamples rep ordered samples named _).runs ran

/-- A version that is stored, a newest one that is a delete marker, and a key without any. -/
def bucketSamples : List DurablePlacement :=
  [⟨"a", versionText 0 0, checksumSHA256 [7]⟩, ⟨"a", "", checksumSHA256 [8]⟩, ⟨"b", "", "sum"⟩]

theorem repair_counts_two_bad : ∃ past w' b w'', sample.History ticking sampleWorld past w' ∧
      past.map (fun t => t.event.op) = bucketRun ∧
      Bucket.Run (· < ·) (.empty 0) (past.map Transition.event) b ∧
      Runs (serves ticking) w' (repairOnce sample bucketSamples {}).run
        (.ok ⟨3, 2, 1⟩) w'' ∧ bucketSamples.countP (fun s => !holds b s) = 2 := by
  obtain ⟨past, w', history, ops, sweeps⟩ := exists_history
    (p := sample) (w := sampleWorld)
    (P := fun _ w' => (repairOnce sample bucketSamples {}).run.returns execute w'
      fun stats _ => stats.mismatchTotal = 2) ticking_ticks bucketRun (by decide +kernel)
  have flat : ∀ op ∈ bucketRun, op.Flat := by decide
  obtain ⟨stats, w'', ran, two⟩ := Program.returns_runs (execute_serves ticking_ticks) sweeps
  obtain ⟨b, run, -, counts⟩ := repair_counts_unsound world_root_fresh history
    (fun t member => flat _ (mem_of_played ops t member)) bucketSamples (by decide) {}
  obtain ⟨same, -⟩ := counts _ w'' ran
  cases same
  have bad : bucketSamples.countP (fun s => !holds b s) = 2 := by simpa using two
  rw [bad] at ran
  exact ⟨past, w', b, w'', history, ops, run, ran, bad⟩

end KDrive.Worker
