import KDrive.S3.Breaker
import Mathlib.Data.List.Basic

/-! The breaker in the hands of one request at a time, against the automaton its comments
describe. The automaton keeps nothing but the attempts it let through, newest first, and
reads off from them whether it is open. -/
namespace KDrive.S3
open Go

/-- `Allow` is called at `asked`; once it lets the attempt pass, the result is recorded at
`reported`. -/
structure Attempt where
  asked : Time
  reported : Time
  failed : Bool
  deriving DecidableEq

namespace CircuitBreaker

/-- Whether the attempt is rejected, and the breaker it leaves. -/
def attempt (cb : CircuitBreaker) (a : Attempt) : Bool × CircuitBreaker :=
  match cb.allow a.asked with
  | (some _, cb) => (true, cb)
  | (none, cb) => (false, if a.failed then cb.recordFailure a.reported else cb.recordSuccess)

def rejections (cb : CircuitBreaker) : List Attempt → List Bool
  | [] => []
  | a :: rest => (cb.attempt a).1 :: (cb.attempt a).2.rejections rest

end CircuitBreaker

/-- An attempt that was let through, as a probe if the automaton was open before. -/
structure Outcome where
  probe : Bool
  failed : Bool
  reported : Time
  deriving DecidableEq

structure Reference where
  threshold : Int
  resetTimeout : Duration

namespace Reference

/-- Up to the last successful probe, which closes the automaton with a fresh count. -/
def sinceClosed (past : List Outcome) : List Outcome :=
  past.takeWhile fun o => !(o.probe && !o.failed)

/-- The last `threshold` attempts since it last closed were all failures. -/
def Exhausted (r : Reference) (past : List Outcome) : Prop :=
  r.threshold ≤ (sinceClosed past).length ∧
    ∀ o ∈ (sinceClosed past).take r.threshold.toNat, o.failed = true

def LastProbeFailed (past : List Outcome) : Prop :=
  (past.find? (·.probe)).any (·.failed) = true

def Tripped (r : Reference) (past : List Outcome) : Prop :=
  r.Exhausted past ∨ LastProbeFailed past

/-- Less than the timeout has passed since the failure that opened or re-opened it. -/
def Open (r : Reference) (past : List Outcome) (now : Time) : Prop :=
  r.Tripped past ∧
    (past.find? (·.failed)).any (fun o => decide (now - o.reported < r.resetTimeout)) = true

instance (r : Reference) (past : List Outcome) : Decidable (r.Exhausted past) :=
  inferInstanceAs (Decidable (_ ∧ _))

instance (r : Reference) (past : List Outcome) : Decidable (r.Tripped past) :=
  inferInstanceAs (Decidable (_ ∨ (_ = true)))

instance (r : Reference) (past : List Outcome) (now : Time) : Decidable (r.Open past now) :=
  inferInstanceAs (Decidable (_ ∧ _))

def rejections (r : Reference) (past : List Outcome) : List Attempt → List Bool
  | [] => []
  | a :: rest =>
    if r.Open past a.asked then true :: r.rejections past rest
    else false :: r.rejections (⟨decide (r.Tripped past), a.failed, a.reported⟩ :: past) rest

/-- The failures in a row that the automaton ends with since it last closed. -/
def streak (past : List Outcome) : Nat := ((sinceClosed past).takeWhile (·.failed)).length

variable {r : Reference} {past : List Outcome}

theorem all_take_iff (p : α → Bool) (l : List α) (n : Nat) :
    (n ≤ l.length ∧ ∀ x ∈ l.take n, p x = true) ↔ n ≤ (l.takeWhile p).length := by
  induction l generalizing n with
  | nil => cases n <;> simp
  | cons x l ih =>
    cases n with
    | zero => simp
    | succ n =>
      have tail := ih n
      cases holds : p x with
      | true =>
        simp only [List.length_cons, Nat.add_le_add_iff_right, List.take_succ_cons,
          List.forall_mem_cons, holds, true_and, List.takeWhile_cons, if_true]
        exact tail
      | false => simp [holds]

theorem exhausted_iff (positive : 1 ≤ r.threshold) :
    r.Exhausted past ↔ r.threshold ≤ streak past := by
  have natural : r.threshold = (r.threshold.toNat : Int) := (Int.toNat_of_nonneg (by omega)).symm
  have counted := all_take_iff (·.failed) (sinceClosed past) r.threshold.toNat
  have size : r.threshold ≤ ((sinceClosed past).length : Int) ↔
      r.threshold.toNat ≤ (sinceClosed past).length := by omega
  have run : r.threshold ≤ (streak past : Int) ↔ r.threshold.toNat ≤ streak past := by omega
  rw [Exhausted, size, run]
  exact counted

theorem streak_success (past : List Outcome) (probe : Bool) (t : Time) :
    streak (⟨probe, false, t⟩ :: past) = 0 := by
  cases probe <;> simp [streak, sinceClosed]

theorem streak_failure (past : List Outcome) (probe : Bool) (t : Time) :
    streak (⟨probe, true, t⟩ :: past) = streak past + 1 := by
  simp [streak, sinceClosed]

theorem lastProbeFailed_cons (o : Outcome) : LastProbeFailed (o :: past) ↔
    if o.probe then o.failed = true else LastProbeFailed past := by
  cases probe : o.probe <;> simp [LastProbeFailed, probe]

end Reference

namespace CircuitBreaker
open Reference

/-- Between two attempts the breaker is closed with the failures counted, or open since the
last attempt it let through. -/
inductive Follows (r : Reference) : CircuitBreaker → List Outcome → Prop where
  | closed (past : List Outcome) (since : Time) (calm : ¬ r.Tripped past) : Follows r
      ⟨r.threshold, r.resetTimeout, .circuitClosed, streak past, since, false⟩ past
  | open (probe : Bool) (since : Time) (past : List Outcome) (count : Int)
      (tripped : r.Tripped (⟨probe, true, since⟩ :: past)) : Follows r
      ⟨r.threshold, r.resetTimeout, .circuitOpen, count, since, false⟩
      (⟨probe, true, since⟩ :: past)

variable {r : Reference} {cb : CircuitBreaker} {past : List Outcome}

theorem follows_new (threshold : Int) (resetTimeout : Duration) :
    Follows ⟨(newCircuitBreaker threshold resetTimeout).threshold,
      (newCircuitBreaker threshold resetTimeout).resetTimeout⟩
      (newCircuitBreaker threshold resetTimeout) [] := by
  apply Follows.closed [] 0
  have positive : 1 ≤ (newCircuitBreaker threshold resetTimeout).threshold := by
    simp only [newCircuitBreaker]
    split <;> omega
  rintro (exhausted | probed)
  · have few := exhausted.1
    simp only [sinceClosed, List.takeWhile_nil, List.length_nil] at few
    omega
  · simp [LastProbeFailed] at probed

/-- One attempt is rejected by both or by neither, and the breaker goes on following. -/
theorem Follows.attempt (positive : 1 ≤ r.threshold) (follows : Follows r cb past) (a : Attempt) :
    (r.Open past a.asked ∧ cb.attempt a = (true, cb)) ∨
    (¬ r.Open past a.asked ∧ (cb.attempt a).1 = false ∧
      Follows r (cb.attempt a).2 (⟨decide (r.Tripped past), a.failed, a.reported⟩ :: past)) := by
  cases follows with
  | closed past since calm =>
    refine .inr ⟨fun opened => calm opened.1, rfl, ?_⟩
    have few : ¬ r.Exhausted past := fun exhausted => calm (.inl exhausted)
    rw [exhausted_iff positive] at few
    have unprobed : ¬ LastProbeFailed past := fun probed => calm (.inr probed)
    rw [decide_eq_false calm]
    cases failed : a.failed with
    | false =>
      simp only [CircuitBreaker.attempt, allow, failed, Bool.false_eq_true, if_false, recordSuccess]
      have fresh := streak_success past false a.reported
      have next : ¬ r.Tripped (⟨false, false, a.reported⟩ :: past) := by
        rintro (exhausted | probed)
        · rw [exhausted_iff positive, fresh] at exhausted
          omega
        · exact unprobed ((lastProbeFailed_cons _).mp probed)
      have closed := Follows.closed _ since next
      rwa [fresh] at closed
    | true =>
      simp only [CircuitBreaker.attempt, allow, failed, if_true, recordFailure]
      have longer := streak_failure past false a.reported
      by_cases most : r.threshold ≤ (streak past : Int) + 1
      · rw [if_pos most]
        apply Follows.open
        apply Or.inl
        rw [exhausted_iff positive, longer]
        omega
      · rw [if_neg most]
        have next : ¬ r.Tripped (⟨false, true, a.reported⟩ :: past) := by
          rintro (exhausted | probed)
          · rw [exhausted_iff positive, longer] at exhausted
            omega
          · exact unprobed ((lastProbeFailed_cons _).mp probed)
        have closed := Follows.closed _ since next
        rwa [longer] at closed
  | «open» probe since past count tripped =>
    by_cases early : a.asked - since < r.resetTimeout
    · refine .inl ⟨⟨tripped, by simp [early]⟩, ?_⟩
      simp only [CircuitBreaker.attempt, allow, if_pos early]
    · refine .inr ⟨fun opened => early (by simpa using opened.2), ?_⟩
      rw [decide_eq_true tripped]
      simp only [CircuitBreaker.attempt, allow, if_neg early, Bool.false_eq_true, if_false]
      refine ⟨trivial, ?_⟩
      cases failed : a.failed with
      | false =>
        simp only [Bool.false_eq_true, if_false, recordSuccess]
        have fresh := streak_success (⟨probe, true, since⟩ :: past) true a.reported
        have next : ¬ r.Tripped (⟨true, false, a.reported⟩ :: ⟨probe, true, since⟩ :: past) := by
          rintro (exhausted | probed)
          · rw [exhausted_iff positive, fresh] at exhausted
            omega
          · simpa using (lastProbeFailed_cons _).mp probed
        have closed := Follows.closed _ since next
        rwa [fresh] at closed
      | true =>
        simp only [if_true, recordFailure]
        apply Follows.open
        apply Or.inr
        exact (lastProbeFailed_cons _).mpr rfl

theorem Follows.rejections (positive : 1 ≤ r.threshold) (follows : Follows r cb past)
    (attempts : List Attempt) : cb.rejections attempts = r.rejections past attempts := by
  induction attempts generalizing cb past with
  | nil => rfl
  | cons a rest ih =>
    simp only [CircuitBreaker.rejections, Reference.rejections]
    rcases follows.attempt positive a with ⟨opened, rejected⟩ | ⟨closed, passed, follows'⟩
    · rw [if_pos opened, rejected, ih follows]
    · rw [if_neg closed, passed, ih follows']

/-- Attempt by attempt, a breaker that serves one request at a time is the automaton with its
threshold and timeout, whatever the clock readings are. -/
theorem rejections_eq_reference (threshold : Int) (resetTimeout : Duration)
    (attempts : List Attempt) :
    (newCircuitBreaker threshold resetTimeout).rejections attempts =
      Reference.rejections ⟨if threshold < 1 then 10 else threshold,
        if resetTimeout ≤ 0 then 30 * 10 ^ 9 else resetTimeout⟩ [] attempts := by
  refine Follows.rejections ?_ (follows_new threshold resetTimeout) attempts
  simp only [newCircuitBreaker]
  split <;> omega

-- Two failures open it, the probe at 11 fails and the one at 22 closes it.
example : (newCircuitBreaker 2 10).rejections [⟨0, 0, true⟩, ⟨1, 1, true⟩, ⟨2, 2, false⟩,
    ⟨11, 12, true⟩, ⟨13, 13, false⟩, ⟨22, 22, false⟩, ⟨23, 23, true⟩, ⟨24, 24, true⟩] =
    [false, false, true, false, true, false, false, false] := by decide

end CircuitBreaker
end KDrive.S3
