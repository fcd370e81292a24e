import KDrive.S3.Breaker
import Mathlib.Data.List.Basic

/-! Requests that share a breaker. Each is admitted once and later records a success or a
failure, or ends without recording anything; the calls of different requests interleave in
any order. A result says nothing about the request it is of, so it is recorded for what
the breaker is at that moment. -/
namespace KDrive.S3
open Go

/-- A request that `Allow` let pass, with the number of times the breaker had opened. -/
structure Admitted where
  id : Nat
  since : Nat
  deriving DecidableEq

/-- `opens` counts how often the breaker went from closed or half-open to open. -/
structure Traffic where
  breaker : CircuitBreaker
  opens : Nat := 0
  outstanding : List Admitted := []

inductive Action where
  | allow (id : Nat) (now : Time)
  | success (request : Admitted)
  | failure (request : Admitted) (now : Time)
  | leave (request : Admitted)
  deriving DecidableEq

namespace Traffic

/-- The breaker after a result, which is the end of its request. -/
def record (s : Traffic) (request : Admitted) (cb : CircuitBreaker) : Traffic where
  breaker := cb
  opens := if s.breaker.state ≠ .circuitOpen ∧ cb.state = .circuitOpen then s.opens + 1 else s.opens
  outstanding := s.outstanding.erase request

def next (s : Traffic) : Action → Traffic
  | .allow id now =>
    match s.breaker.allow now with
    | (none, cb) => { s with breaker := cb, outstanding := ⟨id, s.opens⟩ :: s.outstanding }
    | (some _, cb) => { s with breaker := cb }
  | .success request => s.record request s.breaker.recordSuccess
  | .failure request now => s.record request (s.breaker.recordFailure now)
  | .leave request => { s with outstanding := s.outstanding.erase request }

def Enabled (s : Traffic) : Action → Prop
  | .allow _ _ => True
  | .success request | .failure request _ | .leave request => request ∈ s.outstanding

instance (s : Traffic) : DecidablePred s.Enabled
  | .allow _ _ => inferInstanceAs (Decidable True)
  | .success _ | .failure _ _ | .leave _ => inferInstanceAs (Decidable (_ ∈ _))

inductive Reached (threshold : Int) (resetTimeout : Duration) : Traffic → Prop where
  | start : Reached threshold resetTimeout ⟨newCircuitBreaker threshold resetTimeout, 0, []⟩
  | step : Reached threshold resetTimeout s → s.Enabled a → Reached threshold resetTimeout (s.next a)

/-- The requests admitted since the breaker last opened. -/
def probes (s : Traffic) : List Admitted := s.outstanding.filter fun request => request.since = s.opens

structure Inv (s : Traffic) : Prop where
  wired : s.breaker.Wired
  past : ∀ request ∈ s.outstanding, request.since ≤ s.opens
  idle : s.breaker.state = .circuitOpen → s.probes = []
  single : s.breaker.state = .circuitHalfOpen → s.probes.length ≤ 1

variable {s : Traffic} {a : Action} {request : Admitted}

theorem probes_erase_le (s : Traffic) (request : Admitted) :
    ((s.outstanding.erase request).filter fun other => other.since = s.opens).length ≤
      s.probes.length :=
  (List.Sublist.filter _ List.erase_sublist).length_le

/-- A result keeps the invariant: if it opens the breaker, no request has been admitted
since. -/
theorem Inv.record (inv : Inv s) (cb : CircuitBreaker) (wired : cb.Wired)
    (half : cb.state = .circuitHalfOpen → s.breaker.state = .circuitHalfOpen) :
    Inv (s.record request cb) := by
  have inside : ∀ other ∈ s.outstanding.erase request, other.since ≤ s.opens :=
    fun other member => inv.past other (List.mem_of_mem_erase member)
  by_cases opens : s.breaker.state ≠ .circuitOpen ∧ cb.state = .circuitOpen
  · refine ⟨wired, ?_, ?_, ?_⟩
    · intro other member
      have past := inside other member
      simp only [Traffic.record, if_pos opens]
      omega
    · intro _
      apply List.filter_eq_nil_iff.mpr
      intro other member
      have past := inside other member
      simp only [Traffic.record, if_pos opens, decide_eq_true_eq]
      omega
    · intro impossible
      rw [show (s.record request cb).breaker = cb from rfl, opens.2] at impossible
      contradiction
  · have count : (s.record request cb).opens = s.opens := if_neg opens
    have fewer : (s.record request cb).probes.length ≤ s.probes.length := by
      simp only [probes, count]
      exact probes_erase_le s request
    refine ⟨wired, fun other member => count ▸ inside other member, ?_, ?_⟩
    · intro now
      have before : s.breaker.state = .circuitOpen := by
        by_contra other
        exact opens ⟨other, now⟩
      rw [inv.idle before] at fewer
      exact List.eq_nil_of_length_eq_zero (Nat.le_zero.mp fewer)
    · intro now
      exact Nat.le_trans fewer (inv.single (half now))

theorem Inv.next (inv : Inv s) (a : Action) : Inv (s.next a) := by
  cases a with
  | allow id now =>
    have wired := inv.wired.allow now
    rcases CircuitBreaker.allow_cases inv.wired now with
      ⟨state, same⟩ | ⟨state, _, same⟩ | ⟨_, same, _⟩
    · simp only [Traffic.next, same]
      refine ⟨inv.wired, ?_, ?_, ?_⟩
      · simpa using inv.past
      · intro impossible
        rw [state] at impossible
        contradiction
      · intro impossible
        rw [state] at impossible
        contradiction
    · simp only [Traffic.next, same] at wired ⊢
      refine ⟨wired, by simpa using inv.past, nofun, fun _ => ?_⟩
      have none := inv.idle state
      simp only [probes] at none ⊢
      simp [none]
    · simp only [Traffic.next, same]
      exact ⟨inv.wired, inv.past, inv.idle, inv.single⟩
  | success request =>
    refine inv.record _ inv.wired.recordSuccess fun half => ?_
    rw [CircuitBreaker.recordSuccess_state] at half
    split at half
    · contradiction
    · exact half
  | failure request now =>
    refine inv.record _ (inv.wired.recordFailure now) fun half => ?_
    rw [CircuitBreaker.recordFailure_state] at half
    split at half <;> contradiction
  | leave request =>
    have fewer := probes_erase_le s request
    refine ⟨inv.wired, fun other member => inv.past other (List.mem_of_mem_erase member), ?_, ?_⟩
    · intro state
      rw [inv.idle state] at fewer
      exact List.eq_nil_of_length_eq_zero (Nat.le_zero.mp fewer)
    · intro state
      exact Nat.le_trans fewer (inv.single state)

theorem Reached.inv (reached : Reached threshold resetTimeout s) : Inv s := by
  induction reached with
  | start => exact ⟨CircuitBreaker.wired_new _ _, nofun, nofun, nofun⟩
  | step _ _ ih => exact ih.next _

/-- What moves a half-open breaker is a result. -/
theorem Inv.half_open_next (inv : Inv s) (half : s.breaker.state = .circuitHalfOpen) :
    ((s.next a).breaker.state = .circuitClosed → ∃ request, a = .success request) ∧
      ((s.next a).breaker.state = .circuitOpen → ∃ request now, a = .failure request now) := by
  cases a with
  | allow id now =>
    have same : (s.next (.allow id now)).breaker.state = .circuitHalfOpen := by
      rcases CircuitBreaker.allow_cases inv.wired now with
        ⟨closed, _⟩ | ⟨_, _, same⟩ | ⟨_, same, _⟩
      · rw [half] at closed
        contradiction
      · simp only [Traffic.next, same]
      · simpa only [Traffic.next, same] using half
    rw [same]
    exact ⟨nofun, nofun⟩
  | success request =>
    refine ⟨fun _ => ⟨request, rfl⟩, fun opened => ?_⟩
    simp [Traffic.next, Traffic.record, CircuitBreaker.recordSuccess_state, half] at opened
  | failure request now =>
    refine ⟨fun closed => ?_, fun _ => ⟨request, now, rfl⟩⟩
    simp [Traffic.next, Traffic.record, CircuitBreaker.recordFailure_state, half] at closed
  | leave request =>
    have same : (s.next (.leave request)).breaker.state = .circuitHalfOpen := half
    rw [same]
    exact ⟨nofun, nofun⟩

/-- A half-open breaker closes on the success of its probe only, and opens on its failure
only. -/
def ProbeDecides (s : Traffic) (a : Action) : Prop :=
  s.breaker.state = .circuitHalfOpen →
    ((s.next a).breaker.state = .circuitClosed → ∃ probe ∈ s.probes, a = .success probe) ∧
    ((s.next a).breaker.state = .circuitOpen → ∃ probe ∈ s.probes, ∃ now, a = .failure probe now)

/-- The result of a request that was admitted before the breaker last opened is recorded
while it is half-open. -/
def LateResult (s : Traffic) (a : Action) : Prop :=
  s.breaker.state = .circuitHalfOpen ∧ ∃ request ∈ s.outstanding, request.since < s.opens ∧
    (a = .success request ∨ ∃ now, a = .failure request now)

/-- At most one request admitted since the breaker last opened is outstanding before it
closes again, and it is the one that decides, exactly unless a late result is recorded. -/
theorem probe_decides_iff (reached : Reached threshold resetTimeout s) (enabled : s.Enabled a) :
    (s.breaker.state ≠ .circuitClosed → s.probes.length ≤ 1) ∧
      (ProbeDecides s a ↔ ¬ LateResult s a) := by
  have inv := reached.inv
  have probe : ∀ {request}, request ∈ s.probes ↔
      request ∈ s.outstanding ∧ request.since = s.opens := by
    intro request
    simp [probes]
  refine ⟨fun state => ?_, ⟨fun decides late => ?_, fun timely half => ⟨?_, ?_⟩⟩⟩
  · cases now : s.breaker.state with
    | circuitClosed => exact absurd now state
    | circuitOpen => simp [inv.idle now]
    | circuitHalfOpen => exact inv.single now
  · obtain ⟨half, request, _, before, rfl | ⟨now, rfl⟩⟩ := late
    · have closed : (s.next (.success request)).breaker.state = .circuitClosed := by
        simp [Traffic.next, Traffic.record, CircuitBreaker.recordSuccess_state, half]
      obtain ⟨other, member, same⟩ := (decides half).1 closed
      cases same
      have since := (probe.mp member).2
      omega
    · have opened : (s.next (.failure request now)).breaker.state = .circuitOpen := by
        simp [Traffic.next, Traffic.record, CircuitBreaker.recordFailure_state, half]
      obtain ⟨other, member, _, same⟩ := (decides half).2 opened
      cases same
      have since := (probe.mp member).2
      omega
  · intro closed
    obtain ⟨request, rfl⟩ := (inv.half_open_next half).1 closed
    refine ⟨request, probe.mpr ⟨enabled, ?_⟩, rfl⟩
    by_contra other
    have before := Nat.lt_of_le_of_ne (inv.past request enabled) other
    exact timely ⟨half, request, enabled, before, .inl rfl⟩
  · intro opened
    obtain ⟨request, now, rfl⟩ := (inv.half_open_next half).2 opened
    refine ⟨request, probe.mpr ⟨enabled, ?_⟩, now, rfl⟩
    by_contra other
    have before := Nat.lt_of_le_of_ne (inv.past request enabled) other
    exact timely ⟨half, request, enabled, before, .inr ⟨now, rfl⟩⟩

/-- The traffic after a sequence of calls. -/
def follow (s : Traffic) : List Action → Option Traffic
  | [] => some s
  | a :: rest => if s.Enabled a then follow (s.next a) rest else none

theorem follow_reached (reached : Reached threshold resetTimeout s)
    (ran : follow s actions = some t) : Reached threshold resetTimeout t := by
  induction actions generalizing s with
  | nil =>
    cases ran
    exact reached
  | cons a rest ih =>
    simp only [follow] at ran
    split at ran
    · rename_i enabled
      exact ih (reached.step enabled) ran
    · contradiction

theorem follow_exhibits {p : Traffic → Bool} (reached : Reached threshold resetTimeout s)
    (found : (follow s actions).any p = true) : ∃ t, Reached threshold resetTimeout t ∧ p t = true := by
  cases ran : follow s actions with
  | none => simp [ran] at found
  | some t => exact ⟨t, follow_reached reached ran, by simpa [ran] using found⟩

/-- Two requests pass the closed breaker. The failure of one opens it, a third becomes the
probe, and fails: its own result decides. -/
theorem probe_decides_own : ∃ s, Reached 1 5 s ∧ s.breaker.state = .circuitHalfOpen ∧
    s.outstanding = [⟨2, 1⟩, ⟨1, 0⟩] ∧ s.probes.length ≤ 1 ∧
      ProbeDecides s (.failure ⟨2, 1⟩ 9) := by
  have facts : (follow ⟨newCircuitBreaker 1 5, 0, []⟩ [.allow 0 0, .allow 1 0, .failure ⟨0, 0⟩ 1,
      .allow 2 6]).any (fun s => s.breaker.state = .circuitHalfOpen ∧ s.opens = 1 ∧
        s.outstanding = [⟨2, 1⟩, ⟨1, 0⟩]) = true := by decide
  obtain ⟨s, reached, holds⟩ := follow_exhibits .start facts
  obtain ⟨half, opens, outstanding⟩ := of_decide_eq_true holds
  have enabled : s.Enabled (.failure ⟨2, 1⟩ 9) := by simp [Enabled, outstanding]
  obtain ⟨single, decides⟩ := probe_decides_iff reached enabled
  refine ⟨s, reached, half, outstanding, single (by rw [half]; nofun), decides.mpr ?_⟩
  rintro ⟨_, request, _, before, same | ⟨_, same⟩⟩
  · contradiction
  · cases same
    simp [opens] at before

/-- The success of a request that was admitted before the outage closes the breaker while
the probe is still outstanding. -/
theorem late_success_closes : ∃ s, Reached 1 5 s ∧ s.breaker.state = .circuitHalfOpen ∧
    s.probes = [⟨2, 1⟩] ∧ s.Enabled (.success ⟨1, 0⟩) ∧
      (s.next (.success ⟨1, 0⟩)).breaker.state = .circuitClosed := by
  have facts : (follow ⟨newCircuitBreaker 1 5, 0, []⟩ [.allow 0 0, .allow 1 0, .failure ⟨0, 0⟩ 1,
      .allow 2 6]).any (fun s => s.breaker.state = .circuitHalfOpen ∧ s.probes = [⟨2, 1⟩] ∧
        s.Enabled (.success ⟨1, 0⟩) ∧
        (s.next (.success ⟨1, 0⟩)).breaker.state = .circuitClosed) = true := by decide
  obtain ⟨s, reached, holds⟩ := follow_exhibits .start facts
  exact ⟨s, reached, of_decide_eq_true holds⟩

end Traffic
end KDrive.S3
