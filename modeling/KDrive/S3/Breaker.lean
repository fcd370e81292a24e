import KDrive.Go.Runtime

/-! The circuit breaker of the S3 adapter. A method is one step on the state: what its
atomic fields and its mutex hold together is passed along. The clock reading of a call is
an argument. -/
namespace KDrive.S3
open Go

inductive CircuitState where
  | circuitClosed
  | circuitOpen
  | circuitHalfOpen
  deriving DecidableEq

def errCircuitOpen : GoError := .new "s3: circuit breaker open"

structure CircuitBreaker where
  threshold : Int
  resetTimeout : Duration
  state : CircuitState := .circuitClosed
  failures : Int := 0
  openedAt : Time := 0
  probeInFlight : Bool := false
  deriving DecidableEq

def newCircuitBreaker (threshold : Int) (resetTimeout : Duration) : CircuitBreaker where
  threshold := if threshold < 1 then 10 else threshold
  resetTimeout := if resetTimeout ≤ 0 then 30 * 10 ^ 9 else resetTimeout

namespace CircuitBreaker

/-- `none` is the nil that lets the request proceed. -/
def allow (cb : CircuitBreaker) (now : Time) : Option GoError × CircuitBreaker :=
  match cb.state with
  | .circuitClosed => (none, cb)
  | .circuitOpen =>
    if now - cb.openedAt < cb.resetTimeout then (some errCircuitOpen, cb)
    else if cb.probeInFlight then (some errCircuitOpen, cb)
    else (none, { cb with probeInFlight := true, state := .circuitHalfOpen })
  | .circuitHalfOpen =>
    if cb.probeInFlight then (some errCircuitOpen, cb)
    else (none, { cb with probeInFlight := true })

def recordSuccess (cb : CircuitBreaker) : CircuitBreaker :=
  match cb.state with
  | .circuitHalfOpen =>
    { cb with state := .circuitClosed, failures := 0, probeInFlight := false }
  | _ => { cb with failures := 0 }

def recordFailure (cb : CircuitBreaker) (now : Time) : CircuitBreaker :=
  match cb.state with
  | .circuitHalfOpen =>
    { cb with state := .circuitOpen, openedAt := now, probeInFlight := false }
  | .circuitClosed =>
    if cb.threshold ≤ cb.failures + 1 then
      { cb with failures := cb.failures + 1, state := .circuitOpen, openedAt := now }
    else { cb with failures := cb.failures + 1 }
  | .circuitOpen => cb

/-- The flag is up exactly while the breaker is half-open. -/
def Wired (cb : CircuitBreaker) : Prop := cb.probeInFlight = true ↔ cb.state = .circuitHalfOpen

theorem wired_new (threshold : Int) (resetTimeout : Duration) :
    (newCircuitBreaker threshold resetTimeout).Wired := by
  simp [Wired, newCircuitBreaker]

variable {cb : CircuitBreaker}

/-- What `Allow` can do: let a request pass a closed breaker, make it the probe of an open
one, or refuse it. -/
theorem allow_cases (wired : cb.Wired) (now : Time) :
    (cb.state = .circuitClosed ∧ cb.allow now = (none, cb)) ∨
    (cb.state = .circuitOpen ∧ cb.resetTimeout ≤ now - cb.openedAt ∧ cb.allow now =
      (none, { cb with probeInFlight := true, state := .circuitHalfOpen })) ∨
    (cb.state ≠ .circuitClosed ∧ cb.allow now = (some errCircuitOpen, cb) ∧
      (cb.state = .circuitOpen → now - cb.openedAt < cb.resetTimeout)) := by
  cases state : cb.state with
  | circuitClosed => exact .inl ⟨rfl, by simp only [allow, state]⟩
  | circuitOpen =>
    have down : cb.probeInFlight = false := by
      cases flag : cb.probeInFlight with
      | false => rfl
      | true =>
        have half := wired.mp flag
        rw [state] at half
        contradiction
    by_cases early : now - cb.openedAt < cb.resetTimeout
    · exact .inr (.inr ⟨nofun, by simp only [allow, state, if_pos early], fun _ => early⟩)
    · refine .inr (.inl ⟨rfl, Int.not_lt.mp early, ?_⟩)
      simp only [allow, state, if_neg early, down, Bool.false_eq_true, if_false]
  | circuitHalfOpen =>
    have up := wired.mpr state
    exact .inr (.inr ⟨nofun, by simp only [allow, state, up, if_true], nofun⟩)

theorem Wired.allow (wired : cb.Wired) (now : Time) : (cb.allow now).2.Wired := by
  rcases allow_cases wired now with ⟨_, same⟩ | ⟨_, _, same⟩ | ⟨_, same, _⟩
  · rw [same]
    exact wired
  · rw [same]
    exact ⟨fun _ => rfl, fun _ => rfl⟩
  · rw [same]
    exact wired

theorem Wired.recordSuccess (wired : cb.Wired) : cb.recordSuccess.Wired := by
  unfold CircuitBreaker.recordSuccess
  split
  · exact ⟨nofun, nofun⟩
  · exact wired

theorem Wired.recordFailure (wired : cb.Wired) (now : Time) : (cb.recordFailure now).Wired := by
  have down : cb.state ≠ .circuitHalfOpen → cb.probeInFlight = false := by
    intro other
    by_contra up
    exact other (wired.mp (by simpa using up))
  unfold CircuitBreaker.recordFailure
  split
  · exact ⟨nofun, nofun⟩
  · rename_i state
    split
    · have flag := down (by rw [state]; nofun)
      simp [Wired, flag]
    · exact wired
  · exact wired

/-- Recording a result decides a half-open breaker. -/
theorem recordSuccess_state : cb.recordSuccess.state =
    if cb.state = .circuitHalfOpen then .circuitClosed else cb.state := by
  unfold CircuitBreaker.recordSuccess
  cases state : cb.state <;> simp

theorem recordFailure_state (now : Time) : (cb.recordFailure now).state =
    if cb.state = .circuitClosed ∧ cb.failures + 1 < cb.threshold then .circuitClosed
    else .circuitOpen := by
  unfold CircuitBreaker.recordFailure
  cases state : cb.state with
  | circuitClosed =>
    by_cases few : cb.failures + 1 < cb.threshold
    · have less : ¬ cb.threshold ≤ cb.failures + 1 := by omega
      simp [few, less]
    · have most : cb.threshold ≤ cb.failures + 1 := by omega
      simp [few, most]
  | circuitOpen => simp [state]
  | circuitHalfOpen => simp

end CircuitBreaker
end KDrive.S3
