import KDrive.Interaction.Halting
import Mathlib.Algebra.BigOperators.Group.List.Basic
import Mathlib.Algebra.Order.Ring.Nat

/-! A crew of workers over a list of jobs. One goroutine puts the jobs into a channel that
holds them all, closes it and then collects the answers; a worker takes jobs until the
channel is empty and closed; and when every worker is gone, another goroutine closes the
channel of the answers. A job that is taken after the cancellation is only passed over. -/
namespace Interaction
open Relation

/-- Both channels have room for every job. -/
structure Pool (J R : Type) where
  jobs : List J
  crew : Nat
  answer : J → R
  pass : J → R
  cancels : Bool
  staffed : 0 < crew

namespace Pool
variable {J R : Type}

inductive Worker (J R : Type) where
  | idle
  | holding (job : J)
  | working (job : J)
  | sending (result : R)
  | exited

def Worker.gone : Worker J R → Bool
  | .exited => true
  | _ => false

inductive Main (J : Type) where
  | feeding (rest : List J)
  | collecting
  | returned

/-- The jobs that were begun and those that were passed over are kept in their order. -/
structure State (J R : Type) where
  main : Main J
  workers : List (Worker J R)
  workCh : List J := []
  resultCh : List R := []
  resultsClosed : Bool := false
  collected : List R := []
  cancelled : Bool := false
  worked : List J := []
  passed : List J := []

def start (P : Pool J R) : State J R :=
  { main := .feeding P.jobs, workers := List.replicate P.crew .idle }

inductive Step (P : Pool J R) (s : State J R) : State J R → Prop where
  | feed (main : s.main = .feeding (job :: rest)) (room : s.workCh.length < P.jobs.length) :
      Step P s { s with main := .feeding rest, workCh := s.workCh ++ [job] }
  | close (main : s.main = .feeding []) : Step P s { s with main := .collecting }
  | take (who : s.workers = before ++ .idle :: after) (queued : s.workCh = job :: rest) :
      Step P s { s with workCh := rest, workers := before ++ .holding job :: after }
  | exit (who : s.workers = before ++ .idle :: after) (empty : s.workCh = [])
      (closed : ∀ rest, s.main ≠ .feeding rest) :
      Step P s { s with workers := before ++ .exited :: after }
  | pass (who : s.workers = before ++ .holding job :: after) (cancelled : s.cancelled = true) :
      Step P s { s with
        workers := before ++ .sending (P.pass job) :: after, passed := s.passed ++ [job] }
  | work (who : s.workers = before ++ .holding job :: after) (live : s.cancelled = false) :
      Step P s { s with
        workers := before ++ .working job :: after, worked := s.worked ++ [job] }
  | answer (who : s.workers = before ++ .working job :: after) :
      Step P s { s with workers := before ++ .sending (P.answer job) :: after }
  | send (who : s.workers = before ++ .sending result :: after)
      (room : s.resultCh.length < P.jobs.length) :
      Step P s { s with
        workers := before ++ .idle :: after, resultCh := s.resultCh ++ [result] }
  | closeResults (gone : s.workers.all Worker.gone = true) (closed : ∀ rest, s.main ≠ .feeding rest)
      (notYet : s.resultsClosed = false) : Step P s { s with resultsClosed := true }
  | collect (main : s.main = .collecting) (queued : s.resultCh = result :: rest) :
      Step P s { s with resultCh := rest, collected := s.collected ++ [result] }
  | return (main : s.main = .collecting) (empty : s.resultCh = [])
      (closed : s.resultsClosed = true) : Step P s { s with main := .returned }
  | cancel (may : P.cancels = true) (live : s.cancelled = false) :
      Step P s { s with cancelled := true }

/-- Lists that weigh the same on every scale have the same entries. -/
theorem perm_of_sum {first second : List J}
    (same : ∀ f : J → Nat, (first.map f).sum = (second.map f).sum) : first.Perm second := by
  classical
  have counted (x : J) (xs : List J) : (xs.map fun y => if y = x then 1 else 0).sum = xs.count x := by
    induction xs with
    | nil => rfl
    | cons y rest ih => simp [ih, List.count_cons, Nat.add_comm]
  refine List.perm_iff_count.mpr fun x => ?_
  rw [← counted, ← counted, same]

variable {P : Pool J R} {s t : State J R}

def Main.left : Main J → List J
  | .feeding rest => rest
  | _ => []

/-- The weight of a job that has not been begun or passed over. -/
def Worker.held (f : J → Nat) : Worker J R → Nat
  | .holding job => f job
  | _ => 0

/-- The weight of an answer that is still to be sent. -/
def Worker.due (answer : J → R) (g : R → Nat) : Worker J R → Nat
  | .working job => g (answer job)
  | .sending result => g result
  | _ => 0

/-- The jobs, wherever they are. -/
def State.load (s : State J R) (f : J → Nat) : Nat :=
  ((s.main.left ++ s.workCh ++ s.worked ++ s.passed).map f).sum +
    (s.workers.map (Worker.held f)).sum

/-- The answers, wherever they are. -/
def given (P : Pool J R) (s : State J R) (g : R → Nat) : Nat :=
  (s.workers.map (Worker.due P.answer g)).sum + ((s.resultCh ++ s.collected).map g).sum

/-- The answers there are to be for the jobs that were begun or passed over. -/
def asked (P : Pool J R) (s : State J R) (g : R → Nat) : Nat :=
  ((s.worked.map P.answer ++ s.passed.map P.pass).map g).sum

structure Sound (P : Pool J R) (s : State J R) : Prop where
  jobs : ∀ f, s.load f = (P.jobs.map f).sum
  answers : ∀ g, P.given s g = P.asked s g
  live : P.cancels = false → s.cancelled = false ∧ s.passed = []
  crew : s.workers.length = P.crew
  exited : .exited ∈ s.workers → s.workCh = [] ∧ ∀ rest, s.main ≠ .feeding rest
  closed : s.resultsClosed = true → s.workers.all Worker.gone = true
  returned : s.main = .returned → s.resultCh = [] ∧ s.resultsClosed = true

section Invariant

theorem sound_start (P : Pool J R) : P.Sound P.start where
  jobs f := by simp [start, State.load, Main.left, Worker.held]
  answers g := by simp [start, given, asked, Worker.due]
  live _ := ⟨rfl, rfl⟩
  crew := by simp [start]
  exited gone := by simp [start] at gone
  closed impossible := by contradiction
  returned impossible := by contradiction

theorem load_step (step : P.Step s t) (f : J → Nat) : t.load f = s.load f := by
  cases step <;> simp [*, State.load, Main.left, Worker.held] <;> omega

theorem answers_step (step : P.Step s t) (g : R → Nat) :
    P.given t g + P.asked s g = P.given s g + P.asked t g := by
  cases step <;> simp [*, given, asked, Worker.due] <;> omega

def cost : Worker J R → Nat
  | .holding _ => 5
  | .working _ => 4
  | .sending _ => 3
  | .idle => 1
  | .exited => 0

def Main.cost : Main J → Nat
  | .feeding rest => 2 + 6 * rest.length
  | .collecting => 1
  | .returned => 0

def State.measure (s : State J R) : Nat :=
  s.main.cost + 5 * s.workCh.length + (s.workers.map cost).sum + s.resultCh.length +
    (!s.resultsClosed).toNat + (!s.cancelled).toNat

theorem measure_step (step : P.Step s t) : t.measure < s.measure := by
  cases step <;> simp [*, State.measure, Main.cost, cost] <;> omega

theorem Sound.step (sound : P.Sound s) (step : P.Step s t) : P.Sound t where
  jobs f := (load_step step f).trans (sound.jobs f)
  answers g := by
    have before := sound.answers g
    have moved := answers_step step g
    omega
  live never := by
    obtain ⟨live, none⟩ := sound.live never
    cases step <;> simp_all
  crew := by
    rw [← sound.crew]
    cases step <;> simp [*]
  exited gone := by
    have before := sound.exited
    cases step <;> simp_all
  closed gone := by
    have before := sound.closed
    cases step <;> simp_all [Worker.gone]
  returned gone := by
    have before := sound.returned
    have closed := sound.closed
    cases step <;> simp_all [Worker.gone]

end Invariant

/-- A worker that has not gone can move. -/
theorem exists_move (sound : P.Sound s) (closed : ∀ rest, s.main ≠ .feeding rest)
    (who : s.workers = before ++ w :: after) (there : w.gone = false) : ∃ t, P.Step s t := by
  cases w with
  | idle =>
    cases queued : s.workCh with
    | nil => exact ⟨_, .exit who queued closed⟩
    | cons job rest => exact ⟨_, .take who queued⟩
  | holding job =>
    cases live : s.cancelled with
    | false => exact ⟨_, .work who live⟩
    | true => exact ⟨_, .pass who live⟩
  | working job => exact ⟨_, .answer who⟩
  | sending result =>
    -- The answer that waits here is for one of the jobs, and so is every one in the channel.
    have jobs := sound.jobs fun _ => 1
    have answers := sound.answers fun _ => 1
    simp [State.load, given, asked, who, Worker.due, Function.comp_def] at jobs answers
    exact ⟨_, .send who (by omega)⟩
  | exited => contradiction

/-- A run stops only when the answers have been collected and every worker has gone. -/
theorem Sound.ended (sound : P.Sound s) (stuck : ∀ t, ¬ P.Step s t) :
    s.main = .returned := by
  have stays : ¬ ∃ t, P.Step s t := fun ⟨t, step⟩ => stuck t step
  cases main : s.main with
  | returned => rfl
  | feeding rest =>
    cases rest with
    | nil => exact absurd (.close main) (stuck _)
    | cons job rest =>
      have jobs := sound.jobs fun _ => 1
      simp [State.load, main, Main.left] at jobs
      exact absurd (.feed main (by omega)) (stuck _)
  | collecting =>
    have closed : ∀ rest, s.main ≠ .feeding rest := by simp [main]
    cases queued : s.resultCh with
    | cons result rest => exact absurd (.collect main queued) (stuck _)
    | nil =>
      cases done : s.resultsClosed with
      | true => exact absurd (.return main queued done) (stuck _)
      | false =>
        by_cases gone : s.workers.all Worker.gone = true
        · exact absurd (.closeResults gone closed done) (stuck _)
        · simp only [List.all_eq_true, not_forall, Bool.not_eq_true] at gone
          obtain ⟨w, member, there⟩ := gone
          obtain ⟨before, after, who⟩ := List.append_of_mem member
          exact absurd (exists_move sound closed who there) stays

/-- What a run comes to: every job is begun or passed over once, and its one answer is
collected. -/
structure Settled (P : Pool J R) (t : State J R) : Prop where
  returned : t.main = .returned
  gone : t.workers.all Worker.gone = true
  jobs : (t.worked ++ t.passed).Perm P.jobs
  answers : t.collected.Perm (t.worked.map P.answer ++ t.passed.map P.pass)
  live : P.cancels = false → t.passed = []

theorem sound_reaches (run : ReflTransGen P.Step P.start s) : P.Sound s :=
  reaches_invariant P.Sound Sound.step run P.sound_start

theorem settled_of_ends (ended : Ends P.Step P.start t) : P.Settled t := by
  have sound := sound_reaches ended.1
  have returned := sound.ended ended.2
  obtain ⟨empty, closed⟩ := sound.returned returned
  have gone := sound.closed closed
  have all : ∀ w ∈ t.workers, w = .exited := by
    intro w member
    have := List.all_eq_true.mp gone w member
    cases w <;> first | rfl | contradiction
  have crew : t.workers = List.replicate P.crew .exited :=
    List.eq_replicate_iff.mpr ⟨sound.crew, all⟩
  obtain ⟨queue, -⟩ := sound.exited (by simp [crew, P.staffed.ne'])
  refine ⟨returned, gone, perm_of_sum fun f => ?_, perm_of_sum fun g => ?_, fun never =>
    (sound.live never).2⟩
  · have jobs := sound.jobs f
    simpa [State.load, returned, Main.left, queue, crew, Worker.held] using jobs
  · have answers := sound.answers g
    simpa [given, asked, empty, crew, Worker.due] using answers

theorem halts (P : Pool J R) : Halts P.Step P.start :=
  halts_of_measure State.measure (fun _ _ => measure_step) _

theorem exists_settled (P : Pool J R) : ∃ t, Ends P.Step P.start t :=
  exists_ends State.measure (fun _ _ => measure_step) _

end Pool
end Interaction
