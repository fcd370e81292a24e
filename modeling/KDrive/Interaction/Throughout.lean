import KDrive.Interaction.Program

/-! Runs of one program in a world that may be cut off. `Throughout` says what holds
between any two of its requests, and so wherever a crash finds it, next to what holds
when it returns. -/
namespace Interaction
variable {I : Interface} {W α β : Type} {H : Handler I W}

/-- In every run from this world, each world on the way is `safe`, and the program
returns into `post`. -/
def Throughout (H : Handler I W) (safe : W → Prop) :
    Program I α → (α → W → Prop) → W → Prop
  | .ret value, post, w => safe w ∧ post value w
  | .ask q next, post, w =>
    safe w ∧ ∀ reply w', H w q reply w' → Throughout H safe (next reply) post w'

variable {safe : W → Prop} {p : Program I α} {post : α → W → Prop} {w w' : W}

section
variable (holds : Throughout H safe p post w)
include holds

theorem Throughout.here : safe w := by
  cases p with
  | ret => exact holds.1
  | ask => exact holds.1

theorem Throughout.interrupted (cut : Interrupted H w p w') : safe w' := by
  induction cut with
  | stop => exact holds.here
  | ask step _ ih => exact ih (holds.2 _ _ step)

theorem Throughout.runs (run : Runs H w p value w') : safe w' ∧ post value w' := by
  induction run with
  | ret => exact holds
  | ask step _ ih => exact ih (holds.2 _ _ step)

theorem Throughout.mono {weaker : W → Prop} {post' : α → W → Prop}
    (weakens : ∀ w, safe w → weaker w)
    (implies : ∀ value w, safe w → post value w → post' value w) :
    Throughout H weaker p post' w := by
  induction p generalizing w with
  | ret value => exact ⟨weakens w holds.1, implies value w holds.1 holds.2⟩
  | ask q next ih =>
    refine ⟨weakens w holds.1, ?_⟩
    intro reply w' step
    exact ih reply (holds.2 reply w' step)

end

theorem Throughout.bind {f : α → Program I β} {post' : β → W → Prop}
    (first : Throughout H safe p post w)
    (second : ∀ value w, safe w → post value w → Throughout H safe (f value) post' w) :
    Throughout H safe (p >>= f) post' w := by
  induction p generalizing w with
  | ret value => exact second value w first.1 first.2
  | ask q next ih =>
    refine ⟨first.1, ?_⟩
    intro reply w' step
    exact ih reply (first.2 reply w' step)

/-- The world after the first requests of a program. -/
def Program.cut (E : Executor I W) : Nat → Program I α → W → Option W
  | 0, _, w => some w
  | _ + 1, .ret _, w => some w
  | rounds + 1, .ask q next, w =>
    match E w q with
    | none => none
    | some (reply, w₁) => (next reply).cut E rounds w₁

/-- The run succeeds, and its value and the world it leaves pass the test. -/
def Program.returns (p : Program I (Except ε α)) (E : Executor I W) (w : W)
    (test : α → W → Bool) : Bool :=
  match p.run E w with
  | some (.ok value, w') => test value w'
  | _ => false

section Executors
variable {E : Executor I W} (allowed : ∀ {w q reply w'}, E w q = some (reply, w') → H w q reply w')
include allowed

theorem Program.run_runs (ran : p.run E w = some (value, w')) : Runs H w p value w' := by
  induction p generalizing w with
  | ret v =>
    cases ran
    exact .ret
  | ask q next ih =>
    simp only [Program.run] at ran
    split at ran
    · contradiction
    · rename_i reply w₁ step
      exact .ask (allowed step) (ih reply ran)

theorem Program.returns_runs {p : Program I (Except ε α)} {test : α → W → Bool}
    (returns : p.returns E w test = true) :
    ∃ value w', Runs H w p (.ok value) w' ∧ test value w' = true := by
  unfold Program.returns at returns
  split at returns
  · rename_i value w' ran
    exact ⟨value, w', run_runs allowed ran, returns⟩
  · contradiction

theorem Program.cut_interrupted {rounds : Nat} (ran : p.cut E rounds w = some w') :
    Interrupted H w p w' := by
  induction p generalizing w rounds with
  | ret v =>
    have same : w = w' := by cases rounds <;> exact Option.some.inj ran
    rw [same]
    exact .stop
  | ask q next ih =>
    cases rounds with
    | zero =>
      cases ran
      exact .stop
    | succ rounds =>
      simp only [Program.cut] at ran
      split at ran
      · contradiction
      · rename_i reply w₁ step
        exact .ask (allowed step) (ih reply ran)

end Executors

end Interaction
