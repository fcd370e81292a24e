import Mathlib.Logic.Basic

/-! Programs that only act through requests. A program is a finite tree: it has
returned, or it has issued one request and continues with whatever is replied.
What a request does is said by a handler over an arbitrary world, so one program
text has a sequential meaning, an interrupted meaning (a crash between two
requests) and, in `Interleaving`, a concurrent one. -/
namespace Interaction

structure Interface where
  Request : Type
  Reply : Request → Type

inductive Program (I : Interface) (α : Type) where
  | ret (value : α)
  | ask (request : I.Request) (next : I.Reply request → Program I α)

namespace Program
variable {I : Interface} {α β : Type}

def bind : Program I α → (α → Program I β) → Program I β
  | .ret value, f => f value
  | .ask request next, f => .ask request (fun reply => (next reply).bind f)

instance : Monad (Program I) where
  pure := .ret
  bind := bind

def request (q : I.Request) : Program I (I.Reply q) := .ask q .ret

@[simp] theorem pure_eq (value : α) : (pure value : Program I α) = .ret value := rfl

@[simp] theorem ret_bind (value : α) (f : α → Program I β) : (ret value >>= f) = f value := rfl

@[simp] theorem ask_bind (q : I.Request) (next : I.Reply q → Program I α) (f : α → Program I β) :
    (ask q next >>= f) = .ask q (fun reply => next reply >>= f) := rfl

end Program

/-- What a world may reply to a request, and the world it leaves. A request no
reply is related to blocks. -/
abbrev Handler (I : Interface) (W : Type) := W → (q : I.Request) → I.Reply q → W → Prop

variable {I : Interface} {W α β : Type} {H : Handler I W}

/-- The program ran alone from the first world to its return. -/
inductive Runs (H : Handler I W) : W → Program I α → α → W → Prop where
  | ret : Runs H w (.ret value) value w
  | ask : H w q reply w₁ → Runs H w₁ (next reply) value w₂ → Runs H w (.ask q next) value w₂

/-- The program ran alone and was cut off after some of its requests. -/
inductive Interrupted (H : Handler I W) : W → Program I α → W → Prop where
  | stop : Interrupted H w p w
  | ask : H w q reply w₁ → Interrupted H w₁ (next reply) w₂ → Interrupted H w (.ask q next) w₂

theorem Runs.bind {p : Program I α} {f : α → Program I β}
    (first : Runs H w p value w₁) (second : Runs H w₁ (f value) result w₂) :
    Runs H w (p >>= f) result w₂ := by
  induction first with
  | ret => exact second
  | ask step _ ih => exact .ask step (ih second)

theorem Runs.of_bind {p : Program I α} {f : α → Program I β}
    (run : Runs H w (p >>= f) result w₂) :
    ∃ value w₁, Runs H w p value w₁ ∧ Runs H w₁ (f value) result w₂ := by
  induction p generalizing w with
  | ret value => exact ⟨value, w, .ret, run⟩
  | ask q next ih =>
    cases run with
    | ask step rest =>
      obtain ⟨value, w₁, first, second⟩ := ih _ rest
      exact ⟨value, w₁, .ask step first, second⟩

/-- What every answer leaves true, a run leaves true. -/
theorem Runs.keeps {R : W → W → Prop} {p : Program I α} (refl : ∀ w, R w w)
    (trans : ∀ {a b c}, R a b → R b c → R a c) (step : ∀ {w q reply w'}, H w q reply w' → R w w')
    (run : Runs H w p value w') : R w w' := by
  induction run with
  | ret => exact refl _
  | ask served _ ih => exact trans (step served) ih

theorem Runs.mono {H' : Handler I W} {p : Program I α}
    (wider : ∀ {w q reply w'}, H w q reply w' → H' w q reply w') (run : Runs H w p value w') :
    Runs H' w p value w' := by
  induction run with
  | ret => exact .ret
  | ask served _ ih => exact .ask (wider served) ih

/-- Where every request is answered, every program returns. -/
theorem exists_runs (total : ∀ w q, ∃ reply w', H w q reply w') (p : Program I α) (w : W) :
    ∃ value w', Runs H w p value w' := by
  induction p generalizing w with
  | ret value => exact ⟨value, w, .ret⟩
  | ask q next ih =>
    obtain ⟨reply, w₁, served⟩ := total w q
    obtain ⟨value, w₂, rest⟩ := ih reply w₁
    exact ⟨value, w₂, .ask served rest⟩

/-- A handler that answers by computation; `none` means the request blocks. -/
abbrev Executor (I : Interface) (W : Type) := W → (q : I.Request) → Option (I.Reply q × W)

def Executor.graph (E : Executor I W) : Handler I W := fun w q reply w' => E w q = some (reply, w')

def Program.run (E : Executor I W) : Program I α → W → Option (α × W)
  | .ret value, w => some (value, w)
  | .ask q next, w =>
    match E w q with
    | none => none
    | some (reply, w₁) => (next reply).run E w₁

theorem run_bind (E : Executor I W) (p : Program I α) (f : α → Program I β) (w : W) :
    (p >>= f).run E w = (p.run E w).bind fun r => (f r.1).run E r.2 := by
  induction p generalizing w with
  | ret value => rfl
  | ask q next ih =>
    simp only [Program.ask_bind, Program.run]
    cases E w q with
    | none => rfl
    | some answer => exact ih answer.1 answer.2

theorem run_request {E : Executor I W} {q : I.Request} {reply : I.Reply q}
    {f : I.Reply q → Program I α} (served : E w q = some (reply, w')) :
    (Program.request q >>= f).run E w = (f reply).run E w' := by
  simp only [Program.request, Program.ask_bind, Program.ret_bind, Program.run, served]

theorem runs_iff_run (E : Executor I W) (p : Program I α) (w w' : W) (value : α) :
    Runs E.graph w p value w' ↔ p.run E w = some (value, w') := by
  induction p generalizing w with
  | ret v =>
    constructor
    · intro run; cases run; rfl
    · intro ran
      simp only [Program.run, Option.some.injEq, Prod.mk.injEq] at ran
      obtain ⟨rfl, rfl⟩ := ran
      exact .ret
  | ask q next ih =>
    constructor
    · intro run
      cases run with
      | ask step rest =>
        simp only [Executor.graph] at step
        simp only [Program.run, step]
        exact (ih _ _).mp rest
    · intro ran
      simp only [Program.run] at ran
      cases step : E w q with
      | none => simp only [step] at ran; contradiction
      | some answer =>
        simp only [step] at ran
        exact .ask step ((ih _ _).mpr ran)

end Interaction
