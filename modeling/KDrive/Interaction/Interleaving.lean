import KDrive.Interaction.Program
import Mathlib.Logic.Relation

/-! Any number of programs over one world, interleaved request by request, and
rely/guarantee reasoning about them. A program assures its postcondition when it
keeps the invariant at each of its own requests and tolerates every change the
rely relation permits between two of them; programs that all assure theirs can be
put together without looking at each other. -/
namespace Interaction

structure Event (I : Interface) where
  request : I.Request
  reply : I.Reply request

/-- The requests a call has made so far, oldest first, with the replies it got. -/
abbrev History (I : Interface) := List (Event I)

structure Thread (I : Interface) (Op α : Type) where
  op : Op
  history : History I
  program : Program I α

structure System (I : Interface) (W Op α : Type) where
  world : W
  threads : List (Thread I Op α)

/-- What can happen: how a call's requests are served, which calls may start, what the
surroundings may do, and (`admits`) which requests a run is restricted to. -/
structure Machine (I : Interface) (W Op α : Type) where
  handler : Op → Handler I W
  body : Op → Program I α
  starts : W → Op → W → Prop
  environment : W → W → Prop
  admits : Op → History I → W → (q : I.Request) → I.Reply q → Prop

namespace Machine
variable {I : Interface} {W Op α β : Type}

inductive Step (M : Machine I W Op α) : System I W Op α → System I W Op α → Prop where
  | start : M.starts w op w' → Step M ⟨w, threads⟩ ⟨w', threads ++ [⟨op, [], M.body op⟩]⟩
  | call : M.admits op history w q reply → M.handler op w q reply w' →
      Step M ⟨w, before ++ ⟨op, history, .ask q next⟩ :: after⟩
        ⟨w', before ++ ⟨op, history ++ [⟨q, reply⟩], next reply⟩ :: after⟩
  | environment : M.environment w w' → Step M ⟨w, threads⟩ ⟨w', threads⟩

abbrev Reaches (M : Machine I W Op α) := Relation.ReflTransGen M.Step

/-- Whatever can happen in `M` can happen in `M'`. -/
structure Within (M M' : Machine I W Op α) : Prop where
  handler : ∀ {op w q reply w'}, M.handler op w q reply w' → M'.handler op w q reply w'
  body : M.body = M'.body
  starts : ∀ {w op w'}, M.starts w op w' → M'.starts w op w'
  environment : ∀ {w w'}, M.environment w w' → M'.environment w w'
  admits : ∀ {op history w q reply}, M.admits op history w q reply → M'.admits op history w q reply

theorem Within.step {M M' : Machine I W Op α} (within : M.Within M') (step : M.Step s t) :
    M'.Step s t := by
  cases step with
  | start started =>
    rw [within.body]
    exact .start (within.starts started)
  | call admitted served => exact .call (within.admits admitted) (within.handler served)
  | environment change => exact .environment (within.environment change)

theorem Within.reaches {M M' : Machine I W Op α} (within : M.Within M') (run : M.Reaches s t) :
    M'.Reaches s t :=
  Relation.ReflTransGen.mono (fun _ _ => within.step) _ _ run

/-- What every request, every start and the surroundings keep, a run keeps. -/
theorem reaches_keeps {M : Machine I W Op α} (kept : W → Prop)
    (starts : ∀ {a op b}, kept a → M.starts a op b → kept b)
    (served : ∀ {a op q reply b}, kept a → M.handler op a q reply b → kept b)
    (environment : ∀ {a b}, kept a → M.environment a b → kept b)
    (initial : kept s.world) (run : M.Reaches s t) : kept t.world := by
  induction run with
  | refl => exact initial
  | tail _ step ih =>
    cases step with
    | start started => exact starts ih started
    | call _ answered => exact served ih answered
    | environment change => exact environment ih change

end Machine

/-- `rely` is what others may do between two requests of a program, `guarantee`
what the program itself does at one. -/
structure Discipline (W : Type) where
  invariant : W → Prop
  rely : W → W → Prop
  guarantee : W → W → Prop

/-- Rely is a preorder, and it covers what any program does. -/
structure Discipline.Coherent {W : Type} (D : Discipline W) : Prop where
  refl : ∀ w, D.rely w w
  trans : ∀ {a b c}, D.rely a b → D.rely b c → D.rely a c
  covers : ∀ {a b}, D.invariant a → D.guarantee a b → D.rely a b

section
variable {I : Interface} {W Op α β : Type}
variable (M : Machine I W Op α) (D : Discipline W)

/-- From `w` on, and however others interfere within the rely relation, the
program keeps invariant and guarantee and returns only into its postcondition. -/
def Assures (op : Op) (post : History I → β → W → Prop) : Program I β → History I → W → Prop
  | .ret value, history, w => ∀ w', D.rely w w' → D.invariant w' → post history value w'
  | .ask q next, history, w => ∀ w₁, D.rely w w₁ → D.invariant w₁ → ∀ reply w₂,
      M.admits op history w₁ q reply → M.handler op w₁ q reply w₂ →
      D.invariant w₂ ∧ D.guarantee w₁ w₂ ∧
        Assures op post (next reply) (history ++ [⟨q, reply⟩]) w₂

variable {M D} {op : Op} {p : Program I β}

theorem Assures.stable (trans : ∀ {a b c}, D.rely a b → D.rely b c → D.rely a c)
    (assures : Assures M D op post p history w) (rely : D.rely w w') :
    Assures M D op post p history w' := by
  cases p with
  | ret value => exact fun w₁ later => assures w₁ (trans rely later)
  | ask q next => exact fun w₁ later => assures w₁ (trans rely later)

theorem Assures.mono {post stronger : History I → β → W → Prop}
    (implies : ∀ history value w, D.invariant w → stronger history value w → post history value w)
    (assures : Assures M D op stronger p history w) : Assures M D op post p history w := by
  induction p generalizing history w with
  | ret value => exact fun w' rely inv => implies _ _ _ inv (assures w' rely inv)
  | ask q next ih =>
    intro w₁ rely inv reply w₂ admitted step
    obtain ⟨kept, guaranteed, rest⟩ := assures w₁ rely inv reply w₂ admitted step
    exact ⟨kept, guaranteed, ih _ rest⟩

/-- A program of which nothing is expected, where its every request keeps invariant and
guarantee. -/
theorem Assures.unconcerned
    (keeps : ∀ {history a q reply b}, D.invariant a → M.admits op history a q reply →
      M.handler op a q reply b → D.invariant b ∧ D.guarantee a b)
    {post : History I → β → W → Prop} (nothing : ∀ history value w, post history value w) :
    Assures M D op post p history w := by
  induction p generalizing history w with
  | ret value => exact fun w' _ _ => nothing history value w'
  | ask q next ih =>
    intro w₁ _ inv reply w₂ admitted served
    obtain ⟨kept, guaranteed⟩ := keeps inv admitted served
    exact ⟨kept, guaranteed, ih reply⟩

/-- Sequencing: the first program's postcondition is that the second one assures
the rest. -/
theorem Assures.bind {f : β → Program I γ} {post : History I → γ → W → Prop}
    (refl : ∀ w, D.rely w w) (initial : D.invariant w)
    (assures : Assures M D op (fun history value w => Assures M D op post (f value) history w)
      p history w) :
    Assures M D op post (p >>= f) history w := by
  induction p generalizing history w with
  | ret value => exact assures w (refl w) initial
  | ask q next ih =>
    intro w₁ rely inv reply w₂ admitted step
    obtain ⟨kept, guaranteed, rest⟩ := assures w₁ rely inv reply w₂ admitted step
    exact ⟨kept, guaranteed, ih _ kept rest⟩

theorem Assures.map {f : β → γ} {post : History I → γ → W → Prop}
    (assures : Assures M D op (fun history value w => post history (f value) w) p history w) :
    Assures M D op post (p >>= fun value => .ret (f value)) history w := by
  induction p generalizing history w with
  | ret value => exact assures
  | ask q next ih =>
    intro w₁ rely inv reply w₂ admitted step
    obtain ⟨kept, guaranteed, rest⟩ := assures w₁ rely inv reply w₂ admitted step
    exact ⟨kept, guaranteed, ih _ rest⟩

/-- What a program and its surroundings did meanwhile stays within the rely
relation. -/
theorem Assures.frame {post : History I → β → W → Prop} (coherent : D.Coherent)
    (assures : Assures M D op post p history w) :
    Assures M D op (fun history value w' => D.rely w w' ∧ post history value w') p history w := by
  suffices general : ∀ start, D.rely start w →
      Assures M D op (fun history value w' => D.rely start w' ∧ post history value w') p history w from
    general w (coherent.refl w)
  induction p generalizing history w with
  | ret value =>
    intro start before w' rely inv
    exact ⟨coherent.trans before rely, assures w' rely inv⟩
  | ask q next ih =>
    intro start before w₁ rely inv reply w₂ admitted step
    obtain ⟨kept, guaranteed, rest⟩ := assures w₁ rely inv reply w₂ admitted step
    have before := coherent.trans before rely
    exact ⟨kept, guaranteed, ih reply rest start
      (coherent.trans before (coherent.covers inv guaranteed))⟩

theorem Assures.extends {post : History I → β → W → Prop}
    (assures : Assures M D op post p history w) :
    Assures M D op (fun full value w' => history <+: full ∧ post full value w') p history w := by
  induction p generalizing history w with
  | ret value => exact fun w' rely inv => ⟨List.prefix_rfl, assures w' rely inv⟩
  | ask q next ih =>
    intro w₁ rely inv reply w₂ admitted step
    obtain ⟨kept, guaranteed, rest⟩ := assures w₁ rely inv reply w₂ admitted step
    refine ⟨kept, guaranteed, Assures.mono ?_ (ih reply rest)⟩
    rintro full value w' - ⟨longer, holds⟩
    exact ⟨(List.prefix_append _ _).trans longer, holds⟩

end

section
variable {I : Interface} {W Op α : Type} (M : Machine I W Op α) (D : Discipline W)

/-- The obligations that put programs together: rely also covers what the
surroundings do, and every call that may start assures its own postcondition from
the world it starts in. -/
structure Composes (post : Op → History I → α → W → Prop) : Prop extends D.Coherent where
  environment : ∀ {a b}, D.invariant a → M.environment a b → D.invariant b ∧ D.rely a b
  starts : ∀ {a op b}, D.invariant a → M.starts a op b → D.invariant b ∧ D.rely a b ∧
    Assures M D op (post op) (M.body op) [] b

variable {M D}

/-- Invariant and every call's remaining obligation, in one state. -/
def Sound (M : Machine I W Op α) (D : Discipline W) (post : Op → History I → α → W → Prop)
    (s : System I W Op α) : Prop :=
  D.invariant s.world ∧
    ∀ t ∈ s.threads, Assures M D t.op (post t.op) t.program t.history s.world

variable {post : Op → History I → α → W → Prop} (composes : Composes M D post)
include composes

theorem Composes.step (sound : Sound M D post s) (step : M.Step s t) : Sound M D post t := by
  obtain ⟨inv, threads⟩ := sound
  cases step with
  | start started =>
    obtain ⟨kept, rely, assures⟩ := composes.starts inv started
    refine ⟨kept, fun t member => ?_⟩
    rcases List.mem_append.mp member with old | new
    · exact (threads t old).stable composes.trans rely
    · obtain rfl := List.mem_singleton.mp new
      exact assures
  | environment change =>
    obtain ⟨kept, rely⟩ := composes.environment inv change
    exact ⟨kept, fun t member => (threads t member).stable composes.trans rely⟩
  | @call op history w q reply w' before after next admitted served =>
    have caller := threads ⟨op, history, .ask q next⟩ (by simp)
    obtain ⟨kept, guaranteed, rest⟩ := caller w (composes.refl w) inv reply w' admitted served
    have rely := composes.covers inv guaranteed
    refine ⟨kept, fun t member => ?_⟩
    simp only [List.mem_append, List.mem_cons] at member
    rcases member with old | rfl | old
    · exact (threads t (by simp [old])).stable composes.trans rely
    · exact rest
    · exact (threads t (by simp [old])).stable composes.trans rely

theorem Composes.step_rely
    (sound : Sound M D post s) (step : M.Step s t) : D.rely s.world t.world := by
  obtain ⟨inv, threads⟩ := sound
  cases step with
  | start started => exact (composes.starts inv started).2.1
  | environment change => exact (composes.environment inv change).2
  | @call op history w q reply w' before after next admitted served =>
    have caller := threads ⟨op, history, .ask q next⟩ (by simp)
    obtain ⟨-, guaranteed, -⟩ := caller w (composes.refl w) inv reply w' admitted served
    exact composes.covers inv guaranteed

theorem Composes.reaches (sound : Sound M D post s) (run : M.Reaches s t) : Sound M D post t := by
  induction run with
  | refl => exact sound
  | tail _ step ih => exact composes.step ih step

theorem Composes.reaches_rely
    (sound : Sound M D post s) (run : M.Reaches s t) : D.rely s.world t.world := by
  induction run with
  | refl => exact composes.refl _
  | tail earlier step ih =>
    exact composes.trans ih (composes.step_rely (composes.reaches sound earlier) step)

/-- Whatever has returned, in any state of any run, meets its postcondition in
the world of that state. -/
theorem Composes.returned (initial : D.invariant w) (run : M.Reaches ⟨w, []⟩ s)
    (member : ⟨op, history, .ret value⟩ ∈ s.threads) : post op history value s.world := by
  have sound := composes.reaches ⟨initial, by simp⟩ run
  exact sound.2 _ member _ (composes.refl _) sound.1

theorem Composes.invariant
    (initial : D.invariant w) (run : M.Reaches ⟨w, []⟩ s) : D.invariant s.world :=
  (composes.reaches ⟨initial, by simp⟩ run).1

end
end Interaction
