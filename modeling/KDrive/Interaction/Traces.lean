import Mathlib.Logic.Basic

/-! Sequences of actions on a state, taken one by one as far as they can be. -/
namespace Interaction
variable {S A : Type}

def play (step : S → A → Option S) : S → List A → Option S
  | s, [] => some s
  | s, a :: rest => (step s a).bind fun s' => play step s' rest

/-- Every state the actions lead through, the first one included. -/
def Always (step : S → A → Option S) (P : S → Prop) : S → List A → Prop
  | s, [] => P s
  | s, a :: rest => P s ∧ ∀ s', step s a = some s' → Always step P s' rest

/-- Every action that is taken, with the state it is taken in. -/
def EachStep (step : S → A → Option S) (C : S → A → Prop) : S → List A → Prop
  | _, [] => True
  | s, a :: rest => ∀ s', step s a = some s' → C s a ∧ EachStep step C s' rest

variable {step : S → A → Option S} {P J : S → Prop} {C : S → A → Prop} {s s' : S}
  {actions : List A}

theorem Always.here (always : Always step P s actions) : P s := by
  cases actions with
  | nil => exact always
  | cons a rest => exact always.1

/-- What each step under a condition keeps holds as long as the steps meet it. -/
theorem always_of_eachStep (stays : ∀ {s a s'}, P s → C s a → step s a = some s' → P s')
    (holds : P s) (each : EachStep step C s actions) : Always step P s actions := by
  induction actions generalizing s with
  | nil => exact holds
  | cons a rest ih =>
    refine ⟨holds, fun s' taken => ?_⟩
    obtain ⟨met, later⟩ := each s' taken
    exact ih (stays holds met taken) later

theorem Always.imp (weaker : ∀ s, P s → J s) (always : Always step P s actions) :
    Always step J s actions := by
  induction actions generalizing s with
  | nil => exact weaker s always
  | cons a rest ih => exact ⟨weaker s always.1, fun s' taken => ih (always.2 s' taken)⟩

/-- A property that each step keeps exactly under a condition holds all the way exactly when
every step meets the condition. `J` is what every step keeps anyway. -/
theorem always_iff_eachStep (stays : ∀ {s a s'}, J s → step s a = some s' → J s')
    (exact : ∀ {s a s'}, J s → P s → step s a = some s' → (P s' ↔ C s a))
    (first : J s) (holds : P s) (actions : List A) :
    Always step P s actions ↔ EachStep step C s actions := by
  induction actions generalizing s with
  | nil => exact ⟨fun _ => trivial, fun _ => holds⟩
  | cons a rest ih =>
    constructor
    · rintro ⟨_, later⟩ s' taken
      have kept := (later s' taken).here
      exact ⟨(exact first holds taken).mp kept, (ih (stays first taken) kept).mp (later s' taken)⟩
    · intro each
      refine ⟨holds, fun s' taken => ?_⟩
      obtain ⟨met, later⟩ := each s' taken
      exact (ih (stays first taken) ((exact first holds taken).mpr met)).mpr later

end Interaction
