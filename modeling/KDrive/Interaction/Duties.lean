import KDrive.Interaction.Interleaving

/-! Obligations that calls take over. A request opens an obligation in the world and its
caller owes another request that settles it; as long as every caller that owes one gets to
make it, whenever the obligation is open some call is still on its way to settle it. -/
namespace Interaction
variable {I : Interface} {W Op α β : Type}

/-- The program makes a request that settles before it returns, whatever the admitted
replies until then. -/
def Owes (M : Machine I W Op α) (settles : I.Request → Prop) (op : Op) :
    Program I β → History I → Prop
  | .ret _, _ => False
  | .ask q next, history => settles q ∨ ∀ w reply, M.admits op history w q reply →
      Owes M settles op (next reply) (history ++ [⟨q, reply⟩])

/-- Wherever the program opens an obligation, it owes the settling request from there. -/
def Dutiful (M : Machine I W Op α) (settles : I.Request → Prop)
    (opens : (q : I.Request) → I.Reply q → Prop) (op : Op) : Program I β → History I → Prop
  | .ret _, _ => True
  | .ask q next, history => ∀ w reply, M.admits op history w q reply →
      (opens q reply → Owes M settles op (next reply) (history ++ [⟨q, reply⟩])) ∧
        Dutiful M settles opens op (next reply) (history ++ [⟨q, reply⟩])

variable {M : Machine I W Op α} {settles : I.Request → Prop}
  {opens : (q : I.Request) → I.Reply q → Prop} {op : Op} {p : Program I β}

theorem Owes.bind {f : β → Program I γ} (owes : Owes M settles op p history) :
    Owes M settles op (p >>= f) history := by
  induction p generalizing history with
  | ret value => exact owes.elim
  | ask q next ih =>
    rcases owes with paid | later
    · exact .inl paid
    · exact .inr fun w reply admitted => ih reply (later w reply admitted)

theorem Dutiful.bind {f : β → Program I γ} (dutiful : Dutiful M settles opens op p history)
    (rest : ∀ value history, Dutiful M settles opens op (f value) history) :
    Dutiful M settles opens op (p >>= f) history := by
  induction p generalizing history with
  | ret value => exact rest value history
  | ask q next ih =>
    intro w reply admitted
    obtain ⟨opening, later⟩ := dutiful w reply admitted
    exact ⟨fun opened => (opening opened).bind, ih reply later⟩

/-- A program none of whose requests opens anything. -/
def Plain (opens : (q : I.Request) → I.Reply q → Prop) : Program I β → Prop
  | .ret _ => True
  | .ask q next => ∀ reply, ¬ opens q reply ∧ Plain opens (next reply)

theorem Plain.dutiful (plain : Plain opens p) (history : History I) :
    Dutiful M settles opens op p history := by
  induction p generalizing history with
  | ret value => trivial
  | ask q next ih =>
    intro w reply _
    obtain ⟨closed, rest⟩ := plain reply
    exact ⟨fun opened => absurd opened closed, ih reply rest _⟩

/-- When an obligation is open, and how requests open and settle it. -/
structure Obligation (M : Machine I W Op α) (settles : I.Request → Prop)
    (opens : (q : I.Request) → I.Reply q → Prop) (due : W → Prop) : Prop where
  bodies : ∀ op, Dutiful M settles opens op (M.body op) []
  settled : ∀ {op w q reply w'}, settles q → M.handler op w q reply w' → ¬ due w'
  opened : ∀ {op w q reply w'}, M.handler op w q reply w' → due w' → due w ∨ opens q reply
  starts : ∀ {w op w'}, M.starts w op w' → due w' → due w
  environment : ∀ {w w'}, M.environment w w' → due w' → due w

/-- Every call does its duty, and an open obligation has a call that owes. -/
structure Covered (M : Machine I W Op α) (settles : I.Request → Prop)
    (opens : (q : I.Request) → I.Reply q → Prop) (due : W → Prop) (s : System I W Op α) :
    Prop where
  dutiful : ∀ t ∈ s.threads, Dutiful M settles opens t.op t.program t.history
  owed : due s.world → ∃ t ∈ s.threads, Owes M settles t.op t.program t.history

variable {due : W → Prop}

variable (duty : Obligation M settles opens due)
include duty

theorem Obligation.step (covered : Covered M settles opens due s) (step : M.Step s t) :
    Covered M settles opens due t := by
  obtain ⟨dutiful, owed⟩ := covered
  cases step with
  | @start w op w' threads started =>
    refine ⟨fun t member => ?_, fun isDue => ?_⟩
    · rcases List.mem_append.mp member with old | new
      · exact dutiful t old
      · cases List.mem_singleton.mp new
        exact duty.bodies op
    · obtain ⟨t, member, owes⟩ := owed (duty.starts started isDue)
      exact ⟨t, List.mem_append_left _ member, owes⟩
  | environment change => exact ⟨dutiful, fun isDue => owed (duty.environment change isDue)⟩
  | @call op history w q reply w' before after next admitted served =>
    have caller := dutiful ⟨op, history, .ask q next⟩ (by simp)
    obtain ⟨opening, later⟩ := caller w reply admitted
    refine ⟨fun t member => ?_, fun isDue => ?_⟩
    · simp only [List.mem_append, List.mem_cons] at member
      rcases member with old | rfl | old
      · exact dutiful t (by simp [old])
      · exact later
      · exact dutiful t (by simp [old])
    · rcases duty.opened served isDue with already | opens
      · obtain ⟨t, member, owes⟩ := owed already
        simp only [List.mem_append, List.mem_cons] at member
        rcases member with old | rfl | old
        · exact ⟨t, by simp [old], owes⟩
        · -- The caller itself owes: this request settles, or it still does.
          rcases owes with settling | still
          · exact absurd isDue (duty.settled settling served)
          · exact ⟨_, List.mem_append_right _ List.mem_cons_self, still w reply admitted⟩
        · exact ⟨t, by simp [old], owes⟩
      · exact ⟨_, List.mem_append_right _ List.mem_cons_self, opening opens⟩

theorem Obligation.covered (initial : ¬ due w)
    (run : M.Reaches ⟨w, []⟩ s) : Covered M settles opens due s := by
  induction run with
  | refl => exact ⟨by simp, fun isDue => absurd isDue initial⟩
  | tail _ step ih => exact duty.step ih step

/-- Once every call has returned, nothing is due. -/
theorem Obligation.idle (initial : ¬ due w)
    (run : M.Reaches ⟨w, []⟩ s) (returned : ∀ t ∈ s.threads, ∃ value, t.program = .ret value) :
    ¬ due s.world := by
  intro isDue
  obtain ⟨t, member, owes⟩ := (duty.covered initial run).owed isDue
  obtain ⟨value, ended⟩ := returned t member
  rw [ended] at owes
  exact owes

end Interaction
