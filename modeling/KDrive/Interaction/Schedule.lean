import KDrive.Interaction.Interleaving

/-! Machines whose every ingredient computes, and schedules for them. A schedule
names each move; what it computes is a run of the machine, so a concrete
interleaving can be exhibited by evaluation. -/
namespace Interaction
variable {I : Interface} {W Op F E α : Type}

/-- `fault` resolves what a request does beyond its arguments, `change` what the
surroundings do. -/
structure Driver (I : Interface) (W Op F E : Type) where
  serve : Op → (fault : F) → Executor I W
  starts : W → Op → Option W
  change : (change : E) → W → Option W

abbrev Admission (I : Interface) (W Op : Type) :=
  Op → History I → W → (q : I.Request) → I.Reply q → Prop

/-- Only calls that `opens` names are ever started. -/
def Driver.machine (d : Driver I W Op F E) (body : Op → Program I α) (opens : Op → Prop)
    (admits : Admission I W Op) : Machine I W Op α where
  handler op w q reply w' := ∃ fault, d.serve op fault w q = some (reply, w')
  body := body
  starts w op w' := opens op ∧ d.starts w op = some w'
  environment w w' := ∃ change, d.change change w = some w'
  admits := admits

/-- Only what may be opened ever runs. -/
theorem Driver.machine_opened {d : Driver I W Op F E} {body : Op → Program I α} {opens : Op → Prop}
    {admits : Admission I W Op} (run : (d.machine body opens admits).Reaches ⟨w, []⟩ s) :
    ∀ t ∈ s.threads, opens t.op := by
  induction run with
  | refl => simp
  | tail _ step ih =>
    cases step with
    | start started =>
      intro t member
      rcases List.mem_append.mp member with old | new
      · exact ih t old
      · cases List.mem_singleton.mp new
        exact started.1
    | environment change => exact ih
    | @call op history _ q reply _ before after next _ _ =>
      intro t member
      rcases List.mem_append.mp member with old | later
      · exact ih t (List.mem_append_left _ old)
      · rcases List.mem_cons.mp later with rfl | old
        · exact ih ⟨op, history, .ask q next⟩ (by simp)
        · exact ih t (List.mem_append_right _ (List.mem_cons_of_mem _ old))

inductive Move (Op F E : Type) where
  | start (op : Op)
  | call (thread : Nat) (fault : F)
  | change (change : E)

/-- `checks` is the executable side of an admission. -/
def Driver.move (d : Driver I W Op F E) (body : Op → Program I α)
    (checks : Op → History I → W → (q : I.Request) → I.Reply q → Bool) :
    Move Op F E → System I W Op α → Option (System I W Op α)
  | .start op, s => (d.starts s.world op).map fun w => ⟨w, s.threads ++ [⟨op, [], body op⟩]⟩
  | .call i fault, s =>
    match s.threads[i]? with
    | some ⟨op, history, .ask q next⟩ =>
      match d.serve op fault s.world q with
      | some (reply, w) =>
        if checks op history s.world q reply then
          some ⟨w, s.threads.set i ⟨op, history ++ [⟨q, reply⟩], next reply⟩⟩
        else none
      | none => none
    | _ => none
  | .change c, s => (d.change c s.world).map fun w => ⟨w, s.threads⟩

def Driver.follow (d : Driver I W Op F E) (body : Op → Program I α)
    (checks : Op → History I → W → (q : I.Request) → I.Reply q → Bool) :
    List (Move Op F E) → System I W Op α → Option (System I W Op α)
  | [], s => some s
  | m :: rest, s => (d.move body checks m s).bind (d.follow body checks rest)

section
variable {d : Driver I W Op F E} {body : Op → Program I α} {opens : Op → Prop}
  {admits : Admission I W Op} {checks : Op → History I → W → (q : I.Request) → I.Reply q → Bool}
  (sound : ∀ op history w q reply, checks op history w q reply = true → admits op history w q reply)
include sound

theorem Driver.move_step (opened : ∀ op, m = .start op → opens op)
    (moved : d.move body checks m s = some t) : (d.machine body opens admits).Step s t := by
  cases m with
  | start op =>
    obtain ⟨w, started, rfl⟩ := Option.map_eq_some_iff.mp moved
    exact .start ⟨opened op rfl, started⟩
  | change c =>
    obtain ⟨w, changed, rfl⟩ := Option.map_eq_some_iff.mp moved
    exact .environment ⟨c, changed⟩
  | call i fault =>
    simp only [Driver.move] at moved
    split at moved
    · rename_i op history q next found
      split at moved
      · rename_i reply w served
        split at moved
        · rename_i checked
          cases moved
          obtain ⟨inside, found⟩ := List.getElem?_eq_some_iff.mp found
          have step : (d.machine body opens admits).Step
              ⟨s.world, s.threads.take i ++ ⟨op, history, .ask q next⟩ :: s.threads.drop (i + 1)⟩
              ⟨w, s.threads.take i ++ ⟨op, history ++ [⟨q, reply⟩], next reply⟩ ::
                s.threads.drop (i + 1)⟩ :=
            .call (sound op history s.world q reply checked) ⟨fault, served⟩
          rw [← found, ← List.drop_eq_getElem_cons inside, List.take_append_drop] at step
          rwa [List.set_eq_take_append_cons_drop, if_pos inside]
        · contradiction
      · contradiction
    · contradiction

/-- Whatever a schedule computes can happen. -/
theorem Driver.follow_reaches (opened : ∀ op, .start op ∈ moves → opens op)
    (ran : d.follow body checks moves s = some t) : (d.machine body opens admits).Reaches s t := by
  induction moves generalizing s with
  | nil => cases ran; exact .refl
  | cons m rest ih =>
    obtain ⟨next, moved, ran⟩ := Option.bind_eq_some_iff.mp ran
    exact .head (d.move_step sound (fun op same => opened op (by simp [same])) moved)
      (ih (fun op later => opened op (by simp [later])) ran)

theorem Driver.follow_exhibits (opened : ∀ op, .start op ∈ moves → opens op)
    {p : System I W Op α → Bool} (found : (d.follow body checks moves s).any p = true) :
    ∃ t, (d.machine body opens admits).Reaches s t ∧ p t = true := by
  cases ran : d.follow body checks moves s with
  | none => simp [ran] at found
  | some t => exact ⟨t, d.follow_reaches sound opened ran, by simpa [ran] using found⟩

end
end Interaction
