import KDrive.Interaction.Schedule

/-! Runs that remember themselves. The logged machine does what a machine does and
keeps, beside the present world, every world before it and every request served, with the
call that made it, so that a property of a run can speak about what was the case during a
call and about what each call did. -/
namespace Interaction

/-- A call together with the time it started at, which no other call started at. -/
structure Stamped (Op : Type) where
  op : Op
  since : Nat
  deriving DecidableEq

/-- A request of a call, answered. -/
structure Deed (I : Interface) (Op : Type) where
  call : Stamped Op
  event : Event I

structure Entry (I : Interface) (W Op : Type) where
  world : W
  deed : Option (Deed I Op)

structure Logged (I : Interface) (W Op : Type) where
  now : W
  past : List (Entry I W Op) := []

variable {I : Interface} {W Op α β : Type}

namespace Logged

def deeds (w : Logged I W Op) : List (Deed I Op) := w.past.filterMap Entry.deed

/-- All worlds so far, the present one last. Times are positions in this list. -/
def worlds (w : Logged I W Op) : List W := w.past.map Entry.world ++ [w.now]

def advance (w : Logged I W Op) (deed : Option (Deed I Op)) (now : W) : Logged I W Op :=
  ⟨now, w.past ++ [⟨w.now, deed⟩]⟩

@[simp] theorem worlds_advance (w : Logged I W Op) (deed : Option (Deed I Op)) (now : W) :
    (w.advance deed now).worlds = w.worlds ++ [now] := by
  simp [worlds, advance]

@[simp] theorem deeds_advance (w : Logged I W Op) (deed : Option (Deed I Op)) (now : W) :
    (w.advance deed now).deeds = w.deeds ++ deed.toList := by
  cases deed <;> simp [deeds, advance]

theorem length_worlds (w : Logged I W Op) : w.worlds.length = w.past.length + 1 := by
  simp [worlds]

theorem worlds_last (w : Logged I W Op) : w.worlds[w.past.length]? = some w.now := by
  simp [worlds]

/-- `w'` is `w` some time later. -/
structure Extends (w w' : Logged I W Op) : Prop where
  past : w.past <+: w'.past
  worlds : w.worlds <+: w'.worlds

theorem Extends.refl (w : Logged I W Op) : Extends w w := ⟨List.prefix_rfl, List.prefix_rfl⟩

theorem Extends.trans {w w' w'' : Logged I W Op} (first : Extends w w') (second : Extends w' w'') :
    Extends w w'' :=
  ⟨first.past.trans second.past, first.worlds.trans second.worlds⟩

theorem Extends.advance (w : Logged I W Op) (deed : Option (Deed I Op)) (now : W) :
    Extends w (w.advance deed now) :=
  ⟨List.prefix_append _ _, by rw [worlds_advance]; exact List.prefix_append _ _⟩

theorem Extends.deeds {w w' : Logged I W Op} (extended : Extends w w') : w.deeds <+: w'.deeds := by
  obtain ⟨rest, same⟩ := extended.past
  exact ⟨rest.filterMap Entry.deed, by rw [Logged.deeds, ← List.filterMap_append, same]; rfl⟩

theorem Extends.length {w w' : Logged I W Op} (extended : Extends w w') :
    w.past.length ≤ w'.past.length :=
  extended.past.length_le

/-- What was the case at some time stays so. -/
theorem Extends.world {w w' : Logged I W Op} {t : Nat} (extended : Extends w w')
    (found : w.worlds[t]? = some u) :
    w'.worlds[t]? = some u := by
  obtain ⟨rest, same⟩ := extended.worlds
  rw [← same, List.getElem?_append_left (List.getElem?_eq_some_iff.mp found).1, found]

end Logged

namespace Machine

def logged (M : Machine I W Op α) : Machine I (Logged I W Op) (Stamped Op) α where
  handler op w q reply w' := ∃ now, M.handler op.op w.now q reply now ∧
    w' = w.advance (some ⟨op, ⟨q, reply⟩⟩) now
  body op := M.body op.op
  starts w op w' := ∃ now, M.starts w.now op.op now ∧ op.since = w.past.length ∧
    w' = w.advance none now
  environment w w' := ∃ now, M.environment w.now now ∧ w' = w.advance none now
  admits op history w q reply := M.admits op.op history w.now q reply

end Machine

section Driving
variable {F E : Type}

def Driver.logged (d : Driver I W Op F E) : Driver I (Logged I W Op) (Stamped Op) F E where
  serve op fault w q := (d.serve op.op fault w.now q).map fun (reply, now) =>
    (reply, w.advance (some ⟨op, ⟨q, reply⟩⟩) now)
  starts w op :=
    if op.since = w.past.length then (d.starts w.now op.op).map (w.advance none) else none
  change c w := (d.change c w.now).map (w.advance none)

theorem Driver.logged_machine (d : Driver I W Op F E) (body : Op → Program I α)
    (opens : Op → Prop) (admits : Admission I W Op) :
    d.logged.machine (fun op => body op.op) (fun op => opens op.op)
        (fun op history w q reply => admits op.op history w.now q reply) =
      (d.machine body opens admits).logged := by
  have handler : (d.logged.machine (fun op => body op.op) (fun op => opens op.op)
      (fun op history w q reply => admits op.op history w.now q reply)).handler =
      (d.machine body opens admits).logged.handler := by
    funext op w q reply w'
    apply propext
    constructor
    · rintro ⟨fault, served⟩
      obtain ⟨⟨reply', now⟩, inner, same⟩ := Option.map_eq_some_iff.mp served
      cases same
      exact ⟨now, ⟨fault, inner⟩, rfl⟩
    · rintro ⟨now, ⟨fault, served⟩, rfl⟩
      exact ⟨fault, Option.map_eq_some_iff.mpr ⟨_, served, rfl⟩⟩
  have starts : (d.logged.machine (fun op => body op.op) (fun op => opens op.op)
      (fun op history w q reply => admits op.op history w.now q reply)).starts =
      (d.machine body opens admits).logged.starts := by
    funext w op w'
    apply propext
    constructor
    · rintro ⟨opened, started⟩
      simp only [Driver.logged] at started
      split at started
      · rename_i punctual
        obtain ⟨now, inner, rfl⟩ := Option.map_eq_some_iff.mp started
        exact ⟨now, ⟨opened, inner⟩, punctual, rfl⟩
      · contradiction
    · rintro ⟨now, ⟨opened, started⟩, punctual, rfl⟩
      exact ⟨opened, by simp [Driver.logged, punctual, started]⟩
  have environment : (d.logged.machine (fun op => body op.op) (fun op => opens op.op)
      (fun op history w q reply => admits op.op history w.now q reply)).environment =
      (d.machine body opens admits).logged.environment := by
    funext w w'
    apply propext
    constructor
    · rintro ⟨change, changed⟩
      obtain ⟨now, inner, rfl⟩ := Option.map_eq_some_iff.mp changed
      exact ⟨now, ⟨change, inner⟩, rfl⟩
    · rintro ⟨now, ⟨change, changed⟩, rfl⟩
      exact ⟨change, Option.map_eq_some_iff.mpr ⟨_, changed, rfl⟩⟩
  exact Machine.mk.injEq .. |>.mpr ⟨handler, rfl, starts, environment, rfl⟩

/-- Every call of a schedule, with the time it starts at. -/
def stamp (moves : List (Move Op F E)) : List (Move (Stamped Op) F E) :=
  moves.mapIdx fun i move => match move with
    | .start op => .start ⟨op, i⟩
    | .call thread fault => .call thread fault
    | .change change => .change change

theorem start_mem_stamp {moves : List (Move Op F E)} {op : Stamped Op}
    (member : .start op ∈ stamp moves) : .start op.op ∈ moves := by
  obtain ⟨i, bound, same⟩ := List.mem_mapIdx.mp member
  have inside := List.getElem_mem bound
  cases move : moves[i] with
  | start op' =>
    rw [move] at same inside
    cases same
    exact inside
  | call thread fault =>
    rw [move] at same
    cases same
  | change c =>
    rw [move] at same
    cases same

end Driving

section Erasure

def Thread.unstamp (t : Thread I (Stamped Op) α) : Thread I Op α := ⟨t.op.op, t.history, t.program⟩

/-- The system without its past. -/
def System.present (s : System I (Logged I W Op) (Stamped Op) α) : System I W Op α :=
  ⟨s.world.now, s.threads.map Thread.unstamp⟩

variable {M : Machine I W Op α}

/-- Logging adds nothing. -/
theorem present_step {s t : System I (Logged I W Op) (Stamped Op) α} (step : M.logged.Step s t) :
    M.Step s.present t.present := by
  cases step with
  | start started =>
    obtain ⟨now, started, -, rfl⟩ := started
    simp only [System.present, List.map_append, List.map_cons, List.map_nil]
    exact .start started
  | environment change =>
    obtain ⟨now, change, rfl⟩ := change
    exact .environment change
  | call admitted served =>
    obtain ⟨now, served, rfl⟩ := served
    simp only [System.present, List.map_append, List.map_cons]
    exact .call admitted served

theorem present_reaches {s t : System I (Logged I W Op) (Stamped Op) α} (run : M.logged.Reaches s t) :
    M.Reaches s.present t.present := by
  induction run with
  | refl => exact .refl
  | tail _ step ih => exact ih.tail (present_step step)

/-- Every deed of the log was admitted in the world it is logged with. -/
theorem logged_admitted {s : System I (Logged I W Op) (Stamped Op) α}
    (run : M.logged.Reaches ⟨⟨w, []⟩, []⟩ s) (member : ⟨u, some ⟨op, e⟩⟩ ∈ s.world.past) :
    ∃ history, M.admits op.op history u e.request e.reply := by
  induction run with
  | refl => simp at member
  | tail _ step ih =>
    cases step with
    | start started =>
      obtain ⟨now, -, -, rfl⟩ := started
      rcases List.mem_append.mp member with old | new
      · exact ih old
      · cases List.mem_singleton.mp new
    | environment change =>
      obtain ⟨now, -, rfl⟩ := change
      rcases List.mem_append.mp member with old | new
      · exact ih old
      · cases List.mem_singleton.mp new
    | call admitted served =>
      obtain ⟨now, -, rfl⟩ := served
      rcases List.mem_append.mp member with old | new
      · exact ih old
      · cases List.mem_singleton.mp new
        exact ⟨_, admitted⟩

theorem logged_worlds {s t : System I (Logged I W Op) (Stamped Op) α} (step : M.logged.Step s t) :
    t.world.worlds = s.world.worlds ++ [t.world.now] := by
  cases step with
  | start started =>
    obtain ⟨now, -, -, rfl⟩ := started
    exact Logged.worlds_advance _ _ _
  | environment change =>
    obtain ⟨now, -, rfl⟩ := change
    exact Logged.worlds_advance _ _ _
  | call _ served =>
    obtain ⟨now, -, rfl⟩ := served
    exact Logged.worlds_advance _ _ _

/-- Every world of the log was reached, and every step since is one of the machine. -/
theorem logged_past {R : W → W → Prop} (refl : ∀ u, R u u) (trans : ∀ {a b c}, R a b → R b c → R a c)
    (steps : ∀ s t, M.Reaches ⟨w, []⟩ s → M.Step s t → R s.world t.world)
    {s : System I (Logged I W Op) (Stamped Op) α} (run : M.logged.Reaches ⟨⟨w, []⟩, []⟩ s) :
    ∀ u ∈ s.world.worlds, (∃ threads, M.Reaches ⟨w, []⟩ ⟨u, threads⟩) ∧ R u s.world.now := by
  induction run with
  | refl =>
    intro u member
    obtain rfl : u = w := by simpa [Logged.worlds] using member
    exact ⟨⟨[], .refl⟩, refl u⟩
  | @tail s t run step ih =>
    have reached : M.Reaches ⟨w, []⟩ s.present := present_reaches run
    have rely : R s.world.now t.world.now := steps _ _ reached (present_step step)
    intro u member
    rw [logged_worlds step] at member
    rcases List.mem_append.mp member with old | new
    · exact ⟨(ih u old).1, trans (ih u old).2 rely⟩
    · obtain rfl := List.mem_singleton.mp new
      exact ⟨⟨_, reached.tail (present_step step)⟩, refl _⟩

/-- The invariant held at every time, and what has happened since is within the rely
relation. -/
theorem Composes.worlds {D : Discipline W} {post : Op → History I → α → W → Prop}
    (composes : Composes M D post) (initial : D.invariant w)
    {s : System I (Logged I W Op) (Stamped Op) α} (run : M.logged.Reaches ⟨⟨w, []⟩, []⟩ s)
    (member : u ∈ s.world.worlds) : D.invariant u ∧ D.rely u s.world.now := by
  obtain ⟨⟨threads, reached⟩, rely⟩ := logged_past composes.refl composes.trans
    (fun s t reached step => composes.step_rely (composes.reaches ⟨initial, by simp⟩ reached) step)
    run u member
  exact ⟨composes.invariant initial reached, rely⟩

theorem Machine.Within.logged {M' : Machine I W Op α} (within : M.Within M') :
    M.logged.Within M'.logged where
  handler := fun ⟨now, served, same⟩ => ⟨now, within.handler served, same⟩
  body := by rw [Machine.logged, Machine.logged, within.body]
  starts := fun ⟨now, started, rest⟩ => ⟨now, within.starts started, rest⟩
  environment := fun ⟨now, change, same⟩ => ⟨now, within.environment change, same⟩
  admits := within.admits

end Erasure

/-- The program, given these replies one after another, returns `value`. -/
inductive Replays : Program I β → History I → β → Prop where
  | ret : Replays (.ret value) [] value
  | ask {next : I.Reply q → Program I β} : Replays (next reply) rest value →
      Replays (.ask q next) (⟨q, reply⟩ :: rest) value

section Tracking
variable {M : Machine I W Op α} {D : Discipline (Logged I W Op)} {p : Program I β}

/-- What a program that returned has done is in the log, and replaying it gives the
same result. -/
theorem Assures.tracked {post : History I → β → Logged I W Op → Prop}
    (later : ∀ {a b}, D.rely a b → Logged.Extends a b)
    (assures : Assures M.logged D op post p history w) :
    Assures M.logged D op (fun full value w' => post full value w' ∧ Logged.Extends w w' ∧
      ∃ work, full = history ++ work ∧ Replays p work value ∧
        (work.map (Deed.mk op)).Sublist (w'.deeds.drop w.deeds.length)) p history w := by
  induction p generalizing history w with
  | ret value =>
    intro w' rely inv
    exact ⟨assures w' rely inv, later rely, [], by simp, .ret, List.nil_sublist _⟩
  | ask q next ih =>
    intro w₁ rely inv reply w₂ admitted served
    obtain ⟨kept, guaranteed, rest⟩ := assures w₁ rely inv reply w₂ admitted served
    refine ⟨kept, guaranteed, Assures.mono ?_ (ih reply rest)⟩
    rintro full value w' - ⟨holds, extended, work, rfl, replays, logged⟩
    obtain ⟨now, -, rfl⟩ := served
    have before := later rely
    refine ⟨holds, before.trans ((Logged.Extends.advance w₁ _ now).trans extended),
      ⟨q, reply⟩ :: work, by simp, .ask replays, ?_⟩
    obtain ⟨between, same⟩ := before.deeds
    obtain ⟨after, same'⟩ := extended.deeds
    have split : w'.deeds = w.deeds ++ (between ++ (⟨op, ⟨q, reply⟩⟩ :: after)) := by
      rw [← same', Logged.deeds_advance, ← same]
      simp
    rw [← same', List.drop_left'  rfl] at logged
    rw [split, List.drop_left' rfl]
    exact (logged.cons_cons _).trans (List.sublist_append_right _ _)

end Tracking

end Interaction
