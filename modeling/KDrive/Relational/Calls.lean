import KDrive.Relational.Locking

/-! Reasoning about one caller at a time. A caller upholds an invariant of the table when it
does so at each of its own statements, over any table the invariant allows in which its
locked rows are as it found them; nothing is assumed of the others. -/
namespace Relational
open Interaction

section
variable {K R E Op α β γ G : Type} [DecidableEq K]
variable (S : Service K R E Op α G) (I : Table K R → G → Prop)
  (post : Op → History (Sql K R E) → β → Prop)

/-- The transaction may be rolled back before any statement, so each is also met without. -/
def Upholds (op : Op) :
    Program (Sql K R E) β → History (Sql K R E) → Option (Holding K R) → Prop
  | .ret value, past, _ => post op past value
  | .ask q next, past, held => ∀ before, before = held ∨ before = none →
      ∀ (scene : Scene K R G) reply table' held' done, I scene.table scene.ghost →
      S.admits scene op past q → Holding.Current before scene.table →
      Serves scene.now scene.began scene.free scene.table before q reply table' held' done →
        I table' (if done then S.notes op (past ++ [⟨q, reply⟩]) scene.ghost else scene.ghost) ∧
          Upholds op (next reply) (past ++ [⟨q, reply⟩]) held'

variable {S I post} {op : Op} {past : History (Sql K R E)} {h : Holding K R}
  {held : Option (Holding K R)}

theorem Upholds.rolledBack {p : Program (Sql K R E) β} (upholds : Upholds S I post op p past held) :
    Upholds S I post op p past none := by
  cases p with
  | ret value => exact upholds
  | ask q next =>
    intro before without
    exact upholds before (.inr (or_self_iff.mp without))

theorem Upholds.mono {weaker : Op → History (Sql K R E) → β → Prop} {p : Program (Sql K R E) β}
    (implies : ∀ past value, post op past value → weaker op past value)
    (upholds : Upholds S I post op p past held) : Upholds S I weaker op p past held := by
  induction p generalizing past held with
  | ret value => exact implies past value upholds
  | ask q next ih =>
    intro before which scene reply table' held' done whole admitted current served
    obtain ⟨kept, rest⟩ := upholds before which scene reply table' held' done whole admitted current
      served
    exact ⟨kept, ih reply rest⟩

/-- Sequencing: the first program's postcondition is that the second one upholds the rest. -/
theorem Upholds.bind {post : Op → History (Sql K R E) → γ → Prop} {p : Program (Sql K R E) β}
    {f : β → Program (Sql K R E) γ}
    (first : Upholds S I (fun op past value => ∀ held, Upholds S I post op (f value) past held)
      op p past held) : Upholds S I post op (p >>= f) past held := by
  induction p generalizing past held with
  | ret value => exact first held
  | ask q next ih =>
    intro before which scene reply table' held' done whole admitted current served
    obtain ⟨kept, rest⟩ := first before which scene reply table' held' done whole admitted current
      served
    exact ⟨kept, ih reply rest⟩

variable {next : Except E Unit → Program (Sql K R E) β}

theorem Upholds.begin
    (failed : ∀ e held, Upholds S I post op (next (.error e)) (past ++ [⟨.begin, .error e⟩]) held)
    (begun : Upholds S I post op (next (.ok ())) (past ++ [⟨.begin, .ok ()⟩])
      (some fun _ => none)) :
    Upholds S I post op (.ask .begin next) past held := by
  intro before which scene reply table' held' done whole admitted current served
  cases served with
  | fails _ => exact ⟨whole, failed _ _⟩
  | begin => exact ⟨whole, begun⟩

theorem Upholds.lock {picks : Int → Table K R → (K → Prop) → List K → Prop}
    {next : Except E (List (K × R)) → Program (Sql K R E) β}
    (failed : ∀ e held,
      Upholds S I post op (next (.error e)) (past ++ [⟨.lock picks, .error e⟩]) held)
    (locked : ∀ (scene : Scene K R G) keys, I scene.table scene.ghost →
      S.admits scene op past (.lock picks) → Holding.Current (some h) scene.table →
      picks scene.began (h.view scene.table) scene.free keys →
      Upholds S I post op (next (.ok (h.rows scene.table keys)))
        (past ++ [⟨.lock picks, .ok (h.rows scene.table keys)⟩])
        (some (h.take scene.table keys))) :
    Upholds S I post op (.ask (.lock picks) next) past (some h) := by
  intro before which scene reply table' held' done whole admitted current served
  cases served with
  | fails _ => exact ⟨whole, failed _ _⟩
  | lock picked _ =>
    rcases which with same | impossible
    · cases same
      exact ⟨whole, locked scene _ whole admitted current picked⟩
    · cases impossible

theorem Upholds.update {key : K} {change : R → Option R} (failed : ∀ e held,
      Upholds S I post op (next (.error e)) (past ++ [⟨.update key change, .error e⟩]) held)
    (updated : ∀ table ghost, I table ghost → Holding.Current (some h) table →
      Upholds S I post op (next (.ok ())) (past ++ [⟨.update key change, .ok ()⟩])
        (some (h.write table key change))) :
    Upholds S I post op (.ask (.update key change) next) past (some h) := by
  intro before which scene reply table' held' done whole admitted current served
  cases served with
  | fails _ => exact ⟨whole, failed _ _⟩
  | update _ =>
    rcases which with same | impossible
    · cases same
      exact ⟨whole, updated _ scene.ghost whole current⟩
    · cases impossible

theorem Upholds.commit
    (failed : ∀ e held, Upholds S I post op (next (.error e)) (past ++ [⟨.commit, .error e⟩]) held)
    (committed : ∀ table ghost reply, I table ghost → Holding.Current (some h) table →
      I (h.view table) (S.notes op (past ++ [⟨.commit, reply⟩]) ghost) ∧
        Upholds S I post op (next reply) (past ++ [⟨.commit, reply⟩]) none) :
    Upholds S I post op (.ask .commit next) past (some h) := by
  intro before which scene reply table' held' done whole admitted current served
  cases served with
  | fails _ => exact ⟨whole, failed _ _⟩
  | commit =>
    rcases which with same | impossible
    · cases same
      exact committed _ scene.ghost reply whole current
    · cases impossible

theorem Upholds.rollback
    (after : ∀ reply held, Upholds S I post op (next reply) (past ++ [⟨.rollback, reply⟩]) held) :
    Upholds S I post op (.ask .rollback next) past held := by
  intro before which scene reply table' held' done whole admitted current served
  cases served with
  | fails _ => exact ⟨whole, after _ _⟩
  | rollback => exact ⟨whole, after _ _⟩

theorem Upholds.read {key : K} {next : Except E (Option R) → Program (Sql K R E) β}
    (failed : ∀ e held,
      Upholds S I post op (next (.error e)) (past ++ [⟨.read key, .error e⟩]) held)
    (got : ∀ table ghost held, I table ghost → Upholds S I post op (next (.ok (table key)))
      (past ++ [⟨.read key, .ok (table key)⟩]) held) :
    Upholds S I post op (.ask (.read key) next) past held := by
  intro before which scene reply table' held' done whole admitted current served
  cases served with
  | fails _ => exact ⟨whole, failed _ _⟩
  | read => exact ⟨whole, got _ scene.ghost _ whole⟩

theorem Upholds.exec {effect : Int → K → Option R → Option R → Prop}
    (failed : ∀ e held, Upholds S I post op (next (.error e)) (past ++ [⟨.exec effect, .error e⟩]) held)
    (done : ∀ (scene : Scene K R G) key row reply, I scene.table scene.ghost →
      S.admits scene op past (.exec effect) → effect scene.now key (scene.table key) row →
      I (Function.update scene.table key row)
          (S.notes op (past ++ [⟨.exec effect, reply⟩]) scene.ghost) ∧
        Upholds S I post op (next reply) (past ++ [⟨.exec effect, reply⟩]) none) :
    Upholds S I post op (.ask (.exec effect) next) past held := by
  intro before which scene reply table' held' done' whole admitted current served
  cases served with
  | fails _ => exact ⟨whole, failed _ _⟩
  | exec _ effected => exact done scene _ _ reply whole admitted effected

/-- A first locking SELECT of one row: it is not there, or it is held from now on. -/
theorem Upholds.lockRow {key : K} {condition : R → Bool}
    {next : Except E (List (K × R)) → Program (Sql K R E) β}
    (failed : ∀ e held, Upholds S I post op (next (.error e))
      (past ++ [⟨.lock (rowForUpdate key condition), .error e⟩]) held)
    (missing : ∀ table ghost, I table ghost → (table key).any condition = false →
      Upholds S I post op (next (.ok []))
        (past ++ [⟨.lock (rowForUpdate key condition), .ok []⟩]) (some fun _ => none))
    (locked : ∀ (scene : Scene K R G) row, I scene.table scene.ghost →
      S.admits scene op past (.lock (rowForUpdate key condition)) →
      scene.table key = some row → condition row = true →
      Upholds S I post op (next (.ok [(key, row)]))
        (past ++ [⟨.lock (rowForUpdate key condition), .ok [(key, row)]⟩])
        (some (.single key row row))) :
    Upholds S I post op (.ask (.lock (rowForUpdate key condition)) next) past
      (some fun _ => none) := by
  apply Upholds.lock failed
  intro scene keys whole admitted _ picked
  have chosen : keys = if (scene.table key).any condition then [key] else [] := picked
  cases found : (scene.table key).any condition with
  | false =>
    rw [found, if_neg Bool.false_ne_true] at chosen
    subst chosen
    have none : Holding.take (fun _ => none) scene.table [] = fun _ : K => none := by
      funext k
      simp [Holding.take]
    rw [none]
    exact missing scene.table scene.ghost whole found
  | true =>
    rw [found, if_pos rfl] at chosen
    subst chosen
    obtain ⟨row, present, satisfied⟩ := (Option.any_eq_true _ _).mp found
    rw [Holding.rows_single present, Holding.take_single present]
    exact locked scene row whole admitted present satisfied

/-- The held row is changed. -/
theorem Upholds.updateRow {key : K} {was now new : R} {change : R → Option R}
    (changed : change now = some new)
    (failed : ∀ e held,
      Upholds S I post op (next (.error e)) (past ++ [⟨.update key change, .error e⟩]) held)
    (updated : Upholds S I post op (next (.ok ())) (past ++ [⟨.update key change, .ok ()⟩])
      (some (.single key was new))) :
    Upholds S I post op (.ask (.update key change) next) past (some (.single key was now)) := by
  apply Upholds.update failed
  intro table ghost _ _
  rw [Holding.write_single changed]
  exact updated

/-- The held row is handed over; it was still as it was locked. -/
theorem Upholds.commitRow {key : K} {was now : R}
    (failed : ∀ e held, Upholds S I post op (next (.error e)) (past ++ [⟨.commit, .error e⟩]) held)
    (committed : ∀ table ghost reply, I table ghost → table key = some was →
      I (Function.update table key (some now)) (S.notes op (past ++ [⟨.commit, reply⟩]) ghost) ∧
        Upholds S I post op (next reply) (past ++ [⟨.commit, reply⟩]) none) :
    Upholds S I post op (.ask .commit next) past (some (.single key was now)) := by
  apply Upholds.commit failed
  intro table ghost reply whole current
  rw [Holding.view_single]
  apply committed table ghost reply whole
  exact current _ rfl key was now (if_pos rfl)

/-- What holds of the table, of the locks and of each caller. -/
structure Kept (S : Service K R E Op α G) (I : Table K R → G → Prop)
    (post : Op → History (Sql K R E) → α → Prop) (d : Database K R E Op α G) : Prop where
  sound : d.Sound
  whole : I d.table d.ghost
  each : ∀ i c, d.callers i = some c → Upholds S I post c.op c.program c.past c.held

variable {post : Op → History (Sql K R E) → α → Prop}

theorem each_set {callers : Nat → Option (Caller K R E Op α)} {i : Nat} {new : Caller K R E Op α}
    (each : ∀ i c, callers i = some c → Upholds S I post c.op c.program c.past c.held)
    (own : Upholds S I post new.op new.program new.past new.held) :
    ∀ j c, Function.update callers i (some new) j = some c →
      Upholds S I post c.op c.program c.past c.held := by
  intro j c set
  rcases update_eq_some set with ⟨rfl, rfl⟩ | ⟨_, found⟩
  · exact own
  · exact each j c found

variable {d d' : Database K R E Op α G}

theorem Kept.step (starts : ∀ {table ghost op ghost'}, I table ghost → S.starts ghost op ghost' →
      I table ghost' ∧ Upholds S I post op (S.body op) [] none)
    (kept : Kept S I post d) (step : S.Step d d') : Kept S I post d' := by
  have sound := Service.sound_step kept.sound step
  cases step with
  | start unused started =>
    obtain ⟨whole, own⟩ := starts kept.whole started
    exact ⟨sound, whole, each_set kept.each own⟩
  | answer found admitted served =>
    have upholds := kept.each _ _ found
    obtain ⟨whole, own⟩ := upholds _ (.inl rfl) _ _ _ _ _ kept.whole admitted
      (kept.sound.current _ _ found) served
    exact ⟨sound, whole, each_set kept.each own⟩
  | rollback found =>
    have own := (kept.each _ _ found).rolledBack
    exact ⟨sound, kept.whole, each_set kept.each own⟩
  | tick => exact ⟨sound, kept.whole, kept.each⟩

/-- Callers that all uphold the invariant do so together, whatever their order. -/
theorem Kept.reaches (starts : ∀ {table ghost op ghost'}, I table ghost →
      S.starts ghost op ghost' → I table ghost' ∧ Upholds S I post op (S.body op) [] none)
    {now : Int} {table : Table K R} {ghost : G} (first : I table ghost)
    (run : S.Reaches ⟨now, table, fun _ => none, ghost⟩ d) : Kept S I post d := by
  induction run with
  | refl =>
    constructor
    · constructor <;> · intros; contradiction
    · exact first
    · intros
      contradiction
  | tail _ step ih => exact ih.step starts step

theorem Kept.returned (kept : Kept S I post d) {i : Nat} {value : α}
    (found : d.callers i = some ⟨op, past, held, began, .ret value⟩) : post op past value :=
  kept.each i _ found

end
end Relational
