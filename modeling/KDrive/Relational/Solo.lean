import KDrive.Relational.Locking

/-! One caller going on by itself while no other one is in a transaction. -/
namespace Relational
open Interaction

variable {K R E Op α G : Type} [DecidableEq K]

/-- The caller runs from here to its return. -/
inductive Solo (S : Service K R E Op α G) (now : Int) (op : Op) :
    Table K R → G → History (Sql K R E) → Option (Holding K R) → Program (Sql K R E) α →
      Table K R → G → History (Sql K R E) → α → Prop
  | ret : Solo S now op table ghost past none (.ret value) table ghost past value
  | ask {done : Bool} {next : Except E q.Answer → Program (Sql K R E) α} :
      S.admits ⟨now, now, fun _ => True, table, ghost⟩ op past q →
      Serves now now (fun _ => True) table held q reply table₁ held₁ done →
      Solo S now op table₁ (if done then S.notes op (past ++ [⟨q, reply⟩]) ghost else ghost)
        (past ++ [⟨q, reply⟩]) held₁ (next reply) table₂ ghost₂ past₂ value →
      Solo S now op table ghost past held (.ask q next) table₂ ghost₂ past₂ value

section
variable {S : Service K R E Op α G} {op : Op} {table table₂ : Table K R} {ghost ghost₂ : G}
  {past past₂ : History (Sql K R E)} {value : α} {key : K} {was row : R}

theorem Solo.lockRow {condition : R → Bool} {next : Except E (List (K × R)) → Program (Sql K R E) α}
    (admitted : S.admits ⟨now, now, fun _ => True, table, ghost⟩ op past (.lock (rowForUpdate key condition)))
    (present : table key = some row) (satisfied : condition row = true)
    (rest : Solo S now op table ghost
      (past ++ [⟨.lock (rowForUpdate key condition), .ok [(key, row)]⟩])
      (some (.single key row row)) (next (.ok [(key, row)])) table₂ ghost₂ past₂ value) :
    Solo S now op table ghost past (some fun _ => none)
      (.ask (.lock (rowForUpdate key condition)) next) table₂ ghost₂ past₂ value := by
  have picked : rowForUpdate key condition now (Holding.view (fun _ => none) table)
      (fun _ => True) [key] := by
    change [key] = if (table key).any condition then [key] else []
    rw [present, Option.any_some, satisfied, if_pos rfl]
  have served : Serves (E := E) now now (fun _ => True) table _ _ _ _ _ _ :=
    .lock picked fun _ _ => trivial
  rw [Holding.rows_single present, Holding.take_single present] at served
  exact .ask admitted served rest

variable {next : Except E Unit → Program (Sql K R E) α}

theorem Solo.updateRow {change : R → Option R}
    {held new : R} (admitted : S.admits ⟨now, now, fun _ => True, table, ghost⟩ op past (.update key change))
    (changed : change held = some new)
    (rest : Solo S now op table ghost (past ++ [⟨.update key change, .ok ()⟩])
      (some (.single key was new)) (next (.ok ())) table₂ ghost₂ past₂ value) :
    Solo S now op table ghost past (some (.single key was held))
      (.ask (.update key change) next) table₂ ghost₂ past₂ value := by
  refine .ask admitted (.update trivial) ?_
  rw [Holding.write_single changed]
  exact rest

theorem Solo.commit {h : Holding K R}
    (admitted : S.admits ⟨now, now, fun _ => True, table, ghost⟩ op past .commit)
    (rest : Solo S now op (h.view table) (S.notes op (past ++ [⟨.commit, .ok ()⟩]) ghost)
      (past ++ [⟨.commit, .ok ()⟩]) none (next (.ok ())) table₂ ghost₂ past₂ value) :
    Solo S now op table ghost past (some h) (.ask .commit next) table₂ ghost₂ past₂ value :=
  .ask admitted .commit rest

theorem Solo.commitRow (admitted : S.admits ⟨now, now, fun _ => True, table, ghost⟩ op past .commit)
    (rest : Solo S now op (Function.update table key (some row))
      (S.notes op (past ++ [⟨.commit, .ok ()⟩]) ghost) (past ++ [⟨.commit, .ok ()⟩]) none
      (next (.ok ())) table₂ ghost₂ past₂ value) :
    Solo S now op table ghost past (some (.single key was row)) (.ask .commit next)
      table₂ ghost₂ past₂ value := by
  apply Solo.commit admitted
  rw [Holding.view_single]
  exact rest

theorem Solo.exec {effect : Int → K → Option R → Option R → Prop} {new : Option R}
    (admitted : S.admits ⟨now, now, fun _ => True, table, ghost⟩ op past (.exec effect))
    (effected : effect now key (table key) new)
    (rest : Solo S now op (Function.update table key new)
      (S.notes op (past ++ [⟨.exec effect, .ok ()⟩]) ghost) (past ++ [⟨.exec effect, .ok ()⟩]) none
      (next (.ok ())) table₂ ghost₂ past₂ value) :
    Solo S now op table ghost past none (.ask (.exec effect) next) table₂ ghost₂ past₂ value :=
  .ask admitted (.exec trivial effected) rest

end

/-- Only this caller may be in a transaction. -/
def Database.Quiet (d : Database K R E Op α G) (i : Nat) : Prop :=
  ∀ j c, j ≠ i → d.callers j = some c → c.held = none

/-- Nobody is in a transaction. -/
def Idle (callers : Nat → Option (Caller K R E Op α)) : Prop :=
  ∀ j c, callers j = some c → c.held = none

variable {S : Service K R E Op α G} {d : Database K R E Op α G} {i : Nat} {op : Op}

omit [DecidableEq K] in
theorem Idle.set {callers : Nat → Option (Caller K R E Op α)} {c : Caller K R E Op α}
    (idle : Idle callers) (none : c.held = none) : Idle (Function.update callers i (some c)) := by
  intro j other set
  rcases update_eq_some set with ⟨_, rfl⟩ | ⟨_, found⟩
  · exact none
  · exact idle j other found

omit [DecidableEq K] in
theorem Idle.quiet {callers : Nat → Option (Caller K R E Op α)} (idle : Idle callers) (now : Int)
    (table : Table K R) (ghost : G) : Database.Quiet ⟨now, table, callers, ghost⟩ i :=
  fun j c _ found => idle j c found

omit [DecidableEq K] in
theorem idle_none : Idle (fun _ => none : Nat → Option (Caller K R E Op α)) := by
  intro j c found
  cases found

omit [DecidableEq K] in
theorem Database.Quiet.free (quiet : d.Quiet i) : d.Free i = fun _ => True := by
  funext k
  refine eq_true fun j c apart found has => ?_
  rw [quiet j c apart found] at has
  exact Holding.not_has_none has

omit [DecidableEq K] in
theorem Database.Quiet.set {c : Caller K R E Op α} (quiet : d.Quiet i) (now : Int)
    (table : Table K R) (ghost : G) :
    Database.Quiet ⟨now, table, Function.update d.callers i (some c), ghost⟩ i := by
  intro j other apart set
  rcases update_eq_some set with ⟨same, _⟩ | ⟨_, found⟩
  · exact absurd same apart
  · exact quiet j other apart found

theorem Solo.reaches {ghost : G} {past : History (Sql K R E)} {held : Option (Holding K R)}
    (solo : Solo S now op table ghost past held p table₂ ghost₂ past₂ value)
    (callers : Nat → Option (Caller K R E Op α)) (found : callers i = some ⟨op, past, held, now, p⟩)
    (quiet : Database.Quiet ⟨now, table, callers, ghost⟩ i) :
    S.Reaches ⟨now, table, callers, ghost⟩
      ⟨now, table₂, Function.update callers i (some ⟨op, past₂, none, now, .ret value⟩), ghost₂⟩ := by
  induction solo generalizing callers with
  | ret =>
    rw [← found, Function.update_eq_self]
  | ask admitted served _ ih =>
    rw [← quiet.free] at served admitted
    refine .head (.answer found admitted served) ?_
    simp only [Statement.began_self]
    have rest := ih _ (Function.update_self _ _ _) (quiet.set _ _ _)
    rwa [Function.update_idem] at rest

/-- A whole call while nobody is in a transaction. -/
theorem Solo.called {ghost₁ : G} {callers : Nat → Option (Caller K R E Op α)}
    (started : S.starts ghost op ghost₁)
    (solo : Solo S now op table ghost₁ [] none (S.body op) table₂ ghost₂ past₂ value)
    (unused : callers i = none) (idle : Idle callers) :
    S.Reaches ⟨now, table, callers, ghost⟩
      ⟨now, table₂, Function.update callers i (some ⟨op, past₂, none, now, .ret value⟩), ghost₂⟩ := by
  refine .head (.start unused started) ?_
  have rest := solo.reaches _ (Function.update_self i _ callers) ((idle.set rfl).quiet _ _ _)
  rwa [Function.update_idem] at rest

end Relational
