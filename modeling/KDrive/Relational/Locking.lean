import KDrive.Interaction.Interleaving
import Mathlib.Logic.Function.Basic

/-! A table with row locks and the callers that work on it, each a program of SQL statements.
A transaction locks the rows it is going to change, keeps what it writes to itself and hands
it over when it commits; a statement outside a transaction takes one step. Any statement may
fail, any transaction may be rolled back and any answer may be lost. -/
namespace Relational
open Interaction

abbrev Table (K R : Type) := K → Option R

/-- The rows a transaction has locked: what each was then, and what it is to the
transaction now. -/
abbrev Holding (K R : Type) := K → Option (R × R)

/-- Conditions see the time (`now()`, at which the transaction began), the rows, and which rows no
other transaction holds. -/
inductive Statement (K R : Type) where
  | begin
  /-- `SELECT ... FOR UPDATE`. A choice that names a row of someone else waits. -/
  | lock (picks : Int → Table K R → (K → Prop) → List K → Prop)
  /-- `UPDATE ... WHERE` over one key; `none` is a row that does not match. -/
  | update (key : K) (change : R → Option R)
  | commit
  | rollback
  /-- A single SELECT. -/
  | read (key : K)
  /-- A single INSERT, UPDATE or DELETE of one row. -/
  | exec (effect : Int → K → Option R → Option R → Prop)

def Statement.Answer {K R : Type} : Statement K R → Type
  | .lock _ => List (K × R)
  | .read _ => Option R
  | _ => Unit

/-- When the transaction began that the caller is in after the statement. -/
def Statement.began {K R : Type} (now before : Int) : Statement K R → Int
  | .begin => now
  | _ => before

theorem Statement.began_self {K R : Type} {now : Int} (q : Statement K R) : q.began now now = now := by
  cases q <;> rfl

abbrev Sql (K R E : Type) : Interface := ⟨Statement K R, fun q => Except E q.Answer⟩

variable {K R E Op α : Type}

namespace Holding

/-- What was locked has not changed. -/
def Current (held : Option (Holding K R)) (table : Table K R) : Prop :=
  ∀ h, held = some h → ∀ k was now, h k = some (was, now) → table k = some was

def Has (held : Option (Holding K R)) (k : K) : Prop := ∃ h, held = some h ∧ h k ≠ none

theorem current_none {table : Table K R} : Current none table := by
  intro h impossible
  cases impossible

theorem not_has_none {k : K} : ¬ Has (none : Option (Holding K R)) k := by
  rintro ⟨h, impossible, _⟩
  cases impossible

theorem Has.intro {held : Holding K R} (found : held k = some (was, now)) : Has (some held) k :=
  ⟨held, rfl, by rw [found]; exact Option.some_ne_none _⟩

theorem Has.elim {held : Holding K R} (has : Has (some held) k) :
    ∃ was now, held k = some (was, now) := by
  obtain ⟨h, same, some⟩ := has
  cases same
  obtain ⟨pair, found⟩ := Option.ne_none_iff_exists'.mp some
  exact ⟨pair.1, pair.2, found⟩

variable [DecidableEq K]

/-- The rows as the transaction sees them, and as it leaves them. -/
def view (held : Holding K R) (table : Table K R) : Table K R := fun k =>
  match held k with
  | some (_, now) => some now
  | none => table k

def take (held : Holding K R) (table : Table K R) (keys : List K) : Holding K R := fun k =>
  if k ∈ keys then (held k).or ((table k).map fun row => (row, row)) else held k

def rows (held : Holding K R) (table : Table K R) (keys : List K) : List (K × R) :=
  keys.filterMap fun k => (held.view table k).map fun row => (k, row)

def write (held : Holding K R) (table : Table K R) (key : K) (change : R → Option R) :
    Holding K R :=
  match held.take table [key] key with
  | some (was, now) =>
    match change now with
    | some row => Function.update held key (some (was, row))
    | none => held
  | none => held

variable {held : Holding K R} {table : Table K R} {key k : K} {keys : List K} {was now : R}
  {change : R → Option R}

theorem take_cases (found : held.take table keys k = some (was, now)) :
    held k = some (was, now) ∨ k ∈ keys ∧ table k = some was ∧ now = was := by
  simp only [take] at found
  split at found
  · rename_i picked
    cases before : held k with
    | some pair =>
      rw [before, Option.some_or] at found
      exact .inl found
    | none =>
      rw [before, Option.none_or, Option.map_eq_some_iff] at found
      obtain ⟨row, present, same⟩ := found
      cases same
      exact .inr ⟨picked, present, rfl⟩
  · exact .inl found

theorem write_cases (found : held.write table key change k = some (was, now)) :
    held k = some (was, now) ∨
      k = key ∧ ∃ before, held.take table [key] key = some (was, before) ∧
        change before = some now := by
  cases taken : held.take table [key] key with
  | none =>
    simp only [write, taken] at found
    exact .inl found
  | some pair =>
    cases changed : change pair.2 with
    | none =>
      simp only [write, taken, changed] at found
      exact .inl found
    | some row =>
      simp only [write, taken, changed] at found
      by_cases same : k = key
      · subst same
        rw [Function.update_self] at found
        cases found
        exact .inr ⟨rfl, pair.2, rfl, changed⟩
      · rw [Function.update_of_ne same] at found
        exact .inl found

theorem write_held {new : R} (found : held key = some (was, now)) (changed : change now = some new) :
    held.write table key change = Function.update held key (some (was, new)) := by
  have taken : held.take table [key] key = some (was, now) := by
    simp [take, found]
  simp only [write, taken, changed]

/-- One row, and nothing else. -/
def single (key : K) (was now : R) : Holding K R := fun k => if k = key then some (was, now) else none

theorem take_single {row : R} (present : table key = some row) :
    take (fun _ => none) table [key] = single key row row := by
  funext k
  by_cases same : k = key
  · subst same
    simp [take, single, present]
  · simp [take, single, same]

omit [DecidableEq K] in
theorem rows_single {row : R} (present : table key = some row) :
    rows (fun _ => none) table [key] = [(key, row)] := by
  simp [rows, view, present]

theorem write_single {new : R} (changed : change now = some new) :
    (single key was now).write table key change = single key was new := by
  funext k
  by_cases same : k = key
  · subst same
    simp [write, take, single, changed]
  · simp [write, take, single, changed, same]

theorem view_single : (single key was now).view table = Function.update table key (some now) := by
  funext k
  by_cases same : k = key
  · subst same
    simp [view, single]
  · simp [view, single, same]

end Holding

variable [DecidableEq K]

/-- `SELECT ... WHERE key = $1 AND condition FOR UPDATE`. -/
def rowForUpdate (key : K) (condition : R → Bool) (_ : Int) (table : Table K R) (_ : K → Prop)
    (keys : List K) : Prop :=
  keys = if (table key).any condition then [key] else []

/-- How a statement may be answered; the flag says whether it changed the table for good,
which its answer need not tell. -/
inductive Serves (now began : Int) (free : K → Prop) (table : Table K R) :
    Option (Holding K R) → (q : Statement K R) → Except E q.Answer → Table K R →
      Option (Holding K R) → Bool → Prop
  | fails : held' = held ∨ held' = none → Serves now began free table held q (.error e) table held' false
  | begin : Serves now began free table none .begin (.ok ()) table (some fun _ => none) false
  | lock : picks began (held.view table) free keys → (∀ k ∈ keys, free k) →
      Serves now began free table (some held) (.lock picks) (.ok (held.rows table keys)) table
        (some (held.take table keys)) false
  | update : free key → Serves now began free table (some held) (.update key change) (.ok ()) table
      (some (held.write table key change)) false
  | commit : Serves now began free table (some held) .commit reply (held.view table) none true
  | rollback : Serves now began free table held .rollback (.ok ()) table none false
  | read : Serves now began free table held (.read key) (.ok (table key)) table held false
  | exec : free key → effect now key (table key) row → Serves now began free table none (.exec effect)
      reply (Function.update table key row) none true

namespace Serves
variable {now began : Int} {free : K → Prop} {table table' : Table K R} {held held' : Option (Holding K R)}
  {q : Statement K R} {reply : Except E q.Answer} {done : Bool}

/-- Only rows the transaction holds or nobody else does are changed. -/
theorem table_frame (served : Serves now began free table held q reply table' held' done) {k : K}
    (apart : ¬ Holding.Has held k) (taken : ¬ free k) : table' k = table k := by
  cases served with
  | @commit h =>
    have none : h k = none := by
      by_contra some
      exact apart ⟨h, rfl, some⟩
    simp [Holding.view, none]
  | exec available effected =>
    have other : k ≠ _ := fun same => taken (same ▸ available)
    exact Function.update_of_ne other _ _
  | _ => rfl

/-- What the transaction holds afterwards is current, and new only where it was free. -/
theorem held_frame (served : Serves now began free table held q reply table' held' done)
    (current : Holding.Current held table) : Holding.Current held' table' ∧
      ∀ k, Holding.Has held' k → Holding.Has held k ∨ free k := by
  cases served with
  | fails kept =>
    rcases kept with rfl | rfl
    · exact ⟨current, fun k has => .inl has⟩
    · exact ⟨Holding.current_none, fun k has => absurd has Holding.not_has_none⟩
  | begin =>
    constructor
    · rintro _ ⟨⟩ k was now held
      cases held
    · rintro k ⟨_, ⟨⟩, some⟩
      exact absurd rfl some
  | @lock picks keys h picked available =>
    constructor
    · rintro _ ⟨⟩ k was now found
      rcases Holding.take_cases found with before | ⟨_, present, _⟩
      · exact current h rfl k was now before
      · exact present
    · intro k has
      obtain ⟨was, now, found⟩ := has.elim
      rcases Holding.take_cases found with before | ⟨new, _, _⟩
      · exact .inl (.intro before)
      · exact .inr (available k new)
  | @update key h change available =>
    constructor
    · rintro _ ⟨⟩ k was now found
      rcases Holding.write_cases found with before | ⟨rfl, row, taken, _⟩
      · exact current h rfl k was now before
      · rcases Holding.take_cases taken with before | ⟨_, present, _⟩
        · exact current h rfl k was row before
        · exact present
    · intro k has
      obtain ⟨was, now, found⟩ := has.elim
      rcases Holding.write_cases found with before | ⟨rfl, row, taken, _⟩
      · exact .inl (.intro before)
      · exact .inr available
  | commit => exact ⟨Holding.current_none, fun k has => absurd has Holding.not_has_none⟩
  | rollback => exact ⟨Holding.current_none, fun k has => absurd has Holding.not_has_none⟩
  | read => exact ⟨current, fun k has => .inl has⟩
  | exec => exact ⟨Holding.current_none, fun k has => absurd has Holding.not_has_none⟩

end Serves

/-- A call under way: the statements it has made, the transaction it is in and when that began,
and what is left of its program. -/
structure Caller (K R E Op α : Type) where
  op : Op
  past : History (Sql K R E)
  held : Option (Holding K R)
  began : Int
  program : Program (Sql K R E) α

/-- What a statement meets: the time, that of its transaction, the rows no other transaction
holds, the table and the notes. -/
structure Scene (K R G : Type) where
  now : Int
  began : Int
  free : K → Prop
  table : Table K R
  ghost : G

/-- The calls there are, when one may begin, what is noted when the table changes, and
(`admits`) which statements a run is restricted to. -/
structure Service (K R E Op α G : Type) where
  body : Op → Program (Sql K R E) α
  starts : G → Op → G → Prop
  notes : Op → History (Sql K R E) → G → G
  admits : Scene K R G → Op → History (Sql K R E) → Statement K R → Prop

structure Database (K R E Op α G : Type) where
  now : Int
  table : Table K R
  callers : Nat → Option (Caller K R E Op α)
  ghost : G

variable {G : Type}

/-- No other caller's transaction holds the row. -/
def Database.Free (d : Database K R E Op α G) (i : Nat) (k : K) : Prop :=
  ∀ j c, j ≠ i → d.callers j = some c → ¬ Holding.Has c.held k

inductive Service.Step (S : Service K R E Op α G) :
    Database K R E Op α G → Database K R E Op α G → Prop
  | start : d.callers i = none → S.starts d.ghost op ghost' →
      Step S d { d with callers := Function.update d.callers i (some ⟨op, [], none, d.now, S.body op⟩),
                        ghost := ghost' }
  | answer : d.callers i = some ⟨op, past, held, began, .ask q next⟩ →
      S.admits ⟨d.now, began, d.Free i, d.table, d.ghost⟩ op past q →
      Serves d.now began (d.Free i) d.table held q reply table' held' done →
      Step S d
        { d with
          table := table'
          callers := Function.update d.callers i
            (some ⟨op, past ++ [⟨q, reply⟩], held', q.began d.now began, next reply⟩)
          ghost := if done then S.notes op (past ++ [⟨q, reply⟩]) d.ghost else d.ghost }
  | rollback : d.callers i = some c →
      Step S d { d with callers := Function.update d.callers i (some { c with held := none }) }
  | tick : d.now ≤ later → Step S d { d with now := later }

abbrev Service.Reaches (S : Service K R E Op α G) := Relation.ReflTransGen S.Step

/-- Locked rows are as they were, and each is locked once. -/
structure Database.Sound (d : Database K R E Op α G) : Prop where
  current : ∀ i c, d.callers i = some c → Holding.Current c.held d.table
  alone : ∀ i c k, d.callers i = some c → Holding.Has c.held k → d.Free i k

theorem update_eq_some {β : Type} {f : Nat → Option β} {new found : β} {i j : Nat}
    (set : Function.update f i (some new) j = some found) :
    j = i ∧ found = new ∨ j ≠ i ∧ f j = some found := by
  by_cases same : j = i
  · subst same
    rw [Function.update_self] at set
    exact .inl ⟨rfl, (Option.some.inj set).symm⟩
  · rw [Function.update_of_ne same] at set
    exact .inr ⟨same, set⟩

namespace Database
variable {d : Database K R E Op α G} {i : Nat} {c : Caller K R E Op α} {table' : Table K R}

omit [DecidableEq K] in
/-- A caller that moves on and keeps to rows no other one holds leaves the locks sound. -/
theorem Sound.set (sound : d.Sound) (current : Holding.Current c.held table')
    (free : ∀ k, Holding.Has c.held k → d.Free i k)
    (frame : ∀ k, ¬ d.Free i k → table' k = d.table k) (now' : Int) (ghost' : G) :
    Sound ⟨now', table', Function.update d.callers i (some c), ghost'⟩ := by
  constructor
  · intro j other set
    rcases update_eq_some set with ⟨rfl, rfl⟩ | ⟨apart, found⟩
    · exact current
    · intro h holds k was now row
      have taken : ¬ d.Free i k := fun free => free j other apart found (holds ▸ .intro row)
      exact (frame k taken).trans (sound.current j other found h holds k was now row)
  · intro j holder k set has l other apart setOther hasOther
    rcases update_eq_some set with ⟨rfl, rfl⟩ | ⟨notHolder, found⟩
    · rcases update_eq_some setOther with ⟨same, _⟩ | ⟨_, foundOther⟩
      · exact apart same
      · exact free k has l other apart foundOther hasOther
    · rcases update_eq_some setOther with ⟨rfl, rfl⟩ | ⟨_, foundOther⟩
      · exact free k hasOther j holder notHolder found has
      · exact sound.alone j holder k found has l other apart foundOther hasOther

end Database

namespace Service
variable {S : Service K R E Op α G} {d d' : Database K R E Op α G}

theorem sound_step (sound : d.Sound) (step : S.Step d d') : d'.Sound := by
  cases step with
  | start unused started =>
    refine sound.set Holding.current_none (fun k has => absurd has Holding.not_has_none) ?_ _ _
    exact fun _ _ => rfl
  | answer found admitted served =>
    have current := sound.current _ _ found
    obtain ⟨current', new⟩ := served.held_frame current
    refine sound.set current' ?_ ?_ _ _
    · intro k has
      exact (new k has).elim (sound.alone _ _ k found) id
    · intro k taken
      exact served.table_frame (fun has => taken (sound.alone _ _ k found has)) taken
  | rollback found =>
    refine sound.set Holding.current_none (fun k has => absurd has Holding.not_has_none) ?_ _ _
    exact fun _ _ => rfl
  | tick => exact ⟨sound.current, sound.alone⟩

/-- A transaction that has only just begun holds nothing. -/
theorem begun_holds_nothing {now : Int} {table : Table K R} {ghost : G}
    (run : S.Reaches ⟨now, table, fun _ => none, ghost⟩ d) {i : Nat} {c : Caller K R E Op α}
    (found : d.callers i = some c) (begun : c.past = [⟨.begin, .ok ()⟩]) :
    c.held = some (fun _ => none) ∨ c.held = none := by
  induction run generalizing i c with
  | refl => cases found
  | tail _ step ih =>
    cases step with
    | start unused started =>
      rcases update_eq_some found with ⟨rfl, rfl⟩ | ⟨_, before⟩
      · cases begun
      · exact ih before begun
    | answer before admitted served =>
      rcases update_eq_some found with ⟨rfl, rfl⟩ | ⟨_, other⟩
      · obtain ⟨rfl, last⟩ := List.append_inj' (begun.trans (List.nil_append _).symm) rfl
        cases last
        cases served
        exact .inl rfl
      · exact ih other begun
    | rollback before =>
      rcases update_eq_some found with ⟨rfl, rfl⟩ | ⟨_, other⟩
      · exact .inr rfl
      · exact ih other begun
    | tick later => exact ih found begun

/-- What each commit notes and nothing takes back is there once a COMMIT has been answered. -/
theorem noted_of_committed {P : Op → G → Prop} (noted : ∀ op past ghost, P op (S.notes op past ghost))
    (kept : ∀ op other past ghost, P op ghost → P op (S.notes other past ghost))
    (started : ∀ op other ghost ghost', S.starts ghost other ghost' → P op ghost → P op ghost')
    {now : Int} {table : Table K R} {ghost : G}
    (run : S.Reaches ⟨now, table, fun _ => none, ghost⟩ d) {i : Nat} {c : Caller K R E Op α}
    (found : d.callers i = some c) (committed : ⟨.commit, .ok ()⟩ ∈ c.past) : P c.op d.ghost := by
  have stays : ∀ (done : Bool) op other past ghost, P op ghost →
      P op (if done then S.notes other past ghost else ghost) := by
    intro done op other past ghost there
    cases done with
    | false => exact there
    | true => exact kept _ _ _ _ there
  induction run generalizing i c with
  | refl => cases found
  | tail _ step ih =>
    cases step with
    | start unused starts =>
      rcases update_eq_some found with ⟨rfl, rfl⟩ | ⟨_, before⟩
      · cases committed
      · exact started _ _ _ _ starts (ih before committed)
    | answer before admitted served =>
      rcases update_eq_some found with ⟨rfl, rfl⟩ | ⟨_, other⟩
      · rcases List.mem_append.mp committed with earlier | last
        · have there := ih before earlier
          exact stays _ _ _ _ _ there
        · cases List.mem_singleton.mp last
          cases served
          exact noted _ _ _
      · exact stays _ _ _ _ _ (ih other committed)
    | rollback before =>
      rcases update_eq_some found with ⟨rfl, rfl⟩ | ⟨_, other⟩
      · have there := ih before committed
        exact there
      · exact ih other committed
    | tick later => exact ih found committed

end Service
end Relational
