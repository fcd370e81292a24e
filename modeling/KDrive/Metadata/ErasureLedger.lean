import KDrive.Interaction.Traces
import KDrive.Metadata.Postgres
import Mathlib.Data.List.Nodup

/-! The erasure ledger. `RecordErasure` is one statement: it reads the rows that were
committed when it started, and its own row is there for others when it is committed. Any
number of such statements overlap. -/
namespace KDrive.Metadata
open Go Interaction

/-- The arguments of `RecordErasure`. -/
structure Erasure where
  entityType : String
  entityID : String
  tenantID : String
  erasureType : String
  deriving DecidableEq

structure ErasureEntry extends Erasure where
  erasureGeneration : Int
  deriving DecidableEq

def Erasure.entity (e : Erasure) : String × String := (e.entityType, e.entityID)

/-- The generations of an entity, in the order the rows were committed. -/
def generations (rows : List ErasureEntry) (entity : String × String) : List Int :=
  (rows.filter fun row => row.entity = entity).map ErasureEntry.erasureGeneration

/-- `COALESCE(MAX(erasure_generation), 0)`. -/
def latestErasureGeneration (rows : List ErasureEntry) (entity : String × String) : Int :=
  (generations rows entity).max?.getD 0

/-- The row the statement inserts, over the rows it sees; a generation that is no INTEGER
makes it fail. -/
def recordErasure (seen : List ErasureEntry) (e : Erasure) : Option ErasureEntry :=
  let generation := ((generations seen e.entity).max?.map (· + 1)).getD 1
  if IsInteger generation then some ⟨e, generation⟩ else none

/-- The committed rows, and the statements that are under way with what each saw. -/
structure Ledger where
  rows : List ErasureEntry := []
  running : List (Erasure × List ErasureEntry) := []

inductive LedgerAction where
  | start (e : Erasure)
  | commit (i : Nat)
  | fail (i : Nat)
  deriving DecidableEq

namespace Ledger

def step (l : Ledger) : LedgerAction → Option Ledger
  | .start e => some { l with running := l.running ++ [(e, l.rows)] }
  | .commit i =>
    match l.running[i]? with
    | none => none
    | some (e, seen) =>
      (recordErasure seen e).map fun row => ⟨l.rows ++ [row], l.running.eraseIdx i⟩
  | .fail i => if i < l.running.length then some { l with running := l.running.eraseIdx i } else none

/-- 1, 2, 3, ... -/
def counting (n : Nat) : List Int := (List.range n).map fun k : Nat => (k : Int) + 1

/-- Every entity's generations are distinct and count up in commit order, and the latest one
is their number. -/
def Numbered (l : Ledger) : Prop :=
  ∀ entity, (generations l.rows entity).Nodup ∧
    generations l.rows entity = counting (generations l.rows entity).length ∧
    latestErasureGeneration l.rows entity = (generations l.rows entity).length

/-- A statement that is committed saw every committed erasure of its entity. -/
def UpToDate (l : Ledger) : LedgerAction → Prop
  | .commit i => ∀ e seen, l.running[i]? = some (e, seen) →
      generations seen e.entity = generations l.rows e.entity
  | _ => True

theorem counting_succ (n : Nat) : counting (n + 1) = counting n ++ [(n : Int) + 1] := by
  simp [counting, List.range_succ]

theorem length_counting (n : Nat) : (counting n).length = n := by simp [counting]

theorem counting_nodup (n : Nat) : (counting n).Nodup := by
  apply List.Nodup.map ?_ List.nodup_range
  intro first second same
  have equal : (first : Int) + 1 = second + 1 := same
  omega

theorem max_counting (n : Nat) : (counting n).max? = if n = 0 then none else some (n : Int) := by
  cases n with
  | zero => rfl
  | succ n =>
    rw [if_neg (Nat.succ_ne_zero n), List.max?_eq_some_iff, counting_succ]
    constructor
    · simp
    · intro x member
      rcases List.mem_append.mp member with early | last
      · obtain ⟨k, small, rfl⟩ := List.mem_map.mp early
        have below := List.mem_range.mp small
        push_cast
        omega
      · rw [List.mem_singleton.mp last]
        push_cast
        omega

theorem counting_of_isPrefix {list : List Int} {n : Nat} (before : list <+: counting n) :
    list = counting list.length := by
  have shorter := before.length_le
  rw [length_counting] at shorter
  rw [List.prefix_iff_eq_take.mp before, counting, ← List.map_take, List.take_range]
  simp [counting, Nat.min_eq_left shorter]

variable {l l' : Ledger} {rows seen : List ErasureEntry} {e : Erasure} {row : ErasureEntry}

theorem numbered_iff : Numbered l ↔ ∀ entity,
    generations l.rows entity = counting (generations l.rows entity).length := by
  constructor
  · intro numbered entity
    exact (numbered entity).2.1
  · intro counts entity
    have count := counts entity
    refine ⟨count ▸ counting_nodup _, count, ?_⟩
    rw [latestErasureGeneration, count, max_counting, length_counting]
    split
    · rename_i none
      simp [none]
    · rfl

theorem generations_append (rows : List ErasureEntry) (row : ErasureEntry)
    (entity : String × String) : generations (rows ++ [row]) entity =
      generations rows entity ++ if row.entity = entity then [row.erasureGeneration] else [] := by
  by_cases same : row.entity = entity <;> simp [generations, List.filter_append, same]

theorem generations_isPrefix (before : seen <+: rows) (entity : String × String) :
    generations seen entity <+: generations rows entity :=
  (before.filter _).map _

/-- Over counted generations the statement takes the next number. -/
theorem recordErasure_counting (counts : generations seen e.entity = counting n)
    (inserted : recordErasure seen e = some row) :
    row.entity = e.entity ∧ row.erasureGeneration = (n : Int) + 1 := by
  have next : ((generations seen e.entity).max?.map (· + 1)).getD 1 = (n : Int) + 1 := by
    rw [counts, max_counting]
    by_cases none : n = 0 <;> simp [none]
  rw [recordErasure, next] at inserted
  split at inserted
  · cases inserted
    exact ⟨rfl, rfl⟩
  · contradiction

/-- What every statement under way saw has stayed. -/
def Seen (l : Ledger) : Prop := ∀ e seen, (e, seen) ∈ l.running → seen <+: l.rows

theorem seen_step (all : Seen l) (taken : l.step a = some l') : Seen l' := by
  cases a with
  | start new =>
    cases taken
    intro e seen member
    rcases List.mem_append.mp member with old | last
    · exact all e seen old
    · cases List.mem_singleton.mp last
      exact List.prefix_rfl
  | commit i =>
    simp only [step] at taken
    split at taken
    · contradiction
    · obtain ⟨row, _, rfl⟩ := Option.map_eq_some_iff.mp taken
      intro e seen member
      exact (all e seen (List.mem_of_mem_eraseIdx member)).trans (List.prefix_append _ _)
  | fail i =>
    simp only [step] at taken
    split at taken
    · cases taken
      intro e seen member
      exact all e seen (List.mem_of_mem_eraseIdx member)
    · contradiction

/-- A commit goes on counting exactly when its statement was up to date. -/
theorem numbered_step (all : Seen l) (numbered : Numbered l) (taken : l.step a = some l') :
    Numbered l' ↔ UpToDate l a := by
  have counts := numbered_iff.mp numbered
  cases a with
  | start new =>
    cases taken
    exact ⟨fun _ => trivial, fun _ => numbered⟩
  | fail i =>
    simp only [step] at taken
    split at taken
    · cases taken
      exact ⟨fun _ => trivial, fun _ => numbered⟩
    · contradiction
  | commit i =>
    simp only [step] at taken
    split at taken
    · contradiction
    · rename_i e seen found
      obtain ⟨row, inserted, rfl⟩ := Option.map_eq_some_iff.mp taken
      have before := generations_isPrefix (all e seen (List.mem_of_getElem? found)) e.entity
      have early : generations seen e.entity = counting (generations seen e.entity).length := by
        rw [counts e.entity] at before
        exact counting_of_isPrefix before
      obtain ⟨entity, generation⟩ := recordErasure_counting early inserted
      rw [numbered_iff]
      constructor
      · intro counted e' seen' found'
        rw [found] at found'
        cases found'
        -- The new number is the next one only if nothing was missed.
        have whole := counted e.entity
        rw [generations_append, if_pos entity, generation] at whole
        have sizes : (generations seen e.entity).length = (generations l.rows e.entity).length := by
          rw [List.length_append, List.length_singleton, counting_succ, ← counts e.entity,
            List.append_cancel_left_eq, List.cons.injEq] at whole
          omega
        exact before.eq_of_length sizes
      · intro upToDate other
        have same := upToDate e seen found
        rw [generations_append]
        by_cases own : row.entity = other
        · rw [if_pos own, generation, List.length_append, List.length_singleton, counting_succ,
            ← own, entity, ← counts e.entity, same]
        · rw [if_neg own, List.append_nil]
          exact counts other

/-- In every run the generations count up all the way exactly when every statement that was
committed had seen the committed erasures of its entity. -/
theorem always_numbered_iff (actions : List LedgerAction) :
    Always step Numbered {} actions ↔ EachStep step UpToDate {} actions := by
  refine always_iff_eachStep (J := Seen) (fun all taken => seen_step all taken)
    (fun all numbered taken => numbered_step all numbered taken) ?_ ?_ actions
  · intro e seen member
    contradiction
  · exact numbered_iff.mpr fun entity => rfl

/-- Two statements for one file version that overlap take the same number. -/
theorem overlapping_erasures_repeat : ∃ l,
    play step {} [.start ⟨"file_version", "v1", "t", "SOFT_DELETE"⟩,
      .start ⟨"file_version", "v1", "t", "HARD_PURGE"⟩, .commit 0, .commit 0] = some l ∧
      generations l.rows ("file_version", "v1") = [1, 1] ∧ ¬ Numbered l := by
  refine ⟨_, rfl, by decide, ?_⟩
  intro numbered
  have distinct := (numbered ("file_version", "v1")).1
  revert distinct
  decide

end Ledger
end KDrive.Metadata
