import KDrive.Interaction.Traces
import KDrive.Metadata.Postgres
import Mathlib.Logic.Function.Basic

/-! The write intents: a row per blob key and idempotency token, proposed before an upload and
adopted after it, or abandoned by a sweeper. Every method is one statement over one row, so
that calls which overlap come to one order. -/
namespace KDrive.Metadata
open Go Interaction

inductive IntentState where
  | proposed
  | adopted
  | abandoned
  deriving DecidableEq

/-- Blob key and idempotency token. -/
abbrev IntentKey := String × String

structure WriteIntent where
  blobKey : String
  idempotencyToken : String
  expectedLength : Int
  checksumSHA256 : String
  state : IntentState := .proposed
  generation : Int := 1
  deriving DecidableEq

def WriteIntent.key (intent : WriteIntent) : IntentKey := (intent.blobKey, intent.idempotencyToken)

/-- `provider_write_intents`; the key is declared UNIQUE. -/
abbrev IntentTable := IntentKey → Option WriteIntent

def IntentTable.stateOf (rows : IntentTable) (key : IntentKey) : Option IntentState :=
  (rows key).map WriteIntent.state

/-- `UPDATE ... SET state = final WHERE key AND guard`, with the number of rows it changed. -/
def IntentTable.setState (rows : IntentTable) (key : IntentKey) (guard : IntentState → Bool)
    (final : IntentState) : IntentTable × Nat :=
  match rows key with
  | some row =>
    if guard row.state then (Function.update rows key (some { row with state := final }), 1)
    else (rows, 0)
  | none => (rows, 0)

/-- The rows a statement leaves and the answer of its method, which a lost or failed
statement keeps from the caller. -/
def settle (fate : Fate) (rows : IntentTable) (outcome : IntentTable × Except GoError Unit) :
    IntentTable × Except GoError Unit :=
  match fate with
  | .done => outcome
  | .failed => (rows, .error errStatement)
  | .lost => (outcome.1, .error errStatement)

/-- The INSERT leaves state and generation to their defaults. -/
def createWriteIntent (intent : WriteIntent) (rows : IntentTable) :
    IntentTable × Except GoError Unit :=
  match rows intent.key with
  | some _ => (rows, .error errConflict)
  | none =>
    let row : WriteIntent := { intent with state := .proposed, generation := 1 }
    (Function.update rows intent.key (some row), .ok ())

def adoptWriteIntent (key : IntentKey) (rows : IntentTable) : IntentTable × Except GoError Unit :=
  let (rows', n) := rows.setState key (· = .proposed) .adopted
  if n = 0 then (rows', .error errNotFound) else (rows', .ok ())

def abandonWriteIntent (key : IntentKey) (rows : IntentTable) :
    IntentTable × Except GoError Unit :=
  ((rows.setState key (fun _ => true) .abandoned).1, .ok ())

inductive IntentCall where
  | create (intent : WriteIntent)
  | adopt (key : IntentKey)
  | abandon (key : IntentKey)
  deriving DecidableEq

def IntentCall.perform : IntentCall → IntentTable → IntentTable × Except GoError Unit
  | .create intent => createWriteIntent intent
  | .adopt key => adoptWriteIntent key
  | .abandon key => abandonWriteIntent key

/-- A call that has returned, with the rows it met. -/
structure IntentEvent where
  call : IntentCall
  met : IntentTable
  reply : Except GoError Unit

structure Intents where
  rows : IntentTable
  past : List IntentEvent := []

namespace Intents

def step (s : Intents) : IntentCall × Fate → Option Intents
  | (call, fate) =>
    let (rows, reply) := settle fate s.rows (call.perform s.rows)
    some ⟨rows, s.past ++ [⟨call, s.rows, reply⟩]⟩

def Adopted (e : IntentEvent) (key : IntentKey) : Prop :=
  e.call = .adopt key ∧ e.reply = .ok ()

def Created (e : IntentEvent) (key : IntentKey) : Prop :=
  ∃ intent, e.call = .create intent ∧ intent.key = key ∧ e.reply = .ok ()

structure Settled (s : Intents) : Prop where
  adopted : ∀ key, ∀ e ∈ s.past, Adopted e key → s.rows.stateOf key = some .adopted
  /-- A pair that was abandoned at a call is not adopted by it or by a later one. -/
  abandoned : ∀ before e after, s.past = before ++ e :: after → ∀ key,
    e.met.stateOf key = some .abandoned → ∀ later ∈ e :: after, ¬ Adopted later key
  once : s.past.Pairwise fun e later => ∀ key, Created e key → ¬ Created later key

/-- An intent that is adopted is not abandoned. -/
def Sparing (s : Intents) : IntentCall × Fate → Prop
  | (.abandon key, _) => s.rows.stateOf key ≠ some .adopted
  | _ => True

variable {rows : IntentTable} {s s' : Intents} {call : IntentCall} {fate : Fate}
  {key other : IntentKey} {a : IntentCall × Fate}

/-- What a call that takes effect does to the state of a row. -/
def effect (key : IntentKey) : IntentCall → Option IntentState → Option IntentState
  | .create intent, state => if intent.key = key then state.or (some .proposed) else state
  | .adopt own, state => if own = key ∧ state = some .proposed then some .adopted else state
  | .abandon own, state => if own = key then state.map fun _ => .abandoned else state

theorem stateOf_update (row : WriteIntent) :
    IntentTable.stateOf (Function.update rows other (some row)) key =
      if other = key then some row.state else rows.stateOf key := by
  by_cases same : other = key
  · subst same
    simp [IntentTable.stateOf]
  · simp [IntentTable.stateOf, same, Function.update_of_ne (Ne.symm same)]

theorem stateOf_setState (guard : IntentState → Bool) (final : IntentState) :
    (rows.setState other guard final).1.stateOf key =
      if other = key then (rows.stateOf key).map fun state => if guard state then final else state
      else rows.stateOf key := by
  cases found : rows other with
  | none =>
    by_cases same : other = key
    · subst same
      simp [IntentTable.setState, IntentTable.stateOf, found]
    · simp [IntentTable.setState, found, same]
  | some row =>
    by_cases allowed : guard row.state = true
    · simp only [IntentTable.setState, found, allowed, if_true, stateOf_update]
      split
      · rename_i same
        subst same
        simp [IntentTable.stateOf, found, allowed]
      · rfl
    · have kept : (rows.setState other guard final).1 = rows := by
        simp [IntentTable.setState, found, allowed]
      rw [kept]
      split
      · rename_i same
        subst same
        simp [IntentTable.stateOf, found, allowed]
      · rfl

theorem stateOf_perform : (call.perform rows).1.stateOf key = effect key call (rows.stateOf key) := by
  cases call with
  | create intent =>
    simp only [IntentCall.perform, createWriteIntent, effect]
    cases found : rows intent.key with
    | none =>
      simp only [stateOf_update]
      split
      · rename_i same
        subst same
        simp [IntentTable.stateOf, found]
      · rfl
    | some row =>
      simp only
      split
      · rename_i same
        subst same
        simp [IntentTable.stateOf, found]
      · rfl
  | adopt own =>
    have moved : (adoptWriteIntent own rows).1 =
        (rows.setState own (· = .proposed) .adopted).1 := by
      simp only [adoptWriteIntent]
      split <;> rfl
    simp only [IntentCall.perform, moved, stateOf_setState, effect]
    by_cases same : own = key
    · cases state : rows.stateOf key with
      | none => simp [same]
      | some was => cases was <;> simp [same]
    · simp [same]
  | abandon own => simp [IntentCall.perform, abandonWriteIntent, stateOf_setState, effect]

theorem create_ok (intent : WriteIntent) (fine : (createWriteIntent intent rows).2 = .ok ()) :
    rows.stateOf intent.key = none := by
  cases found : rows intent.key with
  | none => simp [IntentTable.stateOf, found]
  | some row => simp [createWriteIntent, found] at fine

theorem adopt_ok (fine : (adoptWriteIntent key rows).2 = .ok ()) :
    rows.stateOf key = some .proposed := by
  cases found : rows key with
  | none => simp [adoptWriteIntent, IntentTable.setState, found] at fine
  | some row =>
    by_cases proposed : row.state = .proposed
    · simp [IntentTable.stateOf, found, proposed]
    · simp [adoptWriteIntent, IntentTable.setState, found, proposed] at fine

/-- A call leaves the rows alone or takes effect; it is answered nil only if it took effect
and its statement said so. -/
theorem step_cases (taken : s.step (call, fate) = some s') : ∃ reply,
    s'.past = s.past ++ [⟨call, s.rows, reply⟩] ∧
      (s'.rows = s.rows ∨ s'.rows = (call.perform s.rows).1) ∧
      (reply = .ok () → s'.rows = (call.perform s.rows).1 ∧
        (call.perform s.rows).2 = .ok ()) := by
  cases taken
  cases fate with
  | done => exact ⟨_, rfl, .inr rfl, fun fine => ⟨rfl, fine⟩⟩
  | failed => exact ⟨_, rfl, .inl rfl, fun fine => by cases fine⟩
  | lost => exact ⟨_, rfl, .inr rfl, fun fine => by cases fine⟩

/-- A row that is abandoned stays so. -/
theorem abandoned_stays (abandoned : s.rows.stateOf key = some .abandoned)
    (taken : s.step a = some s') : s'.rows.stateOf key = some .abandoned := by
  obtain ⟨_, _, same | moved, _⟩ := step_cases taken
  · rw [same, abandoned]
  · rw [moved, stateOf_perform, abandoned]
    cases a.1 <;> simp [effect]

theorem present_stays (present : s.rows.stateOf key ≠ none) (taken : s.step a = some s') :
    s'.rows.stateOf key ≠ none := by
  obtain ⟨_, _, same | moved, _⟩ := step_cases taken
  · rwa [same]
  · rw [moved, stateOf_perform]
    obtain ⟨state, found⟩ := Option.ne_none_iff_exists'.mp present
    rw [found]
    cases a.1 <;> simp only [effect] <;> split <;> simp

/-- A row that is adopted stays so unless it is abandoned. -/
theorem adopted_stays (adopted : s.rows.stateOf key = some .adopted) (sparing : Sparing s a)
    (taken : s.step a = some s') : s'.rows.stateOf key = some .adopted := by
  obtain ⟨call, fate⟩ := a
  obtain ⟨_, _, same | moved, _⟩ := step_cases taken
  · rw [same, adopted]
  · rw [moved, stateOf_perform, adopted]
    cases call with
    | create intent => simp [effect]
    | adopt own => simp [effect]
    | abandon own =>
      have apart : own ≠ key := by
        rintro rfl
        exact sparing adopted
      simp [effect, apart]

/-- What the steps keep: the past has left its mark on the rows. -/
structure Marked (s : Intents) : Prop extends Settled s where
  stillAbandoned : ∀ key, ∀ e ∈ s.past, e.met.stateOf key = some .abandoned →
    s.rows.stateOf key = some .abandoned
  stillPresent : ∀ key, ∀ e ∈ s.past, Created e key → s.rows.stateOf key ≠ none

theorem marked_step (marked : Marked s) (sparing : Sparing s a) (taken : s.step a = some s') :
    Marked s' := by
  obtain ⟨call, fate⟩ := a
  obtain ⟨reply, past, _, answered⟩ := step_cases taken
  -- What the new event says about the rows it met.
  have proposed : ∀ key, Adopted ⟨call, s.rows, reply⟩ key →
      s.rows.stateOf key = some .proposed ∧ s'.rows.stateOf key = some .adopted := by
    rintro key ⟨rfl, fine⟩
    obtain ⟨rows, performed⟩ := answered fine
    have was := adopt_ok performed
    rw [rows, stateOf_perform, was]
    exact ⟨rfl, by simp [effect]⟩
  have absent : ∀ key, Created ⟨call, s.rows, reply⟩ key →
      s.rows.stateOf key = none ∧ s'.rows.stateOf key ≠ none := by
    rintro key ⟨intent, rfl, rfl, fine⟩
    obtain ⟨rows, performed⟩ := answered fine
    have was := create_ok intent performed
    rw [rows, stateOf_perform, was]
    exact ⟨rfl, by simp [effect]⟩
  constructor
  · constructor
    · intro key e member adopted
      rw [past] at member
      rcases List.mem_append.mp member with old | new
      · exact adopted_stays (marked.adopted key e old adopted) sparing taken
      · cases List.mem_singleton.mp new
        exact (proposed key adopted).2
    · intro before e after split key abandoned later member adopted
      rw [past] at split
      -- The new event met an abandoned row if an event before it did.
      have fresh : ∀ key, s.rows.stateOf key = some .abandoned →
          ¬ Adopted ⟨call, s.rows, reply⟩ key := by
        intro key abandoned adopted
        rw [(proposed key adopted).1] at abandoned
        cases abandoned
      rcases List.eq_nil_or_concat after with rfl | ⟨front, last, rfl⟩
      · obtain ⟨-, same⟩ := List.append_inj' split rfl
        cases same
        cases List.mem_singleton.mp member
        exact fresh key abandoned adopted
      · rw [List.concat_eq_append, ← List.cons_append, ← List.append_assoc] at split
        obtain ⟨front_split, same⟩ := List.append_inj' split rfl
        cases same
        rw [List.concat_eq_append, ← List.cons_append] at member
        rcases List.mem_append.mp member with old | new
        · exact marked.abandoned before e front front_split key abandoned later old adopted
        · cases List.mem_singleton.mp new
          have still := marked.stillAbandoned key e (front_split ▸ by simp) abandoned
          exact fresh key still adopted
    · rw [past, List.pairwise_append]
      refine ⟨marked.once, List.pairwise_singleton _ _, ?_⟩
      intro e old later new key created again
      cases List.mem_singleton.mp new
      exact marked.stillPresent key e old created (absent key again).1
  · intro key e member abandoned
    rw [past] at member
    rcases List.mem_append.mp member with old | new
    · exact abandoned_stays (marked.stillAbandoned key e old abandoned) taken
    · cases List.mem_singleton.mp new
      exact abandoned_stays abandoned taken
  · intro key e member created
    rw [past] at member
    rcases List.mem_append.mp member with old | new
    · exact present_stays (marked.stillPresent key e old created) taken
    · cases List.mem_singleton.mp new
      exact (absent key created).2

/-- From any rows, intents stay settled all along a run that abandons no adopted one. -/
theorem always_settled (rows : IntentTable) (calls : List (IntentCall × Fate))
    (sparing : EachStep step Sparing ⟨rows, []⟩ calls) :
    Always step Settled ⟨rows, []⟩ calls := by
  have first : Marked ⟨rows, []⟩ := by
    constructor
    · constructor
      · intro key e member
        contradiction
      · intro before e after split
        simp at split
      · exact List.Pairwise.nil
    · intro key e member
      contradiction
    · intro key e member
      contradiction
  have always := always_of_eachStep (fun marked sparing taken => marked_step marked sparing taken)
    first sparing
  exact always.imp fun _ marked => marked.toSettled

/-- A writer proposes twice and adopts the first intent, and a sweeper abandons the second. -/
theorem always_settled_apart : Always step Settled ⟨fun _ => none, []⟩
    [(.create ⟨"b", "1", 3, "c", .proposed, 1⟩, .done),
      (.create ⟨"b", "2", 3, "c", .proposed, 2⟩, .done), (.adopt ("b", "1"), .done),
      (.abandon ("b", "2"), .done)] := by
  apply always_settled
  intro _ first
  refine ⟨trivial, fun _ second => ⟨trivial, fun _ adopted => ⟨trivial, fun _ _ => ⟨?_, trivial⟩⟩⟩⟩
  cases first
  cases second
  cases adopted
  simp [Sparing, IntentTable.stateOf, WriteIntent.key, Function.update]

/-- The sweeper disowns what was adopted: its UPDATE has no guard on the state. -/
theorem abandon_undoes_adopt : ∃ s,
    play step ⟨fun _ => none, []⟩
      [(.create ⟨"b", "1", 3, "c", .proposed, 1⟩, .done), (.adopt ("b", "1"), .done),
        (.abandon ("b", "1"), .done)] = some s ∧
      (∃ e ∈ s.past, Adopted e ("b", "1")) ∧ s.rows.stateOf ("b", "1") = some .abandoned ∧
      ¬ Settled s := by
  refine ⟨_, rfl, ⟨_, List.mem_cons_of_mem _ List.mem_cons_self, rfl, rfl⟩, rfl, ?_⟩
  intro settled
  have adopted := settled.adopted ("b", "1") _
    (List.mem_cons_of_mem _ List.mem_cons_self) ⟨rfl, rfl⟩
  revert adopted
  decide

end Intents
end KDrive.Metadata
