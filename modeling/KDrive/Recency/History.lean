import KDrive.Recency.Shed
import Mathlib.Data.List.Nodup

/-! A bounded map told by its history. The events, newest first, say what is held and
when each key was last used, and so which keys a store has to evict for its value to fit:
of those that may go, the least recently used ones, and no more than it takes. -/
namespace Recency

/-- What one step did to the map. `stored` comes with the keys it evicted. -/
inductive Event (K V : Type*) where
  | stored (k : K) (v : V) (gone : List K)
  | used (k : K)
  | dropped (k : K)
  | lapsed (k : K)
  | idle

variable {K V : Type*} [DecidableEq K]

namespace Event

/-- The step was a use of `x`. -/
def uses (x : K) : Event K V → Bool
  | .stored k _ _ => x = k
  | .used k => x = k
  | _ => false

/-- The step put something else in the place of what `x` had, or nothing. -/
def ends (x : K) : Event K V → Bool
  | .stored k _ gone => x = k ∨ x ∈ gone
  | .dropped k => x = k
  | .lapsed k => x = k
  | _ => false

end Event

/-- What the map holds after these events. -/
def held : List (Event K V) → K → Option V
  | [], _ => none
  | .stored k v gone :: past, x =>
    if x = k then some v else if x ∈ gone then none else held past x
  | .used _ :: past, x => held past x
  | .dropped k :: past, x => if x = k then none else held past x
  | .lapsed k :: past, x => if x = k then none else held past x
  | .idle :: past, x => held past x

/-- The number of the step that last used `x`. -/
def lastUse : List (Event K V) → K → Nat
  | [], _ => 0
  | event :: past, x => if event.uses x then past.length + 1 else lastUse past x

/-- The other keys that are held, from the one that was used longest ago on. -/
structure ByAge (past : List (Event K V)) (k : K) (order : List K) : Prop where
  once : order.Nodup
  mem : ∀ x, x ∈ order ↔ x ≠ k ∧ (held past x).isSome
  sorted : order.Pairwise fun x y => lastUse past x < lastUse past y

/-- Storing a value of this size under `k` evicts `gone`: with the other keys by age,
the shortest prefix of those that may go whose removal lets the value fit. -/
def Evicts (weight : V → Int) (kept : V → Bool) (capacity : Int) (past : List (Event K V))
    (k : K) (size : Int) (gone : List K) : Prop :=
  ∃ order, ByAge past k order ∧
    Sheds (fun x => ((held past x).map weight).getD 0) (fun x => ((held past x).map kept).getD false)
      (total (fun x => ((held past x).map weight).getD 0) order + size - capacity) order gone

theorem lastUse_le (past : List (Event K V)) (x : K) : lastUse past x ≤ past.length := by
  induction past with
  | nil => exact Nat.le_refl _
  | cons event past ih =>
    simp only [lastUse, List.length_cons]
    split
    · exact Nat.le_refl _
    · omega

/-- Evicting nothing is wrong where something could go and the value alone is too much. -/
theorem not_evicts_nil {weight : V → Int} {kept : V → Bool} {past : List (Event K V)} {k x : K}
    {v : V} (light : ∀ v, 0 ≤ weight v) (other : x ≠ k) (found : held past x = some v)
    (free : kept v = false) (much : capacity < size) :
    ¬ Evicts weight kept capacity past k size [] := by
  rintro ⟨order, byAge, sheds⟩
  rcases sheds.enough with fits | all
  · have least : 0 ≤ total (fun x => ((held past x).map weight).getD 0) order := by
      apply total_nonneg
      intro y
      cases held past y with
      | none => exact le_rfl
      | some v => exact light v
    rw [total_nil] at fits
    omega
  · have resident : x ∈ order := (byAge.mem x).mpr ⟨other, by rw [found]; rfl⟩
    have loose : x ∈ removable (fun x => ((held past x).map kept).getD false) order :=
      mem_removable.mpr ⟨resident, by simp [found, free]⟩
    rw [← all] at loose
    contradiction

theorem held_cons_of_not_ends {event : Event K V} (past : List (Event K V)) {x : K}
    (goesOn : event.ends x = false) : held (event :: past) x = held past x := by
  cases event with
  | stored k v gone =>
    simp only [Event.ends, decide_eq_false_iff_not, not_or] at goesOn
    simp only [held, if_neg goesOn.1, if_neg goesOn.2]
  | used k => rfl
  | dropped k =>
    simp only [Event.ends, decide_eq_false_iff_not] at goesOn
    simp only [held, if_neg goesOn]
  | lapsed k =>
    simp only [Event.ends, decide_eq_false_iff_not] at goesOn
    simp only [held, if_neg goesOn]
  | idle => rfl

/-- What is held is what the last store put there, if nothing ended it since. -/
theorem held_iff (past : List (Event K V)) (x : K) (v : V) : held past x = some v ↔
    ∃ since gone before, past = since ++ .stored x v gone :: before ∧
      ∀ event ∈ since, event.ends x = false := by
  induction past with
  | nil =>
    constructor
    · intro found
      contradiction
    · rintro ⟨since, gone, before, split, _⟩
      exact absurd split (by simp)
  | cons event past ih =>
    cases ends : event.ends x with
    | false =>
      rw [held_cons_of_not_ends past ends, ih]
      constructor
      · rintro ⟨since, gone, before, rfl, goesOn⟩
        refine ⟨event :: since, gone, before, rfl, ?_⟩
        intro other member
        rcases List.mem_cons.mp member with rfl | later
        · exact ends
        · exact goesOn other later
      · rintro ⟨since, gone, before, split, goesOn⟩
        cases since with
        | nil =>
          obtain ⟨rfl, rfl⟩ := List.cons.inj split
          simp [Event.ends] at ends
        | cons first since =>
          obtain ⟨rfl, rfl⟩ := List.cons.inj split
          exact ⟨since, gone, before, rfl, fun other member =>
            goesOn other (List.mem_cons_of_mem _ member)⟩
    | true =>
      -- The newest event settles it: only a store of `x` itself leaves something.
      have newest : (∃ since gone before, event :: past = since ++ .stored x v gone :: before ∧
          ∀ other ∈ since, other.ends x = false) ↔ ∃ gone, event = .stored x v gone := by
        constructor
        · rintro ⟨since, gone, before, split, goesOn⟩
          cases since with
          | nil =>
            obtain ⟨rfl, -⟩ := List.cons.inj split
            exact ⟨gone, rfl⟩
          | cons first since =>
            obtain ⟨rfl, -⟩ := List.cons.inj split
            rw [goesOn event List.mem_cons_self] at ends
            contradiction
        · rintro ⟨gone, rfl⟩
          exact ⟨[], gone, past, rfl, by simp⟩
      rw [newest]
      cases event with
      | stored k value gone =>
        simp only [held]
        by_cases same : x = k
        · subst same
          simp
        · have evicted : x ∈ gone := by simpa [Event.ends, same] using ends
          simp [same, evicted, Ne.symm same]
      | used k => contradiction
      | dropped k =>
        have same : x = k := by simpa [Event.ends] using ends
        simp [held, same]
      | lapsed k =>
        have same : x = k := by simpa [Event.ends] using ends
        simp [held, same]
      | idle => contradiction

end Recency
