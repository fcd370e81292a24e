import Mathlib.Algebra.BigOperators.Group.List.Basic
import Mathlib.Algebra.Order.Ring.Int
import Mathlib.Tactic.Common

/-! Shedding load in a fixed order. Items are walked from the first on; those that have
to be kept are passed over, and the others go one by one until enough weight is freed.
What goes is the shortest prefix of the removable items that frees enough, and all of
them when no prefix does. -/
namespace Recency

section
variable {α : Type*} (weight : α → Int) (kept : α → Bool)

def total (list : List α) : Int := (list.map weight).sum

/-- The items that go until `excess` is freed. -/
def shed (excess : Int) : List α → List α
  | [] => []
  | a :: rest =>
    if kept a then shed excess rest
    else if excess ≤ 0 then []
    else a :: shed (excess - weight a) rest

def removable (list : List α) : List α := list.filter fun a => !kept a

/-- The shortest prefix of the removable items that frees `excess`, or all of them. -/
structure Sheds (excess : Int) (list gone : List α) : Prop where
  isPrefix : gone <+: removable kept list
  needed : ∀ shorter rest, gone = shorter ++ rest → rest ≠ [] → total weight shorter < excess
  enough : excess ≤ total weight gone ∨ gone = removable kept list

variable {weight kept}

@[simp] theorem total_nil : total weight [] = 0 := rfl

@[simp] theorem total_cons (a : α) (list : List α) :
    total weight (a :: list) = weight a + total weight list := by
  simp [total]

@[simp] theorem total_append (first second : List α) :
    total weight (first ++ second) = total weight first + total weight second := by
  simp [total]

theorem total_perm {first second : List α} (perm : first.Perm second) :
    total weight first = total weight second :=
  (perm.map weight).sum_eq

theorem removable_cons_kept {a : α} (keep : kept a = true) (list : List α) :
    removable kept (a :: list) = removable kept list := by
  simp [removable, keep]

theorem removable_cons_free {a : α} (free : kept a = false) (list : List α) :
    removable kept (a :: list) = a :: removable kept list := by
  simp [removable, free]

/-- A weight is kept or removable. -/
theorem total_kept_removable (list : List α) :
    total weight list = total weight (list.filter kept) + total weight (removable kept list) := by
  induction list with
  | nil => rfl
  | cons a list ih =>
    cases keep : kept a with
    | true =>
      rw [removable_cons_kept keep, List.filter_cons_of_pos keep, total_cons, total_cons, ih]
      omega
    | false =>
      have out : ¬ kept a = true := by simp [keep]
      rw [removable_cons_free keep, List.filter_cons_of_neg out, total_cons, total_cons, ih]
      omega

theorem total_nonneg (light : ∀ a, 0 ≤ weight a) (list : List α) : 0 ≤ total weight list := by
  induction list with
  | nil => exact le_rfl
  | cons a list ih =>
    have here := light a
    rw [total_cons]
    omega

theorem mem_removable {list : List α} : a ∈ removable kept list ↔ a ∈ list ∧ kept a = false := by
  simp [removable]

theorem shed_of_nonpos (little : excess ≤ 0) (list : List α) : shed weight kept excess list = [] := by
  induction list with
  | nil => rfl
  | cons a rest ih =>
    simp only [shed]
    split
    · exact ih
    · rfl

theorem shed_sheds (excess : Int) (list : List α) :
    Sheds weight kept excess list (shed weight kept excess list) := by
  induction list generalizing excess with
  | nil =>
    refine ⟨List.prefix_rfl, ?_, .inr rfl⟩
    intro shorter rest split some
    have none : shorter ++ rest = [] := split.symm
    exact absurd (List.append_eq_nil_iff.mp none).2 some
  | cons a list ih =>
    cases keep : kept a with
    | true =>
      have same : shed weight kept excess (a :: list) = shed weight kept excess list := by
        simp only [shed, keep, if_true]
      rw [same]
      obtain ⟨isPrefix, needed, enough⟩ := ih excess
      rw [← removable_cons_kept keep list] at isPrefix enough
      exact ⟨isPrefix, needed, enough⟩
    | false =>
      by_cases little : excess ≤ 0
      · rw [shed_of_nonpos little]
        refine ⟨List.nil_prefix, ?_, .inl little⟩
        intro shorter rest split some
        exact absurd (List.append_eq_nil_iff.mp split.symm).2 some
      · have same : shed weight kept excess (a :: list) =
            a :: shed weight kept (excess - weight a) list := by
          simp [shed, keep, little]
        rw [same]
        obtain ⟨isPrefix, needed, enough⟩ := ih (excess - weight a)
        constructor
        · rw [removable_cons_free keep]
          exact List.cons_prefix_cons.mpr ⟨rfl, isPrefix⟩
        · intro shorter rest split some
          cases shorter with
          | nil =>
            simp only [total_nil]
            omega
          | cons b shorter =>
            obtain ⟨rfl, tail⟩ := List.cons.inj split
            have lower := needed shorter rest tail some
            rw [total_cons]
            omega
        · rcases enough with freed | all
          · left
            rw [total_cons]
            omega
          · right
            rw [removable_cons_free keep, ← all]

theorem Sheds.subset {gone : List α} (sheds : Sheds weight kept excess list gone)
    (member : a ∈ gone) : a ∈ list ∧ kept a = false :=
  mem_removable.mp (sheds.isPrefix.subset member)

theorem Sheds.total_le (sheds : Sheds weight kept excess list gone)
    (light : ∀ a, 0 ≤ weight a) : total weight gone ≤ total weight (removable kept list) := by
  obtain ⟨rest, all⟩ := sheds.isPrefix
  have more := total_nonneg light rest
  rw [← all, total_append]
  omega

/-- The conditions leave no choice. -/
theorem Sheds.unique {gone gone' : List α} (first : Sheds weight kept excess list gone)
    (second : Sheds weight kept excess list gone') : gone = gone' := by
  have shorter : ∀ {p q : List α}, Sheds weight kept excess list p →
      Sheds weight kept excess list q → p <+: q → p = q := by
    intro p q here there ⟨rest, split⟩
    by_contra different
    have some : rest ≠ [] := by
      rintro rfl
      exact different (by rw [← split, List.append_nil])
    have lower := there.needed p rest split.symm some
    rcases here.enough with freed | all
    · omega
    · have bound := there.isPrefix.length_le
      have more : 0 < rest.length := List.length_pos_iff.mpr some
      rw [← split, List.length_append, all] at bound
      omega
  rcases List.prefix_or_prefix_of_prefix first.isPrefix second.isPrefix with before | after
  · exact shorter first second before
  · exact (shorter second first after).symm

theorem shed_kept_append {pre : List α} (keep : ∀ a ∈ pre, kept a = true) (excess : Int)
    (list : List α) : shed weight kept excess (pre ++ list) = shed weight kept excess list := by
  induction pre with
  | nil => rfl
  | cons a pre ih =>
    have here : kept a = true := keep a List.mem_cons_self
    simp only [List.cons_append, shed, here, if_true]
    exact ih fun b member => keep b (List.mem_cons_of_mem _ member)

/-- The first removable item goes first; the rest is shed from what is left. -/
theorem shed_first {pre post : List α} {a : α} (keep : ∀ b ∈ pre, kept b = true)
    (free : kept a = false) (much : 0 < excess) :
    shed weight kept excess (pre ++ a :: post) =
      a :: shed weight kept (excess - weight a) (pre ++ post) := by
  have more : ¬ excess ≤ 0 := by omega
  rw [shed_kept_append keep, shed_kept_append keep]
  simp [shed, free, more]

theorem shed_none {list : List α} (keep : ∀ a ∈ list, kept a = true) (excess : Int) :
    shed weight kept excess list = [] := by
  have all : shed weight kept excess (list ++ []) = shed weight kept excess [] :=
    shed_kept_append keep excess []
  rwa [List.append_nil] at all

theorem shed_congr {weight' : α → Int} {kept' : α → Bool} {list : List α}
    (weights : ∀ a ∈ list, weight a = weight' a) (keeps : ∀ a ∈ list, kept a = kept' a)
    (excess : Int) : shed weight kept excess list = shed weight' kept' excess list := by
  induction list generalizing excess with
  | nil => rfl
  | cons a list ih =>
    have rest := ih (fun b member => weights b (List.mem_cons_of_mem _ member))
      (fun b member => keeps b (List.mem_cons_of_mem _ member))
    simp only [shed, weights a List.mem_cons_self, keeps a List.mem_cons_self, rest]

theorem shed_map {β : Type*} (f : β → α) (excess : Int) (list : List β) :
    shed weight kept excess (list.map f) =
      (shed (fun b => weight (f b)) (fun b => kept (f b)) excess list).map f := by
  induction list generalizing excess with
  | nil => rfl
  | cons b list ih =>
    simp only [List.map_cons, shed, ih]
    split
    · rfl
    · split <;> rfl

theorem shed_sublist (excess : Int) (list : List α) :
    (shed weight kept excess list).Sublist list :=
  (shed_sheds excess list).isPrefix.sublist.trans List.filter_sublist

end

/-- The members of a sublist, picked from a list without repetitions. -/
theorem filter_mem_sublist {α : Type*} [DecidableEq α] {some list : List α}
    (fewer : some.Sublist list) (once : list.Nodup) :
    (list.filter fun a => a ∈ some) = some := by
  induction fewer with
  | slnil => rfl
  | @cons some list a fewer ih =>
    obtain ⟨fresh, once⟩ := List.nodup_cons.mp once
    have out : a ∉ some := fun member => fresh (fewer.subset member)
    simpa [out] using ih once
  | @cons_cons some list a fewer ih =>
    obtain ⟨fresh, once⟩ := List.nodup_cons.mp once
    rw [List.filter_cons_of_pos (by simp)]
    congr 1
    refine Eq.trans (List.filter_congr fun b member => ?_) (ih once)
    have apart : b ≠ a := fun same => fresh (same ▸ member)
    simp [apart]

end Recency
