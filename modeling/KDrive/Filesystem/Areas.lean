import KDrive.Filesystem.Effects

/-! Two trees that agree on a directory and on whether a file stands in the way to it.
Calls inside the directory cannot tell them apart, and calls elsewhere keep the agreement. -/
namespace Filesystem
namespace Tree
variable {κ : Type} {t t' : Tree κ} {dir path : Path} {node : Node κ}

structure Agree (dir : Path) (t t' : Tree κ) : Prop where
  look : ∀ path, dir <+: path → t.look path = t'.look path
  way : ∀ path, path <+: dir → t.isFile path = t'.isFile path

theorem Agree.symm (agree : Agree dir t t') : Agree dir t' t :=
  ⟨fun path inside => (agree.look path inside).symm, fun path above => (agree.way path above).symm⟩

theorem Agree.trans (first : Agree dir t t') (second : Agree dir t' t'') : Agree dir t t'' :=
  ⟨fun path inside => (first.look path inside).trans (second.look path inside),
    fun path above => (first.way path above).trans (second.way path above)⟩

variable (agree : Agree dir t t')
include agree

section
variable (inside : dir <+: path)
include inside

theorem Agree.isDir : t.isDir path = t'.isDir path := by
  rw [Tree.isDir, Tree.isDir, agree.look path inside]

theorem Agree.isFile : t.isFile path = t'.isFile path := by
  rw [Tree.isFile, Tree.isFile, agree.look path inside]

theorem Agree.blocked : t.blocked path = t'.blocked path := by
  have same : ∀ above, above <+: path → t.isFile above = t'.isFile above := by
    intro above start
    rcases List.prefix_or_prefix_of_prefix start inside with above' | inside'
    · exact agree.way above above'
    · exact agree.isFile inside'
  rw [Bool.eq_iff_iff, blocked_iff, blocked_iff]
  constructor
  · rintro ⟨above, start, proper, file⟩
    exact ⟨above, start, proper, (same above start) ▸ file⟩
  · rintro ⟨above, start, proper, file⟩
    exact ⟨above, start, proper, (same above start) ▸ file⟩

theorem Agree.missing : t.missing path = t'.missing path := by
  rw [Tree.missing, Tree.missing, agree.blocked inside]

theorem Agree.names : t.names path = t'.names path := by
  refine names_eq fun name => ?_
  rw [agree.look _ (inside.trans (List.prefix_append _ _))]

end

section
variable (below : Below dir path)
include below

omit agree in
theorem parent_inside : dir <+: path.dropLast := by
  have real : path ≠ [] := by
    rintro rfl
    exact below.2 (List.prefix_nil.mp below.1).symm
  rw [← List.dropLast_append_getLast real, below_concat] at below
  exact below

theorem Agree.place : t.place path = t'.place path := by
  rw [Tree.place, Tree.place, agree.isDir (parent_inside below), agree.missing below.1,
    agree.isDir below.1]

omit agree in
theorem not_above : ¬ path <+: dir := fun above =>
  below.2 (above.eq_of_length (Nat.le_antisymm above.length_le below.1.length_le))

/-- Both trees change alike at one path inside. -/
theorem Agree.set : Agree dir (t.set path node) (t'.set path node) := by
  have real : path ≠ [] := fun empty => not_above below (empty ▸ List.nil_prefix)
  refine ⟨fun other inside => ?_, fun other above => ?_⟩
  · rw [look_set real, look_set real, agree.look other inside]
  · have away : other ≠ path := fun same => not_above below (same ▸ above)
    rw [Tree.isFile, Tree.isFile, look_set real, look_set real, if_neg away, if_neg away]
    exact agree.way other above

theorem Agree.unset : Agree dir (t.unset path) (t'.unset path) := by
  have real : path ≠ [] := fun empty => not_above below (empty ▸ List.nil_prefix)
  refine ⟨fun other inside => ?_, fun other above => ?_⟩
  · rw [look_unset real, look_unset real, agree.look other inside]
  · have away : other ≠ path := fun same => not_above below (same ▸ above)
    rw [Tree.isFile, Tree.isFile, look_unset real, look_unset real, if_neg away, if_neg away]
    exact agree.way other above

theorem Agree.cut : Agree dir (t.cut path) (t'.cut path) := by
  refine ⟨fun other inside => ?_, fun other above => ?_⟩
  · rw [look_cut, look_cut, agree.look other inside]
  · have away : ¬ (other ≠ [] ∧ path <+: other) := fun inside =>
      not_above below (inside.2.trans above)
    rw [Tree.isFile, Tree.isFile, look_cut, look_cut, if_neg away, if_neg away]
    exact agree.way other above

end

theorem Agree.makeDirs : Agree dir (t.makeDirs dir) (t'.makeDirs dir) := by
  refine ⟨fun other inside => ?_, fun other above => ?_⟩
  · rw [look_makeDirs, look_makeDirs, agree.look other inside]
  · rw [Tree.isFile, Tree.isFile, look_makeDirs, look_makeDirs, if_pos above, if_pos above]

end Tree

/-- A call that stays inside a directory, which it may make. -/
def Call.Inside {κ : Type} (dir : Path) : Call κ → Prop
  | .mkdirAll path => path = dir
  | .createTemp folder _ => dir <+: folder
  | .create path | .write path _ | .remove path | .removeAll path | .writeFile path _ =>
    Below dir path
  | .rename source target => Below dir source ∧ Below dir target
  | .openFile path | .readFile path | .readDir path | .stat path => dir <+: path
  | .close _ => True

namespace Tree
variable {κ : Type} {t t' : Tree κ} {dir : Path} {c : Call κ} {random : Nat}

theorem Agree.free (agree : Agree dir t t') (inside : c.Inside dir) (free : t.free random c) :
    t'.free random c := by
  cases c with
  | createTemp folder stem =>
    have below : dir <+: folder ++ [stem ++ toString random] := inside.trans (List.prefix_append _ _)
    exact (agree.look _ below).symm.trans free
  | _ => trivial

variable [Contents κ]

/-- Inside the directory nothing tells the trees apart. -/
theorem Agree.perform (agree : Agree dir t t') (inside : c.Inside dir) :
    (t.perform random c).1 = (t'.perform random c).1 ∧
      Agree dir (t.perform random c).2 (t'.perform random c).2 := by
  cases c with
  | mkdirAll path =>
    cases inside
    simp only [Tree.perform, agree.blocked (List.prefix_refl _), agree.isFile (List.prefix_refl _)]
    split
    · exact ⟨rfl, agree⟩
    · exact ⟨rfl, agree.makeDirs⟩
  | createTemp folder stem =>
    have below : Below dir (folder ++ [stem ++ toString random]) := below_concat.mpr inside
    simp only [Tree.perform, agree.isDir inside, agree.missing below.1]
    split
    · exact ⟨rfl, agree⟩
    · exact ⟨rfl, agree.set below⟩
  | create path =>
    simp only [Tree.perform, agree.place inside]
    split
    · exact ⟨rfl, agree⟩
    · exact ⟨rfl, agree.set inside⟩
  | write path content =>
    simp only [Tree.perform, agree.look path inside.1, agree.missing inside.1]
    split
    · exact ⟨rfl, agree.set inside⟩
    · exact ⟨rfl, agree⟩
    · exact ⟨rfl, agree⟩
  | close path => exact ⟨rfl, agree⟩
  | rename source target =>
    simp only [Tree.perform, agree.look source inside.1.1, agree.missing inside.1.1,
      agree.place inside.2]
    split
    · split
      · exact ⟨rfl, agree⟩
      · exact ⟨rfl, (agree.unset inside.1).set inside.2⟩
    · exact ⟨rfl, agree⟩
    · exact ⟨rfl, agree⟩
  | remove path =>
    simp only [Tree.perform, agree.look path inside.1, agree.missing inside.1,
      agree.names inside.1]
    split
    · exact ⟨rfl, agree.unset inside⟩
    · split
      · exact ⟨rfl, agree.unset inside⟩
      · exact ⟨rfl, agree⟩
    · exact ⟨rfl, agree⟩
  | removeAll path =>
    simp only [Tree.perform, agree.blocked inside.1]
    split
    · exact ⟨rfl, agree⟩
    · exact ⟨rfl, agree.cut inside⟩
  | openFile path | stat path =>
    simp only [Tree.perform, agree.look path inside, agree.missing inside]
    split <;> exact ⟨rfl, agree⟩
  | readFile path =>
    simp only [Tree.perform, agree.look path inside, agree.missing inside]
    split <;> exact ⟨rfl, agree⟩
  | writeFile path content =>
    simp only [Tree.perform, agree.place inside]
    split
    · exact ⟨rfl, agree⟩
    · exact ⟨rfl, agree.set inside⟩
  | readDir path =>
    have entries : ∀ name, t.isDir (path ++ [name]) = t'.isDir (path ++ [name]) := fun name =>
      agree.isDir (inside.trans (List.prefix_append _ _))
    simp only [Tree.perform, agree.look path inside, agree.missing inside, agree.names inside, entries]
    split <;> exact ⟨rfl, agree⟩

/-- A call that changes nothing inside the directory, and on the way to it only makes
directories. -/
theorem agree_perform (elsewhere : ∀ path, dir <+: path → ¬ t.Touches random path c)
    (way : ∀ path, path <+: dir → t.Touches random path c → ∃ target, c = .mkdirAll target) :
    Agree dir t (t.perform random c).2 := by
  refine ⟨fun path inside => (look_perform_of_untouched (elsewhere path inside)).symm,
    fun path above => ?_⟩
  by_cases touched : t.Touches random path c
  · obtain ⟨target, rfl⟩ := way path above touched
    have absent := touched.2
    rw [Tree.isFile, absent]
    cases found : ((t.perform random (.mkdirAll target)).2.look path) with
    | none => rw [Tree.isFile, found]
    | some node =>
      rcases look_perform found with before | ⟨_, rfl⟩
      · rw [absent] at before
        contradiction
      · rw [Tree.isFile, found]
  · rw [Tree.isFile, Tree.isFile, look_perform_of_untouched touched]

end Tree
end Filesystem
