import KDrive.Filesystem.Calls

/-! What a call can change: the nodes it can put at a path, and the paths at which
anything else can be found afterwards. -/
namespace Filesystem
namespace Tree
variable {κ : Type} {t : Tree κ} {random : Nat} {path : Path} {node : Node κ} {c : Call κ}

theorem place_ok (ok : t.place path = .ok ()) :
    path ≠ [] ∧ t.isDir path.dropLast = true ∧ t.isDir path = false := by
  unfold place at ok
  split at ok
  · contradiction
  · split at ok
    · contradiction
    · rename_i parent free
      refine ⟨?_, by simpa using parent, by simpa using free⟩
      rintro rfl
      exact free (isDir_iff.mpr look_nil)

theorem look_ne_nil (found : t.look path = some (.file content)) : path ≠ [] := by
  rintro rfl
  simp at found

/-- After a new node was put at a path. -/
theorem look_set_cases (real : target ≠ []) (found : (t.set target new).look path = some node) :
    t.look path = some node ∨ path = target ∧ node = new := by
  rw [look_set real] at found
  split at found
  · rename_i here
    cases found
    exact .inr ⟨here, rfl⟩
  · exact .inl found

theorem look_unset_cases (found : (t.unset target).look path = some node) :
    t.look path = some node := by
  by_cases real : target = []
  · by_cases top : path = []
    · subst top
      rwa [look_nil] at found ⊢
    · rw [look_of_ne top] at found ⊢
      rwa [real, unset, AList.lookup_erase_ne top] at found
  · rw [look_unset real] at found
    split at found
    · contradiction
    · exact found

theorem look_unset_of_ne (other : path ≠ target) : (t.unset target).look path = t.look path := by
  by_cases real : target = []
  · subst real
    rw [look_of_ne other, look_of_ne other, unset, AList.lookup_erase_ne other]
  · rw [look_unset real, if_neg other]

theorem look_makeDirs_of_some (free : ¬ (t.blocked target = true ∨ t.isFile target = true))
    (found : t.look path = some node) : (t.makeDirs target).look path = t.look path := by
  rw [look_makeDirs]
  split
  · rename_i above
    cases node with
    | dir => exact found.symm
    | file content =>
      have file : t.isFile path = true := isFile_iff.mpr ⟨content, found⟩
      refine absurd ?_ free
      by_cases same : path = target
      · exact .inr (same ▸ file)
      · exact .inl (blocked_iff.mpr ⟨path, above, same, file⟩)
  · rfl

variable [Contents κ]

/-- The nodes a call can put at a path. -/
def Puts (t : Tree κ) (random : Nat) (path : Path) (node : Node κ) : Call κ → Prop
  | .mkdirAll target => path <+: target ∧ node = .dir
  | .createTemp dir stem => path = dir ++ [stem ++ toString random] ∧ node = .file Contents.empty
  | .create target => path = target ∧ node = .file Contents.empty
  | .write target content => path = target ∧
      ∃ old, t.look target = some (.file old) ∧ node = .file (Contents.append old content)
  | .rename source target => path = target ∧
      ∃ content, t.look source = some (.file content) ∧ node = .file content
  | .writeFile target content => path = target ∧ node = .file content
  | _ => False

/-- Where a call can change what is found. -/
def Touches (t : Tree κ) (random : Nat) (path : Path) : Call κ → Prop
  | .mkdirAll target => path <+: target ∧ t.look path = none
  | .createTemp dir stem => path = dir ++ [stem ++ toString random]
  | .create target | .write target _ | .writeFile target _ | .remove target => path = target
  | .rename source target => path = source ∨ path = target
  | .removeAll target => target <+: path
  | _ => False

/-- What is found after a call was there before, or the call put it there. -/
theorem look_perform (found : (t.perform random c).2.look path = some node) :
    t.look path = some node ∨ t.Puts random path node c := by
  cases c with
  | mkdirAll target =>
    simp only [perform] at found
    split at found
    · exact .inl found
    · rw [look_makeDirs] at found
      split at found
      · rename_i above
        exact .inr ⟨above, (Option.some.inj found).symm⟩
      · exact .inl found
  | createTemp dir stem =>
    simp only [perform] at found
    split at found
    · exact .inl found
    · exact look_set_cases (by simp) found
  | create target =>
    simp only [perform] at found
    split at found
    · exact .inl found
    · rename_i ok
      exact look_set_cases (place_ok ok).1 found
  | write target content =>
    simp only [perform] at found
    split at found
    · rename_i old there
      rcases look_set_cases (look_ne_nil there) found with before | ⟨here, new⟩
      · exact .inl before
      · exact .inr ⟨here, old, there, new⟩
    · exact .inl found
    · exact .inl found
  | rename source target =>
    simp only [perform] at found
    split at found
    · rename_i content there
      split at found
      · exact .inl found
      · rename_i ok
        rcases look_set_cases (place_ok ok).1 found with before | ⟨here, new⟩
        · exact .inl (look_unset_cases before)
        · exact .inr ⟨here, content, there, new⟩
    · exact .inl found
    · exact .inl found
  | remove target =>
    simp only [perform] at found
    split at found
    · exact .inl (look_unset_cases found)
    · split at found
      · exact .inl (look_unset_cases found)
      · exact .inl found
    · exact .inl found
  | removeAll target =>
    simp only [perform] at found
    split at found
    · exact .inl found
    · rw [look_cut] at found
      split at found
      · contradiction
      · exact .inl found
  | writeFile target content =>
    simp only [perform] at found
    split at found
    · exact .inl found
    · rename_i ok
      exact look_set_cases (place_ok ok).1 found
  | close _ => exact .inl found
  | openFile _ | readFile _ | readDir _ | stat _ =>
    simp only [perform] at found
    split at found <;> exact .inl found

/-- Elsewhere everything is as it was. -/
theorem look_perform_of_untouched (untouched : ¬ t.Touches random path c) :
    (t.perform random c).2.look path = t.look path := by
  cases c with
  | mkdirAll target =>
    simp only [perform]
    split
    · rfl
    · rename_i free
      cases found : t.look path with
      | some node => rw [look_makeDirs_of_some free found, found]
      | none =>
        rw [look_makeDirs, if_neg fun above => untouched ⟨above, found⟩, found]
  | createTemp dir stem =>
    simp only [perform]
    split
    · rfl
    · exact (look_set (by simp)).trans (if_neg untouched)
  | create target =>
    simp only [perform]
    split
    · rfl
    · rename_i ok
      exact (look_set (place_ok ok).1).trans (if_neg untouched)
  | write target content =>
    simp only [perform]
    split
    · rename_i there
      exact (look_set (look_ne_nil there)).trans (if_neg untouched)
    · rfl
    · rfl
  | rename source target =>
    simp only [perform]
    split
    · split
      · rfl
      · rename_i ok
        rw [look_set (place_ok ok).1, if_neg fun here => untouched (.inr here)]
        exact look_unset_of_ne fun here => untouched (.inl here)
    · rfl
    · rfl
  | remove target =>
    simp only [perform]
    split
    · exact look_unset_of_ne untouched
    · split
      · exact look_unset_of_ne untouched
      · rfl
    · rfl
  | removeAll target =>
    simp only [perform]
    split
    · rfl
    · rw [look_cut, if_neg fun inside => untouched inside.2]
  | writeFile target content =>
    simp only [perform]
    split
    · rfl
    · rename_i ok
      exact (look_set (place_ok ok).1).trans (if_neg untouched)
  | close _ => rfl
  | openFile _ | readFile _ | readDir _ | stat _ =>
    simp only [perform]
    split <;> rfl

end Tree
end Filesystem
