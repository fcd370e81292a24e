import KDrive.Filesystem.Effects

/-! What a call does, exactly: its result and what is found afterwards, as a function of
what was found before. -/
namespace Filesystem
namespace Tree
variable {κ : Type} {t : Tree κ} {path : Path} {node : Node κ}

theorem look_set_eq (real : path ≠ []) :
    (t.set path node).look = Function.update t.look path (some node) := by
  funext other
  rw [look_set real, Function.update_apply]

theorem look_unset_eq (real : path ≠ []) :
    (t.unset path).look = Function.update t.look path none := by
  funext other
  rw [look_unset real, Function.update_apply]

/-- What is found once there is a directory at every place on the way to `dir`. -/
def made (dir : Path) (look : Path → Option (Node κ)) : Path → Option (Node κ) := fun path =>
  if path <+: dir then some .dir else look path

/-- What is found once everything at and below `dir` is gone. -/
def pruned (dir : Path) (look : Path → Option (Node κ)) : Path → Option (Node κ) := fun path =>
  if path ≠ [] ∧ dir <+: path then none else look path

theorem look_makeDirs_eq : (t.makeDirs path).look = made path t.look := by
  funext other
  rw [look_makeDirs, made]

theorem look_cut_eq : (t.cut path).look = pruned path t.look := by
  funext other
  rw [look_cut, pruned]

theorem place_child (parent : t.look dir = some .dir) (free : t.look (dir ++ [name]) ≠ some .dir) :
    t.place (dir ++ [name]) = .ok () := by
  have isDir : t.isDir dir = true := isDir_iff.mpr parent
  have other : t.isDir (dir ++ [name]) = false := by
    rw [Bool.eq_false_iff, ne_eq, isDir_iff]
    exact free
  simp [place, isDir, other]

theorem place_taken (taken : t.isDir path = true) : ∃ err, t.place path = .error err := by
  cases ok : t.place path with
  | error err => exact ⟨err, rfl⟩
  | ok done =>
    rw [(place_ok ok).2.2] at taken
    contradiction

/-- The content of a file. -/
def fileAt (t : Tree κ) (path : Path) : Except Errno κ :=
  match t.look path with
  | some (.file content) => .ok content
  | some .dir => .error .isDir
  | none => .error (t.missing path)

/-- The entries of a directory. -/
def entries (t : Tree κ) (path : Path) : Except Errno (List (String × Bool)) :=
  match t.look path with
  | some .dir => .ok ((t.names path).map fun name => (name, t.isDir (path ++ [name])))
  | some (.file _) => .error .notDir
  | none => .error (t.missing path)

/-- What stands at a path. -/
def nodeAt (t : Tree κ) (path : Path) : Except Errno (Node κ) :=
  match t.look path with
  | some node => .ok node
  | none => .error (t.missing path)

variable [Contents κ]

theorem perform_readDir : t.perform random (.readDir path) = (t.entries path, t) := by
  unfold entries
  cases found : t.look path with
  | none =>
    simp only [perform, found]
    rfl
  | some node =>
    cases node <;>
      simp only [perform, found] <;>
      rfl

theorem perform_openFile : t.perform random (.openFile path) = (t.nodeAt path, t) := by
  unfold nodeAt
  cases found : t.look path <;>
    simp only [perform, found] <;>
    rfl

theorem perform_stat : t.perform random (.stat path) = (t.nodeAt path, t) := by
  unfold nodeAt
  cases found : t.look path <;>
    simp only [perform, found] <;>
    rfl

theorem perform_readFile : t.perform random (.readFile path) = (t.fileAt path, t) := by
  unfold fileAt
  cases found : t.look path with
  | none =>
    simp only [perform, found]
    rfl
  | some node =>
    cases node <;>
      simp only [perform, found] <;>
      rfl

/-- Only the name of a temporary file is up to the host. -/
theorem perform_random {c : Call κ} (plain : ∀ dir stem, c ≠ .createTemp dir stem) (random : Nat) :
    t.perform random c = t.perform 0 c := by
  cases c with
  | createTemp dir stem => exact absurd rfl (plain dir stem)
  | _ => rfl

theorem perform_rename {source target : Path} (found : t.look source = some (.file content))
    (ok : t.place target = .ok ()) : t.perform random (.rename source target) =
      (.ok (), (t.unset source).set target (.file content)) := by
  simp only [perform, found, ok]

theorem perform_rename_error {source target : Path} (found : t.look source = some (.file content))
    (refused : t.place target = .error err) :
    t.perform random (.rename source target) = (.error err, t) := by
  simp only [perform, found, refused]

theorem perform_remove (found : t.look path = some (.file content)) :
    t.perform random (.remove path) = (.ok (), t.unset path) := by
  simp only [perform, found]

theorem perform_writeFile_error
    (does : t.perform random (.writeFile path content) = (.error err, t')) :
    t.place path = .error err ∧ t' = t := by
  simp only [perform] at does
  split at does
  · rename_i refused
    cases does
    exact ⟨refused, rfl⟩
  · cases does

theorem perform_writeFile_ok (does : t.perform random (.writeFile path content) = (.ok value, t')) :
    t.place path = .ok () ∧ t' = t.set path (.file content) := by
  simp only [perform] at does
  split at does
  · cases does
  · rename_i ok
    exact ⟨ok, (Prod.mk.inj does).2.symm⟩

end Tree
end Filesystem
