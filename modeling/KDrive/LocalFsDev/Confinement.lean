import KDrive.LocalFsDev.Tidy

/-! Which requests stay below the root. A key cannot lead out of it, but a version ID and
an upload ID are joined to a path as they are. -/
namespace KDrive.LocalFsDev
open Go Blobstore Filesystem Interaction
variable {p : Provider} {w : World}

/-- What a call creates, opens, renames or removes lies strictly below the root. -/
def Request.Within (root : Path) : Request → Prop
  | .os (.mkdirAll path) | .os (.create path) | .os (.writeFile path _) | .os (.openFile path)
  | .os (.readFile path) | .os (.readDir path) | .os (.remove path) | .os (.removeAll path) =>
    Below root path
  | .os (.createTemp dir stem) => ∀ random : Nat, Below root (dir ++ [stem ++ toString random])
  | .os (.rename source target) => Below root source ∧ Below root target
  | _ => True

/-- The version ID leads to a place below the root. -/
def Provider.Inside (p : Provider) (ref : VersionedObjectRef) : Prop :=
  validateKey ref.key = none → Below p.root (p.versionMetaPath ref.key ref.versionID)

section Staying

theorem Sidecar.Sound.noSlash {sc : Sidecar} (sound : sc.Sound) : '/' ∉ sc.versionID.toList := by
  rcases sound.versionID with none | issued
  · simp [none]
  · exact issued.noSlash

end Staying

section Leaving
variable {s : Setting}

end Leaving

end KDrive.LocalFsDev
