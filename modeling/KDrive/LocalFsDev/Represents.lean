import KDrive.LocalFsDev.Shelves

/-! The files below the root of a provider as a bucket, and what changes in the one when
something changes in the other. -/
namespace KDrive.LocalFsDev
open Go Blobstore Filesystem Interaction

/-- A key that names a directory next to the staging area. -/
def Plain (key : String) : Prop := IsName key ∧ key ≠ "_multipart"

/-- The staging directory of an upload. -/
def Tray (look : Path → Option (Node Content)) (dir : Path) : Option Staged → Prop
  | none => ∀ path, dir <+: path → look path = none
  | some st => look dir = some .dir ∧
      (∃ mp : MultipartMeta, look (dir ++ ["upload.json"]) = some (.file (.upload mp)) ∧
        mp.contentType = st.contentType ∧ mp.checksumSHA256 = st.checksumSHA256) ∧
      ∀ n, look (dir ++ [partName n]) = (st.parts n).map fun data => .file (.bytes data)

structure Provider.Represents (p : Provider) (w : World) (b : Bucket) : Prop where
  way : ∀ path, path <+: p.root → w.tree.look path = some .dir
  unfiled : ∀ path content, p.staging <+: path → path.length ≤ p.staging.length + 1 →
    w.tree.look path ≠ some (.file content)
  shelf : ∀ key, Plain key → Shelf w.tree.look (p.versionsDir key) key (b.stack key)
  distinct : ∀ key, Distinct w.issued (b.stack key)
  tray : ∀ key id, Plain key → IsName id → Tray w.tree.look (p.multipartDir key id) (b.staged key id)
  handed : ∀ key id, b.staged key id ≠ none → id ∈ w.issued
  time : b.time = w.clock

section Places
variable {p : Provider} {key key' id id' : String} {path : Path}

theorem plain_of_valid (valid : validateKey key = none) (noSlash : '/' ∉ key.toList) : Plain key := by
  obtain ⟨_, _, _, proper, other⟩ := validateKey_none.mp valid
  refine ⟨⟨proper key ?_, noSlash⟩, other⟩
  rw [components_name noSlash]
  exact List.mem_singleton_self _

section
variable (plain : Plain key)
include plain

theorem Plain.versionsDir : p.versionsDir key = p.root ++ [key] :=
  join_name plain.1 _

theorem Plain.multipartDir (isName : IsName id) :
    p.multipartDir key id = p.staging ++ [key, id] := by
  have staging : IsName "_multipart" := by decide
  rw [Provider.multipartDir, join_cons, join_cons, join_name staging, join_name plain.1,
    join_name isName]
  simp [Provider.staging]

omit plain in
theorem apart_names (first : key ≠ key') (dir : Path) : Apart (dir ++ [key]) (dir ++ [key']) := by
  have differs : ∀ {x y : String}, x ≠ y → ¬ dir ++ [x] <+: dir ++ [y] := by
    intro x y differ above
    have same := (List.prefix_append_right_inj dir).mp above
    exact differ (List.cons_prefix_cons.mp same).1
  exact ⟨differs first, differs first.symm⟩

theorem Plain.apart (plain' : Plain key') (differ : key ≠ key') :
    Apart (p.versionsDir key) (p.versionsDir key') := by
  rw [plain.versionsDir, plain'.versionsDir]
  exact apart_names differ _

theorem Plain.unstaged : Apart (p.versionsDir key) p.staging := by
  rw [plain.versionsDir]
  exact apart_names plain.2 _

theorem Plain.staged (isName : IsName id) : p.staging <+: p.multipartDir key id := by
  rw [plain.multipartDir isName]
  exact List.prefix_append _ _

theorem Plain.long (isName : IsName id) :
    (p.multipartDir key id).length = p.staging.length + 2 := by
  rw [plain.multipartDir isName, List.length_append]
  rfl

/-- Directories of uploads lie side by side. -/
theorem Plain.multipartDir_inj (plain' : Plain key') (isName : IsName id)
    (isName' : IsName id') (above : p.multipartDir key id <+: p.multipartDir key' id') :
    key = key' ∧ id = id' := by
  have same := above.eq_of_length (by rw [plain.long isName, plain'.long isName'])
  rw [plain.multipartDir isName, plain'.multipartDir isName'] at same
  have names := List.append_cancel_left same
  injection names with first rest
  injection rest with second
  exact ⟨first, second⟩

end

theorem below_staging (staged : p.staging <+: path) : Below p.root path := by
  obtain ⟨rest, rfl⟩ := staged
  rw [Provider.staging, List.append_assoc]
  exact below_append (by simp) _

theorem not_inside_root (above : path <+: p.root) (name : String) : ¬ p.root ++ [name] <+: path := by
  intro inside
  have lengths := (inside.trans above).length_le
  rw [List.length_append, List.length_singleton] at lengths
  omega

end Places

section Frames
variable {p : Provider} {s : Setting} {w w' : World} {b : Bucket} {key id : String}

theorem Shelf.congr {look look' : Path → Option (Node Content)} {dir : Path}
    (shelf : Shelf look dir key stack) (same : ∀ path, dir <+: path → look' path = look path) :
    Shelf look' dir key stack := by
  refine ⟨?_, fun name => ?_⟩
  · rw [same dir (List.prefix_refl _)]
    exact shelf.home
  · rw [same _ (List.prefix_append _ _)]
    exact shelf.files name

theorem Tray.congr {look look' : Path → Option (Node Content)} {dir : Path} {st : Option Staged}
    (tray : Tray look dir st) (same : ∀ path, dir <+: path → look' path = look path) :
    Tray look' dir st := by
  cases st with
  | none => exact fun path inside => (same path inside).trans (tray path inside)
  | some st =>
    obtain ⟨there, ⟨mp, record, told⟩, parts⟩ := tray
    refine ⟨(same _ (List.prefix_refl _)).trans there,
      ⟨mp, (same _ (List.prefix_append _ _)).trans record, told⟩, fun n => ?_⟩
    exact (same _ (List.prefix_append _ _)).trans (parts n)

theorem Distinct.mono (distinct : Distinct ids stack) (more : ids ⊆ ids') : Distinct ids' stack where
  nodup := distinct.nodup
  isID := distinct.isID
  issued v member := more (distinct.issued v member)

/-- Time may pass and version IDs may be handed out. -/
structure Onward (s : Setting) (w w' : World) : Prop where
  clock : w'.clock = w.clock ∨ s.later w.clock w'.clock
  issued : w.issued ⊆ w'.issued

theorem Onward.trans (trans : ∀ {a b c}, s.later a b → s.later b c → s.later a c)
    (first : Onward s w w₁) (second : Onward s w₁ w') : Onward s w w' := by
  refine ⟨?_, List.Subset.trans first.issued second.issued⟩
  rcases second.clock with same | later
  · rw [same]
    exact first.clock
  · rcases first.clock with same | before
    · exact .inr (same ▸ later)
    · exact .inr (trans before later)

/-- A stack changes with the directory of its key. -/
theorem Provider.Represents.restack (rep : p.Represents w b) (w' : World) (plain : Plain key)
    (more : w.issued ⊆ w'.issued)
    (frame : ∀ path, ¬ p.versionsDir key <+: path → w'.tree.look path = w.tree.look path)
    (shelf : Shelf w'.tree.look (p.versionsDir key) key stack)
    (distinct : Distinct w'.issued stack) :
    p.Represents w' { b.restack key stack with time := w'.clock } := by
  have above : ∀ path, path <+: p.root → ¬ p.versionsDir key <+: path := by
    intro path above
    rw [plain.versionsDir]
    exact not_inside_root above key
  have outside : ∀ path, p.staging <+: path → ¬ p.versionsDir key <+: path :=
    fun path staged => plain.unstaged.symm.not_both staged
  refine ⟨fun path start => ?_, fun path content staged short => ?_, fun other plain' => ?_,
    fun other => ?_, fun other id plain' isName => ?_, fun other id staged => ?_, rfl⟩
  · rw [frame path (above path start)]
    exact rep.way path start
  · rw [frame path (outside path staged)]
    exact rep.unfiled path content staged short
  · by_cases same : other = key
    · subst same
      simpa [Bucket.restack] using shelf
    · simp only [Bucket.restack, Function.update_of_ne same]
      refine (rep.shelf other plain').congr fun path inside => frame path ?_
      exact (plain'.apart plain same).not_both inside
  · by_cases same : other = key
    · subst same
      simpa [Bucket.restack] using distinct
    · simp only [Bucket.restack, Function.update_of_ne same]
      exact (rep.distinct other).mono more
  · refine (rep.tray other id plain' isName).congr fun path inside => frame path ?_
    exact outside path ((plain'.staged isName).trans inside)
  · exact more (rep.handed other id staged)

/-- An upload changes with its directory; directories may appear on the way to it. -/
theorem Provider.Represents.restage (rep : p.Represents w b) (w' : World) (plain : Plain key)
    (isName : IsName id) (more : w.issued ⊆ w'.issued)
    (frame : ∀ path, ¬ p.multipartDir key id <+: path → w'.tree.look path = w.tree.look path ∨
      w'.tree.look path = some .dir ∧ p.staging <+: path ∧ path <+: p.multipartDir key id)
    (tray : Tray w'.tree.look (p.multipartDir key id) st)
    (handed : st ≠ none → id ∈ w'.issued) :
    p.Represents w' { b.stage key id st with time := w'.clock } := by
  have same : ∀ path, ¬ p.staging <+: path → w'.tree.look path = w.tree.look path := by
    intro path outside
    refine (frame path fun inside => outside ((plain.staged isName).trans inside)).resolve_right ?_
    exact fun ⟨_, staged, _⟩ => outside staged
  have long := plain.long (p := p) isName
  refine ⟨fun path start => ?_, fun path content staged short => ?_, fun other plain' => ?_,
    fun other => ?_, fun other other' plain' isName' => ?_, fun other other' staged => ?_, rfl⟩
  · rw [same path (not_inside_root start "_multipart")]
    exact rep.way path start
  · rcases frame path (fun inside => by have := inside.length_le; omega) with kept | ⟨made, _⟩
    · rw [kept]
      exact rep.unfiled path content staged short
    · rw [made]
      simp
  · refine (rep.shelf other plain').congr fun path inside => same path ?_
    exact plain'.unstaged.not_both inside
  · exact (rep.distinct other).mono more
  · by_cases here : other = key ∧ other' = id
    · obtain ⟨rfl, rfl⟩ := here
      simpa [Bucket.stage] using tray
    · have kept : (b.stage key id st).staged other other' = b.staged other other' := by
        simp only [Bucket.stage]
        by_cases sameKey : other = key
        · subst sameKey
          rw [Function.update_self, Function.update_of_ne fun sameID => here ⟨rfl, sameID⟩]
        · rw [Function.update_of_ne sameKey]
      change Tray _ _ ((b.stage key id st).staged other other')
      rw [kept]
      refine (rep.tray other other' plain' isName').congr fun path inside => ?_
      have apart : Apart (p.multipartDir other other') (p.multipartDir key id) := by
        refine ⟨fun above => here (plain'.multipartDir_inj plain isName' isName above), fun above => ?_⟩
        obtain ⟨sameKey, sameID⟩ := plain.multipartDir_inj plain' isName isName' above
        exact here ⟨sameKey.symm, sameID.symm⟩
      refine (frame path (apart.not_both inside)).resolve_right fun ⟨_, _, above⟩ => ?_
      exact apart.1 (inside.trans above)
  · by_cases here : other = key ∧ other' = id
    · obtain ⟨rfl, rfl⟩ := here
      simp only [Bucket.stage, Function.update_self] at staged
      exact handed staged
    · refine more (rep.handed other other' ?_)
      simp only [Bucket.stage] at staged
      by_cases sameKey : other = key
      · subst sameKey
        rwa [Function.update_self, Function.update_of_ne fun sameID => here ⟨rfl, sameID⟩] at staged
      · rwa [Function.update_of_ne sameKey] at staged

theorem Provider.Represents.keeps (rep : p.Represents w b) (w' : World) (onward : Onward s w w')
    (same : w'.tree.look = w.tree.look) :
    b.Keeps s.later { b with time := w'.clock } ∧ p.Represents w' { b with time := w'.clock } := by
  refine ⟨⟨w'.clock, rep.time ▸ onward.clock, rfl⟩, ?_, ?_, ?_, fun key => ?_, ?_, fun key id staged => ?_, rfl⟩
  · rw [same]
    exact rep.way
  · rw [same]
    exact rep.unfiled
  · rw [same]
    exact rep.shelf
  · exact (rep.distinct key).mono onward.issued
  · rw [same]
    exact rep.tray
  · exact onward.issued (rep.handed key id staged)

theorem Provider.Fresh.represents (fresh : p.Fresh w) : p.Represents w (.empty w.clock) := by
  refine ⟨fresh.way, fun path content staged _ => ?_, fun key plain => ⟨?_, fun name => ?_⟩,
    fun key => distinct_nil _,
    fun key id plain isName path inside => ?_, fun _ _ staged => absurd rfl staged, rfl⟩
  · rw [fresh.empty path (below_staging staged)]
    simp
  · rw [plain.versionsDir]
    exact .inr ⟨fresh.empty _ (below_concat.mpr (List.prefix_refl _)), rfl⟩
  · rw [plain.versionsDir]
    exact fresh.empty _ (below_concat.mpr (List.prefix_append _ _))
  · exact fresh.empty _ (below_staging ((plain.staged isName).trans inside))

end Frames
end KDrive.LocalFsDev
