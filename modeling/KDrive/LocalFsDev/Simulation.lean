import KDrive.LocalFsDev.Restocking

/-! Every operation on names does to the files what it does to the bucket they
represent. -/
namespace KDrive.LocalFsDev
open Go Blobstore Filesystem Interaction
variable {p : Provider} {s : Setting} {w w' : World} {b : Bucket} {key id : String} {v : Version}

/-- The outcome is one that the bucket allows. -/
def Provider.Mirrors (p : Provider) (s : Setting) (b : Bucket) (op : Operation)
    (answer : Except GoError op.Answer) (w' : World) : Prop :=
  ∃ b', b.Does s.later b' op answer ∧ p.Represents w' b'

theorem Bucket.keeps_refl (b : Bucket) : b.Keeps later b := ⟨b.time, .inl rfl, rfl⟩

/-- A key that is not valid is refused. -/
theorem ends_guarded {f : Unit → Action α} {post : Except GoError α → World → Prop}
    (flat : '/' ∉ key.toList) (refused : ∀ err, validateKey key = some err → post (.error err) w)
    (next : Plain key → Ends s (f ()).run post w) :
    Ends s (check (validateKey key) >>= f).run post w :=
  Acts.step (acts_check (fun valid => next (plain_of_valid valid flat)) refused)

variable (quiet : ¬ s.fails) (rep : p.Represents w b)
include quiet

section Reading
include rep

theorem mirrors_head (ordered : b.Ordered) {ref : ObjectRef} (flat : '/' ∉ ref.key.toList) :
    Ends s (p.head ref).run (p.Mirrors s b (.head ref)) w := by
  refine ends_guarded flat (fun _ wrong => ⟨b, ⟨b.keeps_refl, .inl wrong⟩, rep⟩) fun plain => ?_
  have same : p.current ref.key = p.chosen ⟨ref.key, ""⟩ := (if_neg (by simp)).symm
  refine Acts.step ?_
  rw [same]
  refine ends_chosen quiet rep ordered plain (by simp) (fun v member top some => ?_)
    fun err absent missing => ⟨b, ⟨b.keeps_refl, .inr ⟨absent, missing⟩⟩, rep⟩
  obtain ⟨data, body⟩ := Option.ne_none_iff_exists'.mp (some rfl)
  rw [body] at top
  exact ⟨b, ⟨b.keeps_refl, v, data, top, rfl⟩, rep⟩

variable {ref : VersionedObjectRef}

theorem mirrors_get (ordered : b.Ordered) {range : Option (Int × Int)}
    (flat : '/' ∉ ref.key.toList) (noSlash : '/' ∉ ref.versionID.toList) :
    Ends s (p.get ref range).run (p.Mirrors s b (.get ref range)) w := by
  refine ends_guarded flat (fun _ wrong => ⟨b, ⟨b.keeps_refl, .inl wrong⟩, rep⟩) fun plain => ?_
  refine Acts.step (ends_chosen quiet rep ordered plain noSlash (fun v member found _ => ?_)
    fun err absent missing => ⟨b, ⟨b.keeps_refl, .inr (.inl ⟨absent, missing⟩)⟩, rep⟩)
  refine Acts.step (ends_openFile quiet ?_)
  change Continues _ _ _ _ (.ok (w.tree.nodeAt (p.versionBodyPath ref.key v.versionID))) _
  rw [rep.body plain member]
  cases body : v.body with
  | none =>
    rw [body] at found
    exact ⟨b, ⟨b.keeps_refl, .inr (.inl ⟨found, rfl⟩)⟩, rep⟩
  | some data =>
    rw [body] at found
    simp only [Continues]
    split
    · rename_i err wrong
      exact ⟨b, ⟨b.keeps_refl, .inr (.inr ⟨v, data, found, wrong⟩)⟩, rep⟩
    · rename_i reader right
      exact ⟨b, ⟨b.keeps_refl, v, data, found, right, rfl⟩, rep⟩

theorem mirrors_listObjectVersions (ordered : b.Ordered) (flat : '/' ∉ key.toList) :
    Ends s (p.listObjectVersions key).run (p.Mirrors s b (.listObjectVersions key)) w := by
  refine ends_guarded flat (fun _ wrong => ⟨b, ⟨b.keeps_refl, wrong⟩, rep⟩) fun plain => ?_
  refine Acts.step (ends_listVersions quiet ?_)
  rw [rep.ordered_listing ordered plain]
  refine ⟨b, ⟨b.keeps_refl, ?_⟩, rep⟩
  rw [List.map_map]
  rfl

theorem mirrors_getRetention (flat : '/' ∉ ref.key.toList) (noSlash : '/' ∉ ref.versionID.toList) :
    Ends s (p.getRetention ref).run (p.Mirrors s b (.getRetention ref)) w := by
  refine ends_guarded flat (fun _ wrong => ⟨b, ⟨b.keeps_refl, .inl wrong⟩, rep⟩) fun plain => ?_
  refine Acts.step (ends_readVersion quiet rep plain noSlash (fun v found => ?_)
    fun err absent missing => ⟨b, ⟨b.keeps_refl, .inr ⟨absent, missing⟩⟩, rep⟩)
  exact ⟨b, ⟨b.keeps_refl, v, found, rfl⟩, rep⟩

end Reading

section Sidecars

omit quiet in
/-- A version is kept in a directory. -/
theorem Shelf.home_of_version {ref : VersionedObjectRef}
    (shelf : Shelf look dir ref.key (b.stack ref.key)) (found : b.version ref = some v) :
    look dir = some .dir :=
  shelf.home.resolve_right fun ⟨_, empty⟩ => by
    have member := (Provider.Represents.version_mem found).1
    rw [empty] at member
    contradiction

/-- A sidecar is written to the directory of its key. -/
theorem ends_shelve {look : Path → Option (Node Content)} (looks : w.tree.look = look)
    (shelf : Shelf look (p.versionsDir key) key stack)
    (home : look (p.versionsDir key) = some .dir) (noSlash : '/' ∉ id.toList) {sc : Sidecar}
    {post : Except GoError Unit → World → Prop}
    (stored : ∀ t, t.look = Function.update look (p.versionsDir key ++ [id ++ ".json"])
      (some (.file (.sidecar sc))) → post (.ok ()) { w with tree := t })
    (failed : ∀ err, ¬ (dated sc.retention.retainUntil ∧ dated sc.writeTime) →
      post (.error err) w) :
    Ends s (writeJSON (p.versionMetaPath key id) sc.marshal).run post w := by
  subst looks
  have tmp : ".tmp".toList.getLast? = some 'p' := by decide
  have free : w.tree.look (p.versionsDir key ++ [id ++ ".json" ++ ".tmp"]) = none := by
    rw [shelf.files]
    exact filesOf_other
      (fun _ => append_ne tmp (by decide : ".json".toList.getLast? = some 'n') (by decide))
      fun _ => append_ne tmp (by decide : ".bin".toList.getLast? = some 'n') (by decide)
  have noDir : w.tree.isDir (p.versionsDir key ++ [id ++ ".json"]) = false := by
    rw [Bool.eq_false_iff, ne_eq, Tree.isDir_iff, shelf.files]
    exact filesOf_ne_dir
  rw [meta_noSlash noSlash]
  refine ends_writeJSON quiet (fun body t marshalled _ _ looks => ?_)
    fun err t cause same _ => ?_
  · obtain ⟨rfl, _⟩ := Sidecar.marshal_ok marshalled
    refine stored t ?_
    have absent :=
      Function.update_eq_self (p.versionsDir key ++ [id ++ ".json" ++ ".tmp"]) w.tree.look
    rw [free] at absent
    rw [looks, absent]
  · have undated : ¬ (dated sc.retention.retainUntil ∧ dated sc.writeTime) := by
      intro dates
      have taken := cause _ (if_pos dates) (Tree.place_child home (by simp [free]))
      exact absurd (noDir.symm.trans taken) (by decide)
    rw [same noDir]
    exact failed err undated

include rep

theorem mirrors_delete {ref : ObjectRef} (flat : '/' ∉ ref.key.toList) :
    Ends s (p.delete ref).run (p.Mirrors s b (.delete ref)) w := by
  refine ends_guarded flat (fun _ wrong => ⟨b, ⟨b.keeps_refl, .inl wrong⟩, rep⟩) fun plain => ?_
  refine Acts.step (ends_anyVersion quiet rep plain ?_)
  by_cases empty : b.stack ref.key = []
  · simp only [Continues, empty, ne_eq, not_true_eq_false, decide_false, Bool.false_eq_true,
      if_false]
    exact ⟨b, ⟨b.keeps_refl, .inr (.inl ⟨empty, rfl⟩)⟩, rep⟩
  · have shelf := rep.shelf ref.key plain
    have home := shelf.home.resolve_right fun absent => empty absent.2
    simp only [Continues, ne_eq, empty, not_false_eq_true, decide_true, if_true]
    refine Acts.step (acts_newVersionID trivial fun new unissued => ?_)
    refine Acts.step (acts_clock trivial fun now later => ?_)
    refine ends_shelve quiet (w := ⟨w.tree, now, new :: w.issued⟩) rfl shelf home unissued.1.noSlash
      (fun t looks => ?_) fun err undated => ?_
    · obtain ⟨pushes, rep'⟩ := rep.marked
        (v := { versionID := new, body := none, writeTime := now })
        ⟨t, now, new :: w.issued⟩ plain unissued later rfl rfl rfl empty looks
      exact ⟨_, ⟨empty, _, pushes⟩, rep'⟩
    · obtain ⟨keeps, rep'⟩ := rep.keeps ⟨w.tree, now, new :: w.issued⟩
        ⟨.inr later, List.subset_cons_self _ _⟩ rfl
      exact ⟨_, ⟨keeps, .inr (.inr ⟨rep.time ▸ later, undated⟩)⟩, rep'⟩

theorem mirrors_updateRetention {ref : VersionedObjectRef}
    {change : Provider.RetentionChange} (flat : '/' ∉ ref.key.toList)
    (noSlash : '/' ∉ ref.versionID.toList) :
    Ends s (p.updateRetention ref change).run (p.Mirrors s b (.updateRetention ref change)) w := by
  refine ends_guarded flat (fun _ wrong => ⟨b, ⟨b.keeps_refl, .inl wrong⟩, rep⟩) fun plain => ?_
  refine Acts.step (ends_readVersion quiet rep plain noSlash (fun v found => ?_)
    fun err absent missing => ⟨b, ⟨b.keeps_refl, .inr (.inl ⟨absent, missing⟩)⟩, rep⟩)
  have shelf := rep.shelf ref.key plain
  have home := shelf.home_of_version found
  simp only [Continues]
  cases updated : Provider.updatedRetention (Version.sidecar ref.key v).retention change with
  | error err => exact ⟨b, ⟨b.keeps_refl, .inr (.inr ⟨v, found, .inl updated⟩)⟩, rep⟩
  | ok retention =>
    refine Acts.step (ends_shelve quiet rfl shelf home noSlash (fun t looks => ?_)
      fun err undated => ?_)
    · exact ⟨_, ⟨v, found, updated, rfl⟩, rep.retained plain found rfl rfl looks⟩
    · exact ⟨b, ⟨b.keeps_refl, .inr (.inr ⟨v, found, .inr ⟨retention, updated, undated⟩⟩)⟩, rep⟩

theorem mirrors_setLegalHold {ref : VersionedObjectRef} {enabled : Bool}
    (flat : '/' ∉ ref.key.toList) (noSlash : '/' ∉ ref.versionID.toList) :
    Ends s (p.setLegalHold ref enabled).run (p.Mirrors s b (.setLegalHold ref enabled)) w := by
  refine ends_guarded flat (fun _ wrong => ⟨b, ⟨b.keeps_refl, .inl wrong⟩, rep⟩) fun plain => ?_
  refine Acts.step (ends_readVersion quiet rep plain noSlash (fun v found => ?_)
    fun err absent missing => ⟨b, ⟨b.keeps_refl, .inr (.inl ⟨absent, missing⟩)⟩, rep⟩)
  have shelf := rep.shelf ref.key plain
  have home := shelf.home_of_version found
  refine Acts.step (ends_shelve quiet rfl shelf home noSlash (fun t looks => ?_)
    fun err undated => ?_)
  · exact ⟨_, ⟨v, found, rfl, rfl⟩, rep.retained plain found rfl rfl looks⟩
  · exact ⟨b, ⟨b.keeps_refl, .inr (.inr ⟨v, found, undated⟩)⟩, rep⟩

end Sidecars

section Removing

theorem ends_removeExisting {path : Path} {wrapped : GoError → GoError}
    {post : Except GoError Unit → World → Prop} (real : path ≠ [])
    (noDir : w.tree.look path ≠ some .dir) (missing : w.tree.missing path = .notExist)
    (next : ∀ t, t.look = Function.update w.tree.look path none →
      post (.ok ()) { w with tree := t }) :
    Ends s (Provider.removeExisting path wrapped).run post w := by
  refine Acts.step ?_
  cases found : w.tree.look path with
  | none =>
    have does : w.tree.perform 0 (.remove path) = (.error .notExist, w.tree) := by
      simp only [Tree.perform, found, missing]
    refine ends_call quiet (by simp) does (next w.tree ?_)
    rw [← found, Function.update_eq_self]
  | some node =>
    cases node with
    | dir => exact absurd found noDir
    | file content =>
      exact ends_call quiet (by simp) (Tree.perform_remove found)
        (next _ (Tree.look_unset_eq real))

include rep

theorem ends_deleteVersion {ref : VersionedObjectRef}
    (flat : '/' ∉ ref.key.toList) (noSlash : '/' ∉ ref.versionID.toList)
    {post : Except GoError Unit → World → Prop}
    (removed : ∀ w', validateKey ref.key = none → p.Represents w' (b.remove ref) → post (.ok ()) w')
    (refused : ∀ err, validateKey ref.key = some err → post (.error err) w) :
    Ends s (p.deleteVersion ref).run post w := by
  refine Acts.step (acts_check (fun valid => ?_) refused)
  have plain := plain_of_valid valid flat
  have shelf := rep.shelf ref.key plain
  have noDir : ∀ name, w.tree.look (p.versionsDir ref.key ++ [name]) ≠ some .dir := by
    intro name
    rw [shelf.files]
    exact filesOf_ne_dir
  refine Acts.step ?_
  rw [meta_noSlash noSlash]
  refine ends_removeExisting quiet (by simp) (noDir _) ((rep.clear plain).missing _)
    fun t looks => ?_
  simp only [Continues]
  rw [body_noSlash noSlash]
  refine ends_removeExisting quiet (by simp) ?_ ?_ fun t' looks' => ?_
  · rw [looks, look_update_child, if_neg (json_ne_bin _ _).symm]
    exact noDir _
  · refine Clear.missing (fun above content start found => ?_) _
    rw [looks, Function.update_of_ne fun same => ?_] at found
    · exact rep.clear plain above content start found
    · have lengths := start.length_le
      rw [same, List.length_append, List.length_singleton] at lengths
      omega
  · refine removed _ valid (rep.removed plain rfl rfl ?_)
    rw [looks', looks]

theorem mirrors_deleteVersion {ref : VersionedObjectRef}
    (flat : '/' ∉ ref.key.toList) (noSlash : '/' ∉ ref.versionID.toList) :
    Ends s (p.deleteVersion ref).run (p.Mirrors s b (.deleteVersion ref)) w :=
  ends_deleteVersion quiet rep flat noSlash (fun _ _ rep' => ⟨_, rfl, rep'⟩)
    fun _ wrong => ⟨b, ⟨b.keeps_refl, wrong⟩, rep⟩

/-- The references are worked off one after another, whatever becomes of each. -/
theorem mirrors_deleteBatch (refs : List VersionedObjectRef)
    (flat : ∀ ref ∈ refs, '/' ∉ ref.key.toList ∧ '/' ∉ ref.versionID.toList) :
    Ends s (p.deleteBatch refs).run (p.Mirrors s b (.deleteBatch refs)) w := by
  induction refs generalizing w b with
  | nil => exact ⟨b, ⟨rfl, rfl⟩, rep⟩
  | cons ref rest ih =>
    obtain ⟨flatKey, noSlash⟩ := flat ref List.mem_cons_self
    have rest' : ∀ (b₁ : Bucket) (w₁ : World) (failure : Option GoError),
        validateKey ref.key = failure → p.Represents w₁ b₁ →
        b₁ = (if validateKey ref.key = none then b.remove ref else b) →
        Ends s (do
          let later ← p.deleteBatch rest
          return (ref, failure) :: later : Action _).run
          (p.Mirrors s b (.deleteBatch (ref :: rest))) w₁ := by
      rintro b₁ w₁ failure rfl rep₁ rfl
      refine Acts.step ((ih rep₁ fun other member =>
        flat other (List.mem_cons_of_mem _ member)).imp ?_)
      rintro (err | results) w' ⟨b', does, rep'⟩
      · exact does.elim
      · exact ⟨b', ⟨congrArg _ does.1, does.2⟩, rep'⟩
    rw [Provider.deleteBatch]
    refine Acts.step (Acts.tryCatch (Acts.step ?_))
    refine ends_deleteVersion quiet rep flatKey noSlash (fun w₁ valid rep₁ => ?_)
      fun err wrong => ?_
    · exact rest' _ _ none valid rep₁ (if_pos valid).symm
    · exact rest' _ _ (some err) wrong rep (if_neg (by simp [wrong])).symm

theorem mirrors_purgeAllVersions {ref : ObjectRef} (flat : '/' ∉ ref.key.toList) :
    Ends s (p.purgeAllVersions ref).run (p.Mirrors s b (.purgeAllVersions ref)) w := by
  refine ends_guarded flat (fun _ wrong => ⟨b, ⟨b.keeps_refl, wrong⟩, rep⟩) fun plain => ?_
  have clear := rep.clear plain
  refine Acts.step (ends_call quiet (by simp) Tree.perform_stat ?_)
  rcases (rep.shelf ref.key plain).home with there | ⟨absent, empty⟩
  · simp only [Tree.nodeAt, there]
    refine Acts.step (ends_removeAll quiet clear.unblocked fun t looks => ?_)
    exact ⟨_, rfl, rep.cleared plain rfl rfl looks⟩
  · have missing : w.tree.missing (p.versionsDir ref.key) = .notExist := by
      rw [Tree.missing, clear.unblocked]
      rfl
    have same : b.restack ref.key [] = b := by
      rw [Bucket.restack, ← empty, Function.update_eq_self]
    simp only [Tree.nodeAt, absent, missing]
    exact ⟨b, same.symm, rep⟩

theorem mirrors_abortMultipart {upload : MultipartUpload}
    (flat : '/' ∉ upload.key.toList) (isName : IsName upload.uploadID) :
    Ends s (p.abortMultipart upload).run (p.Mirrors s b (.abortMultipart upload)) w := by
  refine ends_guarded flat (fun _ wrong => ⟨b, ⟨b.keeps_refl, wrong⟩, rep⟩) fun plain => ?_
  refine Acts.step (ends_removeAll quiet (rep.clear_staging plain isName).unblocked
    fun t looks => ?_)
  exact ⟨_, rfl, rep.unstaged _ plain isName rfl rfl looks⟩

end Removing
end KDrive.LocalFsDev
