import KDrive.Filesystem.Effects
import KDrive.LocalFsDev.Conduct

/-! The files of a provider stay tidy: whatever an operation puts below the root, under
any version and upload IDs it was given, fits the place it is put at. -/
namespace KDrive.LocalFsDev
open Go Blobstore Filesystem Interaction
variable {p : Provider} {path dir : Path} {node : Node Content}

section Places

theorem tmpOf_concat (dir : Path) (name : String) : tmpOf (dir ++ [name]) = dir ++ [name ++ ".tmp"] := by
  simp [tmpOf]

/-- The directory a version ID leads to from the one of its key. -/
def Provider.folder (p : Provider) (key versionID : String) : Path :=
  (folderOf versionID).foldl enter (p.versionsDir key)

theorem versionMetaPath_eq (key versionID : String) :
    p.versionMetaPath key versionID = p.folder key versionID ++ [stemOf versionID ++ ".json"] :=
  join_append _ _ (by decide) (isName_append (stemOf_noSlash _) (by decide) (by decide)).1

theorem versionBodyPath_eq (key versionID : String) :
    p.versionBodyPath key versionID = p.folder key versionID ++ [stemOf versionID ++ ".bin"] :=
  join_append _ _ (by decide) (isName_append (stemOf_noSlash _) (by decide) (by decide)).1

theorem meta_noSlash (noSlash : '/' ∉ version.toList) :
    p.versionMetaPath key version = p.versionsDir key ++ [version ++ ".json"] :=
  join_name (isName_append noSlash (by decide) (by decide)) _

theorem body_noSlash (noSlash : '/' ∉ version.toList) :
    p.versionBodyPath key version = p.versionsDir key ++ [version ++ ".bin"] :=
  join_name (isName_append noSlash (by decide) (by decide)) _

theorem uploadPath_eq (upload : MultipartUpload) :
    p.uploadPath upload = p.multipartDir upload.key upload.uploadID ++ ["upload.json"] := by
  have name : IsName "upload.json" := by decide
  exact join_name name _

end Places

section Fitting

theorem named_versionsDir (key : String) : Named p.root.length (p.versionsDir key) :=
  (named_self p.root).join [key]

theorem named_tempPath (key : String) (random : Nat) :
    Named p.root.length (p.tempPath key random) :=
  (named_versionsDir key).concat (isName_temp random)

theorem named_folder (key versionID : String) : Named p.root.length (p.folder key versionID) := by
  refine (named_versionsDir key).foldl_enter fun name member => ?_
  exact noSlash_of_mem_components ((List.dropLast_sublist _).mem member)

theorem named_tmpOf (named : Named n (dir ++ [stem ++ ".json"])) (noSlash : '/' ∉ stem.toList) :
    Named n (tmpOf (dir ++ [stem ++ ".json"])) := by
  rw [tmpOf_concat]
  refine (named.of_above (List.prefix_append _ _)).concat ?_
  refine isName_append ?_ (by decide) (by decide)
  exact (isName_append noSlash (by decide) (by decide)).2

theorem concat_inj {dir' : Path} (same : dir ++ [name] = dir' ++ [name']) :
    dir = dir' ∧ name = name' :=
  ⟨(List.append_inj' same rfl).1, List.singleton_inj.mp (List.append_inj' same rfl).2⟩

theorem fits_dir (named : Named p.root.length path) : p.Fits path .dir where
  named _ := named
  sound _ impossible := by contradiction
  placed _ impossible := by contradiction
  staged _ impossible := by contradiction
  raw _ _ _ impossible := by contradiction

theorem fits_bytes (named : Named p.root.length (dir ++ [name])) (other : ¬ IsJSONName name) :
    p.Fits (dir ++ [name]) (.file (.bytes data)) where
  named _ := named
  sound _ same _ := by
    cases same
    trivial
  placed _ impossible := by cases impossible
  staged _ impossible := by cases impossible
  raw _ _ _ _ same _ := (concat_inj same).2 ▸ other

theorem not_isJSONName_temp (random : Nat) : ¬ IsJSONName (".tmp-" ++ toString random) := by
  rintro ⟨stem, same | same⟩
  · exact temp_ne (by decide : ".json".toList.getLast? = some 'n') (by decide) same
  · exact temp_ne (by decide : ".tmp".toList.getLast? = some 'p') (by decide) same

theorem not_isJSONName_part (n : Int) : ¬ IsJSONName (partName n) := by
  rintro ⟨stem, same | same⟩
  · exact partName_ne (by decide : ".json".toList.getLast? = some 'n') (by decide) same
  · exact partName_ne (by decide : ".tmp".toList.getLast? = some 'p') (by decide) same

theorem partPath_eq (upload : MultipartUpload) (n : Int) :
    p.partPath upload n = p.multipartDir upload.key upload.uploadID ++ [partName n] :=
  join_name (isName_partName n) _

theorem fits_part (upload : MultipartUpload) (n : Int) (data : Bytes) :
    p.Fits (p.partPath upload n) (.file (.bytes data)) := by
  rw [partPath_eq]
  exact fits_bytes (((named_self p.root).join _).concat (isName_partName n)) (not_isJSONName_part n)

theorem fits_temp (key : String) (random : Nat) (data : Bytes) :
    p.Fits (p.tempPath key random) (.file (.bytes data)) :=
  fits_bytes (named_tempPath key random) (not_isJSONName_temp random)

theorem append_bytes (old : Content) (data : Bytes) :
    ∃ all, Contents.append old (.bytes data) = .bytes all := by
  cases old with
  | bytes first => exact ⟨first ++ data, rfl⟩
  | sidecar sc => exact ⟨data, rfl⟩
  | upload mp => exact ⟨data, rfl⟩

theorem staging_concat (p : Provider) (other : name ≠ "_multipart") :
    p.staging <+: dir ++ [name] ↔ p.staging <+: dir := by
  rw [List.prefix_concat_iff]
  refine or_iff_right fun same => other ?_
  exact (List.append_inj' same rfl).2 |> List.singleton_inj.mp |>.symm

/-- A file is moved within its directory. -/
theorem Provider.Fits.sibling (fits : p.Fits (dir ++ [old]) node) (isName : IsName new)
    (oldApart : old ≠ "_multipart") (newApart : new ≠ "_multipart")
    (json : IsJSONName new → IsJSONName old)
    (moves : ∀ sc : Sidecar, dir ++ [old] = p.versionMetaPath sc.key sc.versionID ∨
        dir ++ [old] = tmpOf (p.versionMetaPath sc.key sc.versionID) →
      dir ++ [new] = p.versionMetaPath sc.key sc.versionID ∨
        dir ++ [new] = tmpOf (p.versionMetaPath sc.key sc.versionID)) :
    p.Fits (dir ++ [new]) node := by
  have below : Below p.root (dir ++ [new]) → Below p.root (dir ++ [old]) := fun inside =>
    below_concat.mpr (below_concat.mp inside)
  refine ⟨fun above => ?_, fun content file inside => fits.sound content file (below inside),
    fun sc file inside outside => moves sc ?_, fun mp file inside => ?_,
    fun data _ _ file same inside => ?_⟩
  · rcases List.prefix_concat_iff.mp above with same | above
    · rw [← same]
      exact named_self p.root
    · have named := fits.named (above.trans (List.prefix_append _ _))
      exact (named.of_above (List.prefix_append _ _)).concat isName
  · rw [staging_concat p newApart] at outside
    exact fits.placed sc file (below inside) (by rwa [staging_concat p oldApart])
  · rw [staging_concat p newApart, ← staging_concat p oldApart]
    exact fits.staged mp file (below inside)
  · rw [← (concat_inj same).2]
    exact fun named => fits.raw data dir old file rfl (below inside) (json named)

/-- A JSON text takes its place. -/
theorem Provider.Fits.published (fits : p.Fits (tmpOf (dir ++ [stem ++ ".json"])) node)
    (noSlash : '/' ∉ stem.toList) : p.Fits (dir ++ [stem ++ ".json"]) node := by
  have isName : IsName (stem ++ ".json") := isName_append noSlash (by decide) (by decide)
  have json : ".json".toList.getLast? = some 'n' := by decide
  have tmp : ".tmp".toList.getLast? = some 'p' := by decide
  rw [tmpOf_concat] at fits
  refine fits.sibling isName (append_ne_staging tmp (by decide))
    (append_ne_staging json (by decide)) (fun _ => ⟨stem, .inr rfl⟩) ?_
  intro sc place
  rw [versionMetaPath_eq, tmpOf_concat] at place ⊢
  rcases place with final | temporary
  · exact absurd (concat_inj final).2 (append_ne tmp json (by decide))
  · obtain ⟨sameDir, sameName⟩ := concat_inj temporary
    exact .inl (by rw [sameDir, append_right_cancel sameName])

/-- The body of a new version takes its place. -/
theorem Provider.Fits.body (fits : p.Fits (p.tempPath key random) node)
    (isID : IsVersionID new) : p.Fits (p.versionBodyPath key new) node := by
  have bin : ".bin".toList.getLast? = some 'n' := by decide
  have json : ".json".toList.getLast? = some 'n' := by decide
  have tmp : ".tmp".toList.getLast? = some 'p' := by decide
  have isName : IsName (new ++ ".bin") := isName_append isID.noSlash (by decide) (by decide)
  have path : p.versionBodyPath key new = p.versionsDir key ++ [new ++ ".bin"] := join_name isName _
  rw [path]
  refine fits.sibling isName ?_ (append_ne_staging bin (by decide))
    (fun named => absurd named (not_isJSONName_bin new)) ?_
  · intro same
    rw [← String.empty_append (s := "_multipart")] at same
    exact temp_ne (by decide : "_multipart".toList.getLast? = some 't') (by decide) same
  · intro sc place
    rw [versionMetaPath_eq, tmpOf_concat] at place
    rcases place with final | temporary
    · exact absurd (concat_inj final).2 (temp_ne json (by decide))
    · exact absurd (concat_inj temporary).2 (temp_ne tmp (by decide))

theorem fits_newSidecar {sc : Sidecar} (sound : sc.Sound) :
    p.Fits (tmpOf (p.versionMetaPath sc.key sc.versionID)) (.file (.sidecar sc)) where
  named _ := by
    rw [versionMetaPath_eq]
    exact named_tmpOf ((named_folder _ _).concat
      (isName_append (stemOf_noSlash _) (by decide) (by decide))) (stemOf_noSlash _)
  sound _ same _ := by
    cases same
    exact sound
  placed _ same _ _ := by
    cases same
    exact .inr rfl
  staged _ impossible := by cases impossible
  raw _ _ _ impossible := by cases impossible

/-- A sidecar is written next to the one it is made from. -/
theorem Provider.Fits.rewritten {sc : Sidecar} {retention : RetentionState}
    (fits : p.Fits (p.versionMetaPath key version) (.file content)) (parsed : content.asSidecar = .ok sc)
    (retainUntil : dated retention.retainUntil) :
    p.Fits (tmpOf (p.versionMetaPath key version)) (.file (.sidecar { sc with retention })) := by
  have json : ".json".toList.getLast? = some 'n' := by decide
  have tmp : ".tmp".toList.getLast? = some 'p' := by decide
  rw [versionMetaPath_eq] at fits ⊢
  have below : Below p.root (tmpOf (p.folder key version ++ [stemOf version ++ ".json"])) →
      Below p.root (p.folder key version ++ [stemOf version ++ ".json"]) := by
    rw [tmpOf_concat]
    exact fun inside => below_concat.mpr (below_concat.mp inside)
  have outside : ¬ p.staging <+: tmpOf (p.folder key version ++ [stemOf version ++ ".json"]) →
      ¬ p.staging <+: p.folder key version ++ [stemOf version ++ ".json"] := by
    rw [tmpOf_concat, staging_concat p (append_ne_staging tmp (by decide)),
      staging_concat p (append_ne_staging json (by decide))]
    exact fun out => out
  refine ⟨fun _ => ?_, fun _ same inside => ?_, fun _ same inside out => ?_,
    fun _ impossible => (by cases impossible), fun _ _ _ impossible => (by cases impossible)⟩
  · exact named_tmpOf ((named_folder _ _).concat
      (isName_append (stemOf_noSlash _) (by decide) (by decide))) (stemOf_noSlash _)
  · cases same
    have sound := (fits.sound content rfl (below inside)).asSidecar parsed
    exact ⟨sound.key, sound.versionID, retainUntil, sound.writeTime⟩
  · cases same
    cases content with
    | bytes data => contradiction
    | sidecar old =>
      cases parsed
      right
      rcases fits.placed sc rfl (below inside) (outside out) with final | temporary
      · exact congrArg tmpOf final
      · rw [versionMetaPath_eq, tmpOf_concat] at temporary
        exact absurd (concat_inj temporary).2 (append_ne json tmp (by decide))
    | upload mp => exact absurd (fits.staged mp rfl (below inside)) (outside out)

end Fitting

section Runs
variable {s : Setting} {w₀ w w' : World} {op : Operation} {t : Filesystem.Tree Content}

theorem multipartDir_eq (valid : validateKey key = none) (isName : IsName uploadID) :
    p.multipartDir key uploadID = p.staging ++ (components key ++ [uploadID]) := by
  have staging : IsName "_multipart" := by decide
  rw [Provider.multipartDir, join_cons, join_cons, join_name staging,
    join_proper (validateKey_none.mp valid).2.2.2.1, join_name isName]
  simp [Provider.staging]

theorem fits_newUpload {mp : MultipartMeta} (sound : mp.Sound) (isID : IsVersionID new) :
    p.Fits (tmpOf (p.uploadPath ⟨mp.key, new⟩)) (.file (.upload mp)) where
  named _ := by
    have named : Named p.root.length (p.uploadPath ⟨mp.key, new⟩) := ((named_self p.root).join _).join _
    rw [uploadPath_eq] at named ⊢
    change Named _ (_ ++ ["upload" ++ ".json"]) at named
    exact named_tmpOf named (by decide)
  sound _ same _ := by
    cases same
    exact sound
  placed _ impossible := by cases impossible
  staged _ _ _ := by
    rw [uploadPath_eq, tmpOf_concat, multipartDir_eq sound.key isID.isName]
    simp [List.append_assoc]
  raw _ _ _ impossible := by cases impossible

/-- What an operation puts somewhere fits there. -/
theorem puts_fits (tidy₀ : p.Tidy w₀.tree) (tidy : p.Tidy t) (writes : p.Writes w₀ op c)
    (puts : t.Puts random path node c) : p.Fits path node := by
  cases writes with
  | home _ _ =>
    obtain ⟨above, rfl⟩ := puts
    exact fits_dir ((named_versionsDir _).of_above above)
  | temp _ _ =>
    obtain ⟨rfl, rfl⟩ := puts
    exact fits_temp _ _ _
  | fillTemp _ _ =>
    obtain ⟨rfl, old, _, rfl⟩ := puts
    obtain ⟨all, same⟩ := append_bytes old _
    rw [same]
    exact fits_temp _ _ _
  | body _ _ unissued =>
    obtain ⟨rfl, content, found, rfl⟩ := puts
    exact (tidy _ _ found).body unissued.1
  | newSidecar _ _ sound =>
    obtain ⟨rfl, rfl⟩ := puts
    exact fits_newSidecar sound
  | publish _ _ _ =>
    obtain ⟨rfl, content, found, rfl⟩ := puts
    have fits := tidy _ _ found
    rw [versionMetaPath_eq] at fits ⊢
    exact fits.published (stemOf_noSlash _)
  | rewrite _ _ found parsed retainUntil _ =>
    obtain ⟨rfl, rfl⟩ := puts
    exact (tidy₀ _ _ found).rewritten parsed retainUntil
  | republish _ _ =>
    obtain ⟨rfl, content, found, rfl⟩ := puts
    have fits := tidy _ _ found
    rw [versionMetaPath_eq] at fits ⊢
    exact fits.published (stemOf_noSlash _)
  | stage _ _ _ =>
    obtain ⟨above, rfl⟩ := puts
    exact fits_dir (((named_self p.root).join _).of_above above)
  | newUpload _ unissued sound same =>
    obtain ⟨rfl, rfl⟩ := puts
    rw [← same]
    exact fits_newUpload sound unissued.1
  | publishUpload _ _ _ =>
    obtain ⟨rfl, content, found, rfl⟩ := puts
    have fits := tidy _ _ found
    rw [uploadPath_eq] at fits ⊢
    change p.Fits (tmpOf (_ ++ ["upload" ++ ".json"])) _ at fits
    exact fits.published (by decide)
  | newPart _ _ _ _ =>
    obtain ⟨rfl, rfl⟩ := puts
    exact fits_part _ _ _
  | fillPart _ _ _ =>
    obtain ⟨rfl, old, _, rfl⟩ := puts
    obtain ⟨all, same⟩ := append_bytes old _
    rw [same]
    exact fits_part _ _ _
  | closeTemp | dropTemp | dropBody | dropSidecar | dropRewrite | dropUpload | unstage | complete
  | abort | purge | removeSidecar | removeBody => exact puts.elim

theorem reads_look (reads : p.Reads w₀ op c) (found : (t.perform random c).2.look path = some node) :
    t.look path = some node := by
  rcases Tree.look_perform found with before | puts
  · exact before
  · cases reads <;> exact puts.elim

theorem not_touches_of_reads (reads : p.Reads w op c) : ¬ t.Touches random path c := by
  cases reads <;> exact id

theorem perform_tidy (tidy₀ : p.Tidy w₀.tree) (tidy : p.Tidy t)
    (may : p.Reads w₀ op c ∨ p.Writes w₀ op c) : p.Tidy (t.perform random c).2 := by
  intro path node found
  rcases may with reads | writes
  · exact tidy path node (reads_look reads found)
  · rcases Tree.look_perform found with before | puts
    · exact tidy path node before
    · exact puts_fits tidy₀ tidy writes puts

theorem serves_tidy (tidy₀ : p.Tidy w₀.tree) (tidy : p.Tidy w.tree) (may : p.May w₀ op w q)
    (served : Serves s w q reply w') : p.Tidy w'.tree := by
  cases q with
  | os c =>
    rcases served with ⟨random, _, _, rfl⟩ | ⟨_, _, rfl | ⟨random, _, rfl⟩⟩
    · exact perform_tidy tidy₀ tidy may
    · exact tidy
    · exact perform_tidy tidy₀ tidy may
  | now =>
    obtain ⟨_, rfl⟩ := served
    exact tidy
  | newVersionID =>
    obtain ⟨_, rfl⟩ := served
    exact tidy

theorem Provider.Step.tidy (step : p.Step s w e w') (tidy : p.Tidy w.tree) : p.Tidy w'.tree := by
  have keeps := (body_acts (s := s) tidy e.op).keeps
    (R := fun before after : World => p.Tidy before.tree → p.Tidy after.tree)
    (fun _ => id) (fun first second => second ∘ first)
    fun may served now => serves_tidy tidy now may served
  exact (keeps.runs step).2 tidy

theorem Provider.History.tidy (history : p.History s w past w') (tidy : p.Tidy w.tree) :
    p.Tidy w'.tree := by
  induction history with
  | start => exact tidy
  | step _ step ih => exact step.tidy ih

theorem Provider.Fresh.tidy (fresh : p.Fresh w) : p.Tidy w.tree := by
  intro path node found
  have outside : ¬ Below p.root path := by
    intro below
    rw [fresh.empty path below] at found
    contradiction
  refine ⟨fun above => ?_, fun _ _ below => absurd below outside,
    fun _ _ below => absurd below outside, fun _ _ below => absurd below outside,
    fun _ _ _ _ _ below => absurd below outside⟩
  have same : path = p.root := by
    by_contra other
    exact outside ⟨above, other⟩
  rw [same]
  exact named_self p.root

end Runs
end KDrive.LocalFsDev
