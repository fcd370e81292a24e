import KDrive.LocalFsDev.Retention

/-! What becomes of a version that is stored. Its two files stay as they are, the
retention in its sidecar apart, until a request removes them: no removal asks whether
the version is locked. -/
namespace KDrive.LocalFsDev
open Go Blobstore Filesystem Interaction
variable {p : Provider} {s : Setting} {w w₀ w' : World} {t : Filesystem.Tree Content}
  {ref : VersionedObjectRef} {data : Bytes} {op : Operation}

/-- The sidecar and the body of a version. -/
structure Provider.Stores (p : Provider) (t : Filesystem.Tree Content) (ref : VersionedObjectRef)
    (data : Bytes) : Prop where
  sidecar : ∃ sc : Sidecar,
    t.look (p.versionMetaPath ref.key ref.versionID) = some (.file (.sidecar sc)) ∧
      sc.key = ref.key ∧ sc.versionID = ref.versionID
  body : t.look (p.versionBodyPath ref.key ref.versionID) = some (.file (.bytes data))

/-- Under legal hold, or in COMPLIANCE mode until a time that is still to come. -/
def Provider.Locked (p : Provider) (w : World) (ref : VersionedObjectRef) : Prop :=
  ∃ held, p.retentionOf w ref = some held ∧
    (held.legalHold = true ∨ held.mode = .compliance ∧ w.clock < held.retainUntil)

/-- A directory that has none of the two files in it. -/
def Provider.Avoids (p : Provider) (ref : VersionedObjectRef) (dir : Path) : Prop :=
  ¬ dir <+: p.versionMetaPath ref.key ref.versionID ∧
    ¬ dir <+: p.versionBodyPath ref.key ref.versionID

/-- The request does not ask for the removal of the version. -/
def Provider.Spares (p : Provider) (ref : VersionedObjectRef) : Operation → Prop
  | .deleteVersion other =>
    p.versionMetaPath other.key other.versionID ≠ p.versionMetaPath ref.key ref.versionID
  | .deleteBatch others => ∀ other ∈ others,
    p.versionMetaPath other.key other.versionID ≠ p.versionMetaPath ref.key ref.versionID
  | .purgeAllVersions other => p.Avoids ref (p.versionsDir other.key)
  | .abortMultipart upload => p.Avoids ref (p.multipartDir upload.key upload.uploadID)
  | .completeMultipart req => p.Avoids ref (p.multipartDir req.upload.key req.upload.uploadID)
  | _ => True

/-- A version the store has handed out, of a key that is not in the staging area. -/
structure Provider.Handed (p : Provider) (w : World) (ref : VersionedObjectRef) : Prop where
  valid : validateKey ref.key = none
  unstaged : ¬ p.staging <+: p.versionsDir ref.key
  isID : IsVersionID ref.versionID
  issued : ref.versionID ∈ w.issued

section Files

theorem Provider.Handed.metaPath (handed : p.Handed w ref) :
    p.versionMetaPath ref.key ref.versionID = p.versionsDir ref.key ++ [ref.versionID ++ ".json"] :=
  join_name (isName_append handed.isID.noSlash (by decide) (by decide)) _

theorem Provider.Handed.bodyPath (handed : p.Handed w ref) :
    p.versionBodyPath ref.key ref.versionID = p.versionsDir ref.key ++ [ref.versionID ++ ".bin"] :=
  join_name (isName_append handed.isID.noSlash (by decide) (by decide)) _

theorem meta_eq_iff_body_eq {other : VersionedObjectRef} :
    p.versionMetaPath other.key other.versionID = p.versionMetaPath ref.key ref.versionID ↔
      p.versionBodyPath other.key other.versionID = p.versionBodyPath ref.key ref.versionID := by
  rw [versionMetaPath_eq, versionMetaPath_eq, versionBodyPath_eq, versionBodyPath_eq]
  constructor
  · intro same
    obtain ⟨folder, stem⟩ := concat_inj same
    rw [folder, append_right_cancel stem]
  · intro same
    obtain ⟨folder, stem⟩ := concat_inj same
    rw [folder, append_right_cancel stem]

theorem meta_ne_body {key version key' version' : String} :
    p.versionMetaPath key version ≠ p.versionBodyPath key' version' := by
  rw [versionMetaPath_eq, versionBodyPath_eq]
  exact fun same => json_ne_bin _ _ (concat_inj same).2

/-- A call that leaves the two files alone keeps the version. -/
theorem Provider.Stores.untouched (stored : p.Stores t ref data)
    (sidecar : ¬ t.Touches random (p.versionMetaPath ref.key ref.versionID) c)
    (body : ¬ t.Touches random (p.versionBodyPath ref.key ref.versionID) c) :
    p.Stores (t.perform random c).2 ref data := by
  obtain ⟨sc, found, names⟩ := stored.sidecar
  refine ⟨⟨sc, ?_, names⟩, ?_⟩
  · rw [Tree.look_perform_of_untouched sidecar, found]
  · rw [Tree.look_perform_of_untouched body, stored.body]

/-- A path other than the two files. -/
def Provider.Misses (p : Provider) (ref : VersionedObjectRef) (path : Path) : Prop :=
  p.versionMetaPath ref.key ref.versionID ≠ path ∧ p.versionBodyPath ref.key ref.versionID ≠ path

/-- Both names end in a letter that decides. -/
theorem misses_of_ne {dir : Path} {name : String}
    (other : ∀ stem suf : String, suf.toList.getLast? = some 'n' → name ≠ stem ++ suf) :
    p.Misses ref (dir ++ [name]) := by
  unfold Provider.Misses
  rw [versionMetaPath_eq, versionBodyPath_eq]
  exact ⟨fun same => other _ _ (by decide : ".json".toList.getLast? = some 'n') (concat_inj same).2.symm,
    fun same => other _ _ (by decide : ".bin".toList.getLast? = some 'n') (concat_inj same).2.symm⟩

theorem misses_temp : p.Misses ref (p.tempPath key random) :=
  misses_of_ne fun _ _ ends => temp_ne ends (by decide)

theorem misses_tmp {dir : Path} {name : String} : p.Misses ref (tmpOf (dir ++ [name])) := by
  rw [tmpOf_concat]
  exact misses_of_ne fun _ _ ends =>
    append_ne (by decide : ".tmp".toList.getLast? = some 'p') ends (by decide)

theorem misses_tmp_meta : p.Misses ref (tmpOf (p.versionMetaPath key version)) := by
  rw [versionMetaPath_eq]
  exact misses_tmp

theorem misses_part : p.Misses ref (p.partPath upload n) := by
  rw [partPath_eq]
  exact misses_of_ne fun _ _ ends => partName_ne ends (by decide)

theorem misses_meta (other : p.versionMetaPath key version ≠
    p.versionMetaPath ref.key ref.versionID) : p.Misses ref (p.versionMetaPath key version) :=
  ⟨other.symm, meta_ne_body.symm⟩

theorem misses_body (other : VersionedObjectRef) (differs : p.versionMetaPath other.key other.versionID ≠
    p.versionMetaPath ref.key ref.versionID) :
    p.Misses ref (p.versionBodyPath other.key other.versionID) :=
  ⟨meta_ne_body, fun same => differs (meta_eq_iff_body_eq.mpr same.symm)⟩

/-- A version ID that was not handed out before leads to other files. -/
theorem Provider.Handed.new_ne (handed : p.Handed w ref) (unissued : w.Unissued new) :
    p.versionMetaPath key new ≠ p.versionMetaPath ref.key ref.versionID := by
  have path : p.versionMetaPath key new = p.versionsDir key ++ [new ++ ".json"] :=
    join_name (isName_append unissued.1.noSlash (by decide) (by decide)) _
  rw [path, handed.metaPath]
  intro same
  have equal := append_right_cancel (concat_inj same).2
  exact unissued.2 (equal ▸ handed.issued)

/-- The staging area has none of the files in it. -/
theorem Provider.Handed.avoids (handed : p.Handed w ref) (staged : p.staging <+: dir) :
    p.Avoids ref dir := by
  unfold Provider.Avoids
  rw [handed.metaPath, handed.bodyPath]
  constructor
  · intro above
    have inside := staged.trans above
    rw [staging_concat p (append_ne_staging (by decide : ".json".toList.getLast? = some 'n')
      (by decide))] at inside
    exact handed.unstaged inside
  · intro above
    have inside := staged.trans above
    rw [staging_concat p (append_ne_staging (by decide : ".bin".toList.getLast? = some 'n')
      (by decide))] at inside
    exact handed.unstaged inside

theorem Provider.Avoids.misses (avoids : p.Avoids ref dir) : p.Misses ref dir :=
  ⟨fun same => avoids.1 (same ▸ List.prefix_refl _), fun same => avoids.2 (same ▸ List.prefix_refl _)⟩

theorem staged_dir (valid : validateKey key = none) (isID : IsVersionID new) :
    p.staging <+: p.multipartDir key new := by
  rw [multipartDir_eq valid isID.isName]
  exact List.prefix_append _ _

theorem staged_upload (valid : validateKey key = none) (isID : IsVersionID new) :
    p.staging <+: p.uploadPath ⟨key, new⟩ := by
  rw [uploadPath_eq]
  exact (staged_dir valid isID).trans (List.prefix_append _ _)

end Files

section Keeping

theorem spares_removes {other : VersionedObjectRef} (spares : p.Spares ref op)
    (removed : other ∈ op.removes) :
    p.versionMetaPath other.key other.versionID ≠ p.versionMetaPath ref.key ref.versionID := by
  cases op with
  | deleteVersion => exact List.mem_singleton.mp removed ▸ spares
  | deleteBatch => exact spares other removed
  | _ => contradiction

theorem Provider.Stores.at_path (stored : p.Stores t ref data) (misses : p.Misses ref path)
    (only : ∀ q, t.Touches random q c → q = path) : p.Stores (t.perform random c).2 ref data :=
  stored.untouched (fun touches => misses.1 (only _ touches))
    fun touches => misses.2 (only _ touches)

theorem Provider.Stores.below (stored : p.Stores t ref data) (avoids : p.Avoids ref dir) :
    p.Stores (t.perform random (.removeAll dir)).2 ref data :=
  stored.untouched avoids.1 avoids.2

theorem Provider.Stores.mkdirAll (stored : p.Stores t ref data) :
    p.Stores (t.perform random (.mkdirAll dir)).2 ref data := by
  obtain ⟨sc, found, _⟩ := stored.sidecar
  refine stored.untouched (fun touches => ?_) fun touches => ?_
  · rw [touches.2] at found
    contradiction
  · have absent := touches.2
    rw [stored.body] at absent
    contradiction

theorem Provider.Stores.rename (stored : p.Stores t ref data) (source : p.Misses ref old)
    (target : p.Misses ref new) : p.Stores (t.perform random (.rename old new)).2 ref data :=
  stored.untouched (fun touches => touches.elim source.1 target.1)
    fun touches => touches.elim source.2 target.2

theorem versionsDir_injective (valid : validateKey key = none) (valid' : validateKey key' = none)
    (same : p.versionsDir key = p.versionsDir key') : key = key' := by
  rw [versionsDir_eq valid, versionsDir_eq valid'] at same
  exact components_injective (List.append_cancel_left same)

theorem Sidecar.Sound.metaPath {sc : Sidecar} (sound : sc.Sound) :
    p.versionMetaPath sc.key sc.versionID = p.versionsDir sc.key ++ [sc.versionID ++ ".json"] := by
  have noSlash : '/' ∉ sc.versionID.toList := by
    rcases sound.versionID with none | issued
    · simp [none]
    · exact issued.noSlash
  exact join_name (isName_append noSlash (by decide) (by decide)) _

/-- What is about to replace a sidecar was written for the same version. -/
theorem Provider.Handed.replacement (handed : p.Handed w ref) (tidy : p.Tidy t)
    (found : t.look (tmpOf (p.versionMetaPath ref.key ref.versionID)) = some (.file content)) :
    ∃ sc : Sidecar, content = .sidecar sc ∧ sc.key = ref.key ∧ sc.versionID = ref.versionID := by
  have fits := tidy _ _ found
  have path : tmpOf (p.versionMetaPath ref.key ref.versionID) =
      p.versionsDir ref.key ++ [ref.versionID ++ ".json" ++ ".tmp"] := by
    rw [handed.metaPath, tmpOf_concat]
  rw [path] at fits
  have below : Below p.root (p.versionsDir ref.key ++ [ref.versionID ++ ".json" ++ ".tmp"]) := by
    rw [below_concat, versionsDir_eq handed.valid]
    exact List.prefix_append _ _
  have outside : ¬ p.staging <+: p.versionsDir ref.key ++ [ref.versionID ++ ".json" ++ ".tmp"] := by
    rw [staging_concat p (append_ne_staging (by decide : ".tmp".toList.getLast? = some 'p')
      (by decide))]
    exact handed.unstaged
  cases content with
  | bytes data => exact absurd ⟨_, .inr rfl⟩ (fits.raw data _ _ rfl rfl below)
  | upload mp => exact absurd (fits.staged mp rfl below) outside
  | sidecar sc =>
    have sound : sc.Sound := fits.sound _ rfl below
    refine ⟨sc, rfl, ?_⟩
    have place := fits.placed sc rfl below outside
    rw [sound.metaPath, tmpOf_concat] at place
    rcases place with final | temporary
    · exact absurd (concat_inj final).2 (append_ne (by decide : ".tmp".toList.getLast? = some 'p')
        (by decide : ".json".toList.getLast? = some 'n') (by decide))
    · obtain ⟨dir, name⟩ := concat_inj temporary
      exact ⟨(versionsDir_injective handed.valid sound.key dir).symm,
        (append_right_cancel (append_right_cancel name)).symm⟩

theorem Provider.Stores.republished (handed : p.Handed w ref) (tidy : p.Tidy t)
    (stored : p.Stores t ref data) :
    p.Stores (t.perform random (.rename (tmpOf (p.versionMetaPath ref.key ref.versionID))
      (p.versionMetaPath ref.key ref.versionID))).2 ref data := by
  have tmp : p.Misses ref (tmpOf (p.versionMetaPath ref.key ref.versionID)) := misses_tmp_meta
  simp only [Tree.perform]
  split
  · rename_i content found
    obtain ⟨sc, rfl, names⟩ := handed.replacement tidy found
    split
    · exact stored
    · rename_i ok
      have real := (Tree.place_ok ok).1
      refine ⟨⟨sc, ?_, names⟩, ?_⟩
      · rw [Tree.look_set real, if_pos rfl]
      · rw [Tree.look_set real, if_neg meta_ne_body.symm, Tree.look_unset_of_ne tmp.2, stored.body]
  · exact stored
  · exact stored

theorem writes_stores (handed : p.Handed w₀ ref) (tidy : p.Tidy t) (stored : p.Stores t ref data)
    (spares : p.Spares ref op) (writes : p.Writes w₀ op c) :
    p.Stores (t.perform random c).2 ref data := by
  cases writes with
  | home | stage => exact stored.mkdirAll
  | temp _ _ => exact stored.at_path misses_temp fun _ touches => touches
  | fillTemp _ _ => exact stored.at_path misses_temp fun _ touches => touches
  | closeTemp _ _ => exact stored
  | dropTemp _ _ => exact stored.at_path misses_temp fun _ touches => touches
  | body _ _ unissued =>
    exact stored.rename misses_temp (misses_body ⟨_, _⟩ (handed.new_ne unissued))
  | dropBody _ _ unissued =>
    exact stored.at_path (misses_body ⟨_, _⟩ (handed.new_ne unissued))
      fun _ touches => touches
  | newSidecar _ _ _ => exact stored.at_path misses_tmp_meta fun _ touches => touches
  | publish _ _ unissued => exact stored.rename misses_tmp_meta (misses_meta (handed.new_ne unissued))
  | dropSidecar _ _ _ => exact stored.at_path misses_tmp_meta fun _ touches => touches
  | rewrite _ _ _ _ _ _ => exact stored.at_path misses_tmp_meta fun _ touches => touches
  | @republish other _ _ =>
    by_cases same : p.versionMetaPath other.key other.versionID =
        p.versionMetaPath ref.key ref.versionID
    · rw [same]
      exact stored.republished handed tidy
    · exact stored.rename misses_tmp_meta (misses_meta same)
  | dropRewrite _ _ => exact stored.at_path misses_tmp_meta fun _ touches => touches
  | newUpload _ unissued sound same =>
    rw [uploadPath_eq]
    exact stored.at_path misses_tmp fun _ touches => touches
  | publishUpload _ valid unissued =>
    have target := (handed.avoids (staged_upload valid unissued.1)).misses
    rw [uploadPath_eq] at target ⊢
    exact stored.rename misses_tmp target
  | dropUpload _ _ _ =>
    rw [uploadPath_eq]
    exact stored.at_path misses_tmp fun _ touches => touches
  | unstage _ valid unissued => exact stored.below (handed.avoids (staged_dir valid unissued.1))
  | newPart _ _ _ _ => exact stored.at_path misses_part fun _ touches => touches
  | fillPart _ _ _ => exact stored.at_path misses_part fun _ touches => touches
  | complete same _ _ _ =>
    subst same
    exact stored.below spares
  | abort same _ =>
    subst same
    exact stored.below spares
  | purge same _ =>
    subst same
    exact stored.below spares
  | removeSidecar removed _ =>
    exact stored.at_path (misses_meta (spares_removes spares removed)) fun _ touches => touches
  | removeBody removed _ =>
    exact stored.at_path (misses_body _ (spares_removes spares removed)) fun _ touches => touches

theorem reads_stores (stored : p.Stores t ref data) (reads : p.Reads w₀ op c) :
    p.Stores (t.perform random c).2 ref data := by
  refine stored.untouched ?_ ?_ <;> (cases reads <;> exact id)

theorem serves_stores (handed : p.Handed w₀ ref) (spares : p.Spares ref op) (tidy : p.Tidy w.tree)
    (stored : p.Stores w.tree ref data) (may : p.May w₀ op w q) (served : Serves s w q reply w') :
    p.Stores w'.tree ref data := by
  cases q with
  | os c =>
    have performed : ∀ random, p.Stores (w.tree.perform random c).2 ref data := fun random =>
      may.elim (reads_stores stored) (writes_stores handed tidy stored spares)
    rcases served with ⟨random, _, _, rfl⟩ | ⟨_, _, rfl | ⟨random, _, rfl⟩⟩
    · exact performed random
    · exact stored
    · exact performed random
  | now =>
    obtain ⟨_, rfl⟩ := served
    exact stored
  | newVersionID =>
    obtain ⟨_, rfl⟩ := served
    exact stored

theorem Provider.Step.stores (step : p.Step s w e w') (tidy : p.Tidy w.tree) (handed : p.Handed w ref)
    (spares : p.Spares ref e.op) (stored : p.Stores w.tree ref data) : p.Stores w'.tree ref data := by
  have keeps := (body_acts (s := s) tidy e.op).keeps
    (R := fun before after : World => p.Tidy before.tree ∧ p.Stores before.tree ref data →
      p.Tidy after.tree ∧ p.Stores after.tree ref data)
    (fun _ => id) (fun first second => second ∘ first)
    fun may served now => ⟨serves_tidy tidy now.1 may served,
      serves_stores handed spares now.1 now.2 may served⟩
  exact ((keeps.runs step).2 ⟨tidy, stored⟩).2

/-- No version ID is taken back. -/
theorem Provider.Step.issued (step : p.Step s w e w') : w.issued ⊆ w'.issued := by
  refine Runs.keeps (R := fun before after : World => before.issued ⊆ after.issued)
    (fun _ => List.Subset.refl _) List.Subset.trans ?_ step
  intro w q reply w' served
  cases q with
  | os c => rw [Serves.issued served]; exact List.Subset.refl _
  | now =>
    obtain ⟨_, rfl⟩ := served
    exact List.Subset.refl _
  | newVersionID =>
    obtain ⟨_, rfl⟩ := served
    exact List.subset_cons_self _ _

theorem Provider.Handed.later (handed : p.Handed w ref) (later : w.issued ⊆ w'.issued) :
    p.Handed w' ref :=
  ⟨handed.valid, handed.unstaged, handed.isID, later handed.issued⟩

theorem Provider.History.stores (history : p.History s w past w') (tidy : p.Tidy w.tree)
    (handed : p.Handed w ref) (stored : p.Stores w.tree ref data)
    (spares : ∀ t ∈ past, p.Spares ref t.event.op) :
    p.Handed w' ref ∧ p.Stores w'.tree ref data := by
  induction history with
  | start => exact ⟨handed, stored⟩
  | step before last ih =>
    obtain ⟨still, held⟩ := ih fun t member => spares t (List.mem_append_left _ member)
    have spared := spares _ (List.mem_append_right _ (List.mem_singleton_self _))
    exact ⟨still.later last.issued, last.stores (before.tidy tidy) still spared held⟩

end Keeping

/-- A stored version is returned whole. -/
theorem ends_get_stored (quiet : ¬ s.fails) (handed : p.Handed w ref)
    (stored : p.Stores w.tree ref data) :
    Ends s (p.get ref none).run (fun answer _ => ∃ info, answer = .ok (⟨data, none⟩, info)) w := by
  obtain ⟨sc, found, key, version⟩ := stored.sidecar
  refine Acts.step (acts_check (fun _ => ?_) fun err wrong => ?_)
  · have chosen : p.chosen ref = p.readSidecar ref.key ref.versionID :=
      if_pos handed.isID.ne_empty
    refine Acts.step ?_
    rw [chosen]
    refine ends_readSidecar quiet found rfl ?_
    have does : w.tree.perform 0 (.openFile (p.versionBodyPath sc.key sc.versionID)) =
        (.ok (.file (.bytes data)), w.tree) := by
      rw [key, version]
      simp only [Tree.perform, stored.body]
    exact Acts.step (ends_call quiet (by simp) does ⟨sidecarToMeta sc, rfl⟩)
  · rw [handed.valid] at wrong
    contradiction

/-- As long as a version is locked and no request asks for its removal, it is there. -/
theorem locked_survives (fresh : p.Fresh w₀) (before : p.History s w₀ earlier w)
    (handed : p.Handed w ref) (stored : p.Stores w.tree ref data)
    (history : p.History s w past w') (locked : ∀ t ∈ past, p.Locked t.before ref)
    (spared : ∀ t ∈ past, p.Locked t.before ref → p.Spares ref t.event.op) :
    Ends calm (p.get ref none).run (fun answer _ => ∃ info, answer = .ok (⟨data, none⟩, info)) w' := by
  obtain ⟨still, held⟩ := history.stores (before.tidy fresh.tidy) handed stored
    fun t member => spared t member (locked t member)
  exact ends_get_stored (fun fails => fails) still held
section Example

def Provider.stores (p : Provider) (t : Filesystem.Tree Content) (ref : VersionedObjectRef) (data : Bytes) :
    Bool :=
  match t.look (p.versionMetaPath ref.key ref.versionID),
    t.look (p.versionBodyPath ref.key ref.versionID) with
  | some (.file (.sidecar sc)), some (.file (.bytes found)) =>
    sc.key = ref.key ∧ sc.versionID = ref.versionID ∧ found = data
  | _, _ => false

theorem stores_of_test (tested : p.stores t ref data = true) : p.Stores t ref data := by
  unfold Provider.stores at tested
  split at tested
  · rename_i sc found sidecar body
    obtain ⟨key, version, rfl⟩ := of_decide_eq_true tested
    exact ⟨⟨sc, sidecar, key, version⟩, body⟩
  · contradiction

/-- A version is written under legal hold, then another one; the first is removed. -/
def removingRun : List Operation :=
  [.put { key := "a", body := ⟨[7], none⟩, retention := { legalHold := true } },
    .put { key := "b", body := ⟨[8], none⟩ },
    .deleteVersion ⟨"a", versionText 0 0⟩, .get ⟨"a", versionText 0 0⟩ none]

/-- What is checked of the state before a step. -/
def heldBefore (p : Provider) (ref : VersionedObjectRef) (data : Bytes) (op : Operation)
    (t : Transition) : Bool :=
  p.stores t.before.tree ref data && decide (p.retentionOf t.before ref = some ⟨.none, 0, true⟩ ∧
    ref.versionID ∈ t.before.issued ∧ t.event.op = op)

theorem removing_history : ∃ past w', sample.History calm sampleWorld past w' ∧
      past.map (fun t => t.event.op) = removingRun ∧
      (∃ t ∈ past, heldBefore sample ⟨"a", versionText 0 0⟩ [7]
        (.put { key := "b", body := ⟨[8], none⟩ }) t = true) ∧
      (∃ t ∈ past, heldBefore sample ⟨"a", versionText 0 0⟩ [7]
        (.deleteVersion ⟨"a", versionText 0 0⟩) t = true ∧ t.event.refused = false) ∧
      ∃ t ∈ past, t.event.op = .get ⟨"a", versionText 0 0⟩ none ∧ t.event.refused = true :=
  exists_history calm_ticks removingRun (by decide +kernel)

theorem heldBefore_spec {t : Transition} (held : heldBefore p ref data op t = true) :
    p.Stores t.before.tree ref data ∧ p.Locked t.before ref ∧ ref.versionID ∈ t.before.issued ∧
      t.event.op = op := by
  obtain ⟨stored, facts⟩ := Bool.and_eq_true_iff.mp held
  obtain ⟨retention, issued, same⟩ := of_decide_eq_true facts
  exact ⟨stores_of_test stored, ⟨_, retention, .inl rfl⟩, issued, same⟩

/-- A version under legal hold is removed, and then it is gone. -/
theorem held_version_removed : ∃ past w', sample.History calm sampleWorld past w' ∧
      (∃ t ∈ past, sample.Stores t.before.tree ⟨"a", versionText 0 0⟩ [7] ∧
        sample.Locked t.before ⟨"a", versionText 0 0⟩ ∧
        t.event.op = .deleteVersion ⟨"a", versionText 0 0⟩ ∧ t.event.refused = false) ∧
      ∃ t ∈ past, t.event.op = .get ⟨"a", versionText 0 0⟩ none ∧ t.event.refused = true := by
  obtain ⟨past, w', history, _, _, ⟨t, member, held, answered⟩, gone⟩ := removing_history
  obtain ⟨stored, locked, _, same⟩ := heldBefore_spec held
  exact ⟨past, w', history, ⟨t, member, stored, locked, same, answered⟩, gone⟩

theorem locked_survives_put : ∃ w, Ends calm (sample.get
    ⟨"a", versionText 0 0⟩ none).run (fun answer _ => ∃ info, answer = .ok (⟨[7], none⟩, info)) w := by
  obtain ⟨past, w', history, _, ⟨t, member, held⟩, _⟩ := removing_history
  obtain ⟨stored, locked, issued, same⟩ := heldBefore_spec held
  obtain ⟨earlier, before, step⟩ := history.mem member
  have handed : sample.Handed t.before ⟨"a", versionText 0 0⟩ :=
    ⟨by decide, by decide, ⟨0, 0, rfl⟩, issued⟩
  refine ⟨t.after, locked_survives world_root_fresh before handed stored (.step .start step) ?_ ?_⟩
  · intro other here
    rw [List.mem_singleton.mp here]
    exact locked
  · intro other here _
    rw [List.mem_singleton.mp here, same]
    trivial

end Example
end KDrive.LocalFsDev
