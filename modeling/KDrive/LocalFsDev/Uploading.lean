import KDrive.LocalFsDev.Writing

/-! Uploads: a staging directory is made, its parts are written and put together, and the
directory goes when the version is there. -/
namespace KDrive.LocalFsDev
open Go Blobstore Filesystem Interaction
variable {p : Provider} {s : Setting} {w w' : World} {b : Bucket} {key id : String} {st : Staged}

section Staging

theorem Provider.Represents.made_staging (rep : p.Represents w b) (plain : Plain key)
    (isName : IsName id) (path : Path) :
    Tree.made (p.multipartDir key id) w.tree.look path = w.tree.look path ∨
      Tree.made (p.multipartDir key id) w.tree.look path = some .dir ∧ p.staging <+: path ∧
        path <+: p.multipartDir key id := by
  unfold Tree.made
  split
  · rename_i above
    by_cases staged : p.staging <+: path
    · exact .inr ⟨rfl, staged, above⟩
    · have outer := (List.prefix_or_prefix_of_prefix above (plain.staged isName)).resolve_right staged
      rcases List.prefix_concat_iff.mp outer with same | outer
      · exact absurd (same ▸ List.prefix_refl _) staged
      · exact .inl (rep.way path outer).symm
  · exact .inl rfl

theorem stage_self (absent : b.staged key id = none) : b.stage key id none = b := by
  rw [Bucket.stage, ← absent, Function.update_eq_self, Function.update_eq_self]

theorem partName_ne_upload (n : Int) : partName n ≠ "upload.json" := by
  have other : partName n ≠ "upload" ++ ".json" :=
    partName_ne (by decide : ".json".toList.getLast? = some 'n') (by decide)
  exact other

theorem mirrors_createMultipart (quiet : ¬ s.fails) (rep : p.Represents w b) {req : MultipartRequest}
    (flat : '/' ∉ req.key.toList) :
    Ends s (p.createMultipart req).run (p.Mirrors s b (.createMultipart req)) w := by
  refine ends_guarded flat (fun _ wrong => ⟨b, ⟨b.keeps_refl, .inl wrong⟩, rep⟩) fun plain => ?_
  refine Acts.step (acts_newVersionID trivial fun new unissued => ?_)
  have isName := unissued.1.isName
  have clear := rep.clear_staging plain isName
  have unused : b.staged req.key new = none :=
    by_contra fun taken => unissued.2 (rep.handed req.key new taken)
  have tray := rep.tray req.key new plain isName
  rw [unused] at tray
  refine Acts.step (ends_mkdirAll quiet clear.unblocked clear.noFile fun t looks => ?_)
  refine Acts.step (acts_clock trivial fun now later => Acts.step (Acts.tryCatch ?_))
  have there : t.look (p.multipartDir req.key new) = some .dir := by rw [looks, look_made_self]
  have bare : ∀ name, t.look (p.multipartDir req.key new ++ [name]) = none := by
    intro name
    rw [looks, look_made_child]
    exact tray _ (List.prefix_append _ _)
  have onward : ∀ t : Filesystem.Tree Content, Onward s w ⟨t, now, new :: w.issued⟩ := fun _ =>
    ⟨.inr later, List.subset_cons_self _ _⟩
  have path : join (p.multipartDir req.key new) ["upload.json"] =
      p.multipartDir req.key new ++ ["upload.json"] := join_name (by decide) _
  rw [path]
  refine ends_writeJSON quiet (fun body t' marshalled _ _ looks' => ?_)
    fun err t' cause same _ => ?_
  · obtain ⟨rfl, _⟩ := MultipartMeta.marshal_ok marshalled
    refine ⟨_, ⟨rfl, unused, now, rep.time ▸ later, rfl⟩, rep.restage ⟨t', now, new :: w.issued⟩
      plain isName (onward t').issued (fun path outside => ?_) ⟨?_, ?_, fun n => ?_⟩
      fun _ => List.mem_cons_self⟩
    · change t'.look path = _ ∨ t'.look path = _ ∧ _
      rw [looks', look_update_outside outside, look_update_outside outside, looks]
      exact rep.made_staging plain isName path
    · rw [looks', Function.update_of_ne (by simp), Function.update_of_ne (by simp)]
      exact there
    · have record := congrFun looks' (p.multipartDir req.key new ++ ["upload.json"])
      rw [Function.update_self] at record
      exact ⟨_, record, rfl, rfl⟩
    · have tmp : ".tmp".toList.getLast? = some 'p' := by decide
      rw [looks', look_update_child, look_update_child, if_neg (partName_ne_upload n),
        if_neg (partName_ne tmp (by decide))]
      exact bare _
  · have noDir : t.isDir (p.multipartDir req.key new ++ ["upload.json"]) = false := by
      rw [Bool.eq_false_iff, ne_eq, Tree.isDir_iff, bare]
      simp
    have undated : ¬ (dated req.retention.retainUntil ∧ dated now) := by
      intro dates
      have taken := cause _ (if_pos dates) (Tree.place_child there (by simp [bare]))
      exact absurd (noDir.symm.trans taken) (by decide)
    rw [same noDir]
    have clear' : Clear t.look (p.multipartDir req.key new) := by
      intro above content start found
      rw [looks, Tree.made, if_pos start] at found
      cases found
    refine Acts.step (ends_removeAll quiet clear'.unblocked fun t'' looks'' => ?_)
    have next := rep.restage ⟨t'', now, new :: w.issued⟩ plain isName (onward t'').issued
      (fun path outside => ?_) (show Tray _ _ none from fun path inside => ?_)
      fun impossible => absurd rfl impossible
    · rw [stage_self unused] at next
      exact ⟨_, ⟨⟨now, .inr (rep.time ▸ later), rfl⟩, .inr ⟨rep.time ▸ later, undated⟩⟩, next⟩
    · change t''.look path = _ ∨ t''.look path = _ ∧ _
      rw [looks'', Tree.pruned, if_neg fun under => outside under.2, looks]
      exact rep.made_staging plain isName path
    · change t''.look path = none
      rw [looks'']
      refine if_pos ⟨fun empty => ?_, inside⟩
      rw [empty, List.prefix_nil, plain.multipartDir isName] at inside
      simp at inside

end Staging

section Parts

theorem Tray.setPart {look look' : Path → Option (Node Content)} {dir : Path}
    (tray : Tray look dir (some st)) (n : Int) (data : Bytes)
    (looks : look' = Function.update look (dir ++ [partName n]) (some (.file (.bytes data)))) :
    Tray look' dir (some { st with parts := Function.update st.parts n (some data) }) := by
  obtain ⟨there, ⟨mp, record, told⟩, parts⟩ := tray
  subst looks
  refine ⟨?_, ⟨mp, ?_, told⟩, fun m => ?_⟩
  · rw [Function.update_of_ne (by simp)]
    exact there
  · rw [look_update_child, if_neg (partName_ne_upload n).symm]
    exact record
  · rw [look_update_child, parts]
    by_cases same : m = n
    · simp [same]
    · change _ = Option.map _ (Function.update st.parts n (some data) m)
      rw [if_neg fun equal => same (partName_injective equal), Function.update_of_ne same]

theorem mirrors_uploadPart (quiet : ¬ s.fails) (rep : p.Represents w b) {upload : MultipartUpload} {n : Int}
    {body : Reader} (flat : '/' ∉ upload.key.toList) (isName : IsName upload.uploadID) :
    Ends s (p.uploadPart upload n body).run (p.Mirrors s b (.uploadPart upload n body)) w := by
  refine ends_guarded flat (fun _ wrong => ⟨b, .inl ⟨b.keeps_refl, .inl wrong⟩, rep⟩)
    fun plain => ?_
  have tray := rep.tray upload.key upload.uploadID plain isName
  simp only
  split
  · rename_i small
    exact ⟨b, .inl ⟨b.keeps_refl, .inr (.inl small)⟩, rep⟩
  · rename_i positive
    refine Acts.step (Acts.step (ends_call quiet (by simp) Tree.perform_stat ?_))
    cases here : b.staged upload.key upload.uploadID with
    | none =>
      rw [here] at tray
      simp only [Tree.nodeAt, tray _ (List.prefix_refl _)]
      exact ⟨b, .inl ⟨b.keeps_refl, .inr (.inr ⟨here, rfl⟩)⟩, rep⟩
    | some st =>
      rw [here] at tray
      have partPath : join (p.multipartDir upload.key upload.uploadID) [partName n] =
        p.multipartDir upload.key upload.uploadID ++ [partName n] := partPath_eq upload n
      have noDir : w.tree.look (p.multipartDir upload.key upload.uploadID ++ [partName n]) ≠ some .dir := by
        rw [tray.2.2 n]
        cases st.parts n <;> simp
      have does : w.tree.perform 0 (.create (p.multipartDir upload.key upload.uploadID ++ [partName n])) =
          (.ok (), w.tree.set (p.multipartDir upload.key upload.uploadID ++ [partName n])
            (.file (.bytes []))) := by
        simp only [Tree.perform, Tree.place_child tray.1 noDir]
        rfl
      have staged : ∀ t : Filesystem.Tree Content, t.look = Function.update (w.tree.set
          (p.multipartDir upload.key upload.uploadID ++ [partName n]) (.file (.bytes []))).look
          (p.multipartDir upload.key upload.uploadID ++ [partName n])
          (some (.file (.bytes ([] ++ body.data)))) →
          p.Represents { w with tree := t } (b.setPart upload st n body.data) := by
        intro t looks
        rw [Tree.look_set_eq (by simp), Function.update_idem, List.nil_append] at looks
        have next := rep.restage { w with tree := t } plain isName (List.Subset.refl _)
          (fun path outside => .inl ?_) (tray.setPart n body.data looks)
          fun _ => rep.handed upload.key upload.uploadID (by simp [here])
        · exact next.timed rep.time
        · change t.look path = _
          rw [looks, look_update_outside outside]
      simp only [Tree.nodeAt, tray.1]
      change Ends s (attempt (.create (join _ [partName n])) _ >>= fun _ =>
        copyTo (join _ [partName n]) body _ >>= fun _ => pure _ : Action _).run _ w
      rw [partPath]
      have created : (w.tree.set (p.multipartDir upload.key upload.uploadID ++ [partName n])
          (.file (.bytes []))).look (p.multipartDir upload.key upload.uploadID ++ [partName n]) =
          some (.file (.bytes [])) := by
        rw [Tree.look_set (by simp), if_pos rfl]
      refine Acts.step (ends_ok quiet (by simp) does ?_)
      refine Acts.step (ends_copyTo quiet created (fun t whole looks => ?_)
        fun err t cut looks => ?_)
      · exact ⟨_, ⟨st, here, by omega, whole, rfl, rfl⟩, staged t looks⟩
      · exact ⟨_, .inr ⟨st, here, by simp [cut], rfl⟩, staged t looks⟩

end Parts

section Completing

theorem joined_cons (st : Staged) (part : CompletedPart) (rest : List CompletedPart) :
    Bucket.joined st (part :: rest) = (st.parts part.partNumber).bind fun data =>
      (Bucket.joined st rest).map (data ++ ·) := by
  unfold Bucket.joined
  rw [List.mapM_cons]
  cases st.parts part.partNumber with
  | none => rfl
  | some data => cases List.mapM (fun part => st.parts part.partNumber) rest <;> rfl

/-- The loop over the parts: what was copied before stands in front. -/
theorem ends_copyParts (quiet : ¬ s.fails) {dir out : Path} (parts : List CompletedPart) {copied : Bytes}
    (away : ∀ n, dir ++ [partName n] ≠ out)
    (filled : w.tree.look out = some (.file (.bytes copied)))
    (staged : ∀ n, w.tree.look (dir ++ [partName n]) = (st.parts n).map fun data => .file (.bytes data))
    {post : Except GoError Bytes → World → Prop}
    (whole : ∀ data t, Bucket.joined st parts = some data →
      t.look = Function.update w.tree.look out (some (.file (.bytes (copied ++ data)))) →
      post (.ok data) { w with tree := t })
    (broken : ∀ err t content, Bucket.joined st parts = none →
      t.look = Function.update w.tree.look out (some (.file content)) →
      post (.error err) { w with tree := t }) :
    Ends s (Provider.copyParts dir out parts).run post w := by
  induction parts generalizing w copied post with
  | nil =>
    refine whole [] w.tree rfl ?_
    rw [List.append_nil, ← filled, Function.update_eq_self]
  | cons part rest ih =>
    have here := staged part.partNumber
    rw [Provider.copyParts, join_name (isName_partName _)]
    refine Acts.step (Acts.step (ends_openFile quiet ?_))
    cases found : st.parts part.partNumber with
    | none =>
      rw [found] at here
      simp only [Tree.nodeAt, here, Option.map_none]
      refine broken _ w.tree (.bytes copied) ?_ ?_
      · rw [joined_cons, found, Option.bind_none]
      · rw [← filled, Function.update_eq_self]
    | some data =>
      rw [found] at here
      simp only [Tree.nodeAt, here, Option.map_some]
      refine Acts.step (ends_copyTo quiet filled (fun t _ looks => ?_)
        fun err t impossible _ => absurd impossible (by simp [Provider.reader]))
      have longer : t.look out = some (.file (.bytes (copied ++ data))) := by
        rw [looks, Function.update_self]
        rfl
      refine Acts.step (ih (w := { w with tree := t }) longer (fun n => ?_)
        (fun more t' joined looks' => ?_) fun err t' content joined looks' => ?_)
      · change t.look _ = _
        rw [looks, Function.update_of_ne (away n)]
        exact staged n
      · refine whole (data ++ more) t' ?_ ?_
        · rw [joined_cons, found, Option.bind_some, joined]
          rfl
        · rw [looks', looks, Function.update_idem, List.append_assoc]
      · refine broken err t' content ?_ ?_
        · rw [joined_cons, found, Option.bind_some, joined]
          rfl
        · rw [looks', looks, Function.update_idem]

theorem partsMismatch_none {mp : MultipartMeta} (fine : Provider.partsMismatch mp data = none) :
    mp.checksumSHA256 = "" ∨ mp.checksumSHA256 = checksumSHA256 data := by
  simp only [Provider.partsMismatch] at fine
  split at fine
  · contradiction
  · rename_i same
    simpa [or_iff_not_imp_left] using same

theorem partsMismatch_some {mp : MultipartMeta} (wrong : Provider.partsMismatch mp data = some err) :
    mp.checksumSHA256 ≠ "" ∧ mp.checksumSHA256 ≠ checksumSHA256 data ∧
      err.is errChecksumMismatch = true := by
  simp only [Provider.partsMismatch] at wrong
  split at wrong
  · rename_i differ
    cases wrong
    exact ⟨differ.1, differ.2, rfl⟩
  · contradiction

theorem mirrors_completeMultipart (quiet : ¬ s.fails) (rep : p.Represents w b) {req : CompleteRequest}
    (flat : '/' ∉ req.upload.key.toList) (isName : IsName req.upload.uploadID) :
    Ends s (p.completeMultipart req).run (p.Mirrors s b (.completeMultipart req)) w := by
  refine ends_guarded flat (fun _ wrong => ⟨b, ⟨b.keeps_refl, .inl wrong⟩, rep⟩) fun plain => ?_
  have clear := rep.clear plain
  have tray := rep.tray req.upload.key req.upload.uploadID plain isName
  have path : join (p.multipartDir req.upload.key req.upload.uploadID) ["upload.json"] =
      p.multipartDir req.upload.key req.upload.uploadID ++ ["upload.json"] := join_name (by decide) _
  refine Acts.step (ends_readJSON quiet ?_)
  rw [path]
  cases here : b.staged req.upload.key req.upload.uploadID with
  | none =>
    rw [here] at tray
    simp only [parsed, Tree.fileAt, tray _ (List.prefix_append _ _)]
    exact ⟨b, ⟨b.keeps_refl, .inr (.inl ⟨here, rfl⟩)⟩, rep⟩
  | some st =>
    rw [here] at tray
    obtain ⟨there, ⟨mp, record, sameType, sameSum⟩, parts⟩ := tray
    rw [parsed_file record]
    refine ends_newVersion quiet clear.unblocked clear.noFile
      fun new random w' unissued issued clock absent looks => ?_
    have outside : ∀ n, ¬ p.versionsDir req.upload.key <+:
        p.multipartDir req.upload.key req.upload.uploadID ++ [partName n] := fun n =>
      plain.unstaged.symm.not_both ((plain.staged isName).trans (List.prefix_append _ _))
    have away : ∀ n, p.multipartDir req.upload.key req.upload.uploadID ++ [partName n] ≠
        p.tempPath req.upload.key random := by
      intro n same
      exact outside n (same ▸ List.prefix_append _ _)
    have filled : ∀ (t : Filesystem.Tree Content) content, t.look = Function.update w'.tree.look
        (p.tempPath req.upload.key random) (some (.file content)) → t.look =
          Function.update (Tree.made (p.versionsDir req.upload.key) w.tree.look)
            (p.tempPath req.upload.key random) (some (.file content)) := by
      intro t content looks'
      rw [looks', looks, Function.update_idem]
    have givenUp : ∀ (t : Filesystem.Tree Content) content err, t.look = Function.update w'.tree.look
        (p.tempPath req.upload.key random) (some (.file content)) →
        (Bucket.joined st req.parts = none ∨ ∃ data, Bucket.joined st req.parts = some data ∧
          Provider.partsMismatch mp data = some err) →
        t.look (p.tempPath req.upload.key random) ≠ some .dir ∧ ∀ t' : Filesystem.Tree Content, t'.look =
          Function.update t.look (p.tempPath req.upload.key random) none →
            p.Mirrors s b (.completeMultipart req) (.error err) { w' with tree := t' } := by
      intro t content err looks' cause
      obtain ⟨noDir, drop⟩ := rep.abandoned { w' with tree := t } plain
        ⟨.inl clock, issued ▸ List.subset_cons_self _ _⟩ (.inr ⟨_, filled t content looks'⟩)
      refine ⟨noDir, fun t' gone => ⟨_, ⟨(drop t' gone).1, .inr (.inr ⟨st, here, ?_⟩)⟩,
        (drop t' gone).2⟩⟩
      rcases cause with broken | ⟨data, joined, wrong⟩
      · exact .inl broken
      · rw [← sameSum]
        exact .inr ⟨data, joined, .inl (partsMismatch_some wrong)⟩
    have found : w'.tree.look (p.tempPath req.upload.key random) = some (.file (.bytes [])) := by
      rw [looks, Function.update_self]
    refine Acts.step (ends_copyParts quiet req.parts away found (fun n => ?_)
      (fun data t joined looks' => ?_)
      fun err t content broken looks' => givenUp t content err looks' (.inl broken))
    · rw [looks, Function.update_of_ne (away n), rep.made plain (outside n)]
      exact parts n
    rw [List.nil_append] at looks'
    refine Acts.step (ends_close quiet (Acts.step (acts_check (fun fine => ?_)
      fun err wrong => givenUp t _ err looks' (.inr ⟨data, joined, wrong⟩))))
    refine Acts.step (ends_published (w := { w' with tree := t }) quiet rep plain unissued issued clock
      (filled t _ looks') (fun v w'' pushes rep' => ?_) fun err w'' onward looks'' undated => ?_)
    · refine Acts.step (ends_removeAll quiet (rep'.clear_staging plain isName).unblocked
        fun t' looks'' => ?_)
      have last := rep'.unstaged { w'' with tree := t' } plain isName rfl rfl looks''
      obtain ⟨noDir, drop⟩ := last.dropped plain random
      refine ⟨noDir, fun t'' gone => ⟨_, ⟨st, data, here, joined, ?_, v, ?_, rfl⟩, drop t'' gone⟩⟩
      · rw [← sameSum]
        exact partsMismatch_none fine
      · obtain ⟨unused, later, body, type, retention, _⟩ := pushes
        exact ⟨unused, later, body, type.trans sameType, retention, rfl⟩
    · obtain ⟨noDir, drop⟩ := rep.abandoned _ plain onward (.inl looks'')
      exact ⟨noDir, fun t' gone => ⟨_, ⟨(drop t' gone).1, .inr (.inr ⟨st, here, .inr ⟨data, joined,
        .inr undated⟩⟩)⟩, (drop t' gone).2⟩⟩

end Completing
end KDrive.LocalFsDev
