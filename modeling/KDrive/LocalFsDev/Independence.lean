import KDrive.Filesystem.Areas
import KDrive.LocalFsDev.Survival

/-! Operations on one key and what they leave of another: keys whose directories lie apart
do not see each other. -/
namespace KDrive.LocalFsDev
open Go Blobstore Filesystem Interaction
variable {p : Provider} {s : Setting} {w w' u : World} {t : Filesystem.Tree Content} {op : Operation}

/-- An operation on a key, with a version ID the store hands out or an upload ID that is
a name. -/
def Operation.On (key : String) : Operation → Prop
  | .put req => req.key = key
  | .delete ref | .purgeAllVersions ref => ref.key = key
  | .deleteVersion ref => ref.key = key ∧ IsVersionID ref.versionID
  | .createMultipart req => req.key = key
  | .signUploadPart upload _ | .uploadPart upload _ _ | .abortMultipart upload
  | .listParts upload _ => upload.key = key ∧ IsName upload.uploadID
  | .completeMultipart req => req.upload.key = key ∧ IsName req.upload.uploadID
  | _ => False

/-- An operation that tells what is stored under a key. -/
def Operation.Probes (key : String) : Operation → Prop
  | .head ref => ref.key = key
  | .get ref _ => ref.key = key ∧ '/' ∉ ref.versionID.toList
  | .listObjectVersions other => other = key
  | .put req => req.key = key ∧ req.ifNoneMatch = true
  | _ => False

section Elsewhere

theorem on_homes (on : op.On key) (home : other ∈ op.homes) : other = key := by
  cases op with
  | put | delete => exact (List.mem_singleton.mp home).trans on
  | completeMultipart => exact (List.mem_singleton.mp home).trans on.1
  | copyWithinProvider => exact on.elim
  | _ => contradiction

theorem on_rewrites (on : op.On key) (again : ref ∈ op.rewrites) : False := by
  cases op with
  | updateRetention | setLegalHold => exact on
  | _ => contradiction

theorem on_removes (on : op.On key) (removed : ref ∈ op.removes) :
    ref.key = key ∧ IsVersionID ref.versionID := by
  cases op with
  | deleteVersion => exact List.mem_singleton.mp removed ▸ on
  | deleteBatch => exact on.elim
  | _ => contradiction

theorem inside_meta (isID : IsVersionID version) :
    p.versionsDir key <+: p.versionMetaPath key version := by
  rw [versionMetaPath_eq, Provider.folder, (components_noSlash_append isID.noSlash).1]
  exact List.prefix_append _ _

theorem inside_body (isID : IsVersionID version) :
    p.versionsDir key <+: p.versionBodyPath key version := by
  rw [versionBodyPath_eq, Provider.folder, (components_noSlash_append isID.noSlash).1]
  exact List.prefix_append _ _

theorem inside_tmp (isID : IsVersionID version) :
    p.versionsDir key <+: tmpOf (p.versionMetaPath key version) := by
  rw [versionMetaPath_eq, tmpOf_concat, Provider.folder, (components_noSlash_append isID.noSlash).1]
  exact List.prefix_append _ _

theorem inside_temp : p.versionsDir key <+: p.tempPath key random := List.prefix_append _ _

theorem staged_named (valid : validateKey key = none) (isName : IsName uploadID) :
    p.staging <+: p.multipartDir key uploadID := by
  rw [multipartDir_eq valid isName]
  exact List.prefix_append _ _

theorem staged_tmp (valid : validateKey key = none) (isID : IsVersionID new) :
    p.staging <+: tmpOf (p.uploadPath ⟨key, new⟩) := by
  rw [uploadPath_eq, tmpOf_concat]
  exact (staged_dir valid isID).trans (List.prefix_append _ _)

/-- Where the operations on a key change something. -/
theorem on_touches (on : op.On key) (writes : p.Writes w op c)
    (touches : t.Touches random path c) :
    p.versionsDir key <+: path ∨ p.staging <+: path ∨
      ∃ target, c = .mkdirAll target ∧ (target = p.versionsDir key ∨ p.staging <+: target) := by
  cases writes with
  | home home _ => exact .inr (.inr ⟨_, rfl, .inl (on_homes on home ▸ rfl)⟩)
  | temp home _ | fillTemp home _ | dropTemp home _ =>
    left
    rw [← on_homes on home]
    exact (touches : path = _) ▸ inside_temp
  | closeTemp => exact touches.elim
  | body home _ unissued =>
    left
    rw [← on_homes on home]
    exact touches.elim (fun same => same ▸ inside_temp) fun same => same ▸ inside_body unissued.1
  | dropBody home _ unissued =>
    left
    rw [← on_homes on home]
    exact (touches : path = _) ▸ inside_body unissued.1
  | newSidecar home unissued _ =>
    left
    rw [← on_homes on home]
    exact (touches : path = _) ▸ inside_tmp unissued.1
  | publish home _ unissued =>
    left
    rw [← on_homes on home]
    exact touches.elim (fun same => same ▸ inside_tmp unissued.1)
      fun same => same ▸ inside_meta unissued.1
  | dropSidecar home _ unissued =>
    left
    rw [← on_homes on home]
    exact (touches : path = _) ▸ inside_tmp unissued.1
  | rewrite again _ _ _ _ _ | republish again _ | dropRewrite again _ =>
    exact (on_rewrites on again).elim
  | stage _ valid unissued => exact .inr (.inr ⟨_, rfl, .inr (staged_dir valid unissued.1)⟩)
  | newUpload _ unissued sound same =>
    right; left
    rw [(touches : path = _), ← same]
    exact staged_tmp sound.key unissued.1
  | publishUpload _ valid unissued =>
    exact .inr (.inl (touches.elim (fun same => same ▸ staged_tmp valid unissued.1)
      fun same => same ▸ staged_upload valid unissued.1))
  | dropUpload _ valid unissued =>
    exact .inr (.inl ((touches : path = _) ▸ staged_tmp valid unissued.1))
  | unstage _ valid unissued => exact .inr (.inl ((staged_dir valid unissued.1).trans touches))
  | newPart same valid _ _ | fillPart same valid _ =>
    subst same
    right; left
    rw [(touches : path = _), partPath_eq]
    exact (staged_named valid on.2).trans (List.prefix_append _ _)
  | complete same valid _ _ | abort same valid =>
    subst same
    exact .inr (.inl ((staged_named valid on.2).trans touches))
  | purge same _ =>
    subst same
    exact .inl ((on : _ = key) ▸ touches)
  | removeSidecar removed _ =>
    obtain ⟨same, isID⟩ := on_removes on removed
    left
    rw [(touches : path = _), ← same]
    exact inside_meta isID
  | removeBody removed _ =>
    obtain ⟨same, isID⟩ := on_removes on removed
    left
    rw [(touches : path = _), ← same]
    exact inside_body isID

variable {first second : String}

/-- The directory of a key that lies apart is left alone. -/
theorem on_agree (on : op.On first) (may : p.Reads w op c ∨ p.Writes w op c)
    (apart : Apart (p.versionsDir first) (p.versionsDir second))
    (unstaged : Apart p.staging (p.versionsDir second)) :
    Tree.Agree (p.versionsDir second) t (t.perform random c).2 := by
  refine Tree.agree_perform (fun path inside touches => ?_) fun path above touches => ?_
  · rcases may with reads | writes
    · exact not_touches_of_reads reads touches
    · rcases on_touches on writes touches with own | staged | ⟨target, rfl, place⟩
      · exact apart.not_both own inside
      · exact unstaged.not_both staged inside
      · have above := inside.trans touches.1
        rcases place with rfl | staged
        · exact apart.2 above
        · exact unstaged.not_both staged above
  · rcases may with reads | writes
    · exact absurd touches (not_touches_of_reads reads)
    · rcases on_touches on writes touches with own | staged | ⟨target, made, _⟩
      · exact absurd (own.trans above) apart.1
      · exact absurd (staged.trans above) unstaged.1
      · exact ⟨target, made⟩

theorem serves_agree (on : op.On first) (may : p.May w op u q) (served : Serves s u q reply w')
    (apart : Apart (p.versionsDir first) (p.versionsDir second))
    (unstaged : Apart p.staging (p.versionsDir second)) :
    Tree.Agree (p.versionsDir second) u.tree w'.tree := by
  have same : Tree.Agree (p.versionsDir second) u.tree u.tree := ⟨fun _ _ => rfl, fun _ _ => rfl⟩
  cases q with
  | os c =>
    rcases served with ⟨random, _, _, rfl⟩ | ⟨_, _, rfl | ⟨random, _, rfl⟩⟩
    · exact on_agree on may apart unstaged
    · exact same
    · exact on_agree on may apart unstaged
  | now =>
    obtain ⟨_, rfl⟩ := served
    exact same
  | newVersionID =>
    obtain ⟨_, rfl⟩ := served
    exact same

theorem Provider.Step.agree (step : p.Step s w e w') (tidy : p.Tidy w.tree) (on : e.op.On first)
    (apart : Apart (p.versionsDir first) (p.versionsDir second))
    (unstaged : Apart p.staging (p.versionsDir second)) :
    Tree.Agree (p.versionsDir second) w.tree w'.tree := by
  have keeps := (body_acts (s := s) tidy e.op).keeps
    (R := fun before after : World => Tree.Agree (p.versionsDir second) before.tree after.tree)
    (fun _ => ⟨fun _ _ => rfl, fun _ _ => rfl⟩) Tree.Agree.trans
    fun may served => serves_agree on may served apart unstaged
  exact (keeps.runs step).2

end Elsewhere

section Probing
variable {key : String}

theorem probes_keys (probes : op.Probes key) (listed : other ∈ op.keys) : other = key := by
  cases op with
  | put | get => exact (List.mem_singleton.mp listed).trans probes.1
  | head | listObjectVersions => exact (List.mem_singleton.mp listed).trans probes
  | delete | purgeAllVersions | copyWithinProvider => exact probes.elim
  | _ => contradiction

theorem probes_refs (probes : op.Probes key) (asked : ref ∈ op.refs) :
    ref.key = key ∧ '/' ∉ ref.versionID.toList := by
  cases op with
  | get => exact List.mem_singleton.mp asked ▸ probes
  | getRetention | updateRetention | setLegalHold | copyWithinProvider => exact probes.elim
  | _ => contradiction

theorem probes_homes (probes : op.Probes key) (home : other ∈ op.homes) : other = key := by
  cases op with
  | put => exact (List.mem_singleton.mp home).trans probes.1
  | delete | completeMultipart | copyWithinProvider => exact probes.elim
  | _ => contradiction

/-- The body of a version lies next to its sidecar. -/
theorem body_inside (tidy : p.Tidy t) (unstaged : Apart p.staging (p.versionsDir key))
    (valid : validateKey key = none)
    (found : t.look (p.versionsDir key ++ [name]) = some (.file content))
    (reads : content.asSidecar = .ok sc) :
    p.versionsDir key <+: p.versionBodyPath sc.key sc.versionID := by
  have fits := tidy _ _ found
  have below : Below p.root (p.versionsDir key ++ [name]) := by
    rw [below_concat, versionsDir_eq valid]
    exact List.prefix_append _ _
  have outside : ¬ p.staging <+: p.versionsDir key ++ [name] := fun staged =>
    unstaged.not_both staged (List.prefix_append _ _)
  cases content with
  | bytes data => contradiction
  | upload mp => exact absurd (fits.staged mp rfl below) outside
  | sidecar other =>
    cases reads
    have place := fits.placed sc rfl below outside
    rw [versionMetaPath_eq, tmpOf_concat] at place
    have folder : p.versionsDir key = p.folder sc.key sc.versionID :=
      place.elim (fun same => (concat_inj same).1) fun same => (concat_inj same).1
    rw [versionBodyPath_eq, folder]
    exact List.prefix_append _ _

theorem reads_inside (probes : op.Probes key) (tidy : p.Tidy w.tree)
    (unstaged : Apart p.staging (p.versionsDir key)) (reads : p.Reads w op c) :
    c.Inside (p.versionsDir key) := by
  cases reads with
  | versions listed _ =>
    rw [probes_keys probes listed]
    exact List.prefix_refl _
  | listed listed _ _ =>
    rw [probes_keys probes listed]
    exact List.prefix_append _ _
  | sidecar asked _ =>
    obtain ⟨same, noSlash⟩ := probes_refs probes asked
    rw [meta_noSlash noSlash, same]
    exact List.prefix_append _ _
  | listedBody listed valid _ found reads =>
    rw [probes_keys probes listed] at valid found
    exact body_inside tidy unstaged valid found reads
  | body asked valid found reads =>
    obtain ⟨same, noSlash⟩ := probes_refs probes asked
    rw [meta_noSlash noSlash, same] at found
    rw [same] at valid
    exact body_inside tidy unstaged valid found reads
  | purged same _ | signed same | uploaded same _ | upload same _ | part same _ | parts same
  | partInfo same | root same | object same _ | objectVersion same _ _ | staging same
  | stagedKey same _ =>
    subst same
    exact probes.elim

theorem writes_inside (probes : op.Probes key) (writes : p.Writes w op c) :
    c.Inside (p.versionsDir key) := by
  have below : ∀ name, Below (p.versionsDir key) (p.versionsDir key ++ [name]) := fun name =>
    below_concat.mpr (List.prefix_refl _)
  cases writes with
  | home home _ => exact probes_homes probes home ▸ rfl
  | temp home _ =>
    rw [probes_homes probes home]
    exact List.prefix_refl _
  | fillTemp home _ | dropTemp home _ =>
    rw [probes_homes probes home]
    exact below _
  | closeTemp => trivial
  | body home _ unissued =>
    rw [probes_homes probes home, body_noSlash unissued.1.noSlash]
    exact ⟨below _, below _⟩
  | dropBody home _ unissued =>
    rw [probes_homes probes home, body_noSlash unissued.1.noSlash]
    exact below _
  | newSidecar home unissued _ =>
    rw [probes_homes probes home, meta_noSlash unissued.1.noSlash, tmpOf_concat]
    exact below _
  | publish home _ unissued =>
    rw [probes_homes probes home, meta_noSlash unissued.1.noSlash, tmpOf_concat]
    exact ⟨below _, below _⟩
  | dropSidecar home _ unissued =>
    rw [probes_homes probes home, meta_noSlash unissued.1.noSlash, tmpOf_concat]
    exact below _
  | stage same _ _ | newUpload same _ _ _ | publishUpload same _ _ | dropUpload same _ _
  | unstage same _ _ | newPart same _ _ _ | fillPart same _ _ | complete same _ _ _ | abort same _
  | purge same _ =>
    subst same
    exact probes.elim
  | rewrite again _ _ _ _ _ | republish again _ | dropRewrite again _ =>
    cases op <;> first | exact probes.elim | contradiction
  | removeSidecar removed _ | removeBody removed _ =>
    cases op <;> first | exact probes.elim | contradiction

/-- The same clock, the same version IDs, and trees that agree on a directory. -/
structure Alike (dir : Path) (w u : World) : Prop where
  tree : Tree.Agree dir w.tree u.tree
  clock : w.clock = u.clock
  issued : w.issued = u.issued

theorem alike_follows {dir : Path} (inside : ∀ c, q = .os c → c.Inside dir) (alike : Alike dir w u)
    (served : Serves s w q reply w') : ∃ u', Serves s u q reply u' ∧ Alike dir w' u' := by
  cases q with
  | os c =>
    have inside := inside c rfl
    have performed : ∀ random, (w.tree.perform random c).1 = (u.tree.perform random c).1 ∧
        Alike dir { w with tree := (w.tree.perform random c).2 }
          { u with tree := (u.tree.perform random c).2 } := fun random =>
      ⟨(alike.tree.perform inside).1, (alike.tree.perform inside).2, alike.clock, alike.issued⟩
    rcases served with ⟨random, free, rfl, rfl⟩ | ⟨fails, reason, rfl | ⟨random, free, rfl⟩⟩
    · exact ⟨_, .inl ⟨random, alike.tree.free inside free, (performed random).1, rfl⟩,
        (performed random).2⟩
    · exact ⟨u, .inr ⟨fails, reason, .inl rfl⟩, alike⟩
    · exact ⟨_, .inr ⟨fails, reason, .inr ⟨random, alike.tree.free inside free, rfl⟩⟩,
        (performed random).2⟩
  | now =>
    obtain ⟨later, rfl⟩ := served
    rw [alike.clock] at later
    exact ⟨_, ⟨later, rfl⟩, alike.tree, rfl, alike.issued⟩
  | newVersionID =>
    obtain ⟨unissued, rfl⟩ := served
    refine ⟨_, ⟨?_, rfl⟩, alike.tree, alike.clock, ?_⟩
    · rwa [← alike.issued]
    · rw [alike.issued]

theorem probe_follows (probes : op.Probes key) (tidy : p.Tidy w.tree)
    (unstaged : Apart p.staging (p.versionsDir key)) (alike : Alike (p.versionsDir key) w u)
    {answer : Except GoError op.Answer} (step : Runs (serves s) w (p.body op).run answer w') :
    ∃ u', Runs (serves s) u (p.body op).run answer u' := by
  have follows : ∀ {v v' q reply v₁}, p.May w op v q → Alike (p.versionsDir key) v v' →
      serves s v q reply v₁ → ∃ v₂, serves s v' q reply v₂ ∧ Alike (p.versionsDir key) v₁ v₂ := by
    intro v v' q reply v₁ may alike served
    refine alike_follows (fun c same => ?_) alike served
    subst same
    exact may.elim (reads_inside probes tidy unstaged) (writes_inside probes)
  obtain ⟨u', run, _⟩ := (body_acts tidy op).transfer follows alike step
  exact ⟨u', run⟩

end Probing

/-- The operation can answer the same over both trees, whatever the clock says and
whichever version IDs were handed out. -/
def Provider.SameAnswers (p : Provider) (s : Setting) (t t' : Filesystem.Tree Content)
    (op : Operation) : Prop :=
  ∀ clock issued answer, (∃ u, p.Step s ⟨t, clock, issued⟩ ⟨op, answer⟩ u) ↔
    ∃ u, p.Step s ⟨t', clock, issued⟩ ⟨op, answer⟩ u

theorem apart_versionsDir (valid : validateKey first = none) (valid' : validateKey second = none)
    (apart : Apart (components first) (components second)) :
    Apart (p.versionsDir first) (p.versionsDir second) := by
  rw [versionsDir_eq valid, versionsDir_eq valid']
  exact ⟨fun inside => apart.1 ((List.prefix_append_right_inj _).mp inside),
    fun inside => apart.2 ((List.prefix_append_right_inj _).mp inside)⟩

theorem apart_staging (valid : validateKey key = none)
    (unstaged : (components key).head? ≠ some "_multipart") :
    Apart p.staging (p.versionsDir key) := by
  obtain ⟨name, rest, split⟩ := List.exists_cons_of_ne_nil (components_ne_nil key)
  rw [split, List.head?_cons] at unstaged
  rw [versionsDir_eq valid, Provider.staging, split]
  constructor
  · intro inside
    have start := (List.prefix_append_right_inj _).mp inside
    exact unstaged (congrArg some (List.cons_prefix_cons.mp start).1.symm)
  · intro inside
    have start := (List.prefix_append_right_inj _).mp inside
    exact unstaged (congrArg some (List.cons_prefix_cons.mp start).1)

/-- In every run, an operation on one key leaves the answers about another key as they
were, if neither key is a directory of the other and the other one is not in the staging
area. -/
theorem keys_independent (fresh : p.Fresh w) (history : p.History s w past w') {t : Transition}
    (member : t ∈ past) (on : t.event.op.On first) (valid : validateKey first = none)
    (valid' : validateKey second = none) (apart : Apart (components first) (components second))
    (unstaged : (components second).head? ≠ some "_multipart") (probes : op.Probes second) :
    p.SameAnswers s t.before.tree t.after.tree op := by
  obtain ⟨earlier, before, step⟩ := history.mem member
  have tidy := before.tidy fresh.tidy
  have away : Apart p.staging (p.versionsDir second) := apart_staging valid' unstaged
  have agree := step.agree tidy on (apart_versionsDir valid valid' apart) away
  intro clock issued answer
  constructor
  · rintro ⟨u, run⟩
    exact probe_follows (w := ⟨t.before.tree, clock, issued⟩) (u := ⟨t.after.tree, clock, issued⟩)
      probes tidy away ⟨agree, rfl, rfl⟩ run
  · rintro ⟨u, run⟩
    exact probe_follows (w := ⟨t.after.tree, clock, issued⟩) (u := ⟨t.before.tree, clock, issued⟩)
      probes (step.tidy tidy) away ⟨agree.symm, rfl, rfl⟩ run

section Example

/-- A version under a nested key; the key of its directory is purged. -/
def purgingRun : List Operation :=
  [.put { key := "a/b", body := ⟨[7], none⟩ }, .put { key := "c", body := ⟨[8], none⟩ },
    .purgeAllVersions ⟨"a"⟩]

theorem head_absent {ref : ObjectRef} (quiet : ¬ s.fails)
    (absent : w.tree.look (p.versionsDir ref.key) = none) :
    Ends s (p.head ref).run (fun answer _ => ∃ err, answer = .error err) w := by
  refine Acts.step (acts_check (fun _ => ?_) fun err _ => ⟨err, rfl⟩)
  have does : w.tree.perform 0 (.readDir (p.versionsDir ref.key)) =
      (.error (w.tree.missing (p.versionsDir ref.key)), w.tree) := by
    simp only [Tree.perform, absent]
  refine Acts.step (Acts.step (Acts.step (ends_call quiet (by simp) does ?_)))
  cases w.tree.missing (p.versionsDir ref.key) with
  | notExist => exact ⟨_, rfl⟩
  | notDir | isDir | notEmpty | failed => exact ⟨_, rfl⟩

theorem purging_history : ∃ past w', sample.History calm sampleWorld past w' ∧
      (∃ t ∈ past, t.event.op = .put { key := "c", body := ⟨[8], none⟩ }) ∧
      ∃ t ∈ past, t.event.op = .purgeAllVersions ⟨"a"⟩ ∧
        t.after.tree.look ["data", "a", "b"] = none ∧ ∃ answer u,
          sample.Step calm t.before ⟨.head ⟨"a/b"⟩, .ok answer⟩ u := by
  obtain ⟨past, w', history, _, written, t, member, op, absent, headed⟩ := exists_history
    (p := sample) (w := sampleWorld)
    (P := fun past _ =>
      (∃ t ∈ past, t.event.op = .put { key := "c", body := ⟨[8], none⟩ }) ∧
      ∃ t ∈ past, t.event.op = .purgeAllVersions ⟨"a"⟩ ∧
        (t.after.tree.look ["data", "a", "b"]).isNone ∧
        (sample.body (.head ⟨"a/b"⟩)).run.returns execute t.before
          fun _ _ => true) calm_ticks purgingRun (by decide +kernel)
  obtain ⟨answer, u, run, _⟩ := Program.returns_runs (execute_serves calm_ticks) headed
  exact ⟨past, w', history, written, t, member, op, Option.isNone_iff_eq_none.mp absent, answer,
    u, run⟩

/-- Purging a key removes the versions of a key below it. -/
theorem purge_changes_nested_key : ∃ past w', sample.History calm sampleWorld past w' ∧ validateKey "a" = none ∧
      validateKey "a/b" = none ∧ ∃ t ∈ past, t.event.op.On "a" ∧
        ¬ sample.SameAnswers calm t.before.tree t.after.tree (.head ⟨"a/b"⟩) := by
  obtain ⟨past, w', history, _, t, member, op, absent, answer, u, run⟩ := purging_history
  refine ⟨past, w', history, by decide, by decide, t, member, ?_, fun same => ?_⟩
  · rw [op]
    exact rfl
  · obtain ⟨u', run'⟩ := (same t.before.clock t.before.issued (.ok answer)).mp ⟨u, run⟩
    have gone : t.after.tree.look (sample.versionsDir "a/b") = none := absent
    have fails := head_absent (s := calm) (w := ⟨t.after.tree, t.before.clock, t.before.issued⟩)
      (p := sample) (fun fails => fails) gone
    obtain ⟨err, impossible⟩ := fails.runs run'
    contradiction

theorem keys_independent_put : ∃ t : Transition,
    t.event.op = .put { key := "c", body := ⟨[8], none⟩ } ∧
      sample.SameAnswers calm t.before.tree t.after.tree (.head ⟨"a/b"⟩) := by
  obtain ⟨past, w', history, ⟨t, member, op⟩, _⟩ := purging_history
  have on : t.event.op.On "c" := by
    rw [op]
    exact rfl
  exact ⟨t, op, keys_independent world_root_fresh history member on (by decide) (by decide)
    (by decide) (by decide) rfl⟩

end Example
end KDrive.LocalFsDev
