import KDrive.LocalFsDev.Retention
import KDrive.LocalFsDev.Uploading

/-! The provider refines a versioned bucket: in every run with keys, version IDs and
upload IDs that name something, the answers are those of a bucket. An upload ID may
however be a way out of the staging directory. -/
namespace KDrive.LocalFsDev
open Go Blobstore Filesystem Interaction
variable {p : Provider} {s : Setting} {w w' : World} {b b' : Bucket}

/-- Keys and version IDs have no slash, and an upload ID is a name. -/
def Operation.Flat : Operation → Prop
  | .put req => '/' ∉ req.key.toList
  | .head ref | .delete ref | .purgeAllVersions ref => '/' ∉ ref.key.toList
  | .get ref _ | .getRetention ref | .updateRetention ref _ | .setLegalHold ref _
  | .deleteVersion ref => '/' ∉ ref.key.toList ∧ '/' ∉ ref.versionID.toList
  | .createMultipart req => '/' ∉ req.key.toList
  | .uploadPart upload _ _ | .abortMultipart upload =>
    '/' ∉ upload.key.toList ∧ IsName upload.uploadID
  | .completeMultipart req => '/' ∉ req.upload.key.toList ∧ IsName req.upload.uploadID
  | .copyWithinProvider src dstKey _ =>
    '/' ∉ src.key.toList ∧ '/' ∉ src.versionID.toList ∧ '/' ∉ dstKey.toList
  | .listObjectVersions key => '/' ∉ key.toList
  | .deleteBatch refs => ∀ ref ∈ refs, '/' ∉ ref.key.toList ∧ '/' ∉ ref.versionID.toList
  | .signUploadPart .. | .listObjects .. | .listMultipartUploads .. | .listParts .. => True

instance : DecidablePred Operation.Flat
  | .put _ | .head _ | .delete _ | .purgeAllVersions _ | .createMultipart _
  | .listObjectVersions _ => inferInstanceAs (Decidable (_ ∉ _))
  | .get .. | .getRetention _ | .updateRetention .. | .setLegalHold .. | .deleteVersion _
  | .uploadPart .. | .abortMultipart _ | .completeMultipart _ | .copyWithinProvider .. =>
    inferInstanceAs (Decidable (_ ∧ _))
  | .deleteBatch refs => inferInstanceAs (Decidable (∀ ref ∈ refs, _ ∧ _))
  | .signUploadPart .. | .listObjects .. | .listMultipartUploads .. | .listParts .. =>
    .isTrue trivial

section Order

theorem Bucket.ordered_empty (time : Time) : (Bucket.empty time).Ordered := fun _ =>
  ⟨.nil, by simp [Bucket.empty]⟩

theorem Bucket.Keeps.ordered (keeps : b.Keeps (· < ·) b') (ordered : b.Ordered) : b'.Ordered := by
  obtain ⟨now, later, rfl⟩ := keeps
  refine fun key => ⟨(ordered key).1, fun v member => ?_⟩
  rcases later with same | later
  · exact same ▸ (ordered key).2 v member
  · exact ((ordered key).2 v member).trans (Int.le_of_lt later)

theorem Bucket.Ordered.restack (ordered : b.Ordered) (key : String)
    (newest : versions.Pairwise fun above below => below.writeTime < above.writeTime)
    (past : ∀ v ∈ versions, v.writeTime ≤ b.time) : (b.restack key versions).Ordered := by
  intro other
  simp only [Bucket.restack]
  by_cases same : other = key
  · rw [same, Function.update_self]
    exact ⟨newest, past⟩
  · rw [Function.update_of_ne same]
    exact ordered other

theorem Bucket.Pushes.ordered (pushes : b.Pushes (· < ·) b' key body contentType retention v)
    (ordered : b.Ordered) : b'.Ordered := by
  obtain ⟨_, later, _, _, _, rfl⟩ := pushes
  have aged : ({ b with time := v.writeTime } : Bucket).Ordered := fun key =>
    ⟨(ordered key).1, fun u member => ((ordered key).2 u member).trans (Int.le_of_lt later)⟩
  refine Bucket.Ordered.restack aged key (List.pairwise_cons.mpr ⟨fun u member => ?_, (ordered key).1⟩) ?_
  · exact Int.lt_of_le_of_lt ((ordered key).2 u member) later
  · intro u member
    rcases List.mem_cons.mp member with rfl | older
    · exact le_rfl
    · exact (aged key).2 u older

theorem Bucket.Ordered.remove (ordered : b.Ordered) (ref : VersionedObjectRef) :
    (b.remove ref).Ordered :=
  ordered.restack ref.key ((ordered ref.key).1.filter _) fun v member =>
    (ordered ref.key).2 v (List.mem_of_mem_filter member)

theorem Bucket.Ordered.removeAll (ordered : b.Ordered) (refs : List VersionedObjectRef) :
    (refs.foldl (fun b ref => if validateKey ref.key = none then b.remove ref else b) b).Ordered := by
  induction refs generalizing b with
  | nil => exact ordered
  | cons ref rest ih =>
    rw [List.foldl_cons]
    refine ih ?_
    split
    · exact ordered.remove ref
    · exact ordered

theorem Bucket.Ordered.retain (ordered : b.Ordered) (ref : VersionedObjectRef)
    (retention : RetentionState) : (b.retain ref retention).Ordered := by
  have sameTime : ∀ v : Version, (if v.versionID = ref.versionID then { v with retention } else v).writeTime =
      v.writeTime := fun v => by split <;> rfl
  refine ordered.restack ref.key ?_ fun u member => ?_
  · rw [List.pairwise_map]
    exact (ordered ref.key).1.imp fun {u v} earlier => by rwa [sameTime, sameTime]
  · obtain ⟨v, inside, rfl⟩ := List.mem_map.mp member
    rw [sameTime]
    exact (ordered ref.key).2 v inside

/-- Operations keep the newest version on top. -/
theorem Bucket.Does.ordered {op : Operation} {answer : Except GoError op.Answer}
    (does : b.Does (· < ·) b' op answer) (ordered : b.Ordered) : b'.Ordered := by
  cases answer with
  | error err =>
    cases op with
    | uploadPart =>
      rcases does with ⟨keeps, _⟩ | ⟨_, _, _, rfl⟩
      · exact keeps.ordered ordered
      · exact ordered
    | deleteBatch => exact does.elim
    | signUploadPart | listObjects | listMultipartUploads | listParts =>
      exact Bucket.Keeps.ordered does ordered
    | _ => exact does.1.ordered ordered
  | ok result =>
    cases op with
    | put | copyWithinProvider =>
      obtain ⟨_, _, _, v, pushes, _⟩ := does
      exact pushes.ordered ordered
    | delete =>
      obtain ⟨_, v, pushes⟩ := does
      exact pushes.ordered ordered
    | completeMultipart =>
      obtain ⟨_, _, _, _, _, v, pushes, _⟩ := does
      exact pushes.ordered ordered
    | deleteVersion ref =>
      cases does
      exact ordered.remove ref
    | purgeAllVersions ref =>
      cases does
      exact ordered.restack ref.key .nil (by simp)
    | updateRetention ref | setLegalHold ref =>
      obtain ⟨_, _, _, rfl⟩ := does
      exact ordered.retain ref result
    | createMultipart =>
      obtain ⟨_, _, now, later, rfl⟩ := does
      exact fun key => ⟨(ordered key).1, fun v member =>
        ((ordered key).2 v member).trans (Int.le_of_lt later)⟩
    | uploadPart =>
      obtain ⟨_, _, _, _, _, rfl⟩ := does
      exact ordered
    | abortMultipart =>
      cases does
      exact ordered
    | deleteBatch refs =>
      obtain ⟨_, rfl⟩ := does
      exact ordered.removeAll refs
    | head | get | getRetention | listObjectVersions => exact does.1.ordered ordered
    | signUploadPart | listObjects | listMultipartUploads | listParts =>
      exact Bucket.Keeps.ordered does ordered

end Order

section Steps

/-- An operation that only reads leaves every file in place. -/
theorem ends_reading (quiet : ¬ s.fails)
    (trans : ∀ {a b c}, s.later a b → s.later b c → s.later a c) (tidy : p.Tidy w.tree) (op : Operation)
    (reads : ∀ c, ¬ p.Writes w op c) :
    Ends s (p.body op).run (fun _ w' => Onward s w w' ∧ w'.tree.look = w.tree.look) w := by
  have keeps := (body_acts (s := s) tidy op).keeps
    (R := fun before after : World => Onward s before after ∧ after.tree.look = before.tree.look)
    (fun _ => ⟨⟨.inl rfl, List.Subset.refl _⟩, rfl⟩)
    (fun ⟨first, look⟩ ⟨second, look'⟩ => ⟨first.trans trans second, look'.trans look⟩) ?_
  · exact keeps.mono (fun _ _ _ => trivial) fun _ _ holds => holds.2
  · intro before q reply after may served
    cases q with
    | os c =>
      rcases served with ⟨random, _, _, rfl⟩ | ⟨fails, _⟩
      · refine ⟨⟨.inl rfl, List.Subset.refl _⟩, funext fun path => ?_⟩
        have reading := may.resolve_right (reads c)
        exact Tree.look_perform_of_untouched (not_touches_of_reads reading)
      · exact absurd fails quiet
    | now =>
      obtain ⟨later, rfl⟩ := served
      exact ⟨⟨.inr later, List.Subset.refl _⟩, rfl⟩
    | newVersionID =>
      obtain ⟨_, rfl⟩ := served
      exact ⟨⟨.inl rfl, List.subset_cons_self _ _⟩, rfl⟩

theorem ends_keeping (quiet : ¬ s.fails)
    (trans : ∀ {a b c}, s.later a b → s.later b c → s.later a c) (rep : p.Represents w b)
    (tidy : p.Tidy w.tree) (op : Operation) (reads : ∀ c, ¬ p.Writes w op c) :
    Ends s (p.body op).run (fun _ w' => ∃ b', b.Keeps s.later b' ∧ p.Represents w' b') w :=
  (ends_reading quiet trans tidy op reads).imp fun _ _ ⟨onward, look⟩ => ⟨_, rep.keeps _ onward look⟩

theorem body_mirrors (rep : p.Represents w b) (ordered : b.Ordered) (tidy : p.Tidy w.tree) {op : Operation}
    (flat : op.Flat) : Ends ticking (p.body op).run (p.Mirrors ticking b op) w := by
  cases op with
  | put req => exact mirrors_put quiet_ticking rep flat
  | head ref => exact mirrors_head quiet_ticking rep ordered flat
  | get ref range => exact mirrors_get quiet_ticking rep ordered flat.1 flat.2
  | delete ref => exact mirrors_delete quiet_ticking rep flat
  | purgeAllVersions ref => exact mirrors_purgeAllVersions quiet_ticking rep flat
  | createMultipart req => exact mirrors_createMultipart quiet_ticking rep flat
  | uploadPart upload n body => exact mirrors_uploadPart quiet_ticking rep flat.1 flat.2
  | completeMultipart req => exact mirrors_completeMultipart quiet_ticking rep flat.1 flat.2
  | abortMultipart upload => exact mirrors_abortMultipart quiet_ticking rep flat.1 flat.2
  | copyWithinProvider src dstKey retention =>
    exact mirrors_copyWithinProvider quiet_ticking rep ordered flat.1 flat.2.1 flat.2.2
  | getRetention ref => exact mirrors_getRetention quiet_ticking rep flat.1 flat.2
  | updateRetention ref change => exact mirrors_updateRetention quiet_ticking rep flat.1 flat.2
  | setLegalHold ref enabled => exact mirrors_setLegalHold quiet_ticking rep flat.1 flat.2
  | listObjectVersions key => exact mirrors_listObjectVersions quiet_ticking rep ordered flat
  | deleteVersion ref => exact mirrors_deleteVersion quiet_ticking rep flat.1 flat.2
  | deleteBatch refs => exact mirrors_deleteBatch quiet_ticking rep refs flat
  | signUploadPart | listObjects | listMultipartUploads | listParts =>
    exact ends_keeping quiet_ticking Int.lt_trans rep tidy _ fun c writes => by
      cases writes <;> contradiction

theorem Provider.History.mirrors (fresh : p.Fresh w) (history : p.History ticking w past w')
    (flat : ∀ t ∈ past, t.event.op.Flat) :
    ∃ b, Bucket.Run (· < ·) (.empty w.clock) (past.map Transition.event) b ∧ b.Ordered ∧
      p.Represents w' b := by
  induction history with
  | start => exact ⟨_, .start, Bucket.ordered_empty _, fresh.represents⟩
  | step before step ih =>
    obtain ⟨b, run, ordered, rep⟩ := ih fun t member => flat t (List.mem_append_left _ member)
    have last := flat _ (List.mem_append_right _ (List.mem_singleton_self _))
    have ends := body_mirrors rep ordered (before.tidy fresh.tidy) last
    obtain ⟨b', does, rep'⟩ := ends.runs step
    refine ⟨b', ?_, does.ordered ordered, rep'⟩
    rw [List.map_append, List.map_singleton]
    exact .step run does

theorem ticking_total : ∀ w q, ∃ reply w', serves ticking w q reply w' :=
  serves_total fun now => ⟨now + 1, ticking_ticks now⟩

theorem exists_step (p : Provider) (w : World) (op : Operation) :
    ∃ answer w', p.Step ticking w ⟨op, answer⟩ w' :=
  exists_runs ticking_total (p.body op).run w

end Steps

/-- Every run is a run of a bucket, and every operation returns. -/
theorem refines_bucket (fresh : p.Fresh w) (history : p.History ticking w past w')
    (flat : ∀ t ∈ past, t.event.op.Flat) :
    (∃ b, Bucket.Run (· < ·) (.empty w.clock) (past.map Transition.event) b) ∧
      ∀ op, ∃ answer w'', p.Step ticking w' ⟨op, answer⟩ w'' := by
  obtain ⟨b, run, _⟩ := history.mirrors fresh flat
  exact ⟨⟨b, run⟩, exists_step p w'⟩

section Example

theorem Bucket.Run.last (run : Bucket.Run later b (past ++ [e]) b') :
    ∃ b₁, Bucket.Run later b past b₁ ∧ b₁.Does later b' e.op e.answer := by
  generalize all : past ++ [e] = events at run
  cases run with
  | start => simp at all
  | step before does =>
    obtain ⟨rfl, same⟩ := List.append_inj' all rfl
    cases List.singleton_inj.mp same
    exact ⟨_, before, does⟩

/-- A version is written, and an upload ID leads to the directory of its key. -/
def escapingRun : List Operation :=
  [.put { key := "b", body := ⟨[7], none⟩ }, .abortMultipart ⟨"a", "../../b"⟩, .head ⟨"b"⟩]

/-- The first two operations of the run succeed, and the third one fails. -/
def escaped (past : List Transition) : Bool :=
  match past with
  | [put, abort, head] => !put.event.refused && !abort.event.refused && head.event.refused
  | _ => false

/-- The version is gone without an operation on its key. -/
theorem abort_removes_version : ∃ past w', sample.History ticking sampleWorld past w' ∧
      past.map (fun t => t.event.op) = escapingRun ∧
      validateKey "a" = none ∧ validateKey "b" = none ∧
      ¬ ∃ b, Bucket.Run (· < ·) (.empty 0) (past.map Transition.event) b := by
  obtain ⟨past, w', history, ops, played⟩ := exists_history
    (p := sample) (w := sampleWorld)
    (P := fun past _ => escaped past) ticking_ticks escapingRun (by decide +kernel)
  unfold escaped at played
  split at played
  · rename_i put abort head
    simp only [Bool.and_eq_true, Bool.not_eq_true'] at played
    obtain ⟨⟨stored, aborted⟩, missing⟩ := played
    refine ⟨_, w', history, ops, by decide, by decide, ?_⟩
    rintro ⟨b, run⟩
    obtain ⟨_, ⟨op, answer⟩, _⟩ := put
    obtain ⟨_, ⟨op', answer'⟩, _⟩ := abort
    obtain ⟨_, ⟨op'', answer''⟩, _⟩ := head
    simp only [List.map_cons, List.map_nil, escapingRun, List.cons.injEq] at ops
    obtain ⟨rfl, rfl, rfl, _⟩ := ops
    cases answer with
    | error err => contradiction
    | ok result =>
      cases answer' with
      | error err => contradiction
      | ok done =>
        cases answer'' with
        | ok info => contradiction
        | error err =>
          change Bucket.Run _ _ ([_, _] ++ [_]) b at run
          obtain ⟨b₂, run, _, third⟩ := run.last
          change Bucket.Run _ _ ([_] ++ [_]) b₂ at run
          obtain ⟨b₁, run, second⟩ := run.last
          change Bucket.Run _ _ ([] ++ [_]) b₁ at run
          obtain ⟨_, _, _, _, _, v, ⟨_, _, body, _, _, pushed⟩, _⟩ := run.last
          have top : b₂.current ⟨"b", ""⟩ = some (v, [7]) := by
            rw [show b₂ = b₁.stage "a" "../../b" none from second, pushed]
            simp [Bucket.current, Bucket.stage, Bucket.push, Bucket.restack, body]
          rcases third with invalid | ⟨absent, _⟩
          · have valid : validateKey "b" = none := by decide
            exact absurd (valid.symm.trans invalid) (by simp)
          · rw [show b₂.current ⟨"b", ""⟩ = none from absent] at top
            contradiction
  · contradiction

/-- An upload of one part is completed and marked as deleted. -/
def bucketRun : List Operation :=
  [.put { key := "a", body := ⟨[7], none⟩ }, .createMultipart { key := "a" },
    .uploadPart ⟨"a", "0000000000000000-00000001"⟩ 1 ⟨[8], none⟩,
    .completeMultipart ⟨⟨"a", "0000000000000000-00000001"⟩, [{ partNumber := 1 }], {}⟩,
    .delete ⟨"a"⟩, .get ⟨"a", ""⟩ none]

theorem refines_bucket_upload : ∃ past w', sample.History ticking sampleWorld past w' ∧
      past.map (fun t => t.event.op) = bucketRun ∧
      (∃ b, Bucket.Run (· < ·) (.empty 0) (past.map Transition.event) b) ∧
      ∀ op, ∃ answer w'', sample.Step ticking w' ⟨op, answer⟩ w'' := by
  obtain ⟨past, w', history, ops, _⟩ := exists_history
    (p := sample) (w := sampleWorld)
    (P := fun _ _ => True) ticking_ticks bucketRun (by decide +kernel)
  have flat : ∀ op ∈ bucketRun, op.Flat := by decide
  exact ⟨past, w', history, ops,
    refines_bucket world_root_fresh history fun t member => flat _ (mem_of_played ops t member)⟩

end Example
end KDrive.LocalFsDev
