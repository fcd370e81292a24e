import KDrive.LocalFsDev.Simulation

/-! The operations that write a new version, and the uploads it may come from. -/
namespace KDrive.LocalFsDev
open Go Blobstore Filesystem Interaction
variable {p : Provider} {s : Setting} {w w' w₀ : World} {b : Bucket} {key id new : String} {random : Nat}

section Temporary

/-- The temporary file is removed after it took its place. -/
theorem Provider.Represents.dropped (rep : p.Represents w b) (plain : Plain key) (random : Nat) :
    w.tree.look (p.tempPath key random) ≠ some .dir ∧
      ∀ t, t.look = Function.update w.tree.look (p.tempPath key random) none →
        p.Represents { w with tree := t } b := by
  have absent := rep.look_temp plain random
  refine ⟨by simp [absent], fun t looks => rep.congr ?_ rfl rfl⟩
  change t.look = w.tree.look
  rw [looks, ← absent, Function.update_eq_self]

/-- The write was given up, with or without the temporary file in place. -/
theorem Provider.Represents.abandoned (rep : p.Represents w b) (w' : World) (plain : Plain key)
    (onward : Onward s w w')
    (looks : w'.tree.look = Tree.made (p.versionsDir key) w.tree.look ∨ ∃ content, w'.tree.look =
      Function.update (Tree.made (p.versionsDir key) w.tree.look) (p.tempPath key random)
        (some (.file content))) :
    w'.tree.look (p.tempPath key random) ≠ some .dir ∧
      ∀ t, t.look = Function.update w'.tree.look (p.tempPath key random) none →
        b.Keeps s.later { b with time := w'.clock } ∧
          p.Represents { w' with tree := t } { b with time := w'.clock } := by
  have absent : Tree.made (p.versionsDir key) w.tree.look (p.tempPath key random) = none := by
    rw [Provider.tempPath, look_made_child]
    exact rep.look_temp plain random
  have bare : Function.update (Tree.made (p.versionsDir key) w.tree.look) (p.tempPath key random) none =
      Tree.made (p.versionsDir key) w.tree.look := by
    rw [← absent, Function.update_eq_self]
  have next : ∀ t : Filesystem.Tree Content, t.look = Tree.made (p.versionsDir key) w.tree.look →
      b.Keeps s.later { b with time := w'.clock } ∧
        p.Represents { w' with tree := t } { b with time := w'.clock } := fun t looks =>
    rep.opened { w' with tree := t } plain ⟨onward.clock, onward.issued⟩ looks
  rcases looks with looks | ⟨content, looks⟩
  · refine ⟨by simp [looks, absent], fun t looks' => next t ?_⟩
    rw [looks', looks, bare]
  · refine ⟨by simp [looks], fun t looks' => next t ?_⟩
    rw [looks', looks, Function.update_idem, bare]

/-- The end of a write, once the temporary file holds the body. -/
theorem ends_published (quiet : ¬ s.fails) (rep : p.Represents w₀ b) (plain : Plain key)
    (unissued : w₀.Unissued new) (issued : w.issued = new :: w₀.issued) (clock : w.clock = w₀.clock)
    (looks : w.tree.look = Function.update (Tree.made (p.versionsDir key) w₀.tree.look)
      (p.tempPath key random) (some (.file (.bytes data))))
    {finalize : GoError → GoError}
    (stored : ∀ v w', b.Pushes s.later (b.push key v) key (some data) contentType
        (effectiveRetention retention) v → p.Represents w' (b.push key v) →
      post (.ok (putResult (v.sidecar key))) w')
    (failed : ∀ err w', Onward s w₀ w' → w'.tree.look = Tree.made (p.versionsDir key) w₀.tree.look →
      b.Undated s.later { b with time := w'.clock } (effectiveRetention retention).retainUntil →
      post (.error err) w') :
    Ends s (p.publish (p.tempPath key random)
      (Provider.newSidecar key new data contentType retention) finalize).run post w := by
  have json : ".json".toList.getLast? = some 'n' := by decide
  have bin : ".bin".toList.getLast? = some 'n' := by decide
  have tmp : ".tmp".toList.getLast? = some 'p' := by decide
  have free := rep.free plain unissued.2
  have beside : ∀ {suf : String} {c : Char} (stem : String), suf.toList.getLast? = some c →
      c.isDigit = false → w.tree.look (p.versionsDir key ++ [stem ++ suf]) =
        w₀.tree.look (p.versionsDir key ++ [stem ++ suf]) := by
    intro suf c stem ends letter
    rw [looks, Provider.tempPath, look_update_child, if_neg (temp_ne ends letter).symm, look_made_child]
  have free' : p.Free w.tree key new :=
    ⟨(beside new bin (by decide)).trans free.body, (beside new json (by decide)).trans free.sidecar,
      (beside _ tmp (by decide)).trans free.temporary⟩
  have parent : w.tree.look (p.versionsDir key) = some .dir := by
    rw [looks, Function.update_of_ne (by simp [Provider.tempPath]), look_made_self]
  have gone : Function.update w.tree.look (p.tempPath key random) none =
      Tree.made (p.versionsDir key) w₀.tree.look := by
    have absent : Tree.made (p.versionsDir key) w₀.tree.look (p.tempPath key random) = none := by
      rw [Provider.tempPath, look_made_child]
      exact rep.look_temp plain random
    rw [looks, Function.update_idem, ← absent, Function.update_eq_self]
  have found : w.tree.look (p.tempPath key random) = some (.file (.bytes data)) := by
    rw [looks, Function.update_self]
  have more : w₀.issued ⊆ w.issued := issued ▸ List.subset_cons_self _ _
  refine ends_publish quiet (Provider.newSidecar key new data contentType retention)
    unissued.1.noSlash parent found free' ?_ ?_
  · intro now t later _ _ looks'
    rw [clock] at later
    let v : Version := ⟨new, some data, contentType, effectiveRetention retention, now⟩
    have written := looks'.trans (congrArg (p.written (v.sidecar key) data) gone)
    obtain ⟨pushes, rep'⟩ := rep.stored (v := v) { w with tree := t, clock := now } plain
      unissued later rfl issued rfl written
    exact stored v _ pushes rep'
  · intro err now t later undated looks'
    rw [clock] at later
    exact failed err _ ⟨.inr later, more⟩ (looks'.trans gone) ⟨rep.time ▸ later, undated⟩

end Temporary

section Bodies

theorem mismatch_none {req : PutRequest} (fine : Provider.bodyMismatch req = none) :
    ¬ Bucket.Mismatch req := by
  simp only [Provider.bodyMismatch] at fine
  split at fine
  · contradiction
  · rename_i length
    split at fine
    · contradiction
    · rename_i sum
      exact fun wrong => wrong.elim length sum

theorem mismatch_some {req : PutRequest} (wrong : Provider.bodyMismatch req = some err) :
    Bucket.Mismatch req ∧ err.is errChecksumMismatch = true := by
  simp only [Provider.bodyMismatch] at wrong
  split at wrong
  · rename_i length
    cases wrong
    exact ⟨.inl length, rfl⟩
  · split at wrong
    · rename_i sum
      cases wrong
      exact ⟨.inr sum, rfl⟩
    · contradiction

/-- A body is written whole and put on top, or the bucket stays as it is. -/
theorem ends_written (quiet : ¬ s.fails) (rep : p.Represents w b) (plain : Plain key) {r : Reader}
    {mismatch : Option GoError} {mkdirFails tempFails copyFails closeFails finalize : GoError → GoError}
    {post : Except GoError PutResult → World → Prop}
    (stored : ∀ v w', r.failure = none → mismatch = none → b.Pushes s.later (b.push key v) key (some r.data)
        contentType (effectiveRetention retention) v → p.Represents w' (b.push key v) →
      post (.ok (putResult (v.sidecar key))) w')
    (refused : ∀ err b' w', b.Keeps s.later b' → p.Represents w' b' →
      r.failure ≠ none ∨ mismatch = some err ∨
        b.Undated s.later b' (effectiveRetention retention).retainUntil → post (.error err) w') :
    Ends s (p.newVersion key mkdirFails tempFails fun versionID tmp => do
      copyTo tmp r copyFails
      attempt (.close tmp) closeFails
      check mismatch
      p.publish tmp (Provider.newSidecar key versionID r.data contentType retention) finalize).run post w := by
  have clear := rep.clear plain
  refine ends_newVersion quiet clear.unblocked clear.noFile
    fun new random w' unissued issued clock absent looks => ?_
  have found : w'.tree.look (p.tempPath key random) = some (.file (.bytes [])) := by
    rw [looks, Function.update_self]
  have filled : ∀ t : Filesystem.Tree Content, t.look = Function.update w'.tree.look (p.tempPath key random)
      (some (.file (.bytes ([] ++ r.data)))) → t.look =
        Function.update (Tree.made (p.versionsDir key) w.tree.look) (p.tempPath key random)
          (some (.file (.bytes r.data))) := by
    intro t looks'
    rw [looks', looks, Function.update_idem, List.nil_append]
  have givenUp : ∀ (t : Filesystem.Tree Content) err, t.look = Function.update w'.tree.look (p.tempPath key random)
      (some (.file (.bytes ([] ++ r.data)))) → r.failure ≠ none ∨ mismatch = some err →
      t.look (p.tempPath key random) ≠ some .dir ∧ ∀ t' : Filesystem.Tree Content, t'.look =
        Function.update t.look (p.tempPath key random) none →
          post (.error err) { w' with tree := t' } := by
    intro t err looks' cause
    obtain ⟨noDir, drop⟩ := rep.abandoned { w' with tree := t } plain
      ⟨.inl clock, issued ▸ List.subset_cons_self _ _⟩ (.inr ⟨_, filled t looks'⟩)
    refine ⟨noDir, fun t' gone => refused err _ _ (drop t' gone).1 (drop t' gone).2 ?_⟩
    exact cause.imp_right .inl
  refine Acts.step (ends_copyTo quiet found (fun t whole looks' => ?_)
    fun err t cut looks' => givenUp t _ looks' (.inl (by simp [cut])))
  refine Acts.step (ends_close quiet (Acts.step (acts_check (fun fine => ?_)
    fun err wrong => givenUp t err looks' (.inr wrong))))
  refine ends_published (w := { w' with tree := t }) quiet rep plain unissued issued clock
    (filled t looks') (fun v w'' pushes rep' => ?_) fun err w'' onward looks'' undated => ?_
  · obtain ⟨noDir, drop⟩ := rep'.dropped plain random
    exact ⟨noDir, fun t' gone => stored v _ whole fine pushes (drop t' gone)⟩
  · obtain ⟨noDir, drop⟩ := rep.abandoned _ plain onward (.inl looks'')
    exact ⟨noDir, fun t' gone => refused err _ _ (drop t' gone).1 (drop t' gone).2 (.inr (.inr undated))⟩

theorem mirrors_put (quiet : ¬ s.fails) (rep : p.Represents w b) {req : PutRequest}
    (flat : '/' ∉ req.key.toList) :
    Ends s (p.put req).run (p.Mirrors s b (.put req)) w := by
  refine ends_guarded flat (fun _ wrong => ⟨b, ⟨b.keeps_refl, .inl wrong⟩, rep⟩) fun plain => ?_
  have writes : ¬ (req.ifNoneMatch = true ∧ b.stack req.key ≠ []) →
      Ends s (p.newVersion req.key (.wrap "local_fs_dev: mkdir %q: %w" [.str req.key])
        (.wrap "local_fs_dev: create temp: %w" []) fun versionID tmp => do
          copyTo tmp req.body (.wrap "local_fs_dev: write %q: %w" [.str req.key])
          attempt (.close tmp) (.wrap "local_fs_dev: close %q: %w" [.str req.key])
          check (Provider.bodyMismatch req)
          p.publish tmp
            (Provider.newSidecar req.key versionID req.body.data req.contentType req.retention)
            (.wrap "local_fs_dev: finalize %q: %w" [.str req.key])).run (p.Mirrors s b (.put req)) w := by
    intro free
    refine ends_written quiet rep plain (fun v w' whole fine pushes rep' => ?_)
      fun err b' w' keeps rep' cause => ⟨b', ⟨keeps, .inr (.inr ?_)⟩, rep'⟩
    · exact ⟨_, ⟨free, whole, mismatch_none fine, v, pushes, rfl⟩, rep'⟩
    · rcases cause with cut | wrong | undated
      · exact .inl cut
      · exact .inr (.inl (mismatch_some wrong))
      · exact .inr (.inr undated)
  refine Acts.step ?_
  unfold Provider.refuseExisting
  cases conditional : req.ifNoneMatch with
  | false => exact writes (by simp [conditional])
  | true =>
    refine Acts.step (ends_anyVersion quiet rep plain ?_)
    by_cases empty : b.stack req.key = []
    · simp only [Continues, empty, ne_eq, not_true_eq_false, decide_false, Bool.false_eq_true, if_false]
      exact writes fun taken => taken.2 empty
    · simp only [Continues, ne_eq, empty, not_false_eq_true, decide_true, if_true]
      exact ⟨b, ⟨b.keeps_refl, .inr (.inl ⟨conditional, empty, rfl⟩)⟩, rep⟩

/-- A version is copied with its body. -/
theorem ends_copyBody (quiet : ¬ s.fails) (rep : p.Represents w b) (src : VersionedObjectRef)
    {dstKey : String} {retention : RetentionSpec} {v : Version} (plain : Plain src.key)
    (plain' : Plain dstKey) (member : v ∈ b.stack src.key)
    {mkdirFails tempFails openFails copyFails closeFails finalize : GoError → GoError}
    {post : Except GoError PutResult → World → Prop}
    (stored : ∀ data copy w', v.body = some data → b.Pushes s.later (b.push dstKey copy) dstKey
        (some data) v.contentType (effectiveRetention retention) copy →
      p.Represents w' (b.push dstKey copy) → post (.ok (putResult (copy.sidecar dstKey))) w')
    (absent : ∀ err, v.body = none → post (.error err) w)
    (undated : ∀ err b' w', b.Keeps s.later b' → p.Represents w' b' →
      b.Undated s.later b' (effectiveRetention retention).retainUntil → post (.error err) w') :
    Ends s (do
      let srcBody : Node Content ← attempt (.openFile (p.versionBodyPath src.key v.versionID)) openFails
      p.newVersion dstKey mkdirFails tempFails fun versionID tmp => do
        copyTo tmp (Provider.reader srcBody) copyFails
        attempt (.close tmp) closeFails
        check (Provider.copyMismatch (v.sidecar src.key) (Provider.reader srcBody).data)
        p.publish tmp (Provider.newSidecar dstKey versionID (Provider.reader srcBody).data
          v.contentType retention) finalize : Action PutResult).run post w := by
  refine Acts.step (Acts.step (ends_openFile quiet ?_))
  rw [rep.body plain member]
  cases body : v.body with
  | none => exact absent _ body
  | some data =>
    have same : Provider.copyMismatch (v.sidecar src.key) data = none := by
      simp [Provider.copyMismatch, Version.sidecar, body]
    refine ends_written (r := ⟨data, none⟩) quiet rep plain'
      (fun copy w' _ _ pushes rep' => stored data copy w' body pushes rep')
      fun err b' w' keeps rep' cause => undated err b' w' keeps rep' ?_
    rcases cause with impossible | wrong | undated
    · exact absurd rfl impossible
    · exact absurd (same.symm.trans wrong) (by simp)
    · exact undated

theorem mirrors_copyWithinProvider (quiet : ¬ s.fails) (rep : p.Represents w b)
    (ordered : b.Ordered) {src : VersionedObjectRef} {dstKey : String} {retention : RetentionSpec} (flat : '/' ∉ src.key.toList)
    (noSlash : '/' ∉ src.versionID.toList) (flat' : '/' ∉ dstKey.toList) :
    Ends s (p.copyWithinProvider src dstKey retention).run
      (p.Mirrors s b (.copyWithinProvider src dstKey retention)) w := by
  refine ends_guarded flat (fun _ wrong => ⟨b, ⟨b.keeps_refl, .inl wrong⟩, rep⟩) fun plain => ?_
  refine ends_guarded flat' (fun _ wrong => ⟨b, ⟨b.keeps_refl, .inr (.inl wrong)⟩, rep⟩)
    fun plain' => ?_
  refine Acts.step (ends_source quiet rep ordered plain noSlash (fun v member found => ?_)
    fun err absent _ => ⟨b, ⟨b.keeps_refl, .inr (.inr (.inl absent))⟩, rep⟩)
  refine ends_copyBody quiet rep src plain plain' member
    (fun data copy w' body pushes rep' => ?_) (fun err body => ?_)
    fun err b' w' keeps rep' undated => ⟨b', ⟨keeps, .inr (.inr (.inr undated))⟩, rep'⟩
  · rw [body] at found
    exact ⟨_, ⟨v, data, found, copy, pushes, rfl⟩, rep'⟩
  · rw [body] at found
    exact ⟨b, ⟨b.keeps_refl, .inr (.inr (.inl found))⟩, rep⟩

end Bodies
end KDrive.LocalFsDev
