import KDrive.LocalFsDev.Inventory
import KDrive.LocalFsDev.Refinement

/-! Whether an object exists. A key whose newest version has a body exists for every
operation, and a key without versions for none. With a delete marker on top the operations
disagree. -/
namespace KDrive.LocalFsDev
open Go Blobstore Filesystem Interaction
variable {p : Provider} {s : Setting} {w w' : World} {b : Bucket} {key : String}

section Verdicts
variable (p : Provider) (w : World)

/-- The operation returns no error, whatever the clock reads. -/
def Provider.Succeeds (op : Operation) : Prop :=
  ∀ answer w', p.Step calm w ⟨op, answer⟩ w' → ∃ value, answer = .ok value

def Provider.Fails (op : Operation) : Prop :=
  ∀ answer w', p.Step calm w ⟨op, answer⟩ w' → ∃ err, answer = .error err

/-- There are readings of the clock with which the operation returns no error. -/
def Provider.Can (op : Operation) : Prop :=
  ∃ value w', p.Step calm w ⟨op, .ok value⟩ w'

/-- A body that can be read and is the one announced, to be kept until a date with a text. -/
structure Acceptable (req : PutRequest) : Prop where
  readable : req.body.failure = none
  announced : Provider.bodyMismatch req = none
  dates : dated (effectiveRetention req.retention).retainUntil

/-- Every operation finds the object. -/
structure Provider.Present (key : String) : Prop where
  head : p.Succeeds w (.head ⟨key⟩)
  get : p.Succeeds w (.get ⟨key, ""⟩ none)
  listed : ∀ maxKeys, (∃ seen, p.Walks maxKeys w "" seen) ∧
    ∀ seen, p.Walks maxKeys w "" seen → key ∈ seen.map ObjectMeta.key
  refused : ∀ req answer w', req.key = key → req.ifNoneMatch = true →
    p.Step calm w ⟨.put req, answer⟩ w' →
    ∃ err, answer = .error err ∧ err.is errPreconditionFailed = true
  copied : ∀ dstKey retention, validateKey dstKey = none → '/' ∉ dstKey.toList →
    dated (effectiveRetention retention).retainUntil →
    p.Can w (.copyWithinProvider ⟨key, ""⟩ dstKey retention)
  sameBytes : ∀ dstKey retention result w₁ body info w₂ answer w₃,
    validateKey dstKey = none → '/' ∉ dstKey.toList →
    p.Step calm w ⟨.copyWithinProvider ⟨key, ""⟩ dstKey retention, .ok result⟩ w₁ →
    p.Step calm w ⟨.get ⟨key, ""⟩ none, .ok (body, info)⟩ w₂ →
    p.Step calm w₁ ⟨.get ⟨dstKey, result.versionID⟩ none, answer⟩ w₃ →
    ∃ info', answer = .ok (body, info')

/-- No operation finds the object. -/
structure Provider.Absent (key : String) : Prop where
  head : p.Fails w (.head ⟨key⟩)
  get : p.Fails w (.get ⟨key, ""⟩ none)
  unlisted : ∀ maxKeys seen, p.Walks maxKeys w "" seen → key ∉ seen.map ObjectMeta.key
  accepted : ∀ req, req.key = key → req.ifNoneMatch = true → Acceptable req → p.Can w (.put req)
  uncopied : ∀ dstKey retention, p.Fails w (.copyWithinProvider ⟨key, ""⟩ dstKey retention)

def Provider.OneExistence (key : String) : Prop := p.Present w key ∨ p.Absent w key

/-- The last version that is listed for the key is a delete marker. -/
def Provider.Deleted (key : String) : Prop := ∃ versions sc,
  p.versions w.tree key = .ok versions ∧ latestVersion versions = some sc ∧
    sc.isDeleteMarker = true

end Verdicts

section Dates

/-- Nothing fails, and the clock reads dates that have a text. -/
def dating : Setting := ⟨fun _ next => dated next, False⟩

theorem quiet_dating : ¬ dating.fails := fun fails => fails

theorem dating_total : ∀ w q, ∃ reply w', serves dating w q reply w' :=
  serves_total fun _ => ⟨0, (by decide : dated 0)⟩

theorem calm_of_dating {q : Request} {reply : q.Reply} (served : serves dating w q reply w') :
    serves calm w q reply w' := by
  cases q with
  | os c => exact served
  | now => exact ⟨trivial, served.2⟩
  | newVersionID => exact served

theorem can_of_ends {op : Operation}
    (ends : Ends dating (p.body op).run (fun answer _ => ∃ value, answer = .ok value) w) :
    p.Can w op := by
  obtain ⟨answer, w', run⟩ := exists_runs dating_total (p.body op).run w
  obtain ⟨value, rfl⟩ := ends.runs run
  exact ⟨value, w', run.mono calm_of_dating⟩

theorem not_undated {b' : Bucket} (dates : dated retainUntil) :
    ¬ b.Undated dating.later b' retainUntil :=
  fun ⟨now, wrong⟩ => wrong ⟨dates, now⟩

end Dates

section Listings

theorem newest_of_latest {versions : List Sidecar} (latest : latestVersion versions = some sc)
    (whole : sc.isDeleteMarker = false) : latestNonDeleteMarker versions = some sc := by
  obtain ⟨front, rfl⟩ := List.getLast?_eq_some_iff.mp latest
  rw [latestNonDeleteMarker, List.reverse_append, List.reverse_singleton, List.singleton_append,
    List.find?_cons_of_pos (by simp [whole])]

/-- What is listed is in the stack. -/
theorem exists_version {versions : List Sidecar}
    (perm : versions.Perm ((b.stack key).map (Version.sidecar key))) (member : sc ∈ versions) :
    ∃ v ∈ b.stack key, sc = v.sidecar key := by
  obtain ⟨v, inside, rfl⟩ := List.mem_map.mp (perm.mem_iff.mp member)
  exact ⟨v, inside, rfl⟩

theorem Version.body_of_whole {v : Version} (whole : (v.sidecar key).isDeleteMarker = false) :
    ∃ data, v.body = some data := by
  refine Option.isSome_iff_exists.mp ?_
  simpa [Version.sidecar] using whole

end Listings

section Runs

/-- A version is copied only if it is in the stack. -/
theorem ends_anySource (quiet : ¬ s.fails) (rep : p.Represents w b) {src : VersionedObjectRef}
    (plain : Plain src.key) (noSlash : '/' ∉ src.versionID.toList)
    {post : Except GoError Sidecar → World → Prop}
    (found : ∀ v ∈ b.stack src.key, post (.ok (v.sidecar src.key)) w)
    (absent : ∀ err, post (.error err) w) : Ends s (p.source src).run post w := by
  by_cases given : src.versionID = ""
  · obtain ⟨versions, listed, perm, _⟩ := rep.listing plain
    refine ends_newest quiet src given listed (fun sc newest => ?_) fun err _ _ => absent err
    have member : sc ∈ versions := List.mem_reverse.mp (List.mem_of_find?_eq_some newest)
    obtain ⟨v, inside, rfl⟩ := exists_version perm member
    exact found v inside
  · unfold Provider.source
    rw [if_pos given]
    exact ends_readVersion quiet rep plain noSlash
      (fun v here => found v (Provider.Represents.version_mem here).1) fun err _ _ => absent err

theorem represents_copy (rep : p.Represents w b) {src : VersionedObjectRef} {dstKey : String}
    {retention : RetentionSpec} (flat : '/' ∉ src.key.toList) (noSlash : '/' ∉ src.versionID.toList)
    (flat' : '/' ∉ dstKey.toList) :
    Ends calm (p.copyWithinProvider src dstKey retention).run
      (fun _ w' => ∃ b', p.Represents w' b') w := by
  refine Acts.step (acts_check (fun valid => ?_) fun err wrong => ⟨b, rep⟩)
  refine Acts.step (acts_check (fun valid' => ?_) fun err wrong => ⟨b, rep⟩)
  have plain := plain_of_valid valid flat
  refine Acts.step (ends_anySource quiet_calm rep plain noSlash (fun v member => ?_)
    fun err => ⟨b, rep⟩)
  exact ends_copyBody quiet_calm rep src plain (plain_of_valid valid' flat') member
    (fun _ _ _ _ _ rep' => ⟨_, rep'⟩) (fun _ _ => ⟨b, rep⟩) fun _ _ _ _ rep' _ => ⟨_, rep'⟩

theorem represents_reading (rep : p.Represents w b) (tidy : p.Tidy w.tree) (op : Operation)
    (reads : ∀ c, ¬ p.Writes w op c) :
    Ends calm (p.body op).run (fun _ w' => ∃ b', p.Represents w' b') w :=
  (ends_keeping quiet_calm (fun _ _ => trivial) rep tidy op reads).imp
    fun _ _ ⟨b', _, rep'⟩ => ⟨b', rep'⟩

theorem represents_mirrors {op : Operation}
    (ends : Ends calm (p.body op).run (p.Mirrors calm b op) w) :
    Ends calm (p.body op).run (fun _ w' => ∃ b', p.Represents w' b') w :=
  ends.imp fun _ _ ⟨b', _, rep'⟩ => ⟨b', rep'⟩

/-- The files are those of a bucket after every operation, whatever the clock reads. -/
theorem body_represents (rep : p.Represents w b) (tidy : p.Tidy w.tree) {op : Operation}
    (flat : op.Flat) : Ends calm (p.body op).run (fun _ w' => ∃ b', p.Represents w' b') w := by
  cases op with
  | put req => exact represents_mirrors (mirrors_put quiet_calm rep flat)
  | delete ref => exact represents_mirrors (mirrors_delete quiet_calm rep flat)
  | purgeAllVersions ref =>
    exact represents_mirrors (mirrors_purgeAllVersions quiet_calm rep flat)
  | createMultipart req => exact represents_mirrors (mirrors_createMultipart quiet_calm rep flat)
  | uploadPart upload n body =>
    exact represents_mirrors (mirrors_uploadPart quiet_calm rep flat.1 flat.2)
  | completeMultipart req =>
    exact represents_mirrors (mirrors_completeMultipart quiet_calm rep flat.1 flat.2)
  | abortMultipart upload =>
    exact represents_mirrors (mirrors_abortMultipart quiet_calm rep flat.1 flat.2)
  | copyWithinProvider src dstKey retention => exact represents_copy rep flat.1 flat.2.1 flat.2.2
  | updateRetention ref change =>
    exact represents_mirrors (mirrors_updateRetention quiet_calm rep flat.1 flat.2)
  | setLegalHold ref enabled =>
    exact represents_mirrors (mirrors_setLegalHold quiet_calm rep flat.1 flat.2)
  | deleteVersion ref =>
    exact represents_mirrors (mirrors_deleteVersion quiet_calm rep flat.1 flat.2)
  | deleteBatch refs => exact represents_mirrors (mirrors_deleteBatch quiet_calm rep refs flat)
  | head | get | signUploadPart | getRetention | listObjects | listObjectVersions
  | listMultipartUploads | listParts =>
    exact represents_reading rep tidy _ fun c writes => by cases writes <;> contradiction

theorem Provider.History.represents (fresh : p.Fresh w) (history : p.History calm w past w')
    (flat : ∀ t ∈ past, t.event.op.Flat) : ∃ b, p.Represents w' b := by
  induction history with
  | start => exact ⟨_, fresh.represents⟩
  | step before step ih =>
    obtain ⟨b, rep⟩ := ih fun t member => flat t (List.mem_append_left _ member)
    have last := flat _ (List.mem_append_right _ (List.mem_singleton_self _))
    exact (body_represents rep (before.tidy fresh.tidy) last).runs step

end Runs

section Probes

/-- Once a version is chosen its body is returned. -/
theorem ends_getBody (quiet : ¬ s.fails) (rep : p.Represents w b) {ref : VersionedObjectRef}
    (valid : validateKey ref.key = none) (plain : Plain ref.key) (member : v ∈ b.stack ref.key)
    (body : v.body = some data)
    (chosen : ∀ {post : Except GoError Sidecar → World → Prop}, post (.ok (v.sidecar ref.key)) w →
      Ends s (p.chosen ref).run post w) :
    Ends s (p.get ref none).run (fun answer _ =>
      answer = .ok (⟨data, none⟩, sidecarToMeta (v.sidecar ref.key))) w := by
  refine Acts.step (acts_check (fun _ => ?_) fun err wrong => ?_)
  · refine Acts.step (chosen (Acts.step (ends_openFile quiet ?_)))
    change Continues _ _ _ _ (.ok (w.tree.nodeAt (p.versionBodyPath ref.key v.versionID))) _
    rw [rep.body plain member, body]
    exact rfl
  · exact absurd (valid.symm.trans wrong) (by simp)

/-- The newest version with a body is copied, unless a date has no text. -/
theorem ends_copyNewest (quiet : ¬ s.fails) (rep : p.Represents w b)
    (valid : validateKey key = none) (plain : Plain key) {dstKey : String}
    {retention : RetentionSpec} (valid' : validateKey dstKey = none) (plain' : Plain dstKey)
    (listed : p.versions w.tree key = .ok versions)
    (newest : latestNonDeleteMarker versions = some (v.sidecar key))
    (member : v ∈ b.stack key) (body : v.body = some data)
    {post : Except GoError PutResult → World → Prop}
    (stored : ∀ copy w', copy.body = some data → p.Represents w' (b.push dstKey copy) →
      post (.ok (putResult (copy.sidecar dstKey))) w')
    (undated : ∀ err b' w',
      b.Undated s.later b' (effectiveRetention retention).retainUntil → post (.error err) w') :
    Ends s (p.copyWithinProvider ⟨key, ""⟩ dstKey retention).run post w := by
  refine Acts.step (acts_check (fun _ => ?_)
    fun err wrong => absurd (valid.symm.trans wrong) (by simp))
  refine Acts.step (acts_check (fun _ => ?_)
    fun err wrong => absurd (valid'.symm.trans wrong) (by simp))
  refine Acts.step (ends_newest quiet ⟨key, ""⟩ rfl listed (fun sc same => ?_) fun err none _ => ?_)
  · rw [newest] at same
    cases same
    refine ends_copyBody quiet rep ⟨key, ""⟩ plain plain' member
      (fun data' copy w' body' pushes rep' => stored copy w' ?_ rep')
      (fun err none => absurd (body.symm.trans none) (by simp))
      fun err b' w' _ _ wrong => undated err b' w' wrong
    rw [pushes.2.2.1, ← body', body]
  · rw [newest] at none
    contradiction

/-- With a version of any kind the condition of a `Put` is not met. -/
theorem put_refused (rep : p.Represents w b) (valid : validateKey key = none)
    (flat : '/' ∉ key.toList) (stocked : b.stack key ≠ []) {req : PutRequest} (same : req.key = key)
    {answer : Except GoError PutResult} (conditional : req.ifNoneMatch = true)
    (step : p.Step calm w ⟨.put req, answer⟩ w') :
    ∃ err, answer = .error err ∧ err.is errPreconditionFailed = true := by
  subst same
  have plain := plain_of_valid valid flat
  have ends : Ends calm (p.put req).run (fun answer _ =>
      ∃ err, answer = .error err ∧ err.is errPreconditionFailed = true) w := by
    refine Acts.step (acts_check (fun _ => ?_)
      fun err wrong => absurd (valid.symm.trans wrong) (by simp))
    refine Acts.step ?_
    unfold Provider.refuseExisting
    rw [if_pos conditional]
    refine Acts.step (ends_anyVersion quiet_calm rep plain ?_)
    simp only [Continues, ne_eq, stocked, not_false_eq_true, decide_true, if_true]
    exact ⟨_, rfl, rfl⟩
  exact ends.runs step

theorem put_accepted (rep : p.Represents w b) (valid : validateKey key = none)
    (flat : '/' ∉ key.toList) (empty : b.stack key = []) {req : PutRequest} (same : req.key = key)
    (acceptable : Acceptable req) : p.Can w (.put req) := by
  subst same
  refine can_of_ends ((mirrors_put quiet_dating rep flat).imp fun answer w' mirrors => ?_)
  obtain ⟨b', does, _⟩ := mirrors
  cases answer with
  | ok result => exact ⟨result, rfl⟩
  | error err =>
    obtain ⟨_, wrong | ⟨_, stocked, _⟩ | unreadable | ⟨mismatch, _⟩ | undated⟩ := does
    · exact absurd (valid.symm.trans wrong) (by simp)
    · exact absurd empty stocked
    · exact absurd acceptable.readable unreadable
    · exact absurd mismatch (mismatch_none acceptable.announced)
    · exact absurd undated (not_undated acceptable.dates)

theorem current_fails (listed : p.versions w.tree key = .ok versions)
    (gone : ∀ sc, latestVersion versions = some sc → sc.isDeleteMarker = true) :
    p.Fails w (.head ⟨key⟩) ∧ p.Fails w (.get ⟨key, ""⟩ none) := by
  have current : ∀ {post : Except GoError Sidecar → World → Prop}, (∀ err, post (.error err) w) →
      Ends calm (p.current key).run post w := fun failed =>
    ends_current quiet_calm listed
      (fun sc latest whole => absurd ((gone sc latest).symm.trans whole) (by simp))
      fun _ => failed _
  constructor
  · intro answer w' step
    have ends : Ends calm (p.head ⟨key⟩).run (fun answer _ => ∃ err, answer = .error err) w :=
      Acts.step (acts_check (fun _ => Acts.step (current fun err => ⟨err, rfl⟩))
        fun err _ => ⟨err, rfl⟩)
    exact ends.runs step
  · intro answer w' step
    have ends : Ends calm (p.get ⟨key, ""⟩ none).run
        (fun answer _ => ∃ err, answer = .error err) w :=
      Acts.step (acts_check (fun _ => Acts.step (current fun err => ⟨err, rfl⟩))
        fun err _ => ⟨err, rfl⟩)
    exact ends.runs step

end Probes

section Agreement

/-- Without versions no operation finds the object. -/
theorem absent_of_empty (rep : p.Represents w b) (tidy : p.Tidy w.tree)
    (valid : validateKey key = none) (flat : '/' ∉ key.toList) (empty : b.stack key = []) :
    p.Absent w key := by
  have plain := plain_of_valid valid flat
  have listed : p.versions w.tree key = .ok [] := by
    obtain ⟨versions, listed, perm, _⟩ := rep.listing plain
    rw [empty, List.map_nil] at perm
    rw [listed, perm.eq_nil]
  obtain ⟨head, get⟩ := current_fails listed fun sc impossible => by contradiction
  refine ⟨head, get, fun maxKeys seen walks => ?_, fun req same _ acceptable =>
    put_accepted rep valid flat empty same acceptable, fun dstKey retention answer w' step => ?_⟩
  · rw [walks.found rep tidy, key_listed rep tidy plain listed]
    exact fun some => some rfl
  · have ends : Ends calm (p.copyWithinProvider ⟨key, ""⟩ dstKey retention).run
        (fun answer _ => ∃ err, answer = .error err) w := by
      refine Acts.step (acts_check (fun _ => ?_) fun err _ => ⟨err, rfl⟩)
      refine Acts.step (acts_check (fun _ => ?_) fun err _ => ⟨err, rfl⟩)
      exact Acts.step (ends_newest quiet_calm ⟨key, ""⟩ rfl listed
        (fun sc impossible => by contradiction) fun err _ _ => ⟨err, rfl⟩)
    exact ends.runs step

/-- A body on top is what every operation finds. -/
theorem present_of_latest (rep : p.Represents w b) (tidy : p.Tidy w.tree)
    (valid : validateKey key = none) (flat : '/' ∉ key.toList)
    (listed : p.versions w.tree key = .ok versions) (latest : latestVersion versions = some sc)
    (whole : sc.isDeleteMarker = false) : p.Present w key := by
  have plain := plain_of_valid valid flat
  have newest := newest_of_latest latest whole
  obtain ⟨versions', listed', perm, _⟩ := rep.listing plain
  rw [listed] at listed'
  cases listed'
  obtain ⟨v, member, rfl⟩ := exists_version perm (List.mem_of_getLast? latest)
  obtain ⟨data, body⟩ := v.body_of_whole whole
  have current : ∀ {post : Except GoError Sidecar → World → Prop}, post (.ok (v.sidecar key)) w →
      Ends calm (p.current key).run post w := by
    intro post found
    refine ends_current quiet_calm listed (fun sc same _ => ?_) fun gone => ?_
    · rw [latest] at same
      cases same
      exact found
    · exact absurd ((gone _ latest).symm.trans whole) (by simp)
  have got : Ends calm (p.get ⟨key, ""⟩ none).run (fun answer _ =>
      answer = .ok (⟨data, none⟩, sidecarToMeta (v.sidecar key))) w :=
    ends_getBody quiet_calm rep valid plain member body current
  refine ⟨fun answer w' step => ?_, fun answer w' step => ⟨_, got.runs step⟩, fun maxKeys =>
    ⟨exists_walk rep tidy maxKeys "", fun seen walks => ?_⟩, fun req answer w' same conditional step =>
    put_refused rep valid flat (List.ne_nil_of_mem member) same conditional step,
    fun dstKey retention valid' flat' dates => ?_, ?_⟩
  · have ends : Ends calm (p.head ⟨key⟩).run (fun answer _ => ∃ value, answer = .ok value) w :=
      Acts.step (acts_check (fun _ => Acts.step (current ⟨_, rfl⟩))
        fun err wrong => absurd (valid.symm.trans wrong) (by simp))
    exact ends.runs step
  · rw [walks.found rep tidy, key_listed rep tidy plain listed, newest]
    simp
  · refine can_of_ends (ends_copyNewest quiet_dating rep valid plain valid'
      (plain_of_valid valid' flat') listed newest member body (fun _ _ _ _ => ⟨_, rfl⟩)
      fun err b' w' undated => absurd undated (not_undated dates))
  · intro dstKey retention result w₁ read info w₂ answer w₃ valid' flat' copies reads again
    have plain' := plain_of_valid valid' flat'
    have copied : Ends calm (p.copyWithinProvider ⟨key, ""⟩ dstKey retention).run
        (fun answer w₁ => ∀ result, answer = .ok result → ∃ copy, copy.body = some data ∧
          result = putResult (copy.sidecar dstKey) ∧ p.Represents w₁ (b.push dstKey copy)) w :=
      ends_copyNewest quiet_calm rep valid plain valid' plain' listed newest member body
        (fun copy w₁ body' rep' result same => ⟨copy, body', by cases same; rfl, rep'⟩)
        fun err b' w' _ result same => by cases same
    obtain ⟨copy, body', rfl, rep'⟩ := copied.runs copies result rfl
    have top : copy ∈ (b.push dstKey copy).stack dstKey := by
      simp [Bucket.push, Bucket.restack]
    have isID := (rep'.distinct dstKey).isID copy top
    have found : (b.push dstKey copy).version ⟨dstKey, copy.versionID⟩ = some copy := by
      simp [Bucket.version, Bucket.push, Bucket.restack]
    have got' : Ends calm (p.get ⟨dstKey, copy.versionID⟩ none).run (fun answer _ =>
        answer = .ok (⟨data, none⟩, sidecarToMeta (copy.sidecar dstKey))) w₁ := by
      refine ends_getBody quiet_calm rep' valid' plain' top body' fun holds => ?_
      unfold Provider.chosen
      rw [if_pos isID.ne_empty]
      refine ends_readVersion quiet_calm rep' plain' isID.noSlash (fun u same => ?_)
        fun err absent _ => ?_
      · rw [found] at same
        cases same
        exact holds
      · rw [found] at absent
        contradiction
    cases got.runs reads
    exact ⟨_, got'.runs again⟩

/-- A delete marker hides the object from some operations only. -/
theorem deleted_disagrees (rep : p.Represents w b) (valid : validateKey key = none)
    (flat : '/' ∉ key.toList) (deleted : p.Deleted w key) : ¬ p.OneExistence w key := by
  have plain := plain_of_valid valid flat
  obtain ⟨versions, sc, listed, latest, marker⟩ := deleted
  obtain ⟨versions', listed', perm, _⟩ := rep.listing plain
  rw [listed] at listed'
  cases listed'
  obtain ⟨v, member, _⟩ := exists_version perm (List.mem_of_getLast? latest)
  rintro (present | absent)
  · have fails := (current_fails listed fun other same => by
      rw [latest] at same
      cases same
      exact marker).1
    obtain ⟨answer, w', step⟩ := exists_runs calm_total (p.body (.head ⟨key⟩)).run w
    obtain ⟨value, ok⟩ := present.head answer w' step
    obtain ⟨err, error⟩ := fails answer w' step
    rw [ok] at error
    contradiction
  · -- An empty body is acceptable, and the marker counts as a version of the key.
    let req : PutRequest := { key := key, body := ⟨[], none⟩, ifNoneMatch := true }
    obtain ⟨result, w', step⟩ := absent.accepted req rfl rfl ⟨rfl, rfl, (by decide : dated 0)⟩
    obtain ⟨err, same, _⟩ := put_refused rep valid flat (List.ne_nil_of_mem member) rfl rfl step
    contradiction

end Agreement

/-- The operations agree on every key but those with a delete marker on top. -/
theorem existence_agrees_iff (fresh : p.Fresh w) (history : p.History calm w past w')
    (flat : ∀ t ∈ past, t.event.op.Flat) (valid : validateKey key = none)
    (noSlash : '/' ∉ key.toList) : p.OneExistence w' key ↔ ¬ p.Deleted w' key := by
  obtain ⟨b, rep⟩ := history.represents fresh flat
  have tidy := history.tidy fresh.tidy
  refine ⟨fun one deleted => deleted_disagrees rep valid noSlash deleted one, fun kept => ?_⟩
  obtain ⟨versions, listed, perm, _⟩ := rep.listing (plain_of_valid valid noSlash)
  cases latest : latestVersion versions with
  | none =>
    rw [latestVersion, List.getLast?_eq_none_iff] at latest
    rw [latest] at perm
    exact .inr (absent_of_empty rep tidy valid noSlash (List.map_eq_nil_iff.mp perm.symm.eq_nil))
  | some sc =>
    cases marker : sc.isDeleteMarker with
    | false => exact .inl (present_of_latest rep tidy valid noSlash listed latest marker)
    | true => exact absurd ⟨versions, sc, listed, latest, marker⟩ kept

section Example

/-- Whether the last version that is listed for the key is a delete marker. -/
def Provider.marked (p : Provider) (t : Filesystem.Tree Content) (key : String) : Bool :=
  match p.versions t key with
  | .ok versions => (latestVersion versions).any Sidecar.isDeleteMarker
  | .error _ => false

theorem marked_iff : p.marked w.tree key = true ↔ p.Deleted w key := by
  unfold Provider.marked Provider.Deleted
  cases p.versions w.tree key with
  | error err => simp
  | ok versions => simp [Option.any_eq_true]

/-- An object is written and deleted. -/
def deletingRun : List Operation :=
  [.put { key := "a", body := ⟨[7], none⟩ }, .delete ⟨"a"⟩]

/-- The object of another key is written, and this one comes back with its marker removed. -/
def restoringRun : List Operation :=
  deletingRun ++ [.put { key := "b", body := ⟨[8], none⟩ },
    .deleteVersion ⟨"a", "0000000000000000-00000001"⟩]

/-- A plain run, with what is listed last for the key in the end. -/
theorem exists_marked (ops : List Operation) (marker : Bool) (flat : ∀ op ∈ ops, op.Flat)
    (plays : sample.plays ops sampleWorld
      (fun _ w' => decide (sample.marked w'.tree "a" = marker)) = true) :
    ∃ past w', sample.History calm sampleWorld past w' ∧
      past.map (fun t => t.event.op) = ops ∧ (∀ t ∈ past, t.event.op.Flat) ∧
      (sample.Deleted w' "a" ↔ marker = true) := by
  obtain ⟨past, w', history, same, marked⟩ := exists_history calm_ticks ops plays
  exact ⟨past, w', history, same, fun t member => flat _ (mem_of_played same t member),
    by rw [← marked_iff, marked]⟩

/-- `Head` does not find the deleted object, and a conditional `Put` does. -/
theorem deleted_still_exists : ∃ past w', sample.History calm sampleWorld past w' ∧
      past.map (fun t => t.event.op) = deletingRun ∧ validateKey "a" = none ∧
      '/' ∉ "a".toList ∧ ¬ sample.OneExistence w' "a" := by
  have valid : validateKey "a" = none := by decide
  have noSlash : '/' ∉ "a".toList := by decide
  obtain ⟨past, w', history, same, flat, deleted⟩ := exists_marked deletingRun true
    (by decide) (by decide +kernel)
  obtain ⟨b, rep⟩ := history.represents world_root_fresh flat
  exact ⟨past, w', history, same, valid, noSlash,
    deleted_disagrees rep valid noSlash (deleted.mpr rfl)⟩

theorem existence_agrees_restored : ∃ past w', sample.History calm sampleWorld past w' ∧
      past.map (fun t => t.event.op) = restoringRun ∧
      sample.OneExistence w' "a" := by
  obtain ⟨past, w', history, same, flat, deleted⟩ := exists_marked restoringRun false
    (by decide) (by decide +kernel)
  refine ⟨past, w', history, same, ?_⟩
  rw [existence_agrees_iff world_root_fresh history flat (by decide) (by decide), deleted]
  decide

/-- Whether a version of the key with a body is listed. -/
def Provider.shows (p : Provider) (t : Filesystem.Tree Content) (key : String) : Bool :=
  match p.versions t key with
  | .ok versions => latestNonDeleteMarker versions ≠ none
  | .error _ => false

end Example
end KDrive.LocalFsDev
