import KDrive.LocalFsDev.Footprint

/-! Every operation keeps to its footprint, on any tidy files, whichever calls fail. -/
namespace KDrive.LocalFsDev
open Go Blobstore Filesystem Interaction
variable {p : Provider} {s : Setting} {w₀ w : World} {op : Operation}

/-- Any end will do. -/
abbrev Anyhow {α : Type} (_ : Except GoError α) (_ : World) : Prop := True

/-- Until it ends, the operation asks for what it may. -/
abbrev Provider.Conducts {α : Type} (p : Provider) (s : Setting) (w₀ : World) (op : Operation)
    (x : Action α) (w : World) : Prop :=
  Acts (serves s) (p.May w₀ op) x.run Anyhow w

theorem versionsDir_eq (valid : validateKey key = none) :
    p.versionsDir key = p.root ++ components key :=
  join_proper (validateKey_none.mp valid).2.2.2.1 p.root

theorem Provider.Tidy.entry (tidy : p.Tidy w.tree) (valid : validateKey key = none)
    (found : w.tree.look (p.versionsDir key ++ [name]) ≠ none) : IsName name := by
  rw [versionsDir_eq valid, List.append_assoc] at found
  exact tidy.names found name (by simp)

section Reading

theorem acts_readJSON {parse : Content → Except GoError α} {path : Path}
    {post : Except GoError (Except GoError α) → World → Prop}
    (may : p.Reads w₀ op (.readFile path))
    (ok : ∀ content value, w.tree.look path = some (.file content) → parse content = .ok value →
      post (.ok (.ok value)) w)
    (failed : ∀ err, post (.ok (.error err)) w) :
    Acts (serves s) (p.May w₀ op) (readJSON path parse).run post w := by
  refine Acts.step (acts_os (.inl may) fun reply w' served => ?_)
  obtain ⟨rfl, told⟩ := Serves.readFile served
  match reply, told with
  | .error err, _ => exact failed _
  | .ok content, told =>
    change post (.ok (parse content)) _
    cases parsed : parse content with
    | ok value => exact ok content value (told content rfl) parsed
    | error err => exact failed err

theorem acts_hasAnyVersion {post : Except GoError Bool → World → Prop} (key : String)
    (listed : key ∈ op.keys) (valid : validateKey key = none) (next : ∀ any, post (.ok any) w) :
    Acts (serves s) (p.May w₀ op) (p.hasAnyVersionLocked key).run post w := by
  refine Acts.step (acts_os (.inl (.versions listed valid)) fun reply w' served => ?_)
  obtain ⟨rfl, _⟩ := Serves.readDir served
  match reply with
  | .error err => exact next false
  | .ok entries => exact next _

/-- Where the sidecars of a directory may be read, and they are what is passed on. -/
theorem acts_loadSidecars {dir : Path} {post : Except GoError (List Sidecar) → World → Prop}
    (entries : List (String × Bool)) (named : ∀ entry ∈ entries, IsName entry.1)
    (may : ∀ name, IsName name → p.Reads w₀ op (.readFile (dir ++ [name])))
    (next : ∀ versions, (∀ sc ∈ versions, ∃ name content, IsName name ∧
        w.tree.look (dir ++ [name]) = some (.file content) ∧ content.asSidecar = .ok sc) →
      post (.ok versions) w) :
    Acts (serves s) (p.May w₀ op) (Provider.loadSidecars dir entries).run post w := by
  induction entries generalizing post with
  | nil => exact next [] (by simp)
  | cons entry rest ih =>
    obtain ⟨name, isDir⟩ := entry
    have isName := named (name, isDir) List.mem_cons_self
    have others := fun entry member => named entry (List.mem_cons_of_mem _ member)
    rw [Provider.loadSidecars]
    split
    · rw [join_name isName]
      refine Acts.step (acts_readJSON (may name isName) ?_ fun err => ih others next)
      intro content sc found parsed
      refine Acts.step (ih others fun versions origin => ?_)
      refine next (sc :: versions) ?_
      intro other member
      rcases List.mem_cons.mp member with rfl | later
      · exact ⟨name, content, isName, found, parsed⟩
      · exact origin other later
    · exact ih others next

theorem acts_listVersions {post : Except GoError (List Sidecar) → World → Prop} (key : String)
    (directory : p.Reads w₀ op (.readDir (p.versionsDir key)))
    (sidecars : ∀ name, IsName name → p.Reads w₀ op (.readFile (p.versionsDir key ++ [name])))
    (named : ∀ name, w.tree.look (p.versionsDir key ++ [name]) ≠ none → IsName name)
    (ok : ∀ versions, (∀ sc ∈ versions, ∃ name content, IsName name ∧
        w.tree.look (p.versionsDir key ++ [name]) = some (.file content) ∧
        content.asSidecar = .ok sc) → post (.ok versions) w)
    (failed : ∀ err, post (.error err) w) :
    Acts (serves s) (p.May w₀ op) (p.listVersionsLocked key).run post w := by
  refine Acts.step (acts_os (.inl directory) fun reply w' served => ?_)
  obtain ⟨rfl, there⟩ := Serves.readDir served
  match reply, there with
  | .error .notExist, _ => exact ok [] (by simp)
  | .error .notDir, _ => exact failed _
  | .error .isDir, _ => exact failed _
  | .error .notEmpty, _ => exact failed _
  | .error (.failed reason), _ => exact failed _
  | .ok entries, there =>
    refine Acts.step (acts_loadSidecars entries
      (fun entry member => named entry.1 (there entries rfl entry member)) sidecars
      fun versions origin => ?_)
    refine ok _ fun sc member => origin sc ?_
    exact (p.sorts versions).1.mem_iff.mp member

variable {post : Except GoError Sidecar → World → Prop}

theorem acts_readSidecar (ref : VersionedObjectRef)
    (asked : ref ∈ op.refs) (valid : validateKey ref.key = none)
    (ok : ∀ content sc,
      w.tree.look (p.versionMetaPath ref.key ref.versionID) = some (.file content) →
      content.asSidecar = .ok sc → post (.ok sc) w)
    (failed : ∀ err, post (.error err) w) :
    Acts (serves s) (p.May w₀ op) (p.readSidecar ref.key ref.versionID).run post w := by
  refine Acts.step (acts_readJSON (.sidecar asked valid) ok fun err => ?_)
  change Acts _ _ (ExceptT.run (ite _ _ _)) post w
  split
  · exact failed _
  · exact failed _

theorem acts_current (key : String)
    (tidy : p.Tidy w.tree) (listed : key ∈ op.keys) (valid : validateKey key = none)
    (ok : ∀ sc name content, IsName name →
      w.tree.look (p.versionsDir key ++ [name]) = some (.file content) →
      content.asSidecar = .ok sc → post (.ok sc) w)
    (failed : ∀ err, post (.error err) w) :
    Acts (serves s) (p.May w₀ op) (p.current key).run post w := by
  refine Acts.step (acts_listVersions key (.versions listed valid)
    (fun name isName => .listed listed valid isName) (fun name => tidy.entry valid) ?_ failed)
  intro versions origin
  simp only [Continues]
  cases found : latestVersion versions with
  | none => exact failed _
  | some sc =>
    simp only
    split
    · exact failed _
    · obtain ⟨name, content, isName, there, parsed⟩ := origin sc (List.mem_of_getLast? found)
      exact ok sc name content isName there parsed

end Reading

section Writing

theorem acts_then {x : Action α} {f : α → Action β} (first : p.Conducts s w₀ op x w)
    (next : ∀ value w', p.Conducts s w₀ op (f value) w') : p.Conducts s w₀ op (x >>= f) w := by
  refine Acts.step (first.imp fun result w' _ => ?_)
  cases result with
  | ok value => exact next value w'
  | error err => trivial

theorem acts_request {c : Call Content} (may : p.May w₀ op w (.os c)) :
    p.Conducts s w₀ op (os c) w :=
  acts_os may fun _ _ _ => trivial

/-- A call whose outcome does not matter. -/
theorem acts_call {c : Call Content} {wrapped : GoError → GoError} (may : p.May w₀ op w (.os c)) :
    p.Conducts s w₀ op (attempt c wrapped) w :=
  acts_attempt may (fun _ _ _ => trivial) fun _ _ _ => trivial

theorem acts_time : p.Conducts s w₀ op clock w :=
  acts_clock trivial fun _ _ => trivial

theorem acts_guarded {f : Unit → Action α} (next : err = none → p.Conducts s w₀ op (f ()) w) :
    p.Conducts s w₀ op (check err >>= f) w :=
  Acts.step (acts_check next fun _ _ => trivial)

theorem acts_checked {err : Option GoError} : p.Conducts s w₀ op (check err) w :=
  acts_check (fun _ => trivial) fun _ _ => trivial

theorem acts_removing {body : Action α} {tmp : Path} (acts : p.Conducts s w₀ op body w)
    (may : p.Writes w₀ op (.remove tmp)) :
    p.Conducts s w₀ op (removing tmp body) w := by
  refine Acts.bind (acts.imp fun result w' _ => ?_)
  exact Acts.bind (acts_os (.inr may) fun reply w' _ => trivial)

theorem acts_copyTo {r : Reader} {path : Path} {wrapped : GoError → GoError}
    (may : p.Writes w₀ op (.write path (.bytes r.data))) :
    p.Conducts s w₀ op (copyTo path r wrapped) w :=
  Acts.step (acts_attempt (.inr may)
    (fun _ _ _ => acts_check (fun _ => trivial) fun _ _ => trivial) fun _ _ _ => trivial)

theorem acts_writeJSON {path : Path} {marshalled : Except GoError Content}
    (write : ∀ body, marshalled = .ok body → p.Writes w₀ op (.writeFile (tmpOf path) body))
    (publish : p.Writes w₀ op (.rename (tmpOf path) path))
    (drop : p.Writes w₀ op (.remove (tmpOf path))) :
    p.Conducts s w₀ op (writeJSON path marshalled) w := by
  cases marshalled with
  | error err => trivial
  | ok body =>
    refine acts_then (acts_call (.inr (write body rfl))) fun _ w' => ?_
    refine acts_then (acts_request (.inr publish)) fun reply w' => ?_
    cases reply with
    | ok _ => trivial
    | error err => exact acts_then (acts_request (.inr drop)) fun _ _ => trivial

theorem Sidecar.marshal_ok {sc : Sidecar} (ok : sc.marshal = .ok body) :
    body = .sidecar sc ∧ dated sc.retention.retainUntil ∧ dated sc.writeTime := by
  unfold Sidecar.marshal at ok
  split at ok
  · rename_i dates
    cases ok
    exact ⟨rfl, dates⟩
  · contradiction

theorem MultipartMeta.marshal_ok {mp : MultipartMeta} (ok : mp.marshal = .ok body) :
    body = .upload mp ∧ dated mp.retention.retainUntil := by
  unfold MultipartMeta.marshal at ok
  split at ok
  · rename_i dates
    cases ok
    exact ⟨rfl, dates.1⟩
  · contradiction

/-- The sidecar of a new version. -/
theorem acts_newSidecar (sc : Sidecar) (home : sc.key ∈ op.homes)
    (valid : validateKey sc.key = none) (unissued : w₀.Unissued sc.versionID) :
    p.Conducts s w₀ op (writeJSON (p.versionMetaPath sc.key sc.versionID) sc.marshal) w := by
  refine acts_writeJSON (fun body ok => ?_) (.publish home valid unissued)
    (.dropSidecar home valid unissued)
  obtain ⟨rfl, retainUntil, writeTime⟩ := Sidecar.marshal_ok ok
  exact .newSidecar home unissued ⟨valid, .inr unissued.1, retainUntil, writeTime⟩

theorem acts_publish {key new contentType : String} {data : Bytes} {retention : RetentionSpec}
    {finalize : GoError → GoError} {random : Nat} (home : key ∈ op.homes)
    (valid : validateKey key = none) (unissued : w₀.Unissued new) :
    p.Conducts s w₀ op (p.publish (p.tempPath key random)
      (Provider.newSidecar key new data contentType retention) finalize) w := by
  generalize made : Provider.newSidecar key new data contentType retention = sc
  obtain ⟨rfl, rfl⟩ : sc.key = key ∧ sc.versionID = new := by
    rw [← made]
    exact ⟨rfl, rfl⟩
  refine acts_then (acts_call (.inr (.body home valid unissued))) fun _ w' => ?_
  refine acts_then acts_time fun now w' => ?_
  refine acts_then (Acts.tryCatch ?_) fun _ _ => trivial
  refine (acts_newSidecar { sc with writeTime := now } home valid unissued).imp ?_
  intro result w' _
  cases result with
  | ok _ => trivial
  | error err =>
    exact acts_then (acts_request (.inr (.dropBody home valid unissued)))
      fun _ _ => trivial

/-- What fills the temporary file of a new version. -/
theorem acts_newVersion {key : String} {mkdirFails tempFails : GoError → GoError}
    {fill : String → Path → Action α} (home : key ∈ op.homes) (valid : validateKey key = none)
    (same : w.issued = w₀.issued)
    (fills : ∀ new random w', w₀.Unissued new →
      p.Conducts s w₀ op (fill new (p.tempPath key random)) w') :
    p.Conducts s w₀ op (p.newVersion key mkdirFails tempFails fill) w := by
  refine Acts.step (acts_attempt (.inr (.home home valid)) ?_ fun _ _ _ => trivial)
  intro _ w₁ served
  refine Acts.step (acts_newVersionID trivial ?_)
  rintro new ⟨isID, unissued⟩
  rw [Serves.issued served, same] at unissued
  refine Acts.step (acts_attempt (.inr (.temp home valid)) ?_ fun _ _ _ => trivial)
  intro tmp w₂ served
  obtain ⟨random, rfl⟩ := Serves.temp served
  exact acts_removing (fills new random w₂ ⟨isID, unissued⟩) (.dropTemp home valid)

end Writing

section Operations
variable {w : World}

theorem put_acts {req : PutRequest} : p.Conducts s w (.put req) (p.put req) w := by
  refine acts_guarded fun valid => ?_
  have home : req.key ∈ (Operation.put req).homes := List.mem_singleton_self _
  have listed : req.key ∈ (Operation.put req).keys := List.mem_singleton_self _
  have writes : p.Conducts s w (.put req) (p.newVersion req.key
      (.wrap "local_fs_dev: mkdir %q: %w" [.str req.key]) (.wrap "local_fs_dev: create temp: %w" [])
      fun versionID tmp => do
        copyTo tmp req.body (.wrap "local_fs_dev: write %q: %w" [.str req.key])
        attempt (.close tmp) (.wrap "local_fs_dev: close %q: %w" [.str req.key])
        check (Provider.bodyMismatch req)
        p.publish tmp
          (Provider.newSidecar req.key versionID req.body.data req.contentType req.retention)
          (.wrap "local_fs_dev: finalize %q: %w" [.str req.key])) w := by
    refine acts_newVersion home valid rfl fun new random w' unissued => ?_
    refine acts_then (acts_copyTo (.fillTemp home valid)) fun _ w' => ?_
    refine acts_then (acts_call (.inr (.closeTemp home valid))) fun _ w' => ?_
    refine acts_then acts_checked fun _ w' => ?_
    exact acts_publish home valid unissued
  refine Acts.step ?_
  unfold Provider.refuseExisting
  split
  · refine Acts.step (acts_hasAnyVersion req.key listed valid fun any => ?_)
    cases any with
    | true => trivial
    | false => exact writes
  · exact writes

theorem head_acts {ref : ObjectRef} (tidy : p.Tidy w.tree) :
    p.Conducts s w (.head ref) (p.head ref) w := by
  refine acts_guarded fun valid => ?_
  have listed : ref.key ∈ (Operation.head ref).keys := List.mem_singleton_self _
  exact Acts.step (acts_current ref.key tidy listed valid (fun _ _ _ _ _ _ => trivial)
    fun _ => trivial)

/-- The sidecar an operation goes on with was found in the files. -/
def Found (p : Provider) (w : World) (op : Operation) (sc : Sidecar) : Prop :=
  p.Reads w op (.openFile (p.versionBodyPath sc.key sc.versionID))

variable {ref : VersionedObjectRef}

theorem acts_chosen {post : Except GoError Sidecar → World → Prop}
    (tidy : p.Tidy w.tree) (listed : ref.key ∈ op.keys) (asked : ref ∈ op.refs)
    (valid : validateKey ref.key = none) (ok : ∀ sc, Found p w op sc → post (.ok sc) w)
    (failed : ∀ err, post (.error err) w) :
    Acts (serves s) (p.May w op) (p.chosen ref).run post w := by
  unfold Provider.chosen
  split
  · refine acts_readSidecar ref asked valid ?_ failed
    intro content sc found parsed
    exact ok sc (.body asked valid found parsed)
  · refine acts_current ref.key tidy listed valid ?_ failed
    intro sc name content isName found parsed
    exact ok sc (.listedBody listed valid isName found parsed)

theorem get_acts {range : Option (Int × Int)} (tidy : p.Tidy w.tree) :
    p.Conducts s w (.get ref range) (p.get ref range) w := by
  refine acts_guarded fun valid => ?_
  have listed : ref.key ∈ (Operation.get ref range).keys := List.mem_singleton_self _
  have asked : ref ∈ (Operation.get ref range).refs := List.mem_singleton_self _
  refine Acts.step (acts_chosen tidy listed asked valid (fun sc found => ?_) fun _ => trivial)
  refine acts_then (acts_request (.inl found)) fun reply w' => ?_
  repeat' split
  all_goals trivial

theorem delete_acts {ref : ObjectRef} : p.Conducts s w (.delete ref) (p.delete ref) w := by
  refine acts_guarded fun valid => ?_
  have listed : ref.key ∈ (Operation.delete ref).keys := List.mem_singleton_self _
  have home : ref.key ∈ (Operation.delete ref).homes := List.mem_singleton_self _
  refine Acts.step (acts_hasAnyVersion ref.key listed valid fun any => ?_)
  cases any with
  | false => trivial
  | true =>
    refine Acts.step (acts_newVersionID trivial fun new unissued => ?_)
    refine acts_then acts_time fun now w' => ?_
    exact acts_newSidecar (.mk ref.key new 0 "" "" .enabled {} now true) home valid unissued

theorem purgeAllVersions_acts {ref : ObjectRef} :
    p.Conducts s w (.purgeAllVersions ref) (p.purgeAllVersions ref) w := by
  refine acts_guarded fun valid => ?_
  refine acts_then (acts_request (.inl (.purged rfl valid))) fun reply w' => ?_
  cases reply with
  | error err => cases err <;> trivial
  | ok node => exact acts_call (.inr (.purge rfl valid))

theorem createMultipart_acts {req : MultipartRequest} :
    p.Conducts s w (.createMultipart req) (p.createMultipart req) w := by
  refine acts_guarded fun valid => ?_
  refine Acts.step (acts_newVersionID trivial fun new unissued => ?_)
  refine acts_then (acts_call (.inr (.stage rfl valid unissued))) fun _ w' => ?_
  refine acts_then acts_time fun now w' => ?_
  refine acts_then (Acts.tryCatch ?_) fun _ _ => trivial
  refine (acts_writeJSON (fun body ok => ?_) (.publishUpload rfl valid unissued)
    (.dropUpload rfl valid unissued)).imp ?_
  · obtain ⟨rfl, retainUntil⟩ := MultipartMeta.marshal_ok ok
    exact .newUpload rfl unissued ⟨valid, retainUntil⟩ rfl
  · intro result w' _
    cases result with
    | ok _ => trivial
    | error err =>
      exact acts_then (acts_request (.inr (.unstage rfl valid unissued)))
        fun _ _ => trivial

variable {upload : MultipartUpload}

theorem signUploadPart_acts {n : Int} :
    p.Conducts s w (.signUploadPart upload n) (p.signUploadPart upload n) w := by
  refine acts_then (acts_call (.inl (.signed rfl)))
    fun _ w' => ?_
  exact acts_then acts_time fun now w' => trivial

theorem uploadPart_acts {n : Int} {r : Reader} :
    p.Conducts s w (.uploadPart upload n r) (p.uploadPart upload n r) w := by
  refine acts_guarded fun valid => ?_
  simp only
  split
  · trivial
  · rename_i notBelow
    have positive : 1 ≤ n := by omega
    refine Acts.step (acts_attempt (.inl (.uploaded rfl valid)) ?_ fun _ _ _ => trivial)
    intro node w' served
    obtain ⟨rfl, told⟩ := Serves.stat served
    have there : w'.tree.look (p.multipartDir upload.key upload.uploadID) ≠ none := by
      rw [told node rfl]
      simp
    refine acts_then (acts_call (.inr (.newPart rfl valid positive there))) fun _ w' => ?_
    exact acts_then (acts_copyTo (.fillPart rfl valid positive)) fun _ _ => trivial

theorem acts_copyParts {req : CompleteRequest} {random : Nat}
    (valid : validateKey req.upload.key = none) (parts : List CompletedPart) :
    p.Conducts s w₀ (.completeMultipart req)
      (Provider.copyParts (p.multipartDir req.upload.key req.upload.uploadID)
        (p.tempPath req.upload.key random) parts) w := by
  have home : req.upload.key ∈ (Operation.completeMultipart req).homes := List.mem_singleton_self _
  induction parts generalizing w with
  | nil => trivial
  | cons part rest ih =>
    refine acts_then (acts_call (.inl (.part rfl valid))) fun node w' => ?_
    refine acts_then (acts_copyTo (.fillTemp home valid)) fun _ w' => ?_
    exact acts_then ih fun _ _ => trivial

theorem completeMultipart_acts {req : CompleteRequest} :
    p.Conducts s w (.completeMultipart req) (p.completeMultipart req) w := by
  refine acts_guarded fun valid => ?_
  have home : req.upload.key ∈ (Operation.completeMultipart req).homes := List.mem_singleton_self _
  refine Acts.step (acts_readJSON (.upload rfl valid) (fun content mp found parsed => ?_)
    fun err => trivial)
  refine acts_newVersion home valid rfl fun new random w' unissued => ?_
  refine acts_then (acts_copyParts valid req.parts) fun data w' => ?_
  refine acts_then (acts_call (.inr (.closeTemp home valid))) fun _ w' => ?_
  refine acts_then acts_checked fun _ w' => ?_
  refine acts_then (acts_publish home valid unissued) fun result w' => ?_
  exact acts_then (acts_request (.inr (.complete rfl valid found parsed))) fun _ _ => trivial

theorem abortMultipart_acts :
    p.Conducts s w (.abortMultipart upload) (p.abortMultipart upload) w := by
  refine acts_guarded fun valid => ?_
  exact acts_call (.inr (.abort rfl valid))

theorem acts_source {post : Except GoError Sidecar → World → Prop} {src : VersionedObjectRef}
    (tidy : p.Tidy w.tree) (listed : src.key ∈ op.keys) (asked : src ∈ op.refs)
    (valid : validateKey src.key = none) (ok : ∀ sc, Found p w op sc → post (.ok sc) w)
    (failed : ∀ err, post (.error err) w) :
    Acts (serves s) (p.May w op) (p.source src).run post w := by
  unfold Provider.source
  split
  · refine acts_readSidecar src asked valid ?_ failed
    intro content sc found parsed
    exact ok sc (.body asked valid found parsed)
  · refine Acts.step (acts_listVersions src.key (.versions listed valid)
      (fun name isName => .listed listed valid isName) (fun name => tidy.entry valid) ?_ failed)
    intro versions origin
    simp only [Continues]
    cases found : latestNonDeleteMarker versions with
    | none => exact failed _
    | some sc =>
      have member : sc ∈ versions := List.mem_reverse.mp (List.mem_of_find?_eq_some found)
      obtain ⟨name, content, isName, there, parsed⟩ := origin sc member
      exact ok sc (.listedBody listed valid isName there parsed)

theorem copyWithinProvider_acts {src : VersionedObjectRef} {dstKey : String}
    {retention : RetentionSpec} (tidy : p.Tidy w.tree) :
    p.Conducts s w (.copyWithinProvider src dstKey retention)
      (p.copyWithinProvider src dstKey retention) w := by
  refine acts_guarded fun srcValid => ?_
  refine acts_guarded fun valid => ?_
  have listed : src.key ∈ (Operation.copyWithinProvider src dstKey retention).keys :=
    List.mem_singleton_self _
  have asked : src ∈ (Operation.copyWithinProvider src dstKey retention).refs := by
    simp [Operation.refs, valid]
  have home : dstKey ∈ (Operation.copyWithinProvider src dstKey retention).homes :=
    List.mem_singleton_self _
  refine Acts.step (acts_source tidy listed asked srcValid (fun sc found => ?_) fun _ => trivial)
  refine Acts.step (acts_attempt (.inl found) (fun node w' served => ?_) fun _ _ _ => trivial)
  refine acts_newVersion home valid (Serves.issued served) fun new random w' unissued => ?_
  refine acts_then (acts_copyTo (.fillTemp home valid)) fun _ w' => ?_
  refine acts_then (acts_call (.inr (.closeTemp home valid))) fun _ w' => ?_
  refine acts_then acts_checked fun _ w' => ?_
  exact acts_publish home valid unissued

theorem getRetention_acts : p.Conducts s w (.getRetention ref) (p.getRetention ref) w := by
  refine acts_guarded fun valid => ?_
  exact Acts.step (acts_readSidecar ref (List.mem_singleton_self _) valid (fun _ _ _ _ => trivial)
    fun _ => trivial)

/-- The sidecar of a version is written again with another retention. -/
theorem acts_rewrite {retention : RetentionState}
    (again : ref ∈ op.rewrites) (valid : validateKey ref.key = none)
    (found : w₀.tree.look (p.versionMetaPath ref.key ref.versionID) = some (.file content))
    (parsed : content.asSidecar = .ok sc) :
    p.Conducts s w₀ op (writeJSON (p.versionMetaPath ref.key ref.versionID)
      { sc with retention }.marshal) w := by
  refine acts_writeJSON (fun body ok => ?_) (.republish again valid) (.dropRewrite again valid)
  obtain ⟨rfl, retainUntil, writeTime⟩ := Sidecar.marshal_ok ok
  exact .rewrite again valid found parsed retainUntil writeTime

theorem updateRetention_acts {change : Provider.RetentionChange} :
    p.Conducts s w (.updateRetention ref change) (p.updateRetention ref change) w := by
  refine acts_guarded fun valid => ?_
  refine Acts.step (acts_readSidecar ref (List.mem_singleton_self _) valid ?_ fun _ => trivial)
  intro content sc found parsed
  simp only [Continues]
  split
  · trivial
  · exact acts_then (acts_rewrite (List.mem_singleton_self _) valid found parsed) fun _ _ => trivial

theorem setLegalHold_acts {enabled : Bool} :
    p.Conducts s w (.setLegalHold ref enabled) (p.setLegalHold ref enabled) w := by
  refine acts_guarded fun valid => ?_
  refine Acts.step (acts_readSidecar ref (List.mem_singleton_self _) valid ?_ fun _ => trivial)
  intro content sc found parsed
  exact acts_then (acts_rewrite (List.mem_singleton_self _) valid found parsed) fun _ _ => trivial

theorem acts_listed {start cursor : String} {maxKeys : Int} (tidy : p.Tidy w.tree)
    (entries : List (String × Bool)) (named : ∀ entry ∈ entries, IsName entry.1) :
    Acts (serves s) (p.May w₀ (.listObjects start cursor maxKeys))
      (p.listed start cursor entries).run (fun _ w' => w' = w) w := by
  induction entries with
  | nil => exact rfl
  | cons entry rest ih =>
    obtain ⟨key, isDir⟩ := entry
    have isName := named (key, isDir) List.mem_cons_self
    have others := ih fun entry member => named entry (List.mem_cons_of_mem _ member)
    have dir : p.versionsDir key = p.root ++ [key] := join_name isName p.root
    rw [Provider.listed]
    split
    · exact others
    · have one : ∀ sc, Acts (serves s) (p.May w₀ (.listObjects start cursor maxKeys))
          (return sidecarToMeta sc :: (← p.listed start cursor rest) :
            Action (List ObjectMeta)).run (fun _ w' => w' = w) w := by
        intro sc
        refine Acts.step (others.imp fun result w' same => ?_)
        cases result with
        | ok metas => exact same
        | error err => exact same
      refine Acts.step (Acts.tryCatch (acts_listVersions key ?_ ?_ ?_ ?_ ?_))
      · rw [dir]
        exact .object rfl isName
      · intro name entryName
        rw [dir, List.append_assoc]
        exact .objectVersion rfl isName entryName
      · intro name there
        rw [dir, List.append_assoc] at there
        exact tidy.names there name (by simp)
      · intro versions _
        simp only [Handled, Continues]
        cases latestNonDeleteMarker versions with
        | none => exact others
        | some sc => exact one sc
      · exact fun _ => others

theorem listObjects_acts {start cursor : String} {maxKeys : Int} (tidy : p.Tidy w.tree) :
    p.Conducts s w (.listObjects start cursor maxKeys) (p.listObjects start cursor maxKeys) w := by
  refine Acts.step (acts_attempt (.inl (.root rfl)) ?_ fun _ _ _ => trivial)
  intro (entries : List (String × Bool)) w' served
  obtain ⟨rfl, there⟩ := Serves.readDir served
  have named : ∀ entry ∈ entries, IsName entry.1 := by
    intro entry member
    exact tidy.names (there entries rfl entry member) entry.1 (by simp)
  exact acts_then ((acts_listed tidy entries named).imp fun _ _ _ => trivial) fun _ _ => trivial

theorem listObjectVersions_acts {key : String} (tidy : p.Tidy w.tree) :
    p.Conducts s w (.listObjectVersions key) (p.listObjectVersions key) w := by
  refine acts_guarded fun valid => ?_
  have listed : key ∈ (Operation.listObjectVersions key).keys := List.mem_singleton_self _
  exact Acts.step (acts_listVersions key (.versions listed valid)
    (fun name isName => .listed listed valid isName) (fun name => tidy.entry valid)
    (fun _ _ => trivial) fun _ => trivial)

theorem acts_removeExisting {path : Path} {wrapped : GoError → GoError}
    (may : p.Writes w₀ op (.remove path)) :
    p.Conducts s w₀ op (Provider.removeExisting path wrapped) w := by
  refine acts_then (acts_request (.inr may)) fun reply w' => ?_
  split <;> trivial

theorem acts_deleteVersion (removed : ref ∈ op.removes) :
    p.Conducts s w₀ op (p.deleteVersion ref) w := by
  refine acts_guarded fun valid => ?_
  refine acts_then (acts_removeExisting (.removeSidecar removed valid)) fun _ w' => ?_
  exact acts_removeExisting (.removeBody removed valid)

theorem acts_deleteBatch {refs : List VersionedObjectRef}
    (removed : ∀ ref ∈ refs, ref ∈ op.removes) :
    p.Conducts s w₀ op (p.deleteBatch refs) w := by
  induction refs generalizing w with
  | nil => trivial
  | cons ref rest ih =>
    have others := fun w => ih (w := w) fun ref member =>
      removed ref (List.mem_cons_of_mem _ member)
    have caught : p.Conducts s w₀ op (tryCatch (do p.deleteVersion ref; pure none)
        fun err => pure (some err) : Action (Option GoError)) w := by
      refine Acts.tryCatch (Acts.step ((acts_deleteVersion
        (removed ref List.mem_cons_self)).imp fun result w' _ => ?_))
      cases result with
      | ok _ => trivial
      | error err => trivial
    exact acts_then caught fun failure w' => acts_then (others w') fun _ _ => trivial

theorem acts_uploadsIn {start cursor : String} {maxKeys : Int} (entries : List (String × Bool))
    (named : ∀ entry ∈ entries, IsName entry.1) :
    p.Conducts s w₀ (.listMultipartUploads start cursor maxKeys) (p.uploadsIn start entries) w := by
  induction entries generalizing w with
  | nil => trivial
  | cons entry rest ih =>
    obtain ⟨key, isDir⟩ := entry
    have isName : IsName key := named (key, isDir) List.mem_cons_self
    have others := fun w => ih (w := w) fun entry member =>
      named entry (List.mem_cons_of_mem _ member)
    have staging : IsName "_multipart" := by decide
    have dir : join p.root ["_multipart", key] = p.root ++ ["_multipart", key] := by
      rw [join_cons, join_name staging, join_name isName, List.append_assoc]
      rfl
    rw [Provider.uploadsIn]
    split
    · exact others w
    · rw [dir]
      refine acts_then (acts_request (.inl (.stagedKey rfl isName)))
        fun reply w' => ?_
      match reply with
      | .error err => exact others w'
      | .ok entries => exact acts_then (others w') fun _ _ => trivial

theorem listMultipartUploads_acts {start cursor : String} {maxKeys : Int} (tidy : p.Tidy w.tree) :
    p.Conducts s w (.listMultipartUploads start cursor maxKeys)
      (p.listMultipartUploads start cursor maxKeys) w := by
  have dir : join p.root ["_multipart"] = p.root ++ ["_multipart"] := join_name (by decide) _
  unfold Provider.listMultipartUploads
  rw [dir]
  refine Acts.step (acts_os (.inl (.staging rfl)) fun reply w' served => ?_)
  obtain ⟨rfl, there⟩ := Serves.readDir served
  match reply, there with
  | .error .notExist, _ => trivial
  | .error .notDir, _ => trivial
  | .error .isDir, _ => trivial
  | .error .notEmpty, _ => trivial
  | .error (.failed reason), _ => trivial
  | .ok (entries : List (String × Bool)), there =>
    have named : ∀ entry ∈ entries, IsName entry.1 := by
      intro entry member
      have found := there entries rfl entry member
      rw [List.append_assoc] at found
      exact tidy.names found entry.1 (by simp)
    exact acts_then (acts_uploadsIn entries named) fun _ _ => trivial

theorem acts_partsIn {cursor : String} (entries : List (String × Bool)) :
    p.Conducts s w₀ (.listParts upload cursor)
      (Provider.partsIn (p.multipartDir upload.key upload.uploadID) entries) w := by
  induction entries generalizing w with
  | nil => trivial
  | cons entry rest ih =>
    obtain ⟨name, isDir⟩ := entry
    rw [Provider.partsIn]
    split
    · refine acts_then (acts_request (.inl (.partInfo rfl))) fun reply w' => ?_
      split
      · exact acts_then ih fun _ _ => trivial
      · exact ih
    · exact ih

theorem listParts_acts {cursor : String} :
    p.Conducts s w (.listParts upload cursor) (p.listParts upload cursor) w := by
  refine acts_then (acts_request (.inl (.parts rfl))) fun reply w' => ?_
  dsimp only
  split
  · trivial
  · trivial
  · rename_i entries
    refine acts_then (acts_partsIn entries) fun parts w' => ?_
    split <;> trivial

/-- What an operation asks for is what its footprint allows. -/
theorem body_acts (tidy : p.Tidy w.tree) (op : Operation) : p.Conducts s w op (p.body op) w := by
  cases op with
  | put req => exact put_acts
  | head ref => exact head_acts tidy
  | get ref range => exact get_acts tidy
  | delete ref => exact delete_acts
  | purgeAllVersions ref => exact purgeAllVersions_acts
  | createMultipart req => exact createMultipart_acts
  | signUploadPart upload n => exact signUploadPart_acts
  | uploadPart upload n r => exact uploadPart_acts
  | completeMultipart req => exact completeMultipart_acts
  | abortMultipart upload => exact abortMultipart_acts
  | copyWithinProvider src dstKey retention => exact copyWithinProvider_acts tidy
  | getRetention ref => exact getRetention_acts
  | updateRetention ref change => exact updateRetention_acts
  | setLegalHold ref enabled => exact setLegalHold_acts
  | listObjects start cursor maxKeys => exact listObjects_acts tidy
  | listObjectVersions key => exact listObjectVersions_acts tidy
  | deleteVersion ref => exact acts_deleteVersion (List.mem_singleton_self _)
  | listMultipartUploads start cursor maxKeys => exact listMultipartUploads_acts tidy
  | listParts upload cursor => exact listParts_acts
  | deleteBatch refs => exact acts_deleteBatch fun _ member => member

end Operations
end KDrive.LocalFsDev
