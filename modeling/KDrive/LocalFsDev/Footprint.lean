import KDrive.LocalFsDev.Names

/-! Which calls an operation makes on the files of the host, whatever it finds there and
whichever calls fail. What the operations leave alone, and where they go, is read off
from this one description. -/
namespace KDrive.LocalFsDev
open Go Blobstore Filesystem Interaction

/-- A sidecar the store wrote, or one read from the record of an upload. -/
structure Sidecar.Sound (sc : Sidecar) : Prop where
  key : validateKey sc.key = none
  versionID : sc.versionID = "" ∨ IsVersionID sc.versionID
  retainUntil : dated sc.retention.retainUntil
  writeTime : dated sc.writeTime

structure MultipartMeta.Sound (mp : MultipartMeta) : Prop where
  key : validateKey mp.key = none
  retainUntil : dated mp.retention.retainUntil

def Content.Sound : Content → Prop
  | .bytes _ => True
  | .sidecar sc => sc.Sound
  | .upload mp => mp.Sound

theorem dated_zero : dated 0 := by decide

theorem Content.Sound.asSidecar {content : Content} (sound : content.Sound)
    (parsed : content.asSidecar = .ok sc) : sc.Sound := by
  cases content with
  | bytes data => contradiction
  | sidecar sc' =>
    cases parsed
    exact sound
  | upload mp =>
    cases parsed
    exact ⟨MultipartMeta.Sound.key sound, .inl rfl, MultipartMeta.Sound.retainUntil sound, dated_zero⟩

/-- Where uploads are kept until they are complete. -/
def Provider.staging (p : Provider) : Path := p.root ++ ["_multipart"]

/-- What is found below the root is always like this: its name is a name, a JSON text is
one the store wrote and has the name of one, and outside the staging area a sidecar lies
where its key and its version ID say. -/
structure Provider.Fits (p : Provider) (path : Path) (node : Node Content) : Prop where
  named : p.root <+: path → Named p.root.length path
  sound : ∀ content, node = .file content → Below p.root path → content.Sound
  placed : ∀ sc, node = .file (.sidecar sc) → Below p.root path → ¬ p.staging <+: path →
    path = p.versionMetaPath sc.key sc.versionID ∨
      path = tmpOf (p.versionMetaPath sc.key sc.versionID)
  staged : ∀ mp, node = .file (.upload mp) → Below p.root path → p.staging <+: path
  raw : ∀ data dir name, node = .file (.bytes data) → path = dir ++ [name] → Below p.root path →
    ¬ IsJSONName name

def Provider.Tidy (p : Provider) (t : Filesystem.Tree Content) : Prop :=
  ∀ path node, t.look path = some node → p.Fits path node

theorem Provider.Tidy.names {p : Provider} {names : List String} (tidy : p.Tidy t)
    (found : t.look (p.root ++ names) ≠ none) : ∀ name ∈ names, IsName name := by
  obtain ⟨node, there⟩ := Option.ne_none_iff_exists'.mp found
  have named := (tidy _ _ there).named (List.prefix_append _ _)
  intro name member
  exact named name (by simpa using member)

namespace Operation

/-- The keys whose versions are listed. -/
def keys : Operation → List String
  | .put req => [req.key]
  | .head ref | .delete ref | .purgeAllVersions ref => [ref.key]
  | .get ref _ => [ref.key]
  | .copyWithinProvider src _ _ => [src.key]
  | .listObjectVersions key => [key]
  | _ => []

/-- The keys that get a new version. -/
def homes : Operation → List String
  | .put req => [req.key]
  | .delete ref => [ref.key]
  | .completeMultipart req => [req.upload.key]
  | .copyWithinProvider _ dstKey _ => [dstKey]
  | _ => []

/-- The versions whose sidecar is read by its ID. -/
def refs : Operation → List VersionedObjectRef
  | .get ref _ | .getRetention ref | .updateRetention ref _ | .setLegalHold ref _ => [ref]
  | .copyWithinProvider src dstKey _ => if validateKey dstKey = none then [src] else []
  | _ => []

/-- The versions whose sidecar is written again. -/
def rewrites : Operation → List VersionedObjectRef
  | .updateRetention ref _ | .setLegalHold ref _ => [ref]
  | _ => []

/-- The versions that are to be removed. -/
def removes : Operation → List VersionedObjectRef
  | .deleteVersion ref => [ref]
  | .deleteBatch refs => refs
  | _ => []

end Operation

/-- A version ID that was not handed out before. -/
def World.Unissued (w : World) (id : String) : Prop := IsVersionID id ∧ id ∉ w.issued

/-- The file an upload is recorded in. -/
def Provider.uploadPath (p : Provider) (upload : MultipartUpload) : Path :=
  join (p.multipartDir upload.key upload.uploadID) ["upload.json"]

def Provider.partPath (p : Provider) (upload : MultipartUpload) (n : Int) : Path :=
  join (p.multipartDir upload.key upload.uploadID) [partName n]

/-- A temporary file in the directory of a key. -/
def Provider.tempPath (p : Provider) (key : String) (random : Nat) : Path :=
  p.versionsDir key ++ [".tmp-" ++ toString random]

/-- The calls that read. -/
inductive Provider.Reads (p : Provider) (w : World) (op : Operation) : Call Content → Prop where
  | versions : key ∈ op.keys → validateKey key = none → Reads p w op (.readDir (p.versionsDir key))
  | purged : op = .purgeAllVersions ref → validateKey ref.key = none →
      Reads p w op (.stat (p.versionsDir ref.key))
  | listed : key ∈ op.keys → validateKey key = none → IsName name →
      Reads p w op (.readFile (p.versionsDir key ++ [name]))
  | sidecar : ref ∈ op.refs → validateKey ref.key = none →
      Reads p w op (.readFile (p.versionMetaPath ref.key ref.versionID))
  | listedBody : key ∈ op.keys → validateKey key = none → IsName name →
      w.tree.look (p.versionsDir key ++ [name]) = some (.file content) →
      content.asSidecar = .ok sc → Reads p w op (.openFile (p.versionBodyPath sc.key sc.versionID))
  | body : ref ∈ op.refs → validateKey ref.key = none →
      w.tree.look (p.versionMetaPath ref.key ref.versionID) = some (.file content) →
      content.asSidecar = .ok sc → Reads p w op (.openFile (p.versionBodyPath sc.key sc.versionID))
  | signed : op = .signUploadPart upload n →
      Reads p w op (.stat (p.multipartDir upload.key upload.uploadID))
  | uploaded : op = .uploadPart upload n r → validateKey upload.key = none →
      Reads p w op (.stat (p.multipartDir upload.key upload.uploadID))
  | upload : op = .completeMultipart req → validateKey req.upload.key = none →
      Reads p w op (.readFile (p.uploadPath req.upload))
  | part : op = .completeMultipart req → validateKey req.upload.key = none →
      Reads p w op (.openFile (p.partPath req.upload n))
  | parts : op = .listParts upload cursor →
      Reads p w op (.readDir (p.multipartDir upload.key upload.uploadID))
  | partInfo : op = .listParts upload cursor →
      Reads p w op (.stat (join (p.multipartDir upload.key upload.uploadID) [name]))
  | root : op = .listObjects start cursor maxKeys → Reads p w op (.readDir p.root)
  | object : op = .listObjects start cursor maxKeys → IsName name →
      Reads p w op (.readDir (p.root ++ [name]))
  | objectVersion : op = .listObjects start cursor maxKeys → IsName key → IsName name →
      Reads p w op (.readFile (p.root ++ [key, name]))
  | staging : op = .listMultipartUploads start cursor maxKeys →
      Reads p w op (.readDir (p.root ++ ["_multipart"]))
  | stagedKey : op = .listMultipartUploads start cursor maxKeys → IsName name →
      Reads p w op (.readDir (p.root ++ ["_multipart", name]))

/-- The calls that change something. -/
inductive Provider.Writes (p : Provider) (w : World) (op : Operation) : Call Content → Prop where
  | home : key ∈ op.homes → validateKey key = none → Writes p w op (.mkdirAll (p.versionsDir key))
  | temp : key ∈ op.homes → validateKey key = none →
      Writes p w op (.createTemp (p.versionsDir key) ".tmp-")
  | fillTemp : key ∈ op.homes → validateKey key = none →
      Writes p w op (.write (p.tempPath key random) (.bytes data))
  | closeTemp : key ∈ op.homes → validateKey key = none →
      Writes p w op (.close (p.tempPath key random))
  | dropTemp : key ∈ op.homes → validateKey key = none →
      Writes p w op (.remove (p.tempPath key random))
  | body : key ∈ op.homes → validateKey key = none → w.Unissued new →
      Writes p w op (.rename (p.tempPath key random) (p.versionBodyPath key new))
  | dropBody : key ∈ op.homes → validateKey key = none → w.Unissued new →
      Writes p w op (.remove (p.versionBodyPath key new))
  | newSidecar : sc.key ∈ op.homes → w.Unissued sc.versionID → sc.Sound →
      Writes p w op (.writeFile (tmpOf (p.versionMetaPath sc.key sc.versionID)) (.sidecar sc))
  | publish : key ∈ op.homes → validateKey key = none → w.Unissued new →
      Writes p w op (.rename (tmpOf (p.versionMetaPath key new)) (p.versionMetaPath key new))
  | dropSidecar : key ∈ op.homes → validateKey key = none → w.Unissued new →
      Writes p w op (.remove (tmpOf (p.versionMetaPath key new)))
  | rewrite : ref ∈ op.rewrites → validateKey ref.key = none →
      w.tree.look (p.versionMetaPath ref.key ref.versionID) = some (.file content) →
      content.asSidecar = .ok sc → dated retention.retainUntil → dated sc.writeTime →
      Writes p w op (.writeFile (tmpOf (p.versionMetaPath ref.key ref.versionID))
        (.sidecar { sc with retention }))
  | republish : ref ∈ op.rewrites → validateKey ref.key = none →
      Writes p w op (.rename (tmpOf (p.versionMetaPath ref.key ref.versionID))
        (p.versionMetaPath ref.key ref.versionID))
  | dropRewrite : ref ∈ op.rewrites → validateKey ref.key = none →
      Writes p w op (.remove (tmpOf (p.versionMetaPath ref.key ref.versionID)))
  | stage : op = .createMultipart req → validateKey req.key = none → w.Unissued new →
      Writes p w op (.mkdirAll (p.multipartDir req.key new))
  | newUpload : op = .createMultipart req → w.Unissued new → mp.Sound → mp.key = req.key →
      Writes p w op (.writeFile (tmpOf (p.uploadPath ⟨req.key, new⟩)) (.upload mp))
  | publishUpload : op = .createMultipart req → validateKey req.key = none → w.Unissued new →
      Writes p w op (.rename (tmpOf (p.uploadPath ⟨req.key, new⟩)) (p.uploadPath ⟨req.key, new⟩))
  | dropUpload : op = .createMultipart req → validateKey req.key = none → w.Unissued new →
      Writes p w op (.remove (tmpOf (p.uploadPath ⟨req.key, new⟩)))
  | unstage : op = .createMultipart req → validateKey req.key = none → w.Unissued new →
      Writes p w op (.removeAll (p.multipartDir req.key new))
  | newPart : op = .uploadPart upload n r → validateKey upload.key = none → 1 ≤ n →
      w.tree.look (p.multipartDir upload.key upload.uploadID) ≠ none →
      Writes p w op (.create (p.partPath upload n))
  | fillPart : op = .uploadPart upload n r → validateKey upload.key = none → 1 ≤ n →
      Writes p w op (.write (p.partPath upload n) (.bytes data))
  | complete : op = .completeMultipart req → validateKey req.upload.key = none →
      w.tree.look (p.uploadPath req.upload) = some (.file content) → content.asUpload = .ok mp →
      Writes p w op (.removeAll (p.multipartDir req.upload.key req.upload.uploadID))
  | abort : op = .abortMultipart upload → validateKey upload.key = none →
      Writes p w op (.removeAll (p.multipartDir upload.key upload.uploadID))
  | purge : op = .purgeAllVersions ref → validateKey ref.key = none →
      Writes p w op (.removeAll (p.versionsDir ref.key))
  | removeSidecar : ref ∈ op.removes → validateKey ref.key = none →
      Writes p w op (.remove (p.versionMetaPath ref.key ref.versionID))
  | removeBody : ref ∈ op.removes → validateKey ref.key = none →
      Writes p w op (.remove (p.versionBodyPath ref.key ref.versionID))

/-- What an operation that was called in `w` may ask for. -/
def Provider.May (p : Provider) (w : World) (op : Operation) (_ : World) : Request → Prop
  | .os c => p.Reads w op c ∨ p.Writes w op c
  | _ => True

section Serving
variable {s : Setting} {w w' : World}

theorem Serves.issued {c : Call Content} {reply : Except Errno c.Result}
    (served : Serves s w (.os c) reply w') : w'.issued = w.issued := by
  rcases served with ⟨random, _, _, rfl⟩ | ⟨_, _, rfl | ⟨random, _, rfl⟩⟩
  · rfl
  · rfl
  · rfl

theorem Serves.temp {dir : Path} {stem : String} {path : Path}
    (served : Serves s w (.os (.createTemp dir stem)) (.ok path) w') :
    ∃ random : Nat, path = dir ++ [stem ++ toString random] := by
  rcases served with ⟨random, _, reply, _⟩ | ⟨_, ⟨reason, impossible⟩, _⟩
  · simp only [Tree.perform] at reply
    split at reply
    · contradiction
    · exact ⟨random, Except.ok.inj reply⟩
  · contradiction

/-- A call that reads leaves the host as it is, and is answered from the files. -/
theorem Serves.read {c : Call Content} {reply : Except Errno c.Result}
    (served : Serves s w (.os c) reply w') {answer : Except Errno c.Result}
    (reading : ∀ random, w.tree.perform random c = (answer, w.tree)) :
    w' = w ∧ ∀ value, reply = .ok value → answer = .ok value := by
  rcases served with ⟨random, _, told, rfl⟩ | ⟨_, ⟨reason, failed⟩, same⟩
  · rw [reading] at told ⊢
    exact ⟨rfl, fun value ok => told.symm.trans ok⟩
  · refine ⟨?_, fun value ok => ?_⟩
    · rcases same with same | ⟨random, _, same⟩
      · exact same
      · rw [reading] at same
        exact same
    · rw [failed] at ok
      contradiction

theorem Serves.readFile {path : Path} {reply : Except Errno Content}
    (served : Serves s w (.os (.readFile path)) reply w') :
    w' = w ∧ ∀ content, reply = .ok content → w.tree.look path = some (.file content) := by
  have reading : ∀ random, w.tree.perform random (.readFile path) =
      ((w.tree.perform 0 (.readFile path)).1, w.tree) := by
    intro random
    simp only [Tree.perform]
    split <;> rfl
  obtain ⟨same, told⟩ := served.read reading
  refine ⟨same, fun content ok => ?_⟩
  have found := told content ok
  simp only [Tree.perform] at found
  split at found
  · rename_i content' there
    cases found
    exact there
  · contradiction
  · contradiction

theorem Serves.readDir {path : Path} {reply : Except Errno (List (String × Bool))}
    (served : Serves s w (.os (.readDir path)) reply w') :
    w' = w ∧ ∀ entries, reply = .ok entries →
      ∀ entry ∈ entries, w.tree.look (path ++ [entry.1]) ≠ none := by
  have reading : ∀ random, w.tree.perform random (.readDir path) =
      ((w.tree.perform 0 (.readDir path)).1, w.tree) := by
    intro random
    simp only [Tree.perform]
    split <;> rfl
  obtain ⟨same, told⟩ := served.read reading
  refine ⟨same, fun entries ok entry member => ?_⟩
  have found := told entries ok
  simp only [Tree.perform] at found
  split at found
  · cases found
    obtain ⟨name, inside, rfl⟩ := List.mem_map.mp member
    exact Option.isSome_iff_ne_none.mp (Tree.mem_names.mp inside)
  · contradiction
  · contradiction

theorem Serves.stat {path : Path} {reply : Except Errno (Node Content)}
    (served : Serves s w (.os (.stat path)) reply w') :
    w' = w ∧ ∀ node, reply = .ok node → w.tree.look path = some node := by
  have reading : ∀ random, w.tree.perform random (.stat path) =
      ((w.tree.perform 0 (.stat path)).1, w.tree) := by
    intro random
    simp only [Tree.perform]
    split <;> rfl
  obtain ⟨same, told⟩ := served.read reading
  refine ⟨same, fun node ok => ?_⟩
  have found := told node ok
  simp only [Tree.perform] at found
  split at found
  · rename_i node' there
    cases found
    exact there
  · contradiction

end Serving

section Rules
variable {s : Setting} {allowed : World → Request → Prop} {w : World}

theorem acts_os {c : Call Content} {post : Except GoError (Except Errno c.Result) → World → Prop}
    (may : allowed w (.os c))
    (next : ∀ reply w', Serves s w (.os c) reply w' → post (.ok reply) w') :
    Acts (serves s) allowed (os c).run post w :=
  Acts.lift (Acts.request (I := host) may next)

theorem acts_attempt {c : Call Content} {wrapped : GoError → GoError}
    {post : Except GoError c.Result → World → Prop} (may : allowed w (.os c))
    (ok : ∀ value w', Serves s w (.os c) (.ok value) w' → post (.ok value) w')
    (failed : ∀ err w', Serves s w (.os c) (.error err) w' →
      post (.error (wrapped (osError err))) w') :
    Acts (serves s) allowed (attempt c wrapped).run post w := by
  refine Acts.step (acts_os may fun reply w' served => ?_)
  cases reply with
  | ok value => exact ok value w' served
  | error err => exact failed err w' served

theorem acts_clock {post : Except GoError Time → World → Prop} (may : allowed w .now)
    (next : ∀ now, s.later w.clock now → post (.ok now) { w with clock := now }) :
    Acts (serves s) allowed clock.run post w := by
  refine Acts.lift (Acts.request (I := host) may ?_)
  rintro now w' ⟨later, rfl⟩
  exact next now later

theorem acts_newVersionID {post : Except GoError String → World → Prop}
    (may : allowed w .newVersionID)
    (next : ∀ new, w.Unissued new → post (.ok new) { w with issued := new :: w.issued }) :
    Acts (serves s) allowed newVersionID.run post w := by
  refine Acts.step (Acts.lift (Acts.request (I := host) may ?_))
  rintro ⟨nano, seq⟩ w' ⟨unissued, rfl⟩
  exact next (versionText nano seq) ⟨⟨nano, seq, rfl⟩, unissued⟩

theorem acts_check {post : Except GoError Unit → World → Prop}
    (passed : err = none → post (.ok ()) w) (failed : ∀ e, err = some e → post (.error e) w) :
    Acts (serves s) allowed (check err).run post w := by
  cases err with
  | none => exact passed rfl
  | some e => exact failed e rfl

end Rules

end KDrive.LocalFsDev
