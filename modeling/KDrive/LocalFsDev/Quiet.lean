import KDrive.Filesystem.Exact
import KDrive.LocalFsDev.Tidy

/-! Programs on a host where no call fails: what is found afterwards, as a function of
what was found before. -/
namespace KDrive.LocalFsDev
open Go Blobstore Filesystem Interaction

/-- What holds when a program that runs alone returns. -/
abbrev Ends (s : Setting) (program : Program host α) (post : α → World → Prop) (w : World) : Prop :=
  Acts (serves s) (fun _ _ => True) program post w

section Calls
variable {s : Setting} {w : World} {c : Call Content} {wrapped : GoError → GoError}

variable (quiet : ¬ s.fails)
include quiet

theorem ends_os {post : Except GoError (Except Errno c.Result) → World → Prop}
    (next : ∀ random, w.tree.free random c → post (.ok (w.tree.perform random c).1)
      { w with tree := (w.tree.perform random c).2 }) :
    Ends s (os c).run post w := by
  refine acts_os trivial fun reply w' served => ?_
  rcases served with ⟨random, free, rfl, rfl⟩ | ⟨fails, _⟩
  · exact next random free
  · exact absurd fails quiet

theorem ends_call (plain : ∀ dir stem, c ≠ .createTemp dir stem)
    {post : Except GoError (Except Errno c.Result) → World → Prop}
    (does : w.tree.perform 0 c = (reply, t)) (next : post (.ok reply) { w with tree := t }) :
    Ends s (os c).run post w := by
  refine ends_os quiet fun random _ => ?_
  rw [Tree.perform_random plain, does]
  exact next

theorem ends_attempt (plain : ∀ dir stem, c ≠ .createTemp dir stem)
    {post : Except GoError c.Result → World → Prop}
    (ok : ∀ value t, w.tree.perform 0 c = (.ok value, t) → post (.ok value) { w with tree := t })
    (failed : ∀ err t, w.tree.perform 0 c = (.error err, t) →
      post (.error (wrapped (osError err))) { w with tree := t }) :
    Ends s (attempt c wrapped).run post w := by
  refine Acts.step ?_
  cases does : w.tree.perform 0 c with
  | mk reply t =>
    refine ends_call quiet plain does ?_
    cases reply with
    | ok value => exact ok value t does
    | error err => exact failed err t does

/-- What is read from a file. -/
def parsed (t : Filesystem.Tree Content) (path : Path) (parse : Content → Except GoError α) :
    Except GoError α :=
  match t.fileAt path with
  | .ok content => parse content
  | .error err => .error (osError err)

theorem ends_readJSON {path : Path} {parse : Content → Except GoError α}
    {post : Except GoError (Except GoError α) → World → Prop}
    (next : post (.ok (parsed w.tree path parse)) w) : Ends s (readJSON path parse).run post w := by
  refine Acts.step (ends_call quiet (by simp) Tree.perform_readFile ?_)
  unfold parsed at next
  cases read : w.tree.fileAt path with
  | ok content =>
    rw [read] at next
    exact next
  | error err =>
    rw [read] at next
    exact next

omit quiet in
theorem parsed_file {t : Filesystem.Tree Content} {parse : Content → Except GoError α}
    (found : t.look path = some (.file content)) : parsed t path parse = parse content := by
  simp only [parsed, Tree.fileAt, found]

theorem ends_ok (plain : ∀ dir stem, c ≠ .createTemp dir stem)
    {post : Except GoError c.Result → World → Prop} (does : w.tree.perform 0 c = (.ok value, t))
    (next : post (.ok value) { w with tree := t }) : Ends s (attempt c wrapped).run post w :=
  Acts.step (ends_call quiet plain does next)

variable {post : Except GoError Unit → World → Prop}

theorem ends_mkdirAll {dir : Path}
    (unblocked : w.tree.blocked dir = false) (noFile : w.tree.isFile dir = false)
    (next : ∀ t, t.look = Tree.made dir w.tree.look → post (.ok ()) { w with tree := t }) :
    Ends s (attempt (.mkdirAll dir) wrapped).run post w := by
  refine ends_ok quiet (by simp) ?_ (next (w.tree.makeDirs dir) Tree.look_makeDirs_eq)
  simp only [Tree.perform, unblocked, noFile, Bool.false_eq_true, or_self, if_false]

theorem ends_createTemp {dir : Path} {stem : String}
    {post : Except GoError Path → World → Prop} (parent : w.tree.look dir = some .dir)
    (next : ∀ (random : Nat) t, w.tree.look (dir ++ [stem ++ toString random]) = none →
      t.look = Function.update w.tree.look (dir ++ [stem ++ toString random])
        (some (.file (.bytes []))) →
      post (.ok (dir ++ [stem ++ toString random])) { w with tree := t }) :
    Ends s (attempt (.createTemp dir stem) wrapped).run post w := by
  refine Acts.step (ends_os quiet fun random free => ?_)
  have does : w.tree.perform random (.createTemp dir stem) =
      (.ok (dir ++ [stem ++ toString random]),
        w.tree.set (dir ++ [stem ++ toString random]) (.file (.bytes []))) := by
    simp only [Tree.perform, Tree.isDir_iff.mpr parent, Bool.not_true, Bool.false_eq_true, if_false]
    rfl
  rw [does]
  exact next random _ free (Tree.look_set_eq (by simp))

theorem ends_write (found : w.tree.look path = some (.file old))
    (next : ∀ t, t.look = Function.update w.tree.look path
      (some (.file (Contents.append old content))) → post (.ok ()) { w with tree := t }) :
    Ends s (attempt (.write path content) wrapped).run post w := by
  refine ends_ok quiet (by simp) ?_ (next _ (Tree.look_set_eq (Tree.look_ne_nil found)))
  simp only [Tree.perform, found]

theorem ends_close (next : post (.ok ()) w) : Ends s (attempt (.close path) wrapped).run post w :=
  ends_ok quiet (by simp) rfl next

theorem ends_rename
    (found : w.tree.look source = some (.file content)) (parent : w.tree.look dir = some .dir)
    (free : w.tree.look (dir ++ [name]) ≠ some .dir)
    (next : ∀ t, t.look = Function.update (Function.update w.tree.look source none)
      (dir ++ [name]) (some (.file content)) → post (.ok ()) { w with tree := t }) :
    Ends s (attempt (.rename source (dir ++ [name])) wrapped).run post w := by
  refine ends_ok quiet (by simp) (Tree.perform_rename found (Tree.place_child parent free)) (next _ ?_)
  rw [Tree.look_set_eq (by simp), Tree.look_unset_eq (Tree.look_ne_nil found)]

/-- A file is removed, if it is there. -/
theorem ends_remove {post : Except GoError (Except Errno Unit) → World → Prop}
    (real : path ≠ []) (noDir : w.tree.look path ≠ some .dir)
    (next : ∀ reply t, reply = .ok () ∨ (∃ err, reply = .error err) ∧ w.tree.look path = none →
      t.look = Function.update w.tree.look path none → post (.ok reply) { w with tree := t }) :
    Ends s (os (.remove path)).run post w := by
  cases found : w.tree.look path with
  | none =>
    have does : w.tree.perform 0 (.remove path) = (.error (w.tree.missing path), w.tree) := by
      simp only [Tree.perform, found]
    refine ends_call quiet (by simp) does (next _ _ (.inr ⟨⟨_, rfl⟩, found⟩) ?_)
    rw [← found, Function.update_eq_self]
  | some node =>
    cases node with
    | dir => exact absurd found noDir
    | file content =>
      exact ends_call quiet (by simp) (Tree.perform_remove found)
        (next _ _ (.inl rfl) (Tree.look_unset_eq real))

theorem ends_removing {body : Action α} {post : Except GoError α → World → Prop} (real : tmp ≠ [])
    (acts : Ends s body.run (fun result w' => w'.tree.look tmp ≠ some .dir ∧
      ∀ t, t.look = Function.update w'.tree.look tmp none → post result { w' with tree := t }) w) :
    Ends s (removing tmp body).run post w := by
  refine Acts.bind (acts.imp fun result w' ⟨noDir, next⟩ => ?_)
  exact Acts.bind (ends_remove quiet real noDir fun _ t _ looks => next t looks)

theorem ends_removeAll {dir : Path} {post : Except GoError (Except Errno Unit) → World → Prop}
    (unblocked : w.tree.blocked dir = false)
    (next : ∀ t, t.look = Tree.pruned dir w.tree.look → post (.ok (.ok ())) { w with tree := t }) :
    Ends s (os (.removeAll dir)).run post w := by
  refine ends_call quiet (by simp) ?_ (next _ Tree.look_cut_eq)
  simp only [Tree.perform, unblocked, Bool.false_eq_true, if_false]
  rfl

theorem ends_copyTo {r : Reader} (found : w.tree.look path = some (.file (.bytes old)))
    (whole : ∀ t, r.failure = none →
      t.look = Function.update w.tree.look path (some (.file (.bytes (old ++ r.data)))) →
      post (.ok ()) { w with tree := t })
    (cut : ∀ err t, r.failure = some err →
      t.look = Function.update w.tree.look path (some (.file (.bytes (old ++ r.data)))) →
      post (.error (wrapped err)) { w with tree := t }) :
    Ends s (copyTo path r wrapped).run post w := by
  refine Acts.step (ends_write quiet found fun t looks => ?_)
  refine acts_check (fun passed => ?_) fun err failed => ?_
  · exact whole t (Option.map_eq_none_iff.mp passed) looks
  · obtain ⟨failure, same, rfl⟩ := Option.map_eq_some_iff.mp failed
    exact cut failure t same looks

end Calls

section Writing
variable {s : Setting} {w : World} {dir : Path} {name : String}

theorem place_concat (other : name ≠ name') {t : Filesystem.Tree Content}
    (ok : t.place (dir ++ [name]) = .ok ()) (free : t.isDir (dir ++ [name']) = false) :
    (t.set (dir ++ [name]) node).place (dir ++ [name']) = .ok () := by
  obtain ⟨real, parent, _⟩ := Tree.place_ok ok
  rw [List.dropLast_concat] at parent
  have apart : dir ≠ dir ++ [name] := by simp
  have away : dir ++ [name'] ≠ dir ++ [name] := fun same => other (concat_inj same).2.symm
  have parent' : (t.set (dir ++ [name]) node).isDir dir = true := by
    rw [Tree.isDir_iff, Tree.look_set real, if_neg apart]
    exact Tree.isDir_iff.mp parent
  have free' : (t.set (dir ++ [name]) node).isDir (dir ++ [name']) = false := by
    rw [Bool.eq_false_iff] at free ⊢
    rw [ne_eq, Tree.isDir_iff, Tree.look_set real, if_neg away]
    exact fun found => free (Tree.isDir_iff.mpr found)
  simp [Tree.place, parent', free']

/-- A JSON text is written whole or not at all. -/
theorem ends_writeJSON (quiet : ¬ s.fails) {marshalled : Except GoError Content}
    {post : Except GoError Unit → World → Prop}
    (stored : ∀ body t, marshalled = .ok body →
      w.tree.place (dir ++ [name ++ ".tmp"]) = .ok () → w.tree.isDir (dir ++ [name]) = false →
      t.look = Function.update (Function.update w.tree.look (dir ++ [name ++ ".tmp"]) none)
        (dir ++ [name]) (some (.file body)) →
      post (.ok ()) { w with tree := t })
    (failed : ∀ err t, (∀ body, marshalled = .ok body →
        w.tree.place (dir ++ [name ++ ".tmp"]) = .ok () → w.tree.isDir (dir ++ [name]) = true) →
      (w.tree.isDir (dir ++ [name]) = false → t = w.tree) →
      (∀ other, other ≠ dir ++ [name ++ ".tmp"] → t.look other = w.tree.look other) →
      post (.error err) { w with tree := t }) :
    Ends s (writeJSON (dir ++ [name]) marshalled).run post w := by
  cases marshalled with
  | error err => exact failed _ w.tree (fun _ impossible => by contradiction) (fun _ => rfl) fun _ _ => rfl
  | ok body =>
    have differ : name ++ ".tmp" ≠ name := by
      intro same
      have lengths := congrArg String.length same
      rw [String.length_append] at lengths
      exact absurd lengths (by simp)
    unfold writeJSON
    rw [tmpOf_concat]
    refine Acts.step (ends_attempt quiet (by simp) (fun _ t does => ?_) fun err t does => ?_)
    · obtain ⟨ok, rfl⟩ := Tree.perform_writeFile_ok does
      have real : dir ++ [name ++ ".tmp"] ≠ [] := by simp
      have there : (w.tree.set (dir ++ [name ++ ".tmp"]) (.file body)).look (dir ++ [name ++ ".tmp"]) =
          some (.file body) := by rw [Tree.look_set real, if_pos rfl]
      cases free : w.tree.isDir (dir ++ [name]) with
      | false =>
        refine Acts.step (ends_call quiet (by simp)
          (Tree.perform_rename there (place_concat differ ok free)) ?_)
        refine stored body _ rfl ok free ?_
        rw [Tree.look_set_eq (by simp), Tree.look_unset_eq real, Tree.look_set_eq real,
          Function.update_idem]
      | true =>
        have away : dir ++ [name] ≠ dir ++ [name ++ ".tmp"] := fun same => differ (concat_inj same).2.symm
        have taken : (w.tree.set (dir ++ [name ++ ".tmp"]) (.file body)).isDir (dir ++ [name]) = true := by
          rw [Tree.isDir_iff, Tree.look_set real, if_neg away]
          exact Tree.isDir_iff.mp free
        obtain ⟨err, refused⟩ := Tree.place_taken taken
        refine Acts.step (ends_call quiet (by simp) (Tree.perform_rename_error there refused) ?_)
        refine Acts.step (ends_call quiet (by simp) (Tree.perform_remove there) ?_)
        refine failed _ _ (fun _ _ _ => free) (fun other => ?_) ?_
        · rw [free] at other
          contradiction
        intro other apart
        rw [Tree.look_unset real, if_neg apart, Tree.look_set real, if_neg apart]
    · obtain ⟨refused, rfl⟩ := Tree.perform_writeFile_error does
      refine failed _ _ (fun _ _ ok => ?_) (fun _ => rfl) fun _ _ => rfl
      rw [ok] at refused
      contradiction

end Writing

section Versions
variable {p : Provider} {s : Setting} {w : World} {key : String}

/-- The files of a version with this ID are not there yet. -/
structure Provider.Free (p : Provider) (t : Filesystem.Tree Content) (key id : String) : Prop where
  body : t.look (p.versionsDir key ++ [id ++ ".bin"]) = none
  sidecar : t.look (p.versionsDir key ++ [id ++ ".json"]) = none
  temporary : t.look (p.versionsDir key ++ [id ++ ".json" ++ ".tmp"]) = none

/-- What is found once a version was written. -/
def Provider.written (p : Provider) (sc : Sidecar) (data : Bytes)
    (look : Path → Option (Node Content)) : Path → Option (Node Content) :=
  Function.update (Function.update look (p.versionsDir sc.key ++ [sc.versionID ++ ".bin"])
    (some (.file (.bytes data)))) (p.versionsDir sc.key ++ [sc.versionID ++ ".json"])
    (some (.file (.sidecar sc)))

theorem ends_publish (quiet : ¬ s.fails) (sc : Sidecar) {random : Nat} {data : Bytes}
    {finalize : GoError → GoError} {post : Except GoError PutResult → World → Prop}
    (noSlash : '/' ∉ sc.versionID.toList) (parent : w.tree.look (p.versionsDir sc.key) = some .dir)
    (found : w.tree.look (p.tempPath sc.key random) = some (.file (.bytes data)))
    (free : p.Free w.tree sc.key sc.versionID)
    (stored : ∀ now t, s.later w.clock now → dated sc.retention.retainUntil → dated now →
      t.look = p.written { sc with writeTime := now } data
        (Function.update w.tree.look (p.tempPath sc.key random) none) →
      post (.ok (putResult { sc with writeTime := now })) { w with tree := t, clock := now })
    (failed : ∀ err now t, s.later w.clock now →
      ¬ (dated sc.retention.retainUntil ∧ dated now) →
      t.look = Function.update w.tree.look (p.tempPath sc.key random) none →
      post (.error err) { w with tree := t, clock := now }) :
    Ends s (p.publish (p.tempPath sc.key random) sc finalize).run post w := by
  have bin : ".bin".toList.getLast? = some 'n' := by decide
  have tmp : ".tmp".toList.getLast? = some 'p' := by decide
  have fromTemp : ∀ {suf : String} {c : Char}, suf.toList.getLast? = some c → c.isDigit = false →
      ∀ stem, p.versionsDir sc.key ++ [stem ++ suf] ≠ p.tempPath sc.key random :=
    fun ends letter stem same => temp_ne ends letter (concat_inj same).2.symm
  have bodyTemp := fromTemp bin (by decide) sc.versionID
  have sidecarTemp := fromTemp (by decide : ".json".toList.getLast? = some 'n') (by decide) sc.versionID
  have temporaryTemp := fromTemp tmp (by decide) (sc.versionID ++ ".json")
  have sidecarBody : p.versionsDir sc.key ++ [sc.versionID ++ ".json"] ≠
      p.versionsDir sc.key ++ [sc.versionID ++ ".bin"] :=
    fun same => json_ne_bin _ _ (concat_inj same).2
  have temporaryBody : p.versionsDir sc.key ++ [sc.versionID ++ ".json" ++ ".tmp"] ≠
      p.versionsDir sc.key ++ [sc.versionID ++ ".bin"] :=
    fun same => append_ne tmp bin (by decide) (concat_inj same).2
  unfold Provider.publish
  rw [body_noSlash noSlash]
  refine Acts.step (ends_rename quiet found parent (by simp [free.body]) fun t looks => ?_)
  have there : t.look (p.versionsDir sc.key) = some .dir := by
    rw [looks, Function.update_of_ne (by simp), Function.update_of_ne (by simp [Provider.tempPath])]
    exact parent
  have sidecarFree : t.look (p.versionsDir sc.key ++ [sc.versionID ++ ".json"]) = none := by
    rw [looks, Function.update_of_ne sidecarBody, Function.update_of_ne sidecarTemp]
    exact free.sidecar
  have temporaryFree : t.look (p.versionsDir sc.key ++ [sc.versionID ++ ".json" ++ ".tmp"]) = none := by
    rw [looks, Function.update_of_ne temporaryBody, Function.update_of_ne temporaryTemp]
    exact free.temporary
  refine Acts.step (acts_clock trivial fun now later => Acts.step (Acts.tryCatch ?_))
  change Ends s (writeJSON (p.versionMetaPath sc.key sc.versionID) _).run _ _
  rw [meta_noSlash noSlash]
  refine ends_writeJSON quiet (fun body t' marshalled _ _ looks' => ?_)
    fun err t' cause same _ => ?_
  · obtain ⟨rfl, retainUntil, written⟩ := Sidecar.marshal_ok marshalled
    refine stored now t' later retainUntil written ?_
    have absent := Function.update_eq_self (p.versionsDir sc.key ++ [sc.versionID ++ ".json" ++ ".tmp"])
      t.look
    rw [temporaryFree] at absent
    rw [looks', absent, looks]
    rfl
  · have noDir : t.isDir (p.versionsDir sc.key ++ [sc.versionID ++ ".json"]) = false := by
      rw [Bool.eq_false_iff, ne_eq, Tree.isDir_iff, sidecarFree]
      simp
    have placed : t.place (p.versionsDir sc.key ++ [sc.versionID ++ ".json" ++ ".tmp"]) = .ok () :=
      Tree.place_child there (by simp [temporaryFree])
    have undated : ¬ (dated sc.retention.retainUntil ∧ dated now) := by
      intro dates
      have taken := cause _ (if_pos dates) placed
      exact absurd (noDir.symm.trans taken) (by decide)
    obtain rfl := (same noDir).symm
    change Ends s (os (.remove (p.versionBodyPath sc.key sc.versionID)) >>= _).run _ _
    rw [body_noSlash noSlash]
    have bodyThere : t.look (p.versionsDir sc.key ++ [sc.versionID ++ ".bin"]) =
        some (.file (.bytes data)) := by
      rw [looks, Function.update_self]
    refine Acts.step (ends_remove quiet (by simp) (by simp [bodyThere]) fun reply t' _ looks' => ?_)
    refine failed err now t' later undated ?_
    have absent := Function.update_eq_self (p.versionsDir sc.key ++ [sc.versionID ++ ".bin"])
      (Function.update w.tree.look (p.tempPath sc.key random) none)
    rw [Function.update_of_ne bodyTemp, free.body] at absent
    rw [looks', looks, Function.update_idem, absent]

theorem look_made_self (look : Path → Option (Node Content)) (dir : Path) :
    Tree.made dir look dir = some .dir := if_pos (List.prefix_refl dir)

theorem look_made_child (look : Path → Option (Node Content)) (dir : Path) (name : String) :
    Tree.made dir look (dir ++ [name]) = look (dir ++ [name]) := by
  refine if_neg fun above => ?_
  have length := above.length_le
  rw [List.length_append, List.length_singleton] at length
  omega

/-- A new version is written to a temporary file, which is gone at the end. -/
theorem ends_newVersion (quiet : ¬ s.fails) {mkdirFails tempFails : GoError → GoError}
    {fill : String → Path → Action α} {post : Except GoError α → World → Prop}
    (unblocked : w.tree.blocked (p.versionsDir key) = false)
    (noFile : w.tree.isFile (p.versionsDir key) = false)
    (fills : ∀ new random w', w.Unissued new → w'.issued = new :: w.issued → w'.clock = w.clock →
      w.tree.look (p.tempPath key random) = none →
      w'.tree.look = Function.update (Tree.made (p.versionsDir key) w.tree.look)
        (p.tempPath key random) (some (.file (.bytes []))) →
      Ends s (fill new (p.tempPath key random)).run (fun result w'' =>
        w''.tree.look (p.tempPath key random) ≠ some .dir ∧
        ∀ t, t.look = Function.update w''.tree.look (p.tempPath key random) none →
          post result { w'' with tree := t }) w') :
    Ends s (p.newVersion key mkdirFails tempFails fill).run post w := by
  refine Acts.step (ends_mkdirAll quiet unblocked noFile fun t looks => ?_)
  refine Acts.step (acts_newVersionID trivial fun new unissued => ?_)
  have there : t.look (p.versionsDir key) = some .dir := by
    rw [looks]
    exact look_made_self _ _
  refine Acts.step (ends_createTemp quiet there fun random t' free looks' => ?_)
  refine ends_removing quiet (by simp) (fills new random _ unissued rfl rfl ?_ ?_)
  · rw [looks, look_made_child] at free
    exact free
  · rw [looks', looks]
    rfl

end Versions

section Listing
variable {p : Provider} {s : Setting} {w : World} {key : String}

variable (quiet : ¬ s.fails)
include quiet

theorem ends_openFile {post : Except GoError (Except Errno (Node Content)) → World → Prop}
    (next : post (.ok (w.tree.nodeAt path)) w) : Ends s (os (.openFile path)).run post w :=
  ends_call quiet (by simp) Tree.perform_openFile next

/-- Whether a key has a version of any kind. -/
def Provider.anyVersion (p : Provider) (t : Filesystem.Tree Content) (key : String) : Bool :=
  match t.entries (p.versionsDir key) with
  | .error _ => false
  | .ok entries => entries.any fun entry => hasSuffix entry.1 ".json"

theorem ends_hasAnyVersion {post : Except GoError Bool → World → Prop}
    (next : post (.ok (p.anyVersion w.tree key)) w) :
    Ends s (p.hasAnyVersionLocked key).run post w := by
  refine Acts.step (ends_call quiet (by simp) Tree.perform_readDir ?_)
  unfold Provider.anyVersion at next
  cases found : w.tree.entries (p.versionsDir key) with
  | error err =>
    rw [found] at next
    exact next
  | ok entries =>
    rw [found] at next
    exact next

/-- The sidecars among the entries of a directory. -/
def sidecarsIn (t : Filesystem.Tree Content) (dir : Path) (entries : List (String × Bool)) : List Sidecar :=
  entries.filterMap fun entry =>
    if hasSuffix entry.1 ".json" then (parsed t (join dir [entry.1]) Content.asSidecar).toOption
    else none

theorem ends_loadSidecars {dir : Path} (entries : List (String × Bool))
    {post : Except GoError (List Sidecar) → World → Prop}
    (next : post (.ok (sidecarsIn w.tree dir entries)) w) :
    Ends s (Provider.loadSidecars dir entries).run post w := by
  induction entries generalizing post with
  | nil => exact next
  | cons entry rest ih =>
    obtain ⟨name, isDir⟩ := entry
    rw [Provider.loadSidecars]
    unfold sidecarsIn at next
    rw [List.filterMap_cons] at next
    split
    · rename_i json
      simp only [json, if_true] at next
      refine Acts.step (ends_readJSON quiet ?_)
      cases read : parsed w.tree (join dir [name]) Content.asSidecar with
      | error err =>
        rw [read] at next
        exact ih next
      | ok sc =>
        rw [read] at next
        exact Acts.step (ih next)
    · rename_i json
      simp only [json, Bool.false_eq_true, if_false] at next
      exact ih next

/-- The versions of a key, the oldest first. -/
def Provider.versions (p : Provider) (t : Filesystem.Tree Content) (key : String) :
    Except GoError (List Sidecar) :=
  match t.entries (p.versionsDir key) with
  | .ok entries => .ok (p.sortVersions (sidecarsIn t (p.versionsDir key) entries))
  | .error .notExist => .ok []
  | .error err => .error (.wrap "local_fs_dev: read versions %q: %w" [.str key] (osError err))

theorem ends_listVersions {post : Except GoError (List Sidecar) → World → Prop}
    (next : post (p.versions w.tree key) w) : Ends s (p.listVersionsLocked key).run post w := by
  refine Acts.step (ends_call quiet (by simp) Tree.perform_readDir ?_)
  unfold Provider.versions at next
  match found : w.tree.entries (p.versionsDir key) with
  | .ok entries =>
    rw [found] at next
    exact Acts.step (ends_loadSidecars quiet entries next)
  | .error .notExist =>
    rw [found] at next
    exact next
  | .error .notDir =>
    rw [found] at next
    exact next
  | .error .isDir =>
    rw [found] at next
    exact next
  | .error .notEmpty =>
    rw [found] at next
    exact next
  | .error (.failed reason) =>
    rw [found] at next
    exact next

end Listing
end KDrive.LocalFsDev
