import KDrive.LocalFsDev.Provider
import KDrive.Interaction.Acts
import KDrive.Interaction.Throughout

/-! The host a `local_fs_dev` provider runs on: its files, its clock and the version IDs
handed out so far, and what the operations of the provider do in it one after another. -/
namespace KDrive.LocalFsDev
open Go Blobstore Filesystem Interaction

structure World where
  tree : Filesystem.Tree Content := {}
  clock : Time := 0
  issued : List String := []

/-- Which readings may follow one of the clock, and whether calls on files may fail for
reasons of their own. -/
structure Setting where
  later : Time → Time → Prop
  fails : Prop

/-- A call that fails may have taken effect or not. -/
def Serves (setting : Setting) (w : World) : (q : Request) → q.Reply → World → Prop
  | .os c, reply, w' =>
    (∃ random, w.tree.free random c ∧ reply = (w.tree.perform random c).1 ∧
      w' = { w with tree := (w.tree.perform random c).2 }) ∨
    setting.fails ∧ (∃ reason, reply = .error (.failed reason)) ∧
      (w' = w ∨ ∃ random, w.tree.free random c ∧
        w' = { w with tree := (w.tree.perform random c).2 })
  | .now, reply, w' => setting.later w.clock reply ∧ w' = { w with clock := reply }
  | .newVersionID, reply, w' => versionText reply.1 reply.2 ∉ w.issued ∧
      w' = { w with issued := versionText reply.1 reply.2 :: w.issued }

def serves (setting : Setting) : Handler host World := Serves setting

/-- Nothing fails, and the clock reads anything. -/
def calm : Setting := ⟨fun _ _ => True, False⟩

/-- Nothing fails, and the clock moves forward between two readings. -/
def ticking : Setting := ⟨(· < ·), False⟩

theorem quiet_calm : ¬ calm.fails := fun fails => fails

theorem quiet_ticking : ¬ ticking.fails := fun fails => fails

inductive Operation where
  | put (req : PutRequest)
  | head (ref : ObjectRef)
  | get (ref : VersionedObjectRef) (range : Option (Int × Int))
  | delete (ref : ObjectRef)
  | purgeAllVersions (ref : ObjectRef)
  | createMultipart (req : MultipartRequest)
  | signUploadPart (upload : MultipartUpload) (partNumber : Int)
  | uploadPart (upload : MultipartUpload) (partNumber : Int) (body : Reader)
  | completeMultipart (req : CompleteRequest)
  | abortMultipart (upload : MultipartUpload)
  | copyWithinProvider (src : VersionedObjectRef) (dstKey : String) (retention : RetentionSpec)
  | getRetention (ref : VersionedObjectRef)
  | updateRetention (ref : VersionedObjectRef) (change : Provider.RetentionChange)
  | setLegalHold (ref : VersionedObjectRef) (enabled : Bool)
  | listObjects (start cursor : String) (maxKeys : Int)
  | listObjectVersions (key : String)
  | deleteVersion (ref : VersionedObjectRef)
  | listMultipartUploads (start cursor : String) (maxKeys : Int)
  | listParts (upload : MultipartUpload) (cursor : String)
  | deleteBatch (refs : List VersionedObjectRef)
  deriving DecidableEq

def Operation.Answer : Operation → Type
  | .put _ | .completeMultipart _ | .copyWithinProvider .. => PutResult
  | .head _ => ObjectMeta
  | .get .. => Reader × ObjectMeta
  | .delete _ | .purgeAllVersions _ | .abortMultipart _ | .deleteVersion _ => Unit
  | .createMultipart _ => MultipartUpload
  | .signUploadPart .. => String × Time
  | .uploadPart .. => UploadedPart
  | .getRetention _ | .updateRetention .. | .setLegalHold .. => RetentionState
  | .listObjects .. => Provider.ObjectPage
  | .listObjectVersions _ => List ObjectMeta
  | .listMultipartUploads .. => Provider.UploadPage
  | .listParts .. => List (Int × Int)
  | .deleteBatch _ => List (VersionedObjectRef × Option GoError)

def Provider.body (p : Provider) : (op : Operation) → Action op.Answer
  | .put req => p.put req
  | .head ref => p.head ref
  | .get ref range => p.get ref range
  | .delete ref => p.delete ref
  | .purgeAllVersions ref => p.purgeAllVersions ref
  | .createMultipart req => p.createMultipart req
  | .signUploadPart upload partNumber => p.signUploadPart upload partNumber
  | .uploadPart upload partNumber body => p.uploadPart upload partNumber body
  | .completeMultipart req => p.completeMultipart req
  | .abortMultipart upload => p.abortMultipart upload
  | .copyWithinProvider src dstKey retention => p.copyWithinProvider src dstKey retention
  | .getRetention ref => p.getRetention ref
  | .updateRetention ref change => p.updateRetention ref change
  | .setLegalHold ref enabled => p.setLegalHold ref enabled
  | .listObjects start cursor maxKeys => p.listObjects start cursor maxKeys
  | .listObjectVersions key => p.listObjectVersions key
  | .deleteVersion ref => p.deleteVersion ref
  | .listMultipartUploads start cursor maxKeys => p.listMultipartUploads start cursor maxKeys
  | .listParts upload cursor => p.listParts upload cursor
  | .deleteBatch refs => p.deleteBatch refs

/-- An operation that has returned. -/
structure Event where
  op : Operation
  answer : Except GoError op.Answer

/-- The operation was called in `w`, answered, and left `w'`. -/
def Provider.Step (p : Provider) (setting : Setting) (w : World) (e : Event) (w' : World) : Prop :=
  Runs (serves setting) w (p.body e.op).run e.answer w'

structure Transition where
  before : World
  event : Event
  after : World

/-- Operations that were called one after another. -/
inductive Provider.History (p : Provider) (setting : Setting) :
    World → List Transition → World → Prop where
  | start : History p setting w [] w
  | step : History p setting w past w₁ → p.Step setting w₁ e w₂ →
      History p setting w (past ++ [⟨w₁, e, w₂⟩]) w₂

theorem Provider.History.cons {p : Provider} (step : p.Step setting w e w₁)
    (history : p.History setting w₁ later w') : p.History setting w (⟨w, e, w₁⟩ :: later) w' := by
  induction history with
  | start => exact .step .start step
  | step _ last ih => exact .step ih last

theorem Provider.History.mem {p : Provider} {t : Transition} (history : p.History setting w past w')
    (member : t ∈ past) : ∃ earlier, p.History setting w earlier t.before ∧
      p.Step setting t.before t.event t.after := by
  induction history with
  | start => contradiction
  | step before last ih =>
    rcases List.mem_append.mp member with earlier | here
    · exact ih earlier
    · rw [List.mem_singleton.mp here]
      exact ⟨_, before, last⟩

section Execution

instance (t : Filesystem.Tree Content) (random : Nat) : (c : Call Content) → Decidable (t.free random c)
  | .createTemp _ _ => inferInstanceAs (Decidable (_ = none))
  | .mkdirAll _ | .create _ | .write .. | .close _ | .rename .. | .remove _ | .removeAll _
  | .openFile _ | .readFile _ | .writeFile .. | .readDir _ | .stat _ => .isTrue trivial

/-- A host whose clock ticks and which counts the version IDs. -/
def execute : Executor host World := fun w q =>
  match q with
  | .os c =>
    if w.tree.free 0 c then some ((w.tree.perform 0 c).1, { w with tree := (w.tree.perform 0 c).2 })
    else none
  | .now => some (w.clock + 1, { w with clock := w.clock + 1 })
  | .newVersionID =>
    let new := versionText 0 w.issued.length
    if new ∈ w.issued then none else some ((0, w.issued.length), { w with issued := new :: w.issued })

theorem calm_ticks : ∀ now, calm.later now (now + 1) := fun _ => trivial

theorem ticking_ticks : ∀ now, ticking.later now (now + 1) := fun now => Int.lt_succ now

theorem execute_serves (ticks : ∀ now, setting.later now (now + 1)) {w w' : World}
    {q : Request} {reply : q.Reply} (done : execute w q = some (reply, w')) :
    serves setting w q reply w' := by
  cases q with
  | os c =>
    simp only [execute] at done
    split at done
    · rename_i free
      cases done
      exact .inl ⟨0, free, rfl, rfl⟩
    · contradiction
  | now =>
    cases done
    exact ⟨ticks w.clock, rfl⟩
  | newVersionID =>
    simp only [execute] at done
    split at done
    · contradiction
    · rename_i unissued
      cases done
      exact ⟨unissued, rfl⟩

/-- The operations one after another on the executable host. -/
def Provider.play (p : Provider) : List Operation → World → Option (List Transition × World)
  | [], w => some ([], w)
  | op :: rest, w =>
    match (p.body op).run.run execute w with
    | none => none
    | some (answer, w₁) =>
      match p.play rest w₁ with
      | none => none
      | some (later, w') => some (⟨w, ⟨op, answer⟩, w₁⟩ :: later, w')

theorem play_history {p : Provider} (ticks : ∀ now, setting.later now (now + 1)) (ops : List Operation)
    (played : p.play ops w = some (past, w')) :
    p.History setting w past w' ∧ past.map (fun t => t.event.op) = ops := by
  induction ops generalizing w past with
  | nil =>
    cases played
    exact ⟨.start, rfl⟩
  | cons op rest ih =>
    simp only [Provider.play] at played
    split at played
    · contradiction
    · rename_i answer w₁ ran
      split at played
      · contradiction
      · rename_i later w₂ rest'
        cases played
        obtain ⟨history, same⟩ := ih rest'
        exact ⟨.cons (Program.run_runs (execute_serves ticks) ran) history, congrArg (op :: ·) same⟩

/-- What a test says of the operations on the executable host. -/
def Provider.plays (p : Provider) (ops : List Operation) (w : World)
    (test : List Transition → World → Bool) : Bool :=
  match p.play ops w with
  | none => false
  | some (past, w') => test past w'

theorem exists_history {p : Provider} (ticks : ∀ now, setting.later now (now + 1))
    {P : List Transition → World → Prop} [∀ past w', Decidable (P past w')]
    (ops : List Operation) (plays : p.plays ops w (fun past w' => decide (P past w')) = true) :
    ∃ past w', p.History setting w past w' ∧ past.map (fun t => t.event.op) = ops ∧
      P past w' := by
  unfold Provider.plays at plays
  split at plays
  · contradiction
  · rename_i past w' played
    obtain ⟨history, same⟩ := play_history ticks ops played
    exact ⟨past, w', history, same, of_decide_eq_true plays⟩

theorem mem_of_played {past : List Transition} (same : past.map (fun t => t.event.op) = ops) :
    ∀ t ∈ past, t.event.op ∈ ops :=
  fun _ member => same ▸ List.mem_map_of_mem member

end Execution

/-- A provider whose sorting is stable. -/
def Provider.rooted (root : Path) : Provider where
  root := root
  sortVersions versions := versions.insertionSort fun first second =>
    first.writeTime ≤ second.writeTime
  sorts versions := by
    have total : Std.Total fun first second : Sidecar => first.writeTime ≤ second.writeTime :=
      ⟨fun first second => Int.le_total _ _⟩
    have trans : IsTrans Sidecar fun first second => first.writeTime ≤ second.writeTime :=
      ⟨fun _ _ _ => Int.le_trans⟩
    exact ⟨List.perm_insertionSort _ _, List.pairwise_insertionSort _ _⟩

/-- A new provider: its root is there and empty, and no version ID was handed out. -/
structure Provider.Fresh (p : Provider) (w : World) : Prop where
  way : ∀ path, path <+: p.root → w.tree.look path = some .dir
  empty : ∀ path, Below p.root path → w.tree.look path = none
  issued : w.issued = []

section Starting
variable {p : Provider}

/-- The root and another directory. -/
def Provider.world (p : Provider) (other : Path) : World :=
  { tree := (Tree.makeDirs {} p.root).makeDirs other }

theorem look_empty (real : path ≠ []) : (({} : Filesystem.Tree Content).look path) = none := by
  rw [Tree.look_of_ne real]
  rfl

theorem world_fresh (outside : ∀ path, Below p.root path → ¬ path <+: other) :
    p.Fresh (p.world other) := by
  refine ⟨fun path above => ?_, fun path below => ?_, rfl⟩
  · rw [Provider.world, Tree.look_makeDirs, Tree.look_makeDirs, if_pos above]
    split <;> rfl
  · have notAbove : ¬ path <+: p.root := fun above =>
      below.2 (above.eq_of_length (Nat.le_antisymm above.length_le below.1.length_le))
    rw [Provider.world, Tree.look_makeDirs, if_neg (outside path below), Tree.look_makeDirs,
      if_neg notAbove]
    refine look_empty fun empty => notAbove ?_
    rw [empty]
    exact List.nil_prefix

theorem world_root_fresh : p.Fresh (p.world p.root) := by
  refine world_fresh fun path below above => below.2 ?_
  exact above.eq_of_length (Nat.le_antisymm above.length_le below.1.length_le)

/-- The provider and the host of the examples. -/
abbrev sample : Provider := .rooted ["data"]

abbrev sampleWorld : World := sample.world ["data"]

end Starting
end KDrive.LocalFsDev
