import KDrive.Server.Backends
import KDrive.Server.Ownership

/-! Whether what a commit promises can be downloaded. The handler looks for the new blob keys in
the blob store and for the reused ones only among the registered rows, and registering looks for
nothing; so the promise rests on what clients register and when. Requests of all four kinds are
interleaved, with uploads into the blob store and removals from it in between. -/
namespace KDrive.Server
open Go Interaction Metadata

/-- The blob store has an object under the key. -/
def Present (w : World) (key : String) : Prop := w.head key = .ok ()

instance (w : World) (key : String) : Decidable (Present w key) :=
  match found : w.head key with
  | .ok () => .isTrue found
  | .error _ => .isFalse fun present => by rw [Present, found] at present; cases present

/-- What a HEAD of the key answers from now on. -/
structure StoreChange where
  key : String
  head : Except GoError Unit

/-- Unless `removes`, objects only come. -/
def dedupDriver (limits : Limits) (removes : Bool) :
    Driver contentInterface World DedupRequest Luck StoreChange where
  serve _ luck w q := w.serve limits luck q
  starts w _ := some w
  change c w :=
    if removes || c.head.isOk then some { w with head := Function.update w.head c.key c.head }
    else none

def deduping (limits : Limits) (g : Gateway) (removes : Bool)
    (admits : Admission contentInterface World DedupRequest) :
    Machine contentInterface World DedupRequest Response :=
  (dedupDriver limits removes).machine (handleDedup g) (fun _ => True) admits

/-- Chunks are registered when their objects are in the blob store. -/
def UploadedAt (w : World) : ContentCall → Prop
  | .insertChunks _ chunks => ∀ c ∈ chunks, Present w c.blobKey
  | .putMem _ content => (∀ key ∈ content.blobKeys, Present w key) ∧
      ∀ c ∈ content.chunks, Present w c.blobKey
  | _ => True

def Uploaded : Admission contentInterface World DedupRequest := fun _ _ w q _ => UploadedAt w q

/-- There are objects for the keys of the request and for those of the content's chunks. -/
structure Downloadable (g : Gateway) (w : World) (body : CommitBody) : Prop where
  reused : ∀ key ∈ body.reusedBlobKeys, Present w key
  new : ∀ key ∈ body.newBlobKeys, Present w key
  chunks : ∀ c ∈ storedChunks g w body.contentID, Present w c.blobKey

/-- Every commit that was answered `committed: true`. -/
def CommitsDownloadable (g : Gateway) (s : System contentInterface World DedupRequest Response) :
    Prop :=
  ∀ r body history versionID deduped new,
    ⟨.commit r, history, .ret ⟨200, .committed versionID deduped new⟩⟩ ∈ s.threads →
    r.body = some body → Downloadable g s.world body

/-- Whatever is registered is there. -/
structure Stocked (w : World) : Prop where
  tables : ∀ contentID c, c ∈ w.tables.chunks contentID → Present w c.blobKey
  mem : ∀ pair ∈ w.mem, (∀ key ∈ pair.2.blobKeys, Present w key) ∧
    ∀ c ∈ pair.2.chunks, Present w c.blobKey

def Lasts (a b : World) : Prop := ∀ key, Present a key → Present b key

def stocking : Discipline World := ⟨Stocked, Lasts, Lasts⟩

theorem stocking_coherent : stocking.Coherent :=
  ⟨fun _ _ there => there, fun first second key there => second key (first key there),
    fun _ guaranteed => guaranteed⟩

section
variable {limits : Limits} {g : Gateway} {removes : Bool} {w w' : World} {q : ContentCall}
  {reply : ContentCall.Reply q}

theorem Stocked.storedChunks (stocked : Stocked w) (g : Gateway) (contentID : String) :
    ∀ c ∈ storedChunks g w contentID, Present w c.blobKey := by
  intro c member
  unfold Server.storedChunks at member
  split at member
  · exact stocked.tables contentID c member
  · cases found : lookupMem w.mem contentID with
    | none => simp [found] at member
    | some content =>
      obtain ⟨⟨key, _⟩, there, rfl⟩ := Option.map_eq_some_iff.mp found
      simp only [found, Option.map_some, Option.getD_some] at member
      exact (stocked.mem _ (List.mem_of_find?_eq_some there)).2 c member

/-- One request. -/
theorem Stocked.serve (stocked : Stocked w) (uploaded : UploadedAt w q)
    (served : w.serve limits luck q = some (reply, w')) : Stocked w' ∧ Lasts w w' := by
  have lasts : Lasts w w' := by
    intro key there
    unfold Present
    rw [(World.serve_fixed served).2]
    exact there
  refine ⟨?_, lasts⟩
  cases q with
  | getMem | rangeMem | head | generateID =>
    cases served
    exact stocked
  | selectEntry | selectAnyEntry | selectChunks | selectHashes =>
    obtain ⟨rfl, -⟩ := query_spec served
    exact stocked
  | putMem key content =>
    cases served
    refine ⟨stocked.tables, fun pair member => ?_⟩
    obtain ⟨rest, put, left, -⟩ := putMemContent_cons w.memMax luck.order key content w.mem
    rw [put] at member
    rcases List.mem_cons.mp member with rfl | old
    · exact uploaded
    · exact stocked.mem pair (left.subset old)
  | insertEntry entry =>
    obtain ⟨-, rfl⟩ | ⟨-, rfl⟩ := execute_spec served
    · exact stocked
    · refine ⟨fun contentID c member => ?_, stocked.mem⟩
      rw [ContentTables.insertEntry_chunks] at member
      exact stocked.tables contentID c member
  | insertChunks contentID chunks =>
    obtain ⟨-, rfl⟩ | ⟨-, rfl⟩ := execute_spec served
    · exact stocked
    · refine ⟨fun other c member => ?_, stocked.mem⟩
      rw [ContentTables.insertChunks_at] at member
      split at member
      · rcases ChunkRows.mem_insertAll member with old | new
        · exact stocked.tables _ c old
        · exact uploaded c new
      · exact stocked.tables other c member

/-- One change of the blob store. -/
theorem Stocked.change (stocked : Stocked w)
    (changed : (dedupDriver limits false).change c w = some w') : Stocked w' ∧ Lasts w w' := by
  simp only [dedupDriver, Bool.false_or] at changed
  split at changed
  · rename_i came
    cases changed
    have lasts : Lasts w { w with head := Function.update w.head c.key c.head } := by
      intro key there
      unfold Present
      by_cases same : key = c.key
      · subst same
        simp only [Function.update_self]
        cases outcome : c.head with
        | ok => rfl
        | error err => simp [outcome, Except.isOk, Except.toBool] at came
      · dsimp only
        rw [Function.update_of_ne same]
        exact there
    refine ⟨⟨fun contentID d member => lasts _ (stocked.tables contentID d member), ?_⟩, lasts⟩
    intro pair member
    obtain ⟨keys, chunks⟩ := stocked.mem pair member
    exact ⟨fun key inside => lasts key (keys key inside),
      fun d inside => lasts _ (chunks d inside)⟩
  · cases changed

end

/-- What a thread has been told, if it is a commit. -/
def commitAnswer (g : Gateway) (op : DedupRequest) (_ : History contentInterface)
    (answer : Response) (w : World) : Prop :=
  ∀ r body versionID deduped new, op = .commit r → r.body = some body →
    answer = ⟨200, .committed versionID deduped new⟩ → Downloadable g w body

/-- What a commit answers stays true. -/
abbrev Honours (limits : Limits) (g : Gateway) (op : DedupRequest) :
    ContentProgram Response → History contentInterface → World → Prop :=
  Assures (deduping limits g false Uploaded) stocking op (commitAnswer g op)

section
variable {limits : Limits} {g : Gateway} {r : Request CommitBody} {w : World}
  {history : History contentInterface} {body : CommitBody} {op : DedupRequest}

/-- A request of a handler, with what the world is when it is served. -/
theorem assures_asked {q : ContentCall} {next : ContentCall.Reply q → ContentProgram Response}
    {post : History contentInterface → Response → World → Prop}
    (rest : ∀ history w₁ luck reply w₂, Lasts w w₁ → Stocked w₁ →
      w₁.serve limits luck q = some (reply, w₂) → Lasts w₁ w₂ →
      Assures (deduping limits g false Uploaded) stocking op post (next reply) history w₂) :
    Assures (deduping limits g false Uploaded) stocking op post (.ask q next) history w := by
  rintro w₁ lasts stocked reply w₂ uploaded ⟨luck, served⟩
  obtain ⟨kept, guaranteed⟩ := stocked.serve uploaded served
  exact ⟨kept, guaranteed, rest _ w₁ luck reply w₂ lasts stocked served guaranteed⟩

theorem assures_uncommitted {answer : Response}
    (otherwise : ∀ versionID deduped new, answer.body ≠ .committed versionID deduped new) :
    Honours limits g op (.ret answer) history w := by
  intro w' _ _ r body versionID deduped new _ _ same
  exact absurd (congrArg Response.body same) (otherwise versionID deduped new)

theorem assures_error {status : Nat} {message : String} :
    Honours limits g op (.ret (writeError status message)) history w :=
  assures_uncommitted (by simp [writeError])

/-- The end of a commit, all keys of which are there. -/
theorem assures_committed (given : r.body = some body)
    (reused : ∀ key ∈ body.reusedBlobKeys, Present w key)
    (new : ∀ key ∈ body.newBlobKeys, Present w key) :
    Honours limits g (.commit r)
      (.ask .generateID fun versionID =>
        .ret ⟨200, .committed versionID body.reusedBlobKeys.length body.newBlobKeys.length⟩)
      history w := by
  apply assures_asked
  intro _ w₁ luck _ w₂ first _ _ second w₃ third stocked r' body' _ _ _ same given' _
  cases same
  rw [given] at given'
  cases given'
  have all : Lasts w w₃ := fun key there => third key (second key (first key there))
  exact ⟨fun key member => all key (reused key member), fun key member => all key (new key member),
    stocked.storedChunks g body.contentID⟩

/-- The new keys are looked for one by one; those found stay. -/
theorem assures_headAll {next : ContentProgram Response} (keys : List String)
    (rest : ∀ history w', Lasts w w' → (∀ key ∈ keys, Present w' key) →
      Honours limits g op next history w') :
    Honours limits g op (headAll next keys) history w := by
  induction keys generalizing history w with
  | nil => exact rest history w (fun _ there => there) (by simp)
  | cons key keys ih =>
    apply assures_asked
    intro history w₁ luck reply w₂ first _ served second
    cases served
    dsimp only
    cases found : w₁.head key with
    | error err =>
      dsimp only
      split <;> exact assures_error
    | ok =>
      apply ih
      intro history w' later others
      refine rest history w' (fun k there => later k (second k (first k there))) ?_
      intro k member
      rcases List.mem_cons.mp member with rfl | member
      · exact later k found
      · exact others k member

theorem assures_reusing (store : g.store = true) (given : r.body = some body) {known : List String}
    (registered : ∀ key ∈ known, Present w key) :
    Honours limits g (.commit r)
      (if body.reusedBlobKeys.all known.contains then commitNew g.store body
        else .ret (writeError 400 "reused blob key not found")) history w := by
  split
  · rename_i all
    have reused : ∀ key ∈ body.reusedBlobKeys, Present w key := fun key member =>
      registered key (by simpa using List.all_eq_true.mp all key member)
    rw [commitNew, if_pos store]
    apply assures_headAll
    intro history w' lasts new
    exact assures_committed given (fun key member => lasts key (reused key member)) new
  · exact assures_error

theorem commit_assures_tables (db : g.metaDB = true) (store : g.store = true)
    (received : r.received = .ok body) :
    Honours limits g (.commit r) (handleUploadCommitDedup g r) history w := by
  have given := Request.received_body received
  rw [handleUploadCommitDedup, answering_eq, received]
  dsimp only
  by_cases other : body.protocol ≠ "KDRV1"
  · rw [if_pos other]
    exact assures_error
  rw [if_neg other]
  simp only [db, if_true, getContentEntry, getContentChunks, Program.ask_bind, Program.ret_bind]
  apply assures_asked
  intro _ _ _ entry w₁ _ _ _ _
  cases scanEntry entry with
  | error err =>
    dsimp only
    split <;> exact assures_error
  | ok row =>
    apply assures_asked
    intro history w₂ luck reply w₃ _ stocked served lasts
    obtain ⟨rfl, rfl | rfl⟩ := query_spec served
    · refine assures_reusing store given fun key member => ?_
      obtain ⟨c, listed, rfl⟩ := List.mem_map.mp member
      split at listed
      · exact stocked.tables body.contentID c listed
      · cases listed
    · exact assures_error

theorem commit_assures_mem (noDB : g.metaDB = false) (store : g.store = true)
    (received : r.received = .ok body) :
    Honours limits g (.commit r) (handleUploadCommitDedup g r) history w := by
  have given := Request.received_body received
  rw [handleUploadCommitDedup, answering_eq, received]
  dsimp only
  by_cases other : body.protocol ≠ "KDRV1"
  · rw [if_pos other]
    exact assures_error
  rw [if_neg other]
  simp only [noDB, Bool.false_eq_true, if_false]
  apply assures_asked
  intro history w₁ luck reply w₂ _ stocked served _
  cases served
  cases found : lookupMem w₁.mem body.contentID with
  | none => exact assures_error
  | some content =>
    dsimp only
    by_cases foreign : content.tenantID ≠ r.tenantID
    · rw [if_pos foreign]
      exact assures_error
    · rw [if_neg foreign]
      obtain ⟨pair, there, rfl⟩ := Option.map_eq_some_iff.mp found
      exact assures_reusing store given (stocked.mem pair (List.mem_of_find?_eq_some there)).1

theorem commit_assures (store : g.store = true) :
    Honours limits g (.commit r) (handleUploadCommitDedup g r) history w := by
  cases received : r.received with
  | error answer =>
    rw [handleUploadCommitDedup, answering_eq, received]
    apply assures_uncommitted
    intro versionID deduped new committed
    have away := Request.refused received
    rw [committed] at away
    simp [turnedAway] at away
  | ok body =>
    cases db : g.metaDB with
    | true => exact commit_assures_tables db store received
    | false => exact commit_assures_mem db store received

end

theorem stocking_composes (limits : Limits) (g : Gateway) (store : g.store = true) :
    Composes (deduping limits g false Uploaded) stocking (commitAnswer g) where
  toCoherent := stocking_coherent
  environment := by
    rintro a b stocked ⟨change, changed⟩
    exact stocked.change changed
  starts := by
    rintro a op b stocked ⟨-, started⟩
    cases started
    refine ⟨stocked, fun _ there => there, ?_⟩
    cases op with
    | commit r => exact commit_assures store
    | check | checkChunks | register =>
      apply Assures.unconcerned
      · rintro history a q reply b stocked uploaded ⟨luck, served⟩
        exact stocked.serve uploaded served
      · intro history answer w r body versionID deduped new same
        cases same

/-- Where chunks are registered after their objects were uploaded, and objects stay, whatever was
committed can be downloaded. -/
theorem commits_downloadable (limits : Limits) (g : Gateway) (store : g.store = true)
    (memMax : Nat) (head : String → Except GoError Unit)
    (run : (deduping limits g false Uploaded).Reaches ⟨.fresh memMax head, []⟩ s) :
    CommitsDownloadable g s := by
  have initial : Stocked (.fresh memMax head) :=
    ⟨fun _ _ member => (by cases member), fun _ member => (by cases member)⟩
  intro r body history versionID deduped new member given
  exact (stocking_composes limits g store).returned initial run member r body versionID deduped new
    rfl given rfl

/-! ### Runs -/

def committing : Request CommitBody := ⟨.post, "a", some ⟨"KDRV1", "file", ["blob"], []⟩⟩

/-- A file of one chunk is registered and committed as a reuse of its one blob. -/
def registerThenCommit (looks : List Luck) (commits : List Luck) :
    List (Move DedupRequest Luck StoreChange) :=
  [Move.start (DedupRequest.register (oneChunk "a" "blob"))] ++ looks.map (.call 0) ++
    [.start (.commit committing)] ++ commits.map (.call 1)

/-- The reused keys of a commit that was answered `committed: true`. -/
def toldReused (t : Thread contentInterface DedupRequest Response) : Option (List String) :=
  match t.op, t.program with
  | .commit r, .ret ⟨200, .committed _ _ _⟩ => r.body.map CommitBody.reusedBlobKeys
  | _, _ => none

theorem committed_of_toldReused {s : System contentInterface World DedupRequest Response}
    (told : keys ∈ s.threads.filterMap toldReused) : ∃ r body history versionID deduped new,
      ⟨.commit r, history, .ret ⟨200, .committed versionID deduped new⟩⟩ ∈ s.threads ∧
        r.body = some body ∧ body.reusedBlobKeys = keys := by
  obtain ⟨⟨op, history, program⟩, there, same⟩ := List.mem_filterMap.mp told
  unfold toldReused at same
  split at same
  · rename_i r versionID deduped new asked answered
    dsimp only at asked answered
    obtain ⟨body, given, rfl⟩ := Option.map_eq_some_iff.mp same
    exact ⟨r, body, history, versionID, deduped, new, asked ▸ answered ▸ there, given, rfl⟩
  · cases same

def checksUploaded (_ : DedupRequest) (_ : History contentInterface) (w : World) :
    (q : ContentCall) → ContentCall.Reply q → Bool
  | .insertChunks _ chunks, _ => chunks.all fun c => decide (Present w c.blobKey)
  | .putMem _ content, _ => (content.blobKeys.all fun key => decide (Present w key)) &&
      content.chunks.all fun c => decide (Present w c.blobKey)
  | _, _ => true

theorem checksUploaded_sound (op : DedupRequest) (history : History contentInterface) (w : World)
    (q : ContentCall) (reply : ContentCall.Reply q)
    (checked : checksUploaded op history w q reply = true) : Uploaded op history w q reply := by
  cases q with
  | insertChunks contentID chunks =>
    intro c member
    exact of_decide_eq_true (List.all_eq_true.mp checked c member)
  | putMem key content =>
    obtain ⟨keys, chunks⟩ := Bool.and_eq_true_iff.mp checked
    exact ⟨fun key member => of_decide_eq_true (List.all_eq_true.mp keys key member),
      fun c member => of_decide_eq_true (List.all_eq_true.mp chunks c member)⟩
  | _ => trivial

/-- A commit of a blob that was never uploaded. -/
theorem missing_committed (g : Gateway) (looks commits : List Luck)
    (committed : ((dedupDriver wideLimits false).follow (handleDedup g) (fun _ _ _ _ _ => true)
      (registerThenCommit looks commits) ⟨.fresh 10 fun _ => .error Blobstore.errNotFound, []⟩).any
        (fun s => s.threads.filterMap toldReused = [["blob"]] && !decide (Present s.world "blob")) =
          true) :
    ∃ s, (deduping wideLimits g false fun _ _ _ _ _ => True).Reaches
      ⟨.fresh 10 fun _ => .error Blobstore.errNotFound, []⟩ s ∧ ¬ CommitsDownloadable g s := by
  obtain ⟨s, run, found⟩ := (dedupDriver wideLimits false).follow_exhibits
    (fun _ _ _ _ _ _ => trivial) (fun _ _ => trivial) committed
  obtain ⟨said, missing⟩ := Bool.and_eq_true_iff.mp found
  have said : s.threads.filterMap toldReused = [["blob"]] := of_decide_eq_true said
  obtain ⟨r, body, history, versionID, deduped, new, member, given, reused⟩ :=
    committed_of_toldReused (by rw [said]; exact List.mem_singleton_self _)
  refine ⟨s, run, fun downloadable => ?_⟩
  have there := (downloadable r body history versionID deduped new member given).reused "blob"
    (by rw [reused]; exact List.mem_singleton_self _)
  simp [there] at missing

/-- Over the tables and over the map, a blob that was never uploaded is committed as reused. -/
theorem commit_of_missing_blob :
    (∃ s, (deduping wideLimits ⟨true, true⟩ false fun _ _ _ _ _ => True).Reaches
      ⟨.fresh 10 fun _ => .error Blobstore.errNotFound, []⟩ s ∧
        ¬ CommitsDownloadable ⟨true, true⟩ s) ∧
    ∃ s, (deduping wideLimits ⟨false, true⟩ false fun _ _ _ _ _ => True).Reaches
      ⟨.fresh 10 fun _ => .error Blobstore.errNotFound, []⟩ s ∧
        ¬ CommitsDownloadable ⟨false, true⟩ s := by
  constructor
  · exact missing_committed ⟨true, true⟩ [{}, {}, {}, {}] [{}, {}, {}] (by decide +kernel)
  · exact missing_committed ⟨false, true⟩ [{}, {}] [{}, {}] (by decide +kernel)

/-- A blob that is uploaded, registered and committed. -/
theorem commits_downloadable_uploaded :
    ∃ s, (deduping wideLimits ⟨true, true⟩ false Uploaded).Reaches
        ⟨.fresh 10 fun _ => .error Blobstore.errNotFound, []⟩ s ∧
      s.threads.filterMap toldReused = [["blob"]] ∧ CommitsDownloadable ⟨true, true⟩ s := by
  have ran : ((dedupDriver wideLimits false).follow (handleDedup ⟨true, true⟩) checksUploaded
      (.change ⟨"blob", .ok ()⟩ :: registerThenCommit [{}, {}, {}, {}] [{}, {}, {}])
      ⟨.fresh 10 fun _ => .error Blobstore.errNotFound, []⟩).any
        (fun s => s.threads.filterMap toldReused = [["blob"]]) = true := by
    decide +kernel
  obtain ⟨s, run, said⟩ := (dedupDriver wideLimits false).follow_exhibits checksUploaded_sound
    (fun _ _ => trivial) ran
  exact ⟨s, run, of_decide_eq_true said,
    commits_downloadable wideLimits ⟨true, true⟩ rfl 10 _ run⟩

end KDrive.Server
