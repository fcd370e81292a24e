import KDrive.Blobio.Rules
import KDrive.Metadata.StatusStore

/-! The pipeline on a status store, with the other store following along. Both are sent the
calls that any number of clients make through the pipeline, in whatever interleaving and with
whatever answers from cache and durable store. -/
namespace KDrive.Metadata
open Go Blobstore Blobio Interaction

/-- What is stored is the same. -/
def Alike (placements : Placements) (statuses : Statuses) : Prop :=
  ∀ b, (placements b).map (Placement.status b) = (statuses b).map placement

/-- A call whose values the columns take as they are, and which puts a time under which the blob
was cached: the one it has if it has one. -/
def Suits (cols : Columns) (statuses : Statuses) : Request → Prop
  | .call (.statusGet _ b) => cols.text b
  | .call (.statusPut _ status) =>
    (cols.text status.blobID ∧ cols.text status.versionID ∧ cols.text status.checksumSHA256 ∧
      cols.text (retentionText status.retention.mode) ∧ cols.indexes [status.blobID] ∧
      cols.indexesChecksum status.checksumSHA256) ∧
    (∀ t ∈ [status.cachedAt, status.durableAt, status.retention.retainUntil], t ≠ 0 →
      cols.stamp t = some t) ∧
    status.cachedAt ≠ 0 ∧
    ∀ row ∈ statuses status.blobID, row.cachedAt = status.cachedAt
  | .call (.markDurable _ b versionID _ checksum durableAt) =>
    (cols.text b ∧ cols.text versionID ∧ cols.text checksum) ∧ cols.indexesChecksum checksum ∧
      cols.stamp durableAt = some durableAt
  | _ => True

instance (cols : Columns) (statuses : Statuses) (q : Request) :
    Decidable (Suits cols statuses q) :=
  match q with
  | .call (.statusGet ..) => inferInstanceAs (Decidable (_ = _))
  | .call (.statusPut ..) =>
    inferInstanceAs (Decidable ((_ ∧ _) ∧ (∀ t ∈ [_, _, _], _) ∧ _ ∧ ∀ row ∈ (_ : Option _), _))
  | .call (.markDurable ..) => inferInstanceAs (Decidable ((_ ∧ _) ∧ _ ∧ _))
  | .call (.cacheGet ..) | .call (.cachePut ..) | .call (.cacheEvict ..) | .call (.storePut ..)
  | .call (.storeGet ..) | .call (.storeHead ..) | .call (.createMultipart ..)
  | .call (.uploadPart ..) | .call (.completeMultipart ..) | .call (.abortMultipart _) | .join ..
  | .await .. | .publish .. | .closeDone .. | .delete .. | .go _ | .lifecycleErr | .now =>
    .isTrue trivial

section
variable {cols : Columns} {placements placements' : Placements} {statuses statuses' : Statuses}

theorem stampNull_nullTime (t : Time) (kept : t ≠ 0 → cols.stamp t = some t) :
    cols.stampNull (nullTime t) = some (nullTime t) := by
  by_cases zero : t = 0
  · simp [nullTime, zero, Columns.stampNull]
  · simp [nullTime, zero, Columns.stampNull, kept zero]

theorem nullTime_getD (t : Time) : (nullTime t).getD 0 = t := by
  by_cases zero : t = 0 <;> simp [nullTime, zero]

theorem nullString_getD (s : String) : (nullString s).getD "" = s := by
  by_cases empty : s = "" <;> simp [nullString, empty]

/-- A status whose values are taken as they are is inserted as it is. -/
theorem Columns.row_suits {ctx : Context} {status : BlobStatus}
    (suits : Suits cols statuses (.call (.statusPut ctx status))) :
    ∃ row, cols.row status = some row ∧ row.cachedAt = status.cachedAt ∧
      row.status status.blobID = placement status := by
  obtain ⟨texts, times, cached, -⟩ := suits
  have cachedAt : nullTime status.cachedAt = some status.cachedAt := by simp [nullTime, cached]
  have stamped := times status.cachedAt (by simp) cached
  have durableAt := stampNull_nullTime status.durableAt (times _ (by simp))
  have retainUntil := stampNull_nullTime status.retention.retainUntil (times _ (by simp))
  have inserted : cols.row status = some
      { commitState := status.commitState
        blobVersionID := nullString status.versionID
        sizeBytes := status.size
        checksumSHA256 := status.checksumSHA256
        cachedAt := status.cachedAt
        durableAt := nullTime status.durableAt
        retentionMode := status.retention.mode
        retainUntil := nullTime status.retention.retainUntil
        legalHold := status.retention.legalHold } := by
    simp [Columns.row, texts, cachedAt, stamped, durableAt, retainUntil]
  refine ⟨_, inserted, rfl, ?_⟩
  simp [Placement.status, placement, nullTime_getD, nullString_getD]

theorem get_alike (ctx : Context) (alike : Alike placements statuses) {b : String}
    (text : cols.text b = true) :
    shown (.statusGet ctx b) (PostgresStatusStore.get cols placements b) =
      shown (.statusGet ctx b) (.ok (statuses b)) := by
  simp only [PostgresStatusStore.get, if_pos text, shown, ← alike b, Option.map_map]
  rfl

theorem put_alike (alike : Alike placements statuses) {status : BlobStatus}
    (suits : Suits cols statuses (.call (.statusPut ctx status))) :
    ∃ stored, PostgresStatusStore.put cols placements status = (none, stored) ∧
      Alike stored (Function.update statuses status.blobID (some status)) := by
  obtain ⟨row, inserted, cachedAt, shows⟩ := Columns.row_suits suits
  have kept : ((placements status.blobID).map Placement.cachedAt).getD row.cachedAt =
      row.cachedAt := by
    have same := alike status.blobID
    cases found : placements status.blobID with
    | none => rfl
    | some old =>
      rw [found] at same
      obtain ⟨current, stored, shown⟩ := Option.map_eq_some_iff.mp same.symm
      have times : current.cachedAt = old.cachedAt := congrArg BlobStatus.cachedAt shown
      rw [Option.map_some, Option.getD_some, ← times, cachedAt, suits.2.2.2 current stored]
  simp only [PostgresStatusStore.put, inserted, kept]
  refine ⟨_, rfl, fun b => ?_⟩
  by_cases same : b = status.blobID
  · subst same
    simp [shows]
  · simpa [Function.update_of_ne same] using alike b

theorem markDurable_alike (alike : Alike placements statuses)
    (suits : Suits cols statuses (.call (.markDurable ctx b versionID size checksum durableAt)))
    (row : (statuses b).isSome) :
    ∃ marked, PostgresStatusStore.markDurable cols placements b versionID size checksum durableAt =
        (none, marked) ∧
      Alike marked (Blobio.markDurable statuses b versionID size checksum durableAt) := by
  obtain ⟨current, stored⟩ := Option.isSome_iff_exists.mp row
  have same := alike b
  rw [stored] at same
  obtain ⟨old, found, shown⟩ := Option.map_eq_some_iff.mp same
  simp only [PostgresStatusStore.markDurable, if_pos suits.1, suits.2, found]
  refine ⟨_, rfl, fun other => ?_⟩
  rw [markDurable_apply]
  by_cases here : other = b
  · subst here
    simp only [Function.update_self, Option.map_some, if_true, stored, Option.some.injEq]
    have retention := congrArg BlobStatus.retention shown
    have cachedAt := congrArg BlobStatus.cachedAt shown
    have blobID := congrArg BlobStatus.blobID shown
    simp only [Placement.status, placement] at retention cachedAt blobID ⊢
    simp [retention, cachedAt, ← blobID, nullString_getD]
  · simpa [Function.update_of_ne here, here] using alike other

end

/-- Both stores, what they answered to the calls so far, oldest first, and the goroutines that
Reads have left behind. -/
structure Stores where
  placements : Placements := fun _ => none
  statuses : Statuses := fun _ => none
  exchanges : List (Shown × Shown) := []
  fills : List Fill := []

/-- The store whose answers the pipeline gets. -/
inductive Backend where
  | postgres
  | memory
  deriving DecidableEq

def Backend.pick {α : Type} (backend : Backend) (postgres memory : α) : α :=
  match backend with
  | .postgres => postgres
  | .memory => memory

/-- What everything but the status store answers. -/
abbrev Surroundings := (q : Request) → q.Reply

def Stores.serve (cols : Columns) (backend : Backend) (others : Surroundings) :
    Executor pipeline Stores
  | w, .call c =>
    match postgresServes cols w.placements c, memoryServes w.statuses c with
    | some (asked, placements), some (followed, statuses) =>
      some (.returned (backend.pick asked followed), { w with
        placements, statuses, exchanges := w.exchanges ++ [(shown c asked, shown c followed)] })
    | _, _ => some (others (.call c), w)
  | w, .go fill => some ((), { w with fills := w.fills ++ [fill] })
  | w, q => some (others q, w)

def Stores.starts (w : Stores) : Operation → Option Stores
  | .fill task => if task ∈ w.fills then some { w with fills := w.fills.erase task } else none
  | _ => some w

def following (cols : Columns) (backend : Backend) :
    Driver pipeline Stores Operation Surroundings Empty where
  serve _ := Stores.serve cols backend
  starts := Stores.starts
  change c _ := c.elim

/-- The calls that clients can make the pipeline issue, restricted to runs that `admits`. -/
def issuing (cols : Columns) (backend : Backend) (cfg : Config)
    (admits : Admission pipeline Stores Operation) :
    Machine pipeline Stores Operation (Except String Answer) :=
  (following cols backend).machine (fun op => (op.body cfg).run) (fun _ => True) admits

/-- Every call on the status store suits it. -/
def AllSuit (cols : Columns) : Admission pipeline Stores Operation := fun _ _ w q _ =>
  Suits cols w.statuses q

def Stores.Agree (w : Stores) : Prop :=
  Alike w.placements w.statuses ∧ ∀ e ∈ w.exchanges, e.1 = e.2

/-- Rows stay. -/
def agreement : Discipline Stores where
  invariant := Stores.Agree
  rely w w' := ∀ b, (w.statuses b).isSome → (w'.statuses b).isSome
  guarantee w w' := ∀ b, (w.statuses b).isSome → (w'.statuses b).isSome

theorem agreement_coherent : agreement.Coherent where
  refl _ _ row := row
  trans first second b row := second b (first b row)
  covers _ kept := kept

section
variable {cols : Columns} {backend : Backend} {w w' : Stores}

theorem Alike.isSome_iff {placements : Placements} {statuses : Statuses}
    (alike : Alike placements statuses) (b : String) :
    (placements b).isSome = (statuses b).isSome := by
  have same := congrArg Option.isSome (alike b)
  simpa using same

theorem Stores.Agree.exchange (agree : w.Agree) {placements : Placements} {statuses : Statuses}
    {shown : Shown} (alike : Alike placements statuses) :
    Stores.Agree { w with placements, statuses, exchanges := w.exchanges ++ [(shown, shown)] } := by
  refine ⟨alike, fun e member => ?_⟩
  rcases List.mem_append.mp member with earlier | last
  · exact agree.2 e earlier
  · rw [List.mem_singleton.mp last]

/-- One request that suits, and marks as durable only what is there. -/
theorem served_agree (others : Surroundings) {q : Request} {reply : q.Reply} (agree : w.Agree)
    (suits : Suits cols w.statuses q)
    (row : ∀ ctx b versionID size checksum durableAt,
      q = .call (.markDurable ctx b versionID size checksum durableAt) → (w.statuses b).isSome)
    (step : Stores.serve cols backend others w q = some (reply, w')) :
    w'.Agree ∧ ∀ b, (w.statuses b).isSome → (w'.statuses b).isSome := by
  cases q with
  | call c =>
    cases c with
    | statusGet ctx b =>
      obtain ⟨-, rfl⟩ := Prod.mk.inj (Option.some.inj step)
      rw [get_alike ctx agree.1 suits]
      exact ⟨agree.exchange agree.1, fun _ row => row⟩
    | statusPut ctx status =>
      obtain ⟨stored, ran, alike⟩ := put_alike agree.1 suits
      simp only [Stores.serve, postgresServes, memoryServes, ran] at step
      obtain ⟨-, rfl⟩ := Prod.mk.inj (Option.some.inj step)
      refine ⟨agree.exchange alike, fun b row => ?_⟩
      by_cases same : b = status.blobID
      · simp [same]
      · simpa [Function.update_of_ne same] using row
    | markDurable ctx b versionID size checksum durableAt =>
      obtain ⟨marked, ran, alike⟩ := markDurable_alike agree.1 suits (row _ _ _ _ _ _ rfl)
      simp only [Stores.serve, postgresServes, memoryServes, ran] at step
      obtain ⟨-, rfl⟩ := Prod.mk.inj (Option.some.inj step)
      refine ⟨agree.exchange alike, fun other row => ?_⟩
      simp only [markDurable_apply]
      split
      · rename_i same
        simpa [same] using row
      · exact row
    | _ =>
      obtain ⟨-, rfl⟩ := Prod.mk.inj (Option.some.inj step)
      exact ⟨agree, fun _ row => row⟩
  | _ =>
    obtain ⟨-, rfl⟩ := Prod.mk.inj (Option.some.inj step)
    exact ⟨agree, fun _ row => row⟩

/-- Whoever asks, a status that is found is in both stores. -/
theorem found_row (others : Surroundings) (agree : w.Agree) {status : BlobStatus}
    (step : Stores.serve cols backend others w (.call (.statusGet ctx b)) =
      some (.returned (.ok (some status)), w')) : (w'.statuses b).isSome := by
  obtain ⟨told, rfl⟩ := Prod.mk.inj (Option.some.inj step)
  have found := Outcome.returned.inj told
  cases backend with
  | memory =>
    have stored : w.statuses b = some status := Except.ok.inj found
    simp [stored]
  | postgres =>
    simp only [Backend.pick, PostgresStatusStore.get] at found
    split at found
    · obtain ⟨row, stored, -⟩ := Option.map_eq_some_iff.mp (Except.ok.inj found)
      rw [← agree.1.isSome_iff b]
      simp [stored]
    · cases found

end

section Programs
variable {cols : Columns} {backend : Backend} {cfg : Config} {op : Operation} {rows : List String}

/-- Where these rows are there, the action marks nothing as durable that is not. -/
def Issues (cols : Columns) (backend : Backend) (cfg : Config) (op : Operation)
    (rows : List String) (x : Action α) : Prop :=
  ∀ history w, w.Agree → (∀ b ∈ rows, (w.statuses b).isSome) →
    Ensures (issuing cols backend cfg (AllSuit cols)) agreement op x history w fun _ _ _ => True

theorem Issues.pure (value : α) : Issues cols backend cfg op rows (pure value) :=
  fun _ _ _ _ _ _ _ => trivial

theorem Issues.throw (message : String) :
    Issues cols backend cfg op rows (throw message : Action α) :=
  fun _ _ _ _ _ _ _ => trivial

theorem Issues.bind {x : Action α} {f : α → Action β} (first : Issues cols backend cfg op rows x)
    (next : ∀ value, Issues cols backend cfg op rows (f value)) :
    Issues cols backend cfg op rows (x >>= f) := by
  intro history w agree present
  apply Ensures.bind agreement_coherent.refl agree
  refine Assures.mono ?_ (Assures.frame agreement_coherent (first history w agree present))
  rintro history result w' agree' ⟨kept, -⟩
  cases result with
  | ok value => exact next value history w' agree' fun b member => kept b (present b member)
  | error message => exact fun _ _ _ => trivial

theorem Issues.recovered {x : Action α} (issues : Issues cols backend cfg op rows x) :
    Issues cols backend cfg op rows (recovered x) :=
  fun history w agree present => Ensures.recovered (issues history w agree present)

theorem Issues.call {c : Call} (row : ∀ ctx b versionID size checksum durableAt,
      c = .markDurable ctx b versionID size checksum durableAt → b ∈ rows) :
    Issues cols backend cfg op rows (call c) := by
  intro history w agree present
  apply Ensures.call
  rintro w₁ kept agree₁ reply w₂ suits ⟨others, step⟩
  have there : ∀ ctx b versionID size checksum durableAt,
      Request.call c = .call (.markDurable ctx b versionID size checksum durableAt) →
      (w₁.statuses b).isSome := by
    intro ctx b versionID size checksum durableAt same
    injection same with same
    exact kept b (present b (row _ _ _ _ _ _ same))
  obtain ⟨agree₂, stay⟩ := served_agree others agree₁ suits there step
  refine ⟨agree₂, stay, fun w₃ _ _ => ?_⟩
  cases reply <;> trivial

theorem Issues.mark (row : b ∈ rows) : Issues cols backend cfg op rows
      (Blobio.call (.markDurable ctx b versionID size checksum durableAt)) := by
  apply Issues.call
  intro _ _ _ _ _ _ same
  cases same
  exact row

theorem Issues.access {q : Request} (own : ∀ c, q ≠ .call c) :
    Issues cols backend cfg op rows (access q) := by
  intro history w agree present
  apply Ensures.access
  rintro w₁ kept agree₁ reply w₂ suits ⟨others, step⟩
  obtain ⟨agree₂, stay⟩ := served_agree others agree₁ suits
    (fun _ _ _ _ _ _ same => absurd same (own _)) step
  exact ⟨agree₂, stay, fun w₃ _ _ => trivial⟩

/-- After a lookup that found a status, its row is there. -/
theorem Issues.lookup {f : Except GoError (Option BlobStatus) → Action α}
    (missing : ∀ found, (∀ status, found ≠ .ok (some status)) →
      Issues cols backend cfg op rows (f found))
    (present : ∀ status, Issues cols backend cfg op (b :: rows) (f (.ok (some status)))) :
    Issues cols backend cfg op rows (Blobio.call (.statusGet ctx b) >>= f) := by
  intro history w agree rowed
  apply Ensures.bind agreement_coherent.refl agree
  apply Ensures.call
  rintro w₁ kept agree₁ reply w₂ suits ⟨others, step⟩
  have suits : Suits cols w₁.statuses (.call (.statusGet ctx b)) := suits
  obtain ⟨agree₂, stay⟩ := served_agree others agree₁ suits (fun _ _ _ _ _ _ same => by cases same) step
  have rowed₂ : ∀ b ∈ rows, (w₂.statuses b).isSome :=
    fun b member => stay b (kept b (rowed b member))
  refine ⟨agree₂, stay, fun w₃ kept₃ agree₃ => ?_⟩
  have rowed₃ : ∀ b ∈ rows, (w₃.statuses b).isSome :=
    fun b member => kept₃ b (rowed₂ b member)
  cases reply with
  | panicked message => exact fun _ _ _ => trivial
  | returned found =>
    by_cases hit : ∃ status, found = .ok (some status)
    · obtain ⟨status, rfl⟩ := hit
      have here := kept₃ b (found_row others agree₁ step)
      exact present status _ w₃ agree₃ (List.forall_mem_cons.mpr ⟨here, rowed₃⟩)
    · exact missing found (fun status same => hit ⟨status, same⟩) _ w₃ agree₃ rowed₃

theorem issues_land (table : Table) (b : String) (flight : Nat) :
    Issues cols backend cfg op rows (land table b flight) := by
  apply Issues.bind (Issues.access (by simp))
  intro _
  exact Issues.access (by simp)

/-- The single flight around a restore or a promotion. -/
theorem issues_published (table : Table) (b : String) (flight : Nat) (err : Option GoError)
    (body : Bytes) (info : ObjectMeta) {rest : Action α}
    (issues : Issues cols backend cfg op rows rest) :
    Issues cols backend cfg op rows (do
      Blobio.access (.publish table flight err body info)
      land table b flight
      rest) := by
  apply Issues.bind (Issues.access (by simp))
  intro _
  apply Issues.bind (issues_land table b flight)
  intro _
  exact issues

section
variable (ctx : Context) (b : String)

theorem issues_restoreFromL2 : Issues cols backend cfg op rows (restoreFromL2 cfg ctx b) := by
  apply Issues.bind (Issues.access (by simp))
  intro joined
  cases joined with
  | waits flight =>
    apply Issues.bind (Issues.access (by simp))
    intro waited
    cases waited with
    | error err => exact .pure _
    | ok record =>
      dsimp only
      split <;> exact .pure _
  | leads flight =>
    apply Issues.bind (Issues.recovered (Issues.call (by simp)))
    intro answered
    cases answered with
    | error message => exact issues_published _ _ _ _ _ _ (.pure _)
    | ok answer =>
      dsimp only
      split
      · exact issues_published _ _ _ _ _ _ (.pure _)
      · exact issues_published _ _ _ _ _ _ (.pure _)

theorem issues_promoteSingle (r : Reader) (status : BlobStatus) :
    Issues cols backend cfg op rows (promoteSingle ctx b r status) := by
  apply Issues.bind (Issues.call (by simp))
  intro answered
  cases answered with
  | error err => exact .pure _
  | ok result =>
    dsimp only
    split <;> exact .pure _

theorem issues_uploadParts (upload : MultipartUpload) (partSize : Nat)
    (data : Bytes) (parts : List Nat) :
    Issues cols backend cfg op rows (uploadParts ctx upload partSize data parts) := by
  induction parts with
  | nil => exact .pure _
  | cons i rest ih =>
    apply Issues.bind (Issues.call (by simp))
    intro answered
    cases answered with
    | error err => exact .pure _
    | ok part =>
      apply Issues.bind ih
      intro result
      cases result <;> exact .pure _

theorem issues_completeParts (upload : MultipartUpload) (data : Bytes)
    (status : BlobStatus) (parts : List CompletedPart) (missing : Option Int) :
    Issues cols backend cfg op rows (completeParts ctx upload data status parts missing) := by
  cases missing with
  | some n => exact .pure _
  | none =>
    unfold completeParts
    dsimp only
    split
    · exact .pure _
    · apply Issues.bind (Issues.call (by simp))
      intro answered
      cases answered <;> exact .pure _

theorem issues_sendParts (upload : MultipartUpload) (r : Reader)
    (status : BlobStatus) : Issues cols backend cfg op rows (sendParts ctx upload r status) := by
  apply Issues.bind (issues_uploadParts _ _ _ _ _)
  intro sent
  cases sent with
  | error err => exact .pure _
  | ok parts =>
    dsimp only
    split
    · exact .pure _
    · exact issues_completeParts _ _ _ _ _ _

theorem issues_promoteMultipart (r : Reader) (status : BlobStatus) :
    Issues cols backend cfg op rows (promoteMultipart ctx b r status) := by
  apply Issues.bind (Issues.call (by simp))
  intro created
  cases created with
  | error err => exact .pure _
  | ok upload =>
    apply Issues.bind (Issues.recovered (issues_sendParts _ _ _ _))
    intro sent
    cases sent with
    | error message =>
      apply Issues.bind (Issues.call (by simp))
      intro _
      exact .throw message
    | ok result =>
      cases result with
      | ok res => exact .pure _
      | error err =>
        apply Issues.bind (Issues.call (by simp))
        intro _
        exact .pure _

theorem issues_clearProtection (status : BlobStatus) :
    Issues cols backend cfg op rows (clearProtection ctx b status) := by
  apply Issues.bind (Issues.call (by simp))
  intro found
  cases found with
  | error err => exact .pure _
  | ok entry =>
    apply Issues.bind (Issues.call (by simp))
    intro _
    exact .pure _

theorem issues_sendBody (r : Reader) (status : BlobStatus) :
    Issues cols backend cfg op rows (sendBody ctx b r status) := by
  unfold sendBody
  split
  · exact issues_promoteMultipart _ _ _ _
  · exact issues_promoteSingle _ _ _ _

theorem issues_upload (status : BlobStatus) :
    Issues cols backend cfg op (b :: rows) (upload ctx b status) := by
  apply Issues.bind (Issues.call (by simp))
  intro found
  cases found with
  | error err => exact .pure _
  | ok entry =>
    apply Issues.bind (issues_sendBody _ _ _ _)
    intro sent
    cases sent with
    | error err => exact .pure _
    | ok res =>
      apply Issues.bind (Issues.mark List.mem_cons_self)
      intro marked
      cases marked with
      | some err => exact .pure _
      | none =>
        apply Issues.bind (issues_clearProtection _ _ _)
        intro _
        exact .pure _

theorem issues_promoteLocked : Issues cols backend cfg op rows (promoteLocked ctx b) := by
  apply Issues.lookup
  · intro found missed
    match found with
    | .error err => exact .pure _
    | .ok none => exact .pure _
    | .ok (some status) => exact absurd rfl (missed status)
  · intro status
    dsimp only
    split
    · exact .pure _
    · apply Issues.bind (Issues.call (by simp))
      intro answered
      split
      · apply Issues.bind (Issues.access (by simp))
        intro now
        apply Issues.bind (Issues.mark List.mem_cons_self)
        intro marked
        cases marked <;> exact .pure _
      · exact issues_upload ctx b status

theorem issues_promote : Issues cols backend cfg op rows (promote ctx b) := by
  apply Issues.bind (Issues.access (by simp))
  intro joined
  cases joined with
  | waits flight =>
    apply Issues.bind (Issues.access (by simp))
    intro waited
    cases waited <;> exact .pure _
  | leads flight =>
    apply Issues.bind (Issues.recovered (issues_promoteLocked ctx b))
    intro outcome
    cases outcome with
    | error message => exact issues_published _ _ _ _ _ _ (.pure _)
    | ok err => exact issues_published _ _ _ _ _ _ (.pure _)

theorem issues_write (body : Bytes) (opts : WriteOptions) :
    Issues cols backend cfg op rows (write ctx b body opts) := by
  unfold write
  split
  · exact .pure _
  apply Issues.bind (Issues.call (by simp))
  intro cached
  cases cached with
  | some err => exact .pure _
  | none =>
    apply Issues.bind (Issues.access (by simp))
    intro now
    apply Issues.bind (Issues.call (by simp))
    intro stored
    cases stored with
    | some err => exact .pure _
    | none =>
      dsimp only
      split
      · apply Issues.bind (issues_promote ctx b)
        intro promoted
        cases promoted <;> exact .pure _
      · exact .pure _

theorem issues_fillCache (fill : Fill) : Issues cols backend cfg op rows (fillCache fill) := by
  apply Issues.bind (Issues.access (by simp))
  intro ended
  cases ended with
  | some err => exact .pure _
  | none =>
    apply Issues.bind (Issues.call (by simp))
    intro _
    apply Issues.bind (Issues.call (by simp))
    intro _
    exact .pure _

theorem issues_read : Issues cols backend cfg op rows (Blobio.read cfg ctx b) := by
  unfold Blobio.read
  split
  · exact .pure _
  apply Issues.bind (Issues.call (by simp))
  intro found
  cases found with
  | ok entry =>
    apply Issues.bind (Issues.call (by simp))
    intro status
    split <;> exact .pure _
  | error err =>
    dsimp only
    split
    · apply Issues.bind (issues_restoreFromL2 ctx b)
      intro restored
      cases restored with
      | error err => exact .pure _
      | ok object =>
        apply Issues.bind (Issues.access (by simp))
        intro _
        exact .pure _
    · exact .pure _

theorem issues_evict : Issues cols backend cfg op rows (evict ctx b) := by
  apply Issues.bind (Issues.call (by simp))
  intro found
  have evicts : Issues cols backend cfg op rows (Blobio.call (.cacheEvict ctx b)) :=
    Issues.call (by simp)
  match found with
  | .error err => exact evicts
  | .ok none => exact evicts
  | .ok (some status) =>
    by_cases durable : status.commitState = .durable
    · simp only [durable, ne_eq, not_true_eq_false]
      exact evicts
    · simp only [durable, ne_eq, not_false_eq_true]
      exact .pure _

end

theorem issues_body (cfg : Config) (op : Operation) :
    Issues cols backend cfg op rows (op.body cfg) := by
  cases op with
  | write ctx b body opts => exact Issues.bind (issues_write ctx b body opts) fun _ => .pure _
  | read ctx b => exact Issues.bind (issues_read ctx b) fun _ => .pure _
  | promote ctx b => exact Issues.bind (issues_promote ctx b) fun _ => .pure _
  | evict ctx b => exact Issues.bind (issues_evict ctx b) fun _ => .pure _
  | fill task => exact Issues.bind (issues_fillCache task) fun _ => .pure _

end Programs

theorem operations_agree (cols : Columns) (backend : Backend) (cfg : Config) :
    Composes (issuing cols backend cfg (AllSuit cols)) agreement fun _ _ _ _ => True where
  toCoherent := agreement_coherent
  environment := by
    rintro a b - ⟨change, -⟩
    exact change.elim
  starts := by
    rintro a op b agree ⟨-, started⟩
    have kept : b.Agree ∧ b.statuses = a.statuses := by
      simp only [following, Stores.starts] at started
      split at started
      · split at started
        · cases started
          exact ⟨agree, rfl⟩
        · cases started
      · cases started
        exact ⟨agree, rfl⟩
    have issues : Issues cols backend cfg op [] (op.body cfg) := issues_body cfg op
    refine ⟨kept.1, fun b row => by rwa [kept.2], ?_⟩
    exact issues [] b kept.1 (fun _ impossible => by cases impossible)

/-- Whatever the pipeline asks of them, and whichever of them it gets its answers from, the two
stores answer the same. -/
theorem stores_agree (cols : Columns) (backend : Backend) (cfg : Config)
    (run : (issuing cols backend cfg (AllSuit cols)).Reaches ⟨{}, []⟩ s) :
    ∀ e ∈ s.world.exchanges, e.1 = e.2 := by
  have empty : Stores.Agree {} := ⟨fun _ => rfl, by simp⟩
  exact ((operations_agree cols backend cfg).invariant empty run).2

/-- Columns that take every text without NUL and every time. -/
def wideColumns : Columns := ⟨fun text => ¬ text.toList.contains '\x00', fun _ => true, some⟩

/-- An entry in the cache, or none, an object in the durable store, or none, and a time. -/
private def meeting (entry : Except GoError (Reader × Hotcache.Metadata))
    (object : Except GoError (Reader × ObjectMeta)) (now : Time) : Surroundings
  | .call (.cacheGet ..) => .returned entry
  | .call (.cachePut ..) | .call (.cacheEvict ..) => .returned (none : Option GoError)
  | .call (.statusGet ..) => .returned (.ok none : Except GoError (Option BlobStatus))
  | .call (.statusPut ..) | .call (.markDurable ..) => .returned (none : Option GoError)
  | .call (.storePut ..) => .returned (.error errNotFound : Except GoError (PutResult × Bytes))
  | .call (.storeGet ..) => .returned object
  | .call (.storeHead ..) => .returned (.error errNotFound : Except GoError ObjectMeta)
  | .call (.createMultipart ..) =>
    .returned (.error errNotFound : Except GoError MultipartUpload)
  | .call (.uploadPart ..) => .returned (.error errNotFound : Except GoError UploadedPart)
  | .call (.completeMultipart ..) => .returned (.error errNotFound : Except GoError PutResult)
  | .call (.abortMultipart _) => .returned (none : Option GoError)
  | .join .. => Joined.leads 0
  | .await .. => (.error errNotFound : Except GoError Flight)
  | .publish .. | .closeDone .. | .delete .. | .go _ => ()
  | .lifecycleErr => (none : Option GoError)
  | .now => now

private def miss : Except GoError (Reader × Hotcache.Metadata) := .error Hotcache.errCacheMiss

private def hit : Except GoError (Reader × Hotcache.Metadata) := .ok (⟨[7], none⟩, {})

private def object : ObjectMeta :=
  { size := 1, checksumSHA256 := checksumSHA256 [7], writeTime := 4 }

private def writing (n : Nat) (now : Time) : List (Move Operation Surroundings Empty) :=
  .start (.write (.caller n) "a" [7] {}) ::
    List.replicate 3 (.call n (meeting miss (.error errNotFound) now))

/-- A Read of a blob that is only in the durable store, and the goroutine it leaves. -/
private def restoring : List (Move Operation Surroundings Empty) :=
  .start (.read (.caller 0) "a") ::
    List.replicate 7 (.call 0 (meeting miss (.ok (⟨[7], none⟩, object)) 5)) ++
    .start (.fill ⟨"a", [7], object⟩) ::
    List.replicate 3 (.call 1 (meeting miss (.error errNotFound) 5))

/-- A Read of a blob that was written twice. -/
private def rewriting : List (Move Operation Surroundings Empty) :=
  writing 0 5 ++ writing 1 9 ++ .start (.read (.caller 2) "a") ::
    List.replicate 2 (.call 2 (meeting hit (.error errNotFound) 9))

private def readingBack : List (Move Operation Surroundings Empty) :=
  writing 0 5 ++ .start (.read (.caller 1) "a") ::
    List.replicate 2 (.call 1 (meeting hit (.error errNotFound) 9))

private theorem exhibits {admits : Admission pipeline Stores Operation}
    (checks : Operation → History pipeline → Stores → (q : Request) → q.Reply → Bool)
    (moves : List (Move Operation Surroundings Empty))
    (sound : ∀ op history w q reply, checks op history w q reply = true →
      admits op history w q reply)
    {p : System pipeline Stores Operation (Except String Answer) → Prop} [DecidablePred p]
    (found : (((following wideColumns .postgres).follow (fun op => (op.body {}).run) checks moves
      ⟨{}, []⟩).any fun s => decide (p s)) = true) :
    ∃ s, (issuing wideColumns .postgres {} admits).Reaches ⟨{}, []⟩ s ∧ p s := by
  have reached : ∃ s, (issuing wideColumns .postgres {} admits).Reaches ⟨{}, []⟩ s ∧
      decide (p s) = true :=
    Driver.follow_exhibits sound (fun _ _ => trivial) found
  obtain ⟨s, run, holds⟩ := reached
  exact ⟨s, run, of_decide_eq_true holds⟩

/-- What a restore records is refused by one store only, and a second Write changes the time of
caching in one store only. -/
theorem stores_disagree :
    (∃ s, (issuing wideColumns .postgres {} fun _ _ _ _ _ => True).Reaches ⟨{}, []⟩ s ∧
      s.world.exchanges = [(.failed, .done)]) ∧
    ∃ s, (issuing wideColumns .postgres {} fun _ _ _ _ _ => True).Reaches ⟨{}, []⟩ s ∧
      ∃ e ∈ s.world.exchanges, e.1 ≠ e.2 := by
  constructor
  · exact exhibits (fun _ _ _ _ _ => true) restoring (fun _ _ _ _ _ _ => trivial)
      (by decide +kernel)
  · exact exhibits (fun _ _ _ _ _ => true) rewriting (fun _ _ _ _ _ _ => trivial)
      (by decide +kernel)

/-- A blob that is written and read back. -/
theorem stores_agree_once : ∃ s,
    (issuing wideColumns .postgres {} (AllSuit wideColumns)).Reaches ⟨{}, []⟩ s ∧
      s.world.exchanges.length = 2 ∧ ∀ e ∈ s.world.exchanges, e.1 = e.2 := by
  obtain ⟨s, run, two⟩ : ∃ s,
      (issuing wideColumns .postgres {} (AllSuit wideColumns)).Reaches ⟨{}, []⟩ s ∧
        s.world.exchanges.length = 2 :=
    exhibits (fun _ _ w q _ => decide (Suits wideColumns w.statuses q)) readingBack
      (fun _ _ _ _ _ checked => of_decide_eq_true checked) (by decide +kernel)
  exact ⟨s, run, two, stores_agree wideColumns .postgres {} run⟩

end KDrive.Metadata
