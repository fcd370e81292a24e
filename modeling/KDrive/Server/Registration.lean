import KDrive.Server.ContentWorld

/-! Registering content over the tables: the entry and its chunks go in by two statements,
either of which can fail. -/
namespace KDrive.Server
open Go Interaction Metadata

/-- A failed statement is not reported as an empty result. -/
structure Luck.Genuine (luck : Luck) : Prop where
  found : luck.err.is errNotFound = false
  rows : luck.err.is errNoRows = false

/-- How statements are served, `admits` being what a run is restricted to. -/
def statements (limits : Limits) (admits : World → ContentCall → Luck → Prop) :
    Handler contentInterface World := fun w q reply w' =>
  ∃ luck : Luck, luck.Genuine ∧ admits w q luck ∧ w.serve limits luck q = some (reply, w')

/-- Anything may fail. -/
def anyFate (_ : World) (_ : ContentCall) (_ : Luck) : Prop := True

/-- Once an entry is in, nothing fails: its own insert is not lost, and the transaction of the
chunks is neither rejected nor failed nor lost. -/
def Unbroken (limits : Limits) (w : World) : ContentCall → Luck → Prop
  | .insertEntry _, luck => luck.fate ≠ .lost
  | q@(.insertChunks ..), luck => limits.accepts w.tables q = true ∧ luck.fate = .done
  | _, _ => True

/-- Register requests of one tenant, one after the other, with their answers. -/
inductive Registrations (limits : Limits) (g : Gateway) (tenantID : String)
    (admits : World → ContentCall → Luck → Prop) (opens : RegisterBody → Prop) :
    World → List (Register × Response) → Prop where
  | none : Registrations limits g tenantID admits opens { memMax := memMax, head := head } []
  | next : Registrations limits g tenantID admits opens w log → r.tenantID = tenantID →
      (∀ body, r.body = some body →
        (body.chunks.map ContentChunk.chunkIndex).Nodup ∧ opens body) →
      Runs (statements limits admits) w (handleContentRegister g r) answer w' →
      Registrations limits g tenantID admits opens w' (log ++ [(r, answer)])

/-- `rows` are the chunks in the order of their indexes. -/
def InIndexOrder (rows chunks : List ContentChunk) : Prop :=
  ChunkRows.Sorted rows ∧ rows.Perm chunks

/-- What `content:check` finds is what one request registered, and someone was told so. -/
def AllOrNothing (limits : Limits) (g : Gateway) (w : World)
    (log : List (Register × Response)) : Prop :=
  ∀ (r : Request String) blobKeys hashes chunkCount plaintextSize w',
    Runs (statements limits anyFate) w (handleContentCheck g r)
      ⟨200, .content blobKeys hashes chunkCount plaintextSize⟩ w' →
    ∃ contentID, r.body = some contentID ∧ ∃ request body rows already,
      (request, ⟨200, .registered contentID already⟩) ∈ log ∧ request.body = some body ∧
        body.contentID = contentID ∧ InIndexOrder rows body.chunks ∧
        blobKeys = rows.map ContentChunk.blobKey ∧
        hashes = rows.map ContentChunk.chunkContentHash

/-- The bodies of the answers that `answering` gives itself. -/
def turnedAway : List Payload :=
  [.empty, .error "method not allowed", .error "missing X-Demo-Tenant header",
    .error "invalid body"]

/-- What `answering` makes of a request before a handler sees it. -/
def Request.received {Body : Type} (r : Request Body) : Except Response Body :=
  match r.method with
  | .options => .error ⟨200, .empty⟩
  | .other => .error (writeError 405 "method not allowed")
  | .post =>
    if r.tenantID = "" then .error (writeError 400 "missing X-Demo-Tenant header")
    else
      match r.body with
      | none => .error (writeError 400 "invalid body")
      | some body => .ok body

theorem answering_eq (r : Request Body) (handler : String → Body → ContentProgram Response) :
    answering r handler =
      match r.received with
      | .error answer => .ret answer
      | .ok body => handler r.tenantID body := by
  unfold answering Request.received
  cases r.method with
  | options => rfl
  | other => rfl
  | post =>
    dsimp only
    split
    · rfl
    · cases r.body <;> rfl

theorem Request.received_body {r : Request Body} {body : Body} (received : r.received = .ok body) :
    r.body = some body := by
  unfold Request.received at received
  split at received
  · cases received
  · cases received
  · split at received
    · cases received
    · cases given : r.body with
      | none => simp [given] at received
      | some other =>
        simp only [given, Except.ok.injEq] at received
        rw [received]

theorem Request.refused {r : Request Body} (refused : r.received = .error answer) :
    answer.body ∈ turnedAway := by
  unfold Request.received at refused
  split at refused
  · cases refused
    decide
  · cases refused
    decide
  · split at refused
    · cases refused
      decide
    · cases given : r.body with
      | none =>
        simp only [given, Except.error.injEq] at refused
        rw [← refused]
        decide
      | some body => simp [given] at refused

/-- A request is turned away before anything is asked, or its handler runs. -/
theorem runs_received {H : Handler contentInterface World} {r : Request Body}
    {handler : String → Body → ContentProgram Response}
    (run : Runs H w (answering r handler) answer w') :
    (r.received = .error answer ∧ w' = w) ∨
      ∃ body, r.received = .ok body ∧ Runs H w (handler r.tenantID body) answer w' := by
  rw [answering_eq] at run
  cases received : r.received with
  | error refusal =>
    simp only [received] at run
    cases run
    exact .inl ⟨rfl, rfl⟩
  | ok body =>
    simp only [received] at run
    exact .inr ⟨body, rfl, run⟩

section
variable {limits : Limits} {admits : World → ContentCall → Luck → Prop}

/-- The tenant's own entry is found, or it is not there, or the search failed. -/
theorem runs_getContentEntry
    (run : Runs (statements limits admits) w (getContentEntry contentID tenantID) found w') :
    w' = w ∧
      ((∃ entry, found = .ok entry ∧ w.tables.entryOf contentID tenantID = some entry) ∨
        (found = .error errNotFound ∧ w.tables.entryOf contentID tenantID = none) ∨
        ∃ err, found = .error err ∧ err.is errNotFound = false) := by
  cases run with
  | ask served rest =>
    obtain ⟨luck, genuine, -, served⟩ := served
    cases rest
    obtain ⟨rfl, rfl | rfl⟩ := query_spec served
    · cases there : w'.tables.entryOf contentID tenantID with
      | none => exact ⟨rfl, .inr (.inl ⟨rfl, rfl⟩)⟩
      | some entry => exact ⟨rfl, .inl ⟨entry, rfl, rfl⟩⟩
    · refine ⟨rfl, .inr (.inr ⟨luck.err, ?_, genuine.found⟩)⟩
      simp [scanEntry, genuine.rows]

theorem runs_getContentEntryByContentID
    (run : Runs (statements limits admits) w (getContentEntryByContentID contentID) found w') :
    w' = w := by
  cases run with
  | ask served rest =>
    obtain ⟨luck, -, -, served⟩ := served
    cases rest
    exact (query_spec served).1

theorem runs_getContentChunks
    (run : Runs (statements limits admits) w (getContentChunks contentID tenantID) (.ok chunks) w')
    (own : (w.tables.entryOf contentID tenantID).isSome) :
    chunks = w.tables.chunks contentID := by
  cases run with
  | ask served rest =>
    obtain ⟨luck, -, -, served⟩ := served
    cases rest
    obtain ⟨-, same | impossible⟩ := query_spec served
    · rw [if_pos own] at same
      exact Except.ok.inj same
    · cases impossible

/-- Under the condition the entry goes in exactly if this is what is reported. -/
theorem runs_createContentEntry
    (run : Runs (statements limits (Unbroken limits)) w (createContentEntry entry) reply w') :
    (w' = w ∧ ∃ err, reply = .error err) ∨
      (reply = .ok () ∧ w' = { w with tables := w.tables.insertEntry entry }) := by
  cases run with
  | ask served rest =>
    obtain ⟨luck, -, kept, served⟩ := served
    cases rest
    simp only [Unbroken] at kept
    simp only [World.serve, execute] at served
    split at served
    · cases fate : luck.fate with
      | done =>
        simp only [fate] at served
        cases served
        exact .inr ⟨rfl, rfl⟩
      | failed =>
        simp only [fate] at served
        cases served
        exact .inl ⟨rfl, luck.err, rfl⟩
      | lost => exact absurd fate kept
    · cases served
      exact .inl ⟨rfl, luck.err, rfl⟩

/-- Where the transaction is neither rejected nor failed, the chunks go in. -/
theorem runs_createContentChunks {admits : World → ContentCall → Luck → Prop}
    (few : chunks.length ≤ maxChunksPerCall)
    (taken : ∀ luck, admits w (.insertChunks contentID chunks) luck →
      limits.accepts w.tables (.insertChunks contentID chunks) = true ∧ luck.fate = .done)
    (run : Runs (statements limits admits) w (createContentChunks contentID chunks) reply w') :
    reply = .ok () ∧ w' = { w with tables := w.tables.insertChunks contentID chunks } := by
  unfold createContentChunks at run
  split at run
  · rename_i empty
    cases run
    obtain rfl := List.length_eq_zero_iff.mp empty
    simp [ContentTables.insertChunks, ChunkRows.insertAll]
  · rw [if_neg (by omega)] at run
    cases run with
    | ask served rest =>
      obtain ⟨luck, -, admitted, served⟩ := served
      obtain ⟨accepted, done⟩ := taken luck admitted
      cases rest
      simp only [World.serve, execute, accepted, if_true, done] at served
      cases served
      exact ⟨rfl, rfl⟩

/-- One request: nothing happens, or everything does and is reported. -/
theorem register_cases {g : Gateway} {r : Register} (db : g.metaDB = true)
    (own : ∀ contentID entry, w.tables.entries contentID = some entry →
      entry.tenantID = r.tenantID)
    (few : ∀ body, r.body = some body → body.chunks.length ≤ maxChunksPerCall)
    (run : Runs (statements limits (Unbroken limits)) w (handleContentRegister g r) answer w') :
    w' = w ∨ ∃ body, r.body = some body ∧ w.tables.entries body.contentID = none ∧
      answer = ⟨200, .registered body.contentID false⟩ ∧
      w' = { w with tables :=
        (w.tables.insertEntry (body.entry r.tenantID)).insertChunks body.contentID body.chunks } := by
  obtain ⟨-, rfl⟩ | ⟨body, received, handled⟩ := runs_received run
  · exact .inl rfl
  have given := Request.received_body received
  simp only [db, if_true] at handled
  obtain ⟨found, w₁, first, afterFirst⟩ := handled.of_bind
  obtain ⟨rfl, ⟨entry, rfl, -⟩ | ⟨rfl, absent⟩ | ⟨err, rfl, other⟩⟩ := runs_getContentEntry first
  · cases afterFirst
    exact .inl rfl
  · have named : errNotFound.is errNotFound = true := by decide
    simp only [named, not_true, if_false] at afterFirst
    obtain ⟨owner, w₂, second, afterSecond⟩ := afterFirst.of_bind
    obtain rfl := runs_getContentEntryByContentID second
    split at afterSecond
    · cases afterSecond
      exact .inl rfl
    · obtain ⟨reply, w₃, third, afterThird⟩ := afterSecond.of_bind
      rcases runs_createContentEntry third with ⟨rfl, err, rfl⟩ | ⟨rfl, rfl⟩
      · cases afterThird
        exact .inl rfl
      · obtain ⟨reply, w₄, fourth, afterFourth⟩ := afterThird.of_bind
        obtain ⟨rfl, rfl⟩ := runs_createContentChunks (few body given) (fun _ kept => kept) fourth
        cases afterFourth
        refine .inr ⟨body, given, ?_, rfl, rfl⟩
        -- Every entry is the tenant's own, so the first search would have found it.
        cases there : w₂.tables.entries body.contentID with
        | none => rfl
        | some entry =>
          simp [ContentTables.entryOf, there, own body.contentID entry there] at absent
  · simp only [other, Bool.false_eq_true, not_false_eq_true, if_true] at afterFirst
    cases afterFirst
    exact .inl rfl

end

/-- A content_id has nothing, or all of what one request brought, and that request was told
so. -/
def Whole (tenantID : String) (w : World) (log : List (Register × Response)) : Prop :=
  ∀ contentID, (w.tables.entries contentID = none ∧ w.tables.chunks contentID = []) ∨
    ∃ entry request body, w.tables.entries contentID = some entry ∧ entry.tenantID = tenantID ∧
      (request, ⟨200, .registered contentID false⟩) ∈ log ∧ request.body = some body ∧
      body.contentID = contentID ∧ InIndexOrder (w.tables.chunks contentID) body.chunks

theorem Whole.own {w : World} (whole : Whole tenantID w log)
    (found : w.tables.entries contentID = some entry) : entry.tenantID = tenantID := by
  rcases whole contentID with ⟨absent, -⟩ | ⟨other, _, _, there, own, -⟩
  · rw [absent] at found
    cases found
  · rw [there] at found
    cases found
    exact own

theorem Whole.logged {w : World} (whole : Whole tenantID w log) (more : List (Register × Response)) :
    Whole tenantID w (log ++ more) := by
  intro contentID
  rcases whole contentID with nothing | ⟨entry, request, body, found, own, told, rest⟩
  · exact .inl nothing
  · exact .inr ⟨entry, request, body, found, own, List.mem_append_left _ told, rest⟩

theorem Whole.registered {w : World} {r : Register} (whole : Whole r.tenantID w log)
    (given : r.body = some body) (absent : w.tables.entries body.contentID = none)
    (distinct : (body.chunks.map ContentChunk.chunkIndex).Nodup) :
    Whole r.tenantID { w with tables :=
        (w.tables.insertEntry (body.entry r.tenantID)).insertChunks body.contentID body.chunks }
      (log ++ [(r, ⟨200, .registered body.contentID false⟩)]) := by
  have inserted : (w.tables.insertEntry (body.entry r.tenantID)).entries =
      Function.update w.tables.entries body.contentID (some (body.entry r.tenantID)) := by
    rw [ContentTables.insertEntry_absent absent]
  intro contentID
  by_cases same : contentID = body.contentID
  · subst same
    refine .inr ⟨body.entry r.tenantID, r, body, ?_, rfl, by simp, given, rfl, ?_⟩
    · simp [ContentTables.insertChunks, inserted]
    · have empty : w.tables.chunks body.contentID = [] := by
        rcases whole body.contentID with ⟨-, empty⟩ | ⟨entry, _, _, found, -⟩
        · exact empty
        · rw [absent] at found
          cases found
      rw [ContentTables.insertChunks_at, if_pos rfl, ContentTables.insertEntry_chunks, empty]
      constructor
      · exact ChunkRows.Sorted.insertAll List.Pairwise.nil body.chunks
      · exact ChunkRows.insertAll_perm (by simpa using distinct)
  · have before := whole.logged [(r, ⟨200, .registered body.contentID false⟩)] contentID
    have entries : ((w.tables.insertEntry (body.entry r.tenantID)).insertChunks body.contentID
        body.chunks).entries contentID = w.tables.entries contentID := by
      simp [ContentTables.insertChunks, inserted, same]
    have chunks : ((w.tables.insertEntry (body.entry r.tenantID)).insertChunks body.contentID
        body.chunks).chunks contentID = w.tables.chunks contentID := by
      rw [ContentTables.insertChunks_at, if_neg same, ContentTables.insertEntry_chunks]
    simpa only [entries, chunks] using before

theorem Registrations.whole {limits : Limits} {g : Gateway} (db : g.metaDB = true)
    (run : Registrations limits g tenantID (Unbroken limits)
      (fun body => body.chunks.length ≤ maxChunksPerCall) w log) : Whole tenantID w log := by
  induction run with
  | none => exact fun contentID => .inl ⟨rfl, rfl⟩
  | @next w log r answer w' before mine opened ran ih =>
    subst mine
    have few (body : RegisterBody) (given : r.body = some body) := (opened body given).2
    rcases register_cases db (fun _ _ found => ih.own found) few ran with
      rfl | ⟨body, given, absent, rfl, rfl⟩
    · exact ih.logged [(r, answer)]
    · exact ih.registered given absent (opened body given).1

theorem check_cases {limits : Limits} {g : Gateway} {r : Request String} (db : g.metaDB = true)
    (run : Runs (statements limits anyFate) w (handleContentCheck g r)
      ⟨200, .content blobKeys hashes chunkCount plaintextSize⟩ w') :
    ∃ contentID entry, r.body = some contentID ∧ w.tables.entries contentID = some entry ∧
      blobKeys = (w.tables.chunks contentID).map ContentChunk.blobKey ∧
      hashes = (w.tables.chunks contentID).map ContentChunk.chunkContentHash := by
  obtain ⟨refused, -⟩ | ⟨contentID, received, handled⟩ := runs_received run
  · have impossible := Request.refused refused
    simp [turnedAway] at impossible
  have given := Request.received_body received
  simp only [db, if_true] at handled
  obtain ⟨found, w₁, first, afterFirst⟩ := handled.of_bind
  obtain ⟨rfl, ⟨entry, rfl, there⟩ | ⟨rfl, -⟩ | ⟨err, rfl, -⟩⟩ := runs_getContentEntry first
  · obtain ⟨reply, w₂, second, afterSecond⟩ := afterFirst.of_bind
    cases reply with
    | error err => cases afterSecond
    | ok chunks =>
      obtain rfl := runs_getContentChunks second (by rw [there]; rfl)
      cases afterSecond
      exact ⟨contentID, entry, given, (Option.filter_eq_some_iff.mp there).1, rfl, rfl⟩
  · cases afterFirst
  · dsimp only at afterFirst
    split at afterFirst
    · cases afterFirst
    · cases afterFirst

/-- If no request has more than 10000 chunks, and from the insert of an entry on nothing of its
request fails, registration is all or nothing. -/
theorem allOrNothing_of_unbroken (limits : Limits) (g : Gateway) (db : g.metaDB = true)
    (run : Registrations limits g tenantID (Unbroken limits)
      (fun body => body.chunks.length ≤ maxChunksPerCall) w log) :
    AllOrNothing limits g w log := by
  intro r blobKeys hashes chunkCount plaintextSize w' check
  obtain ⟨contentID, entry, given, found, rfl, rfl⟩ := check_cases db check
  rcases run.whole db contentID with ⟨absent, -⟩ | ⟨_, request, body, -, -, told, rest⟩
  · rw [absent] at found
    cases found
  · obtain ⟨brought, same, ordered⟩ := rest
    exact ⟨contentID, given, request, body, _, false, told, brought, same, ordered, rfl, rfl⟩

/-- Requests one after the other, computed. -/
def playRegisters (E : Executor contentInterface World) (g : Gateway) :
    List Register → World × List (Register × Response) →
      Option (World × List (Register × Response))
  | [], s => some s
  | r :: rest, (w, log) => ((handleContentRegister g r).run E w).bind fun (answer, w') =>
      playRegisters E g rest (w', log ++ [(r, answer)])

section
variable {limits : Limits} {admits : World → ContentCall → Luck → Prop}
  {opens : RegisterBody → Prop} {E : Executor contentInterface World}
  (within : ∀ {w q reply w'}, E.graph w q reply w' → statements limits admits w q reply w')
include within

theorem Registrations.play (opened : ∀ r ∈ rs, r.tenantID = tenantID ∧ ∀ body, r.body = some body →
      (body.chunks.map ContentChunk.chunkIndex).Nodup ∧ opens body)
    (before : Registrations limits g tenantID admits opens w log)
    (played : playRegisters E g rs (w, log) = some (w', log')) :
    Registrations limits g tenantID admits opens w' log' := by
  induction rs generalizing w log with
  | nil =>
    cases played
    exact before
  | cons r rest ih =>
    obtain ⟨⟨answer, w₁⟩, ran, played⟩ := Option.bind_eq_some_iff.mp played
    have run := (runs_iff_run E _ w w₁ answer).mpr ran
    obtain ⟨mine, fits⟩ := opened r List.mem_cons_self
    exact ih (fun other later => opened other (List.mem_cons_of_mem r later))
      (before.next mine fits (run.mono within)) played

omit within in
theorem playRegisters_asked (played : playRegisters E g rs (w, log) = some (w', log'))
    (before : ∀ entry ∈ log, entry.1 ∈ all) (more : rs ⊆ all) : ∀ entry ∈ log', entry.1 ∈ all := by
  induction rs generalizing w log with
  | nil =>
    cases played
    exact before
  | cons r rest ih =>
    obtain ⟨⟨answer, w₁⟩, -, played⟩ := Option.bind_eq_some_iff.mp played
    apply ih played _ (fun other later => more (List.mem_cons_of_mem r later))
    intro entry member
    rcases List.mem_append.mp member with old | new
    · exact before entry old
    · obtain rfl := List.mem_singleton.mp new
      exact more List.mem_cons_self

/-- What a script of requests and a final check compute can happen. -/
theorem Registrations.exhibit
    (opened : ∀ r ∈ rs, r.tenantID = tenantID ∧ ∀ body, r.body = some body →
      (body.chunks.map ContentChunk.chunkIndex).Nodup ∧ opens body)
    (played : ((playRegisters E g rs ({ memMax := memMax, head := head }, [])).bind fun s =>
      ((handleContentCheck g check).run E s.1).map fun found => (s.2.map Prod.snd, found.1)) =
        some (answers, answer)) :
    ∃ w log w', Registrations limits g tenantID admits opens w log ∧
      log.map Prod.snd = answers ∧ (∀ entry ∈ log, entry.1 ∈ rs) ∧
      Runs (statements limits anyFate) w (handleContentCheck g check) answer w' := by
  obtain ⟨⟨w, log⟩, registered, checked⟩ := Option.bind_eq_some_iff.mp played
  obtain ⟨⟨found, w'⟩, ran, same⟩ := Option.map_eq_some_iff.mp checked
  cases same
  have run := (runs_iff_run E _ w w' found).mpr ran
  have asked := playRegisters_asked registered (by simp) (List.Subset.refl rs)
  refine ⟨w, log, w', Registrations.none.play within opened registered, rfl, asked, ?_⟩
  apply Runs.mono _ run
  intro w q reply w' served
  obtain ⟨luck, genuine, -, served⟩ := within served
  exact ⟨luck, genuine, trivial, served⟩

end

/-- Statements whose fate depends on what they are. -/
def scripted (fate : ContentCall → Fate) : Executor contentInterface World := fun w q =>
  w.serve wideLimits { fate := fate q } q

theorem scripted_within {fate : ContentCall → Fate} {admits : World → ContentCall → Luck → Prop}
    (admitted : ∀ w q, admits w q { fate := fate q }) (served : (scripted fate).graph w q reply w') :
    statements wideLimits admits w q reply w' := by
  have plain : errStatement.is errNotFound = false ∧ errStatement.is errNoRows = false := by decide
  exact ⟨{ fate := fate q }, ⟨plain.1, plain.2⟩, admitted w q, served⟩

/-- The transaction of the chunks fails, everything else goes well. -/
def chunksFail : ContentCall → Fate
  | .insertChunks .. => .failed
  | _ => .done

/-- The request and a retry of it, both of tenant `a`. -/
def twice (body : RegisterBody) : List Register :=
  List.replicate 2 ⟨.post, "a", some body⟩

/-- What is left of a request that did not get its chunks in: an entry that a retry takes for
the whole. -/
theorem half_registered {admits : World → ContentCall → Luck → Prop} (fate : ContentCall → Fate)
    (admitted : ∀ w q, admits w q { fate := fate q }) (body : RegisterBody)
    (distinct : (body.chunks.map ContentChunk.chunkIndex).Nodup) (some_chunk : body.chunks ≠ [])
    (played : ((playRegisters (scripted fate) ⟨true, true⟩ (twice body)
        ({ memMax := 10, head := fun _ => .ok () }, [])).bind fun s =>
      ((handleContentCheck ⟨true, true⟩ ⟨.post, "a", some "file"⟩).run (scripted fate) s.1).map
        fun found => (s.2.map Prod.snd, found.1)) =
      some ([writeError 500 "internal error", ⟨200, .registered "file" true⟩],
        ⟨200, .content [] [] 1 5⟩)) :
    ∃ w log, Registrations wideLimits ⟨true, true⟩ "a" admits (fun _ => True) w log ∧
      ¬ AllOrNothing wideLimits ⟨true, true⟩ w log := by
  have opened : ∀ r ∈ twice body, r.tenantID = "a" ∧ ∀ given, r.body = some given →
      (given.chunks.map ContentChunk.chunkIndex).Nodup ∧ True := by
    intro r member
    obtain rfl := List.eq_of_mem_replicate member
    simpa using distinct
  obtain ⟨w, log, w', run, -, asked, check⟩ :=
    Registrations.exhibit (scripted_within admitted) opened played
  refine ⟨w, log, run, fun whole => ?_⟩
  obtain ⟨contentID, -, request, other, rows, already, told, brought, -, ordered, empty, -⟩ :=
    whole _ _ _ _ _ w' check
  have mine : request = ⟨.post, "a", some body⟩ := List.eq_of_mem_replicate (asked _ told)
  subst mine
  cases brought
  have none : rows = [] := List.map_eq_nil_iff.mp empty.symm
  rw [none] at ordered
  exact some_chunk (List.nil_perm.mp ordered.2)

def oneChunkBody : RegisterBody := ⟨"file", 5, 1, 8, "root", [⟨0, "hash", "blob", 5, 21⟩]⟩

/-- One chunk more than one call inserts. -/
def manyChunksBody : RegisterBody :=
  ⟨"file", 5, 1, 8, "root",
    (List.range (maxChunksPerCall + 1)).map fun i : Nat => ⟨i, "hash", "blob", 5, 21⟩⟩

theorem manyChunksBody_distinct :
    (manyChunksBody.chunks.map ContentChunk.chunkIndex).Nodup := by
  have same : manyChunksBody.chunks.map ContentChunk.chunkIndex =
      (List.range (maxChunksPerCall + 1)).map fun i : Nat => (i : Int) := by
    simp [manyChunksBody, Function.comp_def]
  rw [same]
  exact List.nodup_range.map fun _ _ equal => Int.ofNat.inj equal

/-- The chunks of a request do not get in, by a failure or because there are too many; the
retry is told that all is well, and the check finds a file without chunks. -/
theorem retry_confirms_half :
    (∃ w log, Registrations wideLimits ⟨true, true⟩ "a" anyFate (fun _ => True) w log ∧
      ¬ AllOrNothing wideLimits ⟨true, true⟩ w log) ∧
    ∃ w log, Registrations wideLimits ⟨true, true⟩ "a" (fun _ _ luck => luck.fate = .done)
        (fun _ => True) w log ∧ ¬ AllOrNothing wideLimits ⟨true, true⟩ w log := by
  constructor
  · exact half_registered chunksFail (fun _ _ => trivial) oneChunkBody (by decide) (by decide)
      (by decide +kernel)
  · exact half_registered (fun _ => .done) (fun _ _ => rfl) manyChunksBody
      manyChunksBody_distinct (by simp [manyChunksBody]) (by decide +kernel)

/-- Only what is accepted, and that without failures. -/
def smooth : Executor contentInterface World := fun w q =>
  if wideLimits.accepts w.tables q then w.serve wideLimits {} q else none

theorem smooth_within (served : smooth.graph w q reply w') :
    statements wideLimits (Unbroken wideLimits) w q reply w' := by
  simp only [Executor.graph, smooth] at served
  split at served
  · rename_i accepted
    refine ⟨{}, ⟨by decide, by decide⟩, ?_, served⟩
    cases q with
    | insertEntry entry => exact Fate.noConfusion
    | insertChunks contentID chunks => exact ⟨accepted, rfl⟩
    | _ => trivial
  · cases served

/-- Sent in another order than that of their indices. -/
def threeChunksBody : RegisterBody :=
  ⟨"file", 15, 3, 8, "root", [⟨2, "h2", "b2", 5, 21⟩, ⟨0, "h0", "b0", 5, 21⟩, ⟨1, "h1", "b1", 5, 21⟩]⟩

/-- No failure, and a retry. -/
theorem allOrNothing_three_chunks :
    ∃ w log, Registrations wideLimits ⟨true, true⟩ "a" (Unbroken wideLimits)
        (fun body => body.chunks.length ≤ maxChunksPerCall) w log ∧
      (∃ w', Runs (statements wideLimits anyFate) w
        (handleContentCheck ⟨true, true⟩ ⟨.post, "a", some "file"⟩)
        ⟨200, .content ["b0", "b1", "b2"] ["h0", "h1", "h2"] 3 15⟩ w') ∧
      AllOrNothing wideLimits ⟨true, true⟩ w log := by
  have opened : ∀ r ∈ twice threeChunksBody, r.tenantID = "a" ∧ ∀ given, r.body = some given →
      (given.chunks.map ContentChunk.chunkIndex).Nodup ∧
        given.chunks.length ≤ maxChunksPerCall := by
    intro r member
    obtain rfl := List.eq_of_mem_replicate member
    simp [threeChunksBody, maxChunksPerCall]
  have played : ((playRegisters smooth ⟨true, true⟩ (twice threeChunksBody)
        ({ memMax := 10, head := fun _ => .ok () }, [])).bind fun s =>
      ((handleContentCheck ⟨true, true⟩ ⟨.post, "a", some "file"⟩).run smooth s.1).map
        fun found => (s.2.map Prod.snd, found.1)) =
      some ([⟨200, .registered "file" false⟩, ⟨200, .registered "file" true⟩],
        ⟨200, .content ["b0", "b1", "b2"] ["h0", "h1", "h2"] 3 15⟩) := by
    decide +kernel
  obtain ⟨w, log, w', run, -, -, check⟩ := Registrations.exhibit smooth_within opened played
  exact ⟨w, log, run, ⟨w', check⟩, allOrNothing_of_unbroken wideLimits ⟨true, true⟩ rfl run⟩

end KDrive.Server
