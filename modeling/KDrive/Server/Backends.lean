import KDrive.Server.Catalog
import Mathlib.Data.List.Dedup

/-! Both back ends of the dedup API refine the catalog, hence answer alike. -/
namespace KDrive.Server
open Go Interaction Metadata

/-- The row of a content. -/
def MemContent.row (content : MemContent) (contentID : String) : ContentEntry :=
  ⟨contentID, content.tenantID, content.plaintextSize, content.chunkCount, content.chunkSize,
    content.chunkPlanRoot, 1⟩

/-- The tables hold the catalog. -/
structure TablesShow (w : World) (c : Catalog) : Prop where
  entries : ∀ contentID, w.tables.entries contentID =
    (c contentID).map fun content => content.row contentID
  chunks : ∀ contentID, w.tables.chunks contentID =
    ((c contentID).map MemContent.chunks).getD []
  ids : ∀ contentID, contentID ∈ w.tables.ids ↔ (c contentID).isSome

/-- The map holds the catalog. -/
structure MemShows (w : World) (c : Catalog) : Prop where
  found : ∀ contentID, lookupMem w.mem contentID = c contentID
  keys : (w.mem.map Prod.fst).Nodup

theorem TablesShow.entryOf {w : World} {c : Catalog} (shows : TablesShow w c)
    (contentID tenantID : String) :
    w.tables.entryOf contentID tenantID =
      (c.own contentID tenantID).map fun content => content.row contentID := by
  unfold ContentTables.entryOf Catalog.own
  rw [shows.entries]
  cases c contentID with
  | none => rfl
  | some content =>
    by_cases mine : content.tenantID = tenantID
    · simp [MemContent.row, Option.filter, mine]
    · simp [MemContent.row, Option.filter, mine]

theorem Catalog.own_eq_some {c : Catalog} (found : c.own contentID tenantID = some content) :
    c contentID = some content ∧ content.tenantID = tenantID := by
  obtain ⟨there, mine⟩ := Option.filter_eq_some_iff.mp found
  exact ⟨there, by simpa using mine⟩

/-! ### Statements that are accepted -/
section
variable {limits : Limits}

/-- The tenant's own entry is found if it is there. -/
theorem undisturbed_getContentEntry (text : storable contentID = true)
    (tenant : storable tenantID = true)
    (run : Runs (undisturbed limits) w (getContentEntry contentID tenantID) found w') :
    w' = w ∧ found = match w.tables.entryOf contentID tenantID with
      | some entry => .ok entry
      | none => .error errNotFound := by
  cases run with
  | ask served rest =>
    obtain ⟨luck, -, done, served⟩ := served
    cases rest
    simp only [World.serve, query, Limits.accepts, text, tenant, Bool.and_self,
      done, decide_true, if_true] at served
    cases served
    refine ⟨rfl, ?_⟩
    cases w.tables.entryOf contentID tenantID <;> rfl

theorem undisturbed_getContentEntryByContentID (text : storable contentID = true)
    (run : Runs (undisturbed limits) w (getContentEntryByContentID contentID) found w') :
    w' = w ∧ found.toOption = w.tables.entries contentID := by
  cases run with
  | ask served rest =>
    obtain ⟨luck, -, done, served⟩ := served
    cases rest
    simp only [World.serve, query, Limits.accepts, text, Bool.true_and, done, decide_true,
      if_true] at served
    cases served
    refine ⟨rfl, ?_⟩
    cases w.tables.entries contentID <;> rfl

theorem undisturbed_getContentChunks (text : storable contentID = true)
    (tenant : storable tenantID = true) (own : (w.tables.entryOf contentID tenantID).isSome)
    (run : Runs (undisturbed limits) w (getContentChunks contentID tenantID) found w') :
    w' = w ∧ found = .ok (w.tables.chunks contentID) := by
  cases run with
  | ask served rest =>
    obtain ⟨luck, -, done, served⟩ := served
    cases rest
    simp only [World.serve, query, Limits.accepts, text, tenant, Bool.and_self,
      done, decide_true, if_true, own] at served
    cases served
    exact ⟨rfl, rfl⟩

theorem undisturbed_createContentEntry {entry : ContentEntry}
    (accepted : limits.accepts w.tables (.insertEntry entry) = true)
    (run : Runs (undisturbed limits) w (createContentEntry entry) reply w') :
    reply = .ok () ∧ w' = { w with tables := w.tables.insertEntry entry } := by
  cases run with
  | ask served rest =>
    obtain ⟨luck, -, done, served⟩ := served
    cases rest
    simp only [World.serve, execute, accepted, if_true, done] at served
    cases served
    exact ⟨rfl, rfl⟩

theorem undisturbed_head {next : Except GoError Unit → ContentProgram Response}
    (run : Runs (undisturbed limits) w (.ask (.head key) next) answer w') :
    Runs (undisturbed limits) w (next (w.head key)) answer w' := by
  cases run with
  | ask served rest =>
    obtain ⟨luck, -, -, served⟩ := served
    cases served
    exact rest

end

theorem reorder_perm (order : Nat) (l : List α) : (reorder order l).Perm l := by
  unfold reorder
  cases found : l.permutations[order]? with
  | none => exact .refl l
  | some other => exact List.mem_permutations.mp (List.mem_of_getElem? found)

/-- A walk in any order is one that the world can take. -/
theorem exists_reorder {l other : List α} (perm : other.Perm l) :
    ∃ order, reorder order l = other := by
  obtain ⟨order, found⟩ := List.mem_iff_getElem?.mp (List.mem_permutations.mpr perm)
  exact ⟨order, by rw [reorder, found]; rfl⟩

theorem mem_reorder {l : List α} : x ∈ reorder n l ↔ x ∈ l :=
  (reorder_perm n l).mem_iff

/-- Where a hash has one blob key, the order of the rows does not matter. -/
theorem knownHash_eq {rows : List (String × String)} {keyOf : String → String}
    (agree : ∀ row ∈ rows, row.2 = keyOf row.1) (hash : String)
    [Decidable (∃ row ∈ rows, row.1 = hash)] :
    knownHash rows hash = if ∃ row ∈ rows, row.1 = hash then some (keyOf hash) else none := by
  unfold knownHash
  cases found : rows.reverse.find? fun row => row.1 = hash with
  | none =>
    have missing : ¬ ∃ row ∈ rows, row.1 = hash := by
      rintro ⟨row, member, same⟩
      have not := List.find?_eq_none.mp found row (List.mem_reverse.mpr member)
      exact not (by simpa using same)
    rw [if_neg missing]
    rfl
  | some row =>
    have member : row ∈ rows := List.mem_reverse.mp (List.mem_of_find?_eq_some found)
    have same : row.1 = hash := by simpa using List.find?_some found
    rw [if_pos ⟨row, member, same⟩, Option.map_some, agree row member, same]

/-- A chunk behind all rows goes to their end. -/
theorem ChunkRows.insert_last {rows : ChunkRows}
    (behind : ∀ d ∈ rows, d.chunkIndex < c.chunkIndex) : ChunkRows.insert c rows = rows ++ [c] := by
  induction rows with
  | nil => rfl
  | cons first rest ih =>
    have before := behind first List.mem_cons_self
    rw [ChunkRows.insert, if_neg (by omega), if_neg (by omega),
      ih fun d later => behind d (List.mem_cons_of_mem first later)]
    rfl

/-- Chunks that come in index order stay as they come. -/
theorem ChunkRows.insertAll_sorted {rows : ChunkRows}
    (sorted : ChunkRows.Sorted (rows ++ chunks)) : rows.insertAll chunks = rows ++ chunks := by
  induction chunks generalizing rows with
  | nil => simp [ChunkRows.insertAll]
  | cons c rest ih =>
    have behind : ∀ d ∈ rows, d.chunkIndex < c.chunkIndex := fun d member =>
      (List.pairwise_append.mp sorted).2.2 d member c List.mem_cons_self
    have shifted : rows ++ c :: rest = (rows ++ [c]) ++ rest := by simp
    rw [shifted] at sorted ⊢
    calc rows.insertAll (c :: rest)
        = (ChunkRows.insert c rows).insertAll rest := rfl
      _ = ChunkRows.insertAll (rows ++ [c]) rest := by rw [ChunkRows.insert_last behind]
      _ = rows ++ [c] ++ rest := ih sorted

/-! ### The tables -/
section
variable {limits : Limits} {store : Bool} {w w' : World} {c : Catalog} {keyOf : String → String}
  {tenantID hash : String} {body : RegisterBody}

theorem TablesShow.hash_iff (shows : TablesShow w c) (tenantID : String) (hashes : List String)
    (asked : hash ∈ hashes) :
    (∃ row ∈ w.tables.hashes tenantID hashes, row.1 = hash) ↔ c.Holds tenantID hash := by
  simp only [ContentTables.hashes, List.mem_dedup, List.mem_flatMap, List.mem_filter, List.mem_map]
  constructor
  · rintro ⟨_, ⟨id, ⟨-, mine⟩, chunk, ⟨member, -⟩, rfl⟩, rfl⟩
    rw [shows.entryOf] at mine
    obtain ⟨content, found⟩ := Option.isSome_iff_exists.mp (by simpa using mine)
    obtain ⟨there, tenant⟩ := Catalog.own_eq_some found
    rw [shows.chunks, there] at member
    exact ⟨id, content, there, tenant, chunk, member, rfl⟩
  · rintro ⟨id, content, there, rfl, chunk, member, rfl⟩
    refine ⟨_, ⟨id, ⟨(shows.ids id).mpr (by rw [there]; rfl), ?_⟩, chunk, ⟨?_, ?_⟩, rfl⟩, rfl⟩
    · rw [shows.entryOf]
      simp [Catalog.own, there, Option.filter]
    · rw [shows.chunks, there]
      exact member
    · simpa using asked

theorem TablesShow.hash_agrees (shows : TablesShow w c) (sound : c.Sound keyOf)
    (tenantID : String) (hashes : List String) :
    ∀ row ∈ w.tables.hashes tenantID hashes, row.2 = keyOf row.1 := by
  intro row member
  simp only [ContentTables.hashes, List.mem_dedup, List.mem_flatMap, List.mem_filter,
    List.mem_map] at member
  obtain ⟨id, -, chunk, ⟨stored, -⟩, rfl⟩ := member
  rw [shows.chunks] at stored
  cases there : c id with
  | none => simp [there] at stored
  | some content =>
    simp only [there, Option.map_some, Option.getD_some] at stored
    exact (sound id content there).2.2 chunk stored

theorem TablesShow.registered (shows : TablesShow w c) (absent : c body.contentID = none)
    (sorted : ChunkRows.Sorted body.chunks) :
    TablesShow { w with tables :=
        (w.tables.insertEntry (body.entry tenantID)).insertChunks body.contentID body.chunks }
      (Function.update c body.contentID (some (body.content tenantID))) := by
  have free : w.tables.entries body.contentID = none := by
    rw [shows.entries, absent]
    rfl
  have empty : w.tables.chunks body.contentID = [] := by
    rw [shows.chunks, absent]
    rfl
  have arranged : ChunkRows.insertAll [] body.chunks = body.chunks :=
    ChunkRows.insertAll_sorted sorted
  rw [ContentTables.insertEntry_absent free]
  constructor
  · intro contentID
    simp only [ContentTables.insertChunks]
    by_cases same : contentID = body.contentID
    · subst same
      rw [Function.update_self, Function.update_self]
      rfl
    · rw [Function.update_of_ne same, Function.update_of_ne same]
      exact shows.entries contentID
  · intro contentID
    dsimp only
    rw [ContentTables.insertChunks_at]
    by_cases same : contentID = body.contentID
    · subst same
      rw [if_pos rfl, empty, arranged, Function.update_self]
      rfl
    · rw [if_neg same, Function.update_of_ne same]
      exact shows.chunks contentID
  · intro contentID
    simp only [ContentTables.insertChunks, List.mem_append, List.mem_singleton, shows.ids]
    by_cases same : contentID = body.contentID
    · simp [same]
    · simp [same]

end

/-! ### What both back ends share -/
section
variable {limits : Limits} {w w' : World}

/-- A request that is turned away leaves everything as it is. -/
theorem answered_received {r : Request Body} {handler : String → Body → ContentProgram Response}
    {f : String → Body → Response} (run : Runs (undisturbed limits) w (answering r handler) answer w')
    (handled : ∀ body, r.received = .ok body →
      Runs (undisturbed limits) w (handler r.tenantID body) answer w' →
      answer.masked = f r.tenantID body ∧ w' = w) :
    answer.masked = r.reply f ∧ w' = w := by
  obtain ⟨refused, rfl⟩ | ⟨body, received, ran⟩ := runs_received run
  · simp only [Request.reply, refused]
    exact ⟨Request.refused_masked refused, trivial⟩
  · simp only [Request.reply, received]
    exact handled body received ran

theorem unconfirmed_masked {head : String → Except GoError Unit}
    (refused : Catalog.unconfirmed head keys = some answer) : answer.masked = answer := by
  induction keys with
  | nil => cases refused
  | cons k rest ih =>
    unfold Catalog.unconfirmed at refused
    cases there : head k with
    | error err =>
      simp only [there, Option.some.injEq] at refused
      rw [← refused]
      split <;> rfl
    | ok _ =>
      simp only [there] at refused
      exact ih refused

/-- The loop over the new keys stops at the first that cannot be confirmed. -/
theorem undisturbed_headAll {next : ContentProgram Response}
    (run : Runs (undisturbed limits) w (headAll next keys) answer w') :
    (Catalog.unconfirmed w.head keys = some answer ∧ w' = w) ∨
      (Catalog.unconfirmed w.head keys = none ∧ Runs (undisturbed limits) w next answer w') := by
  induction keys with
  | nil => exact .inr ⟨rfl, run⟩
  | cons k rest ih =>
    have run := undisturbed_head run
    cases there : w.head k with
    | error err =>
      simp only [there] at run
      simp only [Catalog.unconfirmed, there]
      split at run
      · rename_i missing
        cases run
        exact .inl ⟨by rw [if_pos missing], rfl⟩
      · rename_i other
        cases run
        exact .inl ⟨by rw [if_neg other], rfl⟩
    | ok _ =>
      simp only [there] at run
      simp only [Catalog.unconfirmed, there]
      exact ih run

theorem undisturbed_generateID {f : String → Response}
    (run : Runs (undisturbed limits) w (.ask .generateID fun id => .ret (f id)) answer w') :
    (∃ id, answer = f id) ∧ w' = w := by
  cases run with
  | ask served rest =>
    obtain ⟨luck, -, -, served⟩ := served
    cases served
    cases rest
    exact ⟨⟨luck.id, rfl⟩, rfl⟩

/-- The new keys are confirmed, if there is a store to ask, and a version id is made. -/
def commitNew (store : Bool) (body : CommitBody) : ContentProgram Response :=
  let committed : ContentProgram Response := .ask .generateID fun versionID =>
    .ret ⟨200, .committed versionID body.reusedBlobKeys.length body.newBlobKeys.length⟩
  if store then headAll committed body.newBlobKeys else committed

theorem undisturbed_commitNew (run : Runs (undisturbed limits) w (commitNew store body) answer w') :
    answer.masked = (if store then Catalog.unconfirmed w.head body.newBlobKeys else none).getD
      ⟨200, .committed "" body.reusedBlobKeys.length body.newBlobKeys.length⟩ ∧ w' = w := by
  cases store with
  | false =>
    obtain ⟨⟨id, rfl⟩, rfl⟩ := undisturbed_generateID run
    simp [Response.masked]
  | true =>
    rcases undisturbed_headAll run with ⟨refused, rfl⟩ | ⟨confirmed, run⟩
    · simp [refused, unconfirmed_masked refused]
    · obtain ⟨⟨id, rfl⟩, rfl⟩ := undisturbed_generateID run
      simp [confirmed, Response.masked]

/-- The rest of a commit once the content is found. -/
theorem undisturbed_reusing {c : Catalog} {body : CommitBody}
    (own : c.own body.contentID tenantID = some content) (protocol : body.protocol = "KDRV1")
    (same : known = content.blobKeys)
    (run : Runs (undisturbed limits) w
      (if body.reusedBlobKeys.all known.contains then commitNew store body
        else .ret (writeError 400 "reused blob key not found")) answer w') :
    answer.masked = c.committed store w.head tenantID body ∧ w' = w := by
  subst same
  have kdrv1 : ¬ body.protocol ≠ "KDRV1" := not_not.mpr protocol
  unfold Catalog.committed
  simp only [if_neg kdrv1, own]
  split at run
  · rename_i reused
    rw [if_pos reused]
    exact undisturbed_commitNew run
  · rename_i unknown
    cases run
    rw [if_neg unknown]
    exact ⟨rfl, rfl⟩

end

/-! ### The handlers over the tables -/
section
variable {limits : Limits} {store : Bool} {w w' : World} {c : Catalog} {keyOf : String → String}
  (shows : TablesShow w c) (sound : c.Sound keyOf)
include shows

theorem tables_getContentEntry (text : storable contentID = true) (tenant : storable tenantID = true)
    (run : Runs (undisturbed limits) w (getContentEntry contentID tenantID) found w') :
    w' = w ∧ found = match c.own contentID tenantID with
      | some content => .ok (content.row contentID)
      | none => .error errNotFound := by
  obtain ⟨rfl, rfl⟩ := undisturbed_getContentEntry text tenant run
  rw [shows.entryOf]
  refine ⟨rfl, ?_⟩
  cases c.own contentID tenantID <;> rfl

theorem tables_getContentChunks (text : storable contentID = true)
    (tenant : storable tenantID = true) (own : c.own contentID tenantID = some content)
    (run : Runs (undisturbed limits) w (getContentChunks contentID tenantID) found w') :
    w' = w ∧ found = .ok content.chunks := by
  obtain ⟨rfl, rfl⟩ :=
    undisturbed_getContentChunks text tenant (by rw [shows.entryOf, own]; rfl) run
  refine ⟨rfl, ?_⟩
  rw [shows.chunks, (Catalog.own_eq_some own).1]
  rfl

include sound

theorem tables_check {r : Request String} (tenant : storable r.tenantID = true)
    (text : ∀ contentID, r.body = some contentID → storable contentID = true)
    (run : Runs (undisturbed limits) w (handleContentCheck ⟨true, store⟩ r) answer w') :
    answer.masked = r.reply c.checked ∧ w' = w := by
  refine answered_received run fun contentID received handled => ?_
  have text := text contentID (Request.received_body received)
  rw [Catalog.checked]
  simp only [if_true] at handled
  obtain ⟨found, w₁, first, afterFirst⟩ := handled.of_bind
  obtain ⟨rfl, rfl⟩ := tables_getContentEntry shows text tenant first
  cases own : c.own contentID r.tenantID with
  | none =>
    have named : errNotFound.is errNotFound = true := by decide
    simp only [own, named, if_true] at afterFirst
    cases afterFirst
    exact ⟨rfl, rfl⟩
  | some content =>
    simp only [own] at afterFirst
    obtain ⟨reply, w₂, second, afterSecond⟩ := afterFirst.of_bind
    obtain ⟨rfl, rfl⟩ := tables_getContentChunks shows text tenant own second
    cases afterSecond
    obtain ⟨keys, hashes, -⟩ := sound contentID content (Catalog.own_eq_some own).1
    dsimp only
    rw [keys, hashes]
    exact ⟨rfl, rfl⟩

theorem tables_commit {r : Request CommitBody} (tenant : storable r.tenantID = true)
    (text : ∀ body, r.body = some body → storable body.contentID = true)
    (run : Runs (undisturbed limits) w (handleUploadCommitDedup ⟨true, store⟩ r) answer w') :
    answer.masked = r.reply (c.committed store w.head) ∧ w' = w := by
  refine answered_received run fun body received handled => ?_
  have text := text body (Request.received_body received)
  simp only [if_true] at handled
  split at handled
  · rename_i other
    cases handled
    rw [Catalog.committed, if_pos other]
    exact ⟨rfl, rfl⟩
  rename_i kdrv1
  obtain ⟨found, w₁, first, afterFirst⟩ := handled.of_bind
  obtain ⟨rfl, rfl⟩ := tables_getContentEntry shows text tenant first
  cases own : c.own body.contentID r.tenantID with
  | none =>
    have named : errNotFound.is errNotFound = true := by decide
    simp only [own, named, if_true] at afterFirst
    cases afterFirst
    constructor
    · simp only [Catalog.committed, if_neg kdrv1, own]
      rfl
    · rfl
  | some content =>
    simp only [own] at afterFirst
    obtain ⟨reply, w₂, second, afterSecond⟩ := afterFirst.of_bind
    obtain ⟨rfl, rfl⟩ := tables_getContentChunks shows text tenant own second
    obtain ⟨keys, -, -⟩ := sound body.contentID content (Catalog.own_eq_some own).1
    exact undisturbed_reusing own (not_not.mp kdrv1) keys.symm afterSecond

open Classical in
theorem tables_checkChunks {r : Request CheckChunksBody} (tenant : storable r.tenantID = true)
    (text : ∀ body, r.body = some body → ∀ hash ∈ body.chunkHashes, storable hash = true)
    (run : Runs (undisturbed limits) w (handleContentCheckChunks ⟨true, store⟩ r) answer w') :
    answer.masked = (r.reply fun tenantID body => ⟨200, .results (body.chunkHashes.map fun hash =>
      (hash, if c.Holds tenantID hash then some (keyOf hash) else none))⟩) ∧ w' = w := by
  refine answered_received run fun body received handled => ?_
  have text := text body (Request.received_body received)
  simp only [if_true] at handled
  obtain ⟨found, w₁, first, afterFirst⟩ := handled.of_bind
  cases first with
  | ask served rest =>
    obtain ⟨luck, -, done, served⟩ := served
    have texts : body.chunkHashes.all storable = true := List.all_eq_true.mpr text
    simp only [World.serve, query, Limits.accepts, tenant, texts, Bool.and_self, done, decide_true,
      if_true] at served
    cases served
    cases rest
    cases afterFirst
    refine ⟨congrArg (Response.mk 200 ∘ .results) (List.map_congr_left ?_), rfl⟩
    intro hash asked
    have agree : ∀ row ∈ reorder luck.order (w.tables.hashes r.tenantID body.chunkHashes),
        row.2 = keyOf row.1 := fun row member =>
      shows.hash_agrees sound r.tenantID body.chunkHashes row (mem_reorder.mp member)
    have same : (∃ row ∈ reorder luck.order (w.tables.hashes r.tenantID body.chunkHashes),
        row.1 = hash) ↔ c.Holds r.tenantID hash := by
      simp only [mem_reorder]
      exact shows.hash_iff r.tenantID body.chunkHashes asked
    rw [knownHash_eq agree hash]
    simp only [same]

omit sound in
theorem tables_register {r : Register} (tenant : limits.tenants r.tenantID = true)
    (known : storable r.tenantID = true)
    (few : ∀ body, r.body = some body → body.chunks.length ≤ maxChunksPerCall)
    (portable : (DedupRequest.register r).Portable limits)
    (run : Runs (undisturbed limits) w (handleContentRegister ⟨true, store⟩ r) answer w') :
    answer.masked = r.reply c.registered ∧ TablesShow w' (c.next (.register r)) ∧ w'.head = w.head := by
  obtain ⟨refused, rfl⟩ | ⟨body, received, handled⟩ := runs_received run
  · simp only [Request.reply, Catalog.next, refused]
    exact ⟨Request.refused_masked refused, shows, trivial⟩
  obtain ⟨text, fits, root, sorted, stored⟩ := portable body (Request.received_body received)
  simp only [Request.reply, Catalog.next, received, Catalog.registered]
  simp only [if_true] at handled
  obtain ⟨found, w₁, first, afterFirst⟩ := handled.of_bind
  obtain ⟨rfl, rfl⟩ := tables_getContentEntry shows text known first
  cases there : c body.contentID with
  | some content =>
    by_cases mine : content.tenantID = r.tenantID
    · have own : c.own body.contentID r.tenantID = some content := by
        simp [Catalog.own, there, Option.filter, mine]
      simp only [own] at afterFirst
      cases afterFirst
      simp only [mine, ne_eq, not_true, if_false]
      exact ⟨rfl, shows, trivial⟩
    · have own : c.own body.contentID r.tenantID = none := by
        simp [Catalog.own, there, Option.filter, mine]
      have named : errNotFound.is errNotFound = true := by decide
      simp only [own, named, not_true, if_false] at afterFirst
      obtain ⟨owner, w₂, second, afterSecond⟩ := afterFirst.of_bind
      obtain ⟨rfl, anyone⟩ := undisturbed_getContentEntryByContentID text second
      have foreign : (owner.toOption.any fun other => other.tenantID ≠ r.tenantID) = true := by
        rw [anyone, shows.entries, there]
        simpa [MemContent.row] using mine
      rw [if_pos foreign] at afterSecond
      cases afterSecond
      simp only [ne_eq, mine, not_false_eq_true, if_true]
      exact ⟨rfl, shows, trivial⟩
  | none =>
    have own : c.own body.contentID r.tenantID = none := by simp [Catalog.own, there]
    have named : errNotFound.is errNotFound = true := by decide
    simp only [own, named, not_true, if_false] at afterFirst
    obtain ⟨owner, w₂, second, afterSecond⟩ := afterFirst.of_bind
    obtain ⟨rfl, anyone⟩ := undisturbed_getContentEntryByContentID text second
    have nobody : ¬ (owner.toOption.any fun other => other.tenantID ≠ r.tenantID) = true := by
      rw [anyone, shows.entries, there]
      simp
    rw [if_neg nobody] at afterSecond
    obtain ⟨reply, w₃, third, afterThird⟩ := afterSecond.of_bind
    have accepted : limits.accepts w₂.tables (.insertEntry (body.entry r.tenantID)) = true := by
      simp [Limits.accepts, RegisterBody.entry, text, fits, tenant, root]
    obtain ⟨rfl, rfl⟩ := undisturbed_createContentEntry accepted third
    obtain ⟨reply, w₄, fourth, afterFourth⟩ := afterThird.of_bind
    have free : w₂.tables.entries body.contentID = none := by
      rw [shows.entries, there]
      rfl
    have accepted : limits.accepts (w₂.tables.insertEntry (body.entry r.tenantID))
        (.insertChunks body.contentID body.chunks) = true := by
      simp only [Limits.accepts, ContentTables.insertEntry_absent free, Function.update_self,
        Option.isSome_some, Bool.true_and, List.all_eq_true]
      intro chunk member
      obtain ⟨whole, hash, index, key⟩ := stored chunk member
      simp [whole, hash, index, key]
    obtain ⟨rfl, rfl⟩ := runs_createContentChunks (few body (Request.received_body received))
      (fun _ done => ⟨accepted, done⟩) fourth
    cases afterFourth
    exact ⟨rfl, shows.registered there sorted, rfl⟩

/-- One request over the tables. -/
theorem tables_refine
    (known : ∀ tenantID, limits.tenants tenantID = true → storable tenantID = true)
    {q : DedupRequest} (domestic : q.Domestic limits keyOf) (portable : q.Portable limits)
    (run : Runs (undisturbed limits) w (handleDedup ⟨true, store⟩ q) answer w') :
    answer.masked = c.answer keyOf store w.head q ∧ TablesShow w' (c.next q) ∧
      w'.head = w.head := by
  cases q with
  | check r =>
    obtain ⟨same, rfl⟩ := tables_check shows sound (known _ domestic) portable run
    exact ⟨same, shows, rfl⟩
  | checkChunks r =>
    obtain ⟨same, rfl⟩ := tables_checkChunks shows sound (known _ domestic) portable run
    exact ⟨same, shows, rfl⟩
  | commit r =>
    obtain ⟨same, rfl⟩ := tables_commit shows sound (known _ domestic) portable run
    exact ⟨same, shows, rfl⟩
  | register r =>
    exact tables_register shows domestic.1 (known _ domestic.1)
      (fun body given => (domestic.2 body given).1) portable run

end

/-! ### The map -/

theorem lookupMem_iff {mem : List (String × MemContent)} (keys : (mem.map Prod.fst).Nodup) :
    lookupMem mem key = some content ↔ (key, content) ∈ mem := by
  unfold lookupMem
  rw [Option.map_eq_some_iff]
  constructor
  · rintro ⟨⟨other, _⟩, found, rfl⟩
    have same : other = key := by simpa using List.find?_some found
    exact same ▸ List.mem_of_find?_eq_some found
  · intro member
    cases found : mem.find? fun pair => pair.1 = key with
    | none =>
      have missing := List.find?_eq_none.mp found (key, content) member
      simp at missing
    | some pair =>
      have there := List.mem_of_find?_eq_some found
      have same : pair.1 = key := by simpa using List.find?_some found
      exact ⟨pair, rfl, congrArg Prod.snd (List.inj_on_of_nodup_map keys there member same)⟩

section
variable {limits : Limits} {store : Bool} {w w' : World} {c : Catalog} {keyOf : String → String}
  {tenantID hash : String} {body : RegisterBody}

theorem MemShows.hash_iff (shows : MemShows w c) (order : Nat) :
    (∃ row ∈ tenantHashes (reorder order (w.mem.map Prod.snd)) tenantID, row.1 = hash) ↔
      c.Holds tenantID hash := by
  simp only [tenantHashes, List.mem_flatMap, List.mem_filter, List.mem_map, mem_reorder]
  constructor
  · rintro ⟨_, ⟨_, ⟨⟨⟨key, content⟩, member, rfl⟩, tenant⟩, chunk, stored, rfl⟩, rfl⟩
    have found := (lookupMem_iff shows.keys).mpr member
    rw [shows.found] at found
    exact ⟨key, content, found, by simpa using tenant, chunk, stored, rfl⟩
  · rintro ⟨key, content, found, rfl, chunk, stored, rfl⟩
    rw [← shows.found] at found
    have member := (lookupMem_iff shows.keys).mp found
    exact ⟨_, ⟨content, ⟨⟨_, member, rfl⟩, by simp⟩, chunk, stored, rfl⟩, rfl⟩

theorem MemShows.hash_agrees (shows : MemShows w c) (sound : c.Sound keyOf) (order : Nat) :
    ∀ row ∈ tenantHashes (reorder order (w.mem.map Prod.snd)) tenantID, row.2 = keyOf row.1 := by
  simp only [tenantHashes, List.mem_flatMap, List.mem_filter, List.mem_map, mem_reorder]
  rintro _ ⟨_, ⟨⟨⟨key, content⟩, member, rfl⟩, -⟩, chunk, stored, rfl⟩
  have found := (lookupMem_iff shows.keys).mpr member
  rw [shows.found] at found
  exact (sound key content found).2.2 chunk stored

theorem MemShows.registered (shows : MemShows w c) (room : w.mem.length < w.memMax) (order : Nat) :
    MemShows { w with mem := putMemContent w.memMax order key content w.mem }
      (Function.update c key (some content)) := by
  constructor
  · intro contentID
    dsimp only
    rw [lookupMem_put room, Function.update_apply, shows.found]
  · have first : ¬ w.mem.length ≥ w.memMax := by omega
    have second : ¬ (0 < w.memMax ∧ w.mem.length > w.memMax * 10) := by omega
    simp only [putMemContent, if_neg first, if_neg second, List.map_cons, List.nodup_cons]
    constructor
    · simp
    · exact shows.keys.sublist (List.filter_sublist.map Prod.fst)

theorem undisturbed_getMem {next : Option MemContent → ContentProgram Response}
    (run : Runs (undisturbed limits) w (.ask (.getMem key) next) answer w') :
    Runs (undisturbed limits) w (next (lookupMem w.mem key)) answer w' := by
  cases run with
  | ask served rest =>
    obtain ⟨luck, -, -, served⟩ := served
    cases served
    exact rest

end

section
variable {limits : Limits} {store : Bool} {w w' : World} {c : Catalog} {keyOf : String → String}
  (shows : MemShows w c) (sound : c.Sound keyOf)
include shows

theorem mem_check {r : Request String}
    (run : Runs (undisturbed limits) w (handleContentCheck ⟨false, store⟩ r) answer w') :
    answer.masked = r.reply c.checked ∧ w' = w := by
  refine answered_received run fun contentID received handled => ?_
  rw [Catalog.checked, Catalog.own]
  simp only [Bool.false_eq_true, if_false] at handled
  have handled := undisturbed_getMem handled
  rw [shows.found] at handled
  cases there : c contentID with
  | none =>
    simp only [there] at handled
    cases handled
    exact ⟨rfl, rfl⟩
  | some content =>
    simp only [there] at handled
    by_cases mine : content.tenantID = r.tenantID
    · rw [if_neg (not_not.mpr mine)] at handled
      cases handled
      simp [Option.filter, mine, Response.masked]
    · rw [if_pos mine] at handled
      cases handled
      simp [Option.filter, mine, Response.masked]

theorem mem_commit {r : Request CommitBody}
    (run : Runs (undisturbed limits) w (handleUploadCommitDedup ⟨false, store⟩ r) answer w') :
    answer.masked = r.reply (c.committed store w.head) ∧ w' = w := by
  refine answered_received run fun body received handled => ?_
  simp only [Bool.false_eq_true, if_false] at handled
  split at handled
  · rename_i other
    cases handled
    rw [Catalog.committed, if_pos other]
    exact ⟨rfl, rfl⟩
  rename_i kdrv1
  have handled := undisturbed_getMem handled
  rw [shows.found] at handled
  cases there : c body.contentID with
  | none =>
    have own : c.own body.contentID r.tenantID = none := by simp [Catalog.own, there]
    simp only [there] at handled
    cases handled
    constructor
    · simp only [Catalog.committed, if_neg kdrv1, own]
      rfl
    · rfl
  | some content =>
    simp only [there] at handled
    by_cases mine : content.tenantID = r.tenantID
    · have own : c.own body.contentID r.tenantID = some content := by
        simp [Catalog.own, there, Option.filter, mine]
      rw [if_neg (not_not.mpr mine)] at handled
      exact undisturbed_reusing own (not_not.mp kdrv1) rfl handled
    · have own : c.own body.contentID r.tenantID = none := by
        simp [Catalog.own, there, Option.filter, mine]
      rw [if_pos mine] at handled
      cases handled
      constructor
      · simp only [Catalog.committed, if_neg kdrv1, own]
        rfl
      · rfl

theorem mem_register {r : Register} (room : w.mem.length < w.memMax)
    (run : Runs (undisturbed limits) w (handleContentRegister ⟨false, store⟩ r) answer w') :
    answer.masked = r.reply c.registered ∧ MemShows w' (c.next (.register r)) ∧ w'.head = w.head := by
  obtain ⟨refused, rfl⟩ | ⟨body, received, handled⟩ := runs_received run
  · simp only [Request.reply, Catalog.next, refused]
    exact ⟨Request.refused_masked refused, shows, trivial⟩
  simp only [Request.reply, Catalog.next, received, Catalog.registered]
  simp only [Bool.false_eq_true, if_false] at handled
  have handled := undisturbed_getMem handled
  rw [shows.found] at handled
  cases there : c body.contentID with
  | some content =>
    simp only [there] at handled
    by_cases mine : content.tenantID = r.tenantID
    · rw [if_neg (not_not.mpr mine)] at handled
      cases handled
      simp only [mine, ne_eq, not_true, if_false]
      exact ⟨rfl, shows, trivial⟩
    · rw [if_pos mine] at handled
      cases handled
      simp only [ne_eq, mine, not_false_eq_true, if_true]
      exact ⟨rfl, shows, trivial⟩
  | none =>
    simp only [there] at handled
    cases handled with
    | ask served rest =>
      obtain ⟨luck, -, -, served⟩ := served
      cases served
      cases rest
      exact ⟨rfl, shows.registered room luck.order, rfl⟩

include sound

open Classical in
theorem mem_checkChunks {r : Request CheckChunksBody}
    (run : Runs (undisturbed limits) w (handleContentCheckChunks ⟨false, store⟩ r) answer w') :
    answer.masked = (r.reply fun tenantID body => ⟨200, .results (body.chunkHashes.map fun hash =>
      (hash, if c.Holds tenantID hash then some (keyOf hash) else none))⟩) ∧ w' = w := by
  refine answered_received run fun body received handled => ?_
  simp only [Bool.false_eq_true, if_false] at handled
  cases handled with
  | ask served rest =>
    obtain ⟨luck, -, -, served⟩ := served
    cases served
    cases rest
    refine ⟨congrArg (Response.mk 200 ∘ .results) (List.map_congr_left ?_), rfl⟩
    intro hash _
    rw [knownHash_eq (shows.hash_agrees sound luck.order) hash]
    simp only [shows.hash_iff]

/-- One request over the map. -/
theorem mem_refine {q : DedupRequest} (room : w.mem.length < w.memMax)
    (run : Runs (undisturbed limits) w (handleDedup ⟨false, store⟩ q) answer w') :
    answer.masked = c.answer keyOf store w.head q ∧ MemShows w' (c.next q) ∧
      w'.head = w.head := by
  cases q with
  | check r =>
    obtain ⟨same, rfl⟩ := mem_check shows run
    exact ⟨same, shows, rfl⟩
  | checkChunks r =>
    obtain ⟨same, rfl⟩ := mem_checkChunks shows sound run
    exact ⟨same, shows, rfl⟩
  | commit r =>
    obtain ⟨same, rfl⟩ := mem_commit shows run
    exact ⟨same, shows, rfl⟩
  | register r => exact mem_register shows room run

end

/-- Requests one after the other. In no state does the map hold as many entries as its limit. -/
inductive Served (limits : Limits) (g : Gateway) :
    World → List DedupRequest → List Response → World → Prop where
  | nil : Served limits g w [] [] w
  | cons : w.mem.length < w.memMax → Runs (undisturbed limits) w (handleDedup g q) answer w₁ →
      Served limits g w₁ rest answers w' → Served limits g w (q :: rest) (answer :: answers) w'

/-- The answers of the catalog to a sequence of requests. -/
noncomputable def Catalog.answers (keyOf : String → String) (store : Bool)
    (head : String → Except GoError Unit) : Catalog → List DedupRequest → List Response
  | _, [] => []
  | c, q :: rest => c.answer keyOf store head q :: Catalog.answers keyOf store head (c.next q) rest

section
variable {limits : Limits} {store : Bool} {w w' : World} {c : Catalog} {keyOf : String → String}
  {requests : List DedupRequest} {answers : List Response}
  (sound : c.Sound keyOf) (domestic : ∀ q ∈ requests, q.Domestic limits keyOf)
include sound domestic

theorem tables_served (shows : TablesShow w c)
    (known : ∀ tenantID, limits.tenants tenantID = true → storable tenantID = true)
    (portable : ∀ q ∈ requests, q.Portable limits)
    (run : Served limits ⟨true, store⟩ w requests answers w') :
    answers.map Response.masked = Catalog.answers keyOf store w.head c requests := by
  induction run generalizing c with
  | nil => rfl
  | cons _ ran _ ih =>
    have here := domestic _ List.mem_cons_self
    obtain ⟨same, showing, head⟩ :=
      tables_refine shows sound known here (portable _ List.mem_cons_self) ran
    have later := ih (sound.next here) (fun q member => domestic q (List.mem_cons_of_mem _ member))
      showing (fun q member => portable q (List.mem_cons_of_mem _ member))
    simp only [List.map_cons, Catalog.answers, same, later, head]

theorem mem_served (shows : MemShows w c)
    (run : Served limits ⟨false, store⟩ w requests answers w') :
    answers.map Response.masked = Catalog.answers keyOf store w.head c requests := by
  induction run generalizing c with
  | nil => rfl
  | cons room ran _ ih =>
    have here := domestic _ List.mem_cons_self
    obtain ⟨same, showing, head⟩ := mem_refine shows sound room ran
    have later := ih (sound.next here) (fun q member => domestic q (List.mem_cons_of_mem _ member))
      showing
    simp only [List.map_cons, Catalog.answers, same, later, head]

end

/-- Where nothing is registered. -/
def World.fresh (memMax : Nat) (head : String → Except GoError Unit) : World :=
  { memMax := memMax, head := head }

theorem undisturbed_total (limits : Limits) (w : World) (q : ContentCall) :
    ∃ reply w', undisturbed limits w q reply w' := by
  have genuine : Luck.Genuine {} := ⟨by decide, by decide⟩
  have served : ∃ reply w', w.serve limits {} q = some (reply, w') := by
    cases q with
    | getMem | putMem | rangeMem | head | generateID => exact ⟨_, _, rfl⟩
    | selectEntry | selectAnyEntry | selectChunks | selectHashes =>
      simp only [World.serve, query]
      split <;> exact ⟨_, _, rfl⟩
    | insertEntry | insertChunks =>
      simp only [World.serve, execute]
      split <;> exact ⟨_, _, rfl⟩
  obtain ⟨reply, w', served⟩ := served
  exact ⟨reply, w', {}, genuine, rfl, served⟩

/-- On requests that Postgres takes as they are, with chunks in index order, the two back ends
give the same answers up to version ids; and every request is answered. -/
theorem backends_alike (limits : Limits)
    (known : ∀ tenantID, limits.tenants tenantID = true → storable tenantID = true)
    (keyOf : String → String) (store : Bool) (memMax : Nat) (head : String → Except GoError Unit)
    (requests : List DedupRequest) (domestic : ∀ q ∈ requests, q.Domestic limits keyOf)
    (portable : ∀ q ∈ requests, q.Portable limits) :
    (∀ g w, ∀ q ∈ requests, ∃ answer w', Runs (undisturbed limits) w (handleDedup g q) answer w') ∧
    ∀ answers w answers' w', Served limits ⟨true, store⟩ (.fresh memMax head) requests answers w →
      Served limits ⟨false, store⟩ (.fresh memMax head) requests answers' w' →
      answers.map Response.masked = answers'.map Response.masked := by
  constructor
  · exact fun g w q _ => exists_runs (undisturbed_total limits) (handleDedup g q) w
  · intro answers w answers' w' tables mem
    have empty : Catalog.Sound keyOf fun _ => none := fun _ _ found => by cases found
    have showTables : TablesShow (.fresh memMax head) fun _ => none :=
      ⟨fun _ => rfl, fun _ => rfl, fun _ => by simp [World.fresh]⟩
    have showMem : MemShows (.fresh memMax head) fun _ => none :=
      ⟨fun _ => rfl, List.nodup_nil⟩
    rw [tables_served empty domestic showTables known portable tables,
      mem_served empty domestic showMem mem]

/-- Requests one after the other, computed. -/
def playDedup (g : Gateway) : List DedupRequest → World → Option (List Response × World)
  | [], w => some ([], w)
  | q :: rest, w =>
    if w.mem.length < w.memMax then
      ((handleDedup g q).run (World.serve wideLimits {}) w).bind fun (answer, w₁) =>
        (playDedup g rest w₁).map fun (answers, w') => (answer :: answers, w')
    else none

theorem Served.play (played : playDedup g requests w = some (answers, w')) :
    Served wideLimits g w requests answers w' := by
  induction requests generalizing w answers with
  | nil =>
    cases played
    exact .nil
  | cons q rest ih =>
    unfold playDedup at played
    split at played
    · rename_i room
      obtain ⟨⟨answer, w₁⟩, ran, played⟩ := Option.bind_eq_some_iff.mp played
      obtain ⟨⟨later, w₂⟩, played, same⟩ := Option.map_eq_some_iff.mp played
      cases same
      have run := (runs_iff_run _ _ w w₁ answer).mpr ran
      refine .cons room (run.mono ?_) (ih played)
      exact fun served => ⟨{}, ⟨by decide, by decide⟩, rfl, served⟩
    · cases played

theorem Served.exhibit {check : List Response → Bool}
    (played : ((playDedup g requests w).map Prod.fst).any check = true) :
    ∃ answers w', Served wideLimits g w requests answers w' ∧ check answers = true := by
  cases ran : playDedup g requests w with
  | none => simp [ran] at played
  | some result => exact ⟨result.1, result.2, .play ran, by simpa [ran] using played⟩

/-- A file of two chunks, and a look at it. -/
def twoChunks (first second : Int) : List DedupRequest :=
  [.register ⟨.post, "a", some ⟨"file", 9, 2, 8, "root",
      [⟨first, "h1", "blob-h1", 8, 24⟩, ⟨second, "h2", "blob-h2", 1, 17⟩]⟩⟩,
    .check ⟨.post, "a", some "file"⟩,
    .checkChunks ⟨.post, "a", some ⟨"file", ["h2", "h3"]⟩⟩,
    .commit ⟨.post, "a", some ⟨"KDRV1", "file", ["blob-h1"], ["blob-h2"]⟩⟩]

theorem twoChunks_domestic (first second : Int) :
    ∀ q ∈ twoChunks first second, q.Domestic wideLimits fun hash => "blob-" ++ hash := by
  have tenant : storable "a" = true := by decide
  simp [twoChunks, DedupRequest.Domestic, wideLimits, maxChunksPerCall, tenant]

theorem twoChunks_portable : ∀ q ∈ twoChunks 0 1, q.Portable wideLimits := by
  have texts : ∀ text ∈ ["file", "root", "h1", "h2", "h3", "blob-h1", "blob-h2"],
      storable text = true := by decide
  simp only [List.forall_mem_cons] at texts
  simp [twoChunks, DedupRequest.Portable, ContentChunk.Storable, wideLimits, ChunkRows.Sorted,
    IsInteger, texts]

/-- Chunks that are listed out of order come back in index order from the tables, and as they
were listed from the map. -/
theorem backends_differ_on_order :
    (∀ q ∈ twoChunks 1 0, q.Domestic wideLimits fun hash => "blob-" ++ hash) ∧
    ∃ answers w answers' w',
      Served wideLimits ⟨true, true⟩ (.fresh 10 fun _ => .ok ()) (twoChunks 1 0) answers w ∧
      Served wideLimits ⟨false, true⟩ (.fresh 10 fun _ => .ok ()) (twoChunks 1 0) answers' w' ∧
      answers.map Response.masked ≠ answers'.map Response.masked := by
  have tables : ((playDedup ⟨true, true⟩ (twoChunks 1 0) (.fresh 10 fun _ => .ok ())).map
      Prod.fst).any (fun answers => answers[1]? =
        some ⟨200, .content ["blob-h2", "blob-h1"] ["h2", "h1"] 2 9⟩) = true := by
    decide +kernel
  have mem : ((playDedup ⟨false, true⟩ (twoChunks 1 0) (.fresh 10 fun _ => .ok ())).map
      Prod.fst).any (fun answers => answers[1]? =
        some ⟨200, .content ["blob-h1", "blob-h2"] ["h1", "h2"] 2 9⟩) = true := by
    decide +kernel
  obtain ⟨answers, w, first, found⟩ := Served.exhibit tables
  obtain ⟨answers', w', second, found'⟩ := Served.exhibit mem
  refine ⟨twoChunks_domestic 1 0, answers, w, answers', w', first, second, fun same => ?_⟩
  have found := of_decide_eq_true found
  have found' := of_decide_eq_true found'
  have same := congrArg (fun list => list[1]?) same
  simp [List.getElem?_map, found, found', Response.masked] at same

theorem backends_alike_in_order : ∃ answers w answers' w',
      Served wideLimits ⟨true, true⟩ (.fresh 10 fun _ => .ok ()) (twoChunks 0 1) answers w ∧
      Served wideLimits ⟨false, true⟩ (.fresh 10 fun _ => .ok ()) (twoChunks 0 1) answers' w' ∧
      answers.length = 4 ∧ answers.map Response.masked = answers'.map Response.masked := by
  have tables : ((playDedup ⟨true, true⟩ (twoChunks 0 1) (.fresh 10 fun _ => .ok ())).map
      Prod.fst).any (fun answers => answers.length = 4) = true := by
    decide +kernel
  have mem : ((playDedup ⟨false, true⟩ (twoChunks 0 1) (.fresh 10 fun _ => .ok ())).map
      Prod.fst).any (fun answers => answers.length = 4) = true := by
    decide +kernel
  obtain ⟨answers, w, first, found⟩ := Served.exhibit tables
  obtain ⟨answers', w', second, -⟩ := Served.exhibit mem
  refine ⟨answers, w, answers', w', first, second, of_decide_eq_true found, ?_⟩
  exact (backends_alike wideLimits (fun _ stored => stored) (fun hash => "blob-" ++ hash) true 10
    (fun _ => .ok ()) (twoChunks 0 1) (twoChunks_domestic 0 1) twoChunks_portable).2
    answers w answers' w' first second

end KDrive.Server
