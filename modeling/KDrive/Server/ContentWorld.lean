import KDrive.Interaction.Schedule
import KDrive.Server.Content
import Mathlib.Data.List.Permutation

/-! What answers the dedup handlers: the two tables with their keys, foreign keys and column
types, and the map of the dev mode. -/
namespace KDrive.Server
open Go Interaction Metadata

/-- Rows of `content_chunks` of one content_id, by index. -/
abbrev ChunkRows := List ContentChunk

/-- `INSERT ... ON CONFLICT (content_id, chunk_index) DO NOTHING`. -/
def ChunkRows.insert (c : ContentChunk) : ChunkRows → ChunkRows
  | [] => [c]
  | first :: rest =>
    if c.chunkIndex < first.chunkIndex then c :: first :: rest
    else if c.chunkIndex = first.chunkIndex then first :: rest
    else first :: ChunkRows.insert c rest

def ChunkRows.insertAll (rows : ChunkRows) (chunks : List ContentChunk) : ChunkRows :=
  chunks.foldl (fun rows c => ChunkRows.insert c rows) rows

structure ContentTables where
  entries : String → Option ContentEntry := fun _ => none
  chunks : String → ChunkRows := fun _ => []
  /-- The content_ids that have entries, for the one query that looks at all of them. -/
  ids : List String := []

inductive IndexValue where
  | text (value : String)
  | int (value : Int)

/-- What Postgres checks of texts and references beyond the statements' own logic: the rows
of `tenants`, and which rows fit into an index. -/
structure Limits where
  tenants : String → Bool
  indexes : List IndexValue → Bool

/-- The primary key, UNIQUE(tenant_id, content_id) and the index on the tenant. -/
def entryIndexRows (tenantID contentID : String) : List (List IndexValue) :=
  [[.text contentID], [.text tenantID, .text contentID], [.text tenantID]]

/-- The primary key, the index on the hash and that on content_id and hash. -/
def chunkIndexRows (contentID : String) (c : ContentChunk) : List (List IndexValue) :=
  [[.text contentID, .int c.chunkIndex], [.text c.chunkContentHash],
    [.text contentID, .text c.chunkContentHash]]

/-- TEXT has no NUL. -/
def storable (text : String) : Bool := ¬ text.toList.contains '\x00'

/-- Every tenant that can exist does, and every row fits. -/
def wideLimits : Limits := ⟨storable, fun _ => true⟩

/-- Everything a handler meets. -/
structure World where
  tables : ContentTables := {}
  mem : List (String × MemContent) := []
  /-- `memContentStoreMax`. -/
  memMax : Nat
  /-- The blob store's answer to a HEAD. -/
  head : String → Except GoError Unit

/-- How what is left open comes out: what becomes of a statement, with which error, the order
in which a map or a query without ORDER BY is read, and a new id. -/
structure Luck where
  fate : Fate := .done
  err : GoError := errStatement
  order : Nat := 0
  id : String := ""

def reorder {α : Type} (n : Nat) (l : List α) : List α := (l.permutations[n]?).getD l

def ContentTables.entryOf (t : ContentTables) (contentID tenantID : String) : Option ContentEntry :=
  (t.entries contentID).filter fun entry => entry.tenantID = tenantID

/-- `ON CONFLICT (content_id) DO NOTHING`. -/
def ContentTables.insertEntry (t : ContentTables) (entry : ContentEntry) : ContentTables :=
  match t.entries entry.contentID with
  | some _ => t
  | none =>
    { t with
      entries := Function.update t.entries entry.contentID (some entry)
      ids := t.ids ++ [entry.contentID] }

def ContentTables.insertChunks (t : ContentTables) (contentID : String)
    (chunks : List ContentChunk) : ContentTables :=
  { t with chunks := Function.update t.chunks contentID ((t.chunks contentID).insertAll chunks) }

/-- `SELECT DISTINCT chunk_content_hash, blob_key`. -/
def ContentTables.hashes (t : ContentTables) (tenantID : String) (hashes : List String) :
    List (String × String) :=
  ((t.ids.filter fun id => (t.entryOf id tenantID).isSome).flatMap fun id =>
    ((t.chunks id).filter fun c => hashes.contains c.chunkContentHash).map fun c =>
      (c.chunkContentHash, c.blobKey)).dedup

/-- Whether the statement is one that Postgres carries out. -/
def Limits.accepts (limits : Limits) (t : ContentTables) : ContentCall → Bool
  | .selectEntry contentID tenantID => storable contentID && storable tenantID
  | .selectAnyEntry contentID => storable contentID
  | .insertEntry entry => storable entry.contentID &&
      (entryIndexRows entry.tenantID entry.contentID).all limits.indexes &&
      limits.tenants entry.tenantID && storable entry.chunkPlanRoot
  | .selectChunks contentID tenantID => storable contentID && storable tenantID
  | .insertChunks contentID chunks => (t.entries contentID).isSome && chunks.all fun c =>
      decide (IsInteger c.chunkIndex) && storable c.chunkContentHash &&
        (chunkIndexRows contentID c).all limits.indexes && storable c.blobKey
  | .selectHashes tenantID hashes => storable tenantID && hashes.all storable
  | _ => true

/-- A query: its answer, or an error. -/
def query {α : Type} (w : World) (luck : Luck) (accepted : Bool) (answer : α) :
    Option (Except GoError α × World) :=
  if accepted && luck.fate = .done then some (.ok answer, w) else some (.error luck.err, w)

/-- A statement or transaction that changes the tables. -/
def execute (w : World) (luck : Luck) (accepted : Bool) (tables : ContentTables) :
    Option (Except GoError Unit × World) :=
  if accepted then
    match luck.fate with
    | .done => some (.ok (), { w with tables := tables })
    | .failed => some (.error luck.err, w)
    | .lost => some (.error luck.err, { w with tables := tables })
  else some (.error luck.err, w)

def lookupMem (mem : List (String × MemContent)) (key : String) : Option MemContent :=
  (mem.find? fun pair => pair.1 = key).map Prod.snd

/-- `putMemContent`, which evicts one entry when the store is full, on the one map that the two
of the source are the halves of. -/
def putMemContent (max order : Nat) (key : String) (content : MemContent)
    (mem : List (String × MemContent)) : List (String × MemContent) :=
  let mem := if mem.length ≥ max then mem.eraseIdx (order % mem.length) else mem
  let mem := if 0 < max ∧ mem.length > max * 10 then mem.eraseIdx (order % mem.length) else mem
  (key, content) :: mem.filter fun pair => pair.1 ≠ key

/-- What is put comes first, and of the others some are left. -/
theorem putMemContent_cons (max order : Nat) (key : String) (content : MemContent)
    (mem : List (String × MemContent)) :
    ∃ rest, putMemContent max order key content mem = (key, content) :: rest ∧
      rest.Sublist mem ∧ ∀ pair ∈ rest, pair.1 ≠ key := by
  have once (mem : List (String × MemContent)) (p : Prop) [Decidable p] :
      (if p then mem.eraseIdx (order % mem.length) else mem).Sublist mem := by
    split
    · exact List.eraseIdx_sublist ..
    · exact .refl mem
  refine ⟨_, rfl, List.filter_sublist.trans ((once _ _).trans (once _ _)), ?_⟩
  intro pair member
  simpa using (List.mem_filter.mp member).2

def World.serve (limits : Limits) (luck : Luck) : Executor contentInterface World := fun w q =>
  let accepted := limits.accepts w.tables q
  match q with
  | .selectEntry contentID tenantID => query w luck accepted (w.tables.entryOf contentID tenantID)
  | .selectAnyEntry contentID => query w luck accepted (w.tables.entries contentID)
  | .insertEntry entry => execute w luck accepted (w.tables.insertEntry entry)
  | .selectChunks contentID tenantID =>
    query w luck accepted
      (if (w.tables.entryOf contentID tenantID).isSome then w.tables.chunks contentID else [])
  | .insertChunks contentID chunks =>
    execute w luck accepted (w.tables.insertChunks contentID chunks)
  | .selectHashes tenantID hashes =>
    query w luck accepted (reorder luck.order (w.tables.hashes tenantID hashes))
  | .getMem key => some (lookupMem w.mem key, w)
  | .putMem key content =>
    some ((), { w with mem := putMemContent w.memMax luck.order key content w.mem })
  | .rangeMem => some (reorder luck.order (w.mem.map Prod.snd), w)
  | .head key => some (w.head key, w)
  | .generateID => some (luck.id, w)

theorem query_spec {answer : α} {reply : Except GoError α}
    (asked : query w luck accepted answer = some (reply, w')) :
    w' = w ∧ (reply = .ok answer ∨ reply = .error luck.err) := by
  unfold query at asked
  split at asked
  · cases asked
    exact ⟨rfl, .inl rfl⟩
  · cases asked
    exact ⟨rfl, .inr rfl⟩

/-- A statement that is reported as done has been carried out; one that is not may have been. -/
theorem execute_spec (asked : execute w luck accepted tables = some (reply, w')) :
    (reply = .error luck.err ∧ w' = w) ∨ (accepted = true ∧ w' = { w with tables := tables }) := by
  unfold execute at asked
  split at asked
  · rename_i holds
    cases fate : luck.fate with
    | done =>
      simp only [fate, Option.some.injEq, Prod.mk.injEq] at asked
      exact .inr ⟨holds, asked.2.symm⟩
    | failed =>
      simp only [fate, Option.some.injEq, Prod.mk.injEq] at asked
      exact .inl ⟨asked.1.symm, asked.2.symm⟩
    | lost =>
      simp only [fate, Option.some.injEq, Prod.mk.injEq] at asked
      exact .inr ⟨holds, asked.2.symm⟩
  · cases asked
    exact .inl ⟨rfl, rfl⟩

/-- Handlers change neither the blob store nor the limit of the map. -/
theorem World.serve_fixed {limits : Limits} {luck : Luck} {w w' : World} {q : ContentCall}
    {reply : ContentCall.Reply q} (served : w.serve limits luck q = some (reply, w')) :
    w'.memMax = w.memMax ∧ w'.head = w.head := by
  cases q with
  | getMem | putMem | rangeMem | head | generateID =>
    cases served
    exact ⟨rfl, rfl⟩
  | selectEntry | selectAnyEntry | selectChunks | selectHashes =>
    obtain ⟨rfl, -⟩ := query_spec served
    exact ⟨rfl, rfl⟩
  | insertEntry | insertChunks =>
    obtain ⟨-, rfl⟩ | ⟨-, rfl⟩ := execute_spec served
    · exact ⟨rfl, rfl⟩
    · exact ⟨rfl, rfl⟩

variable {rows : ChunkRows}

theorem ChunkRows.mem_insert (member : d ∈ ChunkRows.insert c rows) : d = c ∨ d ∈ rows := by
  induction rows with
  | nil => exact .inl (List.mem_singleton.mp member)
  | cons first rest ih =>
    unfold ChunkRows.insert at member
    split at member
    · exact List.mem_cons.mp member
    · split at member
      · exact .inr member
      · rcases List.mem_cons.mp member with rfl | later
        · exact .inr List.mem_cons_self
        · exact (ih later).imp_right (List.mem_cons_of_mem first)

theorem ChunkRows.mem_insertAll (member : d ∈ rows.insertAll chunks) : d ∈ rows ∨ d ∈ chunks := by
  induction chunks generalizing rows with
  | nil => exact .inl member
  | cons c rest ih =>
    rcases ih member with before | later
    · rcases ChunkRows.mem_insert before with rfl | old
      · exact .inr List.mem_cons_self
      · exact .inl old
    · exact .inr (List.mem_cons_of_mem c later)

/-- The primary key: one row of each index, in index order. -/
def ChunkRows.Sorted (rows : ChunkRows) : Prop :=
  rows.Pairwise fun first second => first.chunkIndex < second.chunkIndex

theorem ChunkRows.Sorted.insert (sorted : rows.Sorted) (c : ContentChunk) :
    (ChunkRows.insert c rows).Sorted := by
  induction rows with
  | nil => exact List.pairwise_singleton _ _
  | cons first rest ih =>
    obtain ⟨least, tail⟩ := List.pairwise_cons.mp sorted
    unfold ChunkRows.insert
    split
    · rename_i before
      apply List.pairwise_cons.mpr
      constructor
      · intro d member
        rcases List.mem_cons.mp member with rfl | later
        · exact before
        · exact before.trans (least d later)
      · exact sorted
    · split
      · exact sorted
      · apply List.pairwise_cons.mpr
        constructor
        · intro d member
          rcases ChunkRows.mem_insert member with rfl | old
          · omega
          · exact least d old
        · exact ih tail

theorem ChunkRows.Sorted.insertAll (sorted : rows.Sorted)
    (chunks : List ContentChunk) : (rows.insertAll chunks).Sorted := by
  induction chunks generalizing rows with
  | nil => exact sorted
  | cons c rest ih => exact ih (sorted.insert c)

theorem ChunkRows.insert_perm (fresh : c.chunkIndex ∉ rows.map ContentChunk.chunkIndex) :
    (ChunkRows.insert c rows).Perm (c :: rows) := by
  induction rows with
  | nil => exact .refl _
  | cons first rest ih =>
    simp only [List.map_cons, List.mem_cons, not_or] at fresh
    unfold ChunkRows.insert
    split
    · exact .refl _
    · rw [if_neg fresh.1]
      exact ((ih fresh.2).cons first).trans (.swap c first rest)

theorem ChunkRows.insertAll_perm (distinct : ((rows ++ chunks).map ContentChunk.chunkIndex).Nodup) :
    (rows.insertAll chunks).Perm (rows ++ chunks) := by
  induction chunks generalizing rows with
  | nil => simp [ChunkRows.insertAll]
  | cons c rest ih =>
    have moved : (rows ++ c :: rest).Perm (c :: rows ++ rest) := List.perm_middle
    have distinct := (moved.map ContentChunk.chunkIndex).nodup_iff.mp distinct
    have fresh : c.chunkIndex ∉ rows.map ContentChunk.chunkIndex := by
      simp only [List.cons_append, List.map_cons, List.map_append, List.nodup_cons,
        List.mem_append, not_or] at distinct
      exact distinct.1.1
    have inserted := (ChunkRows.insert_perm fresh).append_right rest
    have perm : (ChunkRows.insertAll (ChunkRows.insert c rows) rest).Perm
        (ChunkRows.insert c rows ++ rest) :=
      ih ((inserted.map ContentChunk.chunkIndex).nodup_iff.mpr distinct)
    exact (perm.trans inserted).trans moved.symm

theorem ContentTables.insertEntry_kept {t : ContentTables} (entry : ContentEntry)
    (found : t.entries contentID = some old) :
    (t.insertEntry entry).entries contentID = some old := by
  unfold ContentTables.insertEntry
  cases there : t.entries entry.contentID with
  | some _ => exact found
  | none =>
    have apart : contentID ≠ entry.contentID := by
      rintro rfl
      rw [there] at found
      cases found
    simp only [Function.update_of_ne apart, found]

theorem ContentTables.insertEntry_absent {t : ContentTables} {body : RegisterBody}
    (absent : t.entries body.contentID = none) (tenantID : String) :
    t.insertEntry (body.entry tenantID) =
      { t with
        entries := Function.update t.entries body.contentID (some (body.entry tenantID))
        ids := t.ids ++ [body.contentID] } := by
  have absent : t.entries (body.entry tenantID).contentID = none := absent
  simp only [ContentTables.insertEntry, absent]
  rfl

theorem ContentTables.insertEntry_chunks (t : ContentTables) (entry : ContentEntry) :
    (t.insertEntry entry).chunks = t.chunks := by
  unfold ContentTables.insertEntry
  cases t.entries entry.contentID <;> rfl

/-- The entry that stands there afterwards is the old one, or the new one if there was none. -/
theorem ContentTables.insertEntry_self (t : ContentTables) (entry : ContentEntry) :
    (t.insertEntry entry).entries entry.contentID =
      some ((t.entries entry.contentID).getD entry) := by
  unfold ContentTables.insertEntry
  cases there : t.entries entry.contentID with
  | some old => simp [there]
  | none => simp

theorem ContentTables.insertChunks_at (t : ContentTables) (contentID other : String)
    (chunks : List ContentChunk) :
    (t.insertChunks contentID chunks).chunks other =
      if other = contentID then (t.chunks contentID).insertAll chunks else t.chunks other := by
  simp only [ContentTables.insertChunks, Function.update_apply]

/-- Below the limit nothing is evicted. -/
theorem lookupMem_put (room : mem.length < limit) (order : Nat) (key other : String)
    (content : MemContent) :
    lookupMem (putMemContent limit order key content mem) other =
      if other = key then some content else lookupMem mem other := by
  have first : ¬ mem.length ≥ limit := by omega
  have second : ¬ (0 < limit ∧ mem.length > limit * 10) := by omega
  simp only [putMemContent, if_neg first, if_neg second, lookupMem]
  by_cases same : other = key
  · simp [same]
  · have apart : ¬ key = other := fun equal => same equal.symm
    rw [if_neg same, List.find?_cons_of_neg (by simpa using apart), List.find?_filter]
    congr 2
    funext pair
    by_cases here : pair.1 = other
    · simp [here, same]
    · simp [here]

end KDrive.Server
