import KDrive.Server.Backends
import KDrive.Server.MemMaps
import KDrive.Server.Ownership
import Mathlib.Data.List.Perm.Basic

/-! Looking up chunks by their hashes, over both back ends and in every state that register
requests can lead to, overlapping ones, failed ones and evictions included. -/
namespace KDrive.Server
open Go Interaction Metadata

/-- Any number of register requests, without restriction. -/
abbrev anyRegistering (limits : Limits) (g : Gateway) :=
  registering limits g fun _ _ _ _ _ => True

/-- The one query over all entries meets each that is there, and the map has a key once. -/
structure Indexed (w : World) : Prop where
  ids : ∀ contentID, contentID ∈ w.tables.ids ↔ (w.tables.entries contentID).isSome
  keys : (w.mem.map Prod.fst).Nodup

theorem putMemContent_keys {mem : List (String × MemContent)} (keys : (mem.map Prod.fst).Nodup)
    (max order : Nat) (key : String) (content : MemContent) :
    ((putMemContent max order key content mem).map Prod.fst).Nodup := by
  obtain ⟨rest, put, left, others⟩ := putMemContent_cons max order key content mem
  rw [put]
  refine List.nodup_cons.mpr ⟨?_, keys.sublist (left.map Prod.fst)⟩
  intro again
  obtain ⟨pair, member, same⟩ := List.mem_map.mp again
  exact others pair member same

theorem Indexed.serve {limits : Limits} {w w' : World} {q : ContentCall}
    {reply : ContentCall.Reply q} (indexed : Indexed w)
    (served : w.serve limits luck q = some (reply, w')) : Indexed w' := by
  cases q with
  | getMem | rangeMem | head | generateID =>
    cases served
    exact indexed
  | putMem key content =>
    cases served
    exact ⟨indexed.ids, putMemContent_keys indexed.keys ..⟩
  | selectEntry | selectAnyEntry | selectChunks | selectHashes =>
    obtain ⟨rfl, -⟩ := query_spec served
    exact indexed
  | insertChunks contentID chunks =>
    obtain ⟨-, rfl⟩ | ⟨-, rfl⟩ := execute_spec served
    · exact indexed
    · exact ⟨indexed.ids, indexed.keys⟩
  | insertEntry entry =>
    obtain ⟨-, rfl⟩ | ⟨-, rfl⟩ := execute_spec served
    · exact indexed
    · refine ⟨fun contentID => ?_, indexed.keys⟩
      unfold ContentTables.insertEntry
      split
      · exact indexed.ids contentID
      · by_cases same : contentID = entry.contentID
        · simp [same]
        · simpa [same] using indexed.ids contentID

theorem registering_indexed {limits : Limits} {g : Gateway}
    (run : (anyRegistering limits g).Reaches ⟨emptyRegistry memMax head, []⟩ s) :
    Indexed s.world.world := by
  refine Machine.reaches_keeps (fun w : Registry => Indexed w.world) ?_ ?_ ?_ ?_ run
  · rintro a r b indexed ⟨-, started⟩
    cases started
    exact indexed
  · intro a r q reply b indexed served
    obtain ⟨luck, world, answered, rfl⟩ := registering_served served
    exact indexed.serve answered
  · rintro a b - ⟨change, -⟩
    exact change.elim
  · exact ⟨fun _ => by simp [emptyRegistry], List.nodup_nil⟩

/-- A chunk of a content that is stored and the tenant's. -/
def OwnChunk (g : Gateway) (w : World) (tenantID : String) (c : ContentChunk) : Prop :=
  ∃ contentID, owner g w contentID = some tenantID ∧ c ∈ storedChunks g w contentID

/-- One result per hash and in their order; a hash is there if the tenant has a chunk with it,
and its blob key is that of such a chunk. -/
def Tells (g : Gateway) (w : World) (tenantID : String) (hashes : List String)
    (answer : Response) : Prop :=
  ∃ keyOf : String → Option String,
    answer = ⟨200, .results (hashes.map fun hash => (hash, keyOf hash))⟩ ∧
    ∀ hash ∈ hashes,
      ((keyOf hash).isSome ↔ ∃ c, OwnChunk g w tenantID c ∧ c.chunkContentHash = hash) ∧
      ∀ key, keyOf hash = some key →
        ∃ c, OwnChunk g w tenantID c ∧ c.chunkContentHash = hash ∧ c.blobKey = key

/-- The rows that a lookup goes by are the tenant's chunks with the hashes. -/
def ListsOwn (g : Gateway) (w : World) (tenantID : String) (hashes : List String)
    (rows : List (String × String)) : Prop :=
  ∀ hash ∈ hashes, ∀ key, (hash, key) ∈ rows ↔
    ∃ c, OwnChunk g w tenantID c ∧ c.chunkContentHash = hash ∧ c.blobKey = key

section
variable {g : Gateway} {w : World} {tenantID hash key : String} {hashes : List String}
  {rows : List (String × String)}

theorem knownHash_mem (known : knownHash rows hash = some key) : (hash, key) ∈ rows := by
  obtain ⟨⟨other, _⟩, found, rfl⟩ := Option.map_eq_some_iff.mp known
  have same : other = hash := by simpa using List.find?_some found
  exact same ▸ List.mem_reverse.mp (List.mem_of_find?_eq_some found)

theorem knownHash_isSome : (knownHash rows hash).isSome ↔ ∃ key, (hash, key) ∈ rows := by
  constructor
  · intro known
    obtain ⟨key, known⟩ := Option.isSome_iff_exists.mp known
    exact ⟨key, knownHash_mem known⟩
  · rintro ⟨key, member⟩
    rw [knownHash, Option.isSome_map, List.find?_isSome]
    exact ⟨(hash, key), List.mem_reverse.mpr member, by simp⟩

theorem ListsOwn.tells (lists : ListsOwn g w tenantID hashes rows) :
    Tells g w tenantID hashes
      ⟨200, .results (hashes.map fun hash => (hash, knownHash rows hash))⟩ := by
  refine ⟨knownHash rows, rfl, fun hash asked => ⟨?_, ?_⟩⟩
  · rw [knownHash_isSome]
    constructor
    · rintro ⟨key, member⟩
      obtain ⟨c, own, same, -⟩ := (lists hash asked key).mp member
      exact ⟨c, own, same⟩
    · rintro ⟨c, own, same⟩
      exact ⟨c.blobKey, (lists hash asked c.blobKey).mpr ⟨c, own, same, rfl⟩⟩
  · intro key known
    exact (lists hash asked key).mp (knownHash_mem known)

end

section Rows
variable {g : Gateway} {w : World} {tenantID hash key : String} {hashes : List String}

theorem entryOf_isSome (db : g.metaDB = true) (contentID : String) :
    (w.tables.entryOf contentID tenantID).isSome ↔ owner g w contentID = some tenantID := by
  simp only [owner, db, if_true, ContentTables.entryOf]
  cases w.tables.entries contentID with
  | none => simp
  | some entry => simp [Option.filter]

theorem mem_hashes (db : g.metaDB = true) (indexed : Indexed w) :
    (hash, key) ∈ w.tables.hashes tenantID hashes ↔ hash ∈ hashes ∧
      ∃ c, OwnChunk g w tenantID c ∧ c.chunkContentHash = hash ∧ c.blobKey = key := by
  simp only [ContentTables.hashes, List.mem_dedup, List.mem_flatMap, List.mem_filter, List.mem_map,
    Prod.mk.injEq]
  have chunks (contentID : String) : storedChunks g w contentID = w.tables.chunks contentID := by
    rw [storedChunks, if_pos db]
  constructor
  · rintro ⟨id, ⟨-, mine⟩, c, ⟨member, asked⟩, rfl, rfl⟩
    refine ⟨by simpa using asked, c, ⟨id, (entryOf_isSome db id).mp mine, ?_⟩, rfl, rfl⟩
    rw [chunks]
    exact member
  · rintro ⟨asked, c, ⟨id, mine, member⟩, rfl, rfl⟩
    have there := (entryOf_isSome db id).mpr mine
    obtain ⟨entry, found⟩ := Option.isSome_iff_exists.mp there
    have listed : id ∈ w.tables.ids :=
      (indexed.ids id).mpr (Option.isSome_iff_exists.mpr ⟨entry, (entryOf_eq_some found).1⟩)
    rw [chunks] at member
    exact ⟨id, ⟨listed, there⟩, c, ⟨member, by simpa using asked⟩, rfl, rfl⟩

theorem mem_tenantHashes (noDB : g.metaDB = false) (indexed : Indexed w) :
    (hash, key) ∈ tenantHashes (w.mem.map Prod.snd) tenantID ↔
      ∃ c, OwnChunk g w tenantID c ∧ c.chunkContentHash = hash ∧ c.blobKey = key := by
  simp only [tenantHashes, List.mem_flatMap, List.mem_filter, List.mem_map, Prod.mk.injEq,
    OwnChunk, owner, storedChunks, noDB, Bool.false_eq_true, if_false, Option.map_eq_some_iff]
  constructor
  · rintro ⟨_, ⟨⟨⟨id, content⟩, member, rfl⟩, mine⟩, c, inside, rfl, rfl⟩
    have found := (lookupMem_iff indexed.keys).mpr member
    refine ⟨c, ⟨id, ⟨content, found, by simpa using mine⟩, ?_⟩, rfl, rfl⟩
    rw [found]
    exact inside
  · rintro ⟨c, ⟨id, ⟨content, found, rfl⟩, inside⟩, rfl, rfl⟩
    rw [found] at inside
    have member := (lookupMem_iff indexed.keys).mp found
    exact ⟨content, ⟨⟨(id, content), member, rfl⟩, by simp⟩, c, inside, rfl, rfl⟩

theorem listsOwn_hashes (db : g.metaDB = true) (indexed : Indexed w) (order : Nat) :
    ListsOwn g w tenantID hashes (reorder order (w.tables.hashes tenantID hashes)) := by
  intro hash asked key
  rw [mem_reorder, mem_hashes db indexed]
  exact and_iff_right asked

theorem listsOwn_tenantHashes (noDB : g.metaDB = false) (indexed : Indexed w) (order : Nat) :
    ListsOwn g w tenantID hashes
      (tenantHashes (reorder order (w.mem.map Prod.snd)) tenantID) := by
  intro hash _ key
  rw [← mem_tenantHashes noDB indexed]
  simp only [tenantHashes, List.mem_flatMap, List.mem_filter, mem_reorder]

end Rows

/-! ### The answers -/

def foundChunks (hashes : List String) (rows : List (String × String)) : Response :=
  ⟨200, .results (hashes.map fun hash => (hash, knownHash rows hash))⟩

section
variable {limits : Limits} {admits : World → ContentCall → Luck → Prop} {g : Gateway}
  {r : Request CheckChunksBody} {body : CheckChunksBody}

theorem tables_lookup_iff (db : g.metaDB = true) (received : r.received = .ok body) :
    Runs (statements limits admits) w (handleContentCheckChunks g r) answer w' ↔
      w' = w ∧ ∃ luck : Luck, luck.Genuine ∧
        admits w (.selectHashes r.tenantID body.chunkHashes) luck ∧
        answer = if limits.accepts w.tables (.selectHashes r.tenantID body.chunkHashes) &&
            luck.fate = .done
          then foundChunks body.chunkHashes
            (reorder luck.order (w.tables.hashes r.tenantID body.chunkHashes))
          else writeError 500 "internal error" := by
  rw [handleContentCheckChunks, answering_eq, received]
  simp only [db, if_true, checkChunkHashes, Program.ask_bind]
  constructor
  · intro run
    cases run with
    | ask served rest =>
      obtain ⟨luck, genuine, admitted, served⟩ := served
      simp only [World.serve, query] at served
      split at served
      · rename_i done
        cases served
        cases rest
        exact ⟨rfl, luck, genuine, admitted, by rw [if_pos done]; rfl⟩
      · rename_i failed
        cases served
        cases rest
        exact ⟨rfl, luck, genuine, admitted, by rw [if_neg failed]⟩
  · rintro ⟨rfl, luck, genuine, admitted, rfl⟩
    split
    · rename_i done
      have served : statements limits admits w' (.selectHashes r.tenantID body.chunkHashes)
          (.ok (reorder luck.order (w'.tables.hashes r.tenantID body.chunkHashes))) w' :=
        ⟨luck, genuine, admitted, by simp only [World.serve, query]; rw [if_pos done]; rfl⟩
      exact .ask served .ret
    · rename_i failed
      have served : statements limits admits w' (.selectHashes r.tenantID body.chunkHashes)
          (.error luck.err) w' :=
        ⟨luck, genuine, admitted, by simp only [World.serve, query]; rw [if_neg failed]; rfl⟩
      exact .ask served .ret

theorem map_lookup_iff (noDB : g.metaDB = false) (received : r.received = .ok body) :
    Runs (statements limits admits) w (handleContentCheckChunks g r) answer w' ↔
      w' = w ∧ ∃ luck : Luck, luck.Genuine ∧ admits w .rangeMem luck ∧
        answer = foundChunks body.chunkHashes
          (tenantHashes (reorder luck.order (w.mem.map Prod.snd)) r.tenantID) := by
  rw [handleContentCheckChunks, answering_eq, received]
  simp only [noDB, Bool.false_eq_true, if_false]
  constructor
  · intro run
    cases run with
    | ask served rest =>
      obtain ⟨luck, genuine, admitted, served⟩ := served
      cases served
      cases rest
      exact ⟨rfl, luck, genuine, admitted, rfl⟩
  · rintro ⟨rfl, luck, genuine, admitted, rfl⟩
    exact .ask ⟨luck, genuine, admitted, rfl⟩ .ret

end

/-! ### Other tenants -/

/-- The tenant has the same contents in both worlds. -/
def SameFor (g : Gateway) (tenantID : String) (a b : World) : Prop :=
  ∀ contentID, (owner g a contentID = some tenantID ↔ owner g b contentID = some tenantID) ∧
    (owner g a contentID = some tenantID → storedChunks g a contentID = storedChunks g b contentID)

section
variable {limits : Limits} {g : Gateway} {a b : World} {tenantID : String}

theorem SameFor.symm (same : SameFor g tenantID a b) : SameFor g tenantID b a := by
  intro contentID
  obtain ⟨owned, chunks⟩ := same contentID
  exact ⟨owned.symm, fun mine => (chunks (owned.mpr mine)).symm⟩

theorem SameFor.ownChunk (same : SameFor g tenantID a b) (own : OwnChunk g a tenantID c) :
    OwnChunk g b tenantID c := by
  obtain ⟨contentID, mine, inside⟩ := own
  obtain ⟨owned, chunks⟩ := same contentID
  exact ⟨contentID, owned.mp mine, chunks mine ▸ inside⟩

theorem SameFor.hashes_perm (same : SameFor g tenantID a b) (db : g.metaDB = true)
    (first : Indexed a) (second : Indexed b) (hashes : List String) :
    (a.tables.hashes tenantID hashes).Perm (b.tables.hashes tenantID hashes) := by
  have once (w : World) : (w.tables.hashes tenantID hashes).Nodup := List.nodup_dedup _
  refine (List.perm_ext_iff_of_nodup (once a) (once b)).mpr ?_
  rintro ⟨hash, key⟩
  rw [mem_hashes db first, mem_hashes db second]
  have own (c : ContentChunk) : OwnChunk g a tenantID c ↔ OwnChunk g b tenantID c :=
    ⟨same.ownChunk, same.symm.ownChunk⟩
  simp only [own]

/-- The tenant's part of the map. -/
def ownContents (w : World) (tenantID : String) : List (String × MemContent) :=
  w.mem.filter fun pair => pair.2.tenantID = tenantID

theorem ownContents_nodup (indexed : Indexed w) (tenantID : String) :
    ((ownContents w tenantID).map fun pair => (pair.1, pair.2.chunks)).Nodup := by
  refine List.Nodup.of_map Prod.fst ?_
  rw [List.map_map]
  exact indexed.keys.sublist (List.filter_sublist.map Prod.fst)

theorem mem_ownContents (noDB : g.metaDB = false) (indexed : Indexed w) :
    (key, chunks) ∈ (ownContents w tenantID).map (fun pair => (pair.1, pair.2.chunks)) ↔
      owner g w key = some tenantID ∧ storedChunks g w key = chunks := by
  simp only [ownContents, owner, storedChunks, noDB, Bool.false_eq_true, if_false, List.mem_map,
    List.mem_filter, decide_eq_true_eq, Prod.mk.injEq, Option.map_eq_some_iff]
  constructor
  · rintro ⟨⟨key, content⟩, ⟨member, mine⟩, rfl, rfl⟩
    have found := (lookupMem_iff indexed.keys).mpr member
    exact ⟨⟨content, found, mine⟩, by rw [found]; rfl⟩
  · rintro ⟨⟨content, found, mine⟩, rfl⟩
    have member := (lookupMem_iff indexed.keys).mp found
    exact ⟨(key, content), ⟨member, mine⟩, rfl, by rw [found]; rfl⟩

theorem SameFor.ownContents_perm (same : SameFor g tenantID a b) (noDB : g.metaDB = false)
    (first : Indexed a) (second : Indexed b) :
    ((ownContents a tenantID).map fun pair => pair.2.chunks).Perm
      ((ownContents b tenantID).map fun pair => pair.2.chunks) := by
  have pairs : ((ownContents a tenantID).map fun pair => (pair.1, pair.2.chunks)).Perm
      ((ownContents b tenantID).map fun pair => (pair.1, pair.2.chunks)) := by
    refine (List.perm_ext_iff_of_nodup (ownContents_nodup first tenantID)
      (ownContents_nodup second tenantID)).mpr ?_
    rintro ⟨key, chunks⟩
    rw [mem_ownContents noDB first, mem_ownContents noDB second]
    obtain ⟨owned, equal⟩ := same key
    constructor
    · rintro ⟨mine, rfl⟩
      exact ⟨owned.mp mine, (equal mine).symm⟩
    · rintro ⟨mine, rfl⟩
      exact ⟨owned.mpr mine, equal (owned.mpr mine)⟩
  have chunks := pairs.map Prod.snd
  rwa [List.map_map, List.map_map] at chunks

/-- A walk over the map is, for the tenant, a walk over its own part of it. -/
theorem tenantHashes_eq (entries : List MemContent) (tenantID : String) :
    tenantHashes entries tenantID =
      ((entries.filter fun entry => entry.tenantID = tenantID).map MemContent.chunks).flatMap
        fun chunks => chunks.map fun c => (c.chunkContentHash, c.blobKey) := by
  rw [tenantHashes, List.flatMap_map]

/-- Every order of the tenant's part is that of some walk over the whole map. -/
theorem exists_walk {lists : List (List ContentChunk)}
    (perm : lists.Perm ((ownContents w tenantID).map fun pair => pair.2.chunks)) :
    ∃ order, ((reorder order (w.mem.map Prod.snd)).filter fun entry =>
      entry.tenantID = tenantID).map MemContent.chunks = lists := by
  have filtered : (ownContents w tenantID).map Prod.snd =
      (w.mem.map Prod.snd).filter fun entry => entry.tenantID = tenantID := by
    rw [ownContents, List.filter_map]
    rfl
  have through : lists.Perm (((w.mem.map Prod.snd).filter fun entry =>
      entry.tenantID = tenantID).map MemContent.chunks) := by
    rw [← filtered, List.map_map]
    exact perm
  obtain ⟨mine, rfl, mineperm⟩ :=
    (congrFun (congrFun (List.eq_map_comp_perm MemContent.chunks) lists) _).mpr through
  -- the tenant's contents in the order wanted, and all others behind them
  obtain ⟨order, walked⟩ := exists_reorder
    ((mineperm.append_right _).trans
      (List.filter_append_perm (fun entry : MemContent => decide (entry.tenantID = tenantID))
        (w.mem.map Prod.snd)))
  refine ⟨order, ?_⟩
  rw [walked, List.filter_append]
  have all : mine.filter (fun entry => entry.tenantID = tenantID) = mine := by
    apply List.filter_eq_self.mpr
    intro entry member
    exact (List.mem_filter.mp (mineperm.mem_iff.mp member)).2
  have others : ((w.mem.map Prod.snd).filter fun entry =>
      !decide (entry.tenantID = tenantID)).filter (fun entry => entry.tenantID = tenantID) = [] := by
    apply List.filter_eq_nil_iff.mpr
    intro entry member
    simpa using (List.mem_filter.mp member).2
  rw [all, others, List.append_nil]

end

/-- The answers that a request can be given in a world. -/
def Answers (limits : Limits) (g : Gateway) (w : World) (r : Request CheckChunksBody)
    (answer : Response) : Prop :=
  ∃ w', Runs (statements limits anyFate) w (handleContentCheckChunks g r) answer w'

theorem SameFor.answers {limits : Limits} {g : Gateway} {a b : World} {r : Request CheckChunksBody}
    (same : SameFor g r.tenantID a b) (first : Indexed a) (second : Indexed b)
    (received : r.received = .ok body) (answers : Answers limits g a r answer) :
    Answers limits g b r answer := by
  obtain ⟨w', run⟩ := answers
  cases db : g.metaDB with
  | true =>
    obtain ⟨-, luck, genuine, -, rfl⟩ := (tables_lookup_iff db received).mp run
    have perm := (reorder_perm luck.order _).trans
      (same.hashes_perm db first second body.chunkHashes)
    obtain ⟨order, walked⟩ := exists_reorder perm
    refine ⟨b, (tables_lookup_iff db received).mpr ⟨rfl, { luck with order := order },
      ⟨genuine.found, genuine.rows⟩, trivial, ?_⟩⟩
    rw [walked]
    rfl
  | false =>
    obtain ⟨-, luck, genuine, -, rfl⟩ := (map_lookup_iff db received).mp run
    have mine : (((reorder luck.order (a.mem.map Prod.snd)).filter fun entry =>
        entry.tenantID = r.tenantID).map MemContent.chunks).Perm
          ((ownContents a r.tenantID).map fun pair => pair.2.chunks) := by
      have perm := ((reorder_perm luck.order (a.mem.map Prod.snd)).filter
        fun entry => decide (entry.tenantID = r.tenantID)).map MemContent.chunks
      rwa [List.filter_map, List.map_map] at perm
    obtain ⟨order, walked⟩ := exists_walk (mine.trans (same.ownContents_perm db first second))
    refine ⟨b, (map_lookup_iff db received).mpr ⟨rfl, { luck with order := order },
      ⟨genuine.found, genuine.rows⟩, trivial, ?_⟩⟩
    rw [tenantHashes_eq, tenantHashes_eq, walked]

/-- The database carries out what it is asked. -/
def carriedOut (limits : Limits) (w : World) (q : ContentCall) (luck : Luck) : Prop :=
  limits.accepts w.tables q = true ∧ luck.fate = .done

/-- What a lookup of a list of hashes comes to. -/
structure LooksUp (limits : Limits) (g : Gateway) (w : World) (r : Request CheckChunksBody)
    (hashes : List String) : Prop where
  /-- Nothing is changed, and nothing but the truth is told; if the database fails, nothing. -/
  sound : ∀ answer w', Runs (statements limits anyFate) w (handleContentCheckChunks g r) answer w' →
    w' = w ∧ (Tells g w r.tenantID hashes answer ∨
      g.metaDB = true ∧ answer = writeError 500 "internal error")
  /-- Unless the database fails, the truth is told. -/
  complete : ∀ answer w',
    Runs (statements limits (carriedOut limits)) w (handleContentCheckChunks g r) answer w' →
      Tells g w r.tenantID hashes answer
  /-- Over the map that is always so, over the tables for texts that Postgres takes. -/
  answered : g.metaDB = false ∨ storable r.tenantID = true ∧ hashes.all storable = true →
    ∃ answer w',
      Runs (statements limits (carriedOut limits)) w (handleContentCheckChunks g r) answer w'
  /-- A hash with a NUL is no text to Postgres, and then nothing is told. -/
  refused : g.metaDB = true → hashes.all storable = false → ∀ answer w',
    Runs (statements limits anyFate) w (handleContentCheckChunks g r) answer w' →
      answer = writeError 500 "internal error"

/-- Chunks are found by their hashes in every state that register requests lead to: exactly those
of the tenant's own contents, whatever other tenants have. The map of such a state is the two
maps of the source, which go on as it does. -/
theorem chunks_looked_up (limits : Limits) (g : Gateway) (memMax : Nat)
    (head : String → Except GoError Unit)
    (run : (anyRegistering limits g).Reaches ⟨emptyRegistry memMax head, []⟩ s)
    (r : Request CheckChunksBody) (received : r.received = .ok body) :
    TwoMaps s.world.world ∧ LooksUp limits g s.world.world r body.chunkHashes ∧
      ∀ t, (anyRegistering limits g).Reaches ⟨emptyRegistry memMax head, []⟩ t →
        SameFor g r.tenantID s.world.world t.world.world →
        ∀ answer, Answers limits g s.world.world r answer ↔
          Answers limits g t.world.world r answer := by
  have indexed := registering_indexed run
  refine ⟨twoMaps indexed.keys, ?_, ?_⟩
  · cases db : g.metaDB with
    | true =>
      constructor
      · intro answer w' ran
        obtain ⟨rfl, luck, -, -, rfl⟩ := (tables_lookup_iff db received).mp ran
        refine ⟨rfl, ?_⟩
        split
        · exact .inl (listsOwn_hashes db indexed luck.order).tells
        · exact .inr ⟨db, rfl⟩
      · intro answer w' ran
        obtain ⟨rfl, luck, -, ⟨accepted, done⟩, rfl⟩ := (tables_lookup_iff db received).mp ran
        rw [if_pos (by rw [accepted, done]; rfl)]
        exact (listsOwn_hashes db indexed luck.order).tells
      · intro texts
        rcases texts with none | ⟨tenant, hashes⟩
        · rw [db] at none
          cases none
        · refine ⟨_, _, (tables_lookup_iff db received).mpr
            ⟨rfl, {}, ⟨by decide, by decide⟩, ⟨?_, rfl⟩, rfl⟩⟩
          simp only [Limits.accepts, tenant, hashes, Bool.and_self]
      · intro _ nul answer w' ran
        obtain ⟨-, luck, -, -, rfl⟩ := (tables_lookup_iff db received).mp ran
        simp only [Limits.accepts, nul, Bool.and_false, Bool.false_and, Bool.false_eq_true, if_false]
    | false =>
      constructor
      · intro answer w' ran
        obtain ⟨rfl, luck, -, -, rfl⟩ := (map_lookup_iff db received).mp ran
        exact ⟨rfl, .inl (listsOwn_tenantHashes db indexed luck.order).tells⟩
      · intro answer w' ran
        obtain ⟨rfl, luck, -, -, rfl⟩ := (map_lookup_iff db received).mp ran
        exact (listsOwn_tenantHashes db indexed luck.order).tells
      · exact fun _ => ⟨_, _, (map_lookup_iff db received).mpr
          ⟨rfl, {}, ⟨by decide, by decide⟩, ⟨rfl, rfl⟩, rfl⟩⟩
      · intro impossible
        rw [db] at impossible
        cases impossible
  · intro t other same answer
    have elsewhere := registering_indexed other
    exact ⟨same.answers indexed elsewhere received, same.symm.answers elsewhere indexed received⟩

/-- Tenant a has registered a file, tenant b was turned away, and a looks for a chunk of it. -/
theorem chunks_looked_up_in_turn :
    ∃ s, (anyRegistering wideLimits ⟨true, true⟩).Reaches
        ⟨emptyRegistry 10 fun _ => .ok (), []⟩ s ∧
      owner ⟨true, true⟩ s.world.world "file" = some "a" ∧
      LooksUp wideLimits ⟨true, true⟩ s.world.world
        ⟨.post, "a", some ⟨"file", ["hash", "other"]⟩⟩ ["hash", "other"] := by
  have ran : ((registryDriver wideLimits).follow (handleContentRegister ⟨true, true⟩)
      (fun _ _ _ _ _ => true) oneAfterTheOther ⟨emptyRegistry 10 fun _ => .ok (), []⟩).any
        (fun s => owner ⟨true, true⟩ s.world.world "file" = some "a") = true := by
    decide +kernel
  obtain ⟨s, run, owned⟩ := (registryDriver wideLimits).follow_exhibits
    (fun _ _ _ _ _ _ => trivial) (fun _ _ => trivial) ran
  exact ⟨s, run, of_decide_eq_true owned, (chunks_looked_up wideLimits ⟨true, true⟩ 10
    (fun _ => .ok ()) run ⟨.post, "a", some ⟨"file", ["hash", "other"]⟩⟩ rfl).2.1⟩

/-- Asked for a hash with a NUL, the gateway has an answer over the map and none over Postgres,
though no statement is disturbed. -/
theorem lookup_of_nul_refused :
    (∀ answer w', Runs (statements wideLimits fun _ _ luck => luck.fate = .done)
        (emptyRegistry 10 fun _ => .ok ()).world (handleContentCheckChunks ⟨true, true⟩
          ⟨.post, "a", some ⟨"file", ["\x00"]⟩⟩) answer w' →
      ¬ Tells ⟨true, true⟩ (emptyRegistry 10 fun _ => .ok ()).world "a" ["\x00"] answer) ∧
    ∃ answer w', Runs (statements wideLimits fun _ _ luck => luck.fate = .done)
        (emptyRegistry 10 fun _ => .ok ()).world (handleContentCheckChunks ⟨false, true⟩
          ⟨.post, "a", some ⟨"file", ["\x00"]⟩⟩) answer w' ∧
      Tells ⟨false, true⟩ (emptyRegistry 10 fun _ => .ok ()).world "a" ["\x00"] answer := by
  have indexed : Indexed (emptyRegistry 10 fun _ => .ok ()).world :=
    registering_indexed (.refl : (anyRegistering wideLimits ⟨true, true⟩).Reaches ⟨_, []⟩ _)
  constructor
  · rintro answer w' ran ⟨keyOf, told, -⟩
    obtain ⟨-, luck, -, -, refused⟩ := (tables_lookup_iff rfl rfl).mp ran
    have nul : [ "\x00"].all storable = false := by decide
    simp only [Limits.accepts, nul, Bool.and_false, Bool.false_and, Bool.false_eq_true, if_false]
      at refused
    rw [refused] at told
    cases told
  · refine ⟨_, _, (map_lookup_iff rfl rfl).mpr ⟨rfl, {}, ⟨by decide, by decide⟩, rfl, rfl⟩, ?_⟩
    exact (listsOwn_tenantHashes rfl indexed 0).tells

end KDrive.Server
