import KDrive.Interaction.Interleaving
import KDrive.Server.ContentWorld

/-! Whose content it is: any number of register requests of any tenants, interleaved
statement by statement. -/
namespace KDrive.Server
open Go Interaction Metadata

/-- The requests that have come in stand beside the world. -/
structure Registry where
  world : World
  asked : List Register := []

def registryDriver (limits : Limits) : Driver contentInterface Registry Register Luck Empty where
  serve _ luck w q := (w.world.serve limits luck q).map fun (reply, world) => (reply, { w with world })
  starts w r := some { w with asked := w.asked ++ [r] }
  change e _ := e.elim

def owner (g : Gateway) (w : World) (contentID : String) : Option String :=
  if g.metaDB then (w.tables.entries contentID).map ContentEntry.tenantID
  else (lookupMem w.mem contentID).map (·.tenantID)

def storedChunks (g : Gateway) (w : World) (contentID : String) : List ContentChunk :=
  if g.metaDB then w.tables.chunks contentID
  else ((lookupMem w.mem contentID).map MemContent.chunks).getD []

/-- A request of the tenant brought the chunk. -/
def Supplied (w : Registry) (tenantID contentID : String) (c : ContentChunk) : Prop :=
  ∃ r ∈ w.asked, r.tenantID = tenantID ∧
    ∃ body, r.body = some body ∧ body.contentID = contentID ∧ c ∈ body.chunks

/-- The map does not have to make room. -/
def BelowLimit : Admission contentInterface Registry Register := fun _ _ w q _ =>
  match q with
  | .putMem _ _ => w.world.mem.length < w.world.memMax
  | _ => True

/-- Besides, an entry is only written where no other tenant has one. -/
def Unowned : Admission contentInterface Registry Register := fun r history w q reply =>
  BelowLimit r history w q reply ∧
    match q with
    | .insertEntry entry => ∀ old, w.world.tables.entries entry.contentID = some old →
        old.tenantID = entry.tenantID
    | .putMem key content => ∀ old, lookupMem w.world.mem key = some old →
        old.tenantID = content.tenantID
    | _ => True

def registering (limits : Limits) (g : Gateway)
    (admits : Admission contentInterface Registry Register) :
    Machine contentInterface Registry Register Response :=
  (registryDriver limits).machine (handleContentRegister g) (fun _ => True) admits

/-- An empty gateway. -/
def emptyRegistry (memMax : Nat) (head : String → Except GoError Unit) : Registry :=
  ⟨{ memMax := memMax, head := head }, []⟩

/-- A thread that was answered `registered: true`. -/
def RegisteredAs (s : System contentInterface Registry Register Response)
    (contentID tenantID : String) : Prop :=
  ∃ r history already, ⟨r, history, .ret ⟨200, .registered contentID already⟩⟩ ∈ s.threads ∧
    r.tenantID = tenantID

/-- A content_id has one owner. -/
structure OneOwner (g : Gateway) (s : System contentInterface Registry Register Response) :
    Prop where
  one : ∀ contentID tenantID other, RegisteredAs s contentID tenantID →
    RegisteredAs s contentID other → tenantID = other
  owner : ∀ contentID tenantID, RegisteredAs s contentID tenantID →
    owner g s.world.world contentID = some tenantID
  supplied : ∀ contentID c, c ∈ storedChunks g s.world.world contentID →
    ∃ tenantID, Server.owner g s.world.world contentID = some tenantID ∧
      Supplied s.world tenantID contentID c

/-- Every stored chunk was brought by a request of the tenant that has the entry. -/
structure Attributed (w : Registry) : Prop where
  tables : ∀ contentID c, c ∈ w.world.tables.chunks contentID → ∃ entry,
    w.world.tables.entries contentID = some entry ∧ Supplied w entry.tenantID contentID c
  mem : ∀ contentID content, lookupMem w.world.mem contentID = some content →
    ∀ c ∈ content.chunks, Supplied w content.tenantID contentID c

/-- Owners stay, and requests are not forgotten. -/
structure Lasting (a b : Registry) : Prop where
  entries : ∀ contentID entry, a.world.tables.entries contentID = some entry →
    b.world.tables.entries contentID = some entry
  mem : ∀ contentID content, lookupMem a.world.mem contentID = some content →
    ∃ later, lookupMem b.world.mem contentID = some later ∧ later.tenantID = content.tenantID
  asked : a.asked ⊆ b.asked

theorem Lasting.refl (w : Registry) : Lasting w w :=
  ⟨fun _ _ found => found, fun _ content found => ⟨content, found, rfl⟩, fun _ member => member⟩

theorem Lasting.trans {a b c : Registry} (first : Lasting a b) (second : Lasting b c) :
    Lasting a c := by
  constructor
  · intro contentID entry found
    exact second.entries contentID entry (first.entries contentID entry found)
  · intro contentID content found
    obtain ⟨later, there, same⟩ := first.mem contentID content found
    obtain ⟨last, still, equal⟩ := second.mem contentID later there
    exact ⟨last, still, equal.trans same⟩
  · exact fun r member => second.asked (first.asked member)

theorem Lasting.owner {a b : Registry} (lasting : Lasting a b) {g : Gateway}
    {contentID tenantID : String} (owned : owner g a.world contentID = some tenantID) :
    Server.owner g b.world contentID = some tenantID := by
  cases db : g.metaDB with
  | true =>
    simp only [Server.owner, db, if_true, Option.map_eq_some_iff] at owned ⊢
    obtain ⟨entry, found, same⟩ := owned
    exact ⟨entry, lasting.entries contentID entry found, same⟩
  | false =>
    simp only [Server.owner, db, Bool.false_eq_true, if_false, Option.map_eq_some_iff] at owned ⊢
    obtain ⟨content, found, same⟩ := owned
    obtain ⟨later, there, equal⟩ := lasting.mem contentID content found
    exact ⟨later, there, equal.trans same⟩

theorem Supplied.lasting {a b : Registry} (lasting : a.asked ⊆ b.asked)
    (supplied : Supplied a tenantID contentID c) : Supplied b tenantID contentID c := by
  obtain ⟨r, member, rest⟩ := supplied
  exact ⟨r, lasting member, rest⟩

def ownership : Discipline Registry := ⟨Attributed, Lasting, Lasting⟩

theorem ownership_coherent : ownership.Coherent :=
  ⟨Lasting.refl, fun first second => first.trans second, fun _ guaranteed => guaranteed⟩

/-- The program keeps owners and chunks as they are, and `post` holds of its answer. -/
abbrev Owning (limits : Limits) (g : Gateway) (admits : Admission contentInterface Registry Register)
    (r : Register) (post : History contentInterface → Response → Registry → Prop) :
    ContentProgram Response → History contentInterface → Registry → Prop :=
  Assures (registering limits g admits) ownership r post

section
variable {limits : Limits} {g : Gateway} {r : Register} {history : History contentInterface}
  {post : History contentInterface → Response → Registry → Prop}

theorem registering_served {w w' : Registry} {q : ContentCall} {reply : ContentCall.Reply q}
    (served : (registering limits g admits).handler r w q reply w') :
    ∃ luck world, w.world.serve limits luck q = some (reply, world) ∧ w' = ⟨world, w.asked⟩ := by
  obtain ⟨luck, served⟩ := served
  obtain ⟨⟨found, world⟩, asked, same⟩ := Option.map_eq_some_iff.mp served
  cases same
  exact ⟨luck, world, asked, rfl⟩

variable {w : Registry}

/-- A request that changes nothing, and what its answer says about the world. -/
theorem assures_read (q : ContentCall) (learns : World → ContentCall.Reply q → Prop)
    {next : ContentCall.Reply q → ContentProgram Response}
    (reads : ∀ (luck : Luck) (world : World) reply world',
      world.serve limits luck q = some (reply, world') → world' = world ∧ learns world reply)
    (rest : ∀ reply w', Lasting w w' → Attributed w' → learns w'.world reply →
      Owning limits g admits r post (next reply) (history ++ [⟨q, reply⟩]) w') :
    Owning limits g admits r post (.ask q next) history w := by
  intro w₁ rely inv reply w₂ admitted served
  obtain ⟨luck, world, asked, rfl⟩ := registering_served served
  obtain ⟨rfl, said⟩ := reads luck _ reply world asked
  exact ⟨inv, Lasting.refl w₁, rest reply w₁ rely inv said⟩

theorem Attributed.insertEntry (attributed : Attributed w) (entry : ContentEntry) :
    Attributed ⟨{ w.world with tables := w.world.tables.insertEntry entry }, w.asked⟩ := by
  constructor
  · intro contentID c member
    rw [ContentTables.insertEntry_chunks] at member
    obtain ⟨old, found, supplied⟩ := attributed.tables contentID c member
    exact ⟨old, ContentTables.insertEntry_kept entry found, supplied⟩
  · exact attributed.mem

theorem Attributed.insertChunks (attributed : Attributed w)
    (asked : r ∈ w.asked) (given : r.body = some body)
    (owned : w.world.tables.entries body.contentID = some entry)
    (own : entry.tenantID = r.tenantID) :
    Attributed ⟨{ w.world with
      tables := w.world.tables.insertChunks body.contentID body.chunks }, w.asked⟩ := by
  constructor
  · intro contentID c member
    rw [ContentTables.insertChunks_at] at member
    split at member
    · rename_i same
      subst same
      rcases ChunkRows.mem_insertAll member with old | new
      · exact attributed.tables body.contentID c old
      · exact ⟨entry, owned, r, asked, own.symm, body, given, rfl, new⟩
    · exact attributed.tables contentID c member
  · exact attributed.mem

theorem Attributed.putMem (attributed : Attributed w) (asked : r ∈ w.asked)
    (given : r.body = some body) (room : w.world.mem.length < w.world.memMax) (order : Nat) :
    Attributed ⟨{ w.world with
      mem := putMemContent w.world.memMax order body.contentID (body.content r.tenantID)
        w.world.mem }, w.asked⟩ := by
  constructor
  · exact attributed.tables
  · intro contentID content found
    rw [lookupMem_put room] at found
    split at found
    · rename_i same
      subst same
      cases found
      exact fun c member => ⟨r, asked, rfl, body, given, rfl, member⟩
    · exact attributed.mem contentID content found

/-- Inserting the entry: afterwards it is there under the request's own tenant. -/
theorem assures_insertEntry {entry : ContentEntry}
    {next : Except GoError Unit → ContentProgram Response}
    (failed : ∀ err w', Owning limits g Unowned r post
      (next (.error err)) (history ++ [⟨.insertEntry entry, .error err⟩]) w')
    (done : ∀ w' kept, Lasting w w' → w'.world.tables.entries entry.contentID = some kept →
      kept.tenantID = entry.tenantID →
      Owning limits g Unowned r post (next (.ok ()))
        (history ++ [⟨.insertEntry entry, .ok ()⟩]) w') :
    Owning limits g Unowned r post (.ask (.insertEntry entry) next) history w := by
  intro w₁ rely inv reply w₂ admitted served
  obtain ⟨luck, world, asked, rfl⟩ := registering_served served
  rcases execute_spec asked with ⟨rfl, rfl⟩ | ⟨-, rfl⟩
  · exact ⟨inv, Lasting.refl w₁, failed luck.err w₁⟩
  · have lasting : Lasting w₁
        ⟨{ w₁.world with tables := w₁.world.tables.insertEntry entry }, w₁.asked⟩ :=
      ⟨fun _ _ found => ContentTables.insertEntry_kept entry found,
        fun _ content found => ⟨content, found, rfl⟩, fun _ member => member⟩
    constructor
    · exact inv.insertEntry entry
    · constructor
      · exact lasting
      · cases reply with
        | error err => exact failed err _
        | ok _ =>
          apply done _ _ (rely.trans lasting) (ContentTables.insertEntry_self _ entry)
          cases there : w₁.world.tables.entries entry.contentID with
          | none => rfl
          | some old => exact admitted.2 old there

/-- Inserting the request's chunks below an entry of its own tenant. -/
theorem assures_insertChunks (asked : r ∈ w.asked) (given : r.body = some body)
    (owned : w.world.tables.entries body.contentID = some entry)
    (own : entry.tenantID = r.tenantID)
    {next : Except GoError Unit → ContentProgram Response}
    (rest : ∀ reply w', Lasting w w' →
      Owning limits g Unowned r post (next reply)
        (history ++ [⟨.insertChunks body.contentID body.chunks, reply⟩]) w') :
    Owning limits g Unowned r post
      (.ask (.insertChunks body.contentID body.chunks) next) history w := by
  intro w₁ rely inv reply w₂ admitted served
  obtain ⟨luck, world, done, rfl⟩ := registering_served served
  rcases execute_spec done with ⟨rfl, rfl⟩ | ⟨-, rfl⟩
  · exact ⟨inv, Lasting.refl w₁, rest _ w₁ rely⟩
  · have lasting : Lasting w₁ ⟨{ w₁.world with
        tables := w₁.world.tables.insertChunks body.contentID body.chunks }, w₁.asked⟩ :=
      ⟨fun _ _ found => found, fun _ content found => ⟨content, found, rfl⟩,
        fun _ member => member⟩
    constructor
    · exact inv.insertChunks (rely.asked asked) given (rely.entries _ _ owned) own
    · exact ⟨lasting, rest reply _ (rely.trans lasting)⟩

/-- Putting the content into the map, where it replaces at most one of its own tenant. -/
theorem assures_putMem (asked : r ∈ w.asked) (given : r.body = some body)
    {next : Unit → ContentProgram Response}
    (rest : ∀ w' kept, Lasting w w' → lookupMem w'.world.mem body.contentID = some kept →
      kept.tenantID = r.tenantID →
      Owning limits g Unowned r post (next ())
        (history ++ [⟨.putMem body.contentID (body.content r.tenantID), ()⟩]) w') :
    Owning limits g Unowned r post
      (.ask (.putMem body.contentID (body.content r.tenantID)) next) history w := by
  intro w₁ rely inv reply w₂ admitted served
  obtain ⟨luck, world, done, rfl⟩ := registering_served served
  obtain ⟨room, unowned⟩ := admitted
  simp only [World.serve, Option.some.injEq] at done
  obtain ⟨rfl, rfl⟩ := done
  have lasting : Lasting w₁ ⟨{ w₁.world with
      mem := putMemContent w₁.world.memMax luck.order body.contentID (body.content r.tenantID)
        w₁.world.mem }, w₁.asked⟩ := by
    constructor
    · exact fun _ _ found => found
    · intro contentID content found
      rw [lookupMem_put room]
      split
      · rename_i same
        subst same
        exact ⟨body.content r.tenantID, rfl, (unowned content found).symm⟩
      · exact ⟨content, found, rfl⟩
    · exact fun _ member => member
  constructor
  · exact inv.putMem (rely.asked asked) given room luck.order
  · constructor
    · exact lasting
    · apply rest _ (body.content r.tenantID) (rely.trans lasting) ?_ rfl
      rw [lookupMem_put room, if_pos rfl]

/-- A request that is answered `registered: true` has its tenant as the owner. -/
def ownedAnswer (g : Gateway) (r : Register) : History contentInterface → Response → Registry → Prop :=
  fun _ answer w => ∀ contentID already, answer = ⟨200, .registered contentID already⟩ →
    owner g w.world contentID = some r.tenantID

theorem assures_other {answer : Response}
    (other : ∀ contentID already, answer ≠ ⟨200, .registered contentID already⟩) :
    Owning limits g admits r (ownedAnswer g r) (.ret answer) history w :=
  fun _ _ _ contentID already same => absurd same (other contentID already)

theorem assures_registered (owned : owner g w.world contentID = some r.tenantID) :
    Owning limits g admits r (ownedAnswer g r)
      (.ret ⟨200, .registered contentID already⟩) history w := by
  intro w' rely _ other already' same
  cases same
  exact rely.owner owned

theorem entryOf_eq_some {t : ContentTables} (found : t.entryOf contentID tenantID = some entry) :
    t.entries contentID = some entry ∧ entry.tenantID = tenantID := by
  obtain ⟨there, own⟩ := Option.filter_eq_some_iff.mp found
  exact ⟨there, by simpa using own⟩

/-- Looking for the tenant's own entry. -/
theorem assures_getContentEntry {f : Except GoError ContentEntry → ContentProgram Response}
    (present : ∀ entry h w', Lasting w w' → w'.world.tables.entries contentID = some entry →
      entry.tenantID = tenantID →
      Owning limits g admits r post (f (.ok entry)) h w')
    (absent : ∀ err h w', Lasting w w' →
      Owning limits g admits r post (f (.error err)) h w') :
    Owning limits g admits r post (getContentEntry contentID tenantID >>= f) history w := by
  apply assures_read (.selectEntry contentID tenantID) fun world reply =>
    ∀ entry : ContentEntry, reply = Except.ok (some entry) →
      world.tables.entryOf contentID tenantID = some entry
  · intro luck world reply world' asked
    obtain ⟨rfl, rfl | rfl⟩ := query_spec asked
    · exact ⟨rfl, fun entry same => Except.ok.inj same⟩
    · exact ⟨rfl, fun entry impossible => by cases impossible⟩
  · intro reply w' lasting _ learned
    match reply with
    | .error err => exact absent _ _ w' lasting
    | .ok none => exact absent _ _ w' lasting
    | .ok (some entry) =>
      obtain ⟨found, own⟩ := entryOf_eq_some (learned entry rfl)
      exact present entry _ w' lasting found own

/-- Whatever the look at the other tenants brings. -/
theorem assures_getContentEntryByContentID
    {f : Except GoError ContentEntry → ContentProgram Response}
    (rest : ∀ found h w', Lasting w w' →
      Owning limits g admits r post (f found) h w') :
    Owning limits g admits r post (getContentEntryByContentID contentID >>= f) history w := by
  apply assures_read (.selectAnyEntry contentID) fun _ _ => True
  · exact fun luck world reply world' asked => ⟨(query_spec asked).1, trivial⟩
  · exact fun reply w' lasting _ _ => rest _ _ w' lasting

theorem assures_getMem {next : Option MemContent → ContentProgram Response}
    (rest : ∀ h w', Lasting w w' →
      Owning limits g admits r post (next (lookupMem w'.world.mem key)) h w') :
    Owning limits g admits r post (.ask (.getMem key) next) history w := by
  apply assures_read (.getMem key) fun world reply => reply = lookupMem world.mem key
  · rintro luck world reply world' asked
    cases asked
    exact ⟨rfl, rfl⟩
  · rintro _ w' lasting _ rfl
    exact rest _ w' lasting

/-- The branch over the tables. -/
theorem register_assures_tables (db : g.metaDB = true) (asked : r ∈ w.asked)
    (isPost : r.method = .post) (named : r.tenantID ≠ "") (given : r.body = some body) :
    Owning limits g Unowned r (ownedAnswer g r) (handleContentRegister g r) [] w := by
  have owned_of {w : Registry} {entry : ContentEntry}
      (found : w.world.tables.entries body.contentID = some entry)
      (own : entry.tenantID = r.tenantID) : owner g w.world body.contentID = some r.tenantID := by
    simp [owner, db, found, own]
  simp only [handleContentRegister, answering, isPost, if_neg named, given, db, if_true]
  apply assures_getContentEntry
  · intro entry h w₁ _ found own
    exact assures_registered (owned_of found own)
  · intro err h w₁ toFirst
    dsimp only
    split
    · exact assures_other (by simp [writeError])
    · apply assures_getContentEntryByContentID
      intro other h w₂ toSecond
      split
      · exact assures_other (by simp [foreignContent, writeError])
      · apply assures_insertEntry
        · exact fun err w' => assures_other (by simp [writeError])
        · intro w₃ kept toThird found own
          have still : r ∈ w₃.asked := toThird.asked (toSecond.asked (toFirst.asked asked))
          dsimp only [createContentChunks]
          split
          · exact assures_registered (owned_of found own)
          · split
            · exact assures_other (by simp [writeError])
            · apply assures_insertChunks still given found own
              intro reply w₄ toFourth
              match reply with
              | .error err => exact assures_other (by simp [writeError])
              | .ok () => exact assures_registered (toFourth.owner (owned_of found own))

/-- The branch over the map. -/
theorem register_assures_mem (noDB : g.metaDB = false) (asked : r ∈ w.asked)
    (isPost : r.method = .post) (named : r.tenantID ≠ "") (given : r.body = some body) :
    Owning limits g Unowned r (ownedAnswer g r) (handleContentRegister g r) [] w := by
  have owned_of {w : Registry} {content : MemContent}
      (found : lookupMem w.world.mem body.contentID = some content)
      (own : content.tenantID = r.tenantID) : owner g w.world body.contentID = some r.tenantID := by
    simp [owner, noDB, found, own]
  simp only [handleContentRegister, answering, isPost, if_neg named, given, noDB,
    Bool.false_eq_true, if_false]
  apply assures_getMem
  intro h w₁ toFirst
  cases found : lookupMem w₁.world.mem body.contentID with
  | some existing =>
    dsimp only
    split
    · exact assures_other (by simp [foreignContent, writeError])
    · rename_i own
      exact assures_registered (owned_of found (not_not.mp own))
  | none =>
    apply assures_putMem (toFirst.asked asked) given
    intro w₂ kept _ found own
    exact assures_registered (owned_of found own)

theorem register_assures (asked : r ∈ w.asked) :
    Owning limits g Unowned r (ownedAnswer g r) (handleContentRegister g r) [] w := by
  cases isPost : r.method with
  | options =>
    simp only [handleContentRegister, answering, isPost]
    exact assures_other (by simp)
  | other =>
    simp only [handleContentRegister, answering, isPost]
    exact assures_other (by simp [writeError])
  | post =>
    by_cases named : r.tenantID = ""
    · simp only [handleContentRegister, answering, isPost, named, if_true]
      exact assures_other (by simp [writeError])
    · cases given : r.body with
      | none =>
        simp only [handleContentRegister, answering, isPost, if_neg named, given]
        exact assures_other (by simp [writeError])
      | some body =>
        cases db : g.metaDB with
        | true => exact register_assures_tables db asked isPost named given
        | false => exact register_assures_mem db asked isPost named given

end

theorem ownership_composes (limits : Limits) (g : Gateway) :
    Composes (registering limits g Unowned) ownership (ownedAnswer g) where
  toCoherent := ownership_coherent
  environment := by
    rintro a b - ⟨change, -⟩
    exact change.elim
  starts := by
    rintro a r b attributed ⟨-, started⟩
    cases started
    have lasting : Lasting a ⟨a.world, a.asked ++ [r]⟩ :=
      ⟨fun _ _ found => found, fun _ content found => ⟨content, found, rfl⟩,
        List.subset_append_left _ _⟩
    constructor
    · constructor
      · intro contentID c member
        obtain ⟨entry, found, supplied⟩ := attributed.tables contentID c member
        exact ⟨entry, found, supplied.lasting lasting.asked⟩
      · intro contentID content found c member
        exact (attributed.mem contentID content found c member).lasting lasting.asked
    · exact ⟨lasting, register_assures (List.mem_append_right _ List.mem_cons_self)⟩

theorem attributed_empty (memMax : Nat) (head : String → Except GoError Unit) :
    Attributed (emptyRegistry memMax head) :=
  ⟨fun _ _ member => absurd member List.not_mem_nil, fun _ _ found => by cases found⟩

theorem Attributed.supplied {w : Registry} (attributed : Attributed w)
    (stored : c ∈ storedChunks g w.world contentID) :
    ∃ tenantID, owner g w.world contentID = some tenantID ∧ Supplied w tenantID contentID c := by
  cases db : g.metaDB with
  | true =>
    simp only [storedChunks, db, if_true] at stored
    obtain ⟨entry, found, supplied⟩ := attributed.tables contentID c stored
    exact ⟨entry.tenantID, by simp [owner, db, found], supplied⟩
  | false =>
    simp only [storedChunks, db, Bool.false_eq_true, if_false] at stored
    cases found : lookupMem w.world.mem contentID with
    | none => simp [found] at stored
    | some content =>
      simp only [found, Option.map_some, Option.getD_some] at stored
      exact ⟨content.tenantID, by simp [owner, db, found],
        attributed.mem contentID content found c stored⟩

/-- If an entry is only ever written where no other tenant has one, every content_id has one
owner in every state of every interleaving, and that owner stays. -/
theorem oneOwner_of_unowned (limits : Limits) (g : Gateway) (memMax : Nat)
    (head : String → Except GoError Unit)
    (run : (registering limits g Unowned).Reaches ⟨emptyRegistry memMax head, []⟩ s) :
    OneOwner g s ∧ ∀ t, (registering limits g Unowned).Reaches s t →
      ∀ contentID tenantID, owner g s.world.world contentID = some tenantID →
        owner g t.world.world contentID = some tenantID := by
  have composes := ownership_composes limits g
  have initial : ownership.invariant (emptyRegistry memMax head) := attributed_empty memMax head
  have sound := composes.reaches ⟨initial, by simp⟩ run
  have answered (contentID tenantID : String) (as : RegisteredAs s contentID tenantID) :
      owner g s.world.world contentID = some tenantID := by
    obtain ⟨r, history, already, member, rfl⟩ := as
    exact composes.returned initial run member contentID already rfl
  constructor
  · constructor
    · intro contentID tenantID other one two
      have same := (answered contentID tenantID one).symm.trans (answered contentID other two)
      exact Option.some.inj same
    · exact answered
    · exact fun contentID c stored => sound.1.supplied stored
  · intro t later contentID tenantID owned
    have lasting : Lasting s.world t.world := composes.reaches_rely sound later
    exact lasting.owner owned

/-- What a thread was told it has registered, and for whom. -/
def told (t : Thread contentInterface Register Response) : Option (String × String) :=
  match t.program with
  | .ret ⟨200, .registered contentID _⟩ => some (contentID, t.op.tenantID)
  | _ => none

theorem registeredAs_of_told {s : System contentInterface Registry Register Response}
    (member : (contentID, tenantID) ∈ s.threads.filterMap told) :
    RegisteredAs s contentID tenantID := by
  obtain ⟨⟨r, history, program⟩, there, same⟩ := List.mem_filterMap.mp member
  unfold told at same
  split at same
  · rename_i already answered
    dsimp only at answered same
    cases same
    exact ⟨r, history, already, answered ▸ there, rfl⟩
  · cases same

/-- A file of one chunk. -/
def oneChunk (tenantID blobKey : String) : Register :=
  ⟨.post, tenantID, some ⟨"file", 5, 1, 8, "root", [⟨0, "hash", blobKey, 5, 21⟩]⟩⟩

def checksRoom (_ : Register) (_ : History contentInterface) (w : Registry) :
    (q : ContentCall) → ContentCall.Reply q → Bool
  | .putMem _ _, _ => w.world.mem.length < w.world.memMax
  | _, _ => true

theorem checksRoom_sound (r : Register) (history : History contentInterface) (w : Registry)
    (q : ContentCall) (reply : ContentCall.Reply q) (checked : checksRoom r history w q reply = true) :
    BelowLimit r history w q reply := by
  cases q with
  | putMem key content =>
    have room : w.world.mem.length < w.world.memMax := of_decide_eq_true checked
    exact room
  | _ => trivial

/-- Both look before either inserts. -/
def bothLookFirst (looks writes : List Luck) : List (Move Register Luck Empty) :=
  [.start (oneChunk "a" "blob-a"), .start (oneChunk "b" "blob-b")] ++
    looks.map (.call 0) ++ looks.map (.call 1) ++ writes.map (.call 0) ++ writes.map (.call 1)

theorem both_told (g : Gateway) (looks writes : List Luck)
    (told_both : ((registryDriver wideLimits).follow (handleContentRegister g) checksRoom
      (bothLookFirst looks writes) ⟨emptyRegistry 10 fun _ => .ok (), []⟩).any
        (fun s => s.threads.filterMap told = [("file", "a"), ("file", "b")]) = true) :
    ∃ s, (registering wideLimits g BelowLimit).Reaches
      ⟨emptyRegistry 10 fun _ => .ok (), []⟩ s ∧ ¬ OneOwner g s := by
  obtain ⟨s, run, found⟩ := (registryDriver wideLimits).follow_exhibits checksRoom_sound
    (fun _ _ => trivial) told_both
  have found := of_decide_eq_true found
  refine ⟨s, run, fun owned => ?_⟩
  have first : RegisteredAs s "file" "a" := registeredAs_of_told (by rw [found]; simp)
  have second : RegisteredAs s "file" "b" := registeredAs_of_told (by rw [found]; simp)
  exact absurd (owned.one "file" "a" "b" first second) (by decide)

/-- Two tenants whose requests overlap are both told that the file is theirs, over the tables
and over the map. -/
theorem overlapping_registers_both_succeed :
    (∃ s, (registering wideLimits ⟨true, true⟩ BelowLimit).Reaches
      ⟨emptyRegistry 10 fun _ => .ok (), []⟩ s ∧ ¬ OneOwner ⟨true, true⟩ s) ∧
    ∃ s, (registering wideLimits ⟨false, true⟩ BelowLimit).Reaches
      ⟨emptyRegistry 10 fun _ => .ok (), []⟩ s ∧ ¬ OneOwner ⟨false, true⟩ s := by
  constructor
  · exact both_told ⟨true, true⟩ [{}, {}] [{}, {}] (by decide +kernel)
  · exact both_told ⟨false, true⟩ [{}] [{}] (by decide +kernel)

def checksOwners (r : Register) (history : History contentInterface) (w : Registry)
    (q : ContentCall) (reply : ContentCall.Reply q) : Bool :=
  checksRoom r history w q reply &&
    match q with
    | .insertEntry entry =>
      (w.world.tables.entries entry.contentID).all fun old => old.tenantID = entry.tenantID
    | .putMem key content =>
      (lookupMem w.world.mem key).all fun old => old.tenantID = content.tenantID
    | _ => true

theorem checksOwners_sound (r : Register) (history : History contentInterface) (w : Registry)
    (q : ContentCall) (reply : ContentCall.Reply q)
    (checked : checksOwners r history w q reply = true) : Unowned r history w q reply := by
  obtain ⟨room, owners⟩ := Bool.and_eq_true_iff.mp checked
  constructor
  · exact checksRoom_sound r history w q reply room
  · cases q with
    | insertEntry entry =>
      intro old found
      simpa [found] using owners
    | putMem key content =>
      intro old found
      simpa [found] using owners
    | _ => trivial

/-- The same two requests, one after the other: the second one is turned away. -/
def oneAfterTheOther : List (Move Register Luck Empty) :=
  [.start (oneChunk "a" "blob-a"), .call 0 {}, .call 0 {}, .call 0 {}, .call 0 {},
    .start (oneChunk "b" "blob-b"), .call 1 {}, .call 1 {}]

theorem oneOwner_in_turn : ∃ s, (registering wideLimits ⟨true, true⟩ Unowned).Reaches
      ⟨emptyRegistry 10 fun _ => .ok (), []⟩ s ∧ RegisteredAs s "file" "a" ∧
      OneOwner ⟨true, true⟩ s := by
  have ran : ((registryDriver wideLimits).follow (handleContentRegister ⟨true, true⟩) checksOwners
      oneAfterTheOther ⟨emptyRegistry 10 fun _ => .ok (), []⟩).any
        (fun s => s.threads.filterMap told = [("file", "a")] && s.threads.length = 2) = true := by
    decide +kernel
  obtain ⟨s, run, found⟩ := (registryDriver wideLimits).follow_exhibits checksOwners_sound
    (fun _ _ => trivial) ran
  have alone := of_decide_eq_true (Bool.and_eq_true_iff.mp found).1
  refine ⟨s, run, registeredAs_of_told (by rw [alone]; simp), ?_⟩
  exact (oneOwner_of_unowned wideLimits ⟨true, true⟩ 10 (fun _ => .ok ()) run).1

end KDrive.Server
