import KDrive.Metadata.UploadSessions

/-! Key rotation of an encryption domain. A client reads the domain, seals the key of the
generation it saw under its new key and posts the envelope; the gateway raises the generation
inside a transaction that locks the row. -/
namespace KDrive.Metadata
open Go Interaction Relational

structure EncryptionDomain where
  tenantID : String
  privacyMode : String
  generation : Int
  prevGeneration : Option Int
  prevKeyEnvelope : Option Bytes
  deriving DecidableEq

abbrev DomainSql := Sql String EncryptionDomain GoError

def errIntegerRange : GoError := .new "pq: value out of range for type integer"

def fromHexChar (c : Char) : Option Nat :=
  if '0' ≤ c ∧ c ≤ '9' then some (c.toNat - 48)
  else if 'a' ≤ c ∧ c ≤ 'f' then some (c.toNat - 87)
  else if 'A' ≤ c ∧ c ≤ 'F' then some (c.toNat - 55)
  else none

/-- The bytes `hex.DecodeString` returns, with an error or without: those before the first
pair that is no byte. -/
def hexDecode : List Char → Bytes
  | high :: low :: rest =>
    match fromHexChar high, fromHexChar low with
    | some x, some y => UInt8.ofNat (16 * x + y) :: hexDecode rest
    | _, _ => []
  | _ => []

/-- `SELECT ... WHERE id = $1 AND tenant_id = $2`. -/
def scanDomain (tenantID : String) :
    Except GoError (Option EncryptionDomain) → Except GoError EncryptionDomain
  | .error err => .error (if err.is errNoRows then errNotFound else err)
  | .ok none => .error errNotFound
  | .ok (some row) => if row.tenantID = tenantID then .ok row else .error errNotFound

def getEncryptionDomain (id tenantID : String) :
    Program DomainSql (Except GoError EncryptionDomain) :=
  .ask (.read id) fun reply => .ret (scanDomain tenantID reply)

/-- An UPDATE with a generation that is no INTEGER is rejected. -/
def rotateEncryptionDomain (id tenantID : String) (prevKeyEnvelope : Bytes) :
    Program DomainSql (Except GoError Unit) :=
  .ask .begin fun
    | .error err => .ret (.error err)
    | .ok () => .ask (.lock (rowForUpdate id fun row => row.tenantID = tenantID)) fun reply =>
      match scanRow reply with
      | .error err => rollingBack (.error err)
      | .ok row =>
        let newGen := row.generation + 1
        if IsInteger newGen then
          .ask (.update id fun held =>
              if held.tenantID = tenantID then
                some { held with
                  generation := newGen
                  prevGeneration := some row.generation
                  prevKeyEnvelope := some prevKeyEnvelope }
              else none) fun
            | .error err => rollingBack (.error err)
            | .ok () => .ask .commit .ret
        else rollingBack (.error errIntegerRange)

/-- How a client's read and rotation end. The handler drops the error of its last read, so
that it dereferences nil where there was one. -/
inductive Rotated where
  | notRead
  | refused
  | rotated (generation : Int)
  | panicked
  deriving DecidableEq

/-- POST /v1/domains/{domain_id}/generations. -/
def handleGenerations (id tenantID prevKeyEnvelopeHex : String) : Program DomainSql Rotated := do
  let prevEnv := hexDecode prevKeyEnvelopeHex.toList
  match ← rotateEncryptionDomain id tenantID prevEnv with
  | .error _ => return .refused
  | .ok () =>
    match ← getEncryptionDomain id tenantID with
    | .ok dom => return .rotated dom.generation
    | .error _ => return .panicked

/-- A client with the envelope it makes for a domain it has read. -/
structure DomainClient where
  id : String
  tenantID : String
  envelopeHex : EncryptionDomain → String

def DomainClient.run (c : DomainClient) : Program DomainSql Rotated := do
  match ← getEncryptionDomain c.id c.tenantID with
  | .error _ => return .notRead
  | .ok dom => handleGenerations c.id c.tenantID (c.envelopeHex dom)

/-- The domain a client had read. -/
def domainRead (past : History DomainSql) : Option EncryptionDomain :=
  match past with
  | ⟨.read _, .ok row⟩ :: _ => row
  | _ => none

/-- A rotation that was committed, with what its client had read. -/
structure Rotation where
  client : DomainClient
  seen : Option EncryptionDomain

def Rotation.envelope (r : Rotation) : Option Bytes :=
  r.seen.map fun dom => hexDecode (r.client.envelopeHex dom).toList

abbrev DomainScene := Scene String EncryptionDomain (List Rotation)

/-- Any clients, at any time; a run may be restricted. -/
def rotations (admits : DomainScene → DomainClient → History DomainSql →
    Statement String EncryptionDomain → Prop) :
    Service String EncryptionDomain GoError DomainClient Rotated (List Rotation) where
  body c := c.run
  starts log _ log' := log' = log
  notes c past log := log ++ [⟨c, domainRead past⟩]
  admits := admits

/-- A rotation finds the domain at the generation its client had read. -/
def AtSeenGeneration (scene : DomainScene) (c : DomainClient) (past : History DomainSql) :
    Statement String EncryptionDomain → Prop
  | .lock _ => ∀ row dom, scene.table c.id = some row → domainRead past = some dom →
      row.generation = dom.generation
  | _ => True

/-- The domains as they are created. -/
def Unrotated (initial : Table String EncryptionDomain) : Prop :=
  ∀ id row, initial id = some row → row.prevGeneration = none ∧ row.prevKeyEnvelope = none

structure Chained (initial table : Table String EncryptionDomain) (log : List Rotation) :
    Prop where
  /-- Every rotation raises the generation by one. -/
  raised : ∀ id row, table id = some row → ∃ first, initial id = some first ∧
    row.tenantID = first.tenantID ∧
    row.generation = first.generation + (log.countP fun r => r.client.id = id : Nat)
  /-- The envelope comes from a client that had read the previous generation. -/
  chain : ∀ id row g e, table id = some row → row.prevGeneration = some g →
    row.prevKeyEnvelope = some e → ∃ r ∈ log, r.client.id = id ∧ r.envelope = some e ∧
      r.seen.map EncryptionDomain.generation = some g
  /-- No two rotations of a domain have the same base. -/
  distinct : log.Pairwise fun r later => r.client.id = later.client.id →
    r.seen.map EncryptionDomain.generation ≠ later.seen.map EncryptionDomain.generation

/-- Besides, every rotation's base lies behind the domain. -/
structure Linked (initial table : Table String EncryptionDomain) (log : List Rotation) : Prop
    extends Chained initial table log where
  behind : ∀ r ∈ log, ∃ dom row, r.seen = some dom ∧ table r.client.id = some row ∧
    dom.generation < row.generation

variable {initial table : Table String EncryptionDomain} {log : List Rotation} {c : DomainClient}
  {row dom : EncryptionDomain}

def rotate (row : EncryptionDomain) (envelope : Bytes) : EncryptionDomain :=
  { row with
    generation := row.generation + 1
    prevGeneration := some row.generation
    prevKeyEnvelope := some envelope }

theorem Linked.commit (linked : Linked initial table log) (present : table c.id = some row)
    (base : row.generation = dom.generation) :
    Linked initial
      (Function.update table c.id (some (rotate row (hexDecode (c.envelopeHex dom).toList))))
      (log ++ [⟨c, some dom⟩]) := by
  have counted : ∀ id, (log ++ [(⟨c, some dom⟩ : Rotation)]).countP (fun r => r.client.id = id) =
      log.countP (fun r => r.client.id = id) + if c.id = id then 1 else 0 := by
    intro id
    rw [List.countP_append, List.countP_singleton]
    simp
  constructor
  · constructor
    · intro id found
      by_cases same : id = c.id
      · subst same
        rw [Function.update_self]
        rintro ⟨⟩
        obtain ⟨first, initially, tenant, raised⟩ := linked.raised _ _ present
        refine ⟨first, initially, tenant, ?_⟩
        rw [counted, if_pos rfl, rotate, raised]
        push_cast
        omega
      · rw [Function.update_of_ne same]
        intro held
        obtain ⟨first, initially, tenant, raised⟩ := linked.raised _ _ held
        refine ⟨first, initially, tenant, ?_⟩
        rw [counted, if_neg (Ne.symm same), raised]
        rfl
    · intro id found g e
      by_cases same : id = c.id
      · subst same
        rw [Function.update_self]
        rintro ⟨⟩ ⟨⟩ ⟨⟩
        exact ⟨⟨c, some dom⟩, List.mem_append_right _ List.mem_cons_self, rfl, rfl,
          congrArg some base.symm⟩
      · rw [Function.update_of_ne same]
        intro held previous envelope
        obtain ⟨r, member, rest⟩ := linked.chain id found g e held previous envelope
        exact ⟨r, List.mem_append_left _ member, rest⟩
    · rw [List.pairwise_append]
      refine ⟨linked.distinct, List.pairwise_singleton _ _, ?_⟩
      intro r old later new sameDomain sameBase
      cases List.mem_singleton.mp new
      obtain ⟨seen, held, read, found, less⟩ := linked.behind r old
      rw [sameDomain, present] at found
      cases found
      rw [read, Option.map_some, Option.map_some, Option.some.injEq] at sameBase
      omega
  · intro r member
    rcases List.mem_append.mp member with old | new
    · obtain ⟨seen, held, read, found, less⟩ := linked.behind r old
      by_cases same : r.client.id = c.id
      · rw [same, present] at found
        cases found
        refine ⟨seen, _, read, by rw [same, Function.update_self], ?_⟩
        simp only [rotate]
        omega
      · exact ⟨seen, held, read, by rw [Function.update_of_ne same, found], less⟩
    · cases List.mem_singleton.mp new
      refine ⟨dom, _, rfl, Function.update_self _ _ _, ?_⟩
      simp only [rotate]
      omega

theorem scanDomain_ok {reply : Except GoError (Option EncryptionDomain)} {tenantID : String}
    (fine : scanDomain tenantID reply = .ok dom) : reply = .ok (some dom) := by
  unfold scanDomain at fine
  split at fine
  · contradiction
  · contradiction
  · split at fine
    · cases fine
      rfl
    · contradiction

/-- A rotation whose client had read the domain keeps the chain. -/
theorem rotate_upholds (initial : Table String EncryptionDomain) (c : DomainClient)
    (dom : EncryptionDomain) (held : Option (Holding String EncryptionDomain)) :
    Upholds (rotations AtSeenGeneration) (Linked initial) (fun _ _ _ => True) c
      (rotateEncryptionDomain c.id c.tenantID (hexDecode (c.envelopeHex dom).toList))
      [⟨.read c.id, .ok (some dom)⟩] held := by
  have rolledBack : ∀ value past held, Upholds (rotations AtSeenGeneration) (Linked initial)
      (fun _ _ _ => True) c (rollingBack value : Program DomainSql (Except GoError Unit)) past
      held := fun _ _ _ => upholds_rollingBack fun _ => trivial
  apply Upholds.begin
  · intro e held
    trivial
  apply Upholds.lockRow
  · intro e held
    exact rolledBack _ _ _
  · intro table log whole missing
    exact rolledBack _ _ _
  · intro scene row whole admitted present matching
    have own := of_decide_eq_true matching
    have base : row.generation = dom.generation := admitted row dom present rfl
    simp only [scanRow]
    split
    · have changed : (if row.tenantID = c.tenantID then some
          { row with
            generation := row.generation + 1
            prevGeneration := some row.generation
            prevKeyEnvelope := some (hexDecode (c.envelopeHex dom).toList) }
          else none) = some (rotate row (hexDecode (c.envelopeHex dom).toList)) := if_pos own
      apply Upholds.updateRow changed
      · intro e held
        exact rolledBack _ _ _
      · apply Upholds.commitRow
        · intro e held
          trivial
        · intro table' log' reply whole' still
          exact ⟨whole'.commit still base, trivial⟩
    · exact rolledBack _ _ _

theorem client_upholds (initial : Table String EncryptionDomain) (c : DomainClient) :
    Upholds (rotations AtSeenGeneration) (Linked initial) (fun _ _ _ => True) c c.run [] none := by
  apply Upholds.bind
  apply Upholds.read
  · intro e held held'
    trivial
  · intro table log held whole held'
    cases scanned : scanDomain c.tenantID (.ok (table c.id)) with
    | error err => trivial
    | ok dom =>
      have found := Except.ok.inj (scanDomain_ok scanned)
      rw [found]
      apply Upholds.bind
      apply (rotate_upholds initial c dom held').mono
      intro past value _ held
      cases value with
      | error err => trivial
      | ok _ =>
        apply Upholds.read
        · intro e held
          trivial
        · intro table' log' held whole'
          simp only [Program.bind]
          split <;> trivial

/-- In every run in which each rotation finds the generation its client had read, every state
has the backward chain. -/
theorem chained_of_current (now : Int) (initial : Table String EncryptionDomain)
    (fresh : Unrotated initial)
    (d : Database String EncryptionDomain GoError DomainClient Rotated (List Rotation))
    (run : (rotations AtSeenGeneration).Reaches ⟨now, initial, fun _ => none, []⟩ d) :
    Chained initial d.table d.ghost := by
  have first : Linked initial initial [] := by
    constructor
    · constructor
      · intro id row found
        exact ⟨row, found, rfl, by simp⟩
      · intro id row g e found previous
        rw [(fresh id row found).1] at previous
        cases previous
      · exact List.Pairwise.nil
    · intro r member
      contradiction
  have kept : Kept (rotations AtSeenGeneration) (Linked initial) (fun _ _ _ => True) d :=
    Kept.reaches (fun whole started => ⟨started ▸ whole, client_upholds initial _⟩) first run
  exact kept.whole.toChained

/-- A rotation that nothing disturbs is committed. -/
theorem handleGenerations_solo (admits : DomainScene → DomainClient →
      History DomainSql → Statement String EncryptionDomain → Prop)
    (now : Int) (log : List Rotation) (c : DomainClient) (dom : EncryptionDomain)
    (present : table c.id = some row) (own : row.tenantID = c.tenantID)
    (small : IsInteger (row.generation + 1)) (admitted : ∀ past q,
      admits ⟨now, now, fun _ => True, table, log⟩ c (⟨.read c.id, .ok (some dom)⟩ :: past) q)
    (admittedAfter : ∀ past scene, admits scene c past (.read c.id)) : ∃ past,
    Solo (rotations admits) now c table log [⟨.read c.id, .ok (some dom)⟩] none
      (handleGenerations c.id c.tenantID (c.envelopeHex dom))
      (Function.update table c.id (some (rotate row (hexDecode (c.envelopeHex dom).toList))))
      (log ++ [⟨c, some dom⟩]) past (.rotated (row.generation + 1)) := by
  have changed : (if row.tenantID = c.tenantID then some
      { row with
        generation := row.generation + 1
        prevGeneration := some row.generation
        prevKeyEnvelope := some (hexDecode (c.envelopeHex dom).toList) }
      else none) = some (rotate row (hexDecode (c.envelopeHex dom).toList)) := if_pos own
  constructor
  apply Solo.ask (admitted _ _) .begin
  apply Solo.lockRow (admitted _ _) present (decide_eq_true own)
  simp only [scanRow, if_pos small]
  apply Solo.updateRow (admitted _ _) changed
  apply Solo.commitRow (admitted _ _)
  apply Solo.ask (admittedAfter _ _) .read
  have kept : (rotate row (hexDecode (c.envelopeHex dom).toList)).tenantID = c.tenantID := own
  simp only [Function.update_self, scanDomain, if_pos kept, Program.bind]
  exact .ret

theorem run_solo {admits : DomainScene → DomainClient →
      History DomainSql → Statement String EncryptionDomain → Prop}
    (now : Int) (log : List Rotation) (present : table c.id = some row)
    (own : row.tenantID = c.tenantID) (small : IsInteger (row.generation + 1))
    (admitted : ∀ past q,
      admits ⟨now, now, fun _ => True, table, log⟩ c (⟨.read c.id, .ok (some row)⟩ :: past) q)
    (admittedRead : ∀ past scene, admits scene c past (.read c.id)) : ∃ past,
    Solo (rotations admits) now c table log [] none c.run
      (Function.update table c.id (some (rotate row (hexDecode (c.envelopeHex row).toList))))
      (log ++ [⟨c, some row⟩]) past (.rotated (row.generation + 1)) := by
  obtain ⟨past, rest⟩ := handleGenerations_solo admits now log c row present own small
    admitted admittedRead
  refine ⟨past, ?_⟩
  apply Solo.ask (admittedRead _ _) .read
  simp only [present, scanDomain, if_pos own, Program.bind]
  exact rest

def newDomain : Table String EncryptionDomain := fun id =>
  if id = "d" then some ⟨"t", "secured", 1, none, none⟩ else none

theorem newDomain_unrotated : Unrotated newDomain := by
  intro id row found
  simp only [newDomain] at found
  split at found
  · cases found
    exact ⟨rfl, rfl⟩
  · contradiction

/-- A client whose envelopes are all the same. -/
def clientWith (hex : String) : DomainClient := ⟨"d", "t", fun _ => hex⟩

theorem chained_of_one_rotation : ∃ d,
    (rotations AtSeenGeneration).Reaches ⟨0, newDomain, fun _ => none, []⟩ d ∧
      d.table "d" = some ⟨"t", "secured", 2, some 1, some [0xaa]⟩ ∧
      Chained newDomain d.table d.ghost := by
  have current : ∀ past q, AtSeenGeneration ⟨0, 0, fun _ => True, newDomain, []⟩ (clientWith "aa")
      (⟨.read "d", .ok (newDomain "d")⟩ :: past) q := by
    intro past q
    cases q with
    | lock picks =>
      intro row dom held read
      cases held
      cases read
      rfl
    | _ => trivial
  obtain ⟨past, solo⟩ := run_solo (c := clientWith "aa") 0 []
    (show newDomain "d" = some ⟨"t", "secured", 1, none, none⟩ from rfl) rfl (by decide) current
    (fun _ _ => trivial)
  have run : (rotations AtSeenGeneration).Reaches ⟨0, newDomain, fun _ => none, []⟩ _ :=
    Solo.called (i := 0) rfl solo rfl idle_none
  have raised : rotate ⟨"t", "secured", 1, none, none⟩ (hexDecode "aa".toList) =
      ⟨"t", "secured", 2, some 1, some [0xaa]⟩ := by decide
  exact ⟨_, run, congrArg some raised, chained_of_current 0 newDomain newDomain_unrotated _ run⟩

abbrev DomainCaller := Caller String EncryptionDomain GoError DomainClient Rotated

/-- A client that has read and is about to post. -/
def posting (c : DomainClient) (row : EncryptionDomain) (now : Int) : DomainCaller :=
  ⟨c, [⟨.read c.id, .ok (some row)⟩], none, now,
    handleGenerations c.id c.tenantID (c.envelopeHex row)⟩

theorem reaches_posting (callers : Nat → Option DomainCaller) (i : Nat) (now : Int)
    (log : List Rotation) (unused : callers i = none) (present : table c.id = some row)
    (own : row.tenantID = c.tenantID) :
    (rotations fun _ _ _ _ => True).Reaches ⟨now, table, callers, log⟩
      ⟨now, table, Function.update callers i (some (posting c row now)), log⟩ := by
  have started : (rotations fun _ _ _ _ => True).Step ⟨now, table, callers, log⟩
      ⟨now, table, Function.update callers i (some ⟨c, [], none, now, c.run⟩), log⟩ := .start unused rfl
  refine .head started ?_
  have read : (rotations fun _ _ _ _ => True).Step _ _ :=
    .answer (d := ⟨now, table, Function.update callers i (some ⟨c, [], none, now, c.run⟩), log⟩)
      (Function.update_self i _ _) trivial .read
  simp only [present, scanDomain, if_pos own, Program.bind, Function.update_idem] at read
  exact .single read

/-- Two clients read generation 1 and rotate one after the other. Both succeed, and the
second envelope, made for generation 1, stands beside generation 2. -/
theorem stale_rotation_breaks_chain : ∃ d,
    (rotations fun _ _ _ _ => True).Reaches ⟨0, newDomain, fun _ => none, []⟩ d ∧
      d.table "d" = some ⟨"t", "secured", 3, some 2, some [0xbb]⟩ ∧
      (∃ past, d.callers 0 = some ⟨clientWith "aa", past, none, 0, .ret (.rotated 2)⟩) ∧
      (∃ past, d.callers 1 = some ⟨clientWith "bb", past, none, 0, .ret (.rotated 3)⟩) ∧
      ¬ Chained newDomain d.table d.ghost := by
  let first : EncryptionDomain := ⟨"t", "secured", 1, none, none⟩
  let second : EncryptionDomain := ⟨"t", "secured", 2, some 1, some [0xaa]⟩
  let third : EncryptionDomain := ⟨"t", "secured", 3, some 2, some [0xbb]⟩
  let nobody : Nat → Option DomainCaller := fun _ => none
  have raisedA : rotate first (hexDecode ((clientWith "aa").envelopeHex first).toList) = second := by
    decide
  have raisedB : rotate second (hexDecode ((clientWith "bb").envelopeHex first).toList) = third := by
    decide
  have readA := reaches_posting (c := clientWith "aa") nobody 0 0 [] rfl
    (show newDomain "d" = some first from rfl) rfl
  have readB := reaches_posting (c := clientWith "bb")
    (Function.update nobody 0 (some (posting (clientWith "aa") first 0))) 1 0 [] rfl
    (show newDomain "d" = some first from rfl) rfl
  obtain ⟨pastA, soloA⟩ := handleGenerations_solo (fun _ _ _ _ => True) 0 [] (clientWith "aa")
    first (show newDomain "d" = some first from rfl) rfl (by decide) (fun _ _ => trivial)
    (fun _ _ => trivial)
  rw [raisedA] at soloA
  obtain ⟨pastB, soloB⟩ := handleGenerations_solo (fun _ _ _ _ => True) 0
    [⟨clientWith "aa", some first⟩] (clientWith "bb") first
    (show Function.update newDomain "d" (some second) "d" = some second from rfl) rfl (by decide)
    (fun _ _ => trivial) (fun _ _ => trivial)
  rw [raisedB] at soloB
  let both := Function.update (Function.update nobody 0 (some (posting (clientWith "aa") first 0))) 1
    (some (posting (clientWith "bb") first 0))
  have idle : Idle both := (idle_none.set rfl).set rfl
  have rotateA := soloA.reaches (i := 0) both rfl (idle.quiet _ _ _)
  have idleAfter := idle.set (i := 0) (c := ⟨clientWith "aa", pastA, none, 0, .ret (.rotated 2)⟩) rfl
  have rotateB := soloB.reaches (i := 1) _ rfl (idleAfter.quiet _ _ _)
  refine ⟨_, ((readA.trans readB).trans rotateA).trans rotateB, rfl, ⟨pastA, rfl⟩, ⟨pastB, rfl⟩, ?_⟩
  intro chained
  obtain ⟨r, member, _, _, seen⟩ := chained.chain "d" third 2 [0xbb] rfl rfl rfl
  -- Both rotations were made by clients that had read generation 1.
  have base : r.seen.map EncryptionDomain.generation = some 1 := by
    rcases List.mem_cons.mp member with rfl | rest
    · rfl
    · rw [List.mem_singleton.mp rest]
      rfl
  rw [base] at seen
  contradiction

end KDrive.Metadata
