import KDrive.Metadata.Postgres
import KDrive.Relational.Calls
import KDrive.Relational.Solo

/-! The chunk list of an upload session, a JSONB array that every upload of a chunk reads,
extends and writes back inside a transaction. -/
namespace KDrive.Metadata
open Go Interaction Relational

/-- JSON documents as Postgres keeps them: reordered and stripped, and what it hands out
comes back as the same document. -/
structure Jsonb (Json : Type) where
  normal : Json → Json
  stable : ∀ v, normal (normal v) = normal v

variable {Json : Type}

namespace Jsonb

abbrev Stored (J : Jsonb Json) : Type := { v : Json // J.normal v = v }

def store (J : Jsonb Json) (v : Json) : J.Stored := ⟨J.normal v, J.stable v⟩

theorem store_val {J : Jsonb Json} (x : J.Stored) : J.store x.val = x := Subtype.ext x.property

end Jsonb

/-- `json.RawMessage`: the document its bytes spell, if they spell one. -/
abbrev RawMessage (Json : Type) := Option Json

def errMarshal : GoError :=
  .new "json: error calling MarshalJSON for type json.RawMessage: invalid JSON"

/-- `json.Marshal` of a `[]json.RawMessage`. -/
def marshal : List (RawMessage Json) → Except GoError (List Json)
  | [] => .ok []
  | none :: _ => .error errMarshal
  | some v :: rest => (marshal rest).map (v :: ·)

variable {J : Jsonb Json}

structure KDRV1UploadSession (J : Jsonb Json) where
  tenantID : String
  chunks : List J.Stored

/-- The array that is written back. An empty one is not decoded. -/
def mergeChunks (existing : List J.Stored) (chunk : RawMessage Json) :
    Except GoError (List Json) :=
  let chunks : List (RawMessage Json) :=
    if existing.isEmpty then [] else existing.map fun x => some x.val
  marshal (chunks ++ [chunk])

abbrev SessionSql (J : Jsonb Json) := Sql String (KDRV1UploadSession J) GoError

/-- A return after `BeginTx`: the deferred `tx.Rollback` runs, and its error is dropped. -/
def rollingBack {K R α : Type} (value : α) : Program (Sql K R GoError) α :=
  .ask .rollback fun _ => .ret value

def appendKDRV1UploadSessionChunk (J : Jsonb Json) (id tenantID : String)
    (chunk : RawMessage Json) : Program (SessionSql J) (Except GoError Unit) :=
  .ask .begin fun
    | .error err => .ret (.error err)
    | .ok () => .ask (.lock (rowForUpdate id fun row => row.tenantID = tenantID)) fun reply =>
      match scanRow reply with
      | .error err => rollingBack (.error (if err.is errNoRows then errNotFound else err))
      | .ok row =>
        match mergeChunks row.chunks chunk with
        | .error err => rollingBack (.error err)
        | .ok merged =>
          .ask (.update id fun row =>
              if row.tenantID = tenantID then some { row with chunks := merged.map J.store }
              else none) fun
            | .error err => rollingBack (.error err)
            | .ok () => .ask .commit .ret

structure Append (Json : Type) where
  id : String
  tenantID : String
  chunk : RawMessage Json

/-- Any appends, at any time; the committed ones are noted in order. -/
def appends (J : Jsonb Json) :
    Service String (KDRV1UploadSession J) GoError (Append Json) (Except GoError Unit)
      (List (Append Json)) where
  body a := appendKDRV1UploadSessionChunk J a.id a.tenantID a.chunk
  starts log _ log' := log' = log
  notes a _ log := log ++ [a]
  admits _ _ _ _ := True

/-- The chunks that appends of a tenant add to a session. -/
def appended (J : Jsonb Json) (log : List (Append Json)) (id tenantID : String) : List J.Stored :=
  log.filterMap fun a => if a.id = id ∧ a.tenantID = tenantID then a.chunk.map J.store else none

/-- Each session has its first array and the committed appends of its tenant, in commit
order; no other append was committed. -/
structure Extends (initial table : Table String (KDRV1UploadSession J))
    (log : List (Append Json)) : Prop where
  rows : ∀ id, table id = (initial id).map fun row =>
    { row with chunks := row.chunks ++ appended J log id row.tenantID }
  owned : ∀ a ∈ log, a.chunk.isSome ∧ ∃ row, initial a.id = some row ∧ row.tenantID = a.tenantID

def commits {K R E : Type} (past : History (Sql K R E)) : Nat :=
  past.countP fun event => match event.request with
    | .commit => true
    | _ => false

/-- BEGIN or the SELECT did not get through, with this error. -/
def Broken {K R : Type} (past : History (Sql K R GoError)) (err : GoError) : Prop :=
  ⟨.begin, .error err⟩ ∈ past ∨ ∃ picks, ⟨.lock picks, .error err⟩ ∈ past

/-- What an append may answer. -/
structure Answered (initial : Table String (KDRV1UploadSession J)) (a : Append Json)
    (past : History (SessionSql J)) (value : Except GoError Unit) : Prop where
  foreign : (∀ row, initial a.id = some row → row.tenantID ≠ a.tenantID) →
    commits past = 0 ∧ (value = .error errNotFound ∨ ∃ err, Broken past err ∧ value = .error err)
  atMostOnce : commits past ≤ 1
  once : value = .ok () → commits past = 1 ∧ ⟨.commit, .ok ()⟩ ∈ past

theorem marshal_append (values : List Json) (chunk : RawMessage Json) :
    marshal (values.map some ++ [chunk]) =
      match chunk with
      | some v => .ok (values ++ [v])
      | none => .error errMarshal := by
  induction values with
  | nil => cases chunk <;> rfl
  | cons v rest ih =>
    simp only [List.map_cons, List.cons_append, marshal, ih]
    cases chunk <;> rfl

/-- Decoding and encoding again adds the chunk and changes nothing before it. -/
theorem mergeChunks_eq (existing : List J.Stored) (chunk : RawMessage Json) :
    mergeChunks existing chunk = match chunk with
      | some v => .ok (existing.map Subtype.val ++ [v])
      | none => .error errMarshal := by
  have decoded : (if existing.isEmpty then [] else existing.map fun x => some x.val) =
      (existing.map Subtype.val).map some := by
    cases existing <;> simp
  rw [mergeChunks, decoded, marshal_append]

theorem store_merged (existing : List J.Stored) (v : Json) :
    (existing.map Subtype.val ++ [v]).map J.store = existing ++ [J.store v] := by
  have same : J.store ∘ Subtype.val = id := funext Jsonb.store_val
  rw [List.map_append, List.map_map, same, List.map_id]
  rfl

variable {initial table : Table String (KDRV1UploadSession J)} {log : List (Append Json)}
  {a : Append Json} {row : KDRV1UploadSession J}

theorem appended_append (id tenantID : String) : appended J (log ++ [a]) id tenantID =
    appended J log id tenantID ++
      if a.id = id ∧ a.tenantID = tenantID then (a.chunk.map J.store).toList else [] := by
  rw [appended, List.filterMap_append]
  by_cases same : a.id = id ∧ a.tenantID = tenantID
  · cases chunk : a.chunk <;> simp [appended, same, chunk]
  · simp [appended, same]

theorem Extends.tenant (whole : Extends initial table log) (present : table a.id = some row) :
    ∃ first, initial a.id = some first ∧ first.tenantID = row.tenantID ∧
      row.chunks = first.chunks ++ appended J log a.id first.tenantID := by
  rw [whole.rows a.id, Option.map_eq_some_iff] at present
  obtain ⟨first, found, rfl⟩ := present
  exact ⟨first, found, rfl, rfl⟩

/-- A commit by the owner. -/
theorem Extends.commit (whole : Extends initial table log) (present : table a.id = some row)
    (own : row.tenantID = a.tenantID) (chunk : a.chunk = some v) :
    Extends initial
      (Function.update table a.id (some { row with chunks := row.chunks ++ [J.store v] }))
      (log ++ [a]) := by
  obtain ⟨first, found, tenant, chunks⟩ := whole.tenant present
  constructor
  · intro id
    by_cases same : id = a.id
    · subst same
      rw [Function.update_self, found, Option.map_some, appended_append,
        if_pos ⟨rfl, (tenant.trans own).symm⟩, chunk, ← List.append_assoc, ← chunks]
      cases row
      cases tenant
      rfl
    · rw [Function.update_of_ne same, whole.rows id]
      congr 1
      funext row
      rw [appended_append, if_neg fun both => same both.1.symm, List.append_nil]
  · intro b member
    rcases List.mem_append.mp member with old | new
    · exact whole.owned b old
    · cases List.mem_singleton.mp new
      exact ⟨by rw [chunk]; rfl, first, found, tenant.trans own⟩

theorem upholds_rollingBack {K R Op α β G : Type} [DecidableEq K] {S : Service K R GoError Op α G}
    {I : Table K R → G → Prop} {post : Op → History (Sql K R GoError) → β → Prop} {op : Op}
    {past : History (Sql K R GoError)} {held : Option (Holding K R)} {value : β}
    (holds : ∀ reply, post op (past ++ [⟨.rollback, reply⟩]) value) :
    Upholds S I post op (rollingBack value) past held :=
  Upholds.rollback fun reply _ => holds reply

theorem Answered.error {past : History (SessionSql J)} {err : GoError} (none : commits past = 0)
    (foreign : (∀ row, initial a.id = some row → row.tenantID ≠ a.tenantID) →
      err = errNotFound ∨ Broken past err) : Answered initial a past (.error err) where
  foreign other := by
    refine ⟨none, ?_⟩
    rcases foreign other with rfl | broken
    · exact .inl rfl
    · exact .inr ⟨err, broken, rfl⟩
  atMostOnce := by omega
  once impossible := by cases impossible

theorem Answered.own {past : History (SessionSql J)} {value : Except GoError Unit}
    (own : ∃ row, initial a.id = some row ∧ row.tenantID = a.tenantID) (one : commits past ≤ 1)
    (once : value = .ok () → commits past = 1 ∧ ⟨.commit, .ok ()⟩ ∈ past) :
    Answered initial a past value where
  foreign other := by
    obtain ⟨row, found, same⟩ := own
    exact absurd same (other row found)
  atMostOnce := one
  once := once

/-- Every append upholds the arrays of all sessions. -/
theorem append_upholds (initial : Table String (KDRV1UploadSession J)) (a : Append Json) :
    Upholds (appends J) (Extends initial) (Answered initial) a
      (appendKDRV1UploadSessionChunk J a.id a.tenantID a.chunk) [] none := by
  apply Upholds.begin
  · intro e held
    exact .error rfl fun _ => .inr (.inl List.mem_cons_self)
  apply Upholds.lockRow
  · intro e held
    apply upholds_rollingBack
    intro reply
    apply Answered.error rfl
    intro _
    split
    · exact .inl rfl
    · exact .inr (.inr ⟨_, List.mem_cons_of_mem _ List.mem_cons_self⟩)
  · intro table log whole missing
    apply upholds_rollingBack
    intro reply
    exact .error rfl fun _ => .inl rfl
  · intro scene row whole _ present matching
    have own := of_decide_eq_true matching
    have owner : ∃ first, initial a.id = some first ∧ first.tenantID = a.tenantID := by
      obtain ⟨first, found, tenant, _⟩ := whole.tenant present
      exact ⟨first, found, tenant.trans own⟩
    simp only [scanRow]
    rw [mergeChunks_eq]
    cases chunk : a.chunk with
    | none =>
      apply upholds_rollingBack
      intro reply
      exact .own owner (Nat.zero_le 1) (by simp)
    | some v =>
      have changed : (if row.tenantID = a.tenantID
          then some { row with chunks := (row.chunks.map Subtype.val ++ [v]).map J.store }
          else none) = some { row with chunks := row.chunks ++ [J.store v] } := by
        rw [if_pos own, store_merged]
      apply Upholds.updateRow changed
      · intro e held
        apply upholds_rollingBack
        intro reply
        exact .own owner (Nat.zero_le 1) (by simp)
      · apply Upholds.commitRow
        · intro e held
          exact .own owner (Nat.le_refl 1) (by simp)
        · intro table' log' reply whole' still
          refine ⟨whole'.commit still own chunk, .own owner (Nat.le_refl 1) ?_⟩
          rintro rfl
          exact ⟨rfl, List.mem_append_right _ List.mem_cons_self⟩

/-- In every state of every run of appends, on any sessions and by any tenants, each session
has its initial array followed by the chunks of the committed appends of its own tenant, in
commit order; an append that was answered nil is one of them, and an append of another tenant was
answered ErrNotFound and committed nothing. -/
theorem chunks_of_committed_appends (J : Jsonb Json) (now : Int)
    (initial : Table String (KDRV1UploadSession J))
    (d : Database String (KDRV1UploadSession J) GoError (Append Json) (Except GoError Unit)
      (List (Append Json)))
    (run : (appends J).Reaches ⟨now, initial, fun _ => none, []⟩ d) :
    Extends initial d.table d.ghost ∧
      ∀ i a past held began value, d.callers i = some ⟨a, past, held, began, .ret value⟩ →
        Answered initial a past value ∧ (value = .ok () → a ∈ d.ghost) := by
  have first : Extends initial initial [] := by
    constructor
    · intro id
      cases initial id <;> simp [appended]
    · intro a member
      contradiction
  have kept : Kept (appends J) (Extends initial) (Answered initial) d :=
    Kept.reaches (fun whole started => ⟨started ▸ whole, append_upholds initial _⟩) first run
  refine ⟨kept.whole, ?_⟩
  intro i a past held began value found
  have answered := kept.returned found
  refine ⟨answered, fun nil => ?_⟩
  apply Service.noted_of_committed (P := fun a log => a ∈ log) (fun _ _ _ => ?_)
    (fun _ _ _ _ there => ?_) (fun _ _ _ _ same there => ?_) run found (answered.once nil).2
  · exact List.mem_append_right _ List.mem_cons_self
  · exact List.mem_append_left _ there
  · exact (show _ = _ from same) ▸ there

/-- An append that nothing disturbs is committed. -/
theorem append_solo (now : Int) (log : List (Append Json)) (present : table a.id = some row)
    (own : row.tenantID = a.tenantID) (chunk : a.chunk = some v) : ∃ past,
    Solo (appends J) now a table log [] none
      (appendKDRV1UploadSessionChunk J a.id a.tenantID a.chunk)
      (Function.update table a.id (some { row with chunks := row.chunks ++ [J.store v] }))
      (log ++ [a]) past (.ok ()) := by
  constructor
  apply Solo.ask trivial .begin
  apply Solo.lockRow trivial present (decide_eq_true own)
  simp only [scanRow]
  rw [mergeChunks_eq, chunk]
  have changed : (if row.tenantID = a.tenantID
      then some { row with chunks := (row.chunks.map Subtype.val ++ [v]).map J.store }
      else none) = some { row with chunks := row.chunks ++ [J.store v] } := by
    rw [if_pos own, store_merged]
  apply Solo.updateRow trivial changed
  apply Solo.commitRow trivial
  exact .ret

/-- Documents that Postgres keeps as they are. -/
def plainJson : Jsonb String := ⟨id, fun _ => rfl⟩

def openSession : Table String (KDRV1UploadSession plainJson) := fun id =>
  if id = "s" then some ⟨"t", [⟨"a", rfl⟩]⟩ else none

/-- A session with one chunk gets a second one. -/
theorem chunks_of_committed_append : ∃ d,
    (appends plainJson).Reaches ⟨0, openSession, fun _ => none, []⟩ d ∧
      d.table "s" = some ⟨"t", [⟨"a", rfl⟩, ⟨"b", rfl⟩]⟩ ∧
      Extends openSession d.table d.ghost := by
  obtain ⟨past, solo⟩ := append_solo (J := plainJson) 0 []
    (show openSession "s" = some ⟨"t", [⟨"a", rfl⟩]⟩ from rfl)
    (a := ⟨"s", "t", some "b"⟩) rfl rfl
  have run : (appends plainJson).Reaches ⟨0, openSession, fun _ => none, []⟩ _ :=
    Solo.called (i := 0) rfl solo rfl idle_none
  exact ⟨_, run, rfl, (chunks_of_committed_appends plainJson 0 openSession _ run).1⟩

end KDrive.Metadata
