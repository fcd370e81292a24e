import KDrive.Blobio.Promotion

/-! Whether a promotion that reports success left the right bytes durable. An upload does;
a skip after a HEAD relies on what the HEAD says, and a HEAD need not say the checksum. -/
namespace KDrive.Blobio
open Go Blobstore Hotcache Interaction
variable {C S : Type} [Cache C] [FaithfulStore S]

/-- A HEAD that answers has the true size, and the true checksum or none. -/
def TrueAnswer (answer : Except GoError ObjectMeta) (current : Option Bytes) : Prop :=
  ∀ info, answer = .ok info → ∃ data, current = some data ∧ info.size = data.length ∧
    (info.checksumSHA256 = "" ∨ info.checksumSHA256 = checksumSHA256 data)

/-- A blob with the row a Write of `body` left, and no promotion of it on the way. What the
cache has for it can be read, and is not another body of the same checksum. -/
structure Pending (w : World C S) (b : String) (row : BlobStatus) (body : Bytes) : Prop where
  recorded : w.status b = some row
  cached : row.commitState = .cached
  described : Describes body row.size row.checksumSHA256
  held : ∀ r md, (Cache.get w.cache b w.clock).1 = .ok (r, md) →
    r.failure = none ∧ (checksumSHA256 r.data = row.checksumSHA256 → r.data = body)
  free : (w.flights .promote).inflight b = none

omit [FaithfulStore S] in
theorem Pending.known {w : World C S} (pending : Pending w b row body) :
    row.checksumSHA256 ≠ "" := by
  rw [pending.described.checksum]
  exact checksumSHA256_ne_empty body

/-- The durable object is the recorded one. -/
def RightBytes (store : S) (b : String) (row : BlobStatus) : Prop :=
  ∃ data, FaithfulStore.current store b = some data ∧ (data.length : Int) = row.size ∧
    checksumSHA256 data = row.checksumSHA256

/-- The HEAD answers without a checksum, for an object that has the recorded size and
another content. -/
def Mistaken (faults : Call → Fault S) (ctx : Context) (w : World C S) (b : String)
    (row : BlobStatus) : Prop :=
  (faults (.storeHead ctx ⟨b⟩)).trouble = .calm ∧
    ∃ info data, (Store.head (faults (.storeHead ctx ⟨b⟩)).weather w.store ⟨b⟩).1 = .ok info ∧
      FaithfulStore.current w.store b = some data ∧ info.checksumSHA256 = "" ∧
      info.size = row.size ∧ checksumSHA256 data ≠ row.checksumSHA256

theorem headMatches_ok : headMatches row (.ok info) = true ↔ info.size = row.size ∧
    (info.checksumSHA256 = "" ∨ row.checksumSHA256 = "" ∨
      info.checksumSHA256 = row.checksumSHA256) := by
  simp [headMatches]

section
variable {faults : Call → Fault S} {ctx : Context} {w : World C S} {b : String} {row : BlobStatus}
  {body : Bytes}

/-- After a skip, the object the HEAD found is the durable one. -/
theorem skipped_right_iff (pending : Pending w b row body)
    (truthful : TrueAnswer (Store.head (faults (.storeHead ctx ⟨b⟩)).weather w.store ⟨b⟩).1
      (FaithfulStore.current w.store b))
    (obtained : Obtained (faults (.storeHead ctx ⟨b⟩))
      (Store.head (faults (.storeHead ctx ⟨b⟩)).weather w.store ⟨b⟩) answer store)
    (matching : headMatches row answer = true) :
    RightBytes store b row ↔ ¬ Mistaken faults ctx w b row := by
  cases answer with
  | error err => contradiction
  | ok info =>
    have headed := obtained.ok
    obtain ⟨data, current, size, sum⟩ := truthful info (by rw [headed])
    obtain ⟨sized, agrees⟩ := headMatches_ok.mp matching
    have kept : FaithfulStore.current store b = some data := by
      have same := FaithfulStore.head_current (faults (.storeHead ctx ⟨b⟩)).weather w.store ⟨b⟩
      rw [headed] at same
      rw [same, current]
    constructor
    · rintro ⟨data', current', _, right⟩ ⟨_, info', data'', answered, current'', _, _, wrong⟩
      cases kept.symm.trans current'
      cases current.symm.trans current''
      exact wrong right
    · intro honest
      refine ⟨data, kept, by omega, ?_⟩
      by_contra wrong
      rcases sum with omitted | told
      · rcases obtained with ⟨calm, _⟩ | ⟨_, _, impossible⟩
        · exact honest ⟨calm, info, data, by rw [headed], current, omitted, sized, wrong⟩
        · contradiction
      · rcases agrees with omitted | unknown | same
        · exact checksumSHA256_ne_empty data (told.symm.trans omitted)
        · exact pending.known unknown
        · exact wrong (told.symm.trans same)

/-- A promotion that returns nil has made the recorded bytes durable, exactly unless the
HEAD it skipped on left out the checksum of another object of the same size. -/
theorem promote_durable_iff (orderly : Orderly faults) (pending : Pending w b row body)
    (truthful : TrueAnswer (Store.head (faults (.storeHead ctx ⟨b⟩)).weather w.store ⟨b⟩).1
      (FaithfulStore.current w.store b))
    (ran : (promote ctx b).run.run (alone faults) w = some (.ok none, w')) :
    RightBytes w'.store b row ↔ ¬ Mistaken faults ctx w b row := by
  have whole : ∀ r md, (Cache.get w.cache b w.clock).1 = .ok (r, md) → r.failure = none :=
    fun r md hit => (pending.held r md hit).1
  obtain ⟨status, cache, store, flights, rfl, _, promoted⟩ :=
    (promote_leads orderly ctx b whole pending.free).of_run ran
  cases promoted with
  | durable row' found state =>
    cases pending.recorded.symm.trans found
    cases pending.cached.symm.trans state
  | skipped row' answer store' found _ obtained matching =>
    cases pending.recorded.symm.trans found
    exact skipped_right_iff pending truthful obtained matching
  | sent row' answer headed body' md res store' found _ obtained different hit sent =>
    cases pending.recorded.symm.trans found
    obtain rfl : body' = body := (pending.held _ md hit).2 (sent.verified pending.known)
    have right : RightBytes store b row :=
      ⟨body', sent.current, pending.described.size.symm, pending.described.checksum.symm⟩
    refine ⟨fun _ => ?_, fun _ => right⟩
    rintro ⟨calm, info, data, answered, _, omitted, sized, _⟩
    have same := congrArg Prod.fst (obtained.calm calm)
    rw [answered] at same
    subst same
    have matching := headMatches_ok.mpr ⟨sized, .inl omitted⟩
    rw [different] at matching
    contradiction

end

/-- The row of a blob `k` of two bytes, not yet promoted. -/
def writtenRow : BlobStatus where
  blobID := "k"
  commitState := .cached
  size := 2
  checksumSHA256 := checksumSHA256 [1, 2]

/-- The blob as a Write leaves it, next to what the store has. -/
def written (objects : String → Option Object) : Node where
  cache := (MemoryCache.put { policy := { kind := .lru, maxBytes := 10 } } "k"
    (some ⟨[1, 2], none⟩) { sizeBytes := 2, nonEvictable := true } 0).2
  status := Function.update (fun _ => none) "k" (some writtenRow)
  store := { objects }

/-- No call fails; the store may leave checksums out. -/
def answering (omitted : Bool) (_ : Call) : Fault MapStore := ⟨{ checksum := omitted }, .calm⟩

theorem answering_orderly (omitted : Bool) : Orderly (answering omitted) := fun _ => .inl rfl

theorem written_pending (objects : String → Option Object) :
    Pending (written objects) "k" writtenRow [1, 2] := by
  refine ⟨rfl, rfl, ⟨rfl, rfl⟩, fun r md hit => ?_, rfl⟩
  have facts : (match (Cache.get (written fun _ => none).cache "k" 0).1 with
    | .ok (r, _) => decide (r = ⟨[1, 2], none⟩)
    | .error _ => true) = true := by decide +kernel
  have hit : (Cache.get (written fun _ => none).cache "k" 0).1 = .ok (r, md) := hit
  rw [hit] at facts
  have whole : r = ⟨[1, 2], none⟩ := of_decide_eq_true facts
  rw [whole]
  exact ⟨rfl, fun _ => rfl⟩

/-- The run reports success, and the object is then as said. -/
def leaves (data : Bytes) : Option (Except String (Option GoError) × Node) → Bool
  | some (.ok none, w') => (w'.store.objects "k").map Object.data == some data
  | _ => false

theorem leaves_sound (checked : leaves data ran = true) :
    ∃ w', ran = some (.ok none, w') ∧ FaithfulStore.current w'.store "k" = some data := by
  rcases ran with _ | ⟨_ | _ | _, w'⟩
  · exact absurd checked Bool.false_ne_true
  · exact absurd checked Bool.false_ne_true
  · exact ⟨w', rfl, beq_iff_eq.mp checked⟩
  · exact absurd checked Bool.false_ne_true

/-- The HEAD tells the checksum of the stale object, so the new body is uploaded. -/
theorem promote_durable_stale : ∃ w',
    (promote (.caller 0) "k").run.run (alone (answering false))
        (written fun _ => some { data := [3, 4] }) = some (.ok none, w') ∧
      Pending (written fun _ => some { data := [3, 4] }) "k" writtenRow [1, 2] ∧
      RightBytes w'.store "k" writtenRow := by
  obtain ⟨w', ran, _⟩ := leaves_sound (by decide +kernel :
    leaves [1, 2] ((promote (.caller 0) "k").run.run (alone (answering false))
      (written fun _ => some { data := [3, 4] })) = true)
  have pending := written_pending fun _ => some { data := [3, 4] }
  refine ⟨w', ran, pending, ?_⟩
  refine (promote_durable_iff (answering_orderly false) pending ?_ ran).mpr ?_
  · intro info told
    cases told
    exact ⟨[3, 4], rfl, rfl, .inr rfl⟩
  · rintro ⟨_, info, data, told, _, none, _⟩
    cases told
    exact checksumSHA256_ne_empty [3, 4] none

/-- A HEAD without a checksum: the promotion reports success and the stale object of the
same size stays. -/
theorem promote_keeps_stale : ∃ w',
    (promote (.caller 0) "k").run.run (alone (answering true))
        (written fun _ => some { data := [3, 4] }) = some (.ok none, w') ∧
      Pending (written fun _ => some { data := [3, 4] }) "k" writtenRow [1, 2] ∧
      TrueAnswer (Store.head (answering true (.storeHead (.caller 0) ⟨"k"⟩)).weather
        (written fun _ => some { data := [3, 4] }).store ⟨"k"⟩).1 (some [3, 4]) ∧
      ¬ RightBytes w'.store "k" writtenRow := by
  obtain ⟨w', ran, stored⟩ := leaves_sound (by decide +kernel :
    leaves [3, 4] ((promote (.caller 0) "k").run.run (alone (answering true))
      (written fun _ => some { data := [3, 4] })) = true)
  refine ⟨w', ran, written_pending _, ?_, ?_⟩
  · intro info told
    cases told
    exact ⟨[3, 4], rfl, rfl, .inl rfl⟩
  · rintro ⟨data, current, _, right⟩
    cases stored.symm.trans current
    have differs : checksumSHA256 [3, 4] ≠ checksumSHA256 [1, 2] := by decide +kernel
    exact differs right

end KDrive.Blobio
