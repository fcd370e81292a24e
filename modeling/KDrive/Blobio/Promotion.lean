import KDrive.Blobio.Alone

/-! A promotion that runs alone, over any faithful store and with any calls failing: on
which of its paths it ends, and what it leaves in the store, the status row and the cache. -/
namespace KDrive.Blobio
open Go Blobstore Hotcache Interaction
variable {C S : Type} [Cache C] [FaithfulStore S] {faults : Call → Fault S} {w w' : World C S}

/-- No call fails, and the store refuses nothing without a reason. -/
def Cooperative (faults : Call → Fault S) : Prop :=
  ∀ c, (faults c).trouble = .calm ∧ FaithfulStore.willing (faults c).weather

section Sending
variable (ctx : Context) (b : String) (body : Bytes) (status : BlobStatus)

/-- The request of `promoteSingle`. -/
def singleRequest : PutRequest where
  key := b
  body := ⟨body, none⟩
  expectedLength := status.size
  checksumSHA256 := status.checksumSHA256
  contentType := "application/octet-stream"
  retention := status.retention

/-- The body is stored, and `res` is the answer of the call that did it. -/
structure Sent (faults : Call → Fault S) (clock : Time) (store : S) (res : PutResult) : Prop where
  current : FaithfulStore.current store b = some body
  verified : status.checksumSHA256 ≠ "" → checksumSHA256 body = status.checksumSHA256
  answer : (status.size ≤ promoteMultipartThreshold ∧ ∃ before,
      Store.put (faults (.storePut ctx (singleRequest b body status))).weather clock before
        (singleRequest b body status) = (.ok (res, body), store)) ∨
    (promoteMultipartThreshold < status.size ∧ ∃ before req, req.upload.key = b ∧
      Store.completeMultipart (faults (.completeMultipart ctx req)).weather clock before req =
        (.ok res, store))

/-- The outcome of sending: only the store changes, and what is reported as sent is stored. A
body that is as described is sent, if it is `due`. -/
abbrev Sends (faults : Call → Fault S) (w : World C S) (due : Prop)
    (result : Except GoError PutResult) (w' : World C S) : Prop :=
  (∃ store, w' = { w with store }) ∧
    (∀ res, result = .ok res → Sent ctx b body status faults w.clock w'.store res) ∧
    (Cooperative faults → Describes body status.size status.checksumSHA256 → due →
      ∃ res, result = .ok res)

/-- The upload has the first so many parts of the body and no others. -/
def Staging (store : S) (upload : MultipartUpload) (count : Nat) : Prop :=
  ∃ parts, FaithfulStore.staged store upload = some parts ∧
    (∀ part ∈ parts, part.2 = slice promotePartSize body (part.1 - 1).toNat) ∧
    ∀ i < count, ∃ sent, parts.lookup ((i : Int) + 1) = some sent

/-- The part numbers of the body are `int32`, and the counter that lists them does not wrap. -/
def Sendable : Prop := partCount promotePartSize body.length < 2 ^ 31 - 1

variable {ctx b body status}

theorem Sendable.below (sendable : Sendable body) :
    partCount promotePartSize body.length < 2 ^ 31 := by
  unfold Sendable at sendable
  omega

theorem Sendable.missingPart (sendable : Sendable body) :
    missingPart (partCount promotePartSize body.length) = none :=
  if_neg (Nat.ne_of_lt sendable)

/-- The next part arrives. -/
theorem Staging.grow {before after : S} {upload : MultipartUpload} {number : Int}
    (staging : Staging body before upload count)
    (found : FaithfulStore.staged before upload = some parts)
    (arrived : FaithfulStore.staged after upload =
      some ((number, slice promotePartSize body count) :: parts)) (next : number = count + 1) :
    Staging body after upload (count + 1) := by
  obtain ⟨parts', found', sliced, there⟩ := staging
  cases found.symm.trans found'
  refine ⟨_, arrived, fun entry member => ?_, fun i below => ?_⟩
  · rcases List.mem_cons.mp member with rfl | old
    · have index : (number - 1).toNat = count := by omega
      rw [index]
    · exact sliced entry old
  · by_cases last : (i : Int) + 1 = number
    · rw [last]
      exact ⟨_, List.lookup_cons_self⟩
    · obtain ⟨sent, old⟩ := there i (by omega)
      refine ⟨sent, ?_⟩
      rw [List.lookup_cons, beq_eq_false_iff_ne.mpr last]
      exact old

variable (orderly : Orderly faults)
include orderly

theorem promoteSingle_leads (small : status.size ≤ promoteMultipartThreshold) :
    Leads (alone faults) (promoteSingle ctx b ⟨body, none⟩ status) w
      (Sends ctx b body status faults w True) := by
  refine Leads.storePut orderly fun result store
    (obtained : Obtained (faults (.storePut ctx (singleRequest b body status)))
      (Store.put _ w.clock w.store (singleRequest b body status)) result store) => ?_
  match result, obtained with
  | .error err, obtained =>
    refine Leads.pure ⟨⟨store, rfl⟩, fun _ impossible => by contradiction, ?_⟩
    intro cooperative described _
    obtain ⟨calm, willing⟩ := cooperative (.storePut ctx (singleRequest b body status))
    have refused := obtained.calm calm
    obtain ⟨res, drawn, store', put⟩ : ∃ res drawn store', Store.put _ w.clock w.store
        (singleRequest b body status) = (.ok (res, drawn), store') :=
      FaithfulStore.put_willing willing rfl (fun _ => described.size.symm)
        (.inr described.checksum.symm)
    cases put.symm.trans refused
  | .ok (res, hashed), obtained =>
    have put := obtained.ok
    obtain ⟨_, rfl, current⟩ := FaithfulStore.put_ok put
    simp only
    split
    · rename_i wrong
      refine Leads.pure ⟨⟨store, rfl⟩, fun _ impossible => by contradiction, ?_⟩
      exact fun _ described _ => absurd described.checksum.symm wrong.2
    · rename_i right
      refine Leads.pure ⟨⟨store, rfl⟩, fun res' ok => ?_, fun _ _ _ => ⟨res, rfl⟩⟩
      cases ok
      exact ⟨current, fun known => not_not.mp fun wrong => right ⟨known, wrong⟩,
        .inl ⟨small, w.store, put⟩⟩

/-- Part numbers are right as long as uploads succeed: the first one that is not fits no
upload. -/
theorem uploadParts_leads (upload : MultipartUpload) (n : Nat) :
    ∀ (first : Nat) (w : World C S), first < 2 ^ 31 → Staging body w.store upload first →
      Leads (alone faults)
        (uploadParts ctx upload promotePartSize body (List.range' first n)) w fun result w' =>
          (∃ store, w' = { w with store }) ∧
          (∀ parts, result = .ok parts → Staging body w'.store upload (first + n) ∧
            parts.map CompletedPart.partNumber =
              (List.range' first n).map fun i : Nat => (i : Int) + 1) ∧
          (Cooperative faults → first + n < 2 ^ 31 → ∃ parts, result = .ok parts) := by
  induction n with
  | zero =>
    intro first w _ staging
    refine Leads.pure ⟨⟨w.store, rfl⟩, fun parts ok => ?_, fun _ _ => ⟨[], rfl⟩⟩
    cases ok
    exact ⟨staging, rfl⟩
  | succ n ih =>
    intro first w small staging
    rw [List.range'_succ, uploadParts]
    have right : 1 ≤ partNumber first → partNumber first = first + 1 ∧ first + 1 < 2 ^ 31 := by
      intro positive
      by_cases last : first = 2 ^ 31 - 1
      · have wraps := partNumber_wraps
        rw [← last] at wraps
        omega
      · exact ⟨partNumber_eq (by omega), by omega⟩
    have fits : first + (n + 1) < 2 ^ 31 → 1 ≤ partNumber first := by
      intro room
      rw [partNumber_eq (by omega)]
      omega
    generalize partNumber first = sent at right fits ⊢
    refine Leads.uploadPart orderly fun result store obtained => ?_
    match result, obtained with
    | .error err, obtained =>
      refine Leads.pure ⟨⟨store, rfl⟩, fun _ impossible => by contradiction, ?_⟩
      intro cooperative room
      obtain ⟨calm, willing⟩ := cooperative (.uploadPart ctx _)
      obtain ⟨parts, found, _, _⟩ := staging
      obtain ⟨part, store', stored⟩ : ∃ part store', Store.uploadPart _ w.store
          ⟨upload, sent, slice promotePartSize body first⟩ = (.ok part, store') :=
        FaithfulStore.part_willing willing (fits room) found
      cases stored.symm.trans (obtained.calm calm)
    | .ok part, obtained =>
      obtain ⟨numbered, positive, parts, found, staged⟩ := FaithfulStore.part_ok obtained.ok
      obtain ⟨number, small⟩ := right positive
      have grown := staging.grow found staged number
      refine Leads.bind ((ih (first + 1) { w with store } small grown).mono
        fun rest w₂ ⟨frame, others, success⟩ => ?_)
      obtain ⟨store₂, rfl⟩ := frame
      cases rest with
      | error err =>
        refine Leads.pure ⟨⟨store₂, rfl⟩, fun _ impossible => by contradiction, ?_⟩
        intro cooperative room
        obtain ⟨_, impossible⟩ := success cooperative (by omega)
        contradiction
      | ok parts =>
        obtain ⟨staging, numbers⟩ := others parts rfl
        refine Leads.pure ⟨⟨store₂, rfl⟩, fun all ok => ?_, fun _ _ => ⟨_, rfl⟩⟩
        cases ok
        refine ⟨?_, by simp [numbers, numbered, number]⟩
        rwa [Nat.add_right_comm, Nat.add_assoc] at staging

theorem completeParts_leads (upload : MultipartUpload) (large : promoteMultipartThreshold < status.size)
    (staging : Staging body w.store upload (partCount promotePartSize body.length))
    (numbered : parts.map CompletedPart.partNumber =
      partNumbers (partCount promotePartSize body.length)) (missing : Option Int) :
    Leads (alone faults) (completeParts ctx upload body status parts missing) w
      (Sends ctx upload.key body status faults w (missing = none)) := by
  obtain ⟨staged, found, sliced, there⟩ := staging
  unfold completeParts
  cases missing with
  | some n =>
    exact Leads.pure ⟨⟨w.store, rfl⟩, fun _ impossible => by contradiction,
      fun _ _ impossible => by contradiction⟩
  | none =>
    simp only
    split
    · rename_i wrong
      refine Leads.pure ⟨⟨w.store, rfl⟩, fun _ impossible => by contradiction, ?_⟩
      exact fun _ described _ => absurd described.checksum.symm wrong
    · rename_i right
      refine Leads.completeMultipart orderly fun result store obtained => ?_
      match result, obtained with
      | .error err, obtained =>
        refine Leads.pure ⟨⟨store, rfl⟩, fun _ impossible => by contradiction, ?_⟩
        intro cooperative _ _
        obtain ⟨calm, willing⟩ := cooperative (.completeMultipart ctx _)
        have listed : ∀ part ∈ parts, ∃ sent, staged.lookup part.partNumber = some sent := by
          intro part member
          have number := List.mem_map_of_mem (f := CompletedPart.partNumber) member
          rw [numbered] at number
          obtain ⟨i, below, same⟩ := List.mem_map.mp number
          rw [← same]
          exact there i (List.mem_range.mp below)
        obtain ⟨data, assembled⟩ := MapStore.assemble_some listed
        obtain ⟨res, store', completed⟩ : ∃ res store', Store.completeMultipart _ w.clock w.store
            { upload, parts } = (.ok res, store') :=
          FaithfulStore.complete_willing willing found assembled
        cases completed.symm.trans (obtained.calm calm)
      | .ok res, obtained =>
        have completed := obtained.ok
        obtain ⟨parts', data, found', assembled, current⟩ := FaithfulStore.complete_ok completed
        cases found.symm.trans found'
        have whole : data = body := by
          have right := MapStore.assemble_eq
            (f := fun n => slice promotePartSize body (n - 1).toNat) sliced assembled
          rw [right, numbered, slices_partNumbers promotePartSize_pos]
        rw [whole] at current
        refine Leads.pure ⟨⟨store, rfl⟩, fun res' ok => ?_, fun _ _ _ => ⟨res, rfl⟩⟩
        cases ok
        exact ⟨current, fun _ => not_not.mp right, .inr ⟨large, w.store, _, rfl, completed⟩⟩

theorem sendParts_leads (upload : MultipartUpload) (large : promoteMultipartThreshold < status.size)
    (staging : Staging body w.store upload 0) :
    Leads (alone faults) (sendParts ctx upload ⟨body, none⟩ status) w
      (Sends ctx upload.key body status faults w (Sendable body)) := by
  unfold sendParts
  simp only [List.range_eq_range']
  refine Leads.bind ((uploadParts_leads orderly upload _ 0 w (by decide) staging).mono
    fun result w₁ ⟨frame, sent, success⟩ => ?_)
  obtain ⟨store, rfl⟩ := frame
  cases result with
  | error err =>
    refine Leads.pure ⟨⟨store, rfl⟩, fun _ impossible => by contradiction, ?_⟩
    intro cooperative _ sendable
    obtain ⟨_, impossible⟩ := success cooperative (by rw [Nat.zero_add]; exact sendable.below)
    contradiction
  | ok parts =>
    obtain ⟨staging, numbered⟩ := sent parts rfl
    rw [Nat.zero_add] at staging
    rw [← List.range_eq_range'] at numbered
    refine (completeParts_leads orderly upload large staging numbered _).mono
      fun result w₂ ⟨frame, sent, success⟩ => ?_
    obtain ⟨store₂, rfl⟩ := frame
    refine ⟨⟨store₂, rfl⟩, sent, fun cooperative described sendable => ?_⟩
    exact success cooperative described sendable.missingPart

theorem promoteMultipart_leads (large : promoteMultipartThreshold < status.size) :
    Leads (alone faults) (promoteMultipart ctx b ⟨body, none⟩ status) w
      (Sends ctx b body status faults w (Sendable body)) := by
  refine Leads.createMultipart orderly fun result store obtained => ?_
  match result, obtained with
  | .error err, obtained =>
    refine Leads.pure ⟨⟨store, rfl⟩, fun _ impossible => by contradiction, ?_⟩
    intro cooperative _ _
    obtain ⟨calm, willing⟩ := cooperative (.createMultipart ctx _)
    obtain ⟨upload, store', created⟩ : ∃ upload store', Store.createMultipart _ w.store _ =
      (.ok upload, store') := FaithfulStore.create_willing willing
    cases created.symm.trans (obtained.calm calm)
  | .ok target, obtained =>
    obtain ⟨rfl, staged⟩ := FaithfulStore.create_ok obtained.ok
    have staging : Staging body store target 0 := ⟨[], staged, by simp, by simp⟩
    refine Leads.bind ((sendParts_leads (w := { w with store }) orderly target large
      staging).recovered.mono fun result w₁ => ?_)
    rintro ⟨result, rfl, ⟨store₁, rfl⟩, sent, success⟩
    match result, sent, success with
    | .ok res, sent, _ =>
      refine Leads.pure ⟨⟨store₁, rfl⟩, fun res' ok => ?_, fun _ _ _ => ⟨res, rfl⟩⟩
      cases ok
      exact sent res rfl
    | .error err, _, success =>
      refine Leads.abortMultipart orderly fun _ store₂ => ?_
      refine Leads.pure ⟨⟨store₂, rfl⟩, fun _ impossible => by contradiction, ?_⟩
      intro cooperative described sendable
      obtain ⟨_, impossible⟩ := success cooperative described sendable
      contradiction

theorem sendBody_leads : Leads (alone faults) (sendBody ctx b ⟨body, none⟩ status) w
      (Sends ctx b body status faults w (Sendable body)) := by
  unfold sendBody
  split
  · exact promoteMultipart_leads orderly ‹_›
  · refine (promoteSingle_leads orderly (not_lt.mp ‹_›)).mono fun result w' => ?_
    exact fun ⟨frame, sent, success⟩ => ⟨frame, sent, fun cooperative described _ =>
      success cooperative described trivial⟩

end Sending

/-- The cache after the entry was written again without its protection. -/
def released (cache : C) (b : String) (status : BlobStatus) (clock : Time) : C :=
  match Cache.get cache b clock with
  | (.error _, cache) => cache
  | (.ok (r, _), cache) => (Cache.put cache b r
      { sizeBytes := status.size, hash := utf8 status.checksumSHA256, nonEvictable := false } clock).2

theorem clearProtection_leads (orderly : Orderly faults) (ctx : Context) (b : String)
    (status : BlobStatus) :
    Leads (alone faults) (clearProtection ctx b status) w fun _ w' =>
      w' = { w with cache := released w.cache b status w.clock } := by
  refine Leads.cacheGet orderly ?_
  unfold released
  obtain ⟨result, cache⟩ := Cache.get w.cache b w.clock
  match result with
  | .error err => exact Leads.pure rfl
  | .ok (r, md) => exact Leads.cachePut orderly (Leads.pure rfl)

/-- What a promotion needs to go through: a row, and the body it describes in the cache. -/
def Promotable (status : String → Option BlobStatus) (cache : C) (clock : Time) (b : String) : Prop :=
  ∃ row body md, status b = some row ∧ Describes body row.size row.checksumSHA256 ∧
    (Cache.get cache b clock).1 = .ok (⟨body, none⟩, md) ∧ Sendable body

/-- How a promotion of `b` ends: its answer, and the rows, the cache and the store after it. -/
inductive Promoted (faults : Call → Fault S) (ctx : Context) (b : String)
    (status : String → Option BlobStatus) (cache : C) (store : S) (clock : Time) :
    Option GoError → (String → Option BlobStatus) → C → S → Prop where
  | durable (row : BlobStatus) : status b = some row → row.commitState = .durable →
      Promoted faults ctx b status cache store clock none status cache store
  | skipped (row : BlobStatus) (answer : Except GoError ObjectMeta) (store' : S) :
      status b = some row → row.commitState = .cached →
      Obtained (faults (.storeHead ctx ⟨b⟩))
        (Store.head (faults (.storeHead ctx ⟨b⟩)).weather store ⟨b⟩) answer store' →
      headMatches row answer = true →
      Promoted faults ctx b status cache store clock none
        (markDurable status b row.versionID row.size row.checksumSHA256 clock) cache store'
  | sent (row : BlobStatus) (answer : Except GoError ObjectMeta) (headed : S) (body : Bytes)
      (md : Metadata) (res : PutResult) (store' : S) :
      status b = some row → row.commitState = .cached →
      Obtained (faults (.storeHead ctx ⟨b⟩))
        (Store.head (faults (.storeHead ctx ⟨b⟩)).weather store ⟨b⟩) answer headed →
      headMatches row answer = false →
      (Cache.get cache b clock).1 = .ok (⟨body, none⟩, md) →
      Sent ctx b body row faults clock store' res →
      Promoted faults ctx b status cache store clock none
        (markDurable status b res.versionID res.size res.checksumSHA256 res.writeTime)
        (released (Cache.get cache b clock).2 b row clock) store'
  | refused (err : GoError) (status' : String → Option BlobStatus) (cache' : C) (store' : S) :
      (status' = status ∨ ∃ versionID size checksum durableAt,
        status' = markDurable status b versionID size checksum durableAt) →
      (cache' = cache ∨ cache' = (Cache.get cache b clock).2) →
      ¬ (Cooperative faults ∧ Promotable status cache clock b) →
      Promoted faults ctx b status cache store clock (some err) status' cache' store'

section Promoting
variable (orderly : Orderly faults) (ctx : Context) (b : String)
  (whole : ∀ r md, (Cache.get w.cache b w.clock).1 = .ok (r, md) → r.failure = none)
include orderly whole

theorem upload_leads (row : BlobStatus) (headed : S) (found : w.status b = some row)
    (cached : row.commitState = .cached)
    (obtained : Obtained (faults (.storeHead ctx ⟨b⟩))
      (Store.head (faults (.storeHead ctx ⟨b⟩)).weather w.store ⟨b⟩) answer headed)
    (different : headMatches row answer = false) :
    Leads (alone faults) (upload ctx b row) { w with store := headed } fun err w' =>
      ∃ status cache store, w' = { w with status, cache, store } ∧
        Promoted faults ctx b w.status w.cache w.store w.clock err status cache store := by
  refine Leads.cacheGet orderly ?_
  simp only
  cases got : (Cache.get w.cache b w.clock).1 with
  | error err =>
    refine Leads.pure ⟨_, _, _, rfl, .refused _ _ _ _ (.inl rfl) (.inr rfl) ?_⟩
    rintro ⟨_, _, _, _, _, _, hit, _⟩
    cases got.symm.trans hit
  | ok found' =>
    obtain ⟨⟨body, failure⟩, md⟩ := found'
    obtain rfl : failure = none := whole _ _ got
    refine Leads.bind ((sendBody_leads orderly).mono fun result w₁ ⟨frame, sent, success⟩ => ?_)
    obtain ⟨store, rfl⟩ := frame
    cases result with
    | error err =>
      refine Leads.pure ⟨_, _, _, rfl, .refused _ _ _ _ (.inl rfl) (.inr rfl) ?_⟩
      rintro ⟨cooperative, row', body', _, found', described, hit, sendable⟩
      cases found.symm.trans found'
      cases got.symm.trans hit
      obtain ⟨_, impossible⟩ := success cooperative described sendable
      contradiction
    | ok res =>
      refine Leads.markDurable orderly ?_ fun err status noisy marked => ?_
      · refine Leads.bind ((clearProtection_leads orderly ctx b row).mono fun _ w₂ same => ?_)
        rw [same]
        exact Leads.pure ⟨_, _, _, rfl, .sent row answer headed body md res store found cached
          obtained different got (sent res rfl)⟩
      · refine Leads.pure ⟨_, _, _, rfl, .refused _ _ _ _ ?_ (.inr rfl) ?_⟩
        · exact marked.imp_right fun same => ⟨_, _, _, _, same⟩
        · exact fun ⟨cooperative, _⟩ => noisy (cooperative _).1

theorem promoteLocked_leads : Leads (alone faults) (promoteLocked ctx b) w fun err w' =>
      ∃ status cache store, w' = { w with status, cache, store } ∧
        Promoted faults ctx b w.status w.cache w.store w.clock err status cache store := by
  refine Leads.statusGet orderly fun result looked => ?_
  match result, looked with
  | .error err, looked =>
    refine Leads.pure ⟨_, _, _, rfl, .refused _ _ _ _ (.inl rfl) (.inl rfl) ?_⟩
    rintro ⟨cooperative, _⟩
    rcases looked with impossible | ⟨noisy, _⟩
    · contradiction
    · exact noisy (cooperative _).1
  | .ok none, looked =>
    refine Leads.pure ⟨_, _, _, rfl, .refused _ _ _ _ (.inl rfl) (.inl rfl) ?_⟩
    rintro ⟨_, row, _, _, found, _⟩
    rcases looked with same | ⟨_, _, impossible⟩
    · rw [found] at same
      cases same
    · contradiction
  | .ok (some row), looked =>
    have found : w.status b = some row := by
      rcases looked with same | ⟨_, _, impossible⟩
      · exact (Except.ok.inj same).symm
      · contradiction
    simp only
    split
    · exact Leads.pure ⟨_, _, _, rfl, .durable row found ‹_›⟩
    · have cached : row.commitState = .cached := by
        cases state : row.commitState with
        | cached => rfl
        | durable => contradiction
      refine Leads.storeHead orderly fun answer headed obtained => ?_
      split
      · rename_i matching
        refine Leads.access rfl ?_
        refine Leads.markDurable orderly ?_ fun err status noisy marked => ?_
        · exact Leads.pure ⟨_, _, _, rfl, .skipped row answer headed found cached obtained matching⟩
        · refine Leads.pure ⟨_, _, _, rfl, .refused _ _ _ _ ?_ (.inl rfl) ?_⟩
          · exact marked.imp_right fun same => ⟨_, _, _, _, same⟩
          · exact fun ⟨cooperative, _⟩ => noisy (cooperative _).1
      · rename_i different
        exact upload_leads orderly ctx b whole row headed found cached obtained
          (Bool.eq_false_iff.mpr different)

end Promoting

theorem promote_leads (orderly : Orderly faults) (ctx : Context) (b : String)
    (whole : ∀ r md, (Cache.get w.cache b w.clock).1 = .ok (r, md) → r.failure = none)
    (free : (w.flights .promote).inflight b = none) :
    Leads (alone faults) (promote ctx b) w fun err w' =>
      ∃ status cache store flights, w' = { w with status, cache, store, flights } ∧
        SameFlights w.flights flights ∧
        Promoted faults ctx b w.status w.cache w.store w.clock err status cache store := by
  refine Leads.access (alone_join free) ?_
  refine Leads.bind ((promoteLocked_leads (w := w.lead .promote b) orderly ctx b
    whole).recovered.mono fun result w₁ => ?_)
  rintro ⟨err, rfl, status, cache, store, rfl, promoted⟩
  refine Leads.access rfl (Leads.bind (Leads.access rfl ?_))
  refine ⟨(), _, rfl, Leads.pure ⟨status, cache, store, _, rfl, ?_, promoted⟩⟩
  exact sameFlights_flight free rfl _ _ _

end KDrive.Blobio
