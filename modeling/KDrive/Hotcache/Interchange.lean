import KDrive.Hotcache.Capacity
import KDrive.Hotcache.Protection
import KDrive.Hotcache.RegionMap
import KDrive.Hotcache.Sessions
import Mathlib.Algebra.Order.BigOperators.Group.List

/-! The two caches next to each other. Entry by entry the index of a disk cache is that of
a memory cache without the bodies, which are in the files; under the same calls both stay
so and give the same replies, up to a first Put that only one of them takes as it is. -/
namespace KDrive.Hotcache
open Go Interaction

namespace MemoryCache

def reply (c : MemoryCache) : CacheCall → CacheReply
  | .get b now => .got (get c b now).1
  | .put b r opts now => .stored (put c b r opts now).1.isNone
  | .evict _ => .evicted

/-- The replies to a sequence of calls. `Stats` changes nothing, so it is asked for after
every call. -/
def transcript (c : MemoryCache) : List CacheCall → List (CacheReply × Stats)
  | [] => []
  | op :: calls => (reply c op, (call c op).stats) :: transcript (call c op) calls

end MemoryCache

namespace DiskCache

def transcript (c : DiskCache) : List CacheCall → Disk (List (CacheReply × Stats))
  | [] => pure []
  | op :: calls => do
    let out ← answer c op
    let rest ← transcript out.2 calls
    pure ((out.1, out.2.stats) :: rest)

/-- A cache is opened and takes the calls. -/
def session (root : String) (scale : Int → ℚ → Int) (policy : EvictionPolicy) (start : Time)
    (calls : List CacheCall) : Disk (Except GoError (Stats × List (CacheReply × Stats))) := do
  match ← newDiskCache root scale policy start with
  | .error err => pure (.error err)
  | .ok c => do
    let replies ← transcript c calls
    pure (.ok (c.stats, replies))

end DiskCache

/-- A call the two caches are compared on: its blob ID is valid, the size it announces is
0 or right, and the body is one that can be held in memory. -/
def Proper : CacheCall → Prop
  | .get b _ => validateBlobID b = none
  | .put b r opts _ => validateBlobID b = none ∧ ∀ reader ∈ r,
      (opts.sizeBytes = 0 ∨ opts.sizeBytes = reader.data.length) ∧
        (reader.data.length : Int) ≤ maxInt64
  | .evict b => validateBlobID b = none

instance : DecidablePred Proper
  | .get _ _ | .evict _ => inferInstanceAs (Decidable (_ = _))
  | .put _ _ _ _ => inferInstanceAs (Decidable (_ ∧ ∀ _ ∈ _, _))

/-- The body is read whole and fits. -/
def Fits (policy : EvictionPolicy) (r : Reader) : Prop :=
  r.failure = none ∧ (0 < policy.maxBytes → (r.data.length : Int) ≤ policy.maxBytes)

instance (policy : EvictionPolicy) (r : Reader) : Decidable (Fits policy r) :=
  inferInstanceAs (Decidable (_ ∧ _))

/-- A call both caches take alike. Under the largest capacity that is an empty body only,
and where a Put is accepted its times need a JSON text. -/
def Agrees (policy : EvictionPolicy) : CacheCall → Prop
  | .put _ r opts now => ∀ reader ∈ r,
      (policy.maxBytes = maxInt64 → reader.data = [] ∧ reader.failure = none) ∧
        (Fits policy reader → dated now ∧ dated (MemoryCache.deadline policy opts now))
  | _ => True

instance (policy : EvictionPolicy) : DecidablePred (Agrees policy)
  | .get _ _ | .evict _ => inferInstanceAs (Decidable True)
  | .put _ _ _ _ => inferInstanceAs (Decidable (∀ _ ∈ _, _))

namespace MemoryCache

/-- The entry without its body. -/
def onDisk (e : MemEntry) : DiskEntry :=
  { blobID := e.blobID, sizeBytes := e.body.length, hash := e.hash, storedAt := e.storedAt,
    lastAccess := e.lastAccess, expiresAt := e.expiresAt, pinned := e.pinned,
    nonEvictable := e.nonEvictable, hits := e.hits }

theorem onDisk_corresponds : Corresponds onDisk :=
  ⟨fun _ => rfl, fun _ => rfl, fun _ => rfl, fun _ => rfl⟩

variable {m : MemoryCache} {op : CacheCall} {calls : List CacheCall} {content : String → Bytes}
  {policy : EvictionPolicy} {r : Reader} {opts : PutOptions} {b x : String} {now : Time}

section Bodies

theorem buffer_ok_iff (range : IsInt64 policy.maxBytes) (below : policy.maxBytes ≠ maxInt64)
    (announced : opts.sizeBytes ≤ r.data.length) (data : Bytes) :
    buffer policy r opts = .ok data ↔ Fits policy r ∧ data = r.data := by
  constructor
  · intro ok
    have whole := buffer_keeps range ok
    rw [if_neg below] at whole
    refine ⟨?_, whole⟩
    unfold buffer at ok
    split at ok
    · contradiction
    · split at ok
      · contradiction
      · rename_i read readAll
        split at ok
        · contradiction
        · rename_i fits
          cases ok
          rw [whole] at fits readAll
          have most : 0 < policy.maxBytes → (r.data.length : Int) ≤ policy.maxBytes := by
            intro positive
            exact not_lt.mp fun excess => fits ⟨positive, excess⟩
          refine ⟨?_, most⟩
          have uncapped : r.capped policy.maxBytes = r := by
            unfold Reader.capped
            split
            · rename_i positive
              have fit := most positive
              rw [int64_succ range below, Reader.limit_of_lt _ (by omega)]
            · rfl
          rw [uncapped, Reader.readAll] at readAll
          split at readAll
          · assumption
          · contradiction
  · rintro ⟨⟨whole, fits⟩, rfl⟩
    have same : r = ⟨r.data, none⟩ := by
      cases r
      simp_all
    rw [same]
    exact buffer_accepts range below announced fits

/-- Under the largest capacity nothing is read at all. -/
theorem buffer_largest (largest : policy.maxBytes = maxInt64) (small : opts.sizeBytes ≤ maxInt64) :
    buffer policy r opts = .ok [] := by
  have admitted : ¬ (0 < opts.sizeBytes ∧ 0 < policy.maxBytes ∧
      policy.maxBytes < opts.sizeBytes) := by omega
  have ended : r.capped policy.maxBytes = ⟨[], none⟩ := by
    unfold Reader.capped
    rw [largest, if_pos (by decide), int64_succ_maxInt64]
    rfl
  rw [buffer, if_neg admitted, ended, Reader.readAll]
  simp [largest, maxInt64]

theorem refusal_none_iff : DiskCache.refusal policy r = none ↔ Fits policy r := by
  unfold DiskCache.refusal Fits
  cases r.failure with
  | some err => simp
  | none =>
    simp only [ite_eq_right_iff, reduceCtorEq, imp_false, true_and]
    constructor
    · intro small positive
      exact not_lt.mp fun excess => small ⟨positive, excess⟩
    · rintro fits ⟨positive, excess⟩
      exact not_lt.mpr (fits positive) excess

/-- The body of an entry after a call: that before it, or what a Put kept. -/
theorem call_body (wf : m.WellFormed) (range : IsInt64 m.policy.maxBytes)
    (found : (call m op).entry x = some e) : (∃ old, m.entry x = some old ∧ old.body = e.body) ∨
      ∃ r opts now, op = .put x (some r) opts now ∧ (put m x (some r) opts now).1 = none ∧
        e.body = stored m.policy r := by
  cases op with
  | get b now =>
    left
    by_cases same : x = b
    · subst same
      by_cases empty : x = ""
      · simp only [call, get, if_pos empty] at found
        exact ⟨e, found, rfl⟩
      · cases held : m.entry x with
        | none =>
          simp only [call, (get_missing empty held now).2, held] at found
          contradiction
        | some old =>
          refine ⟨old, rfl, ?_⟩
          cases late : expired old now with
          | true =>
            simp only [call, (get_expired wf empty held late).2, if_true] at found
            contradiction
          | false =>
            simp only [call, (get_present wf empty held late).2, if_true] at found
            cases found
            rfl
    · exact ⟨e, (get_entry_other wf now same).symm.trans found, rfl⟩
  | put b r opts now =>
    by_cases same : x = b
    · subst same
      cases outcome : (put m x r opts now).1 with
      | some err =>
        simp only [call, put_error outcome] at found
        exact .inl ⟨e, found, rfl⟩
      | none =>
        cases r with
        | none =>
          unfold put at outcome
          split at outcome <;> contradiction
        | some r =>
          obtain ⟨data, buffered, entry, _⟩ := put_entry wf outcome
          rw [call, entry] at found
          cases found
          exact .inr ⟨r, opts, now, rfl, outcome, buffer_keeps range buffered⟩
    · rcases put_entry_other wf same r opts now with kept | ⟨gone, _⟩
      · exact .inl ⟨e, kept.symm.trans found, rfl⟩
      · rw [call, gone] at found
        contradiction
  | evict b =>
    simp only [call, evict_entry wf] at found
    split at found
    · contradiction
    · exact .inl ⟨e, found, rfl⟩

/-- Under the largest capacity every body that is kept is empty. -/
def Hollow (m : MemoryCache) : Prop :=
  m.policy.maxBytes = maxInt64 → ∀ x e, m.entry x = some e → e.body = []

theorem Hollow.call (wf : m.WellFormed) (range : IsInt64 m.policy.maxBytes) (hollow : Hollow m)
    (op : CacheCall) : Hollow (call m op) := by
  intro largest x e found
  rw [call_policy wf] at largest
  rcases call_body wf range found with ⟨old, held, same⟩ | ⟨r, _, _, _, _, kept⟩
  · rw [← same]
    exact hollow largest x old held
  · rw [kept, stored, if_pos largest]

theorem bytesUsed_nonneg (wf : m.WellFormed) : 0 ≤ m.bytesUsed := by
  rw [wf.bytes]
  apply List.sum_nonneg
  intro size member
  obtain ⟨el, _, rfl⟩ := List.mem_map.mp member
  exact Int.natCast_nonneg _

theorem Hollow.bytesUsed (wf : m.WellFormed) (hollow : Hollow m)
    (largest : m.policy.maxBytes = maxInt64) : m.bytesUsed = 0 := by
  rw [wf.bytes]
  apply List.sum_eq_zero
  intro size member
  obtain ⟨el, inside, rfl⟩ := List.mem_map.mp member
  have found := (wf.entry_iff _ el.value).mpr ⟨el, inside, rfl, rfl⟩
  show (el.value.body.length : Int) = 0
  rw [hollow largest _ _ found]
  rfl

end Bodies

section Puts

theorem put_buffered (nonempty : b ≠ "") (buffered : buffer m.policy r opts = .ok data) :
    put m b (some r) opts now = (none, (m.makeRoom b (pins m.policy opts) data.length).1.pushFront
      (newEntry m.policy b data opts now)) := by
  simp only [put, if_neg nonempty, buffered]
  rfl

theorem put_unbuffered (nonempty : b ≠ "") (failed : buffer m.policy r opts = .error err) :
    put m b (some r) opts now = (some err, m) := by
  simp only [put, if_neg nonempty, failed]

variable {c : DiskCache}

theorem putOutcome_unfit (valid : validateBlobID b = none) (unfit : ¬ Fits c.policy r) :
    ∃ err, DiskCache.putOutcome c b (some r) opts now = (some err, c) := by
  have refused := mt refusal_none_iff.mp unfit
  obtain ⟨err, refuses⟩ := Option.ne_none_iff_exists'.mp refused
  refine ⟨err, ?_⟩
  simp only [DiskCache.putOutcome, valid, refuses]

theorem putOutcome_dated (valid : validateBlobID b = none) (fits : Fits c.policy r)
    (dates : dated now ∧ dated (deadline c.policy opts now)) :
    DiskCache.putOutcome c b (some r) opts now =
      (none, (c.makeRoom b (pins c.policy opts) r.data.length).1.pushFront
        (DiskCache.newEntry c.policy b r.data.length opts now)) := by
  have marshalled : (DiskCache.metaFile (DiskCache.newEntry c.policy b r.data.length opts
      now)).marshal = .ok _ := if_pos dates
  simp only [DiskCache.putOutcome, valid, refusal_none_iff.mpr fits, marshalled]
  rfl

theorem putOutcome_undated (valid : validateBlobID b = none) (fits : Fits c.policy r)
    (undated : ¬ (dated now ∧ dated (deadline c.policy opts now))) :
    (DiskCache.putOutcome c b (some r) opts now).1.isNone = false := by
  have marshalled : (DiskCache.metaFile (DiskCache.newEntry c.policy b r.data.length opts
      now)).marshal = .error _ := if_neg undated
  simp only [DiskCache.putOutcome, valid, refusal_none_iff.mpr fits, marshalled]
  rfl

theorem nonempty_of_valid (valid : validateBlobID b = none) : b ≠ "" := by
  rintro rfl
  contradiction

/-- A Put both take alike is buffered whole or refused by both. -/
theorem buffer_agrees (range : IsInt64 policy.maxBytes)
    (announced : opts.sizeBytes = 0 ∨ opts.sizeBytes = r.data.length)
    (agrees : policy.maxBytes = maxInt64 → r.data = [] ∧ r.failure = none) :
    (Fits policy r ∧ buffer policy r opts = .ok r.data) ∨
      (¬ Fits policy r ∧ ∃ err, buffer policy r opts = .error err) := by
  by_cases largest : policy.maxBytes = maxInt64
  · obtain ⟨empty, whole⟩ := agrees largest
    have small : opts.sizeBytes ≤ maxInt64 := by
      rw [empty] at announced
      rcases announced with none | none <;> rw [none] <;> decide
    refine .inl ⟨⟨whole, fun _ => ?_⟩, ?_⟩
    · rw [empty, largest]
      decide
    · rw [buffer_largest largest small, empty]
  · have below : opts.sizeBytes ≤ r.data.length := by omega
    have accepts := buffer_ok_iff range largest below
    by_cases fits : Fits policy r
    · exact .inl ⟨fits, (accepts r.data).mpr ⟨fits, rfl⟩⟩
    · refine .inr ⟨fits, ?_⟩
      cases outcome : buffer policy r opts with
      | ok data => exact absurd ((accepts data).mp outcome).1 fits
      | error err => exact ⟨err, rfl⟩

end Puts

section Simulation

/-- The bodies in the files are those in memory. -/
def Held (content : String → Bytes) (m : MemoryCache) : Prop :=
  ∀ x e, m.entry x = some e → content x = e.body

theorem outcome_get (held : Held content m) (valid : validateBlobID b = none) (now : Time) :
    DiskCache.getOutcome content (m.map onDisk) b now =
      ((get m b now).1, (get m b now).2.map onDisk) := by
  simp only [DiskCache.getOutcome, valid, get, if_neg (nonempty_of_valid valid), Regions.map_find]
  cases found : m.find b with
  | none => rfl
  | some el =>
    have body : content b = el.value.body := held b el.value (by simp [Regions.entry, found])
    have late : DiskCache.expired (el.map onDisk).value now = expired el.value now := rfl
    simp only [Option.map_some, late]
    cases expired el.value now with
    | true =>
      simp only [if_true, Regions.map_removeLocked onDisk_corresponds]
      rfl
    | false =>
      simp only [Bool.false_eq_true, if_false]
      have hits : ∀ e, DiskCache.hit now (onDisk e) = onDisk (hit now e) := fun _ => rfl
      rw [Regions.map_touch onDisk_corresponds m el hits, body]
      rfl

theorem outcome_put {r : Option Reader} (range : IsInt64 m.policy.maxBytes)
    (proper : Proper (.put b r opts now))
    (agrees : Agrees m.policy (.put b r opts now)) :
    (DiskCache.putOutcome (m.map onDisk) b r opts now).1.isNone = (put m b r opts now).1.isNone ∧
      (DiskCache.putOutcome (m.map onDisk) b r opts now).2 = (put m b r opts now).2.map onDisk := by
  obtain ⟨valid, sizes⟩ := proper
  have nonempty := nonempty_of_valid valid
  cases r with
  | none =>
    simp [DiskCache.putOutcome, valid, put, if_neg nonempty]
  | some r =>
    obtain ⟨alike, dates⟩ := agrees r rfl
    rcases buffer_agrees range (sizes r rfl).1 alike with ⟨fits, buffered⟩ | ⟨unfit, err, failed⟩
    · rw [putOutcome_dated (c := m.map onDisk) valid fits (dates fits),
        put_buffered nonempty buffered]
      have room := Regions.map_makeRoom onDisk_corresponds m b (pins m.policy opts) r.data.length
      have pushed := Regions.map_pushFront onDisk_corresponds
        (m.makeRoom b (pins m.policy opts) r.data.length).1 (newEntry m.policy b r.data opts now)
      rw [← room] at pushed
      exact ⟨rfl, pushed⟩
    · obtain ⟨err', refused⟩ := putOutcome_unfit (c := m.map onDisk) valid unfit
      rw [refused, put_unbuffered nonempty failed]
      exact ⟨rfl, rfl⟩

theorem outcome_agrees (range : IsInt64 m.policy.maxBytes) (held : Held content m)
    (proper : Proper op) (agrees : Agrees m.policy op) :
    DiskCache.outcome content (m.map onDisk) op = (reply m op, (call m op).map onDisk) := by
  cases op with
  | get b now =>
    simp only [DiskCache.outcome, outcome_get held proper now]
    rfl
  | put b r opts now =>
    obtain ⟨accepts, after⟩ := outcome_put range proper agrees
    simp only [DiskCache.outcome, accepts, after]
    rfl
  | evict b =>
    simp only [DiskCache.outcome, Regions.map_vacated onDisk_corresponds, ← evict_vacated]
    rfl

/-- Next to the indices the bodies stay the same. -/
theorem Held.after (wf : m.WellFormed) (range : IsInt64 m.policy.maxBytes)
    (held : Held content m) (proper : Proper op) (agrees : Agrees m.policy op) :
    Held (DiskCache.contentAfter content (m.map onDisk) op) (call m op) := by
  intro x e found
  cases op with
  | get b now =>
    rcases call_body wf range found with ⟨old, before, same⟩ | ⟨_, _, _, impossible, _⟩
    · rw [← same]
      exact held x old before
    · contradiction
  | evict b =>
    rcases call_body wf range found with ⟨old, before, same⟩ | ⟨_, _, _, impossible, _⟩
    · rw [← same]
      exact held x old before
    · contradiction
  | put b r opts now =>
    have accepts := (outcome_put range proper agrees).1
    simp only [DiskCache.contentAfter, ← Option.isNone_iff_eq_none, accepts]
    cases outcome : (put m b r opts now).1 with
    | some err =>
      rw [call, put_error outcome] at found
      exact held x e found
    | none =>
      cases r with
      | none =>
        unfold put at outcome
        split at outcome <;> contradiction
      | some r =>
        obtain ⟨data, buffered, entry, others⟩ := put_entry wf outcome
        simp only [Option.isNone_none, if_true, Option.map_some, Option.getD_some]
        by_cases same : x = b
        · subst same
          rw [call, entry] at found
          cases found
          rw [Function.update_self]
          have whole := buffer_agrees range (proper.2 r rfl).1 (agrees r rfl).1
          rw [buffered] at whole
          rcases whole with ⟨_, whole⟩ | ⟨_, _, failed⟩
          · exact (Except.ok.inj whole).symm
          · contradiction
        · rw [Function.update_of_ne same]
          rcases others x same with kept | ⟨gone, _⟩
          · exact held x e (kept.symm.trans found)
          · rw [call, gone] at found
            contradiction

/-- Disk counts the whole body. -/
theorem putOutcome_bytesUsed (wf : m.WellFormed) (valid : validateBlobID b = none)
    (fits : Fits m.policy r) (dates : dated now ∧ dated (deadline m.policy opts now)) :
    r.data.length ≤ (DiskCache.putOutcome (m.map onDisk) b (some r) opts now).2.stats.bytesUsed := by
  have room := Regions.map_makeRoom onDisk_corresponds m b (pins m.policy opts) r.data.length
  have least := bytesUsed_nonneg
    (Regions.makeRoom_roomMade wf b (pins m.policy opts) r.data.length).wellFormed
  rw [putOutcome_dated (c := m.map onDisk) valid fits dates]
  have counted : ((m.map onDisk).makeRoom b (pins m.policy opts) r.data.length).1.bytesUsed =
      (m.makeRoom b (pins m.policy opts) r.data.length).1.bytesUsed := by
    rw [room]
    rfl
  show (r.data.length : Int) ≤
    ((m.map onDisk).makeRoom b (pins m.policy opts) r.data.length).1.bytesUsed + r.data.length
  omega

/-- A Put that only one of them takes as it is shows in its reply or in the statistics
behind it. -/
theorem outcome_differs (content : String → Bytes) (wf : m.WellFormed) (hollow : Hollow m)
    (range : IsInt64 m.policy.maxBytes) (proper : Proper op) (differs : ¬ Agrees m.policy op) :
    ((DiskCache.outcome content (m.map onDisk) op).1,
      (DiskCache.outcome content (m.map onDisk) op).2.stats) ≠
        (reply m op, (call m op).stats) := by
  cases op with
  | get b now => exact absurd trivial differs
  | evict b => exact absurd trivial differs
  | put b r opts now =>
    simp only [Agrees, not_forall, Option.mem_def] at differs
    obtain ⟨r, rfl, differs⟩ := differs
    obtain ⟨valid, sizes⟩ := proper
    obtain ⟨announced, small⟩ := sizes r rfl
    have nonempty := nonempty_of_valid valid
    intro same
    obtain ⟨replies, stats⟩ := Prod.mk.inj same
    have accepted : (DiskCache.putOutcome (m.map onDisk) b (some r) opts now).1.isNone =
        (put m b (some r) opts now).1.isNone := CacheReply.stored.inj replies
    by_cases largest : m.policy.maxBytes = maxInt64
    · -- Memory keeps nothing of the body and accepts it.
      have buffered : buffer m.policy r opts = .ok [] := buffer_largest largest (by omega)
      rw [put_buffered nonempty buffered] at accepted
      have fits : Fits m.policy r := by
        by_contra unfit
        obtain ⟨err, refused⟩ : ∃ err, DiskCache.putOutcome (m.map onDisk) b (some r) opts now =
          (some err, m.map onDisk) := putOutcome_unfit valid unfit
        rw [refused] at accepted
        contradiction
      have dates : dated now ∧ dated (deadline m.policy opts now) := by
        by_contra undated
        rw [putOutcome_undated (c := m.map onDisk) valid fits undated] at accepted
        contradiction
      have empty : r.data ≠ [] := fun none => differs ⟨fun _ => ⟨none, fits.1⟩, fun _ => dates⟩
      have kept := (hollow.call wf range (.put b (some r) opts now)).bytesUsed
        (call_wellFormed wf _) (by rw [call_policy wf]; exact largest)
      have used : (r.data.length : Int) ≤ (call m (.put b (some r) opts now)).stats.bytesUsed := by
        rw [← stats]
        exact putOutcome_bytesUsed wf valid fits dates
      have positive := List.length_pos_iff.mpr empty
      rw [(call_wellFormed wf _).reported, kept] at used
      omega
    · have alike : m.policy.maxBytes = maxInt64 → r.data = [] ∧ r.failure = none :=
        fun impossible => absurd impossible largest
      rcases buffer_agrees range announced alike with ⟨fits, buffered⟩ | ⟨unfit, _⟩
      · have undated : ¬ (dated now ∧ dated (deadline m.policy opts now)) :=
          fun dates => differs ⟨alike, fun _ => dates⟩
        rw [put_buffered nonempty buffered,
          putOutcome_undated (c := m.map onDisk) valid fits undated] at accepted
        contradiction
      · exact differs ⟨alike, fun fits => absurd fits unfit⟩

end Simulation

end MemoryCache

section Transcripts
open MemoryCache

/-- The replies of a disk cache if nothing fails. -/
def DiskCache.replies (content : String → Bytes) (c : DiskCache) :
    List CacheCall → List (CacheReply × Stats)
  | [] => []
  | op :: calls =>
    ((outcome content c op).1, (outcome content c op).2.stats) ::
      replies (contentAfter content c op) (outcome content c op).2 calls

theorem DiskCache.transcript_spec {c : DiskCache} {fs : Files} (wf : c.WellFormed)
    (settled : Settled content c fs) (calls : List CacheCall) :
    Throughout calm (fun _ => True) (transcript c calls)
      (fun out _ => out = replies content c calls) fs := by
  induction calls generalizing c content fs with
  | nil => exact throughout_pure trivial rfl
  | cons op calls ih =>
    refine ((answer_spec wf settled op).mono (fun _ _ => trivial) fun _ _ _ post => post).bind ?_
    rintro _ fs' _ ⟨rfl, settled'⟩
    refine (ih (outcome_wellFormed wf content op).1 settled').bind ?_
    rintro _ fs'' _ rfl
    exact throughout_pure trivial rfl

theorem replies_iff {m : MemoryCache} (wf : m.WellFormed) (range : IsInt64 m.policy.maxBytes)
    (hollow : Hollow m) (held : MemoryCache.Held content m)
    (proper : ∀ op ∈ calls, Proper op) :
    DiskCache.replies content (m.map onDisk) calls = MemoryCache.transcript m calls ↔
      ∀ op ∈ calls, Agrees m.policy op := by
  induction calls generalizing m content with
  | nil => exact ⟨fun _ _ member => absurd member List.not_mem_nil, fun _ => rfl⟩
  | cons op calls ih =>
    have own := proper op List.mem_cons_self
    simp only [DiskCache.replies, MemoryCache.transcript, List.cons.injEq, List.forall_mem_cons]
    by_cases agrees : Agrees m.policy op
    · have policy := call_policy wf op
      have rest := ih (call_wellFormed wf op) (policy ▸ range) (hollow.call wf range op)
        (held.after wf range own agrees) fun next member => proper next (List.mem_cons_of_mem _ member)
      rw [policy] at rest
      rw [outcome_agrees range held own agrees, rest]
      exact ⟨fun same => ⟨agrees, same.2⟩, fun all => ⟨rfl, all.2⟩⟩
    · have differs := outcome_differs content wf hollow range own agrees
      exact ⟨fun same => absurd same.1 differs, fun all => absurd all.1 agrees⟩

/-- A cache that is opened on an empty root has nothing in it. -/
theorem newDiskCache_blank {root : String} {policy : EvictionPolicy} (named : root ≠ "")
    (valid : policy.withDefaultKind.validate = none) (scale : Int → ℚ → Int) (start : Time) :
    Throughout calm (fun _ => True) (newDiskCache root scale policy start) (fun reply fs =>
      reply = .ok (DiskCache.empty scale policy.withDefaultKind) ∧ fs = {}) {} := by
  unfold newDiskCache
  rw [if_neg named]
  simp only [valid]
  refine ⟨trivial, ?_⟩
  rintro _ _ ⟨rfl, rfl⟩
  refine ⟨trivial, ?_⟩
  rintro _ _ ⟨rfl, rfl⟩
  refine ⟨trivial, ?_⟩
  rintro sorted _ ⟨⟨perm, _⟩, rfl⟩
  obtain rfl : sorted = [] := List.perm_nil.mp perm
  have fitted : (DiskCache.empty scale policy.withDefaultKind).evictMainLocked 0 =
      (DiskCache.empty scale policy.withDefaultKind, []) := by
    unfold Regions.evictMainLocked
    split <;> rfl
  show Throughout calm _ (do
    DiskCache.removeAll ((DiskCache.empty scale policy.withDefaultKind).evictMainLocked 0).2
    (pure (.ok ((DiskCache.empty scale policy.withDefaultKind).evictMainLocked 0).1) :
      Disk (Except GoError DiskCache))) _ _
  rw [fitted]
  exact DiskCache.throughout_pure trivial ⟨rfl, rfl⟩

theorem newMemoryCache_onDisk {m : MemoryCache} (made : newMemoryCache scale policy = .ok m) :
    policy.withDefaultKind.validate = none ∧
      m.map onDisk = DiskCache.empty scale policy.withDefaultKind := by
  simp only [newMemoryCache] at made
  split at made
  · contradiction
  · rename_i valid
    cases made
    exact ⟨valid, rfl⟩

theorem session_replies {m : MemoryCache} (made : newMemoryCache scale policy = .ok m)
    (named : root ≠ "") (start : Time) (calls : List CacheCall) :
    Throughout calm (fun _ => True) (DiskCache.session root scale policy start calls)
      (fun out _ => out = .ok (m.stats, DiskCache.replies (fun _ => []) (m.map onDisk) calls))
      {} := by
  obtain ⟨valid, same⟩ := newMemoryCache_onDisk made
  refine (newDiskCache_blank named valid scale start).bind ?_
  rintro _ _ _ ⟨rfl, rfl⟩
  have settled : DiskCache.Settled (fun _ => []) (DiskCache.empty scale policy.withDefaultKind) {} :=
    ⟨.empty, fun _ _ => ⟨rfl, rfl⟩, fun _ _ impossible => by contradiction⟩
  have wf : (DiskCache.empty scale policy.withDefaultKind).WellFormed := Regions.empty_wellFormed _ _
  have stats : m.stats = (DiskCache.empty scale policy.withDefaultKind).stats :=
    congrArg Regions.stats same
  refine (DiskCache.transcript_spec wf settled calls).bind ?_
  rintro _ _ _ rfl
  rw [same, stats]
  exact DiskCache.throughout_pure trivial rfl

/-- A memory cache and a disk cache on an empty root give the same replies and statistics
exactly if every call is one that both take alike. -/
theorem caches_agree_iff {m : MemoryCache} (made : newMemoryCache scale policy = .ok m)
    (range : IsInt64 policy.maxBytes) (named : root ≠ "") (start : Time)
    (proper : ∀ op ∈ calls, Proper op) :
    (∀ out fs, Runs calm {} (DiskCache.session root scale policy start calls) out fs →
      out = .ok (m.stats, MemoryCache.transcript m calls)) ↔
        ∀ op ∈ calls, Agrees policy.withDefaultKind op := by
  obtain ⟨wf, filled, empty⟩ := new_wellFormed made
  have nothing : ∀ x e, m.entry x = some e → False := by
    intro x e found
    obtain ⟨el, inside, _⟩ := (wf.entry_iff x e).mp found
    rw [empty] at inside
    contradiction
  have within : IsInt64 m.policy.maxBytes := by
    rw [filled, policy.withDefaultKind_maxBytes]
    exact range
  have hollow : Hollow m := fun _ x e found => (nothing x e found).elim
  have held : MemoryCache.Held (fun _ => []) m := fun x e found => (nothing x e found).elim
  have comparison := replies_iff wf within hollow held proper
  have spec := session_replies made named start calls
  rw [← filled, ← comparison]
  constructor
  · intro all
    obtain ⟨out, fs, run⟩ := exists_runs calm_answers
      (DiskCache.session root scale policy start calls) {}
    have one := (spec.runs run).2
    rw [all out fs run] at one
    simpa using one.symm
  · intro same out fs run
    rw [(spec.runs run).2, same]

/-- A blob is pinned, read, written over, displaced and read again. -/
theorem caches_agree_mixed : ∃ m, newMemoryCache (fun _ _ => 4) (defaultEvictionPolicy 10) = .ok m ∧
    let calls := [.put "aa" (some ⟨[1, 2], none⟩) { pinHot := true, sizeBytes := 2 } 1,
      .get "aa" 2, .put "aa" (some ⟨[3], none⟩) { ttl := 5 } 3,
      .put "bb" (some ⟨[1, 2, 3, 4, 5, 6, 7, 8, 9, 0], none⟩) {} 4, .get "aa" 5,
      .put "cc" (some ⟨[1, 2, 3, 4, 5, 6, 7, 8, 9, 0, 1], none⟩) {} 6, .evict "bb"]
    ∀ out fs, Runs calm {} (DiskCache.session "/cache" (fun _ _ => 4) (defaultEvictionPolicy 10) 0
      calls) out fs → out = .ok (m.stats, MemoryCache.transcript m calls) := by
  have valid := defaultEvictionPolicy_valid (by decide : (0 : Int) ≤ 10)
  have made := new_of_valid (fun _ _ => 4) valid
  refine ⟨_, made, ?_⟩
  exact (caches_agree_iff made (by decide) (by decide) 0 (by decide)).mpr (by decide)

/-- The body a reply gives. -/
def CacheReply.body : CacheReply → Option Bytes
  | .got (.ok (reader, _)) => some reader.data
  | _ => none

/-- With the largest capacity a Get from memory gives an empty body, and one from disk
the body that was put. -/
theorem caches_differ_largest : ∃ m replies fs,
    newMemoryCache (fun _ _ => 4) (defaultEvictionPolicy maxInt64) = .ok m ∧
      let calls := [.put "aa" (some ⟨[1], none⟩) {} 1, .get "aa" 2]
      (∀ op ∈ calls, Proper op) ∧
      Runs calm {} (DiskCache.session "/cache" (fun _ _ => 4) (defaultEvictionPolicy maxInt64) 0
        calls) (.ok replies) fs ∧
      replies.2.map (fun reply => reply.1.body) = [none, some [1]] ∧
      (MemoryCache.transcript m calls).map (fun reply => reply.1.body) = [none, some []] := by
  obtain ⟨replies, fs, run, facts⟩ := Program.returns_runs quiet_calm (by decide +kernel :
    (DiskCache.session "/cache" (fun _ _ => 4) (defaultEvictionPolicy maxInt64) 0
      [.put "aa" (some ⟨[1], none⟩) {} 1, .get "aa" 2]).returns quiet {} (fun replies _ =>
        decide (replies.2.map (fun reply => reply.1.body) = [none, some [1]])) = true)
  have valid := defaultEvictionPolicy_valid (by decide : (0 : Int) ≤ maxInt64)
  refine ⟨_, replies, fs, new_of_valid (fun _ _ => 4) valid, by decide, run,
    of_decide_eq_true facts, ?_⟩
  decide +kernel

end Transcripts

end KDrive.Hotcache
