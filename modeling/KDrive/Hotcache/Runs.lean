import KDrive.Hotcache.MemoryCache

/-! Runs of a memory cache: any sequence of calls on a cache that was just made, with
any readers, options and clock readings. What the calls keep up by hand in index, lists
and counters is right in every state such a run reaches. -/
namespace KDrive.Hotcache
open Go

/-- A call on a cache, with its clock reading. -/
inductive CacheCall where
  | get (b : String) (now : Time)
  | put (b : String) (r : Option Reader) (opts : PutOptions) (now : Time)
  | evict (b : String)
  deriving DecidableEq

/-- What the caller gets from a call; of a Put, whether it was accepted. -/
inductive CacheReply where
  | got (result : Except GoError (Reader × Metadata))
  | stored (accepted : Bool)
  | evicted

namespace MemoryCache

def call (c : MemoryCache) : CacheCall → MemoryCache
  | .get b now => (get c b now).2
  | .put b r opts now => (put c b r opts now).2
  | .evict b => evict c b

/-- The state after a sequence of calls. -/
def run (c : MemoryCache) (calls : List CacheCall) : MemoryCache := calls.foldl call c

@[simp] theorem run_cons (c : MemoryCache) (first : CacheCall) (calls : List CacheCall) :
    run c (first :: calls) = run (call c first) calls := rfl

theorem run_append (c : MemoryCache) (first second : List CacheCall) :
    run c (first ++ second) = run (run c first) second := List.foldl_append

variable {c : MemoryCache} {policy : EvictionPolicy}

theorem call_wellFormed (wf : c.WellFormed) (next : CacheCall) : (call c next).WellFormed := by
  cases next with
  | get b now => exact get_wellFormed wf b now
  | put b r opts now => exact put_wellFormed wf b r opts now
  | evict b => exact evict_wellFormed wf b

theorem run_wellFormed (wf : c.WellFormed) (calls : List CacheCall) :
    (run c calls).WellFormed := by
  induction calls generalizing c with
  | nil => exact wf
  | cons next calls ih => exact ih (call_wellFormed wf next)

theorem call_policy (wf : c.WellFormed) (next : CacheCall) :
    (call c next).policy = c.policy := by
  cases next with
  | get b now => exact get_policy c b now
  | put b r opts now => exact put_policy c wf b r opts now
  | evict b => exact evict_policy c b

theorem run_policy (wf : c.WellFormed) (calls : List CacheCall) :
    (run c calls).policy = c.policy := by
  induction calls generalizing c with
  | nil => rfl
  | cons next calls ih => exact (ih (call_wellFormed wf next)).trans (call_policy wf next)

/-- A cache as `NewMemoryCache` makes it. -/
theorem new_wellFormed (made : newMemoryCache scale policy = .ok c) :
    c.WellFormed ∧ c.policy = policy.withDefaultKind ∧ c.elements = [] := by
  simp only [newMemoryCache] at made
  split at made
  · contradiction
  · cases made
    exact ⟨Regions.empty_wellFormed _ _, rfl, rfl⟩

theorem new_of_valid (scale : Int → ℚ → Int) (valid : policy.validate = none) :
    newMemoryCache scale policy = .ok {
      policy
      stats := { bytesLimit := policy.maxBytes }
      hotLimit :=
        if policy.kind = .lruHotPin ∧ 0 < policy.hotRegionFraction ∧ 0 < policy.maxBytes then
          scale policy.maxBytes policy.hotRegionFraction
        else 0 } := by
  have kind : policy.withDefaultKind = policy := by
    unfold EvictionPolicy.withDefaultKind
    split
    · rename_i unset
      simp [EvictionPolicy.validate, unset] at valid
    · rfl
  simp only [newMemoryCache, kind, valid]

/-- The bytes a Put that succeeds keeps of its reader. -/
def stored (policy : EvictionPolicy) (r : Reader) : Bytes :=
  if policy.maxBytes = maxInt64 then [] else r.data

/-- The region an entry with these options goes to. -/
def pins (policy : EvictionPolicy) (opts : PutOptions) : Bool :=
  opts.pinHot && policy.kind = .lruHotPin

/-- What a Put that succeeds does. -/
theorem put_result (range : IsInt64 c.policy.maxBytes) {r : Reader}
    (ok : (put c b (some r) opts now).1 = none) : (put c b (some r) opts now).2 =
      (c.makeRoom b (pins c.policy opts) (stored c.policy r).length).1.pushFront
        (newEntry c.policy b (stored c.policy r) opts now) := by
  obtain ⟨nonempty, data, buffered⟩ := (put_ok_iff b r).mp ok
  have kept : data = stored c.policy r := buffer_keeps range buffered
  simp only [put, if_neg nonempty, buffered, kept]
  rfl

/-- What index, lists and counters have to say about each other. -/
structure Bookkept (c : MemoryCache) : Prop where
  indexed : ∀ b ref, c.index.lookup b = some ref ↔
    ∃ el ∈ c.hot ++ c.main, el.value.blobID = b ∧ el.ref = ref
  once : ((c.hot ++ c.main).map fun el => el.value.blobID).Nodup
  pinned : ∀ el ∈ c.hot ++ c.main, el ∈ c.hot ↔ el.value.pinned = true
  pinKind : ∀ el ∈ c.hot ++ c.main, el.value.pinned = true → c.policy.kind = .lruHotPin
  bytesUsed : c.bytesUsed = ((c.hot ++ c.main).map fun el => (el.value.body.length : Int)).sum
  hotBytes : c.hotBytes = (c.hot.map fun el => (el.value.body.length : Int)).sum
  entries : c.stats.entries = (c.hot ++ c.main).length
  reported : c.stats.bytesUsed = c.bytesUsed

theorem bookkept (wf : c.WellFormed) : Bookkept c where
  indexed := wf.lookup_iff
  once := wf.ids
  pinned el member := by
    constructor
    · intro hot
      exact (wf.hotPinned el hot).1
    · intro pin
      rcases List.mem_append.mp member with hot | main
      · exact hot
      · have free : el.value.pinned = false := wf.mainUnpinned el main
        rw [free] at pin
        contradiction
  pinKind el member pin := by
    rcases List.mem_append.mp member with hot | main
    · exact (wf.hotPinned el hot).2
    · have free : el.value.pinned = false := wf.mainUnpinned el main
      rw [free] at pin
      contradiction
  bytesUsed := wf.bytes
  hotBytes := wf.hotSum
  entries := by
    have entries := wf.indexed.length_eq
    rw [List.length_map] at entries
    rw [wf.counted, entries]
    rfl
  reported := wf.reported

/-- The bookkeeping is right in every reachable state, and a Put that fails changes
nothing of it. -/
theorem run_bookkept (made : newMemoryCache scale policy = .ok c) (calls : List CacheCall) :
    Bookkept (run c calls) ∧
      ∀ b r opts now err, (put (run c calls) b r opts now).1 = some err →
        (put (run c calls) b r opts now).2 = run c calls := by
  constructor
  · exact bookkept (run_wellFormed (new_wellFormed made).1 calls)
  · intro b r opts now err failed
    exact put_error failed

/-- A replaced pinned entry, an evicted one and an expired one leave one entry of two
bytes, and the next Put is refused. -/
theorem run_bookkept_mixed :
    ∃ c, newMemoryCache (fun _ _ => 4) (defaultEvictionPolicy 10) = .ok c ∧
      let calls := [.put "a" (some ⟨[1, 2], none⟩) { pinHot := true } 1,
        .put "a" (some ⟨[3], none⟩) { pinHot := true, ttl := 1 } 2, .put "b" none {} 2,
        .put "b" (some ⟨[4, 5], none⟩) {} 3, .put "d" (some ⟨[6], none⟩) {} 3, .evict "d",
        .get "a" 4]
      (run c calls).bytesUsed = 2 ∧ (run c calls).stats.entries = 1 ∧ Bookkept (run c calls) ∧
        (put (run c calls) "e" none {} 5).2 = run c calls := by
  have valid := defaultEvictionPolicy_valid (by decide : (0 : Int) ≤ 10)
  have made := new_of_valid (fun _ _ => 4) valid
  have kept := run_bookkept made
  refine ⟨_, made, ?_, ?_, (kept _).1, (kept _).2 "e" none {} 5 _ rfl⟩
  · decide +kernel
  · decide +kernel

end MemoryCache
end KDrive.Hotcache
