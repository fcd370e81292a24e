import KDrive.Hotcache.Runs
import KDrive.Hotcache.RegionEviction

/-! When a Put leaves more in the cache than its capacity although something in it
could still go. The walk over the main list gives up once everything left there is
protected, and then the hot list is not looked at. -/
namespace KDrive.Hotcache
open Go Recency

namespace Regions
variable {E : Type} [Resident E]

/-- The hot elements that are left when `Put` turns to the capacity: with a pinned
entry the oldest evictable ones have gone, as far as the hot limit asks for it. -/
def HotLeft (c : Regions E) (b : String) (pin : Bool) (incoming : Int)
    (left : List (Element E)) : Prop :=
  if pin ∧ 0 < c.hotLimit then
    ∃ gone, Sheds weigh protect (total weigh (others b c.hot) + incoming - c.hotLimit)
      (others b c.hot).reverse gone ∧ left = withoutAll gone (others b c.hot)
  else left = others b c.hot

/-- Behind a protected element of the main list, an evictable hot one stays out of
reach while too much is left. -/
def Strands (c : Regions E) (b : String) (pin : Bool) (incoming : Int) : Prop :=
  ∃ left, HotLeft c b pin incoming left ∧ (∃ el ∈ others b c.main, protect el = true) ∧
    (∃ el ∈ left, protect el = false) ∧
    c.policy.maxBytes <
      total weigh ((others b c.main).filter protect) + total weigh left + incoming

variable {c : Regions E} {el : Element E}

/-- Removing hot elements leaves the main list as it is. -/
theorem WellFormed.main_withoutAll (wf : c.WellFormed) {gone : List (Element E)}
    (hot : ∀ el ∈ gone, el ∈ c.hot) : withoutAll gone c.main = c.main := by
  have nodup := wf.refs
  simp only [elements, List.map_append] at nodup
  have disjoint := (List.nodup_append'.mp nodup).2.2
  apply List.filter_eq_self.mpr
  intro el main
  have apart : el.ref ∉ gone.map Element.ref := by
    intro inside
    obtain ⟨other, member, same⟩ := List.mem_map.mp inside
    exact disjoint (List.mem_map_of_mem (hot other member)) (same ▸ List.mem_map_of_mem main)
  simpa using apart

theorem WellFormed.cooled_main (wf : c.WellFormed) (b : String) (pin : Bool) (incoming : Int) :
    (c.cooled b pin incoming).main = others b c.main := by
  have lists := wf.vacated_lists b
  unfold Regions.cooled
  split
  · have left := (evictHotLocked_sheds (wf.vacated b) incoming).2
    rw [left.main, (wf.vacated b).main_withoutAll, lists.2]
    intro el gone
    unfold hotShed at gone
    split at gone
    · contradiction
    · exact List.mem_reverse.mp ((shed_sheds _ _).subset gone).1
  · exact lists.2

/-- `HotLeft` names one list, the one the code is left with. -/
theorem WellFormed.hotLeft_iff (wf : c.WellFormed) (b : String) (pin : Bool) (incoming : Int)
    (left : List (Element E)) :
    HotLeft c b pin incoming left ↔ left = (c.cooled b pin incoming).hot := by
  have hot := (wf.vacated_lists b).1
  have limit := (vacated_policy c b).2
  have bytes : (c.vacated b).hotBytes = total weigh (others b c.hot) := by
    rw [(wf.vacated b).hotSum, hot]
    rfl
  unfold HotLeft Regions.cooled
  cases pin with
  | false => simp [hot]
  | true =>
    have cooled := (evictHotLocked_sheds (wf.vacated b) incoming).2.hot
    simp only [hotShed, hot, limit, bytes] at cooled
    by_cases limited : 0 < c.hotLimit
    · have positive : ¬ c.hotLimit ≤ 0 := by omega
      rw [if_neg positive] at cooled
      simp only [limited, and_self, if_true]
      rw [cooled]
      constructor
      · rintro ⟨gone, sheds, rfl⟩
        rw [sheds.unique (shed_sheds _ _)]
      · rintro rfl
        exact ⟨_, shed_sheds _ _, rfl⟩
    · have none : c.hotLimit ≤ 0 := by omega
      rw [if_pos none, withoutAll_nil] at cooled
      simp only [limited, and_false, if_false, if_true]
      rw [cooled]

theorem WellFormed.bytes_total (wf : c.WellFormed) :
    c.bytesUsed = total weigh c.hot + total weigh c.main := by
  rw [wf.bytes, ← total_append]
  rfl

section Room
variable (wf : c.WellFormed) (positive : 0 < c.policy.maxBytes) (incoming : Int)
include wf positive

/-- What the walk for the capacity removes, and what it leaves. -/
theorem WellFormed.fitting : ∃ gone,
    Sheds weigh protect (c.bytesUsed + incoming - c.policy.maxBytes) c.evictionOrder gone ∧
      Left gone c (c.evictMainLocked incoming).1 := by
  have limited : ¬ c.policy.maxBytes ≤ 0 := by omega
  obtain ⟨-, left⟩ := evictMainLocked_sheds wf incoming
  simp only [mainShed, if_neg limited] at left
  exact ⟨_, shed_sheds _ _, left⟩

/-- With nothing protected in the main list, the walk reaches everything. -/
theorem WellFormed.fits_of_open (free : ∀ el ∈ c.main, protect el = false) :
    (c.evictMainLocked incoming).1.bytesUsed + incoming ≤ c.policy.maxBytes ∨
      ∀ el ∈ (c.evictMainLocked incoming).1.elements, protect el = true := by
  obtain ⟨gone, sheds, left⟩ := wf.fitting positive incoming
  rcases sheds.enough with freed | all
  · left
    rw [left.bytesUsed]
    omega
  · right
    intro el member
    obtain ⟨held, stays⟩ := left.mem.mp member
    by_contra loose
    apply stays
    rw [all]
    apply List.mem_map_of_mem
    refine mem_removable.mpr ⟨?_, by simpa using loose⟩
    have everything : c.main.all (fun el => !nonEvictable el.value) = true := by
      simpa [protect] using free
    rw [evictionOrder, if_pos everything]
    simpa [elements, or_comm] using held

/-- With something protected there, it reaches the main list only. -/
theorem WellFormed.fits_of_blocked (light : ∀ e : E, 0 ≤ size e)
    (blocked : ∃ el ∈ c.main, protect el = true) :
    ((c.evictMainLocked incoming).1.bytesUsed + incoming ≤ c.policy.maxBytes ∨
      ∀ el ∈ (c.evictMainLocked incoming).1.elements, protect el = true) ↔
    ((∀ el ∈ c.hot, protect el = true) ∨
      total weigh (c.main.filter protect) + total weigh c.hot + incoming ≤ c.policy.maxBytes) := by
  obtain ⟨gone, sheds, left⟩ := wf.fitting positive incoming
  have order : c.evictionOrder = c.main.reverse := by
    obtain ⟨el, member, keep⟩ := blocked
    have some : ¬ c.main.all (fun el => !nonEvictable el.value) = true := by
      intro all
      have free := List.all_eq_true.mp all el member
      simp only [protect] at keep
      simp [keep] at free
    rw [evictionOrder, if_neg some, List.append_nil]
  rw [order] at sheds
  have bytes := wf.bytes_total
  have parts : total weigh c.main = total weigh (c.main.filter protect) +
      total weigh (removable protect c.main) := total_kept_removable c.main
  have reversed : total weigh (removable protect c.main.reverse) =
      total weigh (removable protect c.main) := by
    apply total_perm
    exact (List.reverse_perm c.main).filter _
  rw [left.bytesUsed]
  constructor
  · rintro (fits | all)
    · right
      have bound := sheds.total_le fun el => light el.value
      omega
    · left
      intro el hot
      -- A hot element is not among those that went.
      refine all el (left.mem.mpr ⟨List.mem_append_left _ hot, ?_⟩)
      intro inside
      obtain ⟨other, member, same⟩ := List.mem_map.mp inside
      have main := List.mem_reverse.mp (sheds.subset member).1
      have nodup := wf.refs
      simp only [elements, List.map_append] at nodup
      exact (List.nodup_append'.mp nodup).2.2 (List.mem_map_of_mem hot)
        (same ▸ List.mem_map_of_mem main)
  · intro enough
    rcases sheds.enough with freed | everything
    · left
      omega
    · rcases enough with hot | fits
      · right
        intro el member
        obtain ⟨held, stays⟩ := left.mem.mp member
        rcases List.mem_append.mp held with inHot | inMain
        · exact hot el inHot
        · by_contra loose
          apply stays
          rw [everything]
          apply List.mem_map_of_mem
          exact mem_removable.mpr ⟨List.mem_reverse.mpr inMain, by simpa using loose⟩
      · left
        rw [everything]
        omega

end Room

/-- Room for `incoming` is short although something could go, exactly when an evictable
hot element is stranded. -/
theorem WellFormed.makeRoom_fits_iff (wf : c.WellFormed) (positive : 0 < c.policy.maxBytes)
    (light : ∀ e : E, 0 ≤ size e) (b : String) (pin : Bool) (incoming : Int) :
    ((c.makeRoom b pin incoming).1.bytesUsed + incoming ≤ c.policy.maxBytes ∨
      ∀ el ∈ (c.makeRoom b pin incoming).1.elements, protect el = true) ↔
    ¬ Strands c b pin incoming := by
  have cool := wf.cooled b pin incoming
  have main := wf.cooled_main b pin incoming
  have policy : (c.cooled b pin incoming).policy = c.policy := by
    unfold Regions.cooled
    split
    · exact (evictHotLocked_evicted (wf.vacated b) incoming).policy.trans (vacated_policy c b).1
    · exact (vacated_policy c b).1
  have strands : Strands c b pin incoming ↔
      (∃ el ∈ (c.cooled b pin incoming).main, protect el = true) ∧
        (∃ el ∈ (c.cooled b pin incoming).hot, protect el = false) ∧
        c.policy.maxBytes < total weigh ((c.cooled b pin incoming).main.filter protect) +
          total weigh (c.cooled b pin incoming).hot + incoming := by
    simp only [Strands, wf.hotLeft_iff, exists_eq_left, main]
  rw [makeRoom_cooled, strands]
  by_cases blocked : ∃ el ∈ (c.cooled b pin incoming).main, protect el = true
  · have fits := cool.fits_of_blocked (policy ▸ positive) incoming light blocked
    rw [policy] at fits
    rw [fits]
    simp only [blocked, true_and, not_and, not_lt]
    constructor
    · rintro (all | fits) ⟨el, hot, free⟩
      · rw [all el hot] at free
        contradiction
      · exact fits
    · intro within
      by_cases some : ∃ el ∈ (c.cooled b pin incoming).hot, protect el = false
      · exact .inr (within some)
      · left
        intro el hot
        by_contra loose
        exact some ⟨el, hot, by simpa using loose⟩
  · have free : ∀ el ∈ (c.cooled b pin incoming).main, protect el = false := by
      intro el member
      by_contra loose
      exact blocked ⟨el, member, by simpa using loose⟩
    have fits := cool.fits_of_open (policy ▸ positive) incoming free
    rw [policy] at fits
    simp only [blocked, false_and, not_false_eq_true, iff_true]
    exact fits

theorem mem_pushFront {value : E} : el ∈ (c.pushFront value).elements ↔
    el = ⟨c.nextRef, value⟩ ∨ el ∈ c.elements := by
  by_cases pin : pinned value = true
  · simp [Regions.pushFront, Regions.elements, pin]
  · simp [Regions.pushFront, Regions.elements, pin, or_left_comm]

end Regions

namespace MemoryCache

theorem evict_vacated (c : MemoryCache) (b : String) : evict c b = c.vacated b := by
  unfold evict Regions.vacated
  cases c.find b <;> rfl
variable {c : MemoryCache} {policy : EvictionPolicy}

/-- The cache holds no more than it should, or nothing but `b` could go. -/
def WithinCapacity (c : MemoryCache) (b : String) : Prop :=
  c.bytesUsed ≤ c.policy.maxBytes ∨
    ∀ el ∈ c.elements, el.value.blobID ≠ b → el.value.nonEvictable = true

instance (c : MemoryCache) (b : String) : Decidable (WithinCapacity c b) :=
  inferInstanceAs (Decidable (_ ∨ _))

theorem withinCapacity_iff (wf : c.WellFormed) (range : IsInt64 c.policy.maxBytes)
    (positive : 0 < c.policy.maxBytes) (ok : (put c b (some r) opts now).1 = none) :
    WithinCapacity (put c b (some r) opts now).2 b ↔
      ¬ c.Strands b (pins c.policy opts) (stored c.policy r).length := by
  have light : ∀ e : MemEntry, 0 ≤ size e := fun e => Int.natCast_nonneg e.body.length
  have room := Regions.makeRoom_roomMade wf b (pins c.policy opts) (stored c.policy r).length
  rw [← wf.makeRoom_fits_iff positive light, put_result range ok]
  -- What made room has no entry for `b`, so the exception for `b` is the new entry.
  have vacant : ∀ el ∈ (c.makeRoom b (pins c.policy opts) (stored c.policy r).length).1.elements,
      el.value.blobID ≠ b := by
    intro el member named
    have found := (room.wellFormed.entry_iff b el.value).mpr ⟨el, member, rfl, named⟩
    rw [room.vacant] at found
    contradiction
  unfold WithinCapacity
  apply or_congr
  · show _ ≤ (c.makeRoom b (pins c.policy opts) (stored c.policy r).length).1.policy.maxBytes ↔ _
    rw [room.policy]
    exact Iff.rfl
  · constructor
    · intro all el member
      exact all el (Regions.mem_pushFront.mpr (.inr member)) (vacant el member)
    · intro all el member different
      rcases Regions.mem_pushFront.mp member with rfl | old
      · exact absurd rfl different
      · exact all el old

/-- In every reachable state, a Put that succeeds keeps to the capacity unless it strands
an evictable hot entry. -/
theorem put_withinCapacity_iff (made : newMemoryCache scale policy = .ok c)
    (range : IsInt64 policy.maxBytes) (positive : 0 < policy.maxBytes) (calls : List CacheCall)
    (ok : (put (run c calls) b (some r) opts now).1 = none) :
    WithinCapacity (put (run c calls) b (some r) opts now).2 b ↔
      ¬ (run c calls).Strands b (pins (run c calls).policy opts) (stored policy r).length := by
  obtain ⟨fresh, filled, -⟩ := new_wellFormed made
  have capacity : (run c calls).policy.maxBytes = policy.maxBytes := by
    rw [run_policy fresh, filled, policy.withDefaultKind_maxBytes]
  have same : stored (run c calls).policy r = stored policy r := by
    simp only [stored, capacity]
  rw [← same]
  exact withinCapacity_iff (run_wellFormed fresh calls) (capacity ▸ range) (capacity ▸ positive) ok

def halfHot : EvictionPolicy := { kind := .lruHotPin, maxBytes := 10, hotRegionFraction := 1 / 2 }

theorem halfHot_valid : halfHot.validate = none := by decide +kernel

/-- The pinned `"h"` could go, but the main list holds only what is protected. -/
theorem put_exceeds_capacity :
    ∃ c, newMemoryCache (fun most part => ⌊most * part⌋) halfHot = .ok c ∧
      let before := run c [.put "h" (some ⟨[1, 2, 3, 4, 5], none⟩) { pinHot := true } 1,
        .put "m" (some ⟨[1, 2, 3, 4], none⟩) { nonEvictable := true } 2]
      let after := put before "x" (some ⟨[1, 2, 3], none⟩) {} 3
      after.1 = none ∧ ¬ WithinCapacity after.2 "x" := by
  refine ⟨_, new_of_valid _ halfHot_valid, ?_, ?_⟩
  · decide +kernel
  · decide +kernel

/-- Without a protected entry in the way, the pinned one goes. -/
theorem put_withinCapacity_open :
    ∃ c, newMemoryCache (fun most part => ⌊most * part⌋) halfHot = .ok c ∧
      let before := run c [.put "h" (some ⟨[1, 2, 3, 4, 5], none⟩) { pinHot := true } 1,
        .put "m" (some ⟨[1, 2, 3, 4], none⟩) {} 2]
      (put before "x" (some ⟨[1, 2, 3, 4, 5, 6], none⟩) {} 3).1 = none ∧
        WithinCapacity (put before "x" (some ⟨[1, 2, 3, 4, 5, 6], none⟩) {} 3).2 "x" := by
  have made := new_of_valid (fun most part => ⌊most * part⌋) halfHot_valid
  refine ⟨_, made, by decide +kernel, ?_⟩
  refine (put_withinCapacity_iff made (by decide) (by decide) _ (by decide +kernel)).mpr ?_
  rintro ⟨-, -, blocked, -⟩
  revert blocked
  decide +kernel

end MemoryCache
end KDrive.Hotcache
