import KDrive.Hotcache.RegionInvariant
import KDrive.Recency.Shed

/-! What the eviction loops remove, and in which order: from the back of the hot list,
and from the back of the main list, with the hot list behind it only where nothing in
the main list is protected. Each loop sheds its order until the limit is met. -/
namespace KDrive.Hotcache.Regions
open Recency
variable {E : Type} [Resident E]

/-- The order in which `evictMainLocked` comes upon the elements. The walk ends at a
main list that is not empty, even if everything in it is protected. -/
def evictionOrder (c : Regions E) : List (Element E) :=
  c.main.reverse ++
    if c.main.all (fun el => !nonEvictable el.value) then c.hot.reverse else []

def protect (el : Element E) : Bool := nonEvictable el.value

def weigh (el : Element E) : Int := size el.value

/-- The elements that would go for `incoming` bytes to fit under the capacity. -/
def mainShed (c : Regions E) (incoming : Int) : List (Element E) :=
  if c.policy.maxBytes ≤ 0 then []
  else shed weigh protect (c.bytesUsed + incoming - c.policy.maxBytes) c.evictionOrder

/-- The elements that would go for `incoming` bytes to fit under the hot limit. -/
def hotShed (c : Regions E) (incoming : Int) : List (Element E) :=
  if c.hotLimit ≤ 0 then []
  else shed weigh protect (c.hotBytes + incoming - c.hotLimit) c.hot.reverse

/-- The list without these elements. -/
def withoutAll (gone list : List (Element E)) : List (Element E) :=
  list.filter fun el => el.ref ∉ gone.map Element.ref

section Lists
omit [Resident E]

@[simp] theorem withoutAll_nil (list : List (Element E)) : withoutAll [] list = list := by
  simp [withoutAll]

theorem withoutAll_cons (el : Element E) (gone list : List (Element E)) :
    withoutAll (el :: gone) list = withoutAll gone (without el list) := by
  simp only [withoutAll, without, List.filter_filter, List.map_cons, List.mem_cons, not_or]
  congr 1
  funext other
  simp [Bool.and_comm]

theorem mem_withoutAll {gone list : List (Element E)} {el : Element E} :
    el ∈ withoutAll gone list ↔ el ∈ list ∧ el.ref ∉ gone.map Element.ref := by
  simp [withoutAll]

theorem without_reverse (el : Element E) (list : List (Element E)) :
    without el list.reverse = (without el list).reverse := by
  simp [without, List.filter_reverse]

theorem without_append (el : Element E) (first second : List (Element E)) :
    without el (first ++ second) = without el first ++ without el second := by
  simp [without]

/-- Without an element that it has once, a list is what was before and behind it. -/
theorem without_middle {pre post : List (Element E)} {el : Element E}
    (nodup : ((pre ++ el :: post).map Element.ref).Nodup) :
    without el (pre ++ el :: post) = pre ++ post := by
  simp only [List.map_append, List.map_cons] at nodup
  have apart := (List.nodup_cons.mp (List.nodup_middle.mp nodup)).1
  have outside : ∀ other ∈ pre ++ post, other.ref ≠ el.ref := by
    intro other inside same
    apply apart
    rw [← List.map_append, ← same]
    exact List.mem_map_of_mem inside
  have rest := without_of_notMem outside
  rw [without_append] at rest ⊢
  have drop : without el (el :: post) = without el post := by simp [without]
  rw [drop, rest]

end Lists

variable {c : Regions E} {el : Element E}

theorem WellFormed.removeLocked_lists (wf : c.WellFormed) (member : el ∈ c.elements) :
    (c.removeLocked el).hot = without el c.hot ∧ (c.removeLocked el).main = without el c.main := by
  have nodup := wf.refs
  simp only [elements, List.map_append] at nodup
  have disjoint := (List.nodup_append'.mp nodup).2.2
  rcases List.mem_append.mp member with inHot | inMain
  · have absent : ∀ other ∈ c.main, other.ref ≠ el.ref := by
      intro other inMain same
      exact disjoint (List.mem_map_of_mem inHot) (same ▸ List.mem_map_of_mem inMain)
    simp [Regions.removeLocked, (wf.hotPinned el inHot).1, without_of_notMem absent]
  · have absent : ∀ other ∈ c.hot, other.ref ≠ el.ref := by
      intro other inHot same
      exact disjoint (List.mem_map_of_mem inHot) (same ▸ List.mem_map_of_mem inMain)
    simp [Regions.removeLocked, wf.mainUnpinned el inMain, without_of_notMem absent]

theorem mem_evictionOrder (inside : el ∈ c.evictionOrder) : el ∈ c.elements := by
  rcases List.mem_append.mp inside with main | hot
  · exact List.mem_append_right _ (List.mem_reverse.mp main)
  · split at hot
    · exact List.mem_append_left _ (List.mem_reverse.mp hot)
    · contradiction

theorem WellFormed.order_nodup (wf : c.WellFormed) : (c.evictionOrder.map Element.ref).Nodup := by
  have nodup := wf.refs
  simp only [elements, List.map_append] at nodup
  obtain ⟨hot, main, disjoint⟩ := List.nodup_append'.mp nodup
  unfold evictionOrder
  split
  · simp only [List.map_append, List.map_reverse]
    refine List.nodup_append'.mpr ⟨List.nodup_reverse.mpr main, List.nodup_reverse.mpr hot, ?_⟩
    intro ref inMain inHot
    exact disjoint (List.mem_reverse.mp inHot) (List.mem_reverse.mp inMain)
  · simpa using main

/-- Removing an evictable element takes it out of the order and changes nothing else. -/
theorem WellFormed.order_removeLocked (wf : c.WellFormed) (inside : el ∈ c.evictionOrder)
    (free : nonEvictable el.value = false) :
    (c.removeLocked el).evictionOrder = without el c.evictionOrder := by
  obtain ⟨hot, main⟩ := wf.removeLocked_lists (mem_evictionOrder inside)
  have status : (without el c.main).all (fun el => !nonEvictable el.value) =
      c.main.all (fun el => !nonEvictable el.value) := by
    rw [Bool.eq_iff_iff, List.all_eq_true, List.all_eq_true]
    constructor
    · intro rest other member
      by_cases same : other.ref = el.ref
      · have equal : other = el :=
          wf.ref_inj (List.mem_append_right _ member) (mem_evictionOrder inside) same
        simp [equal, free]
      · exact rest other (mem_without.mpr ⟨member, same⟩)
    · intro all other member
      exact all other (mem_without.mp member).1
  unfold evictionOrder
  rw [hot, main, status, without_append, without_reverse]
  split
  · rw [without_reverse]
  · rfl

theorem mainVictim_order (c : Regions E) (incoming : Int) : c.mainVictim incoming =
    if 0 < c.bytesUsed + incoming - c.policy.maxBytes then
      c.evictionOrder.find? (fun el => !protect el)
    else none := by
  unfold mainVictim
  by_cases full : c.bytesUsed + incoming > c.policy.maxBytes
  · have positive : 0 < c.bytesUsed + incoming - c.policy.maxBytes := by omega
    rw [if_pos full, if_pos positive]
    unfold victim evictionOrder protect
    rw [List.find?_append]
    cases main : c.main with
    | nil => simp
    | cons first rest =>
      simp only [List.isEmpty_cons, Bool.false_eq_true, if_false]
      split
      · rename_i all
        -- Everything in the main list may go, so the walk stops in it.
        have free : (!nonEvictable first.value) = true := by
          simp only [List.all_cons, Bool.and_eq_true] at all
          exact all.1
        have found : ((first :: rest).reverse.find? fun el => !nonEvictable el.value).isSome :=
          List.find?_isSome.mpr ⟨first, by simp, free⟩
        obtain ⟨el, hit⟩ := Option.isSome_iff_exists.mp found
        rw [hit]
        rfl
      · simp
  · have nothing : ¬ 0 < c.bytesUsed + incoming - c.policy.maxBytes := by omega
    rw [if_neg full, if_neg nothing]

theorem hotVictim_order (c : Regions E) (incoming : Int) : c.hotVictim incoming =
    if 0 < c.hotBytes + incoming - c.hotLimit then c.hot.reverse.find? (fun el => !protect el)
    else none := by
  unfold hotVictim
  by_cases full : c.hotBytes + incoming > c.hotLimit
  · have positive : 0 < c.hotBytes + incoming - c.hotLimit := by omega
    rw [if_pos full, if_pos positive]
    rfl
  · have nothing : ¬ 0 < c.hotBytes + incoming - c.hotLimit := by omega
    rw [if_neg full, if_neg nothing]

/-- How an eviction loop picks its victims: the first element of `order` that may go,
as long as `excess` is positive. -/
structure Walk (next : Regions E → Option (Element E)) (order : Regions E → List (Element E))
    (excess : Regions E → Int) : Prop where
  chooses : ∀ c, next c = if 0 < excess c then (order c).find? (fun el => !protect el) else none
  inside : ∀ c el, el ∈ order c → el ∈ c.elements
  once : ∀ c : Regions E, c.WellFormed → ((order c).map Element.ref).Nodup
  removes : ∀ (c : Regions E) el, c.WellFormed → el ∈ order c → nonEvictable el.value = false →
    order (c.removeLocked el) = without el (order c)
  lowers : ∀ (c : Regions E) el, c.WellFormed → el ∈ order c →
    excess (c.removeLocked el) = excess c - weigh el

section Walk
variable {next : Regions E → Option (Element E)} {order : Regions E → List (Element E)}
  {excess : Regions E → Int} (walk : Walk next order excess)
include walk

/-- The victim stands behind protected elements only. -/
theorem Walk.splits (found : next c = some el) : 0 < excess c ∧ nonEvictable el.value = false ∧
    ∃ pre post, order c = pre ++ el :: post ∧ ∀ other ∈ pre, protect other = true := by
  rw [walk.chooses] at found
  split at found
  · rename_i much
    obtain ⟨free, pre, post, split, before⟩ := List.find?_eq_some_iff_append.mp found
    refine ⟨much, by simpa [protect] using free, pre, post, split, ?_⟩
    intro other member
    simpa using before other member
  · contradiction

theorem Walk.legal (c : Regions E) (el : Element E) (found : next c = some el) :
    el ∈ c.elements ∧ nonEvictable el.value = false := by
  obtain ⟨_, free, pre, post, split, _⟩ := walk.splits found
  refine ⟨walk.inside c el ?_, free⟩
  rw [split]
  exact List.mem_append_right _ List.mem_cons_self

theorem Walk.stops (found : next c = none) : shed weigh protect (excess c) (order c) = [] := by
  rw [walk.chooses] at found
  split at found
  · apply shed_none
    intro el member
    simpa using List.find?_eq_none.mp found el member
  · rename_i little
    exact shed_of_nonpos (by omega) _

/-- The loop sheds its order. -/
theorem Walk.sheds (wf : c.WellFormed) (enough : c.elements.length ≤ rounds) :
    (evictLoop next rounds c).2 = shed weigh protect (excess c) (order c) := by
  induction rounds generalizing c with
  | zero =>
    have none : order c = [] := by
      apply List.eq_nil_iff_forall_not_mem.mpr
      intro el member
      have held := walk.inside c el member
      rw [List.length_eq_zero_iff.mp (Nat.le_zero.mp enough)] at held
      contradiction
    rw [none]
    rfl
  | succ rounds ih =>
    simp only [evictLoop]
    cases chosen : next c with
    | none => exact (walk.stops chosen).symm
    | some el =>
      obtain ⟨much, free, pre, post, split, before⟩ := walk.splits chosen
      have inside : el ∈ order c := by
        rw [split]
        exact List.mem_append_right _ List.mem_cons_self
      have member := walk.inside c el inside
      have shorter := (perm_cons_without wf.refs member).length_eq
      have fewer : (c.removeLocked el).elements.length ≤ rounds := by
        rw [wf.removeLocked_elements member]
        simp only [List.length_cons] at shorter
        omega
      have nodup := walk.once c wf
      rw [split] at nodup
      simp only
      rw [ih (wf.removeLocked member) fewer, walk.removes c el wf inside free,
        walk.lowers c el wf inside, split, without_middle nodup]
      exact (shed_first before free much).symm

end Walk

/-- What the loop leaves: both lists without what was shed, in the order they had. -/
theorem evictLoop_leaves {next : Regions E → Option (Element E)}
    (legal : ∀ c el, next c = some el → el ∈ c.elements ∧ nonEvictable el.value = false)
    (wf : c.WellFormed) (rounds : Nat) :
    (evictLoop next rounds c).1.hot = withoutAll (evictLoop next rounds c).2 c.hot ∧
      (evictLoop next rounds c).1.main = withoutAll (evictLoop next rounds c).2 c.main ∧
      (evictLoop next rounds c).1.bytesUsed =
        c.bytesUsed - total weigh (evictLoop next rounds c).2 := by
  induction rounds generalizing c with
  | zero => simp [evictLoop]
  | succ rounds ih =>
    simp only [evictLoop]
    split
    · simp
    · rename_i el chosen
      obtain ⟨member, _⟩ := legal c el chosen
      obtain ⟨hot, main, bytes⟩ := ih (wf.removeLocked member)
      obtain ⟨lessHot, lessMain⟩ := wf.removeLocked_lists member
      refine ⟨?_, ?_, ?_⟩
      · rw [hot, lessHot, withoutAll_cons]
      · rw [main, lessMain, withoutAll_cons]
      · rw [bytes, total_cons]
        simp only [Regions.removeLocked, weigh]
        omega

theorem mainWalk (incoming : Int) : Walk (E := E) (fun c => c.mainVictim incoming) evictionOrder
    (fun c => c.bytesUsed + incoming - c.policy.maxBytes) where
  chooses c := c.mainVictim_order incoming
  inside _ _ := mem_evictionOrder
  once _ wf := wf.order_nodup
  removes _ _ wf inside free := wf.order_removeLocked inside free
  lowers c el _ _ := by
    simp only [Regions.removeLocked, weigh]
    omega

theorem hotWalk (incoming : Int) : Walk (E := E) (fun c => c.hotVictim incoming)
    (fun c => c.hot.reverse) (fun c => c.hotBytes + incoming - c.hotLimit) where
  chooses c := c.hotVictim_order incoming
  inside _ _ member := List.mem_append_left _ (List.mem_reverse.mp member)
  once c wf := by
    have nodup := wf.refs
    simp only [elements, List.map_append] at nodup
    simpa using (List.nodup_append'.mp nodup).1
  removes c el wf inside _ := by
    have member : el ∈ c.elements := List.mem_append_left _ (List.mem_reverse.mp inside)
    rw [(wf.removeLocked_lists member).1, without_reverse]
  lowers c el wf inside := by
    have pin := (wf.hotPinned el (List.mem_reverse.mp inside)).1
    simp only [Regions.removeLocked, weigh, pin, if_true]
    omega

/-- `after` is `before` without `gone`. -/
structure Left (gone : List (Element E)) (before after : Regions E) : Prop where
  hot : after.hot = withoutAll gone before.hot
  main : after.main = withoutAll gone before.main
  bytesUsed : after.bytesUsed = before.bytesUsed - total weigh gone

theorem Left.refl (c : Regions E) : Left [] c c := ⟨by simp, by simp, by simp⟩

theorem Walk.left {order : Regions E → List (Element E)} (walk : Walk next order excess)
    (wf : c.WellFormed) :
    (evictLoop next c.elements.length c).2 = shed weigh protect (excess c) (order c) ∧
      Left (shed weigh protect (excess c) (order c)) c (evictLoop next c.elements.length c).1 := by
  have sheds := walk.sheds wf (Nat.le_refl _)
  obtain ⟨hot, main, bytes⟩ := evictLoop_leaves walk.legal wf c.elements.length
  rw [sheds] at hot main bytes
  exact ⟨sheds, hot, main, bytes⟩

theorem evictMainLocked_sheds (wf : c.WellFormed) (incoming : Int) :
    (c.evictMainLocked incoming).2 = c.mainShed incoming ∧
      Left (c.mainShed incoming) c (c.evictMainLocked incoming).1 := by
  unfold evictMainLocked mainShed
  split
  · exact ⟨rfl, .refl c⟩
  · exact (mainWalk incoming).left wf

theorem evictHotLocked_sheds (wf : c.WellFormed) (incoming : Int) :
    (c.evictHotLocked incoming).2 = c.hotShed incoming ∧
      Left (c.hotShed incoming) c (c.evictHotLocked incoming).1 := by
  unfold evictHotLocked hotShed
  split
  · exact ⟨rfl, .refl c⟩
  · exact (hotWalk incoming).left wf

/-- The regions once the entry of `b` is dropped. -/
def vacated (c : Regions E) (b : String) : Regions E :=
  match c.find b with
  | some existing => c.removeLocked existing
  | none => c

/-- The regions when `Put` turns to the capacity. -/
def cooled (c : Regions E) (b : String) (pin : Bool) (incoming : Int) : Regions E :=
  if pin then ((c.vacated b).evictHotLocked incoming).1 else c.vacated b

theorem makeRoom_cooled (c : Regions E) (b : String) (pin : Bool) (incoming : Int) :
    (c.makeRoom b pin incoming).1 = ((c.cooled b pin incoming).evictMainLocked incoming).1 := by
  unfold makeRoom cooled vacated
  cases c.find b <;> cases pin <;> rfl

/-- The elements that carry another ID, in the order they have. -/
def others (b : String) (list : List (Element E)) : List (Element E) :=
  list.filter fun el => blobID el.value ≠ b

theorem WellFormed.vacated (wf : c.WellFormed) (b : String) : (c.vacated b).WellFormed := by
  unfold Regions.vacated
  split
  · rename_i existing found
    exact wf.removeLocked ((wf.find_iff b).mp found).1
  · exact wf

theorem vacated_policy (c : Regions E) (b : String) :
    (c.vacated b).policy = c.policy ∧ (c.vacated b).hotLimit = c.hotLimit := by
  unfold Regions.vacated
  split <;> exact ⟨rfl, rfl⟩

theorem WellFormed.vacated_lists (wf : c.WellFormed) (b : String) :
    (c.vacated b).hot = others b c.hot ∧ (c.vacated b).main = others b c.main := by
  unfold Regions.vacated
  split
  · rename_i existing found
    obtain ⟨member, named⟩ := (wf.find_iff b).mp found
    -- Among the elements, the identity and the ID single out the same one.
    have same : ∀ el ∈ c.elements, el.ref = existing.ref ↔ blobID el.value = b := by
      intro el inside
      constructor
      · intro refs
        rw [wf.ref_inj inside member refs, named]
      · intro ids
        rw [wf.id_inj inside member (ids.trans named.symm)]
    obtain ⟨hot, main⟩ := wf.removeLocked_lists member
    rw [hot, main]
    constructor
    · apply List.filter_congr
      intro el inside
      simpa using same el (List.mem_append_left _ inside)
    · apply List.filter_congr
      intro el inside
      simpa using same el (List.mem_append_right _ inside)
  · rename_i missing
    have absent : ∀ el ∈ c.elements, blobID el.value ≠ b := by
      intro el inside named
      have found := (wf.find_iff b).mpr ⟨inside, named⟩
      rw [missing] at found
      contradiction
    constructor
    · symm
      apply List.filter_eq_self.mpr
      intro el inside
      simpa using absent el (List.mem_append_left _ inside)
    · symm
      apply List.filter_eq_self.mpr
      intro el inside
      simpa using absent el (List.mem_append_right _ inside)

/-- Removing in two goes. -/
theorem Left.trans {d e : Regions E} {first second : List (Element E)} (one : Left first c d)
    (two : Left second d e) : Left (first ++ second) c e := by
  have twice : ∀ list : List (Element E),
      withoutAll second (withoutAll first list) = withoutAll (first ++ second) list := by
    intro list
    simp only [withoutAll, List.filter_filter, List.map_append, List.mem_append, not_or]
    congr 1
    funext el
    simp [Bool.and_comm]
  refine ⟨?_, ?_, ?_⟩
  · rw [two.hot, one.hot, twice]
  · rw [two.main, one.main, twice]
  · rw [two.bytesUsed, one.bytesUsed, total_append]
    omega

theorem Left.removeLocked (wf : c.WellFormed) (member : el ∈ c.elements) :
    Left [el] c (c.removeLocked el) := by
  obtain ⟨hot, main⟩ := wf.removeLocked_lists member
  refine ⟨?_, ?_, ?_⟩
  · rw [hot, withoutAll_cons, withoutAll_nil]
  · rw [main, withoutAll_cons, withoutAll_nil]
  · simp [Regions.removeLocked, weigh]

theorem Left.mem {gone : List (Element E)} {d : Regions E} (left : Left gone c d) :
    el ∈ d.elements ↔ el ∈ c.elements ∧ el.ref ∉ gone.map Element.ref := by
  simp only [elements, left.hot, left.main, List.mem_append, mem_withoutAll, or_and_right]

/-- What is left has the entries it had, but for those that went. -/
theorem Left.entry {d : Regions E} {gone : List (Element E)} (left : Left gone c d)
    (wf : c.WellFormed) (wf' : d.WellFormed) (held : ∀ el ∈ gone, el ∈ c.elements) (b : String) :
    d.entry b = if b ∈ gone.map fun el => blobID el.value then none else c.entry b := by
  split
  · rename_i named
    obtain ⟨lost, inGone, same⟩ := List.mem_map.mp named
    apply wf'.entry_none
    intro el member id
    obtain ⟨inside, stays⟩ := left.mem.mp member
    rw [wf.id_inj inside (held lost inGone) (id.trans same.symm)] at stays
    exact stays (List.mem_map_of_mem inGone)
  · rename_i other
    apply wf'.entry_congr wf
    intro value
    constructor
    · rintro ⟨el, member, rest⟩
      exact ⟨el, (left.mem.mp member).1, rest⟩
    · rintro ⟨el, member, rfl, id⟩
      refine ⟨el, left.mem.mpr ⟨member, ?_⟩, rfl, id⟩
      intro inGone
      obtain ⟨lost, inside, same⟩ := List.mem_map.mp inGone
      apply other
      rw [← id, ← wf.ref_inj (held lost inside) member same]
      exact List.mem_map_of_mem inside

theorem mainShed_subset (inside : el ∈ c.mainShed incoming) :
    el ∈ c.elements ∧ nonEvictable el.value = false := by
  unfold mainShed at inside
  split at inside
  · contradiction
  · obtain ⟨ordered, free⟩ := (shed_sheds _ _).subset inside
    exact ⟨mem_evictionOrder ordered, free⟩

theorem hotShed_subset (inside : el ∈ c.hotShed incoming) :
    el ∈ c.elements ∧ nonEvictable el.value = false := by
  unfold hotShed at inside
  split at inside
  · contradiction
  · obtain ⟨ordered, free⟩ := (shed_sheds _ _).subset inside
    exact ⟨List.mem_append_left _ (List.mem_reverse.mp ordered), free⟩

theorem WellFormed.cooled (wf : c.WellFormed) (b : String) (pin : Bool) (incoming : Int) :
    (c.cooled b pin incoming).WellFormed := by
  unfold Regions.cooled
  split
  · exact (evictHotLocked_evicted (wf.vacated b) incoming).wellFormed
  · exact wf.vacated b

/-- The elements that go before `Put` turns to the capacity. -/
def cooling (c : Regions E) (b : String) (pin : Bool) (incoming : Int) : List (Element E) :=
  (c.find b).toList ++ if pin then ((c.vacated b).evictHotLocked incoming).2 else []

theorem makeRoom_removed (c : Regions E) (b : String) (pin : Bool) (incoming : Int) :
    (c.makeRoom b pin incoming).2 =
      c.cooling b pin incoming ++ ((c.cooled b pin incoming).evictMainLocked incoming).2 := by
  unfold makeRoom cooling cooled vacated
  cases c.find b <;> cases pin <;> rfl

theorem vacated_left (wf : c.WellFormed) (b : String) : Left (c.find b).toList c (c.vacated b) := by
  unfold Regions.vacated
  cases found : c.find b with
  | none => exact .refl c
  | some existing => exact .removeLocked wf ((wf.find_iff b).mp found).1

theorem cooling_left (wf : c.WellFormed) (b : String) (pin : Bool) (incoming : Int) :
    Left (c.cooling b pin incoming) c (c.cooled b pin incoming) ∧
      ∀ el ∈ c.cooling b pin incoming, el ∈ c.elements ∧
        (blobID el.value = b ∨ nonEvictable el.value = false) := by
  have vacating := vacated_left wf b
  have own : ∀ el ∈ (c.find b).toList, el ∈ c.elements ∧
      (blobID el.value = b ∨ nonEvictable el.value = false) := by
    intro el member
    obtain ⟨inside, named⟩ := (wf.find_iff b).mp (Option.mem_toList.mp member)
    exact ⟨inside, .inl named⟩
  unfold cooling Regions.cooled
  cases pin with
  | false =>
    refine ⟨vacating.trans (.refl _), fun el member => own el ?_⟩
    simpa using member
  | true =>
    obtain ⟨gone, left⟩ := evictHotLocked_sheds (wf.vacated b) incoming
    simp only [if_true, gone]
    refine ⟨vacating.trans left, ?_⟩
    intro el member
    rcases List.mem_append.mp member with first | second
    · exact own el first
    · obtain ⟨inside, free⟩ := hotShed_subset second
      exact ⟨(vacating.mem.mp inside).1, .inr free⟩

/-- The elements `Put` removes, and what it leaves. Besides that of the blob itself only
evictable ones go. -/
theorem makeRoom_left (wf : c.WellFormed) (b : String) (pin : Bool) (incoming : Int) :
    Left (c.makeRoom b pin incoming).2 c (c.makeRoom b pin incoming).1 ∧
      ∀ el ∈ (c.makeRoom b pin incoming).2, el ∈ c.elements ∧
        (blobID el.value = b ∨ nonEvictable el.value = false) := by
  obtain ⟨cool, early⟩ := cooling_left wf b pin incoming
  obtain ⟨gone, fitting⟩ := evictMainLocked_sheds (wf.cooled b pin incoming) incoming
  rw [makeRoom_removed, makeRoom_cooled, gone]
  refine ⟨cool.trans fitting, ?_⟩
  intro el member
  rcases List.mem_append.mp member with first | second
  · exact early el first
  · obtain ⟨inside, free⟩ := mainShed_subset second
    exact ⟨(cool.mem.mp inside).1, .inr free⟩

end KDrive.Hotcache.Regions
