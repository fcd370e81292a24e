import KDrive.Hotcache.Regions

/-! The representation invariant of the shared bookkeeping and what each update
does to the entry a blob ID leads to. Later results speak of `entry` only. -/
namespace KDrive.Hotcache.Regions
variable {E : Type} [Resident E]

/-- Index and lists hold the same elements, an element is in the hot list exactly
when it is pinned, and every counter is the sum it stands for. -/
structure WellFormed (c : Regions E) : Prop where
  refs : (c.elements.map Element.ref).Nodup
  fresh : ∀ el ∈ c.elements, el.ref < c.nextRef
  indexed : c.index.entries.Perm (c.elements.map fun el => ⟨blobID el.value, el.ref⟩)
  hotPinned : ∀ el ∈ c.hot, pinned el.value = true ∧ c.policy.kind = .lruHotPin
  mainUnpinned : ∀ el ∈ c.main, pinned el.value = false
  bytes : c.bytesUsed = (c.elements.map fun el => size el.value).sum
  hotSum : c.hotBytes = (c.hot.map fun el => size el.value).sum
  counted : c.stats.entries = c.index.entries.length
  reported : c.stats.bytesUsed = c.bytesUsed

variable {c : Regions E} {el other : Element E} {b : String}

theorem empty_wellFormed (policy : EvictionPolicy) (hotLimit : Int) :
    WellFormed ({ policy, hotLimit, stats := { bytesLimit := policy.maxBytes } } : Regions E) where
  refs := List.nodup_nil
  fresh := by intro el member; contradiction
  indexed := List.Perm.refl _
  hotPinned := by intro el member; contradiction
  mainUnpinned := by intro el member; contradiction
  bytes := rfl
  hotSum := rfl
  counted := rfl
  reported := rfl

section
variable (wf : c.WellFormed)
include wf

theorem WellFormed.ref_inj (first : el ∈ c.elements)
    (second : other ∈ c.elements) (same : el.ref = other.ref) : el = other :=
  List.inj_on_of_nodup_map wf.refs first second same

theorem WellFormed.ids : (c.elements.map fun el => blobID el.value).Nodup := by
  have keys := (wf.indexed.map Sigma.fst).nodup_iff.mp c.index.nodupKeys
  simpa only [List.map_map, Function.comp_def] using keys

theorem WellFormed.id_inj (first : el ∈ c.elements)
    (second : other ∈ c.elements) (same : blobID el.value = blobID other.value) : el = other :=
  List.inj_on_of_nodup_map wf.ids first second same

theorem WellFormed.lookup_iff (b : String) (ref : Nat) :
    c.index.lookup b = some ref ↔ ∃ el ∈ c.elements, blobID el.value = b ∧ el.ref = ref := by
  rw [← Option.mem_def, AList.mem_lookup_iff, wf.indexed.mem_iff]
  simp [Sigma.ext_iff]

/-- The index leads to the one element that carries the ID. -/
theorem WellFormed.find_iff (b : String) :
    c.find b = some el ↔ el ∈ c.elements ∧ blobID el.value = b := by
  unfold find
  constructor
  · intro found
    split at found
    · contradiction
    · rename_i ref looked
      obtain ⟨holder, member, named, same⟩ := (wf.lookup_iff b ref).mp looked
      have inside := List.mem_of_find?_eq_some found
      have matched : el.ref = ref := by simpa using List.find?_some found
      obtain rfl := wf.ref_inj inside member (matched.trans same.symm)
      exact ⟨inside, named⟩
  · rintro ⟨member, named⟩
    have looked := (wf.lookup_iff b el.ref).mpr ⟨el, member, named, rfl⟩
    simp only [looked]
    obtain ⟨found, hit⟩ : ∃ found, c.elements.find? (fun other => other.ref = el.ref) = some found :=
      Option.isSome_iff_exists.mp (List.find?_isSome.mpr ⟨el, member, by simp⟩)
    have matched : found.ref = el.ref := by simpa using List.find?_some hit
    rw [hit, wf.ref_inj (List.mem_of_find?_eq_some hit) member matched]

theorem WellFormed.entry_iff (b : String) (value : E) :
    c.entry b = some value ↔ ∃ el ∈ c.elements, el.value = value ∧ blobID value = b := by
  simp only [entry, Option.map_eq_some_iff, wf.find_iff]
  constructor
  · rintro ⟨el, ⟨member, named⟩, rfl⟩
    exact ⟨el, member, rfl, named⟩
  · rintro ⟨el, member, rfl, named⟩
    exact ⟨el, ⟨member, named⟩, rfl⟩

/-- Two caches whose elements carry the same values under an ID give the same entry. -/
theorem WellFormed.entry_congr {d : Regions E} (wf' : d.WellFormed)
    (same : ∀ value, (∃ el ∈ c.elements, el.value = value ∧ blobID value = b) ↔
      ∃ el ∈ d.elements, el.value = value ∧ blobID value = b) : c.entry b = d.entry b := by
  ext value
  exact (wf.entry_iff b value).trans ((same value).trans (wf'.entry_iff b value).symm)

theorem WellFormed.entry_none
    (absent : ∀ el ∈ c.elements, blobID el.value ≠ b) : c.entry b = none := by
  cases found : c.entry b with
  | none => rfl
  | some value =>
    obtain ⟨el, member, rfl, named⟩ := (wf.entry_iff b value).mp found
    exact absurd named (absent el member)

omit wf in
omit [Resident E] in
theorem mem_without {list : List (Element E)} :
    other ∈ without el list ↔ other ∈ list ∧ other.ref ≠ el.ref := by
  simp [without]

omit wf in
omit [Resident E] in
theorem without_of_notMem {list : List (Element E)} (absent : ∀ other ∈ list, other.ref ≠ el.ref) :
    without el list = list := by
  apply List.filter_eq_self.mpr
  intro other member
  simpa using absent other member

omit wf in
omit [Resident E] in
/-- Removing one identity from a list that has it once leaves the rest. -/
theorem perm_cons_without {list : List (Element E)} (nodup : (list.map Element.ref).Nodup)
    (member : el ∈ list) : list.Perm (el :: without el list) := by
  obtain ⟨pre, post, rfl⟩ := List.mem_iff_append.mp member
  simp only [List.map_append, List.map_cons] at nodup
  have parts := List.nodup_middle.mp nodup
  have outside : ∀ other ∈ pre ++ post, other.ref ≠ el.ref := by
    intro other inside same
    apply (List.nodup_cons.mp parts).1
    rw [← List.map_append, ← same]
    exact List.mem_map_of_mem inside
  have rest : without el (pre ++ el :: post) = pre ++ post := by
    have kept := without_of_notMem outside
    simp only [without, List.filter_append, List.filter_cons] at kept ⊢
    simpa using kept
  rw [rest]
  exact List.perm_middle

theorem WellFormed.removeLocked_elements (member : el ∈ c.elements) :
    (c.removeLocked el).elements = without el c.elements := by
  have split : without el c.elements = without el c.hot ++ without el c.main := by
    simp only [without, elements, List.filter_append]
  have nodup := wf.refs
  simp only [elements, List.map_append] at nodup
  have disjoint := (List.nodup_append'.mp nodup).2.2
  rw [split]
  rcases List.mem_append.mp member with inHot | inMain
  · have absent : ∀ other ∈ c.main, other.ref ≠ el.ref := by
      intro other inMain same
      exact disjoint (List.mem_map_of_mem inHot) (same ▸ List.mem_map_of_mem inMain)
    simp only [elements, removeLocked, (wf.hotPinned el inHot).1, if_true, without_of_notMem absent]
  · have absent : ∀ other ∈ c.hot, other.ref ≠ el.ref := by
      intro other inHot same
      exact disjoint (List.mem_map_of_mem inHot) (same ▸ List.mem_map_of_mem inMain)
    simp only [elements, removeLocked, wf.mainUnpinned el inMain, without_of_notMem absent]
    simp

theorem WellFormed.removeLocked (member : el ∈ c.elements) : (c.removeLocked el).WellFormed := by
  have elements := wf.removeLocked_elements member
  have perm := perm_cons_without wf.refs member
  constructor
  · rw [elements]
    exact (List.nodup_cons.mp ((perm.map Element.ref).nodup_iff.mp wf.refs)).2
  · intro other inside
    rw [elements] at inside
    exact wf.fresh other (mem_without.mp inside).1
  · rw [elements]
    have entries := (wf.indexed.trans (perm.map _)).kerase c.index.nodupKeys (a := blobID el.value)
    simp only [List.map_cons, List.kerase_cons_eq] at entries
    exact entries
  · intro other inside
    refine wf.hotPinned other ?_
    simp only [Regions.removeLocked] at inside
    split at inside
    · exact (mem_without.mp inside).1
    · exact inside
  · intro other inside
    refine wf.mainUnpinned other ?_
    simp only [Regions.removeLocked] at inside
    split at inside
    · exact inside
    · exact (mem_without.mp inside).1
  · have sum := (perm.map fun el => size el.value).sum_eq
    rw [elements]
    simp only [Regions.removeLocked, wf.bytes, sum, List.map_cons, List.sum_cons]
    omega
  · rcases List.mem_append.mp member with inHot | inMain
    · have nodup := wf.refs
      simp only [Regions.elements, List.map_append] at nodup
      have sum := ((perm_cons_without (List.nodup_append'.mp nodup).1 inHot).map
        fun el => size el.value).sum_eq
      simp only [Regions.removeLocked, (wf.hotPinned el inHot).1, if_true, wf.hotSum, sum,
        List.map_cons, List.sum_cons]
      omega
    · simpa [Regions.removeLocked, wf.mainUnpinned el inMain] using wf.hotSum
  · rfl
  · rfl

/-- Removal frees its own blob ID and no other. -/
theorem WellFormed.removeLocked_entry (member : el ∈ c.elements) (b : String) :
    (c.removeLocked el).entry b = if b = blobID el.value then none else c.entry b := by
  have wf' := wf.removeLocked member
  have elements := wf.removeLocked_elements member
  split
  · rename_i same
    apply wf'.entry_none
    intro other inside named
    rw [elements] at inside
    obtain ⟨inside, different⟩ := mem_without.mp inside
    exact different (congrArg Element.ref (wf.id_inj inside member (named.trans same)))
  · rename_i different
    apply wf'.entry_congr wf
    intro value
    rw [elements]
    constructor
    · rintro ⟨other, inside, rest⟩
      exact ⟨other, (mem_without.mp inside).1, rest⟩
    · rintro ⟨other, inside, rfl, named⟩
      refine ⟨other, mem_without.mpr ⟨inside, ?_⟩, rfl, named⟩
      intro same
      obtain rfl := wf.ref_inj inside member same
      exact different named.symm

theorem WellFormed.pushFront {value : E} (absent : c.entry (blobID value) = none)
    (kind : pinned value = true → c.policy.kind = .lruHotPin) : (c.pushFront value).WellFormed := by
  have perm : (c.pushFront value).elements.Perm (⟨c.nextRef, value⟩ :: c.elements) := by
    by_cases pin : pinned value = true
    · simp [Regions.pushFront, Regions.elements, pin]
    · simp [Regions.pushFront, Regions.elements, pin, List.perm_middle]
  have unindexed : blobID value ∉ c.index := by
    rw [← AList.lookup_eq_none]
    cases looked : c.index.lookup (blobID value) with
    | none => rfl
    | some ref =>
      obtain ⟨el, member, named, _⟩ := (wf.lookup_iff _ ref).mp looked
      have found := (wf.entry_iff (blobID value) el.value).mpr ⟨el, member, rfl, named⟩
      rw [absent] at found
      contradiction
  constructor
  · rw [(perm.map Element.ref).nodup_iff, List.map_cons, List.nodup_cons]
    refine ⟨?_, wf.refs⟩
    intro inside
    obtain ⟨el, member, same⟩ := List.mem_map.mp inside
    have bound := wf.fresh el member
    rw [same] at bound
    exact Nat.lt_irrefl _ bound
  · intro el member
    simp only [Regions.pushFront]
    rcases List.mem_cons.mp (perm.mem_iff.mp member) with rfl | old
    · exact Nat.lt_succ_self _
    · exact Nat.lt_succ_of_lt (wf.fresh el old)
  · refine List.Perm.trans ?_ (perm.map _).symm
    simp only [Regions.pushFront, AList.entries_insert_of_notMem unindexed, List.map_cons]
    exact wf.indexed.cons _
  · intro el member
    simp only [Regions.pushFront] at member
    split at member
    · rename_i pin
      rcases List.mem_cons.mp member with rfl | old
      · exact ⟨pin, kind pin⟩
      · exact wf.hotPinned el old
    · exact wf.hotPinned el member
  · intro el member
    simp only [Regions.pushFront] at member
    split at member
    · exact wf.mainUnpinned el member
    · rename_i pin
      rcases List.mem_cons.mp member with rfl | old
      · simpa using pin
      · exact wf.mainUnpinned el old
  · rw [(perm.map fun el => size el.value).sum_eq]
    simp only [Regions.pushFront, wf.bytes, List.map_cons, List.sum_cons]
    omega
  · simp only [Regions.pushFront]
    split
    · simp only [wf.hotSum, List.map_cons, List.sum_cons]
      omega
    · exact wf.hotSum
  · rfl
  · rfl

theorem WellFormed.pushFront_entry {value : E} (absent : c.entry (blobID value) = none)
    (kind : pinned value = true → c.policy.kind = .lruHotPin) (b : String) :
    (c.pushFront value).entry b = if b = blobID value then some value else c.entry b := by
  have wf' := wf.pushFront absent kind
  have mem : ∀ el, el ∈ (c.pushFront value).elements ↔ el = ⟨c.nextRef, value⟩ ∨ el ∈ c.elements := by
    intro el
    by_cases pin : pinned value = true
    · simp [Regions.pushFront, Regions.elements, pin]
    · simp [Regions.pushFront, Regions.elements, pin, or_left_comm]
  split
  · rename_i same
    exact (wf'.entry_iff b value).mpr ⟨_, (mem _).mpr (.inl rfl), rfl, same.symm⟩
  · rename_i different
    apply wf'.entry_congr wf
    intro other
    constructor
    · rintro ⟨el, member, rfl, named⟩
      rcases (mem el).mp member with rfl | old
      · exact absurd named.symm different
      · exact ⟨el, old, rfl, named⟩
    · rintro ⟨el, member, rest⟩
      exact ⟨el, (mem el).mpr (.inr member), rest⟩

end

section touch
variable (update : E → E) (wf : c.WellFormed) (member : el ∈ c.elements)
  (keepsID : blobID (update el.value) = blobID el.value)
  (keepsSize : size (update el.value) = size el.value)
  (keepsPin : pinned (update el.value) = pinned el.value)
include wf member

theorem WellFormed.touch_perm :
    (c.touch el update).elements.Perm (⟨el.ref, update el.value⟩ :: without el c.elements) := by
  have nodup := wf.refs
  simp only [elements, List.map_append] at nodup
  have disjoint := (List.nodup_append'.mp nodup).2.2
  have split : without el c.elements = without el c.hot ++ without el c.main := by
    simp only [without, elements, List.filter_append]
  rw [split]
  rcases List.mem_append.mp member with inHot | inMain
  · have absent : ∀ other ∈ c.main, other.ref ≠ el.ref := by
      intro other inMain same
      exact disjoint (List.mem_map_of_mem inHot) (same ▸ List.mem_map_of_mem inMain)
    simp [touch, elements, (wf.hotPinned el inHot).1, without_of_notMem absent]
  · have absent : ∀ other ∈ c.hot, other.ref ≠ el.ref := by
      intro other inHot same
      exact disjoint (List.mem_map_of_mem inHot) (same ▸ List.mem_map_of_mem inMain)
    simp [touch, elements, wf.mainUnpinned el inMain, without_of_notMem absent, List.perm_middle]

include keepsID keepsSize keepsPin

theorem WellFormed.touch : (c.touch el update).WellFormed := by
  have perm := wf.touch_perm update member
  have before := perm_cons_without wf.refs member
  constructor
  · rw [(perm.map Element.ref).nodup_iff]
    exact (before.map Element.ref).nodup_iff.mp wf.refs
  · intro other inside
    rcases List.mem_cons.mp (perm.mem_iff.mp inside) with rfl | old
    · exact wf.fresh el member
    · exact wf.fresh other (mem_without.mp old).1
  · refine wf.indexed.trans ((before.map _).trans (List.Perm.trans ?_ (perm.map _).symm))
    simp only [List.map_cons, keepsID]
    exact List.Perm.refl _
  · intro other inside
    simp only [Regions.touch] at inside
    split at inside
    · rcases List.mem_cons.mp inside with rfl | old
      · rename_i pin
        refine ⟨keepsPin.trans pin, ?_⟩
        rcases List.mem_append.mp member with inHot | inMain
        · exact (wf.hotPinned el inHot).2
        · rw [wf.mainUnpinned el inMain] at pin
          contradiction
      · exact wf.hotPinned other (mem_without.mp old).1
    · exact wf.hotPinned other inside
  · intro other inside
    simp only [Regions.touch] at inside
    split at inside
    · exact wf.mainUnpinned other inside
    · rename_i pin
      rcases List.mem_cons.mp inside with rfl | old
      · exact keepsPin.trans (by simpa using pin)
      · exact wf.mainUnpinned other (mem_without.mp old).1
  · rw [(perm.map fun el => size el.value).sum_eq, List.map_cons, keepsSize]
    exact wf.bytes.trans (before.map fun el => size el.value).sum_eq
  · simp only [Regions.touch]
    split
    · rename_i pin
      have inHot : el ∈ c.hot := by
        rcases List.mem_append.mp member with inHot | inMain
        · exact inHot
        · rw [wf.mainUnpinned el inMain] at pin
          contradiction
      have nodup := wf.refs
      simp only [Regions.elements, List.map_append] at nodup
      have sum := ((perm_cons_without (List.nodup_append'.mp nodup).1 inHot).map
        fun el => size el.value).sum_eq
      rw [List.map_cons, keepsSize]
      exact wf.hotSum.trans sum
    · exact wf.hotSum
  · exact wf.counted
  · exact wf.reported

theorem WellFormed.touch_entry (b : String) : (c.touch el update).entry b =
    if b = blobID el.value then some (update el.value) else c.entry b := by
  have wf' := wf.touch update member keepsID keepsSize keepsPin
  have perm := wf.touch_perm update member
  split
  · rename_i same
    exact (wf'.entry_iff b _).mpr
      ⟨_, perm.mem_iff.mpr List.mem_cons_self, rfl, keepsID.trans same.symm⟩
  · rename_i different
    apply wf'.entry_congr wf
    intro value
    constructor
    · rintro ⟨other, inside, rfl, named⟩
      rcases List.mem_cons.mp (perm.mem_iff.mp inside) with rfl | old
      · exact absurd (named.symm.trans keepsID) different
      · exact ⟨other, (mem_without.mp old).1, rfl, named⟩
    · rintro ⟨other, inside, rfl, named⟩
      refine ⟨other, perm.mem_iff.mpr (List.mem_cons_of_mem _ (mem_without.mpr ⟨inside, ?_⟩)), rfl, named⟩
      intro same
      obtain rfl := wf.ref_inj inside member same
      exact different named.symm

end touch

theorem victim_spec {list : List (Element E)} (found : victim list = some el) :
    el ∈ list ∧ nonEvictable el.value = false := by
  have inside := List.mem_of_find?_eq_some found
  have free := List.find?_some found
  exact ⟨List.mem_reverse.mp inside, by simpa using free⟩

theorem mainVictim_spec (found : c.mainVictim incoming = some el) :
    el ∈ c.elements ∧ nonEvictable el.value = false := by
  unfold mainVictim at found
  split at found
  · obtain ⟨inside, free⟩ := victim_spec found
    refine ⟨List.mem_append.mpr ?_, free⟩
    split at inside
    · exact .inl inside
    · exact .inr inside
  · contradiction

theorem hotVictim_spec (found : c.hotVictim incoming = some el) :
    el ∈ c.elements ∧ nonEvictable el.value = false := by
  unfold hotVictim at found
  split at found
  · obtain ⟨inside, free⟩ := victim_spec found
    exact ⟨List.mem_append.mpr (.inl inside), free⟩
  · contradiction

/-- What eviction may have done: nothing changed but entries that were evictable
and are gone. -/
structure Evicted (before after : Regions E) : Prop where
  wellFormed : after.WellFormed
  policy : after.policy = before.policy
  hotLimit : after.hotLimit = before.hotLimit
  entry : ∀ b, after.entry b = before.entry b ∨
    after.entry b = none ∧ ∃ value, before.entry b = some value ∧ nonEvictable value = false

theorem Evicted.refl (wf : c.WellFormed) : Evicted c c := ⟨wf, rfl, rfl, fun _ => .inl rfl⟩

theorem Evicted.trans {d e : Regions E} (first : Evicted c d) (second : Evicted d e) :
    Evicted c e := by
  refine ⟨second.wellFormed, second.policy.trans first.policy,
    second.hotLimit.trans first.hotLimit, fun b => ?_⟩
  rcases second.entry b with same | ⟨gone, value, held, free⟩
  · rw [same]
    exact first.entry b
  · rcases first.entry b with same | ⟨absent, _⟩
    · exact .inr ⟨gone, value, same ▸ held, free⟩
    · rw [absent] at held
      contradiction

theorem Evicted.removeLocked (wf : c.WellFormed) (member : el ∈ c.elements)
    (free : nonEvictable el.value = false) : Evicted c (c.removeLocked el) := by
  refine ⟨wf.removeLocked member, rfl, rfl, fun b => ?_⟩
  rw [wf.removeLocked_entry member b]
  split
  · rename_i same
    exact .inr ⟨rfl, el.value, (wf.entry_iff b el.value).mpr ⟨el, member, rfl, same.symm⟩, free⟩
  · exact .inl rfl

theorem evictLoop_evicted {next : Regions E → Option (Element E)}
    (legal : ∀ c el, next c = some el → el ∈ c.elements ∧ nonEvictable el.value = false)
    (wf : c.WellFormed) (rounds : Nat) : Evicted c (evictLoop next rounds c).1 := by
  induction rounds generalizing c with
  | zero => exact .refl wf
  | succ rounds ih =>
    simp only [evictLoop]
    split
    · exact .refl wf
    · rename_i el chosen
      obtain ⟨member, free⟩ := legal c el chosen
      have removed := Evicted.removeLocked wf member free
      exact removed.trans (ih removed.wellFormed)

theorem evictMainLocked_evicted (wf : c.WellFormed) (incoming : Int) :
    Evicted c (c.evictMainLocked incoming).1 := by
  unfold evictMainLocked
  split
  · exact .refl wf
  · exact evictLoop_evicted (fun _ _ => mainVictim_spec) wf _

theorem evictHotLocked_evicted (wf : c.WellFormed) (incoming : Int) :
    Evicted c (c.evictHotLocked incoming).1 := by
  unfold evictHotLocked
  split
  · exact .refl wf
  · exact evictLoop_evicted (fun _ _ => hotVictim_spec) wf _

/-- Room has been made for `b`: its old entry is gone, and of the others at most
evictable ones. -/
structure RoomMade (before after : Regions E) (b : String) : Prop where
  wellFormed : after.WellFormed
  policy : after.policy = before.policy
  hotLimit : after.hotLimit = before.hotLimit
  vacant : after.entry b = none
  entry : ∀ other, other ≠ b → after.entry other = before.entry other ∨
    after.entry other = none ∧
      ∃ value, before.entry other = some value ∧ nonEvictable value = false

theorem RoomMade.evicted {d e : Regions E} (room : RoomMade c d b) (evicted : Evicted d e) :
    RoomMade c e b := by
  refine ⟨evicted.wellFormed, evicted.policy.trans room.policy,
    evicted.hotLimit.trans room.hotLimit, ?_, fun other different => ?_⟩
  · rcases evicted.entry b with same | ⟨gone, _⟩
    · exact same.trans room.vacant
    · exact gone
  · rcases evicted.entry other with same | ⟨gone, value, held, free⟩
    · rw [same]
      exact room.entry other different
    · rcases room.entry other different with same | ⟨absent, _⟩
      · exact .inr ⟨gone, value, same ▸ held, free⟩
      · rw [absent] at held
        contradiction

theorem makeRoom_roomMade (wf : c.WellFormed) (b : String) (pin : Bool) (incoming : Int) :
    RoomMade c (c.makeRoom b pin incoming).1 b := by
  have fitted : ∀ c₀, RoomMade c c₀ b → RoomMade c (evictMainLocked
      (if pin then evictHotLocked c₀ incoming else (c₀, [])).1 incoming).1 b := by
    intro c₀ replaced
    refine RoomMade.evicted ?_ (evictMainLocked_evicted ?_ incoming)
    all_goals cases pin
    · exact replaced
    · exact replaced.evicted (evictHotLocked_evicted replaced.wellFormed incoming)
    · exact replaced.wellFormed
    · exact (evictHotLocked_evicted replaced.wellFormed incoming).wellFormed
  simp only [makeRoom]
  cases found : c.find b with
  | none => exact fitted c ⟨wf, rfl, rfl, by simp [entry, found], fun _ _ => .inl rfl⟩
  | some existing =>
    obtain ⟨member, named⟩ := (wf.find_iff b).mp found
    refine fitted _ ⟨wf.removeLocked member, rfl, rfl, ?_, fun other different => .inl ?_⟩
    · simp [wf.removeLocked_entry member, named]
    · simp [wf.removeLocked_entry member, named, different]

end KDrive.Hotcache.Regions
