import KDrive.Hotcache.RegionEviction

/-! Region bookkeeping over entries of two kinds. A translation of the entries that keeps
what the lists go by commutes with every operation, so that two caches whose entries
correspond move in step. -/
namespace KDrive.Hotcache

/-- A translation of entries that keeps what the lists go by. -/
structure Corresponds {E F : Type} [Resident E] [Resident F] (f : E → F) : Prop where
  blobID : ∀ e, blobID (f e) = blobID e
  size : ∀ e, size (f e) = size e
  pinned : ∀ e, pinned (f e) = pinned e
  nonEvictable : ∀ e, nonEvictable (f e) = nonEvictable e

def Element.map {E F : Type} (f : E → F) (el : Element E) : Element F := ⟨el.ref, f el.value⟩

namespace Regions
variable {E F : Type} {f : E → F}

def map (f : E → F) (c : Regions E) : Regions F where
  policy := c.policy
  hot := c.hot.map (Element.map f)
  main := c.main.map (Element.map f)
  index := c.index
  bytesUsed := c.bytesUsed
  hotLimit := c.hotLimit
  hotBytes := c.hotBytes
  stats := c.stats
  nextRef := c.nextRef

theorem map_elements (c : Regions E) : (c.map f).elements = c.elements.map (Element.map f) := by
  simp [elements, map]

theorem map_find (c : Regions E) (b : String) :
    (c.map f).find b = (c.find b).map (Element.map f) := by
  have index : (c.map f).index = c.index := rfl
  simp only [find, map_elements, index]
  cases c.index.lookup b with
  | none => rfl
  | some ref =>
    simp only [List.find?_map]
    rfl

theorem map_without (el : Element E) (list : List (Element E)) :
    without (el.map f) (list.map (Element.map f)) = (without el list).map (Element.map f) := by
  simp only [without, List.filter_map]
  rfl

section Operations
variable [Resident E] [Resident F] (keeps : Corresponds f)
include keeps

theorem map_removeLocked (c : Regions E) (el : Element E) :
    (c.map f).removeLocked (el.map f) = (c.removeLocked el).map f := by
  simp only [removeLocked, map, Element.map, keeps.blobID, keeps.size, keeps.pinned]
  cases pinned el.value with
  | true =>
    simp only [if_true]
    congr 1
    exact map_without el c.hot
  | false =>
    simp only [Bool.false_eq_true, if_false]
    congr 1
    exact map_without el c.main

theorem map_victim (list : List (Element E)) :
    victim (list.map (Element.map f)) = (victim list).map (Element.map f) := by
  simp only [victim, ← List.map_reverse, List.find?_map]
  congr 2
  funext el
  exact congrArg _ (keeps.nonEvictable el.value)

theorem map_mainVictim (c : Regions E) (incoming : Int) :
    (c.map f).mainVictim incoming = (c.mainVictim incoming).map (Element.map f) := by
  have walked : (if (c.map f).main.isEmpty then (c.map f).hot else (c.map f).main) =
      (if c.main.isEmpty then c.hot else c.main).map (Element.map f) := by
    simp only [map, List.isEmpty_map]
    split <;> rfl
  unfold mainVictim
  rw [walked, map_victim keeps]
  show (if c.bytesUsed + incoming > c.policy.maxBytes then _ else none) = _
  split <;> rfl

theorem map_hotVictim (c : Regions E) (incoming : Int) :
    (c.map f).hotVictim incoming = (c.hotVictim incoming).map (Element.map f) := by
  have walked : victim (c.map f).hot = (victim c.hot).map (Element.map f) :=
    map_victim keeps c.hot
  unfold hotVictim
  rw [walked]
  show (if c.hotBytes + incoming > c.hotLimit then _ else none) = _
  split <;> rfl

/-- A step that chooses alike removes alike, round by round. -/
theorem map_evictLoop {next : Regions E → Option (Element E)}
    {next' : Regions F → Option (Element F)}
    (alike : ∀ c, next' (c.map f) = (next c).map (Element.map f)) (rounds : Nat)
    (c : Regions E) : evictLoop next' rounds (c.map f) =
      ((evictLoop next rounds c).1.map f, (evictLoop next rounds c).2.map (Element.map f)) := by
  induction rounds generalizing c with
  | zero => rfl
  | succ rounds ih =>
    simp only [evictLoop, alike]
    cases next c with
    | none => rfl
    | some el =>
      simp only [Option.map_some, map_removeLocked keeps, ih]
      rfl

theorem map_evictMainLocked (c : Regions E) (incoming : Int) :
    (c.map f).evictMainLocked incoming = ((c.evictMainLocked incoming).1.map f,
      (c.evictMainLocked incoming).2.map (Element.map f)) := by
  unfold evictMainLocked
  rw [map_elements, List.length_map,
    map_evictLoop keeps (fun c => map_mainVictim keeps c incoming)]
  show (if c.policy.maxBytes ≤ 0 then _ else _) = _
  split <;> rfl

theorem map_evictHotLocked (c : Regions E) (incoming : Int) :
    (c.map f).evictHotLocked incoming = ((c.evictHotLocked incoming).1.map f,
      (c.evictHotLocked incoming).2.map (Element.map f)) := by
  unfold evictHotLocked
  rw [map_elements, List.length_map,
    map_evictLoop keeps (fun c => map_hotVictim keeps c incoming)]
  show (if c.hotLimit ≤ 0 then _ else _) = _
  split <;> rfl

theorem map_vacated (c : Regions E) (b : String) : (c.map f).vacated b = (c.vacated b).map f := by
  unfold vacated
  rw [map_find]
  cases c.find b with
  | none => rfl
  | some el => exact map_removeLocked keeps c el

theorem map_makeRoom (c : Regions E) (b : String) (pin : Bool) (incoming : Int) :
    ((c.map f).makeRoom b pin incoming).1 = (c.makeRoom b pin incoming).1.map f := by
  have cooled : (c.map f).cooled b pin incoming = (c.cooled b pin incoming).map f := by
    unfold Regions.cooled
    rw [map_vacated keeps]
    split
    · rw [map_evictHotLocked keeps]
    · rfl
  rw [makeRoom_cooled, makeRoom_cooled, cooled, map_evictMainLocked keeps]

theorem map_pushFront (c : Regions E) (value : E) :
    (c.map f).pushFront (f value) = (c.pushFront value).map f := by
  simp only [pushFront, map, keeps.blobID, keeps.size, keeps.pinned]
  cases pinned value <;> rfl

theorem map_touch (c : Regions E) (el : Element E) {update : E → E} {update' : F → F}
    (alike : ∀ e, update' (f e) = f (update e)) :
    (c.map f).touch (el.map f) update' = (c.touch el update).map f := by
  simp only [touch, map, Element.map, keeps.pinned, alike]
  cases pinned el.value with
  | true =>
    simp only [if_true, List.map_cons]
    congr 2
    exact map_without el c.hot
  | false =>
    simp only [Bool.false_eq_true, if_false, List.map_cons]
    congr 2
    exact map_without el c.main

end Operations

end Regions
end KDrive.Hotcache
