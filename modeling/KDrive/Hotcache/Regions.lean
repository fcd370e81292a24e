import KDrive.Hotcache.Policy
import Mathlib.Data.List.AList
import Mathlib.Algebra.BigOperators.Group.List.Basic

/-! The bookkeeping both caches share: a hot and a main recency list of elements,
an index from blob IDs to elements, byte counters, and eviction from the back of a
list. An element has an identity of its own, as a `*list.Element` has, so that the
index and the lists can be told apart. -/
namespace KDrive.Hotcache

class Resident (E : Type) where
  blobID : E → String
  size : E → Int
  pinned : E → Bool
  nonEvictable : E → Bool

export Resident (blobID size pinned nonEvictable)

structure Element (E : Type) where
  ref : Nat
  value : E
  deriving DecidableEq

/-- Lists are kept front first. `nextRef` is the identity of the next element. -/
structure Regions (E : Type) where
  policy : EvictionPolicy
  hot : List (Element E) := []
  main : List (Element E) := []
  index : AList (fun _ : String => Nat) := ∅
  bytesUsed : Int := 0
  hotLimit : Int := 0
  hotBytes : Int := 0
  stats : Stats := {}
  nextRef : Nat := 0

namespace Regions
variable {E : Type} [Resident E]

def elements (c : Regions E) : List (Element E) := c.hot ++ c.main

/-- `c.index[blobID]`, with the element the pointer leads to. -/
def find (c : Regions E) (id : String) : Option (Element E) :=
  match c.index.lookup id with
  | none => none
  | some ref => c.elements.find? (fun el => el.ref = ref)

def entry (c : Regions E) (id : String) : Option E := (c.find id).map Element.value

/-- `list.Remove`, by identity. -/
def without (el : Element E) (list : List (Element E)) : List (Element E) :=
  list.filter (fun other => other.ref ≠ el.ref)

def removeLocked (c : Regions E) (el : Element E) : Regions E :=
  let index := c.index.erase (blobID el.value)
  let bytesUsed := c.bytesUsed - size el.value
  { c with
    hot := if pinned el.value then without el c.hot else c.hot
    main := if pinned el.value then c.main else without el c.main
    hotBytes := if pinned el.value then c.hotBytes - size el.value else c.hotBytes
    index
    bytesUsed
    stats := { c.stats with
      entries := index.entries.length
      bytesUsed
      evictions := c.stats.evictions + 1 } }

/-- The walk from the back over `Prev` to the first element that may go. -/
def victim (list : List (Element E)) : Option (Element E) :=
  list.reverse.find? (fun el => !nonEvictable el.value)

/-- One test and body of the loop in `evictMainLocked`: the main list is walked
unless it is empty, and then the hot list is; `none` leaves the loop. -/
def mainVictim (c : Regions E) (incoming : Int) : Option (Element E) :=
  if c.bytesUsed + incoming > c.policy.maxBytes then
    victim (if c.main.isEmpty then c.hot else c.main)
  else none

def hotVictim (c : Regions E) (incoming : Int) : Option (Element E) :=
  if c.hotBytes + incoming > c.hotLimit then victim c.hot else none

/-- Remove what `next` names until it names nothing. Every round removes an
element, so as many rounds as there are elements are enough. Also gives the
removed elements, in the order they went. -/
def evictLoop (next : Regions E → Option (Element E)) :
    Nat → Regions E → Regions E × List (Element E)
  | 0, c => (c, [])
  | rounds + 1, c =>
    match next c with
    | none => (c, [])
    | some el =>
      let rest := evictLoop next rounds (c.removeLocked el)
      (rest.1, el :: rest.2)

def evictMainLocked (c : Regions E) (incoming : Int) : Regions E × List (Element E) :=
  if c.policy.maxBytes ≤ 0 then (c, [])
  else evictLoop (fun c => mainVictim c incoming) c.elements.length c

def evictHotLocked (c : Regions E) (incoming : Int) : Regions E × List (Element E) :=
  if c.hotLimit ≤ 0 then (c, [])
  else evictLoop (fun c => hotVictim c incoming) c.elements.length c

/-- What `Put` does to make room: drop the entry the blob ID has, then evict from
the hot list for a pinned entry, then from the main list. -/
def makeRoom (c : Regions E) (b : String) (pin : Bool) (incoming : Int) :
    Regions E × List (Element E) :=
  let replaced := match c.find b with
    | some existing => (c.removeLocked existing, [existing])
    | none => (c, [])
  let cooled := if pin then evictHotLocked replaced.1 incoming else (replaced.1, [])
  let fitted := evictMainLocked cooled.1 incoming
  (fitted.1, replaced.2 ++ cooled.2 ++ fitted.2)

/-- `PushFront` on the entry's list, the index update and the byte counters at the
end of `Put`. -/
def pushFront (c : Regions E) (value : E) : Regions E :=
  let el : Element E := ⟨c.nextRef, value⟩
  let index := c.index.insert (blobID value) el.ref
  let bytesUsed := c.bytesUsed + size value
  { c with
    hot := if pinned value then el :: c.hot else c.hot
    main := if pinned value then c.main else el :: c.main
    hotBytes := if pinned value then c.hotBytes + size value else c.hotBytes
    index
    bytesUsed
    stats := { c.stats with entries := index.entries.length, bytesUsed }
    nextRef := c.nextRef + 1 }

/-- The in-place update of an entry and the `MoveToFront` of its element on a hit. -/
def touch (c : Regions E) (el : Element E) (update : E → E) : Regions E :=
  let touched : Element E := ⟨el.ref, update el.value⟩
  { c with
    hot := if pinned el.value then touched :: without el c.hot else c.hot
    main := if pinned el.value then c.main else touched :: without el c.main }

end Regions
end KDrive.Hotcache
