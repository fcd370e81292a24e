import KDrive.Go.Runtime
import Mathlib.Data.Rat.Floor

/-! Eviction policies, the hints a cache writer gets, and the counters a cache
reports. The hot fraction is kept as an exact rational; the float product that
becomes the hot limit is a parameter wherever a cache is constructed. -/
namespace KDrive.Hotcache
open Go

def errCacheMiss : GoError := .new "hotcache: miss"

structure PutOptions where
  sizeBytes : Int := 0
  hash : Bytes := []
  ttl : Duration := 0
  pinHot : Bool := false
  nonEvictable : Bool := false
  deriving DecidableEq

structure Metadata where
  blobID : String := ""
  sizeBytes : Int := 0
  hash : Bytes := []
  storedAt : Time := 0
  lastAccess : Time := 0
  hitCount : Nat := 0
  pinned : Bool := false
  nonEvictable : Bool := false
  deriving DecidableEq

structure Stats where
  entries : Int := 0
  bytesUsed : Int := 0
  bytesLimit : Int := 0
  hits : Nat := 0
  misses : Nat := 0
  evictions : Nat := 0
  deriving DecidableEq

/-- `Cache`, with the clock reading of a call as an argument. -/
class Cache (C : Type) where
  get : C → String → Time → Except GoError (Reader × Metadata) × C
  put : C → String → Reader → PutOptions → Time → Option GoError × C
  evict : C → String → Option GoError × C

/-- `unset` is the empty string. -/
inductive EvictionPolicyKind where
  | unset
  | lru
  | lruHotPin
  | other (name : String)
  deriving DecidableEq

structure EvictionPolicy where
  kind : EvictionPolicyKind := .unset
  maxBytes : Int := 0
  hotRegionFraction : ℚ := 0
  hotDemotionHitCount : Nat := 0
  ttl : Duration := 0
  deriving DecidableEq

def defaultEvictionPolicy (maxBytes : Int) : EvictionPolicy :=
  { kind := .lruHotPin, maxBytes, hotRegionFraction := 1 / 10, hotDemotionHitCount := 1 }

/-- The error that rejects a policy, if one does. -/
def EvictionPolicy.validate (e : EvictionPolicy) : Option GoError :=
  let kindError : Option GoError := match e.kind with
    | .lru | .lruHotPin => none
    | .unset => some (.errorf "hotcache: eviction policy kind is required" [])
    | .other name => some (.errorf "hotcache: unknown eviction kind %q" [.str name])
  match kindError with
  | some err => some err
  | none =>
    if e.maxBytes < 0 then
      some (.errorf "hotcache: eviction max_bytes must be non-negative" [])
    else if e.hotRegionFraction < 0 ∨ 1 ≤ e.hotRegionFraction then
      some (.errorf "hotcache: eviction hot_region_fraction must be in [0, 1)" [])
    else if e.ttl < 0 then
      some (.errorf "hotcache: eviction ttl must be non-negative" [])
    else if e.kind = .lru ∧ (e.hotRegionFraction ≠ 0 ∨ e.hotDemotionHitCount ≠ 0) then
      some (.errorf "hotcache: hot-pin fields only apply to eviction kind %q" [.str "lru_hot_pin"])
    else none

theorem defaultEvictionPolicy_valid (capacity : 0 ≤ maxBytes) :
    (defaultEvictionPolicy maxBytes).validate = none := by
  have least : ¬ maxBytes < 0 := by omega
  simp only [EvictionPolicy.validate, defaultEvictionPolicy]
  norm_num [least]
  intro same
  contradiction

/-- Constructors fill in the default kind before they validate. -/
def EvictionPolicy.withDefaultKind (e : EvictionPolicy) : EvictionPolicy :=
  if e.kind = .unset then { e with kind := .lru } else e

@[simp] theorem EvictionPolicy.withDefaultKind_maxBytes (e : EvictionPolicy) :
    e.withDefaultKind.maxBytes = e.maxBytes := by
  unfold withDefaultKind
  split <;> rfl

@[simp] theorem EvictionPolicy.withDefaultKind_ttl (e : EvictionPolicy) :
    e.withDefaultKind.ttl = e.ttl := by
  unfold withDefaultKind
  split <;> rfl

/-- A policy a constructor accepts; `maxBytes` is an `int64`. -/
structure EvictionPolicy.Accepted (e : EvictionPolicy) : Prop where
  valid : e.validate = none
  range : IsInt64 e.maxBytes

theorem EvictionPolicy.Accepted.maxBytes_nonneg {e : EvictionPolicy} (accepted : e.Accepted) :
    0 ≤ e.maxBytes := by
  have valid := accepted.valid
  unfold validate at valid
  cases kind : e.kind <;> simp only [kind, reduceCtorEq] at valid
  all_goals
    split at valid
    · contradiction
    · omega

end KDrive.Hotcache
