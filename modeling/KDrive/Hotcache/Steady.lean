import KDrive.Hotcache.MemoryCache

/-! A memory cache as its users may think of it: a map from blob IDs to bodies that, without
a TTL, loses entries on its own only when they are evictable and room has to be made. -/
namespace KDrive.Hotcache
open Go

structure Held where
  body : Bytes
  nonEvictable : Bool
  deriving DecidableEq

namespace MemoryCache

def view (c : MemoryCache) (b : String) : Option Held :=
  (c.entry b).map fun e => ⟨e.body, e.nonEvictable⟩

/-- A capacity one more than which is still an `int64` and, if `lasting`, no TTL. -/
structure Steady (lasting : Prop) (c : MemoryCache) : Prop where
  wellFormed : c.WellFormed
  range : IsInt64 c.policy.maxBytes
  below : c.policy.maxBytes ≠ maxInt64
  noTTL : lasting → c.policy.ttl = 0
  lasting : lasting → ∀ b e, c.entry b = some e → e.expiresAt = 0

/-- `after` is `before` but for blob `b`, and for entries that could be evicted. -/
def Elsewhere (b : String) (before after : MemoryCache) : Prop :=
  ∀ other, other ≠ b → view after other = view before other ∨
    view after other = none ∧ ∃ body, view before other = some ⟨body, false⟩

variable {c : MemoryCache} {b : String}

theorem view_eq_none : view c b = none ↔ c.entry b = none := Option.map_eq_none_iff

theorem steady_new {policy : EvictionPolicy} (range : IsInt64 policy.maxBytes)
    (below : policy.maxBytes ≠ maxInt64) (noTTL : lasting → policy.ttl = 0)
    (made : newMemoryCache scale policy = .ok c) : Steady lasting c ∧ ∀ b, view c b = none := by
  simp only [newMemoryCache] at made
  split at made
  · contradiction
  · cases made
    refine ⟨⟨Regions.empty_wellFormed _ _, ?_, ?_, ?_, ?_⟩, fun b => rfl⟩
    · rwa [policy.withDefaultKind_maxBytes]
    · rwa [policy.withDefaultKind_maxBytes]
    · rwa [policy.withDefaultKind_ttl]
    · intro _ b e found
      contradiction

variable {lasting : Prop} (steady : Steady lasting c)
include steady

theorem Steady.of_policy {after : MemoryCache} (wellFormed : after.WellFormed)
    (policy : after.policy = c.policy)
    (entries : lasting → ∀ b e, after.entry b = some e → e.expiresAt = 0) : Steady lasting after :=
  ⟨wellFormed, policy ▸ steady.range, policy ▸ steady.below, policy ▸ steady.noTTL, entries⟩

/-- A Get leaves the view alone but for an entry that has expired. -/
theorem Steady.get_view (b : String) (now : Time) (other : String) :
    view (get c b now).2 other = view c other ∨
      ¬ lasting ∧ view (get c b now).2 other = none := by
  rcases get_entry steady.wellFormed b now other with same | ⟨rfl, e, held, touched | ⟨lapsed, gone⟩⟩
  · exact .inl (by simp only [view, same])
  · exact .inl (by simp [view, touched, held, hit])
  · refine .inr ⟨fun last => ?_, view_eq_none.mpr gone⟩
    simp [expired, steady.lasting last other e held] at lapsed

theorem Steady.get_ok (ok : (get c b now).1 = .ok (r, md)) :
    ∃ held, view c b = some held ∧ r = ⟨held.body, none⟩ := by
  by_cases empty : b = ""
  · simp only [get, if_pos empty] at ok
    contradiction
  · cases found : c.entry b with
    | none => cases (get_missing empty found now).1.symm.trans ok
    | some e =>
      cases lapsed : expired e now with
      | true => cases (get_expired steady.wellFormed empty found lapsed).1.symm.trans ok
      | false =>
        cases (get_present steady.wellFormed empty found lapsed).1.symm.trans ok
        exact ⟨⟨e.body, e.nonEvictable⟩, by simp [view, found], rfl⟩

theorem Steady.get_steady (b : String) (now : Time) : Steady lasting (get c b now).2 := by
  refine steady.of_policy (get_wellFormed steady.wellFormed b now) (get_policy c b now) ?_
  intro last other e found
  rcases get_entry steady.wellFormed b now other with same | ⟨rfl, e', held, touched | ⟨-, gone⟩⟩
  · exact steady.lasting last other e (same.symm.trans found)
  · cases touched.symm.trans found
    exact steady.lasting last other e' held
  · cases gone.symm.trans found

/-- A Put that succeeds holds all of the reader's bytes. -/
theorem Steady.put {r : Reader} (ok : (put c b (some r) opts now).1 = none) :
    view (put c b (some r) opts now).2 b = some ⟨r.data, opts.nonEvictable⟩ ∧
      Elsewhere b c (put c b (some r) opts now).2 := by
  obtain ⟨data, stored, entry, others⟩ := put_entry steady.wellFormed ok
  obtain rfl := (buffer_keeps steady.range stored).trans (if_neg steady.below)
  refine ⟨by simp [view, entry, newEntry], fun other different => ?_⟩
  rcases others other different with same | ⟨gone, e, found, evictable⟩
  · exact .inl (by simp only [view, same])
  · exact .inr ⟨view_eq_none.mpr gone, e.body, by simp [view, found, evictable]⟩

theorem Steady.put_steady (unlimited : opts.ttl = 0) :
    Steady lasting (MemoryCache.put c b (some r) opts now).2 := by
  cases outcome : (MemoryCache.put c b (some r) opts now).1 with
  | some err => rw [put_error outcome]; exact steady
  | none =>
    refine steady.of_policy (put_wellFormed steady.wellFormed b _ opts now)
      (put_policy c steady.wellFormed ..) fun last other e found => ?_
    obtain ⟨data, _, entry, others⟩ := put_entry steady.wellFormed outcome
    by_cases same : other = b
    · subst same
      cases entry.symm.trans found
      simp [newEntry, unlimited, steady.noTTL last]
    · rcases others other same with kept | ⟨gone, _⟩
      · exact steady.lasting last other e (kept.symm.trans found)
      · cases gone.symm.trans found

theorem Steady.evict (b other : String) :
    view (evict c b) other = if other = b then none else view c other := by
  simp only [view, evict_entry steady.wellFormed]
  split <;> rfl

theorem Steady.evict_steady (b : String) : Steady lasting (MemoryCache.evict c b) := by
  refine steady.of_policy (evict_wellFormed steady.wellFormed b) (evict_policy c b) ?_
  intro last other e found
  rw [evict_entry steady.wellFormed] at found
  split at found
  · contradiction
  · exact steady.lasting last other e found

end MemoryCache
end KDrive.Hotcache
