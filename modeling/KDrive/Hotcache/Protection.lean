import KDrive.Hotcache.Runs

/-! How long a protected entry stays. Calls on other blob IDs never remove it, so what
ends it without a Put or an Evict of its own is a Get that finds it expired. -/
namespace KDrive.Hotcache.MemoryCache
open Go

/-- The call neither stores nor evicts `a`. -/
def Spares (a : String) : CacheCall → Prop
  | .get _ _ => True
  | .put b _ _ _ => b ≠ a
  | .evict b => b ≠ a

instance (a : String) : (next : CacheCall) → Decidable (Spares a next)
  | .get _ _ => inferInstanceAs (Decidable True)
  | .put b _ _ _ => inferInstanceAs (Decidable (b ≠ a))
  | .evict b => inferInstanceAs (Decidable (b ≠ a))

/-- The clock readings of the Gets of `a`. -/
def readings (a : String) (calls : List CacheCall) : List Time :=
  calls.filterMap fun
    | .get b now => if b = a then some now else none
    | _ => none

/-- `e` may differ from `origin` in what a hit updates. -/
structure Stems (origin e : MemEntry) : Prop where
  body : e.body = origin.body
  hash : e.hash = origin.hash
  nonEvictable : e.nonEvictable = origin.nonEvictable
  expiresAt : e.expiresAt = origin.expiresAt

variable {c : MemoryCache} {a b : String} {e origin : MemEntry}

theorem Stems.refl (e : MemEntry) : Stems e e := ⟨rfl, rfl, rfl, rfl⟩

theorem Stems.hit (stems : Stems origin e) (now : Time) : Stems origin (hit now e) :=
  ⟨stems.body, stems.hash, stems.nonEvictable, stems.expiresAt⟩

theorem Stems.expired (stems : Stems origin e) (now : Time) :
    expired e now = expired origin now := by
  simp only [MemoryCache.expired, stems.expiresAt]

section
variable (wf : c.WellFormed)
include wf

theorem get_entry_other (now : Time) (different : a ≠ b) : (get c b now).2.entry a = c.entry a :=
  (get_entry wf b now a).resolve_right fun other => different other.1

theorem put_entry_other (different : a ≠ b) (r : Option Reader)
    (opts : PutOptions) (now : Time) : (put c b r opts now).2.entry a = c.entry a ∨
      (put c b r opts now).2.entry a = none ∧
        ∃ e, c.entry a = some e ∧ e.nonEvictable = false := by
  cases outcome : (put c b r opts now).1 with
  | some err => rw [put_error outcome]; exact .inl rfl
  | none =>
    cases r with
    | none =>
      unfold put at outcome
      split at outcome <;> contradiction
    | some r =>
      obtain ⟨_, _, _, others⟩ := put_entry wf outcome
      exact others a different

/-- A call that spares `a` and is no late Get of it keeps a protected entry. -/
theorem call_keeps (nonempty : a ≠ "") (guarded : origin.nonEvictable = true)
    (held : ∃ e, c.entry a = some e ∧ Stems origin e) (spares : Spares a next)
    (alive : ∀ now, next = .get a now → expired origin now = false) :
    ∃ e, (call c next).entry a = some e ∧ Stems origin e := by
  obtain ⟨e, found, stems⟩ := held
  cases next with
  | get b now =>
    by_cases same : a = b
    · subst same
      have still : expired e now = false := (stems.expired now).trans (alive now rfl)
      refine ⟨hit now e, ?_, stems.hit now⟩
      simp only [call, (get_present wf nonempty found still).2, if_true]
    · exact ⟨e, (get_entry_other wf now same).trans found, stems⟩
  | put b r opts now =>
    rcases put_entry_other wf (Ne.symm spares) r opts now with same | ⟨_, e', found', free⟩
    · exact ⟨e, same.trans found, stems⟩
    · cases found.symm.trans found'
      rw [stems.nonEvictable, guarded] at free
      contradiction
  | evict b =>
    refine ⟨e, ?_, stems⟩
    simp only [call, evict_entry wf, if_neg (Ne.symm spares), found]

/-- A call that spares `a` does not bring it back either. -/
theorem call_absent (absent : c.entry a = none) (spares : Spares a next) :
    (call c next).entry a = none := by
  cases next with
  | get b now =>
    by_cases same : a = b
    · subst same
      by_cases empty : a = ""
      · simpa only [call, get, if_pos empty] using absent
      · simp only [call, (get_missing empty absent now).2, absent]
    · exact (get_entry_other wf now same).trans absent
  | put b r opts now =>
    rcases put_entry_other wf (Ne.symm spares) r opts now with same | ⟨gone, _⟩
    · exact same.trans absent
    · exact gone
  | evict b =>
    simp only [call, evict_entry wf, absent, ite_self]

theorem run_keeps (nonempty : a ≠ "") (guarded : origin.nonEvictable = true)
    (held : ∃ e, c.entry a = some e ∧ Stems origin e) (spares : ∀ next ∈ calls, Spares a next)
    (alive : ∀ now ∈ readings a calls, expired origin now = false) :
    ∃ e, (run c calls).entry a = some e ∧ Stems origin e := by
  induction calls generalizing c with
  | nil => exact held
  | cons next calls ih =>
    refine ih (call_wellFormed wf next) ?_ (fun later member => spares later (by simp [member])) ?_
    · refine call_keeps wf nonempty guarded held (spares next (by simp)) ?_
      rintro now rfl
      exact alive now (by simp [readings])
    · intro now member
      apply alive
      simp only [readings, List.filterMap_cons] at member ⊢
      split
      · exact member
      · exact List.mem_cons_of_mem _ member

theorem run_absent (absent : c.entry a = none)
    (spares : ∀ next ∈ calls, Spares a next) : (run c calls).entry a = none := by
  induction calls generalizing c with
  | nil => exact absent
  | cons next calls ih =>
    refine ih (call_wellFormed wf next) ?_ fun later member => spares later (by simp [member])
    exact call_absent wf absent (spares next (by simp))

theorem run_lapses (nonempty : a ≠ "") (guarded : origin.nonEvictable = true)
    (held : ∃ e, c.entry a = some e ∧ Stems origin e) (spares : ∀ next ∈ calls, Spares a next)
    (read : now ∈ readings a calls) (lapsed : expired origin now = true) :
    (run c calls).entry a = none := by
  induction calls generalizing c with
  | nil => contradiction
  | cons next calls ih =>
    have sparesLater : ∀ later ∈ calls, Spares a later := fun later member =>
      spares later (List.mem_cons_of_mem _ member)
    by_cases late : ∃ t, next = .get a t ∧ expired origin t = true
    · obtain ⟨t, rfl, lapsed⟩ := late
      obtain ⟨e, found, stems⟩ := held
      rw [run_cons]
      refine run_absent (call_wellFormed wf _) ?_ sparesLater
      simp only [call, (get_expired wf nonempty found ((stems.expired t).trans lapsed)).2, if_true]
    · have alive : ∀ t, next = .get a t → expired origin t = false := by
        intro t same
        by_contra expired
        exact late ⟨t, same, by simpa using expired⟩
      refine ih (call_wellFormed wf next)
        (call_keeps wf nonempty guarded held (spares next (by simp)) alive) sparesLater ?_
      simp only [readings, List.filterMap_cons] at read ⊢
      split at read
      · exact read
      · rename_i reading here
        rcases List.mem_cons.mp read with rfl | later
        · cases next with
          | get b t =>
            simp only [Option.ite_none_right_eq_some] at here
            obtain ⟨rfl, same⟩ := here
            cases same
            rw [alive now rfl] at lapsed
            contradiction
          | put => contradiction
          | evict => contradiction
        · exact later

/-- When an entry stored now with these options expires; zero is never. -/
def deadline (policy : EvictionPolicy) (opts : PutOptions) (storedAt : Time) : Time :=
  if 0 < opts.ttl then storedAt + opts.ttl
  else if 0 < policy.ttl then storedAt + policy.ttl
  else 0

omit wf in
theorem expired_newEntry (policy : EvictionPolicy) (b : String) (data : Bytes) (opts : PutOptions)
    (storedAt now : Time) : expired (newEntry policy b data opts storedAt) now = false ↔
      deadline policy opts storedAt = 0 ∨ now ≤ deadline policy opts storedAt := by
  have same : (newEntry policy b data opts storedAt).expiresAt = deadline policy opts storedAt := rfl
  simp only [expired, same, ne_eq, decide_eq_false_iff_not, not_and, not_lt]
  exact or_iff_not_imp_left.symm

theorem get_protected (nonempty : a ≠ "") (guarded : origin.nonEvictable = true)
    (held : ∃ e, c.entry a = some e ∧ Stems origin e) (spares : ∀ next ∈ calls, Spares a next)
    (now : Time) (body : Bytes) :
    (∃ md, (get (run c calls) a now).1 = .ok (⟨body, none⟩, md)) ↔
      body = origin.body ∧ ∀ reading ∈ readings a calls ++ [now], expired origin reading = false := by
  have wf' := run_wellFormed wf calls
  by_cases late : ∃ reading ∈ readings a calls, expired origin reading = true
  · -- It went when it was found expired; the last Get misses.
    obtain ⟨reading, member, lapsed⟩ := late
    have absent := run_lapses wf nonempty guarded held spares member lapsed
    rw [(get_missing nonempty absent now).1]
    constructor
    · rintro ⟨_, hit⟩
      contradiction
    · rintro ⟨_, alive⟩
      rw [alive reading (List.mem_append_left _ member)] at lapsed
      contradiction
  · have alive : ∀ reading ∈ readings a calls, expired origin reading = false := by
      intro reading member
      by_contra lapsed
      exact late ⟨reading, member, by simpa using lapsed⟩
    obtain ⟨e, found, stems⟩ := run_keeps wf nonempty guarded held spares alive
    cases last : expired origin now with
    | true =>
      rw [(get_expired wf' nonempty found ((stems.expired now).trans last)).1]
      constructor
      · rintro ⟨_, hit⟩
        contradiction
      · rintro ⟨_, alive⟩
        rw [alive now (by simp)] at last
        contradiction
    | false =>
      rw [(get_present wf' nonempty found ((stems.expired now).trans last)).1, stems.body]
      constructor
      · rintro ⟨md, hit⟩
        cases hit
        refine ⟨rfl, fun reading member => ?_⟩
        rcases List.mem_append.mp member with earlier | same
        · exact alive reading earlier
        · rw [List.mem_singleton.mp same, last]
      · rintro ⟨rfl, _⟩
        exact ⟨_, rfl⟩

end

variable {policy : EvictionPolicy}

/-- A protected entry that is neither replaced nor evicted on request answers with its
bytes exactly as long as no Get comes after its deadline, if the Put kept its bytes. -/
theorem get_protected_iff (made : newMemoryCache scale policy = .ok c)
    (range : IsInt64 policy.maxBytes) (before later : List CacheCall)
    (ok : (put (run c before) a (some r) opts storedAt).1 = none)
    (guarded : opts.nonEvictable = true) (spares : ∀ next ∈ later, Spares a next) (now : Time) :
    (∃ md, (get (run c (before ++ .put a (some r) opts storedAt :: later)) a now).1 =
      .ok (⟨r.data, none⟩, md)) ↔
    (policy.maxBytes = maxInt64 → r.data = []) ∧ (deadline policy opts storedAt = 0 ∨
      ∀ reading ∈ readings a later ++ [now], reading ≤ deadline policy opts storedAt) := by
  obtain ⟨fresh, filled, -⟩ := new_wellFormed made
  have wf := run_wellFormed fresh before
  have same : (run c before).policy = policy.withDefaultKind := (run_policy fresh before).trans filled
  obtain ⟨nonempty, -⟩ := (put_ok_iff a r).mp ok
  obtain ⟨data, buffered, entry, -⟩ := put_entry wf ok
  have kept : data = stored policy r := by
    have keeps := buffer_keeps (by rw [same, policy.withDefaultKind_maxBytes]; exact range) buffered
    rwa [same, policy.withDefaultKind_maxBytes] at keeps
  rw [same, kept] at entry
  rw [run_append, run_cons]
  have held : ∃ e, (call (run c before) (.put a (some r) opts storedAt)).entry a = some e ∧
      Stems (newEntry policy.withDefaultKind a (stored policy r) opts storedAt) e :=
    ⟨_, entry, .refl _⟩
  rw [get_protected (call_wellFormed wf _) nonempty guarded held spares]
  apply and_congr
  · simp only [newEntry, stored]
    split
    · rename_i largest
      simp [largest]
    · rename_i smaller
      simp [smaller]
  · have limit : deadline policy.withDefaultKind opts storedAt = deadline policy opts storedAt := by
      simp only [deadline, policy.withDefaultKind_ttl]
    simp only [expired_newEntry, limit]
    constructor
    · intro alive
      by_cases never : deadline policy opts storedAt = 0
      · exact .inl never
      · exact .inr fun reading member => (alive reading member).resolve_left never
    · rintro (never | alive) reading member
      · exact .inl never
      · exact .inr (alive reading member)

def brief : EvictionPolicy := { kind := .lru, maxBytes := 10, ttl := 5 }

theorem brief_valid : brief.validate = none := by decide +kernel

/-- The time to live of the policy ends a protected entry. -/
theorem protected_expires : ∃ c, newMemoryCache (fun most part => ⌊most * part⌋) brief = .ok c ∧
      let put := put c "a" (some ⟨[1, 2], none⟩) { nonEvictable := true } 1
      put.1 = none ∧ (get put.2 "a" 7).1 = .error errCacheMiss := by
  refine ⟨_, new_of_valid _ brief_valid, ?_, ?_⟩
  · decide +kernel
  · decide +kernel

/-- A Put that fills the cache does not end it before that. -/
theorem get_protected_full : ∃ c, newMemoryCache (fun most part => ⌊most * part⌋) brief = .ok c ∧
      ∃ md, (get (run c ([] ++ .put "a" (some ⟨[1, 2], none⟩) { nonEvictable := true } 1 ::
        [.put "b" (some ⟨[1, 2, 3, 4, 5, 6, 7, 8, 9], none⟩) {} 2, .get "a" 3, .evict "b"])) "a" 6).1 =
          .ok (⟨[1, 2], none⟩, md) := by
  have made := new_of_valid (fun most part => ⌊most * part⌋) brief_valid
  refine ⟨_, made, ?_⟩
  refine (get_protected_iff made (by decide) [] _ (by decide +kernel) rfl (by decide) 6).mpr ⟨?_, ?_⟩
  · intro largest
    exact absurd largest (by decide)
  · right
    decide

end KDrive.Hotcache.MemoryCache
