import KDrive.Hotcache.Capacity
import KDrive.Hotcache.Protection
import KDrive.Recency.History

/-! A memory cache of kind `lru` against the history of its calls. The list it keeps is
the residents by their last use, so that what a Put removes from its back is what a map
with that history has to evict. -/
namespace KDrive.Hotcache.MemoryCache
open Go Recency

/-- What a Put stores, and what a Get may return. -/
structure Blob where
  body : Bytes
  hash : Bytes
  nonEvictable : Bool
  expiresAt : Time
  deriving DecidableEq

namespace Blob

def weight (blob : Blob) : Int := blob.body.length

/-- The deadline is set and past. -/
def late (blob : Blob) (now : Time) : Prop := blob.expiresAt ≠ 0 ∧ blob.expiresAt < now

end Blob

def blobOf (e : MemEntry) : Blob := ⟨e.body, e.hash, e.nonEvictable, e.expiresAt⟩

/-- The blob IDs other than `b` that had an entry and lost it. -/
def gone (before after : MemoryCache) (b : String) : List String :=
  (before.elements.reverse.map fun el => el.value.blobID).filter fun x =>
    x ≠ b ∧ (after.entry x).isNone

/-- What a call does to the blobs, seen from outside. -/
def event (c : MemoryCache) : CacheCall → Event String Blob
  | .get b now =>
    match (get c b now).1 with
    | .ok _ => .used b
    | .error _ => if (c.entry b).isSome then .lapsed b else .idle
  | .put b r opts now =>
    match r, put c b r opts now with
    | some r, (none, after) =>
      .stored b ⟨r.data, opts.hash, opts.nonEvictable, deadline c.policy opts now⟩ (gone c after b)
    | _, _ => .idle
  | .evict b => .dropped b

/-- The events of a run, newest first. -/
def historyFrom (c : MemoryCache) (past : List (Event String Blob)) :
    List CacheCall → List (Event String Blob)
  | [] => past
  | next :: calls => historyFrom (call c next) (event c next :: past) calls

def history (c : MemoryCache) (calls : List CacheCall) : List (Event String Blob) :=
  historyFrom c [] calls

/-- The cache holds what its history says, the front of its list being the latest use. -/
structure Mirrors (past : List (Event String Blob)) (c : MemoryCache) : Prop where
  wellFormed : c.WellFormed
  range : IsInt64 c.policy.maxBytes
  below : c.policy.maxBytes ≠ maxInt64
  kind : c.policy.kind = .lru
  named : c.entry "" = none
  held : ∀ x, held past x = (c.entry x).map blobOf
  aged : c.main.Pairwise fun newer older =>
    lastUse past older.value.blobID < lastUse past newer.value.blobID

variable {c : MemoryCache} {past : List (Event String Blob)} {b : String}

theorem Mirrors.cold (mirrors : Mirrors past c) : c.hot = [] := by
  apply List.eq_nil_iff_forall_not_mem.mpr
  intro el hot
  have pinKind := (mirrors.wellFormed.hotPinned el hot).2
  rw [mirrors.kind] at pinKind
  contradiction

theorem Mirrors.elements (mirrors : Mirrors past c) : c.elements = c.main := by
  rw [Regions.elements, mirrors.cold, List.nil_append]

theorem lastUse_cons_of_not_uses {event : Event String Blob} (past : List (Event String Blob))
    {x : String} (other : event.uses x = false) : lastUse (event :: past) x = lastUse past x := by
  simp [lastUse, other]

/-- Fewer elements, none of them used by the event, stay in order. -/
theorem aged_sublist {rest list : List (Element MemEntry)} {event : Event String Blob}
    (aged : list.Pairwise fun newer older =>
      lastUse past older.value.blobID < lastUse past newer.value.blobID)
    (fewer : rest.Sublist list) (others : ∀ el ∈ rest, event.uses el.value.blobID = false) :
    rest.Pairwise fun newer older =>
      lastUse (event :: past) older.value.blobID < lastUse (event :: past) newer.value.blobID := by
  refine (aged.sublist fewer).imp_of_mem ?_
  intro newer older inNewer inOlder earlier
  rwa [lastUse_cons_of_not_uses past (others newer inNewer),
    lastUse_cons_of_not_uses past (others older inOlder)]

/-- The element the event used comes in front. -/
theorem aged_cons {rest list : List (Element MemEntry)} {event : Event String Blob}
    {front : Element MemEntry}
    (aged : list.Pairwise fun newer older =>
      lastUse past older.value.blobID < lastUse past newer.value.blobID)
    (fewer : rest.Sublist list) (others : ∀ el ∈ rest, event.uses el.value.blobID = false)
    (used : event.uses front.value.blobID = true) :
    (front :: rest).Pairwise fun newer older =>
      lastUse (event :: past) older.value.blobID < lastUse (event :: past) newer.value.blobID := by
  refine List.pairwise_cons.mpr ⟨?_, aged_sublist aged fewer others⟩
  intro older member
  rw [lastUse_cons_of_not_uses past (others older member)]
  have bound := lastUse_le past older.value.blobID
  simp only [lastUse, used, if_true]
  omega

theorem others_sublist (b : String) (list : List (Element MemEntry)) :
    (Regions.others b list).Sublist list := List.filter_sublist

section Steps
variable (mirrors : Mirrors past c)
include mirrors

theorem Mirrors.idle {d : MemoryCache} (wf : d.WellFormed) (policy : d.policy = c.policy)
    (main : d.main = c.main) (entry : d.entry = c.entry) : Mirrors (.idle :: past) d where
  wellFormed := wf
  range := policy ▸ mirrors.range
  below := policy ▸ mirrors.below
  kind := policy ▸ mirrors.kind
  named := by rw [entry]; exact mirrors.named
  held x := by rw [entry]; exact mirrors.held x
  aged := by
    rw [main]
    exact aged_sublist mirrors.aged (List.Sublist.refl _) fun _ _ => rfl

/-- The entry of `b` is gone and nothing else is. -/
theorem Mirrors.removed {d : MemoryCache} {event : Event String Blob} (wf : d.WellFormed)
    (policy : d.policy = c.policy) (main : d.main = Regions.others b c.main)
    (entry : ∀ x, d.entry x = if x = b then none else c.entry x)
    (removal : event = .dropped b ∨ event = .lapsed b) : Mirrors (event :: past) d where
  wellFormed := wf
  range := policy ▸ mirrors.range
  below := policy ▸ mirrors.below
  kind := policy ▸ mirrors.kind
  named := by
    rw [entry]
    split
    · rfl
    · exact mirrors.named
  held x := by
    have after : Recency.held (event :: past) x = if x = b then none else Recency.held past x := by
      rcases removal with rfl | rfl <;> rfl
    rw [after, entry, mirrors.held]
    split <;> rfl
  aged := by
    rw [main]
    refine aged_sublist mirrors.aged (others_sublist b _) fun _ _ => ?_
    rcases removal with rfl | rfl <;> rfl

theorem Mirrors.evict (b : String) : Mirrors (.dropped b :: past) (evict c b) := by
  have wf := mirrors.wellFormed
  refine mirrors.removed (evict_wellFormed wf b) (evict_policy c b) ?_ (evict_entry wf b) (.inl rfl)
  rw [evict_vacated]
  exact (wf.vacated_lists b).2

theorem Mirrors.get (b : String) (now : Time) :
    Mirrors (event c (.get b now) :: past) (get c b now).2 := by
  have wf := mirrors.wellFormed
  have wf' := get_wellFormed wf b now
  have policy := get_policy c b now
  by_cases empty : b = ""
  · subst empty
    have quiet : event c (.get "" now) = .idle := by simp [event, MemoryCache.get, mirrors.named]
    rw [quiet]
    exact mirrors.idle wf' policy rfl rfl
  · cases found : c.entry b with
    | none =>
      obtain ⟨answer, same⟩ := get_missing empty found now
      have quiet : event c (.get b now) = .idle := by simp [event, answer, found]
      rw [quiet]
      refine mirrors.idle wf' policy ?_ same
      have absent : c.find b = none := by simpa [Regions.entry] using found
      simp only [MemoryCache.get, if_neg empty, absent]
    | some e =>
      obtain ⟨el, held, rfl⟩ := Option.map_eq_some_iff.mp found
      obtain ⟨member, named⟩ := (wf.find_iff b).mp held
      cases lapsed : expired el.value now with
      | true =>
        obtain ⟨answer, entries⟩ := get_expired wf empty found lapsed
        have ended : event c (.get b now) = .lapsed b := by simp [event, answer, found]
        rw [ended]
        refine mirrors.removed wf' policy ?_ entries (.inr rfl)
        have vacated : c.vacated b = c.removeLocked el := by simp only [Regions.vacated, held]
        have main := (wf.vacated_lists b).2
        rw [vacated] at main
        simpa only [MemoryCache.get, if_neg empty, held, lapsed, if_true] using main
      | false =>
        obtain ⟨answer, entries⟩ := get_present wf empty found lapsed
        have used : event c (.get b now) = .used b := by simp [event, answer]
        rw [used]
        have inMain : el ∈ c.main := mirrors.elements ▸ member
        have free : el.value.pinned = false := wf.mainUnpinned el inMain
        have main : (MemoryCache.get c b now).2.main =
            ⟨el.ref, hit now el.value⟩ :: Regions.without el c.main := by
          simp [MemoryCache.get, empty, held, lapsed, Regions.touch, Resident.pinned, free]
        constructor
        · exact wf'
        · exact policy ▸ mirrors.range
        · exact policy ▸ mirrors.below
        · exact policy ▸ mirrors.kind
        · rw [entries, if_neg (Ne.symm empty)]
          exact mirrors.named
        · intro x
          show Recency.held past x = _
          rw [entries, mirrors.held]
          split
          · rename_i same
            rw [same, found]
            rfl
          · rfl
        · rw [main]
          refine aged_cons mirrors.aged List.filter_sublist ?_ ?_
          · intro other inside
            obtain ⟨inside, different⟩ := Regions.mem_without.mp inside
            have apart : other.value.blobID ≠ b := by
              intro same
              have inElements : other ∈ c.elements := mirrors.elements ▸ inside
              exact different (congrArg Element.ref
                (wf.id_inj inElements member (same.trans named.symm)))
            simpa [Event.uses] using apart
          · have same : el.value.blobID = b := named
            simp [Event.uses, hit, same]

/-- What a Put that succeeds makes of the main list. -/
theorem Mirrors.put_main {r : Reader} (ok : (put c b (some r) opts now).1 = none) :
    ∃ front : Element MemEntry, front.value.blobID = b ∧
      (put c b (some r) opts now).2.main =
        front :: Regions.withoutAll ((c.vacated b).mainShed r.data.length)
          (Regions.others b c.main) := by
  have wf := mirrors.wellFormed
  have unpinned : pins c.policy opts = false := by simp [pins, mirrors.kind]
  have whole : stored c.policy r = r.data := if_neg mirrors.below
  have left := (Regions.evictMainLocked_sheds (wf.vacated b) r.data.length).2
  have room : (c.makeRoom b false r.data.length).1 =
      ((c.vacated b).evictMainLocked r.data.length).1 := by
    rw [Regions.makeRoom_cooled]
    rfl
  rw [put_result mirrors.range ok, unpinned, whole, room]
  refine ⟨⟨((c.vacated b).evictMainLocked r.data.length).1.nextRef,
    newEntry c.policy b r.data opts now⟩, rfl, ?_⟩
  have main := left.main
  rw [(wf.vacated_lists b).2] at main
  have free : pinned (newEntry c.policy b r.data opts now) = false := unpinned
  simp only [Regions.pushFront, free, Bool.false_eq_true, if_false, main]

theorem Mirrors.put {r : Reader} (ok : (MemoryCache.put c b (some r) opts now).1 = none) :
    Mirrors (event c (.put b (some r) opts now) :: past)
      (MemoryCache.put c b (some r) opts now).2 := by
  have wf := mirrors.wellFormed
  have policy := put_policy c wf b (some r) opts now
  obtain ⟨nonempty, -⟩ := (put_ok_iff b r).mp ok
  obtain ⟨data, buffered, entry, others⟩ := put_entry wf ok
  obtain rfl := (buffer_keeps mirrors.range buffered).trans (if_neg mirrors.below)
  have stored : event c (.put b (some r) opts now) =
      .stored b ⟨r.data, opts.hash, opts.nonEvictable, deadline c.policy opts now⟩
        (gone c (MemoryCache.put c b (some r) opts now).2 b) := by
    cases outcome : MemoryCache.put c b (some r) opts now with
    | mk failure after =>
      rw [outcome] at ok
      subst ok
      simp only [event, outcome]
  rw [stored]
  obtain ⟨front, named, main⟩ := mirrors.put_main ok
  constructor
  · exact put_wellFormed wf b (some r) opts now
  · exact policy ▸ mirrors.range
  · exact policy ▸ mirrors.below
  · exact policy ▸ mirrors.kind
  · rcases others "" (Ne.symm nonempty) with same | ⟨none, _⟩
    · rw [same]
      exact mirrors.named
    · exact none
  · intro x
    simp only [Recency.held]
    by_cases same : x = b
    · rw [if_pos same, same, entry]
      rfl
    · rw [if_neg same]
      rcases others x same with kept | ⟨lost, e, found, _⟩
      · split
        · rename_i evicted
          simp only [gone, List.mem_filter, decide_eq_true_eq, Option.isNone_iff_eq_none]
            at evicted
          rw [evicted.2.2]
          rfl
        · rw [kept]
          exact mirrors.held x
      · have evicted : x ∈ gone c (MemoryCache.put c b (some r) opts now).2 b := by
          obtain ⟨el, member, rfl, id⟩ := (wf.entry_iff x e).mp found
          simp only [gone, List.mem_filter, decide_eq_true_eq, Option.isNone_iff_eq_none]
          refine ⟨?_, same, lost⟩
          exact List.mem_map.mpr ⟨el, List.mem_reverse.mpr member, id⟩
        rw [if_pos evicted, lost]
        rfl
  · rw [main]
    refine aged_cons mirrors.aged (List.filter_sublist.trans (others_sublist b _)) ?_ ?_
    · intro el inside
      have apart : el.value.blobID ≠ b :=
        of_decide_eq_true (List.mem_filter.mp (List.mem_of_mem_filter inside)).2
      simpa [Event.uses] using apart
    · simp [Event.uses, named]

theorem Mirrors.call (next : CacheCall) : Mirrors (event c next :: past) (call c next) := by
  cases next with
  | get b now => exact mirrors.get b now
  | evict b => exact mirrors.evict b
  | put b r opts now =>
    have failing : ∀ err, (MemoryCache.put c b r opts now).1 = some err →
        Mirrors (event c (.put b r opts now) :: past) (MemoryCache.put c b r opts now).2 := by
      intro err failed
      have quiet : event c (.put b r opts now) = .idle := by
        cases outcome : MemoryCache.put c b r opts now with
        | mk failure after =>
          rw [outcome] at failed
          subst failed
          cases r <;> simp only [event, outcome]
      rw [quiet, put_error failed]
      exact mirrors.idle mirrors.wellFormed rfl rfl rfl
    cases outcome : (MemoryCache.put c b r opts now).1 with
    | some err => exact failing err outcome
    | none =>
      cases r with
      | some r => exact mirrors.put outcome
      | none =>
        unfold MemoryCache.put at outcome
        split at outcome <;> contradiction

end Steps

theorem Mirrors.run (mirrors : Mirrors past c) (calls : List CacheCall) :
    Mirrors (historyFrom c past calls) (run c calls) := by
  induction calls generalizing c past with
  | nil => exact mirrors
  | cons next calls ih => exact ih (mirrors.call next)

/-- The other residents by age, as the list has them from its back. -/
def byAge (c : MemoryCache) (b : String) : List String :=
  (Regions.others b c.main).reverse.map fun el => el.value.blobID

section Order
variable (mirrors : Mirrors past c)
include mirrors

theorem Mirrors.sortedByAge (b : String) : ByAge past b (byAge c b) := by
  have wf := mirrors.wellFormed
  have ids := wf.ids
  rw [mirrors.elements] at ids
  have fewer : ((Regions.others b c.main).map fun el => el.value.blobID).Sublist
      (c.main.map fun el => el.value.blobID) := (others_sublist b _).map _
  constructor
  · rw [byAge, List.map_reverse, List.nodup_reverse]
    exact ids.sublist fewer
  · intro x
    rw [mirrors.held, Option.isSome_map, byAge]
    simp only [List.mem_map, List.mem_reverse, Regions.others, List.mem_filter, decide_eq_true_eq]
    constructor
    · rintro ⟨el, ⟨member, apart⟩, rfl⟩
      refine ⟨apart, ?_⟩
      have found := (wf.entry_iff el.value.blobID el.value).mpr
        ⟨el, mirrors.elements ▸ member, rfl, rfl⟩
      rw [found]
      rfl
    · rintro ⟨apart, some⟩
      obtain ⟨e, found⟩ := Option.isSome_iff_exists.mp some
      obtain ⟨el, member, rfl, named⟩ := (wf.entry_iff x e).mp found
      have inMain : el ∈ c.main := mirrors.elements ▸ member
      have other : blobID el.value ≠ b := by rw [named]; exact apart
      exact ⟨el, ⟨inMain, other⟩, named⟩
  · rw [byAge, List.pairwise_map, List.pairwise_reverse]
    exact mirrors.aged.sublist (others_sublist b _)

theorem Mirrors.mainShed (b : String) (incoming : Int) : (c.vacated b).mainShed incoming =
    if c.policy.maxBytes ≤ 0 then []
    else shed Regions.weigh Regions.protect
      (total Regions.weigh (Regions.others b c.main) + incoming - c.policy.maxBytes)
      (Regions.others b c.main).reverse := by
  have wf := mirrors.wellFormed
  obtain ⟨hot, main⟩ := wf.vacated_lists b
  have none : (c.vacated b).hot = [] := by rw [hot, mirrors.cold]; rfl
  have bytes : (c.vacated b).bytesUsed = total Regions.weigh (Regions.others b c.main) := by
    rw [(wf.vacated b).bytes, Regions.elements, none, List.nil_append, main]
    rfl
  have order : (c.vacated b).evictionOrder = (Regions.others b c.main).reverse := by
    simp only [Regions.evictionOrder, none, main, List.reverse_nil, ite_self, List.append_nil]
  rw [Regions.mainShed, (Regions.vacated_policy c b).1, bytes, order]

theorem Mirrors.mainShed_sublist (b : String) (incoming : Int) :
    ((c.vacated b).mainShed incoming).Sublist (Regions.others b c.main).reverse := by
  rw [mirrors.mainShed]
  split
  · exact List.nil_sublist _
  · exact shed_sublist _ _

/-- Of the other residents, a Put removes those it sheds. -/
theorem Mirrors.lost_iff {r : Reader} (ok : (MemoryCache.put c b (some r) opts now).1 = none)
    {el : Element MemEntry} (member : el ∈ Regions.others b c.main) :
    (MemoryCache.put c b (some r) opts now).2.entry el.value.blobID = none ↔
      el ∈ (c.vacated b).mainShed r.data.length := by
  have wf := mirrors.wellFormed
  have after := mirrors.put ok
  obtain ⟨front, named, main⟩ := mirrors.put_main ok
  have inside : ∀ other ∈ Regions.others b c.main, other ∈ c.elements := by
    intro other member
    rw [mirrors.elements]
    exact (others_sublist b _).subset member
  have apart : el.value.blobID ≠ b := of_decide_eq_true (List.mem_filter.mp member).2
  constructor
  · intro lost
    by_contra stays
    have kept : el ∈ (MemoryCache.put c b (some r) opts now).2.elements := by
      rw [after.elements, main]
      refine List.mem_cons_of_mem _ (Regions.mem_withoutAll.mpr ⟨member, ?_⟩)
      intro inShed
      obtain ⟨other, shed, same⟩ := List.mem_map.mp inShed
      have listed := List.mem_reverse.mp ((mirrors.mainShed_sublist b _).subset shed)
      rw [wf.ref_inj (inside other listed) (inside el member) same] at shed
      exact stays shed
    have found := (after.wellFormed.entry_iff el.value.blobID el.value).mpr ⟨el, kept, rfl, rfl⟩
    rw [lost] at found
    contradiction
  · intro shed
    apply after.wellFormed.entry_none
    intro other kept same
    rw [after.elements, main] at kept
    rcases List.mem_cons.mp kept with rfl | kept
    · exact apart (same.symm.trans named)
    · obtain ⟨listed, stays⟩ := Regions.mem_withoutAll.mp kept
      rw [wf.id_inj (inside other listed) (inside el member) same] at stays
      exact stays (List.mem_map_of_mem shed)

/-- What a Put removes besides its own blob is what it sheds, in that order. -/
theorem Mirrors.gone_eq {r : Reader} (ok : (MemoryCache.put c b (some r) opts now).1 = none) :
    gone c (MemoryCache.put c b (some r) opts now).2 b =
      ((c.vacated b).mainShed r.data.length).map fun el => el.value.blobID := by
  have once : (Regions.others b c.main).reverse.Nodup := by
    rw [List.nodup_reverse]
    have nodup := mirrors.wellFormed.refs
    rw [mirrors.elements] at nodup
    exact (nodup.of_map _).sublist (others_sublist b _)
  have picked : c.main.reverse.filter (fun el => el.value.blobID ≠ b ∧
      ((MemoryCache.put c b (some r) opts now).2.entry el.value.blobID).isNone) =
        (c.vacated b).mainShed r.data.length := by
    rw [← filter_mem_sublist (mirrors.mainShed_sublist b r.data.length) once]
    have outer : (Regions.others b c.main).reverse =
        c.main.reverse.filter fun el => el.value.blobID ≠ b := by
      rw [Regions.others, List.filter_reverse]
      rfl
    rw [outer, List.filter_filter]
    apply List.filter_congr
    intro el member
    by_cases same : el.value.blobID = b
    · simp [same]
    · have listed : el ∈ Regions.others b c.main :=
        List.mem_filter.mpr ⟨List.mem_reverse.mp member, decide_eq_true same⟩
      simp [same, mirrors.lost_iff ok listed]
  rw [gone, mirrors.elements, List.filter_map, ← picked]
  rfl

/-- What a Put evicts is what the history asks for. -/
theorem Mirrors.evicts {r : Reader} (ok : (MemoryCache.put c b (some r) opts now).1 = none)
    (positive : 0 < c.policy.maxBytes) :
    Evicts Blob.weight Blob.nonEvictable c.policy.maxBytes past b r.data.length
      (gone c (MemoryCache.put c b (some r) opts now).2 b) := by
  have limited : ¬ c.policy.maxBytes ≤ 0 := by omega
  have wf := mirrors.wellFormed
  refine ⟨byAge c b, mirrors.sortedByAge b, ?_⟩
  -- Under its ID, an element has its own weight and its own protection.
  have value : ∀ el ∈ (Regions.others b c.main).reverse,
      Recency.held past el.value.blobID = some (blobOf el.value) := by
    intro el member
    have inMain := (others_sublist b _).subset (List.mem_reverse.mp member)
    have found := (wf.entry_iff el.value.blobID el.value).mpr
      ⟨el, mirrors.elements ▸ inMain, rfl, rfl⟩
    rw [mirrors.held, found]
    rfl
  have weights : ∀ el ∈ (Regions.others b c.main).reverse, Regions.weigh el =
      ((Recency.held past el.value.blobID).map Blob.weight).getD 0 := by
    intro el member
    rw [value el member]
    rfl
  have keeps : ∀ el ∈ (Regions.others b c.main).reverse, Regions.protect el =
      ((Recency.held past el.value.blobID).map Blob.nonEvictable).getD false := by
    intro el member
    rw [value el member]
    rfl
  have sum : total (fun x => ((Recency.held past x).map Blob.weight).getD 0) (byAge c b) =
      total Regions.weigh (Regions.others b c.main) := by
    rw [← total_perm (List.reverse_perm (Regions.others b c.main)), byAge, total, total,
      List.map_map]
    exact congrArg List.sum (List.map_congr_left fun el member => (weights el member).symm)
  have shedding : ((c.vacated b).mainShed r.data.length).map (fun el => el.value.blobID) =
      shed (fun x => ((Recency.held past x).map Blob.weight).getD 0)
        (fun x => ((Recency.held past x).map Blob.nonEvictable).getD false)
        (total Regions.weigh (Regions.others b c.main) + r.data.length - c.policy.maxBytes)
        (byAge c b) := by
    rw [mirrors.mainShed, if_neg limited, shed_congr weights keeps, byAge, shed_map]
  rw [mirrors.gone_eq ok, shedding, sum]
  exact shed_sheds _ _

end Order

/-- The Put whose bytes `b` has: the last one of `b` that succeeded, if the blob was not
evicted on request or for room since, nor found expired. -/
def Current (past : List (Event String Blob)) (b : String) (blob : Blob) : Prop :=
  ∃ since lost before, past = since ++ .stored b blob lost :: before ∧
    ∀ event ∈ since, event.ends b = false

/-- A Get hits exactly what is current and not late, and returns its bytes and hash. -/
theorem answers (mirrors : Mirrors past c) (b : String) (now : Time) :
    match (get c b now).1 with
    | .ok (reader, md) => ∃ blob, Current past b blob ∧ ¬ blob.late now ∧
        reader = ⟨blob.body, none⟩ ∧ md.hash = blob.hash
    | .error _ => ∀ blob, Current past b blob → blob.late now := by
  have current : ∀ blob, Current past b blob ↔ (c.entry b).map blobOf = some blob := by
    intro blob
    rw [← mirrors.held]
    exact (held_iff past b blob).symm
  have lateness : ∀ e, expired e now = true ↔ (blobOf e).late now := by
    intro e
    simp only [expired, decide_eq_true_eq]
    rfl
  simp only [current]
  cases found : c.entry b with
  | none =>
    have missed : ∃ err, (get c b now).1 = .error err := by
      by_cases empty : b = ""
      · exact ⟨_, by rw [MemoryCache.get, if_pos empty]⟩
      · exact ⟨_, (get_missing empty found now).1⟩
    obtain ⟨err, missed⟩ := missed
    rw [missed]
    simp
  | some e =>
    have nonempty : b ≠ "" := by
      rintro rfl
      rw [mirrors.named] at found
      contradiction
    cases lapsed : expired e now with
    | true =>
      rw [(get_expired mirrors.wellFormed nonempty found lapsed).1]
      simpa using (lateness e).mp lapsed
    | false =>
      rw [(get_present mirrors.wellFormed nonempty found lapsed).1]
      refine ⟨blobOf e, rfl, ?_, rfl, rfl⟩
      rw [← lateness, lapsed]
      exact Bool.false_ne_true

variable {policy : EvictionPolicy}

theorem mirrors_new (made : newMemoryCache scale policy = .ok c)
    (kind : policy.withDefaultKind.kind = .lru) (range : IsInt64 policy.maxBytes)
    (below : policy.maxBytes ≠ maxInt64) : Mirrors [] c := by
  obtain ⟨fresh, filled, none⟩ := new_wellFormed made
  have capacity : c.policy.maxBytes = policy.maxBytes := by
    rw [filled, policy.withDefaultKind_maxBytes]
  have absent : ∀ b, c.entry b = .none := by
    intro b
    apply fresh.entry_none
    rw [none]
    intro el member
    contradiction
  have empty : c.main = [] := (List.append_eq_nil_iff.mp none).2
  constructor
  · exact fresh
  · exact capacity ▸ range
  · exact capacity ▸ below
  · rw [filled, kind]
  · exact absent ""
  · intro x
    rw [absent x]
    rfl
  · rw [empty]
    exact .nil

/-- A cache of kind `lru` is a map that evicts the least recently used: its Gets answer
from its history, and its Puts evict what the history asks for, nothing if the capacity
is not limited. -/
theorem lru_refines (made : newMemoryCache scale policy = .ok c)
    (kind : policy.withDefaultKind.kind = .lru) (range : IsInt64 policy.maxBytes)
    (below : policy.maxBytes ≠ maxInt64) (calls : List CacheCall) :
    (∀ b now, match (get (run c calls) b now).1 with
      | .ok (reader, md) => ∃ blob, Current (history c calls) b blob ∧ ¬ blob.late now ∧
          reader = ⟨blob.body, none⟩ ∧ md.hash = blob.hash
      | .error _ => ∀ blob, Current (history c calls) b blob → blob.late now) ∧
    ∀ b r opts now, (put (run c calls) b (some r) opts now).1 = none →
      if policy.maxBytes = 0 then
        gone (run c calls) (put (run c calls) b (some r) opts now).2 b = []
      else Evicts Blob.weight Blob.nonEvictable policy.maxBytes (history c calls) b r.data.length
        (gone (run c calls) (put (run c calls) b (some r) opts now).2 b) := by
  have mirrors : Mirrors (history c calls) (run c calls) :=
    (mirrors_new made kind range below).run calls
  obtain ⟨fresh, filled, -⟩ := new_wellFormed made
  have capacity : (run c calls).policy.maxBytes = policy.maxBytes := by
    rw [run_policy fresh, filled, policy.withDefaultKind_maxBytes]
  refine ⟨answers mirrors, ?_⟩
  intro b r opts now ok
  split
  · rename_i unlimited
    rw [mirrors.gone_eq ok, mirrors.mainShed, capacity, unlimited]
    rfl
  · rename_i limited
    have valid : policy.withDefaultKind.Accepted := by
      refine ⟨?_, policy.withDefaultKind_maxBytes ▸ range⟩
      simp only [newMemoryCache] at made
      split at made
      · contradiction
      · assumption
    have least := valid.maxBytes_nonneg
    rw [policy.withDefaultKind_maxBytes] at least
    have evicts := mirrors.evicts ok (by rw [capacity]; omega)
    rwa [capacity] at evicts

def unlimited : EvictionPolicy := { kind := .lru }

def small : EvictionPolicy := { kind := .lru, maxBytes := 4 }

theorem lru_valid : unlimited.validate = none ∧ small.validate = none := by decide +kernel

/-- A capacity of zero is no capacity: the Put of `"b"` evicts nothing, although `"a"` may
go and the two are more than zero bytes. -/
theorem lru_unlimited :
    ∃ c, newMemoryCache (fun most part => ⌊most * part⌋) unlimited = .ok c ∧
      let calls := [.put "a" (some ⟨[1], none⟩) {} 1]
      let after := put (run c calls) "b" (some ⟨[2], none⟩) {} 2
      after.1 = none ∧ gone (run c calls) after.2 "b" = [] ∧
        ¬ Evicts Blob.weight Blob.nonEvictable unlimited.maxBytes (history c calls) "b" 1 [] := by
  refine ⟨_, new_of_valid _ lru_valid.1, by decide +kernel, by decide +kernel, ?_⟩
  refine not_evicts_nil (fun blob => Int.natCast_nonneg _) (by decide : "a" ≠ "b")
    (v := ⟨[1], [], false, 0⟩) ?_ rfl (by decide)
  decide +kernel

/-- `"a"` was used after `"b"`, so `"b"` goes for `"d"`. -/
theorem lru_refines_used :
    ∃ c, newMemoryCache (fun most part => ⌊most * part⌋) small = .ok c ∧
      let calls := [.put "a" (some ⟨[1, 2], none⟩) {} 1, .put "b" (some ⟨[3], none⟩) {} 2,
        .get "a" 3]
      let after := put (run c calls) "d" (some ⟨[4, 5], none⟩) {} 4
      after.1 = none ∧ gone (run c calls) after.2 "d" = ["b"] ∧
        Evicts Blob.weight Blob.nonEvictable 4 (history c calls) "d" 2 ["b"] := by
  have made := new_of_valid (fun most part => ⌊most * part⌋) lru_valid.2
  refine ⟨_, made, by decide +kernel, by decide +kernel, ?_⟩
  have evicts := (lru_refines made rfl (by decide) (by decide)
    [.put "a" (some ⟨[1, 2], none⟩) {} 1, .put "b" (some ⟨[3], none⟩) {} 2, .get "a" 3]).2
    "d" ⟨[4, 5], none⟩ {} 4 (by decide +kernel)
  rw [if_neg (by decide)] at evicts
  exact evicts

end KDrive.Hotcache.MemoryCache
