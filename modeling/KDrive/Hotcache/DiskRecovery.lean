import KDrive.Hotcache.DiskScan
import KDrive.Hotcache.Runs

/-! A disk cache that is cut off inside any call and opened again: over any number of
such sessions, what the new index has is what whole Puts left, and what was resident
and not concerned by the call is still there. -/
namespace KDrive.Hotcache.DiskCache
open Go Interaction

variable {fs fs' before : Files} {c : DiskCache} {x : String}

section Loading
variable {lost : String → Prop} {made : String → Bytes × MetaFile → Prop}

/-- What the loop of `warm` makes of the entries. -/
structure Placed (now : Time) (list : List DiskEntry) (before after : DiskCache) : Prop where
  wellFormed : after.WellFormed
  policy : after.policy = before.policy
  hotLimit : after.hotLimit = before.hotLimit
  placed : ∀ e ∈ list, expired e now = false →
    after.entry e.blobID = some (warmed before.policy e)
  others : ∀ x, (∀ e ∈ list, e.blobID = x → expired e now = true) →
    after.entry x = before.entry x

theorem load_spec (now : Time) (list : List DiskEntry) (wf : c.WellFormed)
    (once : (list.map DiskEntry.blobID).Nodup)
    (vacant : ∀ e ∈ list, c.entry e.blobID = none) (keeps : Keeps before lost made fs)
    (loses : ∀ e ∈ list, expired e now = true → lost e.blobID) :
    Throughout calm (Keeps before lost made) (load now c list) (fun c' fs' =>
      Placed now list c c' ∧
        Cleared ((list.filter (expired · now)).map DiskEntry.blobID) fs fs') fs := by
  induction list generalizing c fs with
  | nil =>
    refine throughout_pure keeps ⟨⟨wf, rfl, rfl, by simp, fun _ _ => rfl⟩, .refl fs⟩
  | cons e list ih =>
    obtain ⟨fresh, once⟩ := List.nodup_cons.mp once
    have apart : ∀ other ∈ list, other.blobID ≠ e.blobID := by
      intro other member same
      exact fresh (same ▸ List.mem_map_of_mem member)
    have vacantLater : ∀ other ∈ list, c.entry other.blobID = none :=
      fun other member => vacant other (List.mem_cons_of_mem _ member)
    have losesLater : ∀ other ∈ list, expired other now = true → lost other.blobID :=
      fun other member => loses other (List.mem_cons_of_mem _ member)
    unfold load
    cases lapsed : expired e now with
    | true =>
      simp only [if_true]
      refine removeFiles_spec keeps (loses e List.mem_cons_self lapsed) fun keeps => ?_
      refine (ih wf once vacantLater keeps losesLater).mono (fun _ holds => holds) ?_
      rintro c' fs' _ ⟨placed, cleared⟩
      refine ⟨⟨placed.wellFormed, placed.policy, placed.hotLimit, ?_, ?_⟩, ?_⟩
      · intro other member alive
        rcases List.mem_cons.mp member with rfl | later
        · rw [lapsed] at alive
          contradiction
        · exact placed.placed other later alive
      · intro x all
        exact placed.others x fun other member => all other (List.mem_cons_of_mem _ member)
      · rw [List.filter_cons_of_pos (by simpa using lapsed), List.map_cons]
        exact cleared.cons
    | false =>
      simp only [Bool.false_eq_true, if_false]
      have kind : (warmed c.policy e).pinned = true → c.policy.kind = .lruHotPin := by
        intro pin
        simp only [warmed, Bool.and_eq_true, decide_eq_true_eq] at pin
        exact pin.2
      have free : c.entry (warmed c.policy e).blobID = none := vacant e List.mem_cons_self
      have pushed : ∀ x, (c.pushFront (warmed c.policy e)).entry x =
          if x = e.blobID then some (warmed c.policy e) else c.entry x :=
        wf.pushFront_entry free kind
      refine (ih (wf.pushFront free kind) once ?_ keeps losesLater).mono (fun _ holds => holds) ?_
      · intro other member
        rw [pushed, if_neg (apart other member)]
        exact vacantLater other member
      · rintro c' fs' _ ⟨placed, cleared⟩
        refine ⟨⟨placed.wellFormed, placed.policy, placed.hotLimit, ?_, ?_⟩, ?_⟩
        · intro other member alive
          rcases List.mem_cons.mp member with rfl | later
          · rw [placed.others, pushed, if_pos rfl]
            intro later inside same
            exact absurd same (apart later inside)
          · exact placed.placed other later alive
        · intro x all
          rw [placed.others x fun other member => all other (List.mem_cons_of_mem _ member),
            pushed, if_neg]
          rintro rfl
          rw [all e List.mem_cons_self rfl] at lapsed
          contradiction
        · rw [List.filter_cons_of_neg (by simp [lapsed])]
          exact cleared

end Loading

/-- The pairs are as Puts under this policy write them. -/
def Sound (policy : EvictionPolicy) (fs : Files) : Prop :=
  ∀ x data file, pair fs x = some (data, file) → file.sizeBytes = data.length ∧
    file.hitCount = 0 ∧ jsonText file.hash = file.hash ∧
    (file.pinned = true → policy.kind = .lruHotPin)

/-- The entry that a pair gives when it is loaded at `now`. -/
def revived (policy : EvictionPolicy) (now : Time) (both : Bytes × MetaFile) : Option DiskEntry :=
  if expired (entryOf both.2) now then none else some (warmed policy (entryOf both.2))

/-- The index before the capacity is seen to: one entry for every pair that has not
expired. -/
structure Revived (policy : EvictionPolicy) (now : Time) (before : Files)
    (loaded : DiskCache) : Prop where
  wellFormed : loaded.WellFormed
  configured : loaded.policy = policy
  entry : ∀ x, loaded.entry x = (pair before x).bind (revived policy now)

theorem recorded_warmed {policy : EvictionPolicy} {file : MetaFile} (hits : file.hitCount = 0)
    (hash : jsonText file.hash = file.hash) (kind : file.pinned = true → policy.kind = .lruHotPin) :
    recorded (warmed policy (entryOf file)) = file := by
  cases pinned : file.pinned with
  | false =>
    cases file
    simp_all [recorded, MetaFile.text, warmed, entryOf, metaFile]
  | true =>
    have lru := kind pinned
    cases file
    simp_all [recorded, MetaFile.text, warmed, entryOf, metaFile]

/-- What opening comes to: the index of the pairs, cut down to the capacity, and files to
match. -/
def Opened (policy : EvictionPolicy) (now : Time) (before : Files) (reply : Except GoError DiskCache)
    (after : Files) : Prop :=
  ∃ loaded, Revived policy now before loaded ∧ reply = .ok (loaded.evictMainLocked 0).1 ∧
    Settled (fun x => ((pair before x).map Prod.fst).getD []) (loaded.evictMainLocked 0).1 after

/-- Pairs may go while a cache is opened, but none comes. -/
abbrev Shrinks (before after : Files) : Prop :=
  Keeps before (fun _ => True) (fun _ _ => False) after

theorem Found.indexes {entries sorted : List DiskEntry} {loaded : DiskCache}
    (tidy : Tidy fs) (found : Found fs entries fs') (perm : sorted.Perm entries)
    (empty : ∀ x, c.entry x = none) (placed : Placed now sorted c loaded) :
    Revived c.policy now fs loaded := by
  refine ⟨placed.wellFormed, placed.policy, fun x => ?_⟩
  have member : ∀ e, e ∈ sorted ↔ ∃ x data file, pair fs x = some (data, file) ∧ e = entryOf file :=
    fun e => perm.mem_iff.trans (found.mem e)
  -- The entries of a blob ID come from its pair.
  have own : ∀ e ∈ sorted, e.blobID = x → ∃ data file, pair fs x = some (data, file) ∧
      e = entryOf file := by
    intro e inside named
    obtain ⟨y, data, file, both, rfl⟩ := (member e).mp inside
    obtain rfl : y = x := (pair_named tidy both).symm.trans named
    exact ⟨data, file, both, rfl⟩
  cases both : pair fs x with
  | none =>
    rw [placed.others x fun e inside named => ?_, empty]
    · rfl
    · obtain ⟨_, _, some, _⟩ := own e inside named
      rw [both] at some
      contradiction
  | some both' =>
    obtain ⟨data, file⟩ := both'
    have inside := (member (entryOf file)).mpr ⟨x, data, file, both, rfl⟩
    have named : (entryOf file).blobID = x := pair_named tidy both
    simp only [Option.bind_some, revived]
    cases lapsed : expired (entryOf file) now with
    | false =>
      have entry := placed.placed _ inside lapsed
      rw [named] at entry
      simpa using entry
    | true =>
      rw [placed.others x fun e inside' named' => ?_, empty]
      · rfl
      · obtain ⟨data', file', both', rfl⟩ := own e inside' named'
        cases both.symm.trans both'
        exact lapsed

theorem Found.settled {policy : EvictionPolicy} {entries sorted : List DiskEntry}
    {loaded : DiskCache} {fs'' : Files} (tidy : Tidy fs) (sound : Sound policy fs)
    (found : Found fs entries fs') (stable : Stable fs fs') (perm : sorted.Perm entries)
    (revives : Revived policy now fs loaded) (tidy' : Tidy fs'')
    (cleared : Cleared ((sorted.filter (expired · now)).map DiskEntry.blobID) fs' fs'') :
    Settled (fun x => ((pair fs x).map Prod.fst).getD []) loaded fs'' := by
  have gone : ∀ x, x ∈ (sorted.filter (expired · now)).map DiskEntry.blobID ↔
      ∃ data file, pair fs x = some (data, file) ∧ expired (entryOf file) now = true := by
    intro x
    simp only [List.mem_map, List.mem_filter]
    constructor
    · rintro ⟨e, ⟨inside, lapsed⟩, named⟩
      obtain ⟨y, data, file, both, rfl⟩ := (found.mem e).mp (perm.mem_iff.mp inside)
      obtain rfl : y = x := (pair_named tidy both).symm.trans named
      exact ⟨data, file, both, lapsed⟩
    · rintro ⟨data, file, both, lapsed⟩
      have inside := perm.mem_iff.mpr ((found.mem (entryOf file)).mpr ⟨x, data, file, both, rfl⟩)
      exact ⟨entryOf file, ⟨inside, lapsed⟩, pair_named tidy both⟩
  have kept : ∀ x, x ∉ (sorted.filter (expired · now)).map DiskEntry.blobID →
      fs''.look (bodyPath x) = fs'.look (bodyPath x) ∧
        fs''.look (metaPath x) = fs'.look (metaPath x) := by
    intro x outside
    have apart : ∀ id ∈ (sorted.filter (expired · now)).map DiskEntry.blobID, x ≠ id := by
      rintro id member rfl
      exact outside member
    exact ⟨cleared.kept _ fun id member => by simpa using apart id member,
      cleared.kept _ fun id member => by simpa using apart id member⟩
  refine ⟨tidy', fun x missing => ?_, fun x e present => ?_⟩
  · by_cases lapsed : x ∈ (sorted.filter (expired · now)).map DiskEntry.blobID
    · exact cleared.gone x lapsed
    · rw [(kept x lapsed).1, (kept x lapsed).2]
      apply found.orphans x
      rw [revives.entry] at missing
      cases both : pair fs x with
      | none => rfl
      | some both' =>
        have alive : expired (entryOf both'.2) now = false := by
          by_contra late
          exact lapsed ((gone x).mpr ⟨both'.1, both'.2, both, by simpa using late⟩)
        simp [both, revived, alive] at missing
  · rw [revives.entry] at present
    obtain ⟨⟨data, file⟩, both, entry⟩ := Option.bind_eq_some_iff.mp present
    simp only [revived] at entry
    split at entry
    · contradiction
    · rename_i alive
      cases entry
      have outside : x ∉ (sorted.filter (expired · now)).map DiskEntry.blobID := by
        rw [gone]
        rintro ⟨data', file', both', lapsed⟩
        cases both.symm.trans both'
        exact alive lapsed
      obtain ⟨size, hits, hash, kind⟩ := sound x data file both
      obtain ⟨body, metadata⟩ := pair_eq_some.mp ((stable.pair x).trans both)
      rw [(kept x outside).1, (kept x outside).2, both, recorded_warmed hits hash kind]
      exact ⟨body, metadata, size⟩

theorem warm_spec (root : String) (now : Time) (wf : c.WellFormed)
    (empty : ∀ x, c.entry x = none) (tidy : Tidy fs) (sound : Sound c.policy fs) :
    Throughout calm (Shrinks fs) (warm root now c) (Opened c.policy now fs) fs := by
  have scan : Throughout calm (Shrinks fs) (readShards root) (fun reply fs' =>
      Stable fs fs' ∧ ∃ entries, reply = .ok entries ∧ Found fs entries fs') fs :=
    (readShards_spec root tidy).mono
      (fun _ stable => stable.mono (fun _ impossible => impossible.elim) fun _ _ => id)
      fun _ _ stable found => ⟨stable, found⟩
  refine scan.bind ?_
  rintro _ fs₁ shrinks₁ ⟨stable, entries, rfl, found⟩
  refine calm_sortByStored shrinks₁ fun sorted perm => ?_
  have once := (perm.map DiskEntry.blobID).nodup_iff.mpr found.once
  refine (load_spec now sorted wf once (fun e _ => empty e.blobID) shrinks₁
    fun _ _ _ => trivial).bind ?_
  rintro loaded fs₂ shrinks₂ ⟨placed, cleared⟩
  have revives := found.indexes tidy perm empty placed
  have settled := found.settled tidy sound stable perm revives shrinks₂.tidy cleared
  refine (removeAll_spec _ shrinks₂ fun _ _ => trivial).bind ?_
  intro _ fs₃ shrinks₃ removed
  refine throughout_pure shrinks₃ ⟨loaded, revives, rfl, ?_⟩
  obtain ⟨gone, left⟩ := Regions.evictMainLocked_sheds revives.wellFormed 0
  rw [gone] at removed
  refine settled.cleared removed shrinks₃.tidy fun x => ?_
  exact left.entry revives.wellFormed
    (Regions.evictMainLocked_evicted revives.wellFormed 0).wellFormed
    (fun el member => (Regions.mainShed_subset member).1) x

/-- Opening a cache on files that Puts have left. -/
theorem newDiskCache_spec {root : String} {policy : EvictionPolicy} (named : root ≠ "")
    (valid : policy.withDefaultKind.validate = none) (scale : Int → ℚ → Int) (now : Time)
    (tidy : Tidy fs) (sound : Sound policy.withDefaultKind fs) :
    Throughout calm (Shrinks fs) (newDiskCache root scale policy now)
      (Opened policy.withDefaultKind now fs) fs := by
  unfold newDiskCache
  rw [if_neg named]
  simp only [valid]
  refine ⟨.refl tidy, ?_⟩
  rintro _ _ ⟨rfl, rfl⟩
  exact warm_spec root now (Regions.empty_wellFormed _ _) (fun _ => rfl) tidy sound

end KDrive.Hotcache.DiskCache
