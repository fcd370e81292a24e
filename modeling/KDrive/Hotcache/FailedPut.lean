import KDrive.Hotcache.DiskFaults

/-! What a Put that fails leaves of a disk cache. Up to the lock nothing but a temporary file
is touched; behind it the old entry and the evicted ones are gone, index and files, before
the first step that can still fail. -/
namespace KDrive.Hotcache
open Go Interaction

namespace Regions
variable {E : Type} [Resident E] {c : Regions E} {b : String} {pin : Bool} {incoming : Int}

/-- The hot list has to give something up for the new bytes, and can. -/
def HotOverfull (c : Regions E) (incoming : Int) : Prop :=
  0 < c.hotLimit ∧ c.hotLimit < c.hotBytes + incoming ∧ ∃ el ∈ c.hot, nonEvictable el.value = false

/-- The cache has to, and the list that is walked for it can. -/
def Overfull (c : Regions E) (incoming : Int) : Prop :=
  0 < c.policy.maxBytes ∧ c.policy.maxBytes < c.bytesUsed + incoming ∧
    ∃ el ∈ (if c.main.isEmpty then c.hot else c.main), nonEvictable el.value = false

/-- A Put of `b` has an entry to replace or one to evict. -/
def NeedsRoom (c : Regions E) (b : String) (pin : Bool) (incoming : Int) : Prop :=
  (c.entry b).isSome = true ∨ (pin = true ∧ c.HotOverfull incoming) ∨ c.Overfull incoming

instance (c : Regions E) (incoming : Int) : Decidable (c.HotOverfull incoming) :=
  inferInstanceAs (Decidable (_ ∧ _ ∧ _))

instance (c : Regions E) (incoming : Int) : Decidable (c.Overfull incoming) :=
  inferInstanceAs (Decidable (_ ∧ _ ∧ _))

instance (c : Regions E) (b : String) (pin : Bool) (incoming : Int) :
    Decidable (c.NeedsRoom b pin incoming) :=
  inferInstanceAs (Decidable (_ ∨ _ ∨ _))

theorem victim_none {list : List (Element E)} :
    victim list = none ↔ ¬ ∃ el ∈ list, nonEvictable el.value = false := by
  simp [victim, List.find?_eq_none]

theorem evictLoop_nothing {next : Regions E → Option (Element E)} {rounds : Nat} :
    (evictLoop next rounds c).2 = [] ↔ rounds = 0 ∨ next c = none := by
  cases rounds with
  | zero => simp [evictLoop]
  | succ rounds =>
    simp only [evictLoop]
    cases next c <;> simp

theorem evictLoop_idle {next : Regions E → Option (Element E)} {rounds : Nat}
    (idle : (evictLoop next rounds c).2 = []) : (evictLoop next rounds c).1 = c := by
  cases rounds with
  | zero => rfl
  | succ rounds =>
    simp only [evictLoop] at idle ⊢
    cases found : next c with
    | none => rfl
    | some el => simp [found] at idle

theorem evictMainLocked_idle (idle : (c.evictMainLocked incoming).2 = []) :
    (c.evictMainLocked incoming).1 = c := by
  unfold evictMainLocked at idle ⊢
  split
  · rfl
  · rename_i limited
    rw [if_neg limited] at idle
    exact evictLoop_idle idle

theorem evictHotLocked_idle (idle : (c.evictHotLocked incoming).2 = []) :
    (c.evictHotLocked incoming).1 = c := by
  unfold evictHotLocked at idle ⊢
  split
  · rfl
  · rename_i limited
    rw [if_neg limited] at idle
    exact evictLoop_idle idle

theorem evictMainLocked_nothing :
    (c.evictMainLocked incoming).2 = [] ↔ ¬ c.Overfull incoming := by
  unfold evictMainLocked Overfull
  split
  · rename_i unlimited
    have never : ¬ 0 < c.policy.maxBytes := by omega
    simp [never]
  · rename_i limited
    have limited : 0 < c.policy.maxBytes := by omega
    rw [evictLoop_nothing]
    by_cases beyond : c.policy.maxBytes < c.bytesUsed + incoming
    · simp only [mainVictim, gt_iff_lt, beyond, if_true, victim_none, limited, true_and]
      constructor
      · rintro (none | none)
        · rintro ⟨el, member, _⟩
          have inside : el ∈ c.elements := by
            split at member
            · exact List.mem_append_left _ member
            · exact List.mem_append_right _ member
          rw [List.length_eq_zero_iff.mp none] at inside
          contradiction
        · exact none
      · exact .inr
    · simp [mainVictim, beyond]

theorem evictHotLocked_nothing :
    (c.evictHotLocked incoming).2 = [] ↔ ¬ c.HotOverfull incoming := by
  unfold evictHotLocked HotOverfull
  split
  · rename_i unlimited
    have never : ¬ 0 < c.hotLimit := by omega
    simp [never]
  · rename_i limited
    have limited : 0 < c.hotLimit := by omega
    rw [evictLoop_nothing]
    by_cases beyond : c.hotLimit < c.hotBytes + incoming
    · simp only [hotVictim, gt_iff_lt, beyond, if_true, victim_none, limited, true_and]
      constructor
      · rintro (none | none)
        · rintro ⟨el, member, _⟩
          have inside : el ∈ c.elements := List.mem_append_left _ member
          rw [List.length_eq_zero_iff.mp none] at inside
          contradiction
        · exact none
      · exact .inr
    · simp [hotVictim, beyond]

omit [Resident E] in
theorem entry_isSome : (c.entry b).isSome = true ↔ c.find b ≠ none := by
  cases found : c.find b <;> simp [entry, found]

/-- Without need nothing is removed, and with need something is. -/
theorem makeRoom_nothing :
    (c.makeRoom b pin incoming).2 = [] ↔ ¬ c.NeedsRoom b pin incoming := by
  unfold NeedsRoom
  rw [entry_isSome]
  cases found : c.find b with
  | some existing => simp [makeRoom, found]
  | none =>
    cases pin with
    | false => simp [makeRoom, found, evictMainLocked_nothing]
    | true =>
      simp only [makeRoom, found, if_true, List.nil_append, List.append_eq_nil_iff, ne_eq,
        not_true_eq_false, false_or, true_and, not_or, ← evictHotLocked_nothing]
      constructor
      · rintro ⟨hot, main⟩
        rw [evictHotLocked_idle hot, evictMainLocked_nothing] at main
        exact ⟨hot, main⟩
      · rintro ⟨hot, main⟩
        rw [evictHotLocked_idle hot, evictMainLocked_nothing]
        exact ⟨hot, main⟩

theorem makeRoom_idle (idle : (c.makeRoom b pin incoming).2 = []) :
    (c.makeRoom b pin incoming).1 = c := by
  unfold makeRoom at idle ⊢
  cases found : c.find b with
  | some existing => simp [found] at idle
  | none =>
    cases pin with
    | false =>
      simp only [found, Bool.false_eq_true, if_false, List.nil_append] at idle ⊢
      exact evictMainLocked_idle idle
    | true =>
      simp only [found, if_true, List.nil_append, List.append_eq_nil_iff] at idle ⊢
      rw [evictHotLocked_idle idle.1] at idle ⊢
      exact evictMainLocked_idle idle.2

end Regions

namespace DiskCache

/-- The index with its lists and counters, and what a Get of a resident blob opens. -/
structure Unchanged (c : DiskCache) (fs : Files) (c' : DiskCache) (fs' : Files) : Prop where
  index : c'.index = c.index
  hot : c'.hot = c.hot
  main : c'.main = c.main
  bytesUsed : c'.bytesUsed = c.bytesUsed
  hotBytes : c'.hotBytes = c.hotBytes
  bodies : ∀ x e, c.entry x = some e → fs'.look (bodyPath x) = fs.look (bodyPath x)

/-- The paths whose content a request can change. -/
def Touches : FileRequest → Path → Prop
  | .createTemp shard blobID, path => ∃ random, path = tempPath shard blobID random
  | .create target, path | .write target _, path | .remove target, path => path = target
  | .rename source target, path => path = source ∨ path = target
  | _, _ => False

variable {fs fs' : Files} {c c' : DiskCache} {b : String} {tmp : Path}

theorem look_of_untouched {q : FileRequest} {reply : q.Reply} {path : Path}
    (apart : ¬ Touches q path) (step : faulty fs q reply fs') : fs'.look path = fs.look path := by
  cases q with
  | createTemp shard blobID =>
    rcases step with ⟨random, _, _, rfl⟩ | ⟨_, rfl⟩
    · rw [Files.look_set, if_neg fun same => apart ⟨random, same⟩]
    · rfl
  | create target =>
    have other : path ≠ target := apart
    rcases step with ⟨_, rfl⟩ | ⟨_, rfl⟩
    · rw [Files.look_set, if_neg other]
    · rfl
  | write target content =>
    have other : path ≠ target := apart
    rcases step with ⟨_, rfl⟩ | ⟨_, rfl | ⟨part, rfl⟩⟩
    · rw [Files.look_set, if_neg other]
    · rfl
    · rw [Files.look_set, if_neg other]
  | rename source target =>
    rcases step with done | ⟨_, rfl⟩
    · simp only [Calm] at done
      split at done
      · obtain ⟨_, rfl⟩ := done
        rw [Files.look_set, if_neg fun same => apart (.inr same), Files.look_unset,
          if_neg fun same => apart (.inl same)]
      · obtain ⟨_, rfl⟩ := done
        rfl
    · rfl
  | remove target =>
    have other : path ≠ target := apart
    rcases step with rfl | rfl
    · rw [Files.look_unset, if_neg other]
    · rfl
  | mkdirAll shard => rcases step with ⟨_, rfl⟩ | ⟨_, rfl⟩ <;> rfl
  | pieces | range | sortByStored =>
    obtain ⟨_, rfl⟩ := step.resolve_right id
    rfl
  | mkdirRoot | close | openFile | readRoot | readShard | readFile =>
    rcases step with ⟨_, rfl⟩ | ⟨_, rfl⟩ <;> rfl

/-- The requests of a Put that has nothing to displace. -/
def OwnFiles (b : String) (_ : Files) (q : FileRequest) : Prop :=
  ∀ path, Touches q path → path.kind = .temp ∨ path = bodyPath b ∨ path = metaPath b

def Temporary (_ : Files) (q : FileRequest) : Prop := ∀ path, Touches q path → path.kind = .temp

theorem acts_access {α : Type} {q : FileRequest} {f : q.Reply → Disk α}
    {allowed : Files → FileRequest → Prop} {post : α → Files → Prop} (fine : allowed fs q)
    (rest : ∀ reply fs', faulty fs q reply fs' → Acts faulty allowed (f reply) post fs') :
    Acts faulty allowed (access q >>= f) post fs := ⟨fine, rest⟩

theorem copyPieces_acts (temp : tmp.kind = .temp) (failure : Option GoError)
    (pieces : List Bytes) :
    Acts faulty Temporary (copyPieces tmp failure pieces)
      (fun err _ => err = none → failure = none) fs := by
  induction pieces generalizing fs with
  | nil => exact id
  | cons piece pieces ih =>
    refine acts_access (fun path same => same ▸ temp) fun reply fs₁ _ => ?_
    cases reply with
    | some err => exact nofun
    | none => exact ih

theorem receive_acts (policy : EvictionPolicy) (b : String) (r : Reader) :
    Acts faulty Temporary (receive policy b r) (fun reply _ => ∀ tmp, reply = .ok tmp →
      tmp.kind = .temp ∧ refusal policy r = none) fs := by
  refine acts_access nofun fun reply fs₁ _ => ?_
  cases reply with
  | some err => exact nofun
  | none =>
    have named : Temporary fs₁ (.createTemp (shardOf b) b) := by
      rintro path ⟨random, rfl⟩
      exact kind_tempPath _ _ _
    refine acts_access named fun reply fs₂ step => ?_
    cases reply with
    | error err => exact nofun
    | ok tmp =>
      have temp : tmp.kind = .temp := by
        rcases step with ⟨random, _, made, _⟩ | ⟨⟨_, failed⟩, _⟩
        · cases made
          exact kind_tempPath _ _ _
        · cases failed
      have discarded : ∀ err fs, Acts faulty Temporary (discard tmp err)
          (fun reply _ => ∀ tmp, reply = .ok tmp → tmp.kind = .temp ∧ refusal policy r = none)
          fs := by
        intro err fs
        exact acts_access (fun path same => same ▸ temp) fun _ _ _ => nofun
      refine acts_access nofun fun pieces fs₃ _ => ?_
      refine Acts.bind ((copyPieces_acts temp r.failure pieces).imp
        fun copyErr fs₄ complete => ?_)
      refine acts_access nofun fun closeErr fs₅ _ => ?_
      cases copyErr with
      | some err => exact discarded _ _
      | none =>
        cases closeErr with
        | some err => exact discarded _ _
        | none =>
          simp only
          split
          · exact discarded _ _
          · rename_i fits
            rintro tmp' same
            cases same
            exact ⟨temp, by simp only [refusal, complete rfl, if_neg fits]⟩

theorem writeMeta_acts (b : String) (entry : DiskEntry) :
    Acts faulty (OwnFiles b) (writeMeta (metaPath b) entry) (fun _ _ => True) fs := by
  have temp := kind_tmp (metaPath b)
  unfold writeMeta
  cases (metaFile entry).marshal with
  | error err => trivial
  | ok body =>
    refine acts_access (fun path same => .inl (same ▸ temp)) fun reply fs₁ _ => ?_
    cases reply with
    | some err => trivial
    | none =>
      refine acts_access (fun path same => .inl (same ▸ temp)) fun reply fs₂ _ => ?_
      cases reply with
      | some err => trivial
      | none =>
        have named : OwnFiles b fs₂ (.rename (metaPath b).tmp (metaPath b)) := by
          rintro path (rfl | rfl)
          · exact .inl temp
          · exact .inr (.inr rfl)
        refine acts_access named fun reply fs₃ _ => ?_
        cases reply with
        | some err =>
          exact acts_access (fun path same => .inl (same ▸ temp)) fun _ _ _ => trivial
        | none => trivial

theorem publish_acts (temp : tmp.kind = .temp) (c : DiskCache) (entry : DiskEntry) :
    Acts faulty (OwnFiles entry.blobID) (publish c tmp entry)
      (fun out _ => out.1 ≠ none → out.2 = c) fs := by
  have named : OwnFiles entry.blobID fs (.rename tmp (bodyPath entry.blobID)) := by
    rintro path (rfl | rfl)
    · exact .inl temp
    · exact .inr (.inl rfl)
  refine acts_access named fun reply fs₁ _ => ?_
  cases reply with
  | some err => exact acts_access (fun path same => .inl (same ▸ temp)) fun _ _ _ _ => rfl
  | none =>
    refine Acts.bind ((writeMeta_acts entry.blobID entry).imp fun written fs₂ _ => ?_)
    cases written with
    | some err => exact acts_access (fun path same => .inr (.inl same)) fun _ _ _ _ => rfl
    | none => exact fun failed => absurd rfl failed

/-- What a program leaves of the files it does not touch. -/
theorem look_of_acts {α : Type} {p : Disk α} {post : α → Files → Prop} {value : α}
    {area : Path → Prop}
    (acts : Acts faulty (fun _ q => ∀ path, Touches q path → area path) p post fs)
    (run : Runs faulty fs p value fs') :
    post value fs' ∧ ∀ path, ¬ area path → fs'.look path = fs.look path := by
  have kept := acts.keeps (R := fun before after : Files =>
    ∀ path, ¬ area path → after.look path = before.look path) (fun _ _ _ => rfl)
    (fun first second path apart => (second path apart).trans (first path apart))
    (fun allowed step path apart =>
      look_of_untouched (fun touched => apart (allowed path touched)) step)
  exact kept.runs run

theorem Unchanged.of_look (same : c' = c)
    (bodies : ∀ x e, c.entry x = some e → fs'.look (bodyPath x) = fs.look (bodyPath x)) :
    Unchanged c fs c' fs' := by
  subst same
  exact ⟨rfl, rfl, rfl, rfl, rfl, bodies⟩

/-- A Put that has nothing to displace and fails leaves everything as it was. -/
theorem put_unchanged (r : Option Reader) (opts : PutOptions) (now : Time)
    (room : ∀ reader, r = some reader → validateBlobID b = none →
      refusal c.policy reader = none →
      ¬ c.NeedsRoom b (opts.pinHot && c.policy.kind = .lruHotPin) reader.data.length)
    (run : Runs faulty fs (put c b r opts now) (some err, c') fs') : Unchanged c fs c' fs' := by
  unfold put at run
  cases valid : validateBlobID b with
  | some invalid =>
    rw [valid] at run
    cases run
    exact .of_look rfl fun _ _ _ => rfl
  | none =>
    rw [valid] at run
    cases r with
    | none =>
      cases run
      exact .of_look rfl fun _ _ _ => rfl
    | some reader =>
      obtain ⟨reply, fs₁, first, rest⟩ := Runs.of_bind run
      obtain ⟨received, before⟩ := look_of_acts (receive_acts c.policy b reader) first
      cases reply with
      | error failed =>
        cases rest
        exact .of_look rfl fun x _ _ => before (bodyPath x) (by simp)
      | ok tmp =>
        obtain ⟨temporary, accepted⟩ := received tmp rfl
        have free := room reader rfl valid accepted
        have idle := Regions.makeRoom_nothing.mpr free
        have vacant : c.entry b = none := by
          by_contra held
          exact free (.inl (Option.isSome_iff_ne_none.mpr held))
        simp only [newEntry] at rest
        rw [Regions.makeRoom_idle idle, idle] at rest
        obtain ⟨ends, after⟩ := look_of_acts (publish_acts temporary c _) rest
        refine .of_look (ends (by simp)) fun x e found => ?_
        have other : x ≠ b := by
          rintro rfl
          rw [vacant] at found
          contradiction
        rw [after (bodyPath x) (by simpa using other), before (bodyPath x) (by simp)]

/-- The rename of the body fails, when what had to go is gone. -/
theorem exists_displaced (tidy : Tidy fs) (wf : c.WellFormed) {reader : Reader}
    (opts : PutOptions) (now : Time) (valid : validateBlobID b = none)
    (accepted : refusal c.policy reader = none)
    (needs : c.NeedsRoom b (opts.pinHot && c.policy.kind = .lruHotPin) reader.data.length) :
    ∃ err c' fs', Runs faulty fs (put c b (some reader) opts now) (some err, c') fs' ∧
      ¬ Unchanged c fs c' fs' := by
  obtain ⟨reply, fs₁, received⟩ := exists_runs calm_answers (receive c.policy b reader) fs
  obtain ⟨_, outcome⟩ := (receive_spec tidy c.policy b reader).runs received
  cases reply with
  | error err =>
    simp only [accepted] at outcome
    contradiction
  | ok tmp =>
    obtain ⟨_, fs₂, removed⟩ := exists_runs calm_answers (removeAll
      (c.makeRoom b (opts.pinHot && c.policy.kind = .lruHotPin) reader.data.length).2) fs₁
    have run : Runs faulty fs (put c b (some reader) opts now)
        (some (.wrap "hotcache: publish body: %w" [] (.new "no space left on device")),
          (c.makeRoom b (opts.pinHot && c.policy.kind = .lruHotPin) reader.data.length).1)
        (fs₂.unset tmp) := by
      unfold put
      rw [valid]
      refine Runs.bind (received.mono .inl) (Runs.bind (removed.mono .inl) ?_)
      have cleaned : faulty fs₂ (.remove tmp) () (fs₂.unset tmp) := .inl rfl
      exact .ask (.inr ⟨Option.some_ne_none _, rfl⟩) (.ask cleaned .ret)
    refine ⟨_, _, _, run, fun unchanged => ?_⟩
    obtain ⟨left, gone⟩ := Regions.makeRoom_left wf b
      (opts.pinHot && c.policy.kind = .lruHotPin) reader.data.length
    have some := mt Regions.makeRoom_nothing.mp (not_not.mpr needs)
    obtain ⟨el, member⟩ := List.exists_mem_of_ne_nil _ some
    rcases List.mem_append.mp (gone el member).1 with inHot | inMain
    · rw [← unchanged.hot] at inHot
      exact (Regions.mem_withoutAll.mp (left.hot ▸ inHot)).2 (List.mem_map_of_mem member)
    · rw [← unchanged.main] at inMain
      exact (Regions.mem_withoutAll.mp (left.main ▸ inMain)).2 (List.mem_map_of_mem member)

/-- Whatever fails, a Put that reports it has changed nothing, exactly when the body is not
taken anyway or there is no entry to replace and none to evict. -/
theorem failed_put_unchanged_iff (visited : Visited root scale policy (some c) fs)
    (b : String) (r : Option Reader) (opts : PutOptions) (now : Time) :
    (∀ err c' fs', Runs faulty fs (put c b r opts now) (some err, c') fs' →
      Unchanged c fs c' fs') ↔
    ∀ reader, r = some reader → validateBlobID b = none → refusal c.policy reader = none →
      ¬ c.NeedsRoom b (opts.pinHot && c.policy.kind = .lruHotPin) reader.data.length := by
  obtain ⟨tidy, wf⟩ := visited.wellFormed
  constructor
  · rintro unchanged reader rfl valid accepted needs
    obtain ⟨err, c', fs', run, changed⟩ :=
      exists_displaced tidy (wf c rfl) opts now valid accepted needs
    exact changed (unchanged err c' fs' run)
  · intro room err c' fs' run
    exact put_unchanged r opts now room run

/-- A cache of ten bytes, opened on an empty root. -/
def openedCache : Option (DiskCache × Files) :=
  match (newDiskCache "/cache" (fun _ _ => 4) (defaultEvictionPolicy 10) 1).run quiet {} with
  | some (.ok c, fs) => some (c, fs)
  | _ => none

theorem openedCache_visited (opened : openedCache = some (c, fs)) :
    Visited "/cache" (fun _ _ => 4) (defaultEvictionPolicy 10) (some c) fs := by
  unfold openedCache at opened
  split at opened
  · rename_i ran
    cases opened
    exact Visited.blank.opened ((Program.run_runs quiet_calm ran).mono .inl)
  · contradiction

/-- The same once a blob has been stored. -/
def occupiedCache : Option (DiskCache × Files) :=
  openedCache.bind fun (c, fs) => (call c (.put "aa" (some ⟨[1], none⟩) {} 2)).run quiet fs

theorem occupiedCache_visited (occupied : occupiedCache = some (c, fs)) :
    Visited "/cache" (fun _ _ => 4) (defaultEvictionPolicy 10) (some c) fs := by
  obtain ⟨⟨c₀, fs₀⟩, opened, stored⟩ := Option.bind_eq_some_iff.mp occupied
  exact (openedCache_visited opened).called ((Program.run_runs quiet_calm stored).mono .inl)

/-- The only copy of a blob goes with a Put over it whose rename fails. -/
theorem failed_put_loses_entry : ∃ c fs err c' fs',
    Visited "/cache" (fun _ _ => 4) (defaultEvictionPolicy 10) (some c) fs ∧
      Runs faulty fs (put c "aa" (some ⟨[2], none⟩) {} 3) (some err, c') fs' ∧
      ¬ Unchanged c fs c' fs' := by
  have facts : occupiedCache.any (fun (c, _) => decide (refusal c.policy ⟨[2], none⟩ = none ∧
      c.NeedsRoom "aa" (({} : PutOptions).pinHot && c.policy.kind = .lruHotPin)
        ([2] : Bytes).length)) = true := by
    decide +kernel
  obtain ⟨⟨c, fs⟩, occupied, facts⟩ := (Option.any_eq_true _ _).mp facts
  obtain ⟨accepted, needs⟩ := of_decide_eq_true facts
  have visited := occupiedCache_visited occupied
  obtain ⟨tidy, wf⟩ := visited.wellFormed
  obtain ⟨err, c', fs', run, changed⟩ :=
    exists_displaced tidy (wf c rfl) {} 3 (by decide) accepted needs
  exact ⟨c, fs, err, c', fs', visited, run, changed⟩

/-- A Put beside another entry, with room for both. -/
theorem failed_put_unchanged_beside : ∃ c fs,
    Visited "/cache" (fun _ _ => 4) (defaultEvictionPolicy 10) (some c) fs ∧
      c.main.map (·.value.blobID) = ["aa"] ∧
      ∀ err c' fs', Runs faulty fs (put c "bb" (some ⟨[2], none⟩) {} 3) (some err, c') fs' →
        Unchanged c fs c' fs' := by
  have facts : occupiedCache.any (fun (c, _) => decide (c.main.map (·.value.blobID) = ["aa"] ∧
      ¬ c.NeedsRoom "bb" (({} : PutOptions).pinHot && c.policy.kind = .lruHotPin)
        ([2] : Bytes).length)) = true := by
    decide +kernel
  obtain ⟨⟨c, fs⟩, occupied, facts⟩ := (Option.any_eq_true _ _).mp facts
  obtain ⟨resident, room⟩ := of_decide_eq_true facts
  refine ⟨c, fs, occupiedCache_visited occupied, resident, ?_⟩
  refine (failed_put_unchanged_iff (occupiedCache_visited occupied) "bb" _ {} 3).mpr ?_
  intro reader same _ _
  cases same
  exact room

end DiskCache
end KDrive.Hotcache
