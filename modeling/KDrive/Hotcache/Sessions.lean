import KDrive.Hotcache.DiskRecovery

/-! Sessions of a disk cache on one root. The cache is opened, takes calls, is cut off
inside any of them or while it opens, and is opened again, any number of times. Whatever
the point of the crash, the next session has entries of whole Puts only, and those of
the last session that the interrupted call had nothing to do with. -/
namespace KDrive.Hotcache.DiskCache
open Go Interaction

/-- A call, with its reply and the cache it leaves. -/
def answer (c : DiskCache) : CacheCall → Disk (CacheReply × DiskCache)
  | .get b now => do
    let out ← get c b now
    pure (.got out.1, out.2)
  | .put b r opts now => do
    let out ← put c b r opts now
    pure (.stored out.1.isNone, out.2)
  | .evict b => do
    let c ← evict c b
    pure (.evicted, c)

def call (c : DiskCache) (op : CacheCall) : Disk DiskCache := do
  let out ← answer c op
  pure out.2

/-- A root directory after the sessions so far: the cache that is open on it, if one is,
the files, and the calls that were begun. -/
inductive Reached (root : String) (scale : Int → ℚ → Int) (policy : EvictionPolicy) :
    Option DiskCache → Files → List CacheCall → Prop where
  | blank : Reached root scale policy none {} []
  | opened : Reached root scale policy none fs log →
      Runs calm fs (newDiskCache root scale policy now) (.ok c) fs' →
      Reached root scale policy (some c) fs' log
  | cutOpening : Reached root scale policy none fs log →
      Interrupted calm fs (newDiskCache root scale policy now) fs' →
      Reached root scale policy none fs' log
  | called : Reached root scale policy (some c) fs log → Runs calm fs (call c op) c' fs' →
      Reached root scale policy (some c') fs' (log ++ [op])
  | cut : Reached root scale policy (some c) fs log → Interrupted calm fs (call c op) fs' →
      Reached root scale policy none fs' (log ++ [op])

variable {fs fs' : Files} {c : DiskCache} {x root : String} {scale : Int → ℚ → Int}
  {policy : EvictionPolicy} {log : List CacheCall} {op : CacheCall} {now : Time}

/-- The blobs whose pairs a call may end. -/
def Ends (c : DiskCache) : CacheCall → String → Prop
  | .get b now => Lapses c b now
  | .put b r opts _ => Displaces c b r opts
  | .evict b => (· = b)

/-- The pairs a call may write. -/
def Writes (policy : EvictionPolicy) : CacheCall → String → Bytes × MetaFile → Prop
  | .put b r opts now, x, both => x = b ∧ ∃ reader, r = some reader ∧
      refusal policy reader = none ∧
      both = (reader.data, (metaFile (newEntry policy b reader.data.length opts now)).text)
  | _, _, _ => False

/-- Every pair was written by one call. -/
def Sourced (policy : EvictionPolicy) (log : List CacheCall) (fs : Files) : Prop :=
  ∀ x both, pair fs x = some both → ∃ op ∈ log, Writes policy op x both

theorem Sourced.sound (sourced : Sourced policy log fs) : Sound policy fs := by
  intro x data file both
  obtain ⟨op, _, writes⟩ := sourced x _ both
  cases op with
  | get => contradiction
  | evict => contradiction
  | put b r opts now =>
    obtain ⟨_, reader, _, _, written⟩ := writes
    cases written
    refine ⟨rfl, rfl, jsonText_idem _, fun pin => ?_⟩
    simp only [MetaFile.text, metaFile, newEntry, Bool.and_eq_true, decide_eq_true_eq] at pin
    exact pin.2

theorem Sourced.shrinks (sourced : Sourced policy log fs) (shrinks : Shrinks fs fs') :
    Sourced policy log fs' := by
  intro x both found
  rcases shrinks.pairs x with same | ⟨_, gone⟩ | ⟨_, impossible, _⟩
  · exact sourced x both (same ▸ found)
  · rw [gone] at found
    contradiction
  · exact impossible.elim

theorem Sourced.keeps {lost : String → Prop} (sourced : Sourced policy log fs)
    (keeps : Keeps fs lost (Writes policy op) fs') : Sourced policy (log ++ [op]) fs' := by
  intro x both found
  rcases keeps.pairs x with same | ⟨_, gone⟩ | ⟨new, writes, written⟩
  · obtain ⟨earlier, member, writes⟩ := sourced x both (same ▸ found)
    exact ⟨earlier, List.mem_append_left _ member, writes⟩
  · rw [gone] at found
    contradiction
  · rw [written] at found
    cases found
    exact ⟨op, by simp, writes⟩

/-- An open cache and its files. -/
structure Live (policy : EvictionPolicy) (log : List CacheCall) (c : DiskCache)
    (fs : Files) : Prop where
  wellFormed : c.WellFormed
  configured : c.policy = policy
  settled : ∃ content, Settled content c fs
  sourced : Sourced policy log fs

/-- What holds of a root between two calls. -/
def Consistent (policy : EvictionPolicy) (log : List CacheCall) : Option DiskCache → Files → Prop
  | none, fs => Tidy fs ∧ Sourced policy log fs
  | some c, fs => Live policy log c fs

/-- What a call comes to if nothing fails. -/
def outcome (content : String → Bytes) (c : DiskCache) : CacheCall → CacheReply × DiskCache
  | .get b now => (.got (getOutcome content c b now).1, (getOutcome content c b now).2)
  | .put b r opts now =>
    (.stored (putOutcome c b r opts now).1.isNone, (putOutcome c b r opts now).2)
  | .evict b => (.evicted, c.vacated b)

/-- The bodies on disk after it. -/
def contentAfter (content : String → Bytes) (c : DiskCache) : CacheCall → String → Bytes
  | .put b r opts now =>
    if (putOutcome c b r opts now).1 = none then
      Function.update content b ((r.map Reader.data).getD [])
    else content
  | _ => content

theorem outcome_wellFormed (wf : c.WellFormed) (content : String → Bytes) (op : CacheCall) :
    (outcome content c op).2.WellFormed ∧ (outcome content c op).2.policy = c.policy := by
  cases op with
  | get b now =>
    obtain ⟨wf', samePolicy, _⟩ := getOutcome_wellFormed wf content b now
    exact ⟨wf', samePolicy⟩
  | put b r opts now =>
    obtain ⟨wf', samePolicy, _⟩ := putOutcome_wellFormed wf b r opts now
    exact ⟨wf', samePolicy⟩
  | evict b => exact ⟨wf.vacated b, (Regions.vacated_policy c b).1⟩

theorem answer_spec (wf : c.WellFormed) (settled : Settled content c fs) (op : CacheCall) :
    Throughout calm (Keeps fs (Ends c op) (Writes c.policy op)) (answer c op) (fun out fs' =>
      out = outcome content c op ∧ Settled (contentAfter content c op) out.2 fs') fs := by
  cases op with
  | get b now =>
    refine (get_spec wf settled b now).bind ?_
    rintro _ fs' keeps ⟨rfl, settled'⟩
    exact throughout_pure keeps ⟨rfl, settled'⟩
  | put b r opts now =>
    refine (put_spec wf settled b r opts now).bind ?_
    rintro _ fs' keeps ⟨rfl, _, settled', rfl⟩
    exact throughout_pure keeps ⟨rfl, settled'⟩
  | evict b =>
    refine (evict_spec wf settled b).bind ?_
    rintro _ fs' keeps ⟨rfl, settled'⟩
    exact throughout_pure keeps ⟨rfl, settled'⟩

theorem call_spec (wf : c.WellFormed) (settled : Settled content c fs) (op : CacheCall) :
    Throughout calm (Keeps fs (Ends c op) (Writes c.policy op)) (call c op) (fun c' fs' =>
      c'.WellFormed ∧ c'.policy = c.policy ∧ ∃ content', Settled content' c' fs') fs := by
  refine (answer_spec wf settled op).bind ?_
  rintro _ fs' keeps ⟨rfl, settled'⟩
  obtain ⟨wf', samePolicy⟩ := outcome_wellFormed wf content op
  exact throughout_pure keeps ⟨wf', samePolicy, _, settled'⟩

theorem Opened.live (opened : Opened policy now fs (.ok c) fs') (shrinks : Shrinks fs fs')
    (sourced : Sourced policy log fs) : Live policy log c fs' := by
  obtain ⟨loaded, revives, same, settled⟩ := opened
  cases same
  have evicted := Regions.evictMainLocked_evicted revives.wellFormed 0
  exact ⟨evicted.wellFormed, evicted.policy.trans revives.configured, ⟨_, settled⟩,
    sourced.shrinks shrinks⟩

/-- Every root that sessions have left is consistent. -/
theorem Reached.consistent (named : root ≠ "") (valid : policy.withDefaultKind.validate = none)
    {cache : Option DiskCache} (reached : Reached root scale policy cache fs log) :
    Consistent policy.withDefaultKind log cache fs := by
  induction reached with
  | blank =>
    refine ⟨.empty, fun x both found => ?_⟩
    rw [pair_of_no_body rfl] at found
    contradiction
  | opened _ run ih =>
    obtain ⟨tidy, sourced⟩ := ih
    obtain ⟨shrinks, opened⟩ :=
      (newDiskCache_spec named valid scale _ tidy sourced.sound).runs run
    exact opened.live shrinks sourced
  | cutOpening _ cut ih =>
    obtain ⟨tidy, sourced⟩ := ih
    have shrinks := (newDiskCache_spec named valid scale _ tidy sourced.sound).interrupted cut
    exact ⟨shrinks.tidy, sourced.shrinks shrinks⟩
  | called _ run ih =>
    obtain ⟨wf, configured, ⟨content, settled⟩, sourced⟩ := ih
    obtain ⟨keeps, wf', samePolicy, settled'⟩ := (call_spec wf settled _).runs run
    rw [configured] at keeps samePolicy
    exact ⟨wf', samePolicy, settled', sourced.keeps keeps⟩
  | cut _ cut ih =>
    obtain ⟨wf, configured, ⟨content, settled⟩, sourced⟩ := ih
    have keeps := (call_spec wf settled _).interrupted cut
    rw [configured] at keeps
    exact ⟨keeps.tidy, sourced.keeps keeps⟩

section Recovery

/-- The entry and its two files are those of one Put. -/
structure OfPut (policy : EvictionPolicy) (r : Reader) (opts : PutOptions) (t : Time) (fs : Files)
    (e : DiskEntry) : Prop where
  body : fs.look (bodyPath e.blobID) = some (.bytes r.data)
  metadata : fs.look (metaPath e.blobID) =
    some (.json (metaFile (newEntry policy e.blobID r.data.length opts t)).text)
  sizeBytes : e.sizeBytes = r.data.length
  hash : Reread opts.hash e.hash
  pinned : e.pinned = (opts.pinHot && policy.kind = .lruHotPin)
  nonEvictable : e.nonEvictable = opts.nonEvictable

/-- Why an entry of a cache that was cut off inside `op` may be missing in the cache that
was opened at `now` on the files that were left. -/
inductive Excused (c : DiskCache) (op : CacheCall) (left : Files) (now : Time)
    (reopened : DiskCache) (x : String) (e : DiskEntry) : Prop where
  | overwritten (r : Reader) (opts : PutOptions) (t : Time) (put : op = .put x (some r) opts t)
      (accepted : refusal c.policy r = none)
  | evicted (evict : op = .evict x)
  | expiredThen (t : Time) (get : op = .get x t) (late : expired e t = true)
  | expiredNow (late : expired e now = true)
  | displaced (b : String) (r : Reader) (opts : PutOptions) (t : Time)
      (put : op = .put b (some r) opts t) (accepted : refusal c.policy r = none)
      (evictable : e.nonEvictable = false)
      (dropped : x ∈ (c.makeRoom b (opts.pinHot && c.policy.kind = .lruHotPin)
        r.data.length).2.map fun el => el.value.blobID)
  | trimmed (loaded : DiskCache) (revived : Revived c.policy now left loaded)
      (fitted : reopened = (loaded.evictMainLocked 0).1) (evictable : e.nonEvictable = false)
      (dropped : x ∈ (loaded.evictMainLocked 0).2.map fun el => el.value.blobID)

/-- What a crash inside `op` leaves for the next session. -/
structure Recovered (c : DiskCache) (log : List CacheCall) (op : CacheCall) (left : Files)
    (now : Time) (reopened : DiskCache) (after : Files) : Prop where
  paired : ∀ x e, reopened.entry x = some e → e.blobID = x ∧
    ∃ r opts t, .put x (some r) opts t ∈ log ++ [op] ∧ OfPut c.policy r opts t after e
  kept : ∀ x e, c.entry x = some e → Excused c op left now reopened x e ∨
    ∃ e', reopened.entry x = some e' ∧ e'.sizeBytes = e.sizeBytes ∧ Reread e.hash e'.hash ∧
      e'.pinned = e.pinned ∧ e'.nonEvictable = e.nonEvictable
  bytesUsed : reopened.bytesUsed =
    ((reopened.hot ++ reopened.main).map fun el => el.value.sizeBytes).sum
  hotBytes : reopened.hotBytes = (reopened.hot.map fun el => el.value.sizeBytes).sum

variable {left after : Files} {reopened loaded : DiskCache} {content : String → Bytes}

theorem revived_some (sound : Sound policy left) (revives : Revived policy now left loaded)
    (found : loaded.entry x = some e) :
    ∃ data, pair left x = some (data, recorded e) ∧ (recorded e).hash = e.hash := by
  rw [revives.entry] at found
  obtain ⟨⟨data, file⟩, both, entry⟩ := Option.bind_eq_some_iff.mp found
  simp only [revived] at entry
  split at entry
  · contradiction
  · cases entry
    obtain ⟨_, hits, hash, kind⟩ := sound x data file both
    rw [recorded_warmed hits hash kind]
    exact ⟨data, both, rfl⟩

/-- An entry of the new index is that of a Put, and so are its files. -/
theorem Opened.paired (sourced : Sourced policy log left)
    (revives : Revived policy now left loaded)
    (settled : Settled (fun x => ((pair left x).map Prod.fst).getD [])
      (loaded.evictMainLocked 0).1 after)
    (found : (loaded.evictMainLocked 0).1.entry x = some e) : e.blobID = x ∧
      ∃ r opts t, .put x (some r) opts t ∈ log ∧ OfPut policy r opts t after e := by
  have evicted := Regions.evictMainLocked_evicted revives.wellFormed 0
  have named : e.blobID = x := by
    obtain ⟨_, _, _, named⟩ := (evicted.wellFormed.entry_iff x e).mp found
    exact named
  have held : loaded.entry x = some e := by
    rcases evicted.entry x with same | ⟨gone, _⟩
    · exact same ▸ found
    · rw [gone] at found
      contradiction
  obtain ⟨data, both, hash⟩ := revived_some sourced.sound revives held
  obtain ⟨op, member, writes⟩ := sourced x _ both
  refine ⟨named, ?_⟩
  cases op with
  | get => contradiction
  | evict => contradiction
  | put b r opts t =>
    obtain ⟨rfl, reader, rfl, _, written⟩ := writes
    obtain ⟨rfl, file⟩ := Prod.mk.inj written
    obtain ⟨body, metadata, _⟩ := settled.present x e found
    simp only [both, Option.map_some, Option.getD_some] at body
    refine ⟨reader, opts, t, member, ?_⟩
    rw [file] at metadata
    rw [← named] at body metadata
    have reread : e.hash = jsonText opts.hash := hash.symm.trans (congrArg MetaFile.hash file)
    exact ⟨body, metadata, congrArg MetaFile.sizeBytes file, reread ▸ reread_jsonText _,
      congrArg MetaFile.pinned file, congrArg MetaFile.nonEvictable file⟩

/-- A blob whose pair the interrupted call may have ended. -/
theorem Ends.excused (wf : c.WellFormed) (found : c.entry x = some e) (ends : Ends c op x) :
    Excused c op left now reopened x e := by
  cases op with
  | get b t =>
    obtain ⟨rfl, held, same, late⟩ := ends
    rw [found] at same
    cases same
    exact .expiredThen t rfl late
  | evict b =>
    cases ends
    exact .evicted rfl
  | put b r opts t =>
    obtain ⟨reader, rfl, _, accepted, member⟩ := ends
    by_cases own : x = b
    · subst own
      exact .overwritten reader opts t rfl accepted
    · refine .displaced b reader opts t rfl accepted ?_ member
      obtain ⟨el, inside, named⟩ := List.mem_map.mp member
      obtain ⟨present, free⟩ := (Regions.makeRoom_left wf b _ _).2 el inside
      have value : c.entry x = some el.value :=
        (wf.entry_iff x el.value).mpr ⟨el, present, rfl, named⟩
      rw [found] at value
      cases value
      rcases free with same | free
      · exact absurd (named.symm.trans same) own
      · exact free

/-- An entry that the interrupted call had nothing to do with. -/
theorem Opened.kept (wf : c.WellFormed) (configured : c.policy = policy)
    (settled : Settled content c fs) (keeps : Keeps fs (Ends c op) (Writes c.policy op) left)
    (sound : Sound policy left) (revives : Revived policy now left loaded)
    (found : c.entry x = some e) :
    Excused c op left now (loaded.evictMainLocked 0).1 x e ∨
      ∃ e', (loaded.evictMainLocked 0).1.entry x = some e' ∧ recorded e' = recorded e ∧
        (recorded e').hash = e'.hash := by
  have before := settled.pair_some found
  rcases keeps.pairs x with same | ⟨ends, _⟩ | ⟨both, writes, _⟩
  · rw [before] at same
    cases late : expired e now with
    | true => exact .inl (.expiredNow late)
    | false =>
      have alive : expired (entryOf (recorded e)) now = false := late
      have entry : loaded.entry x = some (warmed policy (entryOf (recorded e))) := by
        simp [revives.entry, same, revived, alive]
      obtain ⟨_, records, hash⟩ := revived_some sound revives entry
      rw [same] at records
      have file := (Prod.mk.inj (Option.some.inj records)).2
      have evicted := Regions.evictMainLocked_evicted revives.wellFormed 0
      rcases evicted.entry x with stays | ⟨gone, value, held, free⟩
      · exact .inr ⟨_, stays.trans entry, file.symm, hash⟩
      · rw [entry] at held
        cases held
        obtain ⟨shed, left⟩ := Regions.evictMainLocked_sheds revives.wellFormed 0
        refine .inl (.trimmed loaded (configured ▸ revives) rfl free ?_)
        have entries := left.entry revives.wellFormed evicted.wellFormed
          (fun el member => (Regions.mainShed_subset member).1) x
        rw [gone, entry] at entries
        rw [shed]
        by_contra outside
        exact Option.some_ne_none _ (entries.trans (if_neg outside)).symm
  · exact .inl (ends.excused wf found)
  · cases op with
    | get => contradiction
    | evict => contradiction
    | put b r opts t =>
      obtain ⟨rfl, reader, rfl, accepted, _⟩ := writes
      exact .inl (.overwritten reader opts t rfl accepted)

/-- After a crash inside any call of any session the cache can be opened again, and has
recovered. -/
theorem reopen_recovers (named : root ≠ "") (valid : policy.withDefaultKind.validate = none)
    (reached : Reached root scale policy (some c) fs log)
    (cut : Interrupted calm fs (call c op) left) (now : Time) :
    (∃ reply after, Runs calm left (newDiskCache root scale policy now) reply after) ∧
      ∀ reply after, Runs calm left (newDiskCache root scale policy now) reply after →
        ∃ reopened, reply = .ok reopened ∧ Recovered c log op left now reopened after := by
  refine ⟨exists_runs calm_answers _ left, ?_⟩
  intro reply after run
  obtain ⟨wf, configured, ⟨content, settled⟩, sourced⟩ := reached.consistent named valid
  have keeps := (call_spec wf settled op).interrupted cut
  have sourced' : Sourced policy.withDefaultKind (log ++ [op]) left :=
    sourced.keeps (configured ▸ keeps)
  obtain ⟨_, loaded, revives, rfl, settled'⟩ :=
    (newDiskCache_spec named valid scale now keeps.tidy sourced'.sound).runs run
  have wf' := (Regions.evictMainLocked_evicted revives.wellFormed 0).wellFormed
  refine ⟨_, rfl, ?_, ?_, wf'.bytes, wf'.hotSum⟩
  · intro x e found
    rw [configured]
    exact Opened.paired sourced' revives settled' found
  · intro x e found
    rcases Opened.kept wf configured settled keeps sourced'.sound revives found with
      excused | ⟨e', entry, same, hash⟩
    · exact .inl excused
    · have reread : e'.hash = jsonText e.hash := hash.symm.trans (congrArg MetaFile.hash same)
      exact .inr ⟨e', entry, congrArg MetaFile.sizeBytes same, reread ▸ reread_jsonText _,
        congrArg MetaFile.pinned same, congrArg MetaFile.nonEvictable same⟩

/-- Two blobs are stored, and a Put over the first is cut off when its body is in place
and its metadata is not. -/
def tornPut : Option (DiskCache × Files × Files) := do
  let (.ok c, fs) ← (newDiskCache "/cache" (fun _ _ => 4) (defaultEvictionPolicy 10) 1).run quiet {}
    | none
  let (c, fs) ← (call c (.put "aa" (some ⟨[1, 2], none⟩) { pinHot := true } 1)).run quiet fs
  let (c, fs) ← (call c (.put "bb" (some ⟨[3], none⟩) { nonEvictable := true } 2)).run quiet fs
  let left ← (call c (.put "aa" (some ⟨[9], none⟩) {} 3)).cut quiet 8 fs
  pure (c, fs, left)

theorem tornPut_reached (torn : tornPut = some (c, fs, left)) :
    Reached "/cache" (fun _ _ => 4) (defaultEvictionPolicy 10) (some c) fs
      [.put "aa" (some ⟨[1, 2], none⟩) { pinHot := true } 1,
        .put "bb" (some ⟨[3], none⟩) { nonEvictable := true } 2] ∧
      Interrupted calm fs (call c (.put "aa" (some ⟨[9], none⟩) {} 3)) left := by
  unfold tornPut at torn
  obtain ⟨⟨reply, fs₀⟩, opened, torn⟩ := Option.bind_eq_some_iff.mp torn
  cases reply with
  | error err => contradiction
  | ok c₀ =>
    obtain ⟨⟨c₁, fs₁⟩, first, torn⟩ := Option.bind_eq_some_iff.mp torn
    obtain ⟨⟨c₂, fs₂⟩, second, torn⟩ := Option.bind_eq_some_iff.mp torn
    obtain ⟨left₀, cut, torn⟩ := Option.bind_eq_some_iff.mp torn
    cases torn
    have start := Reached.blank.opened (Program.run_runs quiet_calm opened)
    have stored := start.called (Program.run_runs quiet_calm first)
    exact ⟨stored.called (Program.run_runs quiet_calm second),
      Program.cut_interrupted quiet_calm cut⟩

/-- The body without metadata is not taken for the blob, and the other blob is found. -/
theorem reopen_recovers_torn : ∃ c fs log op left reopened after,
    Reached "/cache" (fun _ _ => 4) (defaultEvictionPolicy 10) (some c) fs log ∧
      Interrupted calm fs (call c op) left ∧ left.look (bodyPath "aa") = some (.bytes [9]) ∧
      Runs calm left (newDiskCache "/cache" (fun _ _ => 4) (defaultEvictionPolicy 10) 5)
        (.ok reopened) after ∧
      Recovered c log op left 5 reopened after ∧ reopened.entry "aa" = none ∧
      (reopened.entry "bb").isSome = true := by
  have facts : tornPut.any (fun torn =>
      (newDiskCache "/cache" (fun _ _ => 4) (defaultEvictionPolicy 10) 5).returns quiet torn.2.2
        fun reopened _ => decide (torn.2.2.look (bodyPath "aa") = some (.bytes [9]) ∧
          reopened.entry "aa" = none ∧ (reopened.entry "bb").isSome = true)) = true := by
    decide +kernel
  obtain ⟨⟨c, fs, left⟩, torn, facts⟩ := (Option.any_eq_true _ _).mp facts
  obtain ⟨reopened, after, run, facts⟩ := Program.returns_runs quiet_calm facts
  obtain ⟨body, facts⟩ := of_decide_eq_true facts
  obtain ⟨reached, cut⟩ := tornPut_reached torn
  have valid : (defaultEvictionPolicy 10).withDefaultKind.validate = none := by decide +kernel
  obtain ⟨_, same, recovers⟩ := (reopen_recovers (by decide) valid reached cut 5).2 _ _ run
  cases same
  exact ⟨c, fs, _, _, left, reopened, after, reached, cut, body, run, recovers, facts⟩

/-- A blob is stored with a hash that is no text. -/
def badHash : Option (DiskCache × Files) := do
  let (.ok c, fs) ← (newDiskCache "/cache" (fun _ _ => 4) (defaultEvictionPolicy 10) 1).run quiet {}
    | none
  (call c (.put "aa" (some ⟨[1, 2], none⟩) { hash := [0xff] } 1)).run quiet fs

/-- When the root is opened again, the entry is there with another hash. -/
theorem reopen_changes_hash : ∃ c fs reopened after,
    Reached "/cache" (fun _ _ => 4) (defaultEvictionPolicy 10) (some c) fs
        [.put "aa" (some ⟨[1, 2], none⟩) { hash := [0xff] } 1] ∧
      Runs calm fs (newDiskCache "/cache" (fun _ _ => 4) (defaultEvictionPolicy 10) 2)
        (.ok reopened) after ∧
      (c.entry "aa").map DiskEntry.hash = some [0xff] ∧
      (reopened.entry "aa").map DiskEntry.hash = some (utf8 "�") := by
  have facts : badHash.any (fun stored =>
      (newDiskCache "/cache" (fun _ _ => 4) (defaultEvictionPolicy 10) 2).returns quiet stored.2
        fun reopened _ => decide ((stored.1.entry "aa").map DiskEntry.hash = some [0xff] ∧
          (reopened.entry "aa").map DiskEntry.hash = some (utf8 "�"))) = true := by
    decide +kernel
  obtain ⟨⟨c, fs⟩, stored, facts⟩ := (Option.any_eq_true _ _).mp facts
  obtain ⟨reopened, after, run, facts⟩ := Program.returns_runs quiet_calm facts
  unfold badHash at stored
  obtain ⟨⟨reply, fs₀⟩, opened, stored⟩ := Option.bind_eq_some_iff.mp stored
  cases reply with
  | error err => contradiction
  | ok c₀ =>
    have start := Reached.blank.opened (Program.run_runs quiet_calm opened)
    exact ⟨c, fs, reopened, after, start.called (Program.run_runs quiet_calm stored), run,
      of_decide_eq_true facts⟩

end Recovery

end KDrive.Hotcache.DiskCache
