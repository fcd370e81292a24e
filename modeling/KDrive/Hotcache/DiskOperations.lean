import KDrive.Hotcache.DiskCache
import KDrive.Hotcache.Pairs
import KDrive.Hotcache.RegionEviction

/-! `Get`, `Put` and `Evict` of a disk cache on a filesystem on which nothing fails. The
files and the index say the same between two calls; inside a call no blob ID ever has
the body of one Put next to the metadata of another. -/
namespace KDrive.Hotcache.DiskCache
open Go Interaction

variable {α : Type} {safe : Files → Prop} {post : α → Files → Prop} {fs fs' before : Files}
  {path : Path} {x b : String}

section Requests

variable (here : safe fs)
include here

theorem calm_remove {f : Unit → Disk α} (rest : Throughout calm safe (f ()) post (fs.unset path)) :
    Throughout calm safe (access (.remove path) >>= f) post fs := by
  refine ⟨here, ?_⟩
  rintro ⟨⟩ fs' step
  cases (step : fs' = fs.unset path)
  exact rest

variable {f : Option GoError → Disk α}

theorem calm_mkdirAll (rest : Throughout calm safe (f none) post (fs.mkdir shard)) :
    Throughout calm safe (access (.mkdirAll shard) >>= f) post fs := by
  refine ⟨here, ?_⟩
  rintro reply fs' ⟨rfl, rfl⟩
  exact rest

theorem calm_createTemp {f : Except GoError Path → Disk α}
    (rest : ∀ random, fs.look (tempPath shard b random) = none →
      Throughout calm safe (f (.ok (tempPath shard b random))) post
        (fs.set (tempPath shard b random) (.bytes []))) :
    Throughout calm safe (access (.createTemp shard b) >>= f) post fs := by
  refine ⟨here, ?_⟩
  rintro reply fs' ⟨random, fresh, rfl, rfl⟩
  exact rest random fresh

theorem calm_create (rest : Throughout calm safe (f none) post (fs.set path (.bytes []))) :
    Throughout calm safe (access (.create path) >>= f) post fs := by
  refine ⟨here, ?_⟩
  rintro reply fs' ⟨rfl, rfl⟩
  exact rest

theorem calm_write {old content : Content} (found : fs.look path = some old)
    (rest : Throughout calm safe (f none) post (fs.set path (old.append content))) :
    Throughout calm safe (access (.write path content) >>= f) post fs := by
  refine ⟨here, ?_⟩
  rintro reply fs' ⟨rfl, rfl⟩
  rw [found]
  exact rest

theorem calm_close (rest : Throughout calm safe (f none) post fs) :
    Throughout calm safe (access (.close path) >>= f) post fs := by
  refine ⟨here, ?_⟩
  rintro reply fs' ⟨rfl, rfl⟩
  exact rest

theorem calm_rename {source target : Path} {content : Content}
    (found : fs.look source = some content)
    (rest : Throughout calm safe (f none) post ((fs.unset source).set target content)) :
    Throughout calm safe (access (.rename source target) >>= f) post fs := by
  refine ⟨here, ?_⟩
  intro reply fs' step
  simp only [calm, Calm, found] at step
  obtain ⟨rfl, rfl⟩ := step
  exact rest

theorem calm_openFile {f : Except GoError Content → Disk α} {content : Content}
    (found : fs.look path = some content)
    (rest : Throughout calm safe (f (.ok content)) post fs) :
    Throughout calm safe (access (.openFile path) >>= f) post fs := by
  refine ⟨here, ?_⟩
  rintro reply fs' ⟨rfl, rfl⟩
  rw [found]
  exact rest

theorem calm_readFile {f : Except GoError Content → Disk α} {content : Content}
    (found : fs.look path = some content)
    (rest : Throughout calm safe (f (.ok content)) post fs) :
    Throughout calm safe (access (.readFile path) >>= f) post fs := by
  refine ⟨here, ?_⟩
  rintro reply fs' ⟨rfl, rfl⟩
  rw [found]
  exact rest

theorem calm_pieces {f : List Bytes → Disk α} {data : Bytes}
    (rest : ∀ pieces : List Bytes, pieces.flatten = data → Throughout calm safe (f pieces) post fs) :
    Throughout calm safe (access (.pieces data) >>= f) post fs := by
  refine ⟨here, ?_⟩
  rintro pieces fs' ⟨joined, rfl⟩
  exact rest pieces joined

theorem throughout_pure {value : α} (ends : post value fs) :
    Throughout calm safe (pure value : Disk α) post fs := ⟨here, ends⟩

end Requests

/-- The files of these blobs are gone and the others are as they were. -/
structure Cleared (ids : List String) (before after : Files) : Prop where
  dirs : after.dirs = before.dirs
  gone : ∀ id ∈ ids, after.look (bodyPath id) = none ∧ after.look (metaPath id) = none
  kept : ∀ path, (∀ id ∈ ids, path ≠ bodyPath id ∧ path ≠ metaPath id) →
    after.look path = before.look path

theorem Cleared.refl (fs : Files) : Cleared [] fs fs := ⟨rfl, by simp, fun _ _ => rfl⟩

theorem Cleared.cons {ids : List String}
    (rest : Cleared ids ((fs.unset (bodyPath x)).unset (metaPath x)) fs') :
    Cleared (x :: ids) fs fs' := by
  have first : fs'.look (bodyPath x) = none ∧ fs'.look (metaPath x) = none := by
    by_cases again : x ∈ ids
    · exact rest.gone x again
    · have other : ∀ id ∈ ids, x ≠ id := by
        rintro id member rfl
        exact again member
      rw [rest.kept (bodyPath x) (fun id member => by simpa using other id member),
        rest.kept (metaPath x) (fun id member => by simpa using other id member)]
      simp
  refine ⟨rest.dirs, ?_, ?_⟩
  · intro id member
    rcases List.mem_cons.mp member with rfl | later
    · exact first
    · exact rest.gone id later
  · intro path apart
    rw [rest.kept path fun id member => apart id (List.mem_cons_of_mem _ member)]
    obtain ⟨body, metadata⟩ := apart x List.mem_cons_self
    simp [body, metadata]

section Removal
variable {lost : String → Prop} {made : String → Bytes × MetaFile → Prop}

theorem removeFiles_spec {f : Unit → Disk α} (keeps : Keeps before lost made fs) (loses : lost x)
    (rest : Keeps before lost made ((fs.unset (bodyPath x)).unset (metaPath x)) →
      Throughout calm (Keeps before lost made) (f ()) post
        ((fs.unset (bodyPath x)).unset (metaPath x))) :
    Throughout calm (Keeps before lost made) (removeFiles x >>= f) post fs := by
  have body := keeps.unset_body loses
  have both := body.unset_meta loses
  exact calm_remove keeps (calm_remove body (rest both))

theorem removeAll_spec (gone : List (Element DiskEntry)) (keeps : Keeps before lost made fs)
    (loses : ∀ el ∈ gone, lost el.value.blobID) :
    Throughout calm (Keeps before lost made) (removeAll gone)
      (fun _ fs' => Cleared (gone.map fun el => el.value.blobID) fs fs') fs := by
  induction gone generalizing fs with
  | nil => exact throughout_pure keeps (.refl fs)
  | cons el gone ih =>
    refine removeFiles_spec keeps (loses el List.mem_cons_self) fun keeps => ?_
    refine (ih keeps fun other member => loses other (List.mem_cons_of_mem _ member)).mono
      (fun _ => id) ?_
    intro _ fs' _ cleared
    exact cleared.cons

end Removal

section Receive

/-- Why a body is not taken, if nothing else fails. -/
def refusal (policy : EvictionPolicy) (r : Reader) : Option GoError :=
  match r.failure with
  | some err => some (.wrap "hotcache: write body: %w" [] err)
  | none =>
    if 0 < policy.maxBytes ∧ policy.maxBytes < r.data.length then
      some (MemoryCache.exceedsCapacity r.data.length policy.maxBytes)
    else none

variable {tmp : Path}

theorem copyPieces_spec (temp : tmp.kind = .temp) (failure : Option GoError)
    (pieces : List Bytes) {written : Bytes} (alike : Alike before fs)
    (inside : tmp.shard ∈ fs.dirs) (found : fs.look tmp = some (.bytes written)) :
    Throughout calm (Alike before) (copyPieces tmp failure pieces) (fun err fs' => err = failure ∧
      fs'.dirs = fs.dirs ∧ fs'.look tmp = some (.bytes (written ++ pieces.flatten))) fs := by
  induction pieces generalizing fs written with
  | nil => exact throughout_pure alike ⟨rfl, rfl, by simpa using found⟩
  | cons piece pieces ih =>
    refine calm_write alike found ?_
    have next := alike.trans (.set alike.tidy temp inside (.bytes (written ++ piece)))
    have grown : (fs.set tmp (.bytes (written ++ piece))).look tmp =
        some (.bytes (written ++ piece)) := by simp
    refine (ih next inside grown).mono (fun _ => id) ?_
    rintro err fs' _ ⟨ended, dirs, whole⟩
    exact ⟨ended, dirs, by simpa using whole⟩

theorem discard_spec (temp : tmp.kind = .temp) (alike : Alike before fs) (err : GoError) :
    Throughout calm (Alike before) (discard tmp err) (fun reply _ => reply = .error err) fs :=
  calm_remove alike (throughout_pure (alike.trans (.unset alike.tidy temp)) rfl)

/-- The body is in a temporary file, or it is refused. -/
theorem receive_spec (tidy : Tidy fs) (policy : EvictionPolicy) (b : String) (r : Reader) :
    Throughout calm (Alike fs) (receive policy b r) (fun reply fs' => match reply with
      | .ok tmp => refusal policy r = none ∧ tmp.kind = .temp ∧ shardOf b ∈ fs'.dirs ∧
          fs'.look tmp = some (.bytes r.data)
      | .error err => refusal policy r = some err) fs := by
  have made := Alike.mkdir tidy (shardOf b)
  have present : shardOf b ∈ (fs.mkdir (shardOf b)).dirs := (fs.mem_mkdir _ _).mpr (.inl rfl)
  refine calm_mkdirAll (.refl tidy) (calm_createTemp made fun random fresh => ?_)
  have temp := kind_tempPath (shardOf b) b random
  have created := made.trans (.set made.tidy temp present (.bytes []))
  have blank : ((fs.mkdir (shardOf b)).set (tempPath (shardOf b) b random) (.bytes [])).look
      (tempPath (shardOf b) b random) = some (.bytes []) := by simp
  refine calm_pieces created fun pieces joined => ?_
  refine (copyPieces_spec temp r.failure pieces created present blank).bind ?_
  rintro copyErr fs' alike ⟨rfl, dirs, whole⟩
  rw [List.nil_append, joined] at whole
  refine calm_close alike ?_
  unfold refusal
  cases r.failure with
  | some err => exact (discard_spec temp alike _).mono (fun _ => id) (by rintro _ _ _ rfl; rfl)
  | none =>
    simp only
    split
    · exact (discard_spec temp alike _).mono (fun _ => id) (by rintro _ _ _ rfl; rfl)
    · exact throughout_pure alike ⟨rfl, temp, dirs ▸ present, whole⟩

end Receive

section Publish
variable {lost : String → Prop} {made : String → Bytes × MetaFile → Prop} {tmp : Path}

/-- What the code answers, and how the files of the entry are then, if they were not
there before. -/
def Published (c : DiskCache) (data : Bytes) (entry : DiskEntry) (before : Files)
    (out : Option GoError × DiskCache) (after : Files) : Prop :=
  (∀ path, path.kind ≠ .temp → path ≠ bodyPath entry.blobID → path ≠ metaPath entry.blobID →
    after.look path = before.look path) ∧
  match (metaFile entry).marshal with
  | .ok _ => out = (none, c.pushFront entry) ∧
      after.look (bodyPath entry.blobID) = some (.bytes data) ∧
      after.look (metaPath entry.blobID) = some (.json (metaFile entry).text)
  | .error err => out = (some (.wrap "hotcache: marshal meta: %w" [] err), c) ∧
      after.look (bodyPath entry.blobID) = none ∧ after.look (metaPath entry.blobID) = none

/-- The metadata file comes last and makes the pair. -/
theorem writeMeta_spec (entry : DiskEntry) {data : Bytes} (keeps : Keeps before lost made fs)
    (inside : shardOf entry.blobID ∈ fs.dirs)
    (body : fs.look (bodyPath entry.blobID) = some (.bytes data))
    (makes : made entry.blobID (data, (metaFile entry).text))
    (marshals : (metaFile entry).marshal = .ok content) :
    Throughout calm (Keeps before lost made) (writeMeta (metaPath entry.blobID) entry)
      (fun err fs' => err = none ∧
        fs'.look (metaPath entry.blobID) = some (.json (metaFile entry).text) ∧
        ∀ path, path.kind ≠ .temp → path ≠ metaPath entry.blobID →
          fs'.look path = fs.look path) fs := by
  obtain rfl := MetaFile.marshal_ok marshals
  have temp := kind_tmp (metaPath entry.blobID)
  have place : (metaPath entry.blobID).tmp.shard ∈ fs.dirs := inside
  unfold writeMeta
  rw [marshals]
  have created := keeps.alike (.set keeps.tidy temp place (.bytes []))
  have written := created.alike (.set created.tidy temp place (.json (metaFile entry).text))
  have blank : (fs.set (metaPath entry.blobID).tmp (.bytes [])).look (metaPath entry.blobID).tmp =
      some (.bytes []) := by simp
  have filled : ((fs.set (metaPath entry.blobID).tmp (.bytes [])).set (metaPath entry.blobID).tmp
      (.json (metaFile entry).text)).look (metaPath entry.blobID).tmp =
        some (.json (metaFile entry).text) := by simp
  refine calm_create keeps (calm_write created blank (calm_rename written filled ?_))
  refine throughout_pure ?_ ⟨rfl, by simp, ?_⟩
  · refine written.step ((written.tidy.unset _).set_meta inside rfl) fun x => ?_
    by_cases same : x = entry.blobID
    · subst same
      have apart : bodyPath entry.blobID ≠ (metaPath entry.blobID).tmp := path_ne (by simp)
      exact .inr (.inr ⟨_, makes, pair_eq_some.mpr ⟨by simp [apart, body], by simp⟩⟩)
    · have first : bodyPath x ≠ (metaPath entry.blobID).tmp := path_ne (by simp)
      have second : metaPath x ≠ (metaPath entry.blobID).tmp := path_ne (by simp)
      exact .inl (pair_congr (by simp [first]) (by simp [same, second]))
  · intro path kind other
    have apart : path ≠ (metaPath entry.blobID).tmp := by
      rintro rfl
      exact kind temp
    simp [apart, other]

theorem publish_spec (c : DiskCache) (entry : DiskEntry) {data : Bytes}
    (keeps : Keeps before lost made fs) (temp : tmp.kind = .temp)
    (inside : shardOf entry.blobID ∈ fs.dirs) (found : fs.look tmp = some (.bytes data))
    (noMeta : fs.look (metaPath entry.blobID) = none)
    (makes : made entry.blobID (data, (metaFile entry).text)) :
    Throughout calm (Keeps before lost made) (publish c tmp entry)
      (Published c data entry fs) fs := by
  -- With the body alone the blob has no pair yet.
  have body : Keeps before lost made
      ((fs.unset tmp).set (bodyPath entry.blobID) (.bytes data)) := by
    refine keeps.step ((keeps.tidy.unset tmp).set_body inside data) fun x => .inl ?_
    have apart : metaPath x ≠ tmp := path_ne (by simp [temp])
    by_cases same : x = entry.blobID
    · subst same
      rw [pair_of_no_meta noMeta]
      exact pair_of_no_meta (by simp [apart, noMeta])
    · have apart' : bodyPath x ≠ tmp := path_ne (by simp [temp])
      exact pair_congr (by simp [same, apart']) (by simp [apart])
  have others : ∀ path, path.kind ≠ .temp → path ≠ bodyPath entry.blobID →
      ((fs.unset tmp).set (bodyPath entry.blobID) (.bytes data)).look path = fs.look path := by
    intro path kind notBody
    have apart : path ≠ tmp := by
      rintro rfl
      exact kind temp
    simp [notBody, apart]
  refine calm_rename keeps found ?_
  unfold Published
  cases marshalled : (metaFile entry).marshal with
  | error err =>
    have clean : Keeps before lost made (((fs.unset tmp).set (bodyPath entry.blobID)
        (.bytes data)).unset (bodyPath entry.blobID)) := by
      refine body.step (body.tidy.unset _) fun x => .inl ?_
      by_cases same : x = entry.blobID
      · subst same
        have still := (others (metaPath entry.blobID) (by simp) (by simp)).trans noMeta
        rw [pair_of_no_body (by simp), pair_of_no_meta still]
      · exact pair_congr (by simp [same]) (by simp)
    unfold writeMeta
    rw [marshalled]
    refine calm_remove body (throughout_pure clean ⟨?_, rfl, by simp, ?_⟩)
    · intro path kind notBody _
      rw [Files.look_unset, if_neg notBody, others path kind notBody]
    · rw [Files.look_unset, if_neg (by simp), others _ (by simp) (by simp), noMeta]
  | ok content =>
    refine (writeMeta_spec entry body inside (by simp) makes marshalled).bind ?_
    rintro _ fs' keeps' ⟨rfl, metadata, rest⟩
    refine throughout_pure keeps' ⟨?_, rfl, ?_, metadata⟩
    · intro path kind notBody notMeta
      rw [rest path kind notMeta, others path kind notBody]
    · rw [rest _ (by simp) (by simp)]
      simp

end Publish

/-- The metadata that the files keep of an entry: hits are counted in memory only. -/
def recorded (e : DiskEntry) : MetaFile := { (metaFile e).text with hitCount := 0 }

/-- The files are those of the entries, with `content` for their bodies. -/
structure Settled (content : String → Bytes) (c : DiskCache) (fs : Files) : Prop where
  tidy : Tidy fs
  absent : ∀ x, c.entry x = none → fs.look (bodyPath x) = none ∧ fs.look (metaPath x) = none
  present : ∀ x e, c.entry x = some e → fs.look (bodyPath x) = some (.bytes (content x)) ∧
    fs.look (metaPath x) = some (.json (recorded e)) ∧ e.sizeBytes = (content x).length

section Settled
variable {content : String → Bytes} {c d : DiskCache}

section
variable (settled : Settled content c fs)
include settled

theorem Settled.pair_some (found : c.entry x = some e) :
    pair fs x = some (content x, recorded e) := by
  obtain ⟨body, metadata, _⟩ := settled.present x e found
  exact pair_eq_some.mpr ⟨body, metadata⟩

theorem Settled.alike (alike : Alike fs fs') : Settled content c fs' where
  tidy := alike.tidy
  absent x missing := by
    rw [alike.look _ (by simp), alike.look _ (by simp)]
    exact settled.absent x missing
  present x e found := by
    rw [alike.look _ (by simp), alike.look _ (by simp)]
    exact settled.present x e found

/-- Entries that differ in what a hit updates have the same files. -/
theorem Settled.touch (same : ∀ x, (d.entry x).map recorded = (c.entry x).map recorded) :
    Settled content d fs where
  tidy := settled.tidy
  absent x missing := by
    refine settled.absent x ?_
    have kept := same x
    rw [missing] at kept
    exact Option.map_eq_none_iff.mp kept.symm
  present x e found := by
    have kept := same x
    rw [found] at kept
    obtain ⟨old, held, records⟩ := Option.map_eq_some_iff.mp kept.symm
    obtain ⟨body, metadata, size⟩ := settled.present x old held
    have sizes : old.sizeBytes = e.sizeBytes := congrArg MetaFile.sizeBytes records
    rw [← records, ← sizes]
    exact ⟨body, metadata, size⟩

theorem Settled.cleared {ids : List String} (cleared : Cleared ids fs fs') (tidy : Tidy fs')
    (entry : ∀ x, d.entry x = if x ∈ ids then none else c.entry x) : Settled content d fs' := by
  have kept : ∀ x, x ∉ ids → fs'.look (bodyPath x) = fs.look (bodyPath x) ∧
      fs'.look (metaPath x) = fs.look (metaPath x) := by
    intro x other
    have apart : ∀ id ∈ ids, x ≠ id := by
      rintro id member rfl
      exact other member
    exact ⟨cleared.kept _ fun id member => by simpa using apart id member,
      cleared.kept _ fun id member => by simpa using apart id member⟩
  refine ⟨tidy, fun x missing => ?_, fun x e found => ?_⟩
  · by_cases gone : x ∈ ids
    · exact cleared.gone x gone
    · rw [entry, if_neg gone] at missing
      rw [(kept x gone).1, (kept x gone).2]
      exact settled.absent x missing
  · rw [entry] at found
    split at found
    · contradiction
    · rename_i stays
      rw [(kept x stays).1, (kept x stays).2]
      exact settled.present x e found

end

/-- What `Put` answers and leaves in memory if nothing fails. -/
def putOutcome (c : DiskCache) (b : String) (r : Option Reader) (opts : PutOptions) (now : Time) :
    Option GoError × DiskCache :=
  match validateBlobID b, r with
  | some err, _ => (some err, c)
  | none, none => (some (.new "hotcache: reader is required"), c)
  | none, some r =>
    match refusal c.policy r with
    | some err => (some err, c)
    | none =>
      let entry := newEntry c.policy b r.data.length opts now
      let room := c.makeRoom b entry.pinned entry.sizeBytes
      match (metaFile entry).marshal with
      | .error err => (some (.wrap "hotcache: marshal meta: %w" [] err), room.1)
      | .ok _ => (none, room.1.pushFront entry)

/-- The blob is written over, or evicted for room. -/
def Displaces (c : DiskCache) (b : String) (r : Option Reader) (opts : PutOptions)
    (x : String) : Prop :=
  ∃ reader, r = some reader ∧ validateBlobID b = none ∧ refusal c.policy reader = none ∧
    x ∈ (c.makeRoom b (opts.pinHot && c.policy.kind = .lruHotPin) reader.data.length).2.map
      fun el => el.value.blobID

/-- The files of the Put. -/
def Makes (c : DiskCache) (b : String) (r : Option Reader) (opts : PutOptions) (now : Time)
    (x : String) (both : Bytes × MetaFile) : Prop :=
  x = b ∧ ∃ reader, r = some reader ∧ refusal c.policy reader = none ∧
    both = (reader.data, (metaFile (newEntry c.policy b reader.data.length opts now)).text)

theorem makeRoom_entry (wf : c.WellFormed) (b : String) (pin : Bool) (incoming : Int)
    (x : String) : (c.makeRoom b pin incoming).1.entry x =
      if x ∈ (c.makeRoom b pin incoming).2.map (fun el => el.value.blobID) then none
      else c.entry x := by
  obtain ⟨left, held⟩ := Regions.makeRoom_left wf b pin incoming
  exact left.entry wf (Regions.makeRoom_roomMade wf b pin incoming).wellFormed
    (fun el member => (held el member).1) x

/-- The entry joins those that were there, if it could be published. -/
theorem Settled.published (settled : Settled content c fs) (wf : c.WellFormed)
    {entry : DiskEntry} {data : Bytes} (vacant : c.entry entry.blobID = none)
    (kind : entry.pinned = true → c.policy.kind = .lruHotPin) (fresh : entry.hits = 0)
    (size : entry.sizeBytes = data.length) (tidy : Tidy fs')
    (published : Published c data entry fs out fs') :
    out = (match (metaFile entry).marshal with
      | .error err => (some (.wrap "hotcache: marshal meta: %w" [] err), c)
      | .ok _ => (none, c.pushFront entry)) ∧
    ∃ content', Settled content' out.2 fs' ∧
      content' = if out.1 = none then Function.update content entry.blobID data else content := by
  obtain ⟨others, outcome⟩ := published
  have kept : ∀ x, x ≠ entry.blobID → fs'.look (bodyPath x) = fs.look (bodyPath x) ∧
      fs'.look (metaPath x) = fs.look (metaPath x) := by
    intro x other
    exact ⟨others _ (by simp) (by simpa using other) (by simp),
      others _ (by simp) (by simp) (by simpa using other)⟩
  cases marshalled : (metaFile entry).marshal with
  | error err =>
    simp only [marshalled] at outcome
    obtain ⟨rfl, noBody, noMeta⟩ := outcome
    refine ⟨rfl, content, ⟨tidy, fun x missing => ?_, fun x e found => ?_⟩, rfl⟩
    · by_cases same : x = entry.blobID
      · rw [same]
        exact ⟨noBody, noMeta⟩
      · rw [(kept x same).1, (kept x same).2]
        exact settled.absent x missing
    · have different : x ≠ entry.blobID := by
        rintro rfl
        rw [vacant] at found
        contradiction
      rw [(kept x different).1, (kept x different).2]
      exact settled.present x e found
  | ok marshalledTo =>
    simp only [marshalled] at outcome
    obtain ⟨rfl, body, metadata⟩ := outcome
    have pushed : ∀ x, (c.pushFront entry).entry x =
        if x = entry.blobID then some entry else c.entry x := wf.pushFront_entry vacant kind
    refine ⟨rfl, Function.update content entry.blobID data,
      ⟨tidy, fun x missing => ?_, fun x e found => ?_⟩, (if_pos rfl).symm⟩
    · rw [pushed] at missing
      split at missing
      · contradiction
      · rename_i different
        rw [(kept x different).1, (kept x different).2]
        exact settled.absent x missing
    · rw [pushed] at found
      split at found
      · rename_i same
        cases found
        have recording : recorded entry = (metaFile entry).text := by
          simp [recorded, MetaFile.text, metaFile, fresh]
        rw [same, Function.update_self, recording]
        exact ⟨body, metadata, size⟩
      · rename_i different
        rw [Function.update_of_ne different, (kept x different).1, (kept x different).2]
        exact settled.present x e found

theorem put_spec (wf : c.WellFormed) (settled : Settled content c fs) (b : String)
    (r : Option Reader) (opts : PutOptions) (now : Time) :
    Throughout calm (Keeps fs (Displaces c b r opts) (Makes c b r opts now)) (put c b r opts now)
      (fun out fs' => out = putOutcome c b r opts now ∧ ∃ content', Settled content' out.2 fs' ∧
        content' = if out.1 = none then Function.update content b ((r.map Reader.data).getD [])
          else content) fs := by
  have here : Keeps fs (Displaces c b r opts) (Makes c b r opts now) fs := .refl settled.tidy
  unfold put putOutcome
  cases valid : validateBlobID b with
  | some err => exact throughout_pure here ⟨rfl, content, settled, rfl⟩
  | none =>
    cases r with
    | none => exact throughout_pure here ⟨rfl, content, settled, rfl⟩
    | some r =>
      have received : Throughout calm
          (Keeps fs (Displaces c b (some r) opts) (Makes c b (some r) opts now))
          (receive c.policy b r) (fun reply fs' => Alike fs fs' ∧ match reply with
            | .ok tmp => refusal c.policy r = none ∧ tmp.kind = .temp ∧ shardOf b ∈ fs'.dirs ∧
                fs'.look tmp = some (.bytes r.data)
            | .error err => refusal c.policy r = some err) fs :=
        (receive_spec settled.tidy c.policy b r).mono (fun _ alike => here.alike alike)
          (fun _ _ alike outcome => ⟨alike, outcome⟩)
      refine received.bind ?_
      rintro (err | tmp) fs₁ keeps₁ ⟨alike, outcome⟩
      · simp only at outcome
        simp only [outcome]
        exact throughout_pure keeps₁ ⟨rfl, content, settled.alike alike, rfl⟩
      · obtain ⟨accepted, temp, inside, found⟩ := outcome
        simp only [accepted]
        have room := Regions.makeRoom_roomMade wf b
          (newEntry c.policy b r.data.length opts now).pinned r.data.length
        have loses : ∀ el ∈ (c.makeRoom b (newEntry c.policy b r.data.length opts now).pinned
            r.data.length).2, Displaces c b (some r) opts el.value.blobID := by
          intro el member
          exact ⟨r, rfl, valid, accepted, List.mem_map_of_mem member⟩
        refine (removeAll_spec _ keeps₁ loses).bind ?_
        intro _ fs₂ keeps₂ cleared
        have settled₂ := (settled.alike alike).cleared cleared keeps₂.tidy
          (makeRoom_entry wf b _ _)
        have still : fs₂.look tmp = some (.bytes r.data) := by
          rw [cleared.kept tmp fun id _ => ⟨path_ne (by simp [temp]), path_ne (by simp [temp])⟩]
          exact found
        refine (publish_spec _ (newEntry c.policy b r.data.length opts now) keeps₂ temp
          (cleared.dirs ▸ inside) still (settled₂.absent b room.vacant).2
          ⟨rfl, r, rfl, accepted, rfl⟩).mono (fun _ => id) ?_
        intro out fs' keeps' published
        refine settled₂.published room.wellFormed room.vacant ?_ rfl rfl keeps'.tidy published
        intro pin
        rw [room.policy]
        simp only [newEntry, Bool.and_eq_true, decide_eq_true_eq] at pin
        exact pin.2

/-- What `Get` answers and leaves in memory if nothing fails. -/
def getOutcome (content : String → Bytes) (c : DiskCache) (b : String) (now : Time) :
    Except GoError (Reader × Metadata) × DiskCache :=
  match validateBlobID b with
  | some err => (.error err, c)
  | none =>
    match c.find b with
    | none => (.error errCacheMiss, { c with stats.misses := c.stats.misses + 1 })
    | some el =>
      if expired el.value now then
        let c := c.removeLocked el
        (.error errCacheMiss, { c with stats.misses := c.stats.misses + 1 })
      else
        let c := c.touch el (hit now)
        (.ok (⟨content b, none⟩, metadata (hit now el.value)),
          { c with stats.hits := c.stats.hits + 1 })

/-- The entry of the blob is found expired. -/
def Lapses (c : DiskCache) (b : String) (now : Time) (x : String) : Prop :=
  x = b ∧ ∃ e, c.entry b = some e ∧ expired e now = true

theorem Cleared.of_removeFiles (x : String) :
    Cleared [x] fs ((fs.unset (bodyPath x)).unset (metaPath x)) :=
  (Cleared.refl _).cons

theorem Settled.removed (settled : Settled content c fs) (wf : c.WellFormed)
    {el : Element DiskEntry} (member : el ∈ c.elements)
    (entry : d.entry = (c.removeLocked el).entry) :
    Settled content d
      ((fs.unset (bodyPath el.value.blobID)).unset (metaPath el.value.blobID)) := by
  refine settled.cleared (.of_removeFiles _) ((settled.tidy.unset _).unset _) ?_
  intro x
  rw [entry, wf.removeLocked_entry member]
  simp only [List.mem_singleton]
  rfl

theorem get_spec (wf : c.WellFormed) (settled : Settled content c fs) (b : String) (now : Time) :
    Throughout calm (Keeps fs (Lapses c b now) fun _ _ => False) (get c b now)
      (fun out fs' => out = getOutcome content c b now ∧ Settled content out.2 fs') fs := by
  have here : Keeps fs (Lapses c b now) (fun _ _ => False) fs := .refl settled.tidy
  unfold get getOutcome
  cases validateBlobID b with
  | some err => exact throughout_pure here ⟨rfl, settled⟩
  | none =>
    cases held : c.find b with
    | none => exact throughout_pure here ⟨rfl, settled.touch fun _ => rfl⟩
    | some el =>
      obtain ⟨member, named⟩ := (wf.find_iff b).mp held
      have found : c.entry b = some el.value := by simp [Regions.entry, held]
      simp only
      split
      · rename_i lapsed
        have loses : Lapses c b now el.value.blobID := ⟨named, el.value, found, lapsed⟩
        refine removeFiles_spec here loses fun keeps => ?_
        exact throughout_pure keeps ⟨rfl, settled.removed wf member rfl⟩
      · refine calm_openFile here (settled.present b el.value found).1 ?_
        refine throughout_pure here ⟨rfl, settled.touch fun x => ?_⟩
        have touched := wf.touch_entry (hit now) member rfl rfl rfl x
        show ((c.touch el (hit now)).entry x).map recorded = _
        rw [touched]
        split
        · rename_i same
          rw [same, named, found]
          rfl
        · rfl

theorem evict_spec (wf : c.WellFormed) (settled : Settled content c fs) (b : String) :
    Throughout calm (Keeps fs (· = b) fun _ _ => False) (evict c b)
      (fun out fs' => out = c.vacated b ∧ Settled content out fs') fs := by
  have here : Keeps fs (· = b) (fun _ _ => False) fs := .refl settled.tidy
  unfold evict Regions.vacated
  cases held : c.find b with
  | none => exact throughout_pure here ⟨rfl, settled⟩
  | some el =>
    obtain ⟨member, named⟩ := (wf.find_iff b).mp held
    refine removeFiles_spec here named fun keeps => ?_
    exact throughout_pure keeps ⟨rfl, settled.removed wf member rfl⟩

theorem putOutcome_wellFormed (wf : c.WellFormed) (b : String) (r : Option Reader)
    (opts : PutOptions) (now : Time) :
    (putOutcome c b r opts now).2.WellFormed ∧ (putOutcome c b r opts now).2.policy = c.policy ∧
      (putOutcome c b r opts now).2.hotLimit = c.hotLimit := by
  unfold putOutcome
  cases validateBlobID b with
  | some err => exact ⟨wf, rfl, rfl⟩
  | none =>
    cases r with
    | none => exact ⟨wf, rfl, rfl⟩
    | some r =>
      simp only
      cases refusal c.policy r with
      | some err => exact ⟨wf, rfl, rfl⟩
      | none =>
        have room := Regions.makeRoom_roomMade wf b
          (newEntry c.policy b r.data.length opts now).pinned r.data.length
        simp only
        split
        · exact ⟨room.wellFormed, room.policy, room.hotLimit⟩
        · refine ⟨room.wellFormed.pushFront room.vacant fun pin => ?_, room.policy, room.hotLimit⟩
          rw [room.policy]
          simp only [Resident.pinned, newEntry, Bool.and_eq_true, decide_eq_true_eq] at pin
          exact pin.2

theorem getOutcome_wellFormed (wf : c.WellFormed) (content : String → Bytes) (b : String)
    (now : Time) : (getOutcome content c b now).2.WellFormed ∧
      (getOutcome content c b now).2.policy = c.policy ∧
      (getOutcome content c b now).2.hotLimit = c.hotLimit := by
  unfold getOutcome
  split
  · exact ⟨wf, rfl, rfl⟩
  · split
    · exact ⟨{ wf with }, rfl, rfl⟩
    · rename_i el found
      have member := ((wf.find_iff b).mp found).1
      split
      · exact ⟨{ wf.removeLocked member with }, rfl, rfl⟩
      · exact ⟨{ wf.touch (hit now) member rfl rfl rfl with }, rfl, rfl⟩

end Settled

end KDrive.Hotcache.DiskCache
