import KDrive.Hotcache.Sessions
import KDrive.Interaction.Acts

/-! A disk cache on a filesystem whose steps may fail. The cache may be opened, called, cut
off and opened again while any request fails, and its index stays well formed; a Put that
fails leaves everything as it was exactly when it has nothing to displace. -/
namespace KDrive.Hotcache
open Go Interaction

/-- The request fails. A write may have come part of the way; whether a removal failed is
not looked at. -/
def Fails (fs : Files) : (q : FileRequest) → q.Reply → Files → Prop
  | .mkdirRoot, reply, fs' | .mkdirAll _, reply, fs' | .create _, reply, fs'
  | .close _, reply, fs' | .rename .., reply, fs' => reply ≠ none ∧ fs' = fs
  | .createTemp .., reply, fs' => (∃ err, reply = .error err) ∧ fs' = fs
  | .write path _, reply, fs' => reply ≠ none ∧ (fs' = fs ∨ ∃ part,
      fs' = fs.set path (((fs.look path).getD (.bytes [])).append (.bytes part)))
  | .remove _, _, fs' => fs' = fs
  | .openFile _, reply, fs' | .readFile _, reply, fs' => (∃ err, reply = .error err) ∧ fs' = fs
  | .readRoot, reply, fs' => (∃ err, reply = .error err) ∧ fs' = fs
  | .readShard _, reply, fs' => (∃ err, reply = .error err) ∧ fs' = fs
  | .pieces _, _, _ | .range _, _, _ | .sortByStored _, _, _ => False

def faulty : Handler disk Files := fun fs q reply fs' => Calm fs q reply fs' ∨ Fails fs q reply fs'

/-- What keeps the files tidy: only temporary files are written to, and what is moved from
there has the content its new name says. -/
def Lawful (fs : Files) : FileRequest → Prop
  | .createTemp shard _ => shard ∈ fs.dirs
  | .create path | .write path _ => path.kind = .temp ∧ path.shard ∈ fs.dirs
  | .rename source target => target.shard ∈ fs.dirs ∧ ∀ content, fs.look source = some content →
      (∀ id, target.kind = .body id → target = bodyPath id ∧ ∃ data, content = .bytes data) ∧
      ∀ id, target.kind = .metadata id →
        target = metaPath id ∧ ∃ file, content = .json file ∧ file.blobID = id
  | _ => True

theorem Tidy.faulty {fs fs' : Files} {q : FileRequest} {reply : q.Reply} (tidy : Tidy fs)
    (lawful : Lawful fs q) (step : faulty fs q reply fs') : Tidy fs' := by
  cases q with
  | mkdirAll shard =>
    rcases step with ⟨_, rfl⟩ | ⟨_, rfl⟩
    · exact tidy.mkdir shard
    · exact tidy
  | createTemp shard blobID =>
    rcases step with ⟨random, _, _, rfl⟩ | ⟨_, rfl⟩
    · exact tidy.set_temp (kind_tempPath shard blobID random) lawful _
    · exact tidy
  | create path =>
    rcases step with ⟨_, rfl⟩ | ⟨_, rfl⟩
    · exact tidy.set_temp lawful.1 lawful.2 _
    · exact tidy
  | write path content =>
    rcases step with ⟨_, rfl⟩ | ⟨_, rfl | ⟨part, rfl⟩⟩
    · exact tidy.set_temp lawful.1 lawful.2 _
    · exact tidy
    · exact tidy.set_temp lawful.1 lawful.2 _
  | rename source target =>
    rcases step with done | ⟨_, rfl⟩
    · simp only [Calm] at done
      split at done
      · rename_i content found
        obtain ⟨_, rfl⟩ := done
        obtain ⟨body, metadata⟩ := lawful.2 content found
        exact (tidy.unset source).set lawful.1 body metadata
      · obtain ⟨_, rfl⟩ := done
        exact tidy
    · exact tidy
  | remove path =>
    rcases step with rfl | rfl
    · exact tidy.unset path
    · exact tidy
  | pieces | range | sortByStored =>
    obtain ⟨_, rfl⟩ := step.resolve_right id
    exact tidy
  | mkdirRoot | close | openFile | readRoot | readShard | readFile =>
    rcases step with ⟨_, rfl⟩ | ⟨_, rfl⟩ <;> exact tidy

namespace DiskCache

section Faults
variable {α : Type} {fs fs' : Files} {c : DiskCache} {tmp : Path} {post : α → Files → Prop}

variable (tidy : Tidy fs)
include tidy

theorem faulty_access {q : FileRequest} {f : q.Reply → Disk α}
    (lawful : Lawful fs q) (rest : ∀ reply fs', faulty fs q reply fs' → Tidy fs' →
      Throughout faulty Tidy (f reply) post fs') :
    Throughout faulty Tidy (access q >>= f) post fs :=
  ⟨tidy, fun reply fs' step => rest reply fs' step (tidy.faulty lawful step)⟩

theorem faulty_pure {value : α} (ends : post value fs) :
    Throughout faulty Tidy (pure value : Disk α) post fs := ⟨tidy, ends⟩

theorem faulty_error {β : Type} {ends : β → Files → Prop} (err : GoError) :
    Throughout faulty Tidy (pure (.error err) : Disk (Except GoError β))
      (fun reply fs' => ∀ value, reply = .ok value → ends value fs') fs := by
  refine ⟨tidy, fun value impossible => ?_⟩
  cases impossible

section Calls

theorem removeFiles_faulty {f : Unit → Disk α} (b : String)
    (rest : ∀ fs', Tidy fs' → fs'.dirs = fs.dirs →
      (∀ path, path.kind = .temp → fs'.look path = fs.look path) →
      Throughout faulty Tidy (f ()) post fs') :
    Throughout faulty Tidy (removeFiles b >>= f) post fs := by
  have removed : ∀ {fs fs' : Files} {path : Path} {reply : Unit}, path.kind ≠ .temp →
      faulty fs (.remove path) reply fs' → fs'.dirs = fs.dirs ∧
        ∀ other, other.kind = .temp → fs'.look other = fs.look other := by
    intro fs fs' path reply kind step
    rcases step with rfl | rfl
    · refine ⟨rfl, fun other temp => ?_⟩
      rw [Files.look_unset, if_neg]
      rintro rfl
      exact kind temp
    · exact ⟨rfl, fun _ _ => rfl⟩
  refine faulty_access tidy trivial fun _ fs₁ step₁ tidy₁ => ?_
  refine faulty_access tidy₁ trivial fun _ fs₂ step₂ tidy₂ => ?_
  obtain ⟨dirs₁, temps₁⟩ := removed (by simp) step₁
  obtain ⟨dirs₂, temps₂⟩ := removed (by simp) step₂
  refine rest fs₂ tidy₂ (dirs₂.trans dirs₁) fun path temp => ?_
  rw [temps₂ path temp, temps₁ path temp]

theorem removeAll_faulty (gone : List (Element DiskEntry)) :
    Throughout faulty Tidy (removeAll gone) (fun _ fs' => fs'.dirs = fs.dirs ∧
      ∀ path, path.kind = .temp → fs'.look path = fs.look path) fs := by
  induction gone generalizing fs with
  | nil => exact faulty_pure tidy ⟨rfl, fun _ _ => rfl⟩
  | cons el gone ih =>
    refine removeFiles_faulty tidy _ fun fs₁ tidy₁ dirs₁ temps₁ => ?_
    refine (ih tidy₁).mono (fun _ => id) ?_
    rintro _ fs₂ _ ⟨dirs₂, temps₂⟩
    refine ⟨dirs₂.trans dirs₁, fun path temp => ?_⟩
    rw [temps₂ path temp, temps₁ path temp]

/-- Whatever the copy comes to, the temporary file holds bytes. -/
theorem copyPieces_faulty (temp : tmp.kind = .temp) (inside : tmp.shard ∈ fs.dirs)
    (found : fs.look tmp = some (.bytes written)) (failure : Option GoError)
    (pieces : List Bytes) :
    Throughout faulty Tidy (copyPieces tmp failure pieces) (fun _ fs' => fs'.dirs = fs.dirs ∧
      ∃ data, fs'.look tmp = some (.bytes data)) fs := by
  induction pieces generalizing fs written with
  | nil => exact faulty_pure tidy ⟨rfl, written, found⟩
  | cons piece pieces ih =>
    refine faulty_access tidy ⟨temp, inside⟩ fun reply fs₁ step tidy₁ => ?_
    have kept : fs₁.dirs = fs.dirs ∧ ∃ data, fs₁.look tmp = some (.bytes data) := by
      rcases step with ⟨_, rfl⟩ | ⟨_, rfl | ⟨part, rfl⟩⟩
      · exact ⟨rfl, _, by simp [found, Content.append]; rfl⟩
      · exact ⟨rfl, written, found⟩
      · exact ⟨rfl, _, by simp [found, Content.append]; rfl⟩
    obtain ⟨dirs, data, grown⟩ := kept
    cases reply with
    | some err => exact faulty_pure tidy₁ ⟨dirs, data, grown⟩
    | none =>
      refine (ih tidy₁ (dirs ▸ inside) grown).mono (fun _ => id) ?_
      rintro _ fs₂ _ ⟨dirs₂, ends⟩
      exact ⟨dirs₂.trans dirs, ends⟩

theorem discard_faulty (tmp : Path) (err : GoError) :
    Throughout faulty Tidy (discard tmp err) (fun reply _ => reply = .error err) fs :=
  faulty_access tidy trivial fun _ _ _ tidy₁ => faulty_pure tidy₁ rfl

theorem receive_faulty (policy : EvictionPolicy) (b : String) (r : Reader) :
    Throughout faulty Tidy (receive policy b r) (fun reply fs' => ∀ tmp, reply = .ok tmp →
      tmp.kind = .temp ∧ shardOf b ∈ fs'.dirs ∧ ∃ data, fs'.look tmp = some (.bytes data)) fs := by
  refine faulty_access tidy trivial fun reply fs₁ step tidy₁ => ?_
  cases reply with
  | some err => exact faulty_error tidy₁ _
  | none =>
    have inside : shardOf b ∈ fs₁.dirs := by
      rcases step with ⟨_, rfl⟩ | ⟨failed, _⟩
      · exact (fs.mem_mkdir _ _).mpr (.inl rfl)
      · contradiction
    refine faulty_access tidy₁ inside fun reply fs₂ step tidy₂ => ?_
    cases reply with
    | error err => exact faulty_error tidy₂ _
    | ok tmp =>
      have never : ¬ Fails fs₁ (.createTemp (shardOf b) b) (.ok tmp) fs₂ := by
        rintro ⟨⟨_, failed⟩, _⟩
        cases failed
      obtain ⟨random, _, made, rfl⟩ := step.resolve_right never
      cases made
      have temp := kind_tempPath (shardOf b) b random
      refine faulty_access tidy₂ trivial fun pieces fs₃ step tidy₃ => ?_
      obtain ⟨_, rfl⟩ := step.resolve_right id
      refine (copyPieces_faulty tidy₃ temp inside (by simp; rfl) r.failure pieces).bind ?_
      rintro copyErr fs₄ tidy₄ ⟨dirs, holds⟩
      refine faulty_access tidy₄ trivial fun closeErr fs₅ step tidy₅ => ?_
      have same : fs₅ = fs₄ := by rcases step with ⟨_, rfl⟩ | ⟨_, rfl⟩ <;> rfl
      subst same
      have discarded : ∀ err, Throughout faulty Tidy (discard (tempPath (shardOf b) b random) err)
          (fun reply fs' => ∀ tmp, reply = .ok tmp → tmp.kind = .temp ∧ shardOf b ∈ fs'.dirs ∧
            ∃ data, fs'.look tmp = some (.bytes data)) fs₅ := by
        intro err
        refine (discard_faulty tidy₅ _ err).mono (fun _ => id) ?_
        rintro _ _ _ rfl tmp impossible
        cases impossible
      cases copyErr with
      | some err => exact discarded _
      | none =>
        cases closeErr with
        | some err => exact discarded _
        | none =>
          simp only
          split
          · exact discarded _
          · refine faulty_pure tidy₅ ?_
            rintro tmp' same
            cases same
            exact ⟨temp, dirs ▸ inside, holds⟩

theorem writeMeta_faulty (entry : DiskEntry) (inside : shardOf entry.blobID ∈ fs.dirs) :
    Throughout faulty Tidy (writeMeta (metaPath entry.blobID) entry) (fun _ _ => True) fs := by
  have temp := kind_tmp (metaPath entry.blobID)
  unfold writeMeta
  cases marshalled : (metaFile entry).marshal with
  | error err => exact faulty_pure tidy trivial
  | ok body =>
    obtain rfl := MetaFile.marshal_ok marshalled
    refine faulty_access tidy ⟨temp, inside⟩ fun reply fs₁ step tidy₁ => ?_
    cases reply with
    | some err => exact faulty_pure tidy₁ trivial
    | none =>
      obtain ⟨_, rfl⟩ := step.resolve_right fun failed => failed.1 rfl
      refine faulty_access tidy₁ ⟨temp, inside⟩ fun reply fs₂ step tidy₂ => ?_
      cases reply with
      | some err => exact faulty_pure tidy₂ trivial
      | none =>
        obtain ⟨_, rfl⟩ := step.resolve_right fun failed => failed.1 rfl
        have lawful : Lawful (((fs.set (metaPath entry.blobID).tmp (.bytes [])).set
            (metaPath entry.blobID).tmp ((((fs.set (metaPath entry.blobID).tmp (.bytes [])).look
            (metaPath entry.blobID).tmp).getD (.bytes [])).append (.json (metaFile entry).text))))
            (.rename (metaPath entry.blobID).tmp (metaPath entry.blobID)) := by
          refine ⟨inside, fun content found => ⟨fun id kind => ?_, fun id kind => ?_⟩⟩
          · rw [kind_metaPath] at kind
            contradiction
          · rw [kind_metaPath] at kind
            cases kind
            simp only [Files.look_set, if_true, Option.getD_some, Content.append,
              Option.some.injEq] at found
            exact ⟨rfl, (metaFile entry).text, found.symm, rfl⟩
        refine faulty_access tidy₂ lawful fun reply fs₃ step tidy₃ => ?_
        cases reply with
        | some err => exact faulty_access tidy₃ trivial fun _ _ _ tidy₄ => faulty_pure tidy₄ trivial
        | none => exact faulty_pure tidy₃ trivial

theorem publish_faulty (c : DiskCache) (entry : DiskEntry)
    (inside : shardOf entry.blobID ∈ fs.dirs) (found : fs.look tmp = some (.bytes data)) :
    Throughout faulty Tidy (publish c tmp entry)
      (fun out _ => out.2 = c ∨ out.2 = c.pushFront entry) fs := by
  have lawful : Lawful fs (.rename tmp (bodyPath entry.blobID)) := by
    refine ⟨inside, fun content held => ⟨fun id kind => ?_, fun id kind => ?_⟩⟩
    · rw [kind_bodyPath] at kind
      cases kind
      rw [found] at held
      cases held
      exact ⟨rfl, data, rfl⟩
    · rw [kind_bodyPath] at kind
      contradiction
  refine faulty_access tidy lawful fun reply fs₁ step tidy₁ => ?_
  cases reply with
  | some err => exact faulty_access tidy₁ trivial fun _ _ _ tidy₂ => faulty_pure tidy₂ (.inl rfl)
  | none =>
    have dirs : fs₁.dirs = fs.dirs := by
      rcases step with done | ⟨failed, _⟩
      · simp only [Calm, found] at done
        rw [done.2]
        rfl
      · contradiction
    refine (writeMeta_faulty tidy₁ entry (dirs ▸ inside)).bind ?_
    intro written fs₂ tidy₂ _
    cases written with
    | some err => exact faulty_access tidy₂ trivial fun _ _ _ tidy₃ => faulty_pure tidy₃ (.inl rfl)
    | none => exact faulty_pure tidy₂ (.inr rfl)

theorem put_faulty (wf : c.WellFormed) (b : String) (r : Option Reader)
    (opts : PutOptions) (now : Time) :
    Throughout faulty Tidy (put c b r opts now) (fun out _ => out.2.WellFormed) fs := by
  unfold put
  cases validateBlobID b with
  | some err => exact faulty_pure tidy wf
  | none =>
    cases r with
    | none => exact faulty_pure tidy wf
    | some r =>
      refine (receive_faulty tidy c.policy b r).bind ?_
      intro reply fs₁ tidy₁ received
      cases reply with
      | error err => exact faulty_pure tidy₁ wf
      | ok tmp =>
        obtain ⟨temp, inside, data, found⟩ := received tmp rfl
        have room := Regions.makeRoom_roomMade wf b
          (newEntry c.policy b r.data.length opts now).pinned r.data.length
        refine (removeAll_faulty tidy₁ _).bind ?_
        rintro _ fs₂ tidy₂ ⟨dirs, temps⟩
        refine (publish_faulty tidy₂ _ (newEntry c.policy b r.data.length opts now)
          (dirs ▸ inside) ((temps tmp temp).trans found)).mono (fun _ => id) ?_
        rintro ⟨reply, c'⟩ fs₃ _ ends
        have pinned : (newEntry c.policy b r.data.length opts now).pinned = true →
            (c.makeRoom b (newEntry c.policy b r.data.length opts now).pinned
              r.data.length).1.policy.kind = .lruHotPin := by
          intro pin
          rw [room.policy]
          simp only [newEntry, Bool.and_eq_true, decide_eq_true_eq] at pin
          exact pin.2
        rcases ends with same | pushed
        · simp only at same
          rw [same]
          exact room.wellFormed
        · simp only at pushed
          rw [pushed]
          exact room.wellFormed.pushFront room.vacant pinned

theorem get_faulty (wf : c.WellFormed) (b : String) (now : Time) :
    Throughout faulty Tidy (get c b now) (fun out _ => out.2.WellFormed) fs := by
  unfold get
  cases validateBlobID b with
  | some err => exact faulty_pure tidy wf
  | none =>
    cases found : c.find b with
    | none => exact faulty_pure tidy { wf with }
    | some el =>
      have member := ((wf.find_iff b).mp found).1
      have touched := wf.touch (hit now) member rfl rfl rfl
      simp only
      split
      · refine removeFiles_faulty tidy _ fun fs₁ tidy₁ _ _ => ?_
        exact faulty_pure tidy₁ { wf.removeLocked member with }
      · refine faulty_access tidy trivial fun reply fs₁ _ tidy₁ => ?_
        cases reply with
        | ok content => exact faulty_pure tidy₁ { touched with }
        | error err =>
          refine removeFiles_faulty tidy₁ _ fun fs₂ tidy₂ _ _ => ?_
          have inside : (⟨el.ref, hit now el.value⟩ : Element DiskEntry) ∈
              (c.touch el (hit now)).elements := by
            simp only [Regions.elements, Regions.touch]
            split <;> simp
          exact faulty_pure tidy₂ { touched.removeLocked inside with }

theorem evict_faulty (wf : c.WellFormed) (b : String) :
    Throughout faulty Tidy (evict c b) (fun out _ => out.WellFormed) fs := by
  unfold evict
  cases found : c.find b with
  | none => exact faulty_pure tidy wf
  | some el =>
    refine removeFiles_faulty tidy _ fun fs₁ tidy₁ _ _ => ?_
    exact faulty_pure tidy₁ (wf.removeLocked ((wf.find_iff b).mp found).1)

theorem call_faulty (wf : c.WellFormed) (op : CacheCall) :
    Throughout faulty Tidy (call c op) (fun c' _ => c'.WellFormed) fs := by
  have answered : Throughout faulty Tidy (answer c op) (fun out _ => out.2.WellFormed) fs := by
    cases op with
    | get b now =>
      exact (get_faulty tidy wf b now).bind fun _ _ tidy' wf' => faulty_pure tidy' wf'
    | put b r opts now =>
      exact (put_faulty tidy wf b r opts now).bind fun _ _ tidy' wf' => faulty_pure tidy' wf'
    | evict b =>
      exact (evict_faulty tidy wf b).bind fun _ _ tidy' wf' => faulty_pure tidy' wf'
  exact answered.bind fun _ _ tidy' wf' => faulty_pure tidy' wf'

end Calls

section Opening

theorem removeTemps_faulty (shard : Shard) (names : List String) :
    Throughout faulty Tidy (removeTemps shard names) (fun _ _ => True) fs := by
  induction names generalizing fs with
  | nil => exact faulty_pure tidy trivial
  | cons name names ih =>
    unfold removeTemps
    split
    · exact faulty_access tidy trivial fun _ _ _ tidy₁ => ih tidy₁
    · exact ih tidy

theorem removeBodies_faulty (shard : Shard) (ids : List String) :
    Throughout faulty Tidy (removeBodies shard ids) (fun _ _ => True) fs := by
  induction ids generalizing fs with
  | nil => exact faulty_pure tidy trivial
  | cons id ids ih => exact faulty_access tidy trivial fun _ _ _ tidy₁ => ih tidy₁

/-- A metadata file that can be read is that of the blob its name says. -/
theorem loadMeta_faulty (shard : Shard) (id : String) :
    Throughout faulty Tidy (loadMeta ⟨shard, id ++ ".meta.json"⟩) (fun reply _ => ∀ entry,
      reply = .ok entry → entry.blobID = id ∧ shardOf id = shard) fs := by
  refine faulty_access tidy trivial fun reply fs₁ step tidy₁ => ?_
  cases reply with
  | error err => exact faulty_error tidy₁ _
  | ok body =>
    cases parsed : MetaFile.unmarshal body with
    | error err =>
      simp only [parsed]
      exact faulty_error tidy₁ _
    | ok file =>
      simp only [parsed]
      refine faulty_pure tidy₁ ?_
      rintro entry same
      cases same
      rcases step with ⟨read, _⟩ | ⟨⟨_, failed⟩, _⟩
      · cases found : fs.look ⟨shard, id ++ ".meta.json"⟩ with
        | none =>
          rw [found] at read
          cases read
        | some content =>
          rw [found] at read
          cases read
          obtain ⟨placed, held, holds, named⟩ :=
            tidy.metas _ body found id (classify_metadata id)
          rw [holds] at parsed
          cases parsed
          exact ⟨named, (congrArg Path.shard placed).symm⟩
      · cases failed

theorem loadAll_faulty (shard : Shard) (bodies order : List String) :
    Throughout faulty Tidy (loadAll shard bodies order) (fun out _ =>
      (out.1.map DiskEntry.blobID).Sublist order ∧ ∀ e ∈ out.1, shardOf e.blobID = shard) fs := by
  induction order generalizing fs bodies with
  | nil => exact faulty_pure tidy ⟨.slnil, nofun⟩
  | cons id order ih =>
    have skipped : ∀ {fs : Files}, Tidy fs → Throughout faulty Tidy (loadAll shard bodies order)
        (fun out _ => (out.1.map DiskEntry.blobID).Sublist (id :: order) ∧
          ∀ e ∈ out.1, shardOf e.blobID = shard) fs := by
      intro fs tidy
      refine (ih tidy bodies).mono (fun _ kept => kept) ?_
      rintro _ _ _ ⟨listed, placed⟩
      exact ⟨listed.cons id, placed⟩
    unfold loadAll
    split
    · exact faulty_access tidy trivial fun _ _ _ tidy₁ => skipped tidy₁
    · refine (loadMeta_faulty tidy shard id).bind ?_
      intro reply fs₁ tidy₁ loaded
      cases reply with
      | error err =>
        refine faulty_access tidy₁ trivial fun _ fs₂ _ tidy₂ => ?_
        exact faulty_access tidy₂ trivial fun _ fs₃ _ tidy₃ => skipped tidy₃
      | ok entry =>
        obtain ⟨named, placed⟩ := loaded entry rfl
        refine (ih tidy₁ _).bind ?_
        rintro ⟨entries, left⟩ fs₂ tidy₂ ⟨listed, inside⟩
        refine faulty_pure tidy₂ ⟨?_, ?_⟩
        · simp only [List.map_cons, named]
          exact listed.cons_cons id
        · intro e member
          rcases List.mem_cons.mp member with rfl | later
          · rw [named]
            exact placed
          · exact inside e later

theorem readShard_faulty (root : String) (shard : Shard) :
    Throughout faulty Tidy (readShard root shard) (fun reply _ => ∀ entries, reply = .ok entries →
      (entries.map DiskEntry.blobID).Nodup ∧ ∀ e ∈ entries, shardOf e.blobID = shard) fs := by
  refine faulty_access tidy trivial fun reply fs₁ step tidy₁ => ?_
  cases reply with
  | error err => exact faulty_error tidy₁ _
  | ok names =>
    have once : names.Nodup := by
      rcases step with ⟨read, _⟩ | ⟨⟨_, failed⟩, _⟩
      · cases read
        exact fs.names_nodup shard
      · cases failed
    refine (removeTemps_faulty tidy₁ shard names).bind ?_
    intro _ fs₂ tidy₂ _
    refine faulty_access tidy₂ trivial fun order fs₃ step tidy₃ => ?_
    obtain ⟨perm, _⟩ := step.resolve_right id
    refine (loadAll_faulty tidy₃ shard _ order).bind ?_
    rintro ⟨entries, left⟩ fs₄ tidy₄ ⟨listed, inside⟩
    refine faulty_access tidy₄ trivial fun orphans fs₅ _ tidy₅ => ?_
    refine (removeBodies_faulty tidy₅ shard orphans).bind ?_
    intro _ fs₆ tidy₆ _
    refine faulty_pure tidy₆ ?_
    rintro entries' same
    cases same
    exact ⟨listed.nodup (perm.nodup_iff.mpr (metasOf_nodup once)), inside⟩

theorem readEach_faulty (root : String) (shards : List Shard) (once : shards.Nodup) :
    Throughout faulty Tidy (readEach root shards) (fun reply _ => ∀ entries, reply = .ok entries →
      (entries.map DiskEntry.blobID).Nodup ∧ ∀ e ∈ entries, shardOf e.blobID ∈ shards) fs := by
  induction shards generalizing fs with
  | nil =>
    refine faulty_pure tidy ?_
    rintro entries same
    cases same
    exact ⟨List.nodup_nil, nofun⟩
  | cons shard shards ih =>
    obtain ⟨fresh, once⟩ := List.nodup_cons.mp once
    refine (readShard_faulty tidy root shard).bind ?_
    intro reply fs₁ tidy₁ first
    cases reply with
    | error err => exact faulty_error tidy₁ _
    | ok entries =>
      obtain ⟨distinct, here⟩ := first entries rfl
      refine (ih tidy₁ once).bind ?_
      intro reply fs₂ tidy₂ later
      cases reply with
      | error err => exact faulty_error tidy₂ _
      | ok more =>
        obtain ⟨distinct', there⟩ := later more rfl
        refine faulty_pure tidy₂ ?_
        rintro all same
        cases same
        constructor
        · rw [List.map_append]
          refine List.nodup_append'.mpr ⟨distinct, distinct', ?_⟩
          intro id inFirst inLater
          obtain ⟨e, member, rfl⟩ := List.mem_map.mp inFirst
          obtain ⟨e', member', same⟩ := List.mem_map.mp inLater
          have placed := there e' member'
          rw [same, here e member] at placed
          exact fresh placed
        · intro e member
          rcases List.mem_append.mp member with inFirst | inLater
          · exact List.mem_cons.mpr (.inl (here e inFirst))
          · exact List.mem_cons_of_mem _ (there e inLater)

theorem load_faulty (now : Time) (wf : c.WellFormed) (list : List DiskEntry)
    (once : (list.map DiskEntry.blobID).Nodup) (vacant : ∀ e ∈ list, c.entry e.blobID = none) :
    Throughout faulty Tidy (load now c list) (fun c' _ => c'.WellFormed) fs := by
  induction list generalizing c fs with
  | nil => exact faulty_pure tidy wf
  | cons e list ih =>
    obtain ⟨fresh, once⟩ := List.nodup_cons.mp once
    unfold load
    split
    · refine removeFiles_faulty tidy _ fun fs₁ tidy₁ _ _ => ?_
      exact ih tidy₁ wf once fun other member => vacant other (List.mem_cons_of_mem _ member)
    · have kind : (warmed c.policy e).pinned = true → c.policy.kind = .lruHotPin := by
        intro pin
        simp only [warmed, Bool.and_eq_true, decide_eq_true_eq] at pin
        exact pin.2
      have free : c.entry (warmed c.policy e).blobID = none := vacant e List.mem_cons_self
      refine ih tidy (wf.pushFront free kind) once fun other member => ?_
      have different : other.blobID ≠ (warmed c.policy e).blobID := by
        intro same
        exact fresh (same ▸ List.mem_map_of_mem member)
      have pushed := wf.pushFront_entry free kind other.blobID
      rw [pushed]
      exact (if_neg different).trans (vacant other (List.mem_cons_of_mem _ member))

theorem readShards_faulty (root : String) :
    Throughout faulty Tidy (readShards root) (fun reply _ => ∀ entries, reply = .ok entries →
      (entries.map DiskEntry.blobID).Nodup) fs := by
  refine faulty_access tidy trivial fun reply fs₁ step tidy₁ => ?_
  cases reply with
  | error err =>
    simp only
    split
    · refine faulty_pure tidy₁ ?_
      rintro entries same
      cases same
      exact List.nodup_nil
    · exact faulty_error tidy₁ _
  | ok shards =>
    have once : shards.Nodup := by
      rcases step with ⟨read, _⟩ | ⟨⟨_, failed⟩, _⟩
      · cases read
        exact tidy.shards
      · cases failed
    refine (readEach_faulty tidy₁ root shards once).mono (fun _ => id) ?_
    intro reply _ _ found entries same
    exact (found entries same).1

theorem warm_faulty (root : String) (now : Time) (wf : c.WellFormed)
    (vacant : ∀ x, c.entry x = none) :
    Throughout faulty Tidy (warm root now c) (fun reply _ => ∀ c', reply = .ok c' → c'.WellFormed)
      fs := by
  refine (readShards_faulty tidy root).bind ?_
  intro reply fs₁ tidy₁ found
  cases reply with
  | error err => exact faulty_error tidy₁ _
  | ok entries =>
    refine faulty_access tidy₁ trivial fun sorted fs₂ step tidy₂ => ?_
    obtain ⟨⟨perm, _⟩, _⟩ := step.resolve_right id
    have once := (perm.map DiskEntry.blobID).nodup_iff.mpr (found entries rfl)
    refine (load_faulty tidy₂ now wf sorted once fun e _ => vacant e.blobID).bind ?_
    intro loaded fs₃ tidy₃ wf'
    refine (removeAll_faulty tidy₃ _).bind ?_
    intro _ fs₄ tidy₄ _
    refine faulty_pure tidy₄ ?_
    rintro c same
    cases same
    exact (Regions.evictMainLocked_evicted wf' 0).wellFormed

theorem newDiskCache_faulty (root : String) (scale : Int → ℚ → Int)
    (policy : EvictionPolicy) (now : Time) :
    Throughout faulty Tidy (newDiskCache root scale policy now)
      (fun reply _ => ∀ c, reply = .ok c → c.WellFormed) fs := by
  unfold newDiskCache
  split
  · exact faulty_error tidy _
  · simp only
    cases policy.withDefaultKind.validate with
    | some err => exact faulty_error tidy _
    | none =>
      refine faulty_access tidy trivial fun reply fs₁ _ tidy₁ => ?_
      cases reply with
      | some err => exact faulty_error tidy₁ _
      | none => exact warm_faulty tidy₁ root now (Regions.empty_wellFormed _ _) fun _ => rfl

end Opening
end Faults

/-- What sessions on one root can leave when any request may fail. -/
inductive Visited (root : String) (scale : Int → ℚ → Int) (policy : EvictionPolicy) :
    Option DiskCache → Files → Prop where
  | blank : Visited root scale policy none {}
  | opened : Visited root scale policy none fs →
      Runs faulty fs (newDiskCache root scale policy now) (.ok c) fs' →
      Visited root scale policy (some c) fs'
  | cutOpening : Visited root scale policy none fs →
      Interrupted faulty fs (newDiskCache root scale policy now) fs' →
      Visited root scale policy none fs'
  | called : Visited root scale policy (some c) fs → Runs faulty fs (call c op) c' fs' →
      Visited root scale policy (some c') fs'
  | cut : Visited root scale policy (some c) fs → Interrupted faulty fs (call c op) fs' →
      Visited root scale policy none fs'

theorem Visited.wellFormed {cache : Option DiskCache}
    (visited : Visited root scale policy cache fs) :
    Tidy fs ∧ ∀ c, cache = some c → c.WellFormed := by
  have closed : ∀ c : DiskCache, none = some c → c.WellFormed := by
    intro c impossible
    cases impossible
  induction visited with
  | blank => exact ⟨.empty, closed⟩
  | opened _ run ih =>
    obtain ⟨tidy, wf⟩ := (newDiskCache_faulty ih.1 root scale policy _).runs run
    refine ⟨tidy, ?_⟩
    rintro c same
    cases same
    exact wf _ rfl
  | cutOpening _ cut ih =>
    exact ⟨(newDiskCache_faulty ih.1 root scale policy _).interrupted cut, closed⟩
  | called _ run ih =>
    obtain ⟨tidy, wf⟩ := (call_faulty ih.1 (ih.2 _ rfl) _).runs run
    refine ⟨tidy, ?_⟩
    rintro c same
    cases same
    exact wf
  | cut _ cut ih => exact ⟨(call_faulty ih.1 (ih.2 _ rfl) _).interrupted cut, closed⟩

end DiskCache
end KDrive.Hotcache
