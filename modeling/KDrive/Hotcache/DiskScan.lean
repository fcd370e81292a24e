import KDrive.Hotcache.DiskOperations

/-! The scan of the shards. Whatever a crash left, it finds every pair of a body and its
metadata once, and takes away what belongs to no pair. -/
namespace KDrive.Hotcache.DiskCache
open Go Interaction

/-- The entry `loadMeta` makes of a metadata file. -/
def entryOf (m : MetaFile) : DiskEntry :=
  { blobID := m.blobID, sizeBytes := m.sizeBytes, hash := m.hash, storedAt := m.storedAt,
    expiresAt := m.expiresAt, pinned := m.pinned, nonEvictable := m.nonEvictable,
    hits := m.hitCount }

/-- No pair has come or gone. -/
abbrev Stable (before after : Files) : Prop :=
  Keeps before (fun _ => False) (fun _ _ => False) after

variable {α : Type} {safe : Files → Prop} {post : α → Files → Prop} {fs fs' before : Files}
  {x : String} {shard : Shard}

section Requests

theorem calm_readShard {f : Except GoError (List String) → Disk α} (here : safe fs)
    (rest : Throughout calm safe (f (.ok (fs.names shard))) post fs) :
    Throughout calm safe (access (.readShard shard) >>= f) post fs := by
  refine ⟨here, ?_⟩
  rintro reply fs' ⟨rfl, rfl⟩
  exact rest

theorem calm_readRoot {f : Except GoError (List Shard) → Disk α} (here : safe fs)
    (rest : Throughout calm safe (f (.ok fs.dirs)) post fs) :
    Throughout calm safe (access .readRoot >>= f) post fs := by
  refine ⟨here, ?_⟩
  rintro reply fs' ⟨rfl, rfl⟩
  exact rest

theorem calm_range {f : List String → Disk α} {keys : List String} (here : safe fs)
    (rest : ∀ order : List String, order.Perm keys → Throughout calm safe (f order) post fs) :
    Throughout calm safe (access (.range keys) >>= f) post fs := by
  refine ⟨here, ?_⟩
  rintro order fs' ⟨perm, rfl⟩
  exact rest order perm

theorem calm_sortByStored {f : List DiskEntry → Disk α} {entries : List DiskEntry}
    (here : safe fs)
    (rest : ∀ sorted : List DiskEntry, sorted.Perm entries → Throughout calm safe (f sorted) post fs) :
    Throughout calm safe (access (.sortByStored entries) >>= f) post fs := by
  refine ⟨here, ?_⟩
  rintro sorted fs' ⟨⟨perm, _⟩, rfl⟩
  exact rest sorted perm

end Requests

section Stable

theorem Stable.pair (stable : Stable before fs) (x : String) : pair fs x = pair before x := by
  rcases stable.pairs x with same | ⟨impossible, _⟩ | ⟨_, impossible, _⟩
  · exact same
  · exact impossible.elim
  · exact impossible.elim

/-- A file whose partner is missing is in no pair. -/
theorem Stable.unset_meta (stable : Stable before fs) (orphan : fs.look (bodyPath x) = none) :
    Stable before (fs.unset (metaPath x)) := by
  refine stable.step (stable.tidy.unset _) fun other => .inl ?_
  by_cases same : other = x
  · subst same
    rw [pair_of_no_body orphan, pair_of_no_body (by simpa using orphan)]
  · exact pair_congr (by simp) (by simp [same])

theorem Stable.unset_body (stable : Stable before fs) (orphan : fs.look (metaPath x) = none) :
    Stable before (fs.unset (bodyPath x)) := by
  refine stable.step (stable.tidy.unset _) fun other => .inl ?_
  by_cases same : other = x
  · subst same
    rw [pair_of_no_meta orphan, pair_of_no_meta (by simpa using orphan)]
  · exact pair_congr (by simp [same]) (by simp)

end Stable

section Names

theorem mem_bodiesOf (names : List String) : x ∈ bodiesOf names ↔ x ++ ".bin" ∈ names := by
  simp only [bodiesOf, List.mem_filterMap]
  constructor
  · rintro ⟨name, member, found⟩
    split at found
    · rename_i blobID kind
      cases found
      rwa [← eq_of_classify_body kind]
    · contradiction
  · intro member
    exact ⟨_, member, by rw [classify_body]⟩

theorem mem_metasOf (names : List String) : x ∈ metasOf names ↔ x ++ ".meta.json" ∈ names := by
  simp only [metasOf, List.mem_filterMap]
  constructor
  · rintro ⟨name, member, found⟩
    split at found
    · rename_i blobID kind
      cases found
      rwa [← eq_of_classify_metadata kind]
    · contradiction
  · intro member
    exact ⟨_, member, by rw [classify_metadata]⟩

theorem metasOf_nodup {names : List String} (once : names.Nodup) : (metasOf names).Nodup := by
  refine once.filterMap ?_
  intro first second x inFirst inSecond
  simp only [Option.mem_def] at inFirst inSecond
  split at inFirst
  · rename_i _ kind
    cases inFirst
    split at inSecond
    · rename_i _ kind'
      cases inSecond
      rw [eq_of_classify_metadata kind, eq_of_classify_metadata kind']
    · contradiction
  · contradiction

/-- In a tidy directory, the name of a body file tells its path. -/
theorem mem_bodies_names (tidy : Tidy fs) : x ∈ bodiesOf (fs.names shard) ↔
    shardOf x = shard ∧ (fs.look (bodyPath x)).isSome := by
  rw [mem_bodiesOf, Files.mem_names]
  constructor
  · intro some
    obtain ⟨content, found⟩ := Option.isSome_iff_exists.mp some
    have placed := (tidy.bodies _ content found x (classify_body x)).1
    rw [placed] at some
    exact ⟨(congrArg Path.shard placed).symm, some⟩
  · rintro ⟨rfl, some⟩
    exact some

theorem mem_metas_names (tidy : Tidy fs) : x ∈ metasOf (fs.names shard) ↔
    shardOf x = shard ∧ (fs.look (metaPath x)).isSome := by
  rw [mem_metasOf, Files.mem_names]
  constructor
  · intro some
    obtain ⟨content, found⟩ := Option.isSome_iff_exists.mp some
    have placed := (tidy.metas _ content found x (classify_metadata x)).1
    rw [placed] at some
    exact ⟨(congrArg Path.shard placed).symm, some⟩
  · rintro ⟨rfl, some⟩
    exact some

end Names

section Loops

theorem removeTemps_spec (shard : Shard) (names : List String) (alike : Alike before fs) :
    Throughout calm (Alike before) (removeTemps shard names) (fun _ fs' => fs'.dirs = fs.dirs) fs := by
  induction names generalizing fs with
  | nil => exact throughout_pure alike rfl
  | cons name names ih =>
    unfold removeTemps
    by_cases temp : classify name = .temp
    · simp only [temp, if_true]
      have kind : (Path.mk shard name).kind = .temp := temp
      refine calm_remove alike ?_
      exact ih (alike.trans (.unset alike.tidy kind))
    · simp only [temp, if_false]
      exact ih alike

/-- What the loop over the metadata files finds and leaves. -/
structure Loaded (order bodies : List String) (before : Files) (entries : List DiskEntry)
    (left : List String) (after : Files) : Prop where
  dirs : after.dirs = before.dirs
  mem : ∀ e, e ∈ entries ↔
    ∃ id ∈ order, ∃ data file, pair before id = some (data, file) ∧ e = entryOf file
  ids : (entries.map DiskEntry.blobID).Sublist order
  left : ∀ id, id ∈ left ↔ id ∈ bodies ∧ id ∉ order
  gone : ∀ id ∈ order, id ∉ bodies → after.look (metaPath id) = none
  kept : ∀ path, (∀ id ∈ order, id ∉ bodies → path ≠ metaPath id) →
    after.look path = before.look path

/-- A metadata file without a body is taken away. -/
theorem Loaded.bare {id : String} {order bodies left : List String} {entries : List DiskEntry}
    (fresh : id ∉ order) (bare : id ∉ bodies) (noBody : fs.look (bodyPath id) = none)
    (rest : Loaded order bodies (fs.unset (metaPath id)) entries left fs') :
    Loaded (id :: order) bodies fs entries left fs' := by
  have apart : ∀ other ∈ order, other ≠ id := by
    rintro other member rfl
    exact fresh member
  have same : ∀ other ∈ order, pair (fs.unset (metaPath id)) other = pair fs other :=
    fun other member => pair_congr (by simp) (by simp [apart other member])
  refine ⟨rest.dirs, ?_, rest.ids.cons id, ?_, ?_, ?_⟩
  · intro e
    rw [rest.mem]
    constructor
    · rintro ⟨other, member, data, file, found, rfl⟩
      exact ⟨other, List.mem_cons_of_mem _ member, data, file, same other member ▸ found, rfl⟩
    · rintro ⟨other, member, data, file, found, rfl⟩
      rcases List.mem_cons.mp member with rfl | later
      · rw [pair_of_no_body noBody] at found
        contradiction
      · exact ⟨other, later, data, file, (same other later).trans found, rfl⟩
  · intro other
    rw [rest.left, List.mem_cons, not_or]
    constructor
    · rintro ⟨inside, outside⟩
      refine ⟨inside, ?_, outside⟩
      rintro rfl
      exact bare inside
    · rintro ⟨inside, _, outside⟩
      exact ⟨inside, outside⟩
  · intro other member without
    rcases List.mem_cons.mp member with rfl | later
    · rw [rest.kept _ fun id' inside _ => by simpa using (apart id' inside).symm]
      simp
    · exact rest.gone other later without
  · intro path others
    rw [rest.kept path fun id' inside => others id' (List.mem_cons_of_mem _ inside)]
    simp [others id List.mem_cons_self bare]

/-- A pair gives an entry. -/
theorem Loaded.found {id : String} {order bodies left : List String} {entries : List DiskEntry}
    {data : Bytes} {file : MetaFile} (fresh : id ∉ order) (inside : id ∈ bodies)
    (both : pair fs id = some (data, file)) (named : file.blobID = id)
    (rest : Loaded order (bodies.filter (· ≠ id)) fs entries left fs') :
    Loaded (id :: order) bodies fs (entryOf file :: entries) left fs' := by
  have apart : ∀ other ∈ order, other ≠ id := by
    rintro other member rfl
    exact fresh member
  have listed : ∀ other ∈ order, other ∈ bodies.filter (· ≠ id) ↔ other ∈ bodies := by
    intro other member
    simp [apart other member]
  refine ⟨rest.dirs, ?_, ?_, ?_, ?_, ?_⟩
  · intro e
    rw [List.mem_cons, rest.mem]
    constructor
    · rintro (rfl | ⟨other, member, others⟩)
      · exact ⟨id, List.mem_cons_self, data, file, both, rfl⟩
      · exact ⟨other, List.mem_cons_of_mem _ member, others⟩
    · rintro ⟨other, member, data', file', found, rfl⟩
      rcases List.mem_cons.mp member with rfl | later
      · cases both.symm.trans found
        exact .inl rfl
      · exact .inr ⟨other, later, data', file', found, rfl⟩
  · have own : (entryOf file).blobID = id := named
    rw [List.map_cons, own]
    exact rest.ids.cons_cons id
  · intro other
    rw [rest.left, List.mem_filter, List.mem_cons, not_or]
    simp [and_assoc]
  · intro other member without
    rcases List.mem_cons.mp member with rfl | later
    · exact absurd inside without
    · exact rest.gone other later fun member => without ((listed other later).mp member)
  · intro path others
    refine rest.kept path fun other member without => ?_
    exact others other (List.mem_cons_of_mem _ member) fun member' =>
      without ((listed other member).mpr member')

theorem loadMeta_spec {path : Path} {file : MetaFile} (here : safe fs)
    (found : fs.look path = some (.json file)) :
    Throughout calm safe (loadMeta path) (fun reply fs' => reply = .ok (entryOf file) ∧ fs' = fs)
      fs :=
  calm_readFile here found (throughout_pure here ⟨rfl, rfl⟩)

theorem loadAll_spec (shard : Shard) (order bodies : List String) (once : order.Nodup)
    (stable : Stable before fs)
    (metas : ∀ id ∈ order, shardOf id = shard ∧ (fs.look (metaPath id)).isSome)
    (bodied : ∀ id ∈ order, id ∈ bodies ↔ (fs.look (bodyPath id)).isSome) :
    Throughout calm (Stable before) (loadAll shard bodies order)
      (fun out fs' => Loaded order bodies fs out.1 out.2 fs') fs := by
  induction order generalizing fs bodies with
  | nil =>
    refine throughout_pure stable ⟨rfl, by simp, List.Sublist.refl _, by simp, by simp, ?_⟩
    intro path _
    rfl
  | cons id order ih =>
    obtain ⟨fresh, once⟩ := List.nodup_cons.mp once
    obtain ⟨rfl, present⟩ := metas id List.mem_cons_self
    have apart : ∀ other ∈ order, other ≠ id := by
      rintro other member rfl
      exact fresh member
    obtain ⟨metadata, found⟩ := Option.isSome_iff_exists.mp present
    obtain ⟨-, file, rfl, named⟩ := stable.tidy.metas _ metadata found id (by simp)
    unfold loadAll
    by_cases bare : id ∉ bodies
    · have orphan : fs.look (bodyPath id) = none := by
        rw [bodied id List.mem_cons_self] at bare
        simpa using bare
      rw [if_pos bare]
      refine calm_remove stable ?_
      refine (ih bodies once (stable.unset_meta orphan) ?_ ?_).mono (fun _ holds => holds) ?_
      · intro other member
        have held := metas other (List.mem_cons_of_mem _ member)
        rw [Files.look_unset, if_neg (by simpa using apart other member)]
        exact held
      · intro other member
        rw [Files.look_unset, if_neg (by simp)]
        exact bodied other (List.mem_cons_of_mem _ member)
      · intro out fs' _ loaded
        exact loaded.bare fresh bare orphan
    · rw [if_neg bare]
      have inside := not_not.mp bare
      obtain ⟨content, body⟩ := Option.isSome_iff_exists.mp
        ((bodied id List.mem_cons_self).mp inside)
      obtain ⟨-, data, rfl⟩ := stable.tidy.bodies _ content body id (by simp)
      refine (loadMeta_spec stable found).bind ?_
      rintro _ _ _ ⟨rfl, rfl⟩
      refine (ih (bodies.filter (· ≠ id)) once stable ?_ ?_).bind ?_
      · exact fun other member => metas other (List.mem_cons_of_mem _ member)
      · intro other member
        rw [← bodied other (List.mem_cons_of_mem _ member)]
        simp [apart other member]
      · rintro ⟨entries, left⟩ fs' stable' loaded
        exact throughout_pure stable'
          (loaded.found fresh inside (pair_eq_some.mpr ⟨body, found⟩) named)

theorem removeBodies_spec (shard : Shard) (orphans : List String) (stable : Stable before fs)
    (alone : ∀ id ∈ orphans, shardOf id = shard ∧ fs.look (metaPath id) = none) :
    Throughout calm (Stable before) (removeBodies shard orphans) (fun _ fs' =>
      fs'.dirs = fs.dirs ∧ (∀ id ∈ orphans, fs'.look (bodyPath id) = none) ∧
      ∀ path, (∀ id ∈ orphans, path ≠ bodyPath id) → fs'.look path = fs.look path) fs := by
  induction orphans generalizing fs with
  | nil => exact throughout_pure stable ⟨rfl, by simp, fun _ _ => rfl⟩
  | cons id orphans ih =>
    obtain ⟨rfl, noMeta⟩ := alone id List.mem_cons_self
    refine calm_remove stable ?_
    refine (ih (stable.unset_body noMeta) ?_).mono (fun _ holds => holds) ?_
    · intro other member
      rw [Files.look_unset, if_neg (by simp)]
      exact alone other (List.mem_cons_of_mem _ member)
    · rintro _ fs' _ ⟨dirs, gone, kept⟩
      refine ⟨dirs, ?_, ?_⟩
      · intro other member
        by_cases later : other ∈ orphans
        · exact gone other later
        · obtain rfl := (List.mem_cons.mp member).resolve_right later
          rw [kept _ fun id' inside => ?_]
          · exact (Files.look_unset ..).trans (if_pos rfl)
          · rintro same
            rw [bodyPath_inj] at same
            exact later (same ▸ inside)
      · intro path others
        rw [kept path fun id' inside => others id' (List.mem_cons_of_mem _ inside),
          Files.look_unset, if_neg (others id List.mem_cons_self)]

end Loops

/-- The pairs of these shards were found, once each, and nothing else is left of them. -/
structure Scanned (shards : List Shard) (before : Files) (entries : List DiskEntry)
    (after : Files) : Prop where
  dirs : after.dirs = before.dirs
  mem : ∀ e, e ∈ entries ↔ ∃ x, shardOf x ∈ shards ∧
    ∃ data file, pair before x = some (data, file) ∧ e = entryOf file
  once : (entries.map DiskEntry.blobID).Nodup
  orphans : ∀ x, shardOf x ∈ shards → pair before x = none →
    after.look (bodyPath x) = none ∧ after.look (metaPath x) = none
  kept : ∀ path, path.kind ≠ .temp → path.shard ∉ shards → after.look path = before.look path

/-- A blob without a pair lacks one of its files. -/
theorem missing_of_pair_none (tidy : Tidy fs) (alone : pair fs x = none) :
    fs.look (bodyPath x) = none ∨ fs.look (metaPath x) = none := by
  cases body : fs.look (bodyPath x) with
  | none => exact .inl rfl
  | some content =>
    cases metadata : fs.look (metaPath x) with
    | none => exact .inr rfl
    | some content' =>
      obtain ⟨-, data, rfl⟩ := tidy.bodies _ content body x (by simp)
      obtain ⟨-, file, rfl, -⟩ := tidy.metas _ content' metadata x (by simp)
      rw [pair_eq_some.mpr ⟨body, metadata⟩] at alone
      contradiction

theorem readShard_spec (root : String) (shard : Shard) (stable : Stable before fs) :
    Throughout calm (Stable before) (readShard root shard) (fun reply fs' =>
      ∃ entries, reply = .ok entries ∧ Scanned [shard] fs entries fs') fs := by
  refine calm_readShard stable ?_
  have temps : Throughout calm (Stable before) (removeTemps shard (fs.names shard))
      (fun _ fs' => Alike fs fs' ∧ fs'.dirs = fs.dirs) fs :=
    (removeTemps_spec shard _ (.refl stable.tidy)).mono (fun _ alike => stable.alike alike)
      fun _ _ alike dirs => ⟨alike, dirs⟩
  refine temps.bind ?_
  rintro _ fs₁ stable₁ ⟨alike, dirs₁⟩
  refine calm_range stable₁ fun order perm => ?_
  have look : ∀ path, path.kind ≠ .temp → fs₁.look path = fs.look path := alike.look
  have metas : ∀ id ∈ order, shardOf id = shard ∧ (fs₁.look (metaPath id)).isSome := by
    intro id member
    rw [look _ (by simp)]
    exact (mem_metas_names stable.tidy).mp (perm.mem_iff.mp member)
  have bodied : ∀ id ∈ order, id ∈ bodiesOf (fs.names shard) ↔
      (fs₁.look (bodyPath id)).isSome := by
    intro id member
    rw [look _ (by simp), mem_bodies_names stable.tidy]
    simp [(metas id member).1]
  have once : order.Nodup := perm.nodup_iff.mpr (metasOf_nodup (fs.names_nodup shard))
  refine (loadAll_spec shard order _ once stable₁ metas bodied).bind ?_
  rintro ⟨entries, left⟩ fs₂ stable₂ loaded
  refine calm_range stable₂ fun orphans perm' => ?_
  have ordered : ∀ id, id ∈ order ↔ shardOf id = shard ∧ (fs.look (metaPath id)).isSome :=
    fun id => perm.mem_iff.trans (mem_metas_names stable.tidy)
  have bodies : ∀ id, id ∈ bodiesOf (fs.names shard) ↔
      shardOf id = shard ∧ (fs.look (bodyPath id)).isSome := fun id => mem_bodies_names stable.tidy
  have leftOver : ∀ id, id ∈ orphans ↔ id ∈ bodiesOf (fs.names shard) ∧ id ∉ order :=
    fun id => perm'.mem_iff.trans (loaded.left id)
  have unpaired : ∀ id, id ∉ order → shardOf id = shard → fs₂.look (metaPath id) = none := by
    intro id outside here
    have apart : ∀ id' ∈ order, id' ∉ bodiesOf (fs.names shard) → metaPath id ≠ metaPath id' := by
      rintro id' inside _ same
      rw [metaPath_inj] at same
      exact outside (same ▸ inside)
    rw [loaded.kept _ apart, look _ (by simp)]
    rw [ordered] at outside
    simpa [here] using outside
  have alone : ∀ id ∈ orphans, shardOf id = shard ∧ fs₂.look (metaPath id) = none := by
    intro id member
    obtain ⟨inside, outside⟩ := (leftOver id).mp member
    have here := ((bodies id).mp inside).1
    exact ⟨here, unpaired id outside here⟩
  refine (removeBodies_spec shard orphans stable₂ alone).bind ?_
  rintro _ fs₃ stable₃ ⟨dirs₃, gone, kept⟩
  refine throughout_pure stable₃ ⟨entries, rfl, ?_, ?_, ?_, ?_, ?_⟩
  · rw [dirs₃, loaded.dirs, dirs₁]
  · intro e
    rw [loaded.mem]
    constructor
    · rintro ⟨id, member, data, file, found, rfl⟩
      rw [alike.pair] at found
      exact ⟨id, List.mem_singleton.mpr (metas id member).1, data, file, found, rfl⟩
    · rintro ⟨id, here, data, file, found, rfl⟩
      have some : (fs.look (metaPath id)).isSome := by simp [(pair_eq_some.mp found).2]
      rw [← alike.pair] at found
      exact ⟨id, (ordered id).mpr ⟨List.mem_singleton.mp here, some⟩, data, file, found, rfl⟩
  · exact once.sublist loaded.ids
  · intro x here none
    have here := List.mem_singleton.mp here
    have body₂ : fs₂.look (bodyPath x) = fs.look (bodyPath x) := by
      rw [loaded.kept _ fun _ _ _ => by simp, look _ (by simp)]
    have meta₃ : fs₃.look (metaPath x) = fs₂.look (metaPath x) := kept _ fun _ _ => by simp
    by_cases member : x ∈ order
    · -- The metadata file is there, so it is the body that is missing.
      have noBody : fs.look (bodyPath x) = .none := by
        rcases missing_of_pair_none stable.tidy none with absent | absent
        · exact absent
        · have present := ((ordered x).mp member).2
          rw [absent] at present
          contradiction
      have unlisted : x ∉ bodiesOf (fs.names shard) := by
        rw [bodies, noBody]
        simp
      constructor
      · rw [kept _ fun id inside same => ?_, body₂, noBody]
        obtain rfl := bodyPath_inj.mp same
        exact unlisted ((leftOver x).mp inside).1
      · rw [meta₃]
        exact loaded.gone x member unlisted
    · constructor
      · cases body : fs.look (bodyPath x) with
        | none =>
          by_cases orphan : x ∈ orphans
          · exact gone x orphan
          · have apart : ∀ id ∈ orphans, bodyPath x ≠ bodyPath id := by
              rintro id inside same
              rw [bodyPath_inj] at same
              exact orphan (same ▸ inside)
            rw [kept _ apart, body₂, body]
        | some content =>
          have listed := (bodies x).mpr ⟨here, by simp [body]⟩
          exact gone x ((leftOver x).mpr ⟨listed, member⟩)
      · rw [meta₃]
        exact unpaired x member here
  · intro path kind elsewhere
    have away : path.shard ≠ shard := fun same => elsewhere (List.mem_singleton.mpr same)
    rw [kept path fun id inside same => ?_, loaded.kept path fun id inside _ same => ?_,
      look path kind]
    · exact away (by rw [same]; exact (metas id inside).1)
    · exact away (by rw [same]; exact (alone id inside).1)

theorem pair_named (tidy : Tidy fs) {data : Bytes} {file : MetaFile}
    (found : pair fs x = some (data, file)) : file.blobID = x := by
  obtain ⟨-, other, same, named⟩ := tidy.metas _ _ (pair_eq_some.mp found).2 x (by simp)
  cases same
  exact named

theorem Scanned.nil (fs : Files) : Scanned [] fs [] fs where
  dirs := rfl
  mem := by simp
  once := List.nodup_nil
  orphans := by simp
  kept _ _ _ := rfl

theorem Scanned.cons {shards : List Shard} {first second : List DiskEntry} {fs'' : Files}
    (tidy : Tidy fs) (here : Scanned [shard] fs first fs') (stable : Stable fs fs')
    (rest : Scanned shards fs' second fs'') (fresh : shard ∉ shards) :
    Scanned (shard :: shards) fs (first ++ second) fs'' where
  dirs := rest.dirs.trans here.dirs
  mem e := by
    rw [List.mem_append, here.mem, rest.mem]
    constructor
    · rintro (⟨x, single, found⟩ | ⟨x, member, data, file, found, same⟩)
      · exact ⟨x, List.mem_cons.mpr (.inl (List.mem_singleton.mp single)), found⟩
      · rw [stable.pair] at found
        exact ⟨x, List.mem_cons_of_mem _ member, data, file, found, same⟩
    · rintro ⟨x, member, data, file, found, same⟩
      rcases List.mem_cons.mp member with single | later
      · exact .inl ⟨x, List.mem_singleton.mpr single, data, file, found, same⟩
      · rw [← stable.pair] at found
        exact .inr ⟨x, later, data, file, found, same⟩
  once := by
    rw [List.map_append]
    refine List.nodup_append'.mpr ⟨here.once, rest.once, ?_⟩
    -- An entry lies in the shard of its blob ID, so the two scans share none.
    intro x inFirst inSecond
    obtain ⟨e, member, rfl⟩ := List.mem_map.mp inFirst
    obtain ⟨e', member', same⟩ := List.mem_map.mp inSecond
    obtain ⟨y, single, data, file, found, rfl⟩ := (here.mem e).mp member
    obtain ⟨z, later, data', file', found', rfl⟩ := (rest.mem e').mp member'
    rw [stable.pair] at found'
    have first : y = z := (pair_named tidy found).symm.trans
      (same.symm.trans (pair_named tidy found'))
    rw [← first, List.mem_singleton.mp single] at later
    exact fresh later
  orphans x member alone := by
    rcases List.mem_cons.mp member with single | later
    · have away : shardOf x ∉ shards := single ▸ fresh
      have clean := here.orphans x (List.mem_singleton.mpr single) alone
      rw [rest.kept (bodyPath x) (by simp) away, rest.kept (metaPath x) (by simp) away]
      exact clean
    · exact rest.orphans x later ((stable.pair x).trans alone)
  kept path kind elsewhere := by
    rw [List.mem_cons, not_or] at elsewhere
    rw [rest.kept path kind elsewhere.2,
      here.kept path kind fun single => elsewhere.1 (List.mem_singleton.mp single)]

theorem readEach_spec (root : String) (shards : List Shard) (once : shards.Nodup)
    (stable : Stable before fs) :
    Throughout calm (Stable before) (readEach root shards) (fun reply fs' =>
      ∃ entries, reply = .ok entries ∧ Scanned shards fs entries fs') fs := by
  induction shards generalizing fs with
  | nil => exact throughout_pure stable ⟨[], rfl, .nil fs⟩
  | cons shard shards ih =>
    obtain ⟨fresh, once⟩ := List.nodup_cons.mp once
    refine (readShard_spec root shard stable).bind ?_
    rintro _ fs₁ stable₁ ⟨first, rfl, here⟩
    refine (ih once stable₁).bind ?_
    rintro _ fs₂ stable₂ ⟨second, rfl, rest⟩
    have between : Stable fs fs₁ :=
      ⟨stable₁.tidy, fun x => .inl ((stable₁.pair x).trans (stable.pair x).symm)⟩
    exact throughout_pure stable₂
      ⟨first ++ second, rfl, here.cons stable.tidy between rest fresh⟩

/-- Every pair is found once, and no file without its partner is left. -/
structure Found (before : Files) (entries : List DiskEntry) (after : Files) : Prop where
  mem : ∀ e, e ∈ entries ↔ ∃ x data file, pair before x = some (data, file) ∧ e = entryOf file
  once : (entries.map DiskEntry.blobID).Nodup
  orphans : ∀ x, pair before x = none →
    after.look (bodyPath x) = none ∧ after.look (metaPath x) = none

theorem readShards_spec (root : String) (tidy : Tidy fs) :
    Throughout calm (Stable fs) (readShards root) (fun reply fs' =>
      ∃ entries, reply = .ok entries ∧ Found fs entries fs') fs := by
  refine calm_readRoot (.refl tidy) ?_
  refine (readEach_spec root fs.dirs tidy.shards (.refl tidy)).mono (fun _ holds => holds) ?_
  rintro _ fs' stable ⟨entries, rfl, scanned⟩
  have placed : ∀ x, (fs.look (metaPath x)).isSome → shardOf x ∈ fs.dirs :=
    fun x some => tidy.listed _ some
  refine ⟨entries, rfl, ?_, scanned.once, ?_⟩
  · intro e
    rw [scanned.mem]
    constructor
    · rintro ⟨x, _, found⟩
      exact ⟨x, found⟩
    · rintro ⟨x, data, file, found, same⟩
      have some : (fs.look (metaPath x)).isSome := by simp [(pair_eq_some.mp found).2]
      exact ⟨x, placed x some, data, file, found, same⟩
  · intro x alone
    by_cases member : shardOf x ∈ fs.dirs
    · exact scanned.orphans x member alone
    · -- Without its directory the blob had no files to begin with.
      have absent : ∀ path : Path, path.shard = shardOf x → path.kind ≠ .temp →
          fs'.look path = none := by
        intro path same kind
        rw [scanned.kept path kind (same ▸ member)]
        by_contra some
        exact member (same ▸ tidy.listed path (Option.isSome_iff_ne_none.mpr some))
      exact ⟨absent _ rfl (by simp), absent _ rfl (by simp)⟩

end KDrive.Hotcache.DiskCache
