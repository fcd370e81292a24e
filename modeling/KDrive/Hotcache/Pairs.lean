import KDrive.Hotcache.Files

/-! The pairs of a body file and a metadata file that a scan of the files can find, and
what single steps do to them. Temporary files make no pairs, removing either file ends
one, and only a metadata file that comes to a body makes one. -/
namespace KDrive.Hotcache
open Go Interaction

/-- Files lie where their names say, and hold what their names say. -/
structure Tidy (fs : Files) : Prop where
  shards : fs.dirs.Nodup
  listed : ∀ path, (fs.look path).isSome → path.shard ∈ fs.dirs
  bodies : ∀ path content, fs.look path = some content → ∀ id, path.kind = .body id →
    path = bodyPath id ∧ ∃ data, content = .bytes data
  metas : ∀ path content, fs.look path = some content → ∀ id, path.kind = .metadata id →
    path = metaPath id ∧ ∃ file, content = .json file ∧ file.blobID = id

/-- The two files of a blob, if both are there. -/
def pair (fs : Files) (x : String) : Option (Bytes × MetaFile) :=
  match fs.look (bodyPath x), fs.look (metaPath x) with
  | some (.bytes data), some (.json file) => some (data, file)
  | _, _ => none

/-- Of the pairs that were there, only lost ones may be missing, and only made ones may
have come. -/
structure Keeps (before : Files) (lost : String → Prop) (made : String → Bytes × MetaFile → Prop)
    (after : Files) : Prop where
  tidy : Tidy after
  pairs : ∀ x, pair after x = pair before x ∨ lost x ∧ pair after x = none ∨
    ∃ both, made x both ∧ pair after x = some both

/-- The same but for temporary files. -/
structure Alike (before after : Files) : Prop where
  tidy : Tidy after
  dirs : ∀ shard ∈ before.dirs, shard ∈ after.dirs
  look : ∀ path, path.kind ≠ .temp → after.look path = before.look path

variable {fs fs' before : Files} {x b : String} {path : Path}

section Tidy

theorem Tidy.empty : Tidy {} where
  shards := List.nodup_nil
  listed path some := by contradiction
  bodies path content found := by contradiction
  metas path content found := by contradiction

variable (tidy : Tidy fs)
include tidy

theorem Tidy.mkdir (shard : Shard) : Tidy (fs.mkdir shard) where
  shards := by
    simp only [Files.mkdir]
    split
    · exact tidy.shards
    · rename_i fresh
      rw [List.nodup_append_comm]
      exact List.nodup_cons.mpr ⟨fresh, tidy.shards⟩
  listed path some := (fs.mem_mkdir shard path.shard).mpr (.inr (tidy.listed path some))
  bodies := tidy.bodies
  metas := tidy.metas

theorem Tidy.unset (path : Path) : Tidy (fs.unset path) where
  shards := tidy.shards
  listed other some := by
    rw [Files.look_unset] at some
    split at some
    · contradiction
    · exact tidy.listed other some
  bodies other content found := by
    rw [Files.look_unset] at found
    split at found
    · contradiction
    · exact tidy.bodies other content found
  metas other content found := by
    rw [Files.look_unset] at found
    split at found
    · contradiction
    · exact tidy.metas other content found

theorem Tidy.set {content : Content} (inside : path.shard ∈ fs.dirs)
    (body : ∀ id, path.kind = .body id → path = bodyPath id ∧ ∃ data, content = .bytes data)
    (metadata : ∀ id, path.kind = .metadata id →
      path = metaPath id ∧ ∃ file, content = .json file ∧ file.blobID = id) :
    Tidy (fs.set path content) where
  shards := tidy.shards
  listed other some := by
    rw [Files.look_set] at some
    split at some
    · rename_i same
      rw [same]
      exact inside
    · exact tidy.listed other some
  bodies other held found := by
    rw [Files.look_set] at found
    split at found
    · rename_i same
      cases found
      rw [same]
      exact body
    · exact tidy.bodies other held found
  metas other held found := by
    rw [Files.look_set] at found
    split at found
    · rename_i same
      cases found
      rw [same]
      exact metadata
    · exact tidy.metas other held found

theorem Tidy.set_temp (temp : path.kind = .temp) (inside : path.shard ∈ fs.dirs)
    (content : Content) : Tidy (fs.set path content) := by
  apply tidy.set inside
  · intro id kind
    rw [temp] at kind
    contradiction
  · intro id kind
    rw [temp] at kind
    contradiction

theorem Tidy.set_body (inside : shardOf x ∈ fs.dirs) (data : Bytes) :
    Tidy (fs.set (bodyPath x) (.bytes data)) := by
  apply tidy.set inside
  · intro id kind
    rw [kind_bodyPath] at kind
    cases kind
    exact ⟨rfl, data, rfl⟩
  · intro id kind
    rw [kind_bodyPath] at kind
    contradiction

theorem Tidy.set_meta (inside : shardOf x ∈ fs.dirs) {file : MetaFile}
    (named : file.blobID = x) : Tidy (fs.set (metaPath x) (.json file)) := by
  apply tidy.set inside
  · intro id kind
    rw [kind_metaPath] at kind
    contradiction
  · intro id kind
    rw [kind_metaPath] at kind
    cases kind
    exact ⟨rfl, file, rfl, named⟩

end Tidy

section Pairs

theorem pair_congr (body : fs'.look (bodyPath x) = fs.look (bodyPath x))
    (metadata : fs'.look (metaPath x) = fs.look (metaPath x)) : pair fs' x = pair fs x := by
  simp only [pair, body, metadata]

theorem pair_of_no_body (absent : fs.look (bodyPath x) = none) : pair fs x = none := by
  simp only [pair, absent]

theorem pair_of_no_meta (absent : fs.look (metaPath x) = none) : pair fs x = none := by
  simp only [pair, absent]
  split
  · contradiction
  · rfl

theorem pair_eq_some {data : Bytes} {file : MetaFile} : pair fs x = some (data, file) ↔
    fs.look (bodyPath x) = some (.bytes data) ∧ fs.look (metaPath x) = some (.json file) := by
  unfold pair
  split
  · rename_i found held body metadata
    rw [body, metadata]
    simp
  · rename_i other
    constructor
    · intro impossible
      contradiction
    · rintro ⟨body, metadata⟩
      exact absurd metadata (other data file body)

theorem Alike.refl (tidy : Tidy fs) : Alike fs fs := ⟨tidy, fun _ => id, fun _ _ => rfl⟩

theorem Alike.trans {fs'' : Files} (first : Alike fs fs') (second : Alike fs' fs'') :
    Alike fs fs'' where
  tidy := second.tidy
  dirs shard member := second.dirs shard (first.dirs shard member)
  look path kind := (second.look path kind).trans (first.look path kind)

theorem Alike.mkdir (tidy : Tidy fs) (shard : Shard) : Alike fs (fs.mkdir shard) where
  tidy := tidy.mkdir shard
  dirs other member := (fs.mem_mkdir shard other).mpr (.inr member)
  look _ _ := rfl

theorem Alike.set (tidy : Tidy fs) (temp : path.kind = .temp) (inside : path.shard ∈ fs.dirs)
    (content : Content) : Alike fs (fs.set path content) where
  tidy := tidy.set_temp temp inside content
  dirs _ := id
  look other kind := by
    rw [Files.look_set, if_neg]
    rintro rfl
    exact kind temp

theorem Alike.unset (tidy : Tidy fs) (temp : path.kind = .temp) : Alike fs (fs.unset path) where
  tidy := tidy.unset path
  dirs _ := id
  look other kind := by
    rw [Files.look_unset, if_neg]
    rintro rfl
    exact kind temp

theorem Alike.pair (alike : Alike fs fs') (x : String) : pair fs' x = pair fs x :=
  pair_congr (alike.look _ (by simp)) (alike.look _ (by simp))

variable {lost : String → Prop} {made : String → Bytes × MetaFile → Prop}

theorem Keeps.refl (tidy : Tidy fs) : Keeps fs lost made fs := ⟨tidy, fun _ => .inl rfl⟩

variable (keeps : Keeps before lost made fs)
include keeps

theorem Keeps.step (tidy : Tidy fs')
    (change : ∀ x, pair fs' x = pair fs x ∨ lost x ∧ pair fs' x = none ∨
      ∃ both, made x both ∧ pair fs' x = some both) : Keeps before lost made fs' := by
  refine ⟨tidy, fun x => ?_⟩
  rcases change x with same | new
  · rw [same]
    exact keeps.pairs x
  · exact .inr new

theorem Keeps.alike (alike : Alike fs fs') : Keeps before lost made fs' :=
  keeps.step alike.tidy fun x => .inl (alike.pair x)

theorem Keeps.unset_body (loses : lost x) : Keeps before lost made (fs.unset (bodyPath x)) := by
  refine keeps.step (keeps.tidy.unset _) fun other => ?_
  by_cases same : other = x
  · subst same
    exact .inr (.inl ⟨loses, pair_of_no_body (by simp)⟩)
  · exact .inl (pair_congr (by simp [same]) (by simp))

theorem Keeps.unset_meta (loses : lost x) : Keeps before lost made (fs.unset (metaPath x)) := by
  refine keeps.step (keeps.tidy.unset _) fun other => ?_
  by_cases same : other = x
  · subst same
    exact .inr (.inl ⟨loses, pair_of_no_meta (by simp)⟩)
  · exact .inl (pair_congr (by simp) (by simp [same]))

theorem Keeps.mono {lost' : String → Prop} {made' : String → Bytes × MetaFile → Prop}
    (more : ∀ x, lost x → lost' x)
    (others : ∀ x both, made x both → made' x both) : Keeps before lost' made' fs := by
  refine ⟨keeps.tidy, fun x => ?_⟩
  rcases keeps.pairs x with same | ⟨loses, none⟩ | ⟨both, makes, some⟩
  · exact .inl same
  · exact .inr (.inl ⟨more x loses, none⟩)
  · exact .inr (.inr ⟨both, others x both makes, some⟩)

end Pairs

end KDrive.Hotcache
