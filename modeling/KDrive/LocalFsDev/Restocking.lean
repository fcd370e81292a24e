import KDrive.LocalFsDev.Lookup

/-! How the bucket changes with the files of one key: a version is put on top, taken out,
or gets another retention. -/
namespace KDrive.LocalFsDev
open Go Blobstore Filesystem Interaction
variable {p : Provider} {s : Setting} {w w' : World} {b : Bucket} {key id : String} {v : Version}

section Distinct

variable (distinct : Distinct ids stack)
include distinct

theorem Distinct.absent (fresh : id ∉ ids) : (stack.find? fun v => v.versionID = id) = none := by
  refine List.find?_eq_none.mpr fun v member => ?_
  simpa using fun same : v.versionID = id => fresh (same ▸ distinct.issued v member)

theorem Distinct.push (isID : IsVersionID v.versionID)
    (fresh : v.versionID ∉ ids) : Distinct (v.versionID :: ids) (v :: stack) where
  nodup := by
    rw [List.map_cons, List.nodup_cons]
    refine ⟨fun taken => ?_, distinct.nodup⟩
    obtain ⟨u, member, same⟩ := List.mem_map.mp taken
    exact fresh (same ▸ distinct.issued u member)
  isID u member := (List.mem_cons.mp member).elim (fun same => same ▸ isID) (distinct.isID u)
  issued u member := (List.mem_cons.mp member).elim (fun same => same ▸ List.mem_cons_self)
    fun older => List.mem_cons_of_mem _ (distinct.issued u older)

theorem Distinct.filter (keep : Version → Bool) : Distinct ids (stack.filter keep) where
  nodup := distinct.nodup.sublist (List.filter_sublist.map _)
  isID v member := distinct.isID v (List.mem_of_mem_filter member)
  issued v member := distinct.issued v (List.mem_of_mem_filter member)

theorem Distinct.map {f : Version → Version}
    (same : ∀ v, (f v).versionID = v.versionID) : Distinct ids (stack.map f) where
  nodup := by
    rw [List.map_map, show Version.versionID ∘ f = Version.versionID from funext same]
    exact distinct.nodup
  isID u member := by
    obtain ⟨v, inside, rfl⟩ := List.mem_map.mp member
    exact same v ▸ distinct.isID v inside
  issued u member := by
    obtain ⟨v, inside, rfl⟩ := List.mem_map.mp member
    exact same v ▸ distinct.issued v inside

end Distinct

section Frames

theorem Provider.Represents.congr (rep : p.Represents w b) (look : w'.tree.look = w.tree.look)
    (clock : w'.clock = w.clock) (issued : w'.issued = w.issued) : p.Represents w' b where
  way := look ▸ rep.way
  unfiled := look ▸ rep.unfiled
  shelf := look ▸ rep.shelf
  distinct := issued ▸ rep.distinct
  tray := look ▸ rep.tray
  handed := issued ▸ rep.handed
  time := clock ▸ rep.time

theorem Provider.Represents.timed (rep : p.Represents w { b with time := w.clock })
    (same : b.time = w.clock) : p.Represents w b := by
  rwa [← same] at rep

/-- What lies elsewhere is not touched by a change in the directory of a key. -/
theorem look_update_outside {look : Path → Option (Node Content)} {dir path : Path} {name : String}
    (outside : ¬ dir <+: path) (node : Option (Node Content)) :
    Function.update look (dir ++ [name]) node path = look path := by
  refine Function.update_of_ne (fun same => outside ?_) _ _
  rw [same]
  exact List.prefix_append _ _

theorem look_update_child {look : Path → Option (Node Content)} {dir : Path} (name name' : String)
    (node : Option (Node Content)) : Function.update look (dir ++ [name']) node (dir ++ [name]) =
      if name = name' then node else look (dir ++ [name]) := by
  rw [Function.update_apply]
  by_cases same : name = name'
  · rw [if_pos same, if_pos (by rw [same])]
  · rw [if_neg same, if_neg fun equal => same (concat_inj equal).2]

theorem Provider.Represents.made (rep : p.Represents w b) (plain : Plain key)
    (outside : ¬ p.versionsDir key <+: path) :
    Tree.made (p.versionsDir key) w.tree.look path = w.tree.look path := by
  unfold Tree.made
  split
  · rename_i above
    rw [plain.versionsDir] at above outside
    rcases List.prefix_concat_iff.mp above with same | above
    · exact absurd (same ▸ List.prefix_refl _) outside
    · exact (rep.way path above).symm
  · rfl

end Frames

section Changes

variable (rep : p.Represents w b)
include rep

/-- The directory of a key is made. -/
theorem Provider.Represents.opened (w' : World) (plain : Plain key)
    (onward : Onward s w w') (looks : w'.tree.look = Tree.made (p.versionsDir key) w.tree.look) :
    b.Keeps s.later { b with time := w'.clock } ∧ p.Represents w' { b with time := w'.clock } := by
  refine ⟨⟨w'.clock, rep.time ▸ onward.clock, rfl⟩, ?_⟩
  have same : b.restack key (b.stack key) = b := by
    rw [Bucket.restack, Function.update_eq_self]
  have next := rep.restack w' plain onward.issued (fun path outside => by rw [looks, rep.made plain outside])
    ⟨.inl (by rw [looks, look_made_self]), fun name => ?_⟩
    ((rep.distinct key).mono onward.issued)
  · rwa [same] at next
  · rw [looks, look_made_child]
    exact (rep.shelf key plain).files name

/-- A version that was written is on top. -/
theorem Provider.Represents.pushed (plain : Plain key)
    (unissued : w.Unissued v.versionID) (later : s.later w.clock v.writeTime)
    (clock : w'.clock = v.writeTime) (issued : w'.issued = v.versionID :: w.issued)
    (frame : ∀ path, ¬ p.versionsDir key <+: path → w'.tree.look path = w.tree.look path)
    (home : w'.tree.look (p.versionsDir key) = some .dir)
    (files : ∀ name, w'.tree.look (p.versionsDir key ++ [name]) =
      filesOf key (v :: b.stack key) name) :
    b.Pushes s.later (b.push key v) key v.body v.contentType v.retention v ∧
      p.Represents w' (b.push key v) := by
  have distinct := (rep.distinct key).push unissued.1 unissued.2
  have fresh := distinct.nodup
  rw [List.map_cons, List.nodup_cons] at fresh
  refine ⟨⟨fresh.1, rep.time ▸ later, rfl, rfl, rfl, rfl⟩, ?_⟩
  rw [Bucket.push, ← clock]
  refine rep.restack w' plain ?_ frame ⟨.inl home, files⟩ ?_
  · rw [issued]
    exact List.subset_cons_self _ _
  · rw [issued]
    exact distinct

theorem Provider.Represents.stored (w' : World) (plain : Plain key)
    (unissued : w.Unissued v.versionID) (later : s.later w.clock v.writeTime)
    (clock : w'.clock = v.writeTime) (issued : w'.issued = v.versionID :: w.issued)
    (body : v.body = some data)
    (looks : w'.tree.look = p.written (v.sidecar key) data
      (Tree.made (p.versionsDir key) w.tree.look)) :
    b.Pushes s.later (b.push key v) key (some data) v.contentType v.retention v ∧
      p.Represents w' (b.push key v) := by
  rw [← body]
  refine rep.pushed plain unissued later clock issued (fun path outside => ?_) ?_ fun name => ?_
  · rw [looks]
    change Function.update (Function.update _ (p.versionsDir key ++ _) _) (p.versionsDir key ++ _) _ path = _
    rw [look_update_outside outside, look_update_outside outside, rep.made plain outside]
  · rw [looks]
    change Function.update (Function.update _ (p.versionsDir key ++ _) _) (p.versionsDir key ++ _) _ _ = _
    rw [Function.update_of_ne (by simp), Function.update_of_ne (by simp), look_made_self]
  · rw [looks]
    change Function.update (Function.update _ (p.versionsDir key ++ [v.versionID ++ ".bin"]) _)
      (p.versionsDir key ++ [v.versionID ++ ".json"]) _ _ = _
    rw [look_update_child, look_update_child, look_made_child, filesOf, body,
      (rep.shelf key plain).files]
    rfl

/-- A delete marker that was written is on top. -/
theorem Provider.Represents.marked (w' : World) (plain : Plain key)
    (unissued : w.Unissued v.versionID) (later : s.later w.clock v.writeTime)
    (clock : w'.clock = v.writeTime) (issued : w'.issued = v.versionID :: w.issued)
    (body : v.body = none) (some' : b.stack key ≠ [])
    (looks : w'.tree.look = Function.update w.tree.look
      (p.versionsDir key ++ [v.versionID ++ ".json"]) (some (.file (.sidecar (v.sidecar key))))) :
    b.Pushes s.later (b.push key v) key none v.contentType v.retention v ∧
      p.Represents w' (b.push key v) := by
  rw [← body]
  have shelf := rep.shelf key plain
  refine rep.pushed plain unissued later clock issued (fun path outside => ?_) ?_ fun name => ?_
  · rw [looks, look_update_outside outside]
  · rw [looks, Function.update_of_ne (by simp)]
    exact shelf.home.resolve_right fun absent => some' absent.2
  · rw [looks, look_update_child, filesOf, body, shelf.files]
    by_cases bin : name = v.versionID ++ ".bin"
    · rw [bin, filesOf_bin, (rep.distinct key).absent unissued.2, if_pos rfl]
      rfl
    · rw [if_neg bin]

theorem Provider.Represents.removed {ref : VersionedObjectRef}
    (plain : Plain ref.key) (clock : w'.clock = w.clock) (issued : w'.issued = w.issued)
    (looks : w'.tree.look = Function.update (Function.update w.tree.look
      (p.versionsDir ref.key ++ [ref.versionID ++ ".json"]) none)
      (p.versionsDir ref.key ++ [ref.versionID ++ ".bin"]) none) :
    p.Represents w' (b.remove ref) := by
  have shelf := rep.shelf ref.key plain
  have distinct := (rep.distinct ref.key).filter fun v => v.versionID ≠ ref.versionID
  have next := rep.restack w' plain (issued ▸ List.Subset.refl _)
    (fun path outside => ?_) ⟨?_, fun name => ?_⟩ (by rwa [issued])
  · exact next.timed (rep.time.trans clock.symm)
  · rw [looks, look_update_outside outside, look_update_outside outside]
  · rw [looks, Function.update_of_ne (by simp), Function.update_of_ne (by simp)]
    exact shelf.home.imp_right fun ⟨absent, empty⟩ => ⟨absent, by rw [empty]; rfl⟩
  · rw [looks, look_update_child, look_update_child, filesOf_remove, shelf.files]
    by_cases json : name = ref.versionID ++ ".json" <;>
      by_cases bin : name = ref.versionID ++ ".bin" <;> simp [json, bin]

theorem Provider.Represents.retained {ref : VersionedObjectRef}
    (plain : Plain ref.key) (found : b.version ref = some v) (clock : w'.clock = w.clock)
    (issued : w'.issued = w.issued)
    (looks : w'.tree.look = Function.update w.tree.look
      (p.versionsDir ref.key ++ [ref.versionID ++ ".json"])
      (some (.file (.sidecar { v.sidecar ref.key with retention })))) :
    p.Represents w' (b.retain ref retention) := by
  have shelf := rep.shelf ref.key plain
  obtain ⟨member, same⟩ := Provider.Represents.version_mem found
  have distinct := (rep.distinct ref.key).map (f := fun v =>
    if v.versionID = ref.versionID then { v with retention } else v) fun v => by split <;> rfl
  have next := rep.restack w' plain (issued ▸ List.Subset.refl _)
    (fun path outside => ?_) ⟨?_, fun name => ?_⟩ (by rwa [issued])
  · exact next.timed (rep.time.trans clock.symm)
  · rw [looks, look_update_outside outside]
  · rw [looks, Function.update_of_ne (by simp)]
    exact .inl (shelf.home.resolve_right fun ⟨_, empty⟩ => by rw [empty] at member; contradiction)
  · rw [looks, look_update_child, ← same, filesOf_retain member (rep.distinct ref.key).nodup,
      shelf.files]

theorem Provider.Represents.cleared (plain : Plain key)
    (clock : w'.clock = w.clock) (issued : w'.issued = w.issued)
    (looks : w'.tree.look = Tree.pruned (p.versionsDir key) w.tree.look) :
    p.Represents w' (b.restack key []) := by
  have gone : ∀ names, Tree.pruned (p.versionsDir key) w.tree.look (p.versionsDir key ++ names) =
      none := by
    intro names
    refine if_pos ⟨?_, List.prefix_append _ _⟩
    rw [plain.versionsDir]
    simp
  have next := rep.restack w' plain (issued ▸ List.Subset.refl _)
    (fun path outside => ?_) ⟨?_, fun name => ?_⟩ (distinct_nil _)
  · exact next.timed (rep.time.trans clock.symm)
  · rw [looks]
    exact if_neg fun inside => outside inside.2
  · have bare := gone []
    rw [List.append_nil] at bare
    exact .inr ⟨looks ▸ bare, rfl⟩
  · rw [looks]
    exact gone [name]

/-- The directory of an upload is removed. -/
theorem Provider.Represents.unstaged (w' : World) (plain : Plain key)
    (isName : IsName id) (clock : w'.clock = w.clock) (issued : w'.issued = w.issued)
    (looks : w'.tree.look = Tree.pruned (p.multipartDir key id) w.tree.look) :
    p.Represents w' (b.stage key id none) := by
  have next := rep.restage w' plain isName (issued ▸ List.Subset.refl _)
    (fun path outside => .inl ?_) (show Tray _ _ none from fun path inside => ?_)
    fun impossible => absurd rfl impossible
  · exact next.timed (rep.time.trans clock.symm)
  · rw [looks]
    exact if_neg fun under => outside under.2
  · rw [looks]
    refine if_pos ⟨fun empty => ?_, inside⟩
    rw [empty, List.prefix_nil, plain.multipartDir isName] at inside
    simp at inside

/-- Between operations there is no temporary file. -/
theorem Provider.Represents.look_temp (plain : Plain key) (random : Nat) :
    w.tree.look (p.tempPath key random) = none := by
  rw [Provider.tempPath, (rep.shelf key plain).files]
  exact filesOf_other (fun _ => temp_ne (by decide : ".json".toList.getLast? = some 'n') (by decide))
    fun _ => temp_ne (by decide : ".bin".toList.getLast? = some 'n') (by decide)

/-- The files of a new version have no names in use. -/
theorem Provider.Represents.free (plain : Plain key) (fresh : id ∉ w.issued) :
    p.Free w.tree key id := by
  have shelf := rep.shelf key plain
  have absent := (rep.distinct key).absent fresh
  refine ⟨?_, ?_, ?_⟩
  · rw [shelf.files, filesOf_bin, absent]
    rfl
  · rw [shelf.files, filesOf_json, absent]
    rfl
  · rw [shelf.files]
    have tmp : ".tmp".toList.getLast? = some 'p' := by decide
    exact filesOf_other (fun _ => append_ne tmp (by decide : ".json".toList.getLast? = some 'n') (by decide))
      fun _ => append_ne tmp (by decide : ".bin".toList.getLast? = some 'n') (by decide)

end Changes
end KDrive.LocalFsDev
