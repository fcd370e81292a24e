import KDrive.LocalFsDev.Bucket
import KDrive.LocalFsDev.Quiet

/-! The stack of a key as the files in a directory: every version has a sidecar, and a
body if it is no delete marker. What the listing helpers read there is the stack. -/
namespace KDrive.LocalFsDev
open Go Blobstore Filesystem Interaction

/-- What the versions of a key look like in their directory. -/
def filesOf (key : String) : List Version → String → Option (Node Content)
  | [], _ => none
  | v :: rest, name =>
    if name = v.versionID ++ ".json" then some (.file (.sidecar (v.sidecar key)))
    else if name = v.versionID ++ ".bin" then v.body.map fun data => .file (.bytes data)
    else filesOf key rest name

section Files
variable {key id : String} {stack : List Version} {v : Version}

theorem filesOf_json : filesOf key stack (id ++ ".json") =
    (stack.find? fun v => v.versionID = id).map fun v => .file (.sidecar (v.sidecar key)) := by
  induction stack with
  | nil => rfl
  | cons v rest ih =>
    by_cases same : v.versionID = id
    · simp [filesOf, same]
    · have other : id ++ ".json" ≠ v.versionID ++ ".json" := fun equal =>
        same (append_right_cancel equal).symm
      rw [filesOf, if_neg other, if_neg (json_ne_bin _ _), ih, List.find?_cons_of_neg (by simpa using same)]

theorem filesOf_bin : filesOf key stack (id ++ ".bin") =
    (stack.find? fun v => v.versionID = id).bind fun v => v.body.map fun data => .file (.bytes data) := by
  induction stack with
  | nil => rfl
  | cons v rest ih =>
    by_cases same : v.versionID = id
    · rw [filesOf, if_neg (json_ne_bin _ _).symm, if_pos (by rw [same]),
        List.find?_cons_of_pos (by simpa using same)]
      rfl
    · have other : id ++ ".bin" ≠ v.versionID ++ ".bin" := fun equal =>
        same (append_right_cancel equal).symm
      rw [filesOf, if_neg (json_ne_bin _ _).symm, if_neg other, ih,
        List.find?_cons_of_neg (by simpa using same)]

/-- A name that belongs to no version. -/
theorem filesOf_other (json : ∀ stem, name ≠ stem ++ ".json") (bin : ∀ stem, name ≠ stem ++ ".bin") :
    filesOf key stack name = none := by
  induction stack with
  | nil => rfl
  | cons v rest ih => rw [filesOf, if_neg (json _), if_neg (bin _), ih]

theorem filesOf_ne_dir : filesOf key stack name ≠ some .dir := by
  induction stack with
  | nil => simp [filesOf]
  | cons v rest ih =>
    rw [filesOf]
    split
    · simp
    · split
      · cases v.body <;> simp
      · exact ih

/-- Every file belongs to a version. -/
theorem filesOf_some (found : filesOf key stack name = some node) : ∃ v ∈ stack,
    name = v.versionID ++ ".json" ∧ node = .file (.sidecar (v.sidecar key)) ∨
    name = v.versionID ++ ".bin" := by
  induction stack with
  | nil => contradiction
  | cons v rest ih =>
    rw [filesOf] at found
    split at found
    · rename_i here
      cases found
      exact ⟨v, List.mem_cons_self, .inl ⟨here, rfl⟩⟩
    · split at found
      · rename_i here
        exact ⟨v, List.mem_cons_self, .inr here⟩
      · obtain ⟨other, member, cases⟩ := ih found
        exact ⟨other, List.mem_cons_of_mem _ member, cases⟩

theorem filesOf_remove (id name : String) :
    filesOf key (stack.filter fun v => v.versionID ≠ id) name =
      if name = id ++ ".json" ∨ name = id ++ ".bin" then none else filesOf key stack name := by
  induction stack with
  | nil => simp [filesOf]
  | cons v rest ih =>
    by_cases same : v.versionID = id
    · rw [List.filter_cons_of_neg (by simpa using same), ih]
      split
      · rfl
      · rename_i other
        rw [not_or] at other
        rw [filesOf, same, if_neg other.1, if_neg other.2]
    · rw [List.filter_cons_of_pos (by simpa using same), filesOf, filesOf, ih]
      have differs : ∀ suf, v.versionID ++ suf ≠ id ++ suf := fun suf equal =>
        same (append_right_cancel equal)
      by_cases json : name = v.versionID ++ ".json"
      · simp [json, differs, json_ne_bin]
      · by_cases bin : name = v.versionID ++ ".bin"
        · simp [bin, differs, (json_ne_bin _ _).symm]
        · simp [json, bin]

theorem filesOf_retain {retention : RetentionState} (found : v ∈ stack)
    (distinct : (stack.map Version.versionID).Nodup) (name : String) :
    filesOf key (stack.map fun u =>
        if u.versionID = v.versionID then { u with retention } else u) name =
      if name = v.versionID ++ ".json" then
        some (.file (.sidecar { v.sidecar key with retention })) else filesOf key stack name := by
  induction stack with
  | nil => contradiction
  | cons u rest ih =>
    rw [List.map_cons, List.nodup_cons] at distinct
    by_cases same : u.versionID = v.versionID
    · have here : v = u := by
        rcases List.mem_cons.mp found with here | later
        · exact here
        · exact absurd (List.mem_map_of_mem later) (same ▸ distinct.1)
      subst here
      have rest' : rest.map (fun u => if u.versionID = v.versionID then { u with retention } else u) =
          rest := by
        have kept : ∀ u ∈ rest, (if u.versionID = v.versionID then { u with retention } else u) = u :=
          fun u member => if_neg fun equal : u.versionID = v.versionID =>
            distinct.1 (equal ▸ List.mem_map_of_mem member)
        exact (List.map_congr_left kept).trans (List.map_id' _)
      rw [List.map_cons, if_pos rfl, rest', filesOf, filesOf]
      split
      · rfl
      · rfl
    · have later : v ∈ rest := by
        rcases List.mem_cons.mp found with here | later
        · exact absurd (congrArg Version.versionID here).symm same
        · exact later
      rw [List.map_cons, if_neg same, filesOf, filesOf, ih later distinct.2]
      have differs : u.versionID ++ ".json" ≠ v.versionID ++ ".json" := fun equal =>
        same (append_right_cancel equal)
      by_cases json : name = u.versionID ++ ".json"
      · simp [json, differs]
      · by_cases bin : name = u.versionID ++ ".bin"
        · simp [bin, (json_ne_bin _ _).symm]
        · simp [json, bin]

end Files

/-- No two versions share an ID, and every ID was handed out. -/
structure Distinct (issued : List String) (stack : List Version) : Prop where
  nodup : (stack.map Version.versionID).Nodup
  isID : ∀ v ∈ stack, IsVersionID v.versionID
  issued : ∀ v ∈ stack, v.versionID ∈ issued

theorem distinct_nil (ids : List String) : Distinct ids [] := ⟨.nil, by simp, by simp⟩

/-- The directory of a key holds the stack. -/
structure Shelf (look : Path → Option (Node Content)) (dir : Path) (key : String)
    (stack : List Version) : Prop where
  home : look dir = some .dir ∨ look dir = none ∧ stack = []
  files : ∀ name, look (dir ++ [name]) = filesOf key stack name

section Reading
variable {p : Provider} {t : Filesystem.Tree Content} {dir : Path} {key id : String} {stack : List Version}

theorem hasSuffix_json (stem : String) : hasSuffix (stem ++ ".json") ".json" = true := by
  rw [hasSuffix, String.toList_append]
  exact List.isSuffixOf_iff_suffix.mpr (List.suffix_append _ _)

theorem hasSuffix_bin (stem : String) : hasSuffix (stem ++ ".bin") ".json" = false := by
  rw [Bool.eq_false_iff, hasSuffix, ne_eq, List.isSuffixOf_iff_suffix]
  rintro ⟨start, same⟩
  refine json_ne_bin (String.ofList start) stem (String.toList_inj.mp ?_)
  rw [String.toList_append, String.toList_ofList, same]

theorem Shelf.find (shelf : Shelf t.look dir key stack) (json : hasSuffix name ".json" = true)
    (found : t.look (dir ++ [name]) = some node) :
    ∃ v ∈ stack, name = v.versionID ++ ".json" ∧ node = .file (.sidecar (v.sidecar key)) := by
  rw [shelf.files] at found
  obtain ⟨v, member, ⟨same, content⟩ | same⟩ := filesOf_some found
  · exact ⟨v, member, same, content⟩
  · rw [same, hasSuffix_bin] at json
    contradiction

theorem find_versionID (distinct : (stack.map Version.versionID).Nodup) (member : v ∈ stack) :
    (stack.find? fun u => u.versionID = v.versionID) = some v := by
  induction stack with
  | nil => contradiction
  | cons u rest ih =>
    rw [List.map_cons, List.nodup_cons] at distinct
    rcases List.mem_cons.mp member with rfl | later
    · exact List.find?_cons_of_pos (by simp)
    · rw [List.find?_cons_of_neg, ih distinct.2 later]
      simpa using fun same : u.versionID = v.versionID =>
        distinct.1 (same ▸ List.mem_map_of_mem later)

theorem Shelf.sidecar (shelf : Shelf t.look dir key stack)
    (distinct : (stack.map Version.versionID).Nodup) (member : v ∈ stack) :
    t.look (dir ++ [v.versionID ++ ".json"]) = some (.file (.sidecar (v.sidecar key))) := by
  rw [shelf.files, filesOf_json, find_versionID distinct member]
  rfl

theorem Shelf.anyVersion (shelf : Shelf t.look (p.versionsDir key) key stack)
    (distinct : (stack.map Version.versionID).Nodup) :
    p.anyVersion t key = true ↔ stack ≠ [] := by
  unfold Provider.anyVersion Tree.entries
  constructor
  · intro some empty
    subst empty
    split at some
    · contradiction
    · rename_i entries listed
      split at listed
      · cases listed
        obtain ⟨entry, member, json⟩ := List.any_eq_true.mp some
        obtain ⟨name, inside, rfl⟩ := List.mem_map.mp member
        obtain ⟨node, found⟩ := Option.isSome_iff_exists.mp (Tree.mem_names.mp inside)
        obtain ⟨v, impossible, _⟩ := shelf.find json found
        contradiction
      · contradiction
      · contradiction
  · intro some
    obtain ⟨v, member⟩ := List.exists_mem_of_ne_nil stack some
    have there : t.look (p.versionsDir key) = .some .dir :=
      shelf.home.resolve_right fun absent => some absent.2
    simp only [there, List.any_map, List.any_eq_true]
    refine ⟨v.versionID ++ ".json", Tree.mem_names.mpr ?_, hasSuffix_json _⟩
    rw [shelf.sidecar distinct member]
    rfl

/-- The sidecars in the directory are those of the stack. -/
theorem Shelf.sidecarsIn (shelf : Shelf t.look dir key stack)
    (distinct : (stack.map Version.versionID).Nodup) (isID : ∀ v ∈ stack, IsVersionID v.versionID) :
    (sidecarsIn t dir ((t.names dir).map fun name => (name, t.isDir (dir ++ [name])))).Perm
      (stack.map (Version.sidecar key)) := by
  have path : ∀ v ∈ stack, join dir [v.versionID ++ ".json"] = dir ++ [v.versionID ++ ".json"] :=
    fun v member => join_name (isName_append (isID v member).noSlash (by decide) (by decide)) _
  have reads : ∀ name ∈ t.names dir, ∀ sc, (if hasSuffix name ".json" = true then
      (parsed t (join dir [name]) Content.asSidecar).toOption else none) = some sc ↔
        ∃ v ∈ stack, name = v.versionID ++ ".json" ∧ sc = v.sidecar key := by
    intro name inside sc
    obtain ⟨node, found⟩ := Option.isSome_iff_exists.mp (Tree.mem_names.mp inside)
    constructor
    · intro read
      split at read
      · rename_i json
        obtain ⟨v, member, rfl, rfl⟩ := shelf.find json found
        rw [path v member, parsed_file found] at read
        exact ⟨v, member, rfl, (Option.some.inj read).symm⟩
      · contradiction
    · rintro ⟨v, member, rfl, rfl⟩
      rw [if_pos (hasSuffix_json _), path v member, parsed_file (shelf.sidecar distinct member)]
      rfl
  unfold LocalFsDev.sidecarsIn
  rw [List.filterMap_map]
  refine (List.perm_ext_iff_of_nodup ?_ ?_).mpr fun sc => ?_
  · refine List.pairwise_filterMap.mpr (Tree.names_nodup.imp_of_mem ?_)
    intro first second inFirst inSecond differ sc found sc' found' same
    obtain ⟨v, _, rfl, rfl⟩ := (reads first inFirst sc).mp found
    obtain ⟨u, _, rfl, rfl⟩ := (reads second inSecond sc').mp found'
    exact differ (congrArg (· ++ ".json") (congrArg Sidecar.versionID same))
  · refine List.Nodup.map_on (fun v inside u inside' same => ?_) distinct.of_map
    exact List.inj_on_of_nodup_map distinct inside inside' (congrArg Sidecar.versionID same)
  · rw [List.mem_filterMap, List.mem_map]
    constructor
    · rintro ⟨name, inside, found⟩
      obtain ⟨v, member, _, rfl⟩ := (reads name inside sc).mp found
      exact ⟨v, member, rfl⟩
    · rintro ⟨v, member, rfl⟩
      have inside : v.versionID ++ ".json" ∈ t.names dir := by
        rw [Tree.mem_names, shelf.sidecar distinct member]
        rfl
      exact ⟨_, inside, (reads _ inside _).mpr ⟨v, member, rfl, rfl⟩⟩

/-- The listing has the versions of the stack, sorted by their times. -/
theorem Shelf.versions (shelf : Shelf t.look (p.versionsDir key) key stack)
    (distinct : Distinct ids stack) (unblocked : t.blocked (p.versionsDir key) = false) :
    ∃ versions, p.versions t key = .ok versions ∧ versions.Perm (stack.map (Version.sidecar key)) ∧
      versions.Pairwise fun first second => first.writeTime ≤ second.writeTime := by
  unfold Provider.versions Tree.entries
  rcases shelf.home with there | ⟨absent, rfl⟩
  · simp only [there]
    obtain ⟨perm, sorted⟩ := p.sorts (LocalFsDev.sidecarsIn t (p.versionsDir key)
      ((t.names (p.versionsDir key)).map fun name => (name, t.isDir (p.versionsDir key ++ [name]))))
    exact ⟨_, rfl, perm.trans (shelf.sidecarsIn distinct.nodup distinct.isID), sorted⟩
  · simp only [absent, Tree.missing, unblocked, Bool.false_eq_true, if_false]
    exact ⟨[], rfl, .nil, .nil⟩

/-- Sorted by distinct times, the versions stand as in the stack, the oldest first. -/
theorem eq_reverse_of_perm {versions : List Sidecar}
    (newest : stack.Pairwise fun above below => below.writeTime < above.writeTime)
    (perm : versions.Perm (stack.map (Version.sidecar key)))
    (sorted : versions.Pairwise fun first second => first.writeTime ≤ second.writeTime) :
    versions = stack.reverse.map (Version.sidecar key) := by
  have stacked : (stack.reverse.map (Version.sidecar key)).Pairwise fun first second =>
      first.writeTime < second.writeTime := by
    rw [List.pairwise_map, List.pairwise_reverse]
    exact newest
  have times : ((stack.reverse.map (Version.sidecar key)).map Sidecar.writeTime).Nodup := by
    rw [List.Nodup, List.pairwise_map]
    exact stacked.imp fun earlier => Int.ne_of_lt earlier
  have same := perm.trans ((List.reverse_perm stack).map (Version.sidecar key)).symm
  refine List.Perm.eq_of_pairwise (fun first second inFirst inSecond le ge => ?_) sorted
    (stacked.imp fun earlier => Int.le_of_lt earlier) same
  exact List.inj_on_of_nodup_map times (same.mem_iff.mp inFirst) inSecond (Int.le_antisymm le ge)

end Reading
end KDrive.LocalFsDev
