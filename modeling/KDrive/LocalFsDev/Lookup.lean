import KDrive.LocalFsDev.Represents

/-! What the provider reads when its files represent a bucket: the version on top, the
version with an ID, and its body. -/
namespace KDrive.LocalFsDev
open Go Blobstore Filesystem Interaction
variable {p : Provider} {s : Setting} {w : World} {b : Bucket} {key id : String} {v : Version}

section Ways

/-- No file stands on the way to a directory. -/
def Clear (look : Path → Option (Node Content)) (dir : Path) : Prop :=
  ∀ above content, above <+: dir → look above ≠ some (.file content)

theorem Clear.unblocked {t : Filesystem.Tree Content} (clear : Clear t.look dir) :
    t.blocked dir = false := by
  rw [Bool.eq_false_iff, ne_eq, Tree.blocked_iff]
  rintro ⟨above, start, _, file⟩
  obtain ⟨content, found⟩ := Tree.isFile_iff.mp file
  exact clear above content start found

theorem Clear.noFile {t : Filesystem.Tree Content} (clear : Clear t.look dir) : t.isFile dir = false := by
  rw [Bool.eq_false_iff, ne_eq, Tree.isFile_iff]
  rintro ⟨content, found⟩
  exact clear dir content (List.prefix_refl _) found

/-- A file that is not there is missing for no other reason. -/
theorem Clear.missing {t : Filesystem.Tree Content} (clear : Clear t.look dir) (name : String) :
    t.missing (dir ++ [name]) = .notExist := by
  refine if_neg fun blocked => ?_
  obtain ⟨above, start, other, file⟩ := Tree.blocked_iff.mp blocked
  obtain ⟨content, found⟩ := Tree.isFile_iff.mp file
  rcases List.prefix_concat_iff.mp start with same | start
  · exact other same
  · exact clear above content start found

theorem Provider.Represents.clear (rep : p.Represents w b) (plain : Plain key) :
    Clear w.tree.look (p.versionsDir key) := by
  intro above content start found
  have home := (rep.shelf key plain).home
  rw [plain.versionsDir] at start home
  rcases List.prefix_concat_iff.mp start with same | start
  · rw [same] at found
    rcases home with there | ⟨absent, _⟩
    · rw [there] at found
      cases found
    · rw [absent] at found
      cases found
  · rw [rep.way above start] at found
    cases found

theorem Provider.Represents.clear_staging (rep : p.Represents w b) (plain : Plain key)
    (isName : IsName id) : Clear w.tree.look (p.multipartDir key id) := by
  intro above content start found
  have long := plain.long (p := p) isName
  by_cases staged : p.staging <+: above
  · by_cases whole : above = p.multipartDir key id
    · have tray := rep.tray key id plain isName
      rw [whole] at found
      cases here : b.staged key id with
      | none =>
        rw [here] at tray
        rw [tray _ (List.prefix_refl _)] at found
        contradiction
      | some st =>
        rw [here] at tray
        rw [tray.1] at found
        cases found
    · have shorter : above.length < (p.multipartDir key id).length :=
        Nat.lt_of_le_of_ne start.length_le fun same => whole (start.eq_of_length same)
      exact rep.unfiled above content staged (by omega) found
  · have outer := (List.prefix_or_prefix_of_prefix start (plain.staged isName)).resolve_right staged
    rcases List.prefix_concat_iff.mp outer with same | outer
    · exact staged (same ▸ List.prefix_refl _)
    · rw [rep.way above outer] at found
      cases found

end Ways

section Versions

theorem Provider.Represents.version_mem (found : b.version ⟨key, id⟩ = some v) :
    v ∈ b.stack key ∧ v.versionID = id := by
  refine ⟨List.mem_of_find?_eq_some found, ?_⟩
  simpa using List.find?_some found

theorem Provider.Represents.listing (rep : p.Represents w b) (plain : Plain key) :
    ∃ versions, p.versions w.tree key = .ok versions ∧
      versions.Perm ((b.stack key).map (Version.sidecar key)) ∧
      versions.Pairwise fun first second => first.writeTime ≤ second.writeTime :=
  (rep.shelf key plain).versions (rep.distinct key) (rep.clear plain).unblocked

/-- The listing is the stack, the oldest version first. -/
theorem Provider.Represents.ordered_listing (rep : p.Represents w b) (ordered : b.Ordered)
    (plain : Plain key) :
    p.versions w.tree key = .ok ((b.stack key).reverse.map (Version.sidecar key)) := by
  obtain ⟨versions, listed, perm, sorted⟩ := rep.listing plain
  rw [listed, eq_reverse_of_perm (ordered key).1 perm sorted]

theorem latestVersion_reverse (stack : List Version) :
    latestVersion (stack.reverse.map (Version.sidecar key)) = stack.head?.map (Version.sidecar key) := by
  rw [latestVersion, List.getLast?_map, List.getLast?_reverse]

theorem latestNonDeleteMarker_reverse (stack : List Version) :
    latestNonDeleteMarker (stack.reverse.map (Version.sidecar key)) =
      (stack.find? fun v => v.body.isSome).map (Version.sidecar key) := by
  rw [latestNonDeleteMarker, ← List.map_reverse, List.reverse_reverse, List.find?_map]
  congr 2
  funext v
  cases body : v.body <;> simp [Version.sidecar, body]

variable {post : Except GoError Sidecar → World → Prop}

variable (quiet : ¬ s.fails)
include quiet

theorem ends_readVersion (rep : p.Represents w b) (plain : Plain key) (noSlash : '/' ∉ id.toList)
    (found : ∀ v, b.version ⟨key, id⟩ = some v → post (.ok (v.sidecar key)) w)
    (absent : ∀ err, b.version ⟨key, id⟩ = none → err.is errNotFound = true → post (.error err) w) :
    Ends s (p.readSidecar key id).run post w := by
  refine Acts.step (ends_readJSON quiet ?_)
  have files := (rep.shelf key plain).files (id ++ ".json")
  rw [filesOf_json] at files
  rw [meta_noSlash noSlash]
  cases here : b.version ⟨key, id⟩ with
  | some v =>
    rw [Bucket.version] at here
    rw [here] at files
    rw [parsed_file files]
    exact found v here
  | none =>
    rw [Bucket.version] at here
    rw [here] at files
    have missing : parsed w.tree (p.versionsDir key ++ [id ++ ".json"]) Content.asSidecar =
        .error errNotExist := by
      simp only [parsed, Tree.fileAt, files, Option.map_none, (rep.clear plain).missing]
      rfl
    rw [missing]
    exact absent _ here rfl

omit quiet in
/-- The body of a version is there unless it is a delete marker. -/
theorem Provider.Represents.body (rep : p.Represents w b) (plain : Plain key)
    (member : v ∈ b.stack key) : w.tree.nodeAt (p.versionBodyPath key v.versionID) =
      match v.body with
      | some data => .ok (.file (.bytes data))
      | none => .error .notExist := by
  have distinct := rep.distinct key
  have files := (rep.shelf key plain).files (v.versionID ++ ".bin")
  rw [filesOf_bin, find_versionID distinct.nodup member, Option.bind_some] at files
  rw [body_noSlash (distinct.isID v member).noSlash, Tree.nodeAt, files, (rep.clear plain).missing]
  cases v.body <;> rfl

/-- The current version is the last one listed, unless that is a delete marker. -/
theorem ends_current (listed : p.versions w.tree key = .ok versions)
    (found : ∀ sc, latestVersion versions = some sc → sc.isDeleteMarker = false → post (.ok sc) w)
    (absent : (∀ sc, latestVersion versions = some sc → sc.isDeleteMarker = true) →
      post (.error (Provider.notFound key)) w) : Ends s (p.current key).run post w := by
  refine Acts.step (ends_listVersions quiet ?_)
  rw [listed]
  simp only [Continues]
  cases latest : latestVersion versions with
  | none => exact absent fun sc impossible => by rw [latest] at impossible; contradiction
  | some sc =>
    cases marker : sc.isDeleteMarker with
    | false =>
      simp only [marker, Bool.false_eq_true, if_false]
      exact found sc latest marker
    | true =>
      simp only [marker, if_true]
      refine absent fun other same => ?_
      rw [latest] at same
      rw [← Option.some.inj same, marker]

/-- A copy is made of the last version listed that is no delete marker. -/
theorem ends_newest (src : VersionedObjectRef) (given : src.versionID = "")
    (listed : p.versions w.tree src.key = .ok versions)
    (found : ∀ sc, latestNonDeleteMarker versions = some sc → post (.ok sc) w)
    (absent : ∀ err, latestNonDeleteMarker versions = none → err.is errNotFound = true →
      post (.error err) w) : Ends s (p.source src).run post w := by
  unfold Provider.source
  rw [if_neg (not_not.mpr given)]
  refine Acts.step (ends_listVersions quiet ?_)
  rw [listed]
  simp only [Continues]
  cases latest : latestNonDeleteMarker versions with
  | none => exact absent _ latest rfl
  | some sc => exact found sc latest

/-- The version that is read. -/
theorem ends_chosen (rep : p.Represents w b) (ordered : b.Ordered)
    {ref : VersionedObjectRef} (plain : Plain ref.key) (noSlash : '/' ∉ ref.versionID.toList)
    (found : ∀ v ∈ b.stack ref.key, (b.current ref = v.body.map fun data => (v, data)) →
      (ref.versionID = "" → v.body ≠ none) → post (.ok (v.sidecar ref.key)) w)
    (absent : ∀ err, b.current ref = none → err.is errNotFound = true → post (.error err) w) :
    Ends s (p.chosen ref).run post w := by
  unfold Provider.chosen
  by_cases given : ref.versionID = ""
  · have top : b.current ref = (b.stack ref.key).head?.bind fun v =>
        v.body.map fun data => (v, data) := by rw [Bucket.current, if_pos given]
    rw [if_neg (not_not.mpr given)]
    refine ends_current quiet (rep.ordered_listing ordered plain) (fun sc latest whole => ?_)
      fun marker => absent _ ?_ rfl
    · rw [latestVersion_reverse] at latest
      obtain ⟨v, here, rfl⟩ := Option.map_eq_some_iff.mp latest
      rw [here] at top
      refine found v (List.mem_of_mem_head? here) top fun _ empty => ?_
      simp [Version.sidecar, empty] at whole
    · rw [latestVersion_reverse] at marker
      rw [top]
      cases here : (b.stack ref.key).head? with
      | none => rfl
      | some v =>
        have deleted := marker (v.sidecar ref.key) (by rw [here]; rfl)
        cases body : v.body with
        | none => rw [Option.bind_some, body]; rfl
        | some data => simp [Version.sidecar, body] at deleted
  · have byID : b.current ref = (b.version ref).bind fun v =>
        v.body.map fun data => (v, data) := by rw [Bucket.current, if_neg given]
    rw [if_pos given]
    refine ends_readVersion quiet rep plain noSlash (fun v here => ?_) fun err here missing => ?_
    · refine found v (Provider.Represents.version_mem here).1 ?_ fun impossible => absurd impossible given
      rw [byID, here, Option.bind_some]
    · refine absent err ?_ missing
      rw [byID, here, Option.bind_none]

/-- The version that is copied. -/
theorem ends_source (rep : p.Represents w b) (ordered : b.Ordered)
    {src : VersionedObjectRef} (plain : Plain src.key) (noSlash : '/' ∉ src.versionID.toList)
    (found : ∀ v ∈ b.stack src.key, (b.source src = v.body.map fun data => (v, data)) →
      post (.ok (v.sidecar src.key)) w)
    (absent : ∀ err, b.source src = none → err.is errNotFound = true → post (.error err) w) :
    Ends s (p.source src).run post w := by
  by_cases given : src.versionID = ""
  · have newest : b.source src = ((b.stack src.key).find? fun v => v.body.isSome).bind fun v =>
        v.body.map fun data => (v, data) := by rw [Bucket.source, if_pos given]
    refine ends_newest quiet src given (rep.ordered_listing ordered plain) (fun sc latest => ?_)
      fun err none missing => absent err ?_ missing
    · rw [latestNonDeleteMarker_reverse] at latest
      obtain ⟨v, here, rfl⟩ := Option.map_eq_some_iff.mp latest
      rw [here] at newest
      exact found v (List.mem_of_find?_eq_some here) newest
    · rw [latestNonDeleteMarker_reverse, Option.map_eq_none_iff] at none
      rw [newest, none, Option.bind_none]
  · have byID : b.source src = (b.version src).bind fun v =>
        v.body.map fun data => (v, data) := by rw [Bucket.source, if_neg given]
    unfold Provider.source
    rw [if_pos given]
    refine ends_readVersion quiet rep plain noSlash (fun v here => ?_) fun err here missing => ?_
    · refine found v (Provider.Represents.version_mem here).1 ?_
      rw [byID, here, Option.bind_some]
    · refine absent err ?_ missing
      rw [byID, here, Option.bind_none]

theorem ends_anyVersion (rep : p.Represents w b) (plain : Plain key)
    {post : Except GoError Bool → World → Prop}
    (next : post (.ok (decide (b.stack key ≠ []))) w) : Ends s (p.hasAnyVersionLocked key).run post w := by
  refine ends_hasAnyVersion quiet ?_
  have any := (rep.shelf key plain).anyVersion (rep.distinct key).nodup
  rwa [Bool.eq_iff_iff.mpr (any.trans decide_eq_true_iff.symm)]

end Versions
end KDrive.LocalFsDev
