import KDrive.LocalFsDev.Lookup
import KDrive.Paging.Markers

/-! The pages of `ListObjects`: a reader who follows the cursors sees the newest version
of every key that has one with a body, in the order of the keys. -/
namespace KDrive.LocalFsDev
open Go Blobstore Filesystem Interaction Paging
variable {p : Provider} {s : Setting} {w : World} {b : Bucket} {t : Filesystem.Tree Content} {key : String}

/-- What is listed for a key. -/
def Provider.metaOf (p : Provider) (t : Filesystem.Tree Content) (key : String) : Option ObjectMeta :=
  match p.versions t key with
  | .ok versions => (latestNonDeleteMarker versions).map sidecarToMeta
  | .error _ => none

/-- What the loop over the entries of the root collects. -/
def Provider.collected (p : Provider) (t : Filesystem.Tree Content) (start cursor : String)
    (entries : List (String × Bool)) : List ObjectMeta :=
  entries.filterMap fun entry =>
    if !entry.2 ∨ (start ≠ "" ∧ !hasPrefix entry.1 start) ∨ (cursor ≠ "" ∧ entry.1 ≤ cursor)
    then none else p.metaOf t entry.1

/-- The objects behind a cursor, in the order of their keys. -/
def Provider.objects (p : Provider) (t : Filesystem.Tree Content) (cursor : String) : List ObjectMeta :=
  (p.collected t "" cursor ((t.names p.root).map fun name =>
    (name, t.isDir (p.root ++ [name])))).insertionSort fun first second => first.key ≤ second.key

section Listing

theorem ends_listed (quiet : ¬ s.fails) {start cursor : String} (entries : List (String × Bool))
    {post : Except GoError (List ObjectMeta) → World → Prop}
    (next : post (.ok (p.collected w.tree start cursor entries)) w) :
    Ends s (p.listed start cursor entries).run post w := by
  induction entries generalizing post with
  | nil => exact next
  | cons entry rest ih =>
    obtain ⟨name, isDir⟩ := entry
    rw [Provider.listed]
    unfold Provider.collected at next
    rw [List.filterMap_cons] at next
    split
    · rename_i skip
      simp only [skip, if_true] at next
      exact ih next
    · rename_i keep
      simp only [keep, if_false] at next
      refine Acts.step (Acts.tryCatch (ends_listVersions quiet ?_))
      unfold Provider.metaOf at next
      cases listed : p.versions w.tree name with
      | error err =>
        rw [listed] at next
        exact ih next
      | ok versions =>
        rw [listed] at next
        simp only [Handled, Continues]
        cases latest : latestNonDeleteMarker versions with
        | none =>
          simp only [latest, Option.map_none] at next
          exact ih next
        | some sc =>
          simp only [latest, Option.map_some] at next
          exact Acts.step (ih next)

theorem ends_listObjects (quiet : ¬ s.fails) {cursor : String} {maxKeys : Int}
    (rooted : w.tree.look p.root = some .dir)
    {post : Except GoError Provider.ObjectPage → World → Prop}
    (next : post (.ok (Provider.objectPage (p.collected w.tree "" cursor ((w.tree.names p.root).map
      fun name => (name, w.tree.isDir (p.root ++ [name])))) maxKeys)) w) :
    Ends s (p.listObjects "" cursor maxKeys).run post w := by
  refine Acts.step (Acts.step (ends_call quiet (by simp) Tree.perform_readDir ?_))
  simp only [Tree.entries, rooted]
  exact Acts.step (ends_listed quiet _ next)

end Listing

section Contents

theorem plain_name (tidy : p.Tidy t) (inside : name ∈ t.names p.root) :
    name = "_multipart" ∨ Plain name := by
  by_cases staging : name = "_multipart"
  · exact .inl staging
  · have there := Option.isSome_iff_ne_none.mp (Tree.mem_names.mp inside)
    exact .inr ⟨tidy.names there name (List.mem_singleton_self _), staging⟩

/-- There is nothing to list in the staging area. -/
theorem metaOf_staging (rep : p.Represents w b) (tidy : p.Tidy w.tree) :
    p.metaOf w.tree "_multipart" = none := by
  have staging : p.versionsDir "_multipart" = p.staging := by
    have isName : IsName "_multipart" := by decide
    exact join_name isName _
  unfold Provider.metaOf Provider.versions Tree.entries
  rw [staging]
  cases found : w.tree.look p.staging with
  | none =>
    cases w.tree.missing p.staging <;> rfl
  | some node =>
    cases node with
    | file content => exact absurd found (rep.unfiled _ content (List.prefix_refl _) (by omega))
    | dir =>
      have bare : sidecarsIn w.tree p.staging ((w.tree.names p.staging).map fun name =>
          (name, w.tree.isDir (p.staging ++ [name]))) = [] := by
        unfold sidecarsIn
        rw [List.filterMap_map, List.filterMap_eq_nil_iff]
        intro name inside
        have there := Option.isSome_iff_ne_none.mp (Tree.mem_names.mp inside)
        have isName : IsName name := by
          rw [Provider.staging, List.append_assoc] at there
          exact tidy.names there name (by simp)
        simp only [Function.comp]
        split
        · rw [join_name isName]
          have short : (p.staging ++ [name]).length ≤ p.staging.length + 1 := by simp
          have unfiled := fun content => rep.unfiled _ content (List.prefix_append _ [name]) short
          simp only [parsed, Tree.fileAt]
          cases found : w.tree.look (p.staging ++ [name]) with
          | none => rfl
          | some node =>
            cases node with
            | dir => rfl
            | file content => exact absurd found (unfiled content)
        · rfl
      simp only [bare]
      have sorted : p.sortVersions [] = [] := (p.sorts []).1.eq_nil
      rw [sorted]
      rfl

theorem metaOf_key (rep : p.Represents w b) (tidy : p.Tidy w.tree) (inside : name ∈ w.tree.names p.root)
    (found : p.metaOf w.tree name = some info) : info.key = name := by
  rcases plain_name tidy inside with rfl | plain
  · rw [metaOf_staging rep tidy] at found
    contradiction
  · obtain ⟨versions, listed, perm, _⟩ := rep.listing plain
    simp only [Provider.metaOf, listed] at found
    obtain ⟨sc, latest, rfl⟩ := Option.map_eq_some_iff.mp found
    have member : sc ∈ versions := List.mem_reverse.mp (List.mem_of_find?_eq_some latest)
    obtain ⟨v, _, rfl⟩ := List.mem_map.mp (perm.mem_iff.mp member)
    rfl

theorem mem_objects : info ∈ p.objects t cursor ↔ ∃ name, name ∈ t.names p.root ∧
    t.isDir (p.root ++ [name]) = true ∧ (cursor ≠ "" → cursor < name) ∧ p.metaOf t name = some info := by
  unfold Provider.objects Provider.collected
  rw [List.mem_insertionSort, List.filterMap_map, List.mem_filterMap]
  refine exists_congr fun name => and_congr_right fun _ => ?_
  simp only [Function.comp]
  split
  · rename_i skip
    constructor
    · intro impossible
      contradiction
    · rintro ⟨isDir, behind, _⟩
      rcases skip with noDir | other | ⟨some, before⟩
      · simp [isDir] at noDir
      · exact absurd rfl other.1
      · exact absurd (behind some) (not_lt.mpr before)
  · rename_i keep
    rw [not_or, not_or] at keep
    obtain ⟨isDir, _, behind⟩ := keep
    refine ⟨fun found => ⟨by simpa using isDir, fun some => ?_, found⟩, fun ⟨_, _, found⟩ => found⟩
    exact not_le.mp fun before => behind ⟨some, before⟩

/-- Every key is listed once. -/
theorem objects_strict (rep : p.Represents w b) (tidy : p.Tidy w.tree) (cursor : String) :
    (p.objects w.tree cursor).Pairwise fun first second => first.key < second.key := by
  have total : Std.Total fun first second : ObjectMeta => first.key ≤ second.key :=
    ⟨fun first second => le_total _ _⟩
  have trans : IsTrans ObjectMeta fun first second => first.key ≤ second.key :=
    ⟨fun _ _ _ => le_trans⟩
  have sorted : (p.objects w.tree cursor).Pairwise fun first second => first.key ≤ second.key :=
    List.pairwise_insertionSort _ _
  have nodup : ((p.objects w.tree cursor).map ObjectMeta.key).Nodup := by
    unfold Provider.objects Provider.collected
    refine ((List.perm_insertionSort _ _).map _).nodup_iff.mpr ?_
    rw [List.filterMap_map, List.Nodup, List.pairwise_map, List.pairwise_filterMap]
    refine Tree.names_nodup.imp_of_mem fun {first second} inFirst inSecond differ => ?_
    intro info found info' found' same
    simp only [Function.comp] at found found'
    split at found
    · contradiction
    · split at found'
      · contradiction
      · rw [metaOf_key rep tidy inFirst found, metaOf_key rep tidy inSecond found'] at same
        exact differ same
  rw [List.Nodup, List.pairwise_map] at nodup
  exact sorted.imp₂ (fun _ _ le differ => lt_of_le_of_ne le differ) nodup

theorem strict_ext {first second : List ObjectMeta}
    (inOrder : first.Pairwise fun a b => a.key < b.key)
    (inOrder' : second.Pairwise fun a b => a.key < b.key) (same : ∀ info, info ∈ first ↔ info ∈ second) :
    first = second := by
  have nodup : ∀ {infos : List ObjectMeta}, (infos.Pairwise fun a b => a.key < b.key) → infos.Nodup :=
    fun inOrder => inOrder.imp fun less equal => absurd (equal ▸ less) (lt_irrefl _)
  refine List.Perm.eq_of_pairwise (fun a b _ _ less more => absurd (less.trans more) (lt_irrefl _))
    inOrder inOrder' ?_
  exact (List.perm_ext_iff_of_nodup (nodup inOrder) (nodup inOrder')).mpr same

/-- What is behind a cursor is what a reader who resumes there still sees. -/
theorem objects_after (rep : p.Represents w b) (tidy : p.Tidy w.tree) (cursor : String) :
    p.objects w.tree cursor =
      after ObjectMeta.key (if cursor = "" then none else some cursor) (p.objects w.tree "") := by
  by_cases empty : cursor = ""
  · rw [if_pos empty, empty]
    rfl
  · rw [if_neg empty]
    refine strict_ext (objects_strict rep tidy cursor) ((objects_strict rep tidy "").filter _)
      fun info => ?_
    simp only [after, List.mem_filter, mem_objects, decide_eq_true_eq]
    constructor
    · rintro ⟨name, inside, isDir, behind, found⟩
      refine ⟨⟨name, inside, isDir, fun impossible => absurd rfl impossible, found⟩, ?_⟩
      rw [metaOf_key rep tidy inside found]
      exact behind empty
    · rintro ⟨⟨name, inside, isDir, _, found⟩, behind⟩
      rw [metaOf_key rep tidy inside found] at behind
      exact ⟨name, inside, isDir, fun _ => behind, found⟩

/-- A key is listed if one of its versions has a body. -/
theorem key_listed (rep : p.Represents w b) (tidy : p.Tidy w.tree) (plain : Plain key)
    (versions : p.versions w.tree key = .ok all) :
    key ∈ (p.objects w.tree "").map ObjectMeta.key ↔ latestNonDeleteMarker all ≠ none := by
  have told : p.metaOf w.tree key = (latestNonDeleteMarker all).map sidecarToMeta := by
    simp only [Provider.metaOf, versions]
  constructor
  · intro listed absent
    obtain ⟨info, member, same⟩ := List.mem_map.mp listed
    obtain ⟨name, inside, _, _, found⟩ := mem_objects.mp member
    rw [← metaOf_key rep tidy inside found, same, told, absent] at found
    contradiction
  · intro some
    obtain ⟨sc, latest⟩ := Option.ne_none_iff_exists'.mp some
    have stocked : b.stack key ≠ [] := by
      obtain ⟨versions', listed, perm, _⟩ := rep.listing plain
      rw [versions] at listed
      cases listed
      intro empty
      rw [empty, List.map_nil] at perm
      rw [perm.eq_nil] at latest
      contradiction
    have home := (rep.shelf key plain).home.resolve_right fun absent => stocked absent.2
    rw [plain.versionsDir] at home
    have inside : key ∈ w.tree.names p.root := Tree.mem_names.mpr (by rw [home]; rfl)
    rw [latest, Option.map_some] at told
    have member : sidecarToMeta sc ∈ p.objects w.tree "" :=
      mem_objects.mpr ⟨key, inside, (Tree.isDir_iff ..).mpr home, fun impossible =>
        absurd rfl impossible, told⟩
    exact List.mem_map.mpr ⟨_, member, metaOf_key rep tidy inside told⟩

end Contents

section Walks

theorem pageSize_pos (maxKeys : Int) : 0 < Provider.pageSize maxKeys := by
  unfold Provider.pageSize
  split
  · decide
  · omega

/-- A reader goes through the pages, from one cursor to the next. -/
inductive Provider.Walks (p : Provider) (maxKeys : Int) :
    World → String → List ObjectMeta → Prop where
  | last {w w' : World} {page : Provider.ObjectPage} :
      p.Step calm w ⟨.listObjects "" cursor maxKeys, .ok page⟩ w' →
      page.isTruncated = false → Walks p maxKeys w cursor page.objects
  | next {w w' : World} {page : Provider.ObjectPage} :
      p.Step calm w ⟨.listObjects "" cursor maxKeys, .ok page⟩ w' →
      page.isTruncated = true → Walks p maxKeys w' page.nextCursor found →
      Walks p maxKeys w cursor (page.objects ++ found)

/-- What the step of a reader gives: the first objects behind the cursor, and the cursor to
go on from if there are more. -/
structure Provider.Turns (p : Provider) (w : World) (cursor : String) (maxKeys : Int)
    (page : Provider.ObjectPage) : Prop where
  objects : page.objects = (p.objects w.tree cursor).take (Provider.pageSize maxKeys)
  ended : page.isTruncated = false →
    (p.objects w.tree cursor).length ≤ Provider.pageSize maxKeys
  further : page.isTruncated = true → (Paging.page ObjectMeta.key (Provider.pageSize maxKeys)
    (p.objects w.tree cursor)).next = some page.nextCursor

theorem turns_objectPage (cursor : String) (maxKeys : Int) :
    p.Turns w cursor maxKeys (Provider.objectPage (p.collected w.tree "" cursor
      ((w.tree.names p.root).map fun name => (name, w.tree.isDir (p.root ++ [name])))) maxKeys) := by
  have positive := pageSize_pos maxKeys
  unfold Provider.objectPage
  change p.Turns w cursor maxKeys (if ((p.objects w.tree cursor).take
    (Provider.pageSize maxKeys)).length < (p.objects w.tree cursor).length then _ else _)
  rw [List.length_take]
  split
  · rename_i more
    refine ⟨rfl, fun impossible => by contradiction, fun _ => ?_⟩
    have long : ¬ (p.objects w.tree cursor).length ≤ Provider.pageSize maxKeys := by omega
    have some : (p.objects w.tree cursor).take (Provider.pageSize maxKeys) ≠ [] := by
      rw [ne_eq, List.take_eq_nil_iff, ← List.length_eq_zero_iff]
      omega
    simp only [Paging.page, if_neg long]
    change _ = Option.some ((((p.objects w.tree cursor).take
      (Provider.pageSize maxKeys)).getLast?.map ObjectMeta.key).getD "")
    rw [List.getLast?_eq_some_getLast some]
    rfl
  · rename_i all
    exact ⟨rfl, fun _ => by omega, fun impossible => by contradiction⟩

theorem step_listObjects (rep : p.Represents w b)
    (step : p.Step calm w ⟨.listObjects "" cursor maxKeys, answer⟩ w') :
    w' = w ∧ ∃ page, answer = .ok page ∧ p.Turns w cursor maxKeys page := by
  have ends : Ends calm (p.listObjects "" cursor maxKeys).run (fun answer w' => w' = w ∧
      ∃ page, answer = .ok page ∧ p.Turns w cursor maxKeys page) w :=
    ends_listObjects quiet_calm (rep.way _ (List.prefix_refl _))
      ⟨rfl, _, rfl, turns_objectPage cursor maxKeys⟩
  exact ends.runs step

/-- The page that follows is about what this one left out. -/
theorem objects_next {page : Provider.ObjectPage} (rep : p.Represents w b) (tidy : p.Tidy w.tree)
    (turns : p.Turns w cursor maxKeys page) (more : page.isTruncated = true) :
    p.objects w.tree page.nextCursor =
      (p.objects w.tree cursor).drop (Provider.pageSize maxKeys) := by
  have strict := objects_strict rep tidy cursor
  have positive := pageSize_pos maxKeys
  have further := turns.further more
  obtain ⟨last, _, _, before, _, same, _⟩ := page_boundary further
  obtain ⟨name, inside, _, behind, found⟩ := mem_objects.mp (List.mem_of_getElem? before)
  have named := metaOf_key rep tidy inside found
  have nonempty : page.nextCursor ≠ "" := by
    have there := Option.isSome_iff_ne_none.mp (Tree.mem_names.mp inside)
    have isName := tidy.names there name (List.mem_singleton_self _)
    rw [← same, named]
    rintro rfl
    exact absurd isName (by decide)
  rw [← after_page_strict strict positive further, objects_after rep tidy page.nextCursor,
    if_neg nonempty, objects_after rep tidy cursor]
  refine (after_after fun k given => ?_).symm
  split at given
  · contradiction
  · rename_i real
    cases given
    rw [← same, named]
    exact behind real

/-- Who goes through the pages to the last one has seen every object once. -/
theorem Provider.Walks.found (walks : p.Walks maxKeys w cursor seen) (rep : p.Represents w b)
    (tidy : p.Tidy w.tree) : seen = p.objects w.tree cursor := by
  induction walks with
  | last step ended =>
    obtain ⟨_, page, same, turns⟩ := step_listObjects rep step
    cases same
    rw [turns.objects]
    exact List.take_of_length_le (turns.ended ended)
  | next step more _ ih =>
    obtain ⟨rfl, page, same, turns⟩ := step_listObjects rep step
    cases same
    rw [ih rep tidy, objects_next rep tidy turns more, turns.objects, List.take_append_drop]

/-- The pages come to an end. -/
theorem exists_walk (rep : p.Represents w b) (tidy : p.Tidy w.tree) (maxKeys : Int)
    (cursor : String) : ∃ found, p.Walks maxKeys w cursor found := by
  -- Every page that is not the last one leaves less to list.
  induction left : (p.objects w.tree cursor).length using Nat.strong_induction_on
    generalizing cursor with
  | h left ih =>
    obtain ⟨answer, w', step⟩ :=
      exists_runs calm_total (p.body (.listObjects "" cursor maxKeys)).run w
    obtain ⟨rfl, page, rfl, turns⟩ := step_listObjects rep step
    cases more : page.isTruncated with
    | false => exact ⟨_, .last step more⟩
    | true =>
      have rest := congrArg List.length (objects_next rep tidy turns more)
      have long := (page_next (turns.further more)).1
      have positive := pageSize_pos maxKeys
      rw [List.length_drop] at rest
      obtain ⟨found, walks⟩ := ih _ (by omega) page.nextCursor rfl
      exact ⟨_, .next step more walks⟩

end Walks
end KDrive.LocalFsDev
