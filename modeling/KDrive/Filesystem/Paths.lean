import Mathlib.Data.List.Basic
import Mathlib.Tactic.Common

/-! Absolute paths as the list of their components, and the cleaning that takes a text
with separators to one: empty and `.` components go nowhere, `..` goes up. -/
namespace Filesystem

abbrev Path := List String

/-- The text between the separators. -/
def components (text : String) : List String := (text.toList.splitOn '/').map String.ofList

/-- One component further, from a clean path to a clean path. -/
def enter (dir : Path) (name : String) : Path :=
  if name = "" ∨ name = "." then dir
  else if name = ".." then dir.dropLast
  else dir ++ [name]

/-- The texts are joined with separators behind `dir`, and the result is cleaned. -/
def join (dir : Path) (texts : List String) : Path := (texts.flatMap components).foldl enter dir

/-- A component that leads to something below the directory it is looked up in. -/
def Proper (name : String) : Prop := name ≠ "" ∧ name ≠ "." ∧ name ≠ ".."

instance (name : String) : Decidable (Proper name) := inferInstanceAs (Decidable (_ ∧ _))

/-- A text that names something in a directory. -/
def IsName (text : String) : Prop := Proper text ∧ '/' ∉ text.toList

instance (text : String) : Decidable (IsName text) := inferInstanceAs (Decidable (_ ∧ _))

theorem components_injective : Function.Injective components := by
  intro first second same
  have lists : first.toList.splitOn '/' = second.toList.splitOn '/' :=
    List.map_injective_iff.mpr (fun _ _ => String.ofList_inj.mp) same
  have joined := congrArg (List.intercalate ['/']) lists
  rw [List.intercalate_splitOn, List.intercalate_splitOn] at joined
  exact String.toList_inj.mp joined

theorem components_name (noSlash : '/' ∉ text.toList) : components text = [text] := by
  rw [components, List.splitOn_eq_singleton noSlash, List.map_singleton, String.ofList_toList]

theorem not_mem_of_mem_splitOn [DecidableEq α] {sep : α} {text piece : List α}
    (member : piece ∈ text.splitOn sep) : sep ∉ piece := by
  induction text generalizing piece with
  | nil =>
    rw [List.splitOn_nil, List.mem_singleton] at member
    simp [member]
  | cons c rest ih =>
    rw [List.splitOn_cons_eq_if_modifyHead] at member
    split at member
    · rcases List.mem_cons.mp member with rfl | later
      · simp
      · exact ih later
    · rename_i other
      obtain ⟨first, others, split⟩ := List.exists_cons_of_ne_nil (List.splitOn_ne_nil sep rest)
      rw [split, List.modifyHead_cons] at member
      rcases List.mem_cons.mp member with rfl | later
      · have apart : sep ∉ first := ih (by rw [split]; exact List.mem_cons_self)
        have differs : c ≠ sep := by simpa using other
        simp [apart, Ne.symm differs]
      · exact ih (by rw [split]; exact List.mem_cons_of_mem _ later)

theorem noSlash_of_mem_components (member : name ∈ components text) : '/' ∉ name.toList := by
  obtain ⟨piece, inside, rfl⟩ := List.mem_map.mp member
  rw [String.toList_ofList]
  exact not_mem_of_mem_splitOn inside

theorem components_ne_nil (text : String) : components text ≠ [] := by
  simp [components, List.splitOn, List.splitOnP_ne_nil]

theorem enter_proper {dir : Path} (proper : Proper name) : enter dir name = dir ++ [name] := by
  obtain ⟨empty, here, up⟩ := proper
  simp [enter, empty, here, up]

theorem foldl_enter_proper {names : List String} (proper : ∀ name ∈ names, Proper name)
    (dir : Path) : names.foldl enter dir = dir ++ names := by
  induction names generalizing dir with
  | nil => simp
  | cons name rest ih =>
    rw [List.foldl_cons, enter_proper (proper name List.mem_cons_self),
      ih fun other member => proper other (List.mem_cons_of_mem _ member)]
    simp

theorem join_cons (dir : Path) (text : String) (texts : List String) :
    join dir (text :: texts) = join (join dir [text]) texts := by
  simp [join, List.foldl_append]

theorem join_proper {text : String} (proper : ∀ name ∈ components text, Proper name) (dir : Path) :
    join dir [text] = dir ++ components text := by
  simp only [join, List.flatMap_cons, List.flatMap_nil, List.append_nil]
  exact foldl_enter_proper proper dir

theorem join_name (name : IsName text) (dir : Path) : join dir [text] = dir ++ [text] := by
  have whole := components_name name.2
  rw [join_proper, whole]
  intro other member
  rw [whole, List.mem_singleton] at member
  rw [member]
  exact name.1

/-- A text with more behind it differs in its last component. -/
theorem splitOn_append (sep : Char) (text : List Char) : ∃ folder stem,
    ∀ more, sep ∉ more → (text ++ more).splitOn sep = folder ++ [stem ++ more] := by
  induction text with
  | nil => exact ⟨[], [], fun more plain => by simp [List.splitOn_eq_singleton plain]⟩
  | cons c rest ih =>
    obtain ⟨folder, stem, split⟩ := ih
    by_cases here : c = sep
    · refine ⟨[] :: folder, stem, fun more plain => ?_⟩
      rw [List.cons_append, List.splitOn_cons_eq_if_modifyHead, split more plain]
      simp [here]
    · cases folder with
      | nil =>
        refine ⟨[], c :: stem, fun more plain => ?_⟩
        rw [List.cons_append, List.splitOn_cons_eq_if_modifyHead, split more plain]
        simp [here]
      | cons first others =>
        refine ⟨(c :: first) :: others, stem, fun more plain => ?_⟩
        rw [List.cons_append, List.splitOn_cons_eq_if_modifyHead, split more plain]
        simp [here]

def folderOf (text : String) : List String := (components text).dropLast

def stemOf (text : String) : String := (components text).getLastD ""

theorem components_append (text : String) {more : String} (plain : '/' ∉ more.toList) :
    components (text ++ more) = folderOf text ++ [stemOf text ++ more] := by
  obtain ⟨folder, stem, split⟩ := splitOn_append '/' text.toList
  have alone := split [] (by simp)
  rw [List.append_nil, List.append_nil] at alone
  rw [folderOf, stemOf, components, components, String.toList_append, split _ plain, alone]
  simp

theorem stemOf_noSlash (text : String) : '/' ∉ (stemOf text).toList := by
  have whole : components (text ++ "") = folderOf text ++ [stemOf text ++ ""] :=
    components_append text (by simp)
  rw [String.append_empty, String.append_empty] at whole
  have member : stemOf text ∈ components text := by simp [whole]
  exact noSlash_of_mem_components member

theorem components_noSlash_append {text : String} (noSlash : '/' ∉ text.toList) :
    folderOf text = [] ∧ stemOf text = text := by
  simp [folderOf, stemOf, components_name noSlash]

/-- A text whose end makes its last component a name. -/
theorem join_append (dir : Path) (text : String) {more : String} (plain : '/' ∉ more.toList)
    (proper : Proper (stemOf text ++ more)) :
    join dir [text ++ more] = (folderOf text).foldl enter dir ++ [stemOf text ++ more] := by
  simp only [join, List.flatMap_cons, List.flatMap_nil, List.append_nil,
    components_append text plain, List.foldl_append, List.foldl_cons, List.foldl_nil]
  exact enter_proper proper

/-- From the `n`-th component on a path has names only. -/
def Named (n : Nat) (path : Path) : Prop := ∀ name ∈ path.drop n, IsName name

theorem named_self (dir : Path) : Named dir.length dir := by simp [Named]

theorem Named.concat (named : Named n dir) (isName : IsName name) : Named n (dir ++ [name]) := by
  intro other member
  rw [List.drop_append] at member
  rcases List.mem_append.mp member with earlier | last
  · exact named other earlier
  · have here := List.mem_singleton.mp (List.mem_of_mem_drop last)
    exact here ▸ isName

theorem Named.of_above (named : Named n path) (above : dir <+: path) : Named n dir := by
  obtain ⟨rest, rfl⟩ := above
  intro name member
  refine named name ?_
  rw [List.drop_append]
  exact List.mem_append_left _ member

theorem Named.enter (named : Named n dir) (noSlash : '/' ∉ name.toList) :
    Named n (enter dir name) := by
  unfold Filesystem.enter
  split
  · exact named
  · split
    · exact named.of_above (List.dropLast_prefix dir)
    · rename_i stays up
      rw [not_or] at stays
      exact named.concat ⟨⟨stays.1, stays.2, up⟩, noSlash⟩

theorem Named.foldl_enter (named : Named n dir) {names : List String}
    (noSlash : ∀ name ∈ names, '/' ∉ name.toList) : Named n (names.foldl Filesystem.enter dir) := by
  induction names generalizing dir with
  | nil => exact named
  | cons name rest ih =>
    refine ih (named.enter (noSlash name List.mem_cons_self)) ?_
    exact fun other member => noSlash other (List.mem_cons_of_mem _ member)

theorem Named.join (named : Named n dir) (texts : List String) : Named n (join dir texts) := by
  refine named.foldl_enter fun name member => ?_
  obtain ⟨text, _, inside⟩ := List.mem_flatMap.mp member
  exact noSlash_of_mem_components inside

/-- Strictly below a directory. -/
def Below (dir path : Path) : Prop := dir <+: path ∧ path ≠ dir

instance (dir path : Path) : Decidable (Below dir path) := inferInstanceAs (Decidable (_ ∧ _))

theorem below_append {names : List String} (some : names ≠ []) (dir : Path) :
    Below dir (dir ++ names) := by
  refine ⟨List.prefix_append _ _, fun same => some ?_⟩
  exact List.append_right_eq_self.mp same

theorem below_concat {dir path : Path} {name : String} :
    Below dir (path ++ [name]) ↔ dir <+: path := by
  constructor
  · rintro ⟨above, other⟩
    rcases List.prefix_concat_iff.mp above with same | above
    · exact absurd same.symm other
    · exact above
  · intro above
    refine ⟨above.trans (List.prefix_append _ _), fun same => ?_⟩
    have length := above.length_le
    rw [← same, List.length_append, List.length_singleton] at length
    omega

/-- Not one inside the other. -/
def Apart (first second : Path) : Prop := ¬ first <+: second ∧ ¬ second <+: first

instance (first second : Path) : Decidable (Apart first second) := inferInstanceAs (Decidable (_ ∧ _))

theorem Apart.symm (apart : Apart first second) : Apart second first := ⟨apart.2, apart.1⟩

theorem Apart.not_both (apart : Apart first second) (under : first <+: path) :
    ¬ second <+: path := by
  intro other
  rcases Nat.le_total first.length second.length with shorter | longer
  · exact apart.1 (List.prefix_of_prefix_length_le under other shorter)
  · exact apart.2 (List.prefix_of_prefix_length_le other under longer)

end Filesystem
