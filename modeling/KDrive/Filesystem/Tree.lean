import KDrive.Filesystem.Paths
import Mathlib.Data.List.AList
import Mathlib.Data.List.Sort
import Mathlib.Data.String.Basic

/-! A tree of directories and files, as what is found under every path. Files hold values
of any type. -/
namespace Filesystem

inductive Node (κ : Type) where
  | dir
  | file (content : κ)
  deriving DecidableEq

structure Tree (κ : Type) where
  nodes : AList (fun _ : Path => Node κ) := ∅

namespace Tree
variable {κ : Type} (t : Tree κ) (path other : Path) (node : Node κ)

/-- The top is always a directory. -/
def look : Option (Node κ) := if path = [] then some .dir else t.nodes.lookup path

def isFile : Bool :=
  match t.look path with
  | some (.file _) => true
  | _ => false

def isDir : Bool :=
  match t.look path with
  | some .dir => true
  | _ => false

def set : Tree κ := ⟨t.nodes.insert path node⟩

def unset : Tree κ := ⟨t.nodes.erase path⟩

/-- Without a path and everything below it. -/
def cut : Tree κ :=
  ⟨⟨t.nodes.entries.filter fun entry => ¬ path <+: entry.1,
    t.nodes.nodupKeys.sublist List.filter_sublist⟩⟩

/-- With a directory at every place on the way to `path`. -/
def makeDirs : Tree κ := (List.range path.length).foldl (fun t n => t.set (path.take (n + 1)) .dir) t

/-- A file stands on the way to `path`. -/
def blocked : Bool := (List.range path.length).any fun n => t.isFile (path.take n)

/-- The names in a directory, in order. -/
def names : List String :=
  (t.nodes.keys.filterMap fun other =>
    if other.dropLast = path then other.getLast? else none).insertionSort (· ≤ ·)

variable {t path other node}

theorem isFile_iff : t.isFile path = true ↔ ∃ content, t.look path = some (.file content) := by
  unfold isFile
  split
  · rename_i content found
    simp [found]
  · rename_i other
    simpa using fun content => other content

theorem isDir_iff : t.isDir path = true ↔ t.look path = some .dir := by
  unfold isDir
  split
  · rename_i found
    simp [found]
  · rename_i other
    simpa using other

@[simp] theorem look_nil : t.look [] = some .dir := if_pos rfl

theorem look_of_ne (some : path ≠ []) : t.look path = t.nodes.lookup path := if_neg some

theorem look_set (some' : path ≠ []) :
    (t.set path node).look other = if other = path then some node else t.look other := by
  by_cases here : other = path
  · rw [if_pos here, here, look_of_ne some']
    exact AList.lookup_insert _
  · rw [if_neg here]
    by_cases top : other = []
    · rw [top, look_nil, look_nil]
    · rw [look_of_ne top, look_of_ne top]
      exact AList.lookup_insert_ne here

theorem look_unset (some' : path ≠ []) :
    (t.unset path).look other = if other = path then none else t.look other := by
  by_cases here : other = path
  · rw [if_pos here, here, look_of_ne some']
    exact AList.lookup_erase _ _
  · rw [if_neg here]
    by_cases top : other = []
    · rw [top, look_nil, look_nil]
    · rw [look_of_ne top, look_of_ne top]
      exact AList.lookup_erase_ne here

theorem mem_lookup_cut : node ∈ (t.cut path).nodes.lookup other ↔
    ¬ path <+: other ∧ node ∈ t.nodes.lookup other := by
  rw [AList.mem_lookup_iff, AList.mem_lookup_iff]
  simp [cut, and_comm]

theorem look_cut : (t.cut path).look other =
    if other ≠ [] ∧ path <+: other then none else t.look other := by
  by_cases top : other = []
  · simp [top]
  · rw [look_of_ne top, look_of_ne top]
    apply Option.ext
    intro node
    by_cases under : path <+: other
    · simp [top, under, ← Option.mem_def, mem_lookup_cut]
    · simp [under, ← Option.mem_def, mem_lookup_cut]

theorem look_foldl_set (dirs : List Path) (real : ∀ dir ∈ dirs, dir ≠ []) :
    (dirs.foldl (fun t dir => t.set dir .dir) t).look other =
      if other ∈ dirs then some .dir else t.look other := by
  induction dirs generalizing t with
  | nil => simp
  | cons dir rest ih =>
    rw [List.foldl_cons, ih fun other member => real other (List.mem_cons_of_mem _ member),
      look_set (real dir List.mem_cons_self)]
    by_cases later : other ∈ rest
    · simp [later]
    · simp [later, List.mem_cons]

theorem look_makeDirs : (t.makeDirs path).look other =
    if other <+: path then some .dir else t.look other := by
  have folded : t.makeDirs path =
      ((List.range path.length).map fun n => path.take (n + 1)).foldl
        (fun t dir => t.set dir .dir) t := by
    rw [makeDirs, List.foldl_map]
  have member : other ∈ (List.range path.length).map (fun n => path.take (n + 1)) ↔
      other ≠ [] ∧ other <+: path := by
    rw [List.mem_map]
    constructor
    · rintro ⟨n, below, rfl⟩
      have long := List.mem_range.mp below
      refine ⟨fun empty => ?_, List.take_prefix _ _⟩
      have length := congrArg List.length empty
      rw [List.length_take, List.length_nil] at length
      omega
    · rintro ⟨some, start⟩
      have length := start.length_le
      have positive := List.length_pos_of_ne_nil some
      refine ⟨other.length - 1, List.mem_range.mpr (by omega), ?_⟩
      rw [Nat.sub_add_cancel positive]
      exact (List.prefix_iff_eq_take.mp start).symm
  rw [folded, look_foldl_set]
  · by_cases top : other = []
    · simp [top]
    · simp only [member, top, ne_eq, not_false_eq_true, true_and]
  · intro dir inside
    obtain ⟨n, below, rfl⟩ := List.mem_map.mp inside
    have long := List.mem_range.mp below
    intro empty
    have length := congrArg List.length empty
    rw [List.length_take, List.length_nil] at length
    omega

theorem blocked_iff : t.blocked path = true ↔
    ∃ above, above <+: path ∧ above ≠ path ∧ t.isFile above = true := by
  simp only [blocked, List.any_eq_true, List.mem_range]
  constructor
  · rintro ⟨n, below, file⟩
    refine ⟨path.take n, List.take_prefix _ _, fun same => ?_, file⟩
    have length := congrArg List.length same
    rw [List.length_take] at length
    omega
  · rintro ⟨above, start, proper, file⟩
    refine ⟨above.length, ?_, ?_⟩
    · exact Nat.lt_of_le_of_ne start.length_le fun same => proper (start.eq_of_length same)
    · rwa [← List.prefix_iff_eq_take.mp start]

theorem mem_names : name ∈ t.names path ↔ (t.look (path ++ [name])).isSome := by
  rw [look_of_ne (by simp), AList.lookup_isSome, AList.mem_keys, names, List.mem_insertionSort,
    List.mem_filterMap]
  constructor
  · rintro ⟨other, member, found⟩
    split at found
    · rename_i inside
      obtain ⟨start, rfl⟩ := List.getLast?_eq_some_iff.mp found
      rw [List.dropLast_concat] at inside
      rwa [← inside]
    · contradiction
  · intro member
    exact ⟨_, member, by simp⟩

theorem names_nodup : (t.names path).Nodup := by
  refine (List.perm_insertionSort _ _).nodup_iff.mpr ?_
  refine t.nodes.keys_nodup.filterMap ?_
  intro first second name inFirst inSecond
  simp only [Option.mem_def] at inFirst inSecond
  split at inFirst
  · split at inSecond
    · rename_i here there
      obtain ⟨start, rfl⟩ := List.getLast?_eq_some_iff.mp inFirst
      obtain ⟨start', rfl⟩ := List.getLast?_eq_some_iff.mp inSecond
      rw [List.dropLast_concat] at here there
      rw [here, there]
    · contradiction
  · contradiction

/-- The order does not tell how a directory came about. -/
theorem names_eq {t' : Tree κ} (same : ∀ name, (t.look (path ++ [name])).isSome =
    (t'.look (path ++ [name])).isSome) : t.names path = t'.names path := by
  refine List.Perm.eq_of_pairwise' (List.pairwise_insertionSort _ _)
    (List.pairwise_insertionSort _ _) ?_
  refine (List.perm_ext_iff_of_nodup names_nodup names_nodup).mpr fun name => ?_
  rw [mem_names, mem_names, same]

end Tree
end Filesystem
