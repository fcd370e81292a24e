import KDrive.Filesystem.Tree
import KDrive.Interaction.Program
import Mathlib.Data.Set.Finite.Basic

/-! The calls of an operating system on a tree of files. A call either does what it is
for or says why it cannot; only the name of a temporary file is up to the system. -/
namespace Filesystem
open Interaction

inductive Errno where
  | notExist
  | notDir
  | isDir
  | notEmpty
  | failed (reason : String)
  deriving DecidableEq

/-- What can be written to a file behind what it has. -/
class Contents (κ : Type) where
  empty : κ
  append : κ → κ → κ

inductive Call (κ : Type) where
  | mkdirAll (path : Path)
  | createTemp (dir : Path) (stem : String)
  | create (path : Path)
  | write (path : Path) (content : κ)
  | close (path : Path)
  | rename (source target : Path)
  | remove (path : Path)
  | removeAll (path : Path)
  | openFile (path : Path)
  | readFile (path : Path)
  | writeFile (path : Path) (content : κ)
  | readDir (path : Path)
  | stat (path : Path)
  deriving DecidableEq

/-- What a call that succeeds returns; an entry of a directory says whether it is one. -/
def Call.Result {κ : Type} : Call κ → Type
  | .createTemp .. => Path
  | .openFile _ | .stat _ => Node κ
  | .readFile _ => κ
  | .readDir _ => List (String × Bool)
  | _ => Unit

namespace Tree
variable {κ : Type} (t : Tree κ)

/-- A temporary file gets a name that is free. -/
def free (random : Nat) : Call κ → Prop
  | .createTemp dir stem => t.look (dir ++ [stem ++ toString random]) = none
  | _ => True

theorem exists_free (c : Call κ) : ∃ random, t.free random c := by
  cases c with
  | createTemp dir stem =>
    have injective : Function.Injective fun random : Nat => dir ++ [stem ++ toString random] := by
      intro first second same
      have names := List.singleton_inj.mp (List.append_cancel_left same)
      have lists := congrArg String.toList names
      rw [String.toList_append, String.toList_append] at lists
      have values := congrArg (Nat.ofDigitChars 10 · 0) (List.append_cancel_left lists)
      simpa [Nat.toString_eq_ofList_toDigits] using values
    obtain ⟨path, ⟨random, rfl⟩, absent⟩ :=
      (Set.infinite_range_of_injective injective).exists_notMem_finset t.nodes.keys.toFinset
    refine ⟨random, ?_⟩
    rw [List.mem_toFinset, ← AList.mem_keys, ← AList.lookup_isSome] at absent
    rw [free, look_of_ne (by simp)]
    simpa using absent
  | _ => exact ⟨0, trivial⟩

variable [Contents κ]

/-- Why nothing is found at a path. -/
def missing (path : Path) : Errno := if t.blocked path then .notDir else .notExist

/-- Where a file may be made. -/
def place (path : Path) : Except Errno Unit :=
  if !t.isDir path.dropLast then .error (t.missing path)
  else if t.isDir path then .error .isDir
  else .ok ()

def perform (random : Nat) : (c : Call κ) → Except Errno c.Result × Tree κ
  | .mkdirAll path =>
    if t.blocked path ∨ t.isFile path then (.error .notDir, t) else (.ok (), t.makeDirs path)
  | .createTemp dir stem =>
    let path := dir ++ [stem ++ toString random]
    if !t.isDir dir then (.error (t.missing path), t)
    else (.ok path, t.set path (.file Contents.empty))
  | .create path =>
    match t.place path with
    | .error err => (.error err, t)
    | .ok _ => (.ok (), t.set path (.file Contents.empty))
  | .write path content =>
    match t.look path with
    | some (.file old) => (.ok (), t.set path (.file (Contents.append old content)))
    | some .dir => (.error .isDir, t)
    | none => (.error (t.missing path), t)
  | .close _ => (.ok (), t)
  | .rename source target =>
    match t.look source with
    | some (.file content) =>
      match t.place target with
      | .error err => (.error err, t)
      | .ok _ => (.ok (), (t.unset source).set target (.file content))
    | some .dir => (.error .isDir, t)
    | none => (.error (t.missing source), t)
  | .remove path =>
    match t.look path with
    | some (.file _) => (.ok (), t.unset path)
    | some .dir => if t.names path = [] then (.ok (), t.unset path) else (.error .notEmpty, t)
    | none => (.error (t.missing path), t)
  | .removeAll path => if t.blocked path then (.error .notDir, t) else (.ok (), t.cut path)
  | .openFile path =>
    match t.look path with
    | some node => (.ok node, t)
    | none => (.error (t.missing path), t)
  | .readFile path =>
    match t.look path with
    | some (.file content) => (.ok content, t)
    | some .dir => (.error .isDir, t)
    | none => (.error (t.missing path), t)
  | .writeFile path content =>
    match t.place path with
    | .error err => (.error err, t)
    | .ok _ => (.ok (), t.set path (.file content))
  | .readDir path =>
    match t.look path with
    | some .dir => (.ok ((t.names path).map fun name =>
        (name, t.isDir (path ++ [name]))), t)
    | some (.file _) => (.error .notDir, t)
    | none => (.error (t.missing path), t)
  | .stat path =>
    match t.look path with
    | some node => (.ok node, t)
    | none => (.error (t.missing path), t)

end Tree
end Filesystem
