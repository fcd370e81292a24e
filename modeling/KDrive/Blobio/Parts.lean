import KDrive.Go.Runtime

/-! How a body is cut into the parts of a multipart upload. -/
namespace KDrive.Blobio
open Go

def promotePartSize : Nat := 16 * 1024 * 1024

/-- How many parts `io.ReadFull` cuts `length` bytes into. -/
def partCount (partSize length : Nat) : Nat := (length + partSize - 1) / partSize

/-- The bytes of part `i`, counted from zero. -/
def slice (partSize : Nat) (data : Bytes) (i : Nat) : Bytes :=
  (data.drop (i * partSize)).take partSize

/-- Part numbers are `int32`, starting at one. -/
def partNumber (i : Nat) : Int := int32 (i + 1)

/-- The numbers of `count` parts, as long as they fit. -/
def partNumbers (count : Nat) : List Int := (List.range count).map fun i : Nat => (i : Int) + 1

/-- The number the collector misses when it lists the results. Its counter is an
`int32` and runs while it is at most the largest number seen, so behind the largest
`int32` it wraps and looks for a part that nobody sent. -/
def missingPart (count : Nat) : Option Int :=
  if count = 2 ^ 31 - 1 then some (partNumber count) else none

theorem promotePartSize_pos : 0 < promotePartSize := by decide

theorem partNumber_eq (small : i < 2 ^ 31 - 1) : partNumber i = i + 1 := by
  simp only [partNumber, int32, Int.bmod_def]
  omega

/-- The number after the largest `int32` is negative. -/
theorem partNumber_wraps : partNumber (2 ^ 31 - 1) < 1 := by decide

theorem slices_take (partSize : Nat) (data : Bytes) (n : Nat) :
    ((List.range n).map (slice partSize data)).flatten = data.take (n * partSize) := by
  induction n with
  | zero => simp
  | succ n ih =>
    rw [List.range_succ, List.map_append, List.flatten_append, ih]
    simp only [List.map_cons, List.map_nil, List.flatten_cons, List.flatten_nil, List.append_nil]
    rw [Nat.succ_mul, List.take_add, slice]

theorem le_partCount_mul (positive : 0 < partSize) (length : Nat) :
    length ≤ partCount partSize length * partSize := by
  have split := Nat.div_add_mod (length + partSize - 1) partSize
  have rest := Nat.mod_lt (length + partSize - 1) positive
  rw [Nat.mul_comm] at split
  simp only [partCount]
  omega

/-- The parts, in order, are the body. -/
theorem slices_flatten (positive : 0 < partSize) (data : Bytes) :
    ((List.range (partCount partSize data.length)).map (slice partSize data)).flatten = data := by
  rw [slices_take, List.take_of_length_le (le_partCount_mul positive _)]

theorem slices_partNumbers (positive : 0 < partSize) (data : Bytes) :
    ((partNumbers (partCount partSize data.length)).map
      fun n => slice partSize data (n - 1).toNat).flatten = data := by
  have numbered : (fun n : Int => slice partSize data (n - 1).toNat) ∘
      (fun i : Nat => (i : Int) + 1) = slice partSize data := by
    funext i
    simp
  rw [partNumbers, List.map_map, numbered, slices_flatten positive]

end KDrive.Blobio
