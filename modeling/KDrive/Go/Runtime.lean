import KDrive.Go.Sha256
import Mathlib.Algebra.Order.Ring.Int
import Mathlib.Tactic.Common

/-! What the Go runtime and standard library contribute to the modelled code:
error values with their format strings, 64- and 32-bit integers that wrap, and
readers with the limit that `io.LimitReader` puts on them. -/
namespace KDrive.Go

/-- Nanoseconds; zero is the zero `time.Time`. -/
abbrev Time := Int
abbrev Duration := Int

/-- The years 0 to 9999, in which a `time.Time` has a JSON text. -/
def dated (t : Time) : Prop := -31622400000000000 ≤ t ∧ t < 315537897600000000000

instance (t : Time) : Decidable (dated t) := inferInstanceAs (Decidable (_ ∧ _))

inductive Arg where
  | str (text : String)
  | int (value : Int)
  deriving DecidableEq

/-- An error as it was made. `wrap` is `fmt.Errorf` with one `%w`: `cause` stands
for that verb and `args` for the other ones, in order. -/
inductive GoError where
  | new (text : String)
  | errorf (format : String) (args : List Arg)
  | wrap (format : String) (args : List Arg) (cause : GoError)
  deriving DecidableEq

/-- `errors.Is`. -/
def GoError.is : (err target : GoError) → Bool
  | .wrap format args cause, target =>
    decide (GoError.wrap format args cause = target) || cause.is target
  | e, target => decide (e = target)

def contextCanceled : GoError := .new "context canceled"

def maxInt64 : Int := 2 ^ 63 - 1

/-- The `int64` a computed value is stored as. -/
def int64 (x : Int) : Int := x.bmod (2 ^ 64)

/-- The `int32` a computed value is stored as. -/
def int32 (x : Int) : Int := x.bmod (2 ^ 32)

def IsInt64 (x : Int) : Prop := -(2 ^ 63) ≤ x ∧ x < 2 ^ 63

instance (x : Int) : Decidable (IsInt64 x) := inferInstanceAs (Decidable (_ ∧ _))

theorem int64_of_isInt64 (h : IsInt64 x) : int64 x = x := by
  obtain ⟨low, high⟩ := h
  simp only [int64, Int.bmod_def]
  omega

/-- Incrementing the largest value gives the smallest. -/
theorem int64_succ_maxInt64 : int64 (maxInt64 + 1) = -(2 ^ 63) := by decide

theorem int64_succ (h : IsInt64 x) (small : x ≠ maxInt64) : int64 (x + 1) = x + 1 := by
  apply int64_of_isInt64
  simp only [IsInt64, maxInt64] at *
  omega

/-- The bytes of a string. -/
def utf8 (s : String) : Bytes := s.toList.flatMap String.utf8EncodeChar

/-- An `io.Reader`: the bytes it still has and, when it fails after them instead
of ending, the error. -/
structure Reader where
  data : Bytes
  failure : Option GoError := none
  deriving DecidableEq

/-- `io.LimitReader`. A limit that is not positive ends the stream at once; a limit
that is reached hides what comes after it, a failure included. -/
def Reader.limit (r : Reader) (n : Int) : Reader :=
  if n ≤ 0 then ⟨[], none⟩
  else if (r.data.length : Int) < n then r
  else ⟨r.data.take n.toNat, none⟩

/-- `io.ReadAll`. -/
def Reader.readAll (r : Reader) : Except GoError Bytes :=
  match r.failure with
  | none => .ok r.data
  | some err => .error err

theorem Reader.limit_of_lt (r : Reader) (h : (r.data.length : Int) < n) : r.limit n = r := by
  have positive : ¬ n ≤ 0 := by omega
  simp only [limit, if_neg positive, if_pos h]

/-- A reader capped the way this code base does it: with a limit of one byte more
than is accepted, so that a longer stream shows. The sum is an `int64`. -/
def Reader.capped (r : Reader) (most : Int) : Reader :=
  if 0 < most then r.limit (int64 (most + 1)) else r

/-- What passes a capped reader and the check behind it is the whole stream. With
the largest cap the limit wraps to a negative one, and the reader is at its end. -/
theorem Reader.capped_readAll {r : Reader} {data : Bytes} (range : IsInt64 most)
    (read : (r.capped most).readAll = .ok data) (fits : ¬ (0 < most ∧ most < data.length)) :
    data = if most = maxInt64 then [] else r.data := by
  by_cases positive : 0 < most
  · simp only [capped, if_pos positive] at read
    split
    · rename_i largest
      rw [largest, int64_succ_maxInt64] at read
      exact (Except.ok.inj read).symm
    · rename_i below
      rw [int64_succ range below] at read
      by_cases short : (r.data.length : Int) < most + 1
      · rw [limit_of_lt _ short, readAll] at read
        split at read
        · exact (Except.ok.inj read).symm
        · contradiction
      · -- One byte more than the cap was let through, which the check rejects.
        have some : ¬ most + 1 ≤ 0 := by omega
        simp only [limit, if_neg some, if_neg short, readAll] at read
        cases read
        rw [List.length_take] at fits
        omega
  · have small : most ≠ maxInt64 := by
      rintro rfl
      exact positive (by decide)
    simp only [capped, if_neg positive, readAll] at read
    rw [if_neg small]
    split at read
    · exact (Except.ok.inj read).symm
    · contradiction

theorem Reader.capped_of_fits {data : Bytes} (range : IsInt64 most) (below : most ≠ maxInt64)
    (fits : 0 < most → (data.length : Int) ≤ most) :
    (⟨data, none⟩ : Reader).capped most = ⟨data, none⟩ := by
  unfold capped
  split
  · rename_i positive
    have fit := fits positive
    rw [int64_succ range below, limit_of_lt _ (by simp only; omega)]
  · rfl

end KDrive.Go
