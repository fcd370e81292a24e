import KDrive.Go.Runtime

/-! What Postgres and its driver contribute to the metadata store: the range of an INTEGER
column, what a single statement can come to, and the errors the store makes of it. -/
namespace KDrive.Metadata
open Go

def errNotFound : GoError := .new "metadata: not found"
def errConflict : GoError := .new "metadata: conflict"

/-- `sql.ErrNoRows`. -/
def errNoRows : GoError := .new "sql: no rows in result set"

/-- The error of a statement that did not get through: a lost connection, a cancelled
context, a full disk. -/
def errStatement : GoError := .new "pq: statement failed"

/-- `QueryRow(...).Scan(...)`. -/
def scanRow {K R : Type} : Except GoError (List (K × R)) → Except GoError R
  | .error err => .error err
  | .ok [] => .error errNoRows
  | .ok ((_, row) :: _) => .ok row

/-- The range of an INTEGER column; what is outside is rejected. -/
def IsInteger (x : Int) : Prop := -(2 ^ 31) ≤ x ∧ x < 2 ^ 31

instance (x : Int) : Decidable (IsInteger x) := inferInstanceAs (Decidable (_ ∧ _))

/-- A statement outside a transaction takes effect as a whole or not at all; its reply may
be lost either way. -/
inductive Fate where
  | done
  | failed
  | lost
  deriving DecidableEq

end KDrive.Metadata
