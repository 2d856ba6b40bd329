import HabrDigest.Lib.Bytes
import HabrDigest.Lib.Double
import Mathlib.Data.Prod.Lex
import Mathlib.Algebra.Order.Ring.Unbundled.Rat

/-!
# SQLite

What a program sees of SQLite through its C interface: values, the parameters of a
prepared statement, the readers of a result column, arithmetic with reals, the order of
numbers, and the transaction of a connection.

A text is bound and read up to its first NUL byte.  SQLite stores no NaN: one that is bound
or computed becomes NULL, and NULL reads back as an empty text, as 0 or as 0.0.  NULL comes
before every number, and so last in descending order.

A `Connection` is the committed table and, inside a transaction, the table as the
transaction sees it.  Beginning one inside another is an error; a `COMMIT` that fails leaves
the transaction open.
-/

namespace HabrDigest
namespace Sqlite

/-- A value. -/
inductive Value where
  | null
  | integer (i : ℤ)
  | real (x : Double)
  | text (s : Bytes)
  deriving DecidableEq, Repr

namespace Value

/-- A computed real. -/
def ofDouble (x : Double) : Value := if x = .nan then .null else .real x

/-- An operand of an arithmetic operator with a real on the other side; none is NULL.  A text
is never one here, and counts as NULL. -/
def toDouble (r : Rounding) : Value → Option Double
  | null | text _ => none
  | integer i => some (r.round i)
  | real x => some x

/-- The product of two operands, one of which is a real. -/
def mul (r : Rounding) (a b : Value) : Value :=
  match a.toDouble r, b.toDouble r with
  | some x, some y => ofDouble (x.mul r y)
  | _, _ => null

/-- The sum of two operands, one of which is a real. -/
def add (r : Rounding) (a b : Value) : Value :=
  match a.toDouble r, b.toDouble r with
  | some x, some y => ofDouble (x.add r y)
  | _, _ => null

/-- The value of a column of texts that are not NULL; none violates the constraint. -/
def asText : Value → Option Bytes
  | text s => some s
  | null | integer _ | real _ => none

/-- The value of a column of integers that are not NULL; none violates the constraint. -/
def asInteger : Value → Option ℤ
  | integer i => some i
  | null | real _ | text _ => none

/-- `sqlite3_column_text`, as a string. -/
def columnText : Value → Bytes
  | text s => s.cString
  | null | integer _ | real _ => []

/-- `sqlite3_column_int64`. -/
def columnInt64 : Value → Int64
  | integer i => .ofInt i
  | null | real _ | text _ => 0

/-- `sqlite3_column_double`. -/
def columnDouble (r : Rounding) (v : Value) : Double := (v.toDouble r).getD (.finite 0)

/-- The place of a number in the order of values: NULL first, then the negative infinity, the
finite numbers, and the positive infinity. -/
def rank : Value → ℤ ×ₗ ℚ
  | null | real .nan => toLex (0, 0)
  | real .negInf => toLex (1, 0)
  | integer i => toLex (2, (i : ℚ))
  | real (.finite q) => toLex (2, q)
  | real .posInf => toLex (3, 0)
  | text _ => toLex (4, 0)

end Value

/-! ## Parameters -/

/-- The values bound to the parameters of a statement, by index, the latest first. -/
abbrev Bindings := List (ℕ × Value)

namespace Bindings

/-- `sqlite3_bind_text` of a NUL-terminated text. -/
def bindText (index : ℕ) (value : Bytes) (b : Bindings) : Bindings :=
  (index, .text value.cString) :: b

/-- `sqlite3_bind_int64`. -/
def bindInt64 (index : ℕ) (value : ℤ) (b : Bindings) : Bindings := (index, .integer value) :: b

/-- `sqlite3_bind_double`. -/
def bindDouble (index : ℕ) (value : Double) (b : Bindings) : Bindings :=
  (index, .ofDouble value) :: b

/-- The value of a parameter; one that is not bound is NULL. -/
def param (b : Bindings) (index : ℕ) : Value := (b.lookup index).getD .null

end Bindings

/-! ## Transactions -/

/-- A connection to a database of tables of one type. -/
structure Connection (τ : Type) where
  /-- What every other connection sees. -/
  committed : τ
  /-- The table inside the open transaction, if there is one. -/
  pending : Option τ := none

namespace Connection

variable {τ : Type}

/-- The table that a statement on this connection reads. -/
def visible (c : Connection τ) : τ := c.pending.getD c.committed

/-- `BEGIN IMMEDIATE`: an error inside a transaction. -/
def beginImmediate (c : Connection τ) : Option (Connection τ) :=
  match c.pending with
  | none => some { c with pending := some c.committed }
  | some _ => none

/-- The statement of an open transaction changes the table. -/
def write (c : Connection τ) (t : τ) : Connection τ := { c with pending := some t }

/-- `COMMIT`, where it succeeds. -/
def commit (c : Connection τ) : Connection τ := ⟨c.visible, none⟩

/-- The transaction is gone, and with it what it did. -/
def rollback (c : Connection τ) : Connection τ := ⟨c.committed, none⟩

theorem visible_of_pending_eq_none {c : Connection τ} (h : c.pending = none) :
    c.visible = c.committed := by
  unfold visible
  rw [h]
  rfl

end Connection
end Sqlite
end HabrDigest
