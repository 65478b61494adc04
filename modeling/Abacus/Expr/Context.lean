/-
Contexts: expressions with one hole.
-/
import Abacus.Expr.Basic

namespace Abacus

inductive Context where
  | hole
  | negative (operand : Context)
  | binaryLeft (op : Operator) (left : Context) (right : Expr)
  | binaryRight (op : Operator) (left : Expr) (right : Context)
  | undeterminedLeft (left : Context) (right : Expr)
  | undeterminedRight (left : Expr) (right : Context)
deriving DecidableEq

/-- The expression with another in its hole. -/
def Context.fill : Context → Expr → Expr
  | hole, e => e
  | negative operand, e => .negative (operand.fill e)
  | binaryLeft op left right, e => .binary op (left.fill e) right
  | binaryRight op left right, e => .binary op left (right.fill e)
  | undeterminedLeft left right, e => .undetermined (left.fill e) right
  | undeterminedRight left right, e => .undetermined left (right.fill e)

end Abacus
