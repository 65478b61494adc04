/-
Expressions: trees of numbers, negations and binary operations.

Two forms have no value: `empty`, which stands where nothing was given, and
`undetermined`, a pair of operands without an operator. No text reads as
either; they can be built, printed and compared.
-/
import Abacus.Binary64.Text
import Abacus.Operator

namespace Abacus

inductive Expr where
  | number (value : Binary64)
  | negative (operand : Expr)
  | binary (op : Operator) (left right : Expr)
  | undetermined (left right : Expr)
  | empty
deriving DecidableEq

namespace Expr

/-! ## Writing -/

/-- Every operation stands in parentheses of its own; a number never does. -/
def text : Expr → String
  | number value => value.text
  | negative operand => "(-" ++ operand.text ++ ")"
  | binary op left right =>
    "(" ++ left.text ++ " " ++ op.symbol.toString ++ " " ++ right.text ++ ")"
  | undetermined left right => "(" ++ left.text ++ " ? " ++ right.text ++ ")"
  | empty => ""

/-! ## Equality of values -/

/-- The same form throughout, with numbers of equal value at the leaves. -/
def same : Expr → Expr → Bool
  | number x, number y => x.equal y
  | negative a, negative b => a.same b
  | binary o a b, binary p c d => o = p && a.same c && b.same d
  | undetermined a b, undetermined c d => a.same c && b.same d
  | empty, empty => true
  | _, _ => false

/-- The first of each group of expressions that are the same, in order. -/
def distinct (expressions : List Expr) : List Expr :=
  expressions.foldl (fun kept e => if kept.any e.same then kept else kept ++ [e]) []

end Expr
end Abacus
