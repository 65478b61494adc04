/-
The checks of an evaluation, as a list.

`unchecked` is the value that plain arithmetic gives to an expression when
nothing is refused. `checks` lists what an evaluation looks at, in the order in
which it looks; each check judges the unchecked values of the parts that it is
about. All checks are listed, also those behind one that fails.
-/
import Abacus.Expr.Value

namespace Abacus
namespace Expr

/-- A check that passed, or the error of one that failed. -/
abbrev Check := Option EvaluationError

namespace Check

/-- Fails with the error if the condition holds. -/
def refuse (condition : Bool) (error : EvaluationError) : Check :=
  if condition then some error else none

def finite (value : Binary64) : Check := refuse (!value.isFinite) (.notFinite value)

def divisor (tolerance : Tolerance) (value : Binary64) : Check :=
  refuse (value.abs < tolerance.value) .divisionByZero

def words (op : Operator) (left right : Binary64) : Check :=
  refuse (left.toWord?.isNone || right.toWord?.isNone) (.notWords op left right)

/-- What is asked of the operands of an operator, or of its result, before the result is known to be
finite. The check of a divisor is not among it. -/
def domain (tolerance : Tolerance) : Operator → Binary64 → Binary64 → List Check
  | .add, _, _ => []
  | .subtract, _, _ => []
  | .multiply, _, _ => []
  | .divide, _, _ => []
  | .power, base, exponent => [
      refuse (base.isZero && exponent < .zero false) .zeroToNegative,
      refuse (base < .zero false && tolerance.value < exponent.fraction.abs) .fractionalPower,
      refuse (base.pow exponent).isInfinite .overflow,
      refuse (base.pow exponent).isNaN (.undefinedPower base exponent)]
  | .and, left, right => [words .and left right]
  | .or, left, right => [words .or left right]

end Check

/-- The words of two numbers combined; NaN if one of them has no word. -/
def combineWords (combine : BitVec 64 → BitVec 64 → BitVec 64) (left right : Binary64) : Binary64 :=
  match left.toWord?, right.toWord? with
  | some a, some b => .ofWord (combine a b)
  | _, _ => .nan

/-- An operator applied to its operands, whatever they are. -/
def plain : Operator → Binary64 → Binary64 → Binary64
  | .add, left, right => left + right
  | .subtract, left, right => left - right
  | .multiply, left, right => left * right
  | .divide, left, right => left / right
  | .power, left, right => left.pow right
  | .and, left, right => combineWords (· &&& ·) left right
  | .or, left, right => combineWords (· ||| ·) left right

def unchecked : Expr → Binary64
  | number value => value
  | negative operand => -operand.unchecked
  | binary op left right => plain op left.unchecked right.unchecked
  | undetermined .. => .nan
  | empty => .nan

def checks (tolerance : Tolerance) : Expr → List Check
  | number value => [.finite value]
  | negative operand => operand.checks tolerance ++ [.finite (negative operand).unchecked]
  | binary op left right =>
    if op = .divide then
      right.checks tolerance ++ .divisor tolerance right.unchecked ::
        (left.checks tolerance ++ [.finite (binary op left right).unchecked])
    else
      left.checks tolerance ++ (right.checks tolerance ++
        (Check.domain tolerance op left.unchecked right.unchecked ++
          [.finite (binary op left right).unchecked]))
  | undetermined .. => [some .undetermined]
  | empty => [some .empty]

end Expr
end Abacus
