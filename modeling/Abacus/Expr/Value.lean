/-
The value of an expression.

Every value is finite: each part of an expression is checked as soon as it is
computed, so an operation only ever sees finite operands. The operators
without a value everywhere are refused before they are applied. A divisor is
computed and checked before its dividend; in all else the left operand comes
first.
-/
import Abacus.Binary64.Arithmetic
import Abacus.Binary64.Power
import Abacus.Expr.Basic
import Abacus.Tolerance

namespace Abacus

/-! ## Errors -/

inductive EvaluationError where
  | notFinite (value : Binary64)
  | divisionByZero
  | zeroToNegative
  | fractionalPower
  | overflow
  /-- The exponent of a negative base has a fraction, though one within the tolerance. -/
  | undefinedPower (base exponent : Binary64)
  /-- A bitwise operator has an operand that is no whole number of 64 bits. -/
  | notWords (op : Operator) (left right : Binary64)
  | empty
  | undetermined
  | tooDeep
deriving DecidableEq

def EvaluationError.message : EvaluationError → String
  | .notFinite value => "Result is not a finite number: " ++ value.text
  | .divisionByZero => "Division by zero"
  | .zeroToNegative => "0^negative is undefined"
  | .fractionalPower => "Negative base with fractional exponent"
  | .overflow => "Overflow in exponentiation"
  | .undefinedPower base exponent =>
    "Undefined exponentiation " ++ base.text ++ "^" ++ exponent.text ++ ": math domain error"
  | .notWords op left right =>
    "Cannot perform bitwise " ++ op.name ++ " with the following expressions: " ++
      left.text ++ " and " ++ right.text
  | .empty => "Unsupported node type: Node"
  | .undetermined => "Unsupported node type: BinaryNode"
  | .tooDeep => "Expression nested too deeply"

namespace Expr

/-! ## Checks -/

def checkFinite (value : Binary64) : Except EvaluationError Binary64 :=
  if value.isFinite then .ok value else .error (.notFinite value)

def checkDivisor (tolerance : Tolerance) (divisor : Binary64) : Except EvaluationError Unit :=
  if divisor.abs < tolerance.value then .error .divisionByZero else .ok ()

/-! ## Operations -/

/-- Powers, with infinite results and undefined ones refused. -/
def power (tolerance : Tolerance) (base exponent : Binary64) : Except EvaluationError Binary64 :=
  if base.isZero && exponent.lt (.zero false) then
    .error .zeroToNegative
  else if base.lt (.zero false) && tolerance.value.lt exponent.fraction.abs then
    .error .fractionalPower
  else
    let result := base.pow exponent
    if result.isInfinite then
      .error .overflow
    else if result.isNaN && base.isFinite && exponent.isFinite then
      .error (.undefinedPower base exponent)
    else
      .ok result

/-- Combines the words of two whole numbers. -/
def bitwise (op : Operator) (combine : BitVec 64 → BitVec 64 → BitVec 64) (left right : Binary64) :
    Except EvaluationError Binary64 :=
  match left.toWord?, right.toWord? with
  | some a, some b => .ok (.ofWord (combine a b))
  | _, _ => .error (.notWords op left right)

/-- Applies an operator to the values of its operands. -/
def operate (tolerance : Tolerance) :
    Operator → Binary64 → Binary64 → Except EvaluationError Binary64
  | .add, left, right => .ok (left + right)
  | .subtract, left, right => .ok (left - right)
  | .multiply, left, right => .ok (left * right)
  | .divide, left, right => .ok (left / right)
  | .power, left, right => power tolerance left right
  | .and, left, right => bitwise .and (· &&& ·) left right
  | .or, left, right => bitwise .or (· ||| ·) left right

/-! ## Evaluation -/

/-- The value of an expression of at most `depth` levels. -/
def valueWithin (tolerance : Tolerance) : Expr → Nat → Except EvaluationError Binary64
  | _, 0 => .error .tooDeep
  | number value, _ + 1 => checkFinite value
  | negative operand, depth + 1 => do
    checkFinite (-(← valueWithin tolerance operand depth))
  | binary op left right, depth + 1 =>
    if op = .divide then do
      let divisor ← valueWithin tolerance right depth
      checkDivisor tolerance divisor
      let dividend ← valueWithin tolerance left depth
      checkFinite (dividend / divisor)
    else do
      let x ← valueWithin tolerance left depth
      let y ← valueWithin tolerance right depth
      checkFinite (← operate tolerance op x y)
  | undetermined .., _ + 1 => .error .undetermined
  | empty, _ + 1 => .error .empty

/-- How many levels an expression may have to be evaluated. -/
def maxDepth : Nat := 495

def value (tolerance : Tolerance) (e : Expr) : Except EvaluationError Binary64 :=
  e.valueWithin tolerance maxDepth

end Expr
end Abacus
