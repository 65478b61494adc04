/-
The partial operations that an evaluation applies, as a list.

Division, power and the conversion of a number to an integer are not defined
for all operands. `recorded` evaluates an expression as `valueWithin` does and
notes each application of one of the three when it makes it, so that a failure
later on leaves the list of those made before.
-/
import Abacus.Expr.Value

namespace Abacus

/-- What stands before the binary point of a finite number. -/
def Binary64.wholePart : Binary64 → Int
  | .finite negative magnitude => signed negative (magnitude.units / unitsPerOne)
  | _ => 0

/-! ## Applications -/

inductive Application where
  | division (dividend divisor : Binary64)
  | power (base exponent : Binary64)
  /-- Of a number to an integer. -/
  | conversion (value : Binary64)
deriving DecidableEq

namespace Application

/-- The operation is defined for the operands. A divisor is as far from zero as the tolerance
asks, and what is converted is a whole number of 64 bits or the upper end of their range. -/
def Defined (tolerance : Tolerance) : Application → Prop
  | division dividend divisor =>
    dividend.isFinite ∧ divisor.isFinite ∧ tolerance.value ≤ divisor.abs ∧ ¬ divisor.isZero
  | power base exponent =>
    base.isFinite ∧ exponent.isFinite ∧ ¬ (base.isZero ∧ exponent < .zero false)
  | conversion value => ∃ whole, value.toInt? = some whole ∧ -2 ^ 63 ≤ whole ∧ whole ≤ 2 ^ 63

end Application

/-- An evaluation that notes its applications. -/
abbrev Recording := EStateM EvaluationError (List Application)

namespace Recording

def note (application : Application) : Recording Unit := modify (· ++ [application])

/-- The outcome, and all applications that were made. -/
def result {α : Type} (recording : Recording α) : Except EvaluationError α × List Application :=
  match recording [] with
  | .ok a made => (.ok a, made)
  | .error error made => (.error error, made)

/-! ## Operations -/

def divide (dividend divisor : Binary64) : Recording Binary64 := do
  note (.division dividend divisor)
  return dividend / divisor

def raise (base exponent : Binary64) : Recording Binary64 := do
  note (.power base exponent)
  return base.pow exponent

def convert (value : Binary64) : Recording Int := do
  note (.conversion value)
  return value.wholePart

def power (tolerance : Tolerance) (base exponent : Binary64) : Recording Binary64 :=
  if base.isZero && exponent.lt (.zero false) then
    throw .zeroToNegative
  else if base.lt (.zero false) && tolerance.value.lt exponent.fraction.abs then
    throw .fractionalPower
  else do
    let result ← raise base exponent
    if result.isInfinite then
      throw .overflow
    else if result.isNaN && base.isFinite && exponent.isFinite then
      throw (.undefinedPower base exponent)
    else
      return result

/-- Whether the number is whole and in the range of the 64-bit words, or at its upper end. -/
def isWord (value : Binary64) : Bool :=
  value.toInt?.any fun whole => -2 ^ 63 ≤ whole ∧ whole ≤ 2 ^ 63

def bitwise (op : Operator) (combine : BitVec 64 → BitVec 64 → BitVec 64)
    (left right : Binary64) : Recording Binary64 :=
  if isWord left && isWord right then do
    let a ← convert left
    let b ← convert right
    return .ofWord (combine (.ofInt 64 (min a Binary64.maxWord)) (.ofInt 64 (min b Binary64.maxWord)))
  else
    throw (.notWords op left right)

def operate (tolerance : Tolerance) : Operator → Binary64 → Binary64 → Recording Binary64
  | .add, left, right => return left + right
  | .subtract, left, right => return left - right
  | .multiply, left, right => return left * right
  | .divide, left, right => divide left right
  | .power, left, right => power tolerance left right
  | .and, left, right => bitwise .and (· &&& ·) left right
  | .or, left, right => bitwise .or (· ||| ·) left right

end Recording

/-! ## Evaluation -/

namespace Expr

/-- The value of an expression of at most `depth` levels, with the applications made for it. -/
def recorded (tolerance : Tolerance) : Expr → Nat → Recording Binary64
  | _, 0 => throw .tooDeep
  | number value, _ + 1 => ofExcept (checkFinite value)
  | negative operand, depth + 1 => do
    ofExcept (checkFinite (-(← recorded tolerance operand depth)))
  | binary op left right, depth + 1 =>
    if op = .divide then do
      let divisor ← recorded tolerance right depth
      ofExcept (checkDivisor tolerance divisor)
      let dividend ← recorded tolerance left depth
      ofExcept (checkFinite (← Recording.divide dividend divisor))
    else do
      let x ← recorded tolerance left depth
      let y ← recorded tolerance right depth
      ofExcept (checkFinite (← Recording.operate tolerance op x y))
  | undetermined .., _ + 1 => throw .undetermined
  | empty, _ + 1 => throw .empty

end Expr
end Abacus
