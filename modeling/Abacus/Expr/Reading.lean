/-
Reading an expression from its tokens.

Binary operators bind by their precedence and group to the left; a minus sign
binds tighter than all of them. A number directly before a group multiplies
it, and a group multiplies whatever operand follows it, unless that begins
with a minus, which subtracts.

`primary`, `expression` and `operation` call each other for nested parts. Each
call has a room, the number of calls that may still be nested in it; without
room it fails as too deep. The room decides nothing else.
-/
import Abacus.Cursor

namespace Abacus
namespace Parse

/-- Whether an operand may be extended by this token when only operators above `floor` may bind. -/
def extendsAbove (floor : Int) (token : Token) : Bool :=
  floor < token.kind.precedence.level && token ≠ .endOfInput

/-- Extends an operand by steps while the current token allows it. Each step moves the cursor, so
`budget` steps are enough if no more tokens are unread. -/
def extend (step : Expr → Parse Expr) (floor : Int) : Nat → Expr → Parse Expr
  | budget, left => do
    if extendsAbove floor (← current) then
      let longer ← step left
      match budget with
      | 0 => return longer
      | budget + 1 => extend step floor budget longer
    else
      return left

/-- A group that is followed by an operand multiplies it. If no operand begins there the group
stands alone; once a token of the operand is consumed its failure is final, and so is a lack of
room. -/
def afterGroup (group : Expr) (operand : Parse Expr) : Parse Expr := fun cursor =>
  match operand cursor with
  | .ok right next => .ok (.binary .multiply group right) next
  | .error .tooDeep next => .error .tooDeep next
  | .error error next =>
    if next.consumed = cursor.consumed then .ok group next else .error error next

mutual

/-- Reads a number, a negation or a group, with what it multiplies. -/
def primary : Nat → Parse Expr
  | 0 => throw .tooDeep
  | room + 1 => do
    let token ← current
    match token with
    | .operator .subtract =>
      advance
      return .negative (← expression room Precedence.negation.level)
    | .number value =>
      advance
      if (← current) = .leftParen then
        return .binary .multiply (.number value) (← primary room)
      else
        return .number value
    | .leftParen =>
      advance
      let group ← expression room Precedence.none.level
      expect .rightParen
      if (← current) = .operator .subtract then
        return group
      else
        afterGroup group (primary room)
    | _ => throw (.unexpected token)

/-- Reads an operand and every operation on it whose operator binds tighter than `floor`. -/
def expression : Nat → Int → Parse Expr
  | 0, _ => throw .tooDeep
  | room + 1, floor => do
    let left ← primary room
    extend (operation room) floor (← get).unread.length left

/-- Reads the operator under the cursor and its right operand. -/
def operation : Nat → Expr → Parse Expr
  | 0, _ => throw .tooDeep
  | room + 1, left => do
    match ← current with
    | .operator op =>
      advance
      return .binary op left (← expression room op.precedence.level)
    | token => throw (.notOperator token)

end

/-- How many calls may be nested in one another. -/
def maxNesting : Nat := 987

/-- Reads an expression up to the end of the input. -/
def whole (room : Nat) : Parse Expr := do
  let e ← expression room Precedence.none.level
  let token ← current
  if token = .endOfInput then return e else throw (.trailing token)

end Parse

/-- The expression that a text denotes, if no more than `room` calls nest. -/
def Expr.ofTextWithin (room : Nat) (text : String) : Except ParseError Expr := do
  match Parse.whole room (← Cursor.ofText text) with
  | .ok e _ => return e
  | .error error _ => throw error

def Expr.ofText (text : String) : Except ParseError Expr := ofTextWithin Parse.maxNesting text

end Abacus
