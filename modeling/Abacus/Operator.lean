/-
The binary operators and their binding strength.
-/
namespace Abacus

inductive Operator where
  | add
  | subtract
  | multiply
  | divide
  | power
  | and
  | or
deriving DecidableEq

/-- Binding strength, weakest first. What is no binary operator has the strength `none`. -/
inductive Precedence where
  | none
  | bitwise
  | additive
  | multiplicative
  | power
  | negation
deriving DecidableEq

namespace Precedence

def level : Precedence → Nat
  | none => 0
  | bitwise => 1
  | additive => 2
  | multiplicative => 3
  | power => 4
  | negation => 5

def name : Precedence → String
  | none => "DEFAULT_ZERO"
  | bitwise => "AND_OR"
  | additive => "ADD_SUB"
  | multiplicative => "MUL_DIV"
  | power => "POWER"
  | negation => "NEGATIVE"

end Precedence

namespace Operator

def symbol : Operator → Char
  | add => '+'
  | subtract => '-'
  | multiply => '*'
  | divide => '/'
  | power => '^'
  | and => '&'
  | or => '|'

def name : Operator → String
  | add => "ADD"
  | subtract => "SUBTRACT"
  | multiply => "MULTIPLY"
  | divide => "DIVIDE"
  | power => "CARET"
  | and => "AND"
  | or => "OR"

def precedence : Operator → Precedence
  | add => .additive
  | subtract => .additive
  | multiply => .multiplicative
  | divide => .multiplicative
  | power => .power
  | and => .bitwise
  | or => .bitwise

end Operator
end Abacus
