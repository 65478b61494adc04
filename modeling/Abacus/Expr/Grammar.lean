/-
The grammar of expressions, as a relation between tokens and trees.

Levels 1 to 4 are those of the binary operators, weakest first, each grouping
to the left. Level 5 holds the negations, level 6 the products written without
an operator, which group to the right, and level 7 the atoms: a number, or an
expression of level 1 in parentheses. Two numbers never stand side by side.
-/
import Abacus.Expr.Basic
import Abacus.Token

namespace Abacus

/-- The tokens are an expression of the level, and the tree is its structure. -/
inductive Derives : Nat → List Token → Expr → Prop where
  | tighter {level : Nat} {tokens : List Token} {e : Expr} :
    0 < level → Derives (level + 1) tokens e → Derives level tokens e
  | binary {op : Operator} {before after : List Token} {left right : Expr} :
    Derives op.precedence.level before left → Derives (op.precedence.level + 1) after right →
      Derives op.precedence.level (before ++ .operator op :: after) (.binary op left right)
  | negative {tokens : List Token} {operand : Expr} :
    Derives 5 tokens operand → Derives 5 (.operator .subtract :: tokens) (.negative operand)
  | product {before after : List Token} {left right : Expr} :
    Derives 7 before left → Derives 6 after right → Token.Apart before after →
      Derives 6 (before ++ after) (.binary .multiply left right)
  | number {value : Binary64} : Derives 7 [.number value] (.number value)
  | group {tokens : List Token} {e : Expr} :
    Derives 1 tokens e → Derives 7 (.leftParen :: (tokens ++ [.rightParen])) e

end Abacus
