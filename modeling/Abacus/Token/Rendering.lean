/-
The texts that a list of tokens can be written as.

White space may stand before, after and inside everything. A number is a digit
followed by digits, white space and at most one point; its value is that of
its characters without the white space.
-/
import Abacus.Token.Script

namespace Abacus

/-- A way to write a number. -/
structure Lexeme (cs : List Char) (value : Binary64) : Prop where
  starts : cs.head?.any Char.isDigit
  characters : ∀ c ∈ cs, c.isDigit ∨ c = '.' ∨ isSpace c
  points : cs.count '.' ≤ 1
  reads : Binary64.read? (cs.filter fun c => ¬ isSpace c) = some value

/-- A way to write a token. -/
inductive Spells : List Char → Token → Prop where
  | number {cs : List Char} {value : Binary64} : Lexeme cs value → Spells cs (.number value)
  | symbol {c : Char} {token : Token} : Token.ofSymbol? c = some token → Spells [c] token

/-- A way to write tokens one after the other. -/
inductive Renders : List Char → List Token → Prop where
  | nil : Renders [] []
  | space {c : Char} {cs : List Char} {tokens : List Token} :
    isSpace c → Renders cs tokens → Renders (c :: cs) tokens
  | token {first rest : List Char} {token : Token} {tokens : List Token} :
    Spells first token → Renders rest tokens → Renders (first ++ rest) (token :: tokens)

/-- No two numbers follow each other. -/
def Separated (tokens : List Token) : Prop :=
  ∀ before after, tokens = before ++ after → Token.Apart before after

end Abacus
