/-
A place in a script, with one token of lookahead.

The cursor shows the current token and knows how many came before it. A
`Parse` is a computation that moves the cursor forward; when it fails, the
cursor stays where it was at the moment of failure, so that nothing read is
ever read again.
-/
import Abacus.Expr.Basic
import Abacus.Token.Script

namespace Abacus

/-! ## Errors -/

inductive ParseError where
  /-- The characters after the current token make no token. -/
  | lexical (fault : LexicalFault)
  /-- The end of the input was passed. -/
  | unexpectedEnd
  /-- No operand begins with this token. -/
  | unexpected (token : Token)
  | expected (kind : Kind) (token : Token)
  | notOperator (token : Token)
  /-- The expression is complete before this token. -/
  | trailing (token : Token)
  /-- The whole expression has been asked for before. -/
  | reused
  | tooDeep
deriving DecidableEq

def ParseError.message : ParseError → String
  | .lexical fault => fault.message
  | .unexpectedEnd => "Unexpected end of input"
  | .unexpected token => "Unable to parse, unexpected " ++ token.text
  | .expected kind token => "Expected " ++ kind.name ++ ", got " ++ token.text
  | .notOperator token => "Please enter a valid operator, got " ++ token.text
  | .trailing token => "Unexpected " ++ token.text ++ " after the end of the expression"
  | .reused => "Parser has already been used, create a new one for each expression"
  | .tooDeep => "Expression nested too deeply"

/-! ## Cursors -/

structure Cursor where
  current : Token
  unread : List Token
  /-- The fault that stops the reading after the unread tokens, until it has been reported. -/
  fault? : Option LexicalFault
  /-- How many tokens came before the current one. -/
  consumed : Nat
deriving DecidableEq

/-- The cursor at the first token. -/
def Cursor.ofScript (script : Script) : Except ParseError Cursor :=
  match script.stream, script.fault? with
  | token :: rest, fault? => .ok ⟨token, rest, fault?, 0⟩
  | [], some fault => .error (.lexical fault)
  | [], none => .error .unexpectedEnd

def Cursor.ofText (text : String) : Except ParseError Cursor := ofScript (.ofText text)

abbrev Parse := EStateM ParseError Cursor

namespace Parse

def current : Parse Token := fun cursor => .ok cursor.current cursor

/-- Moves to the next token. Without one the cursor stays; a fault is reported once. -/
def advance : Parse Unit := fun cursor =>
  match cursor.unread, cursor.fault? with
  | token :: rest, _ =>
    .ok () { cursor with current := token, unread := rest, consumed := cursor.consumed + 1 }
  | [], some fault => .error (.lexical fault) { cursor with fault? := none }
  | [], none => .error .unexpectedEnd cursor

/-- Moves past a token of the given kind. -/
def expect (kind : Kind) : Parse Unit := do
  let token ← current
  if token.kind = kind then advance else throw (.expected kind token)

end Parse
end Abacus
