/-
Reading step by step.

A session holds a cursor in a text and performs single calls: moving on,
reading a part of an expression, or reading the whole, which it does only
once. A call that fails leaves the cursor where it stood at that moment.
-/
import Abacus.Journal

namespace Abacus

inductive Call where
  /-- Reads the whole expression; fails when it is made again. -/
  | whole
  | advance
  | expect (kind : Kind)
  | primary
  /-- Reads an expression whose operators bind tighter than the floor. -/
  | expression (floor : Int)
  /-- Reads an operator and its right operand. -/
  | operation (left : Expr)
deriving DecidableEq

structure Session where
  text : String
  cursor : Cursor
  used : Bool
deriving DecidableEq

/-- What a call answers: an expression if it reads one, the session afterwards, and what is to be
noted. -/
structure Reply where
  answer : Except ParseError (Option Expr)
  session : Session
  events : List Event

namespace Session

def ofText (text : String) : Except ParseError Session := do
  return ⟨text, ← Cursor.ofText text, false⟩

/-- Lets a computation move the cursor. -/
def visit (session : Session) (parse : Parse (Option Expr)) :
    Except ParseError (Option Expr) × Session :=
  match parse session.cursor with
  | .ok answer cursor => (.ok answer, { session with cursor })
  | .error error cursor => (.error error, { session with cursor })

/-- The computation of a call, if no more than `room` calls nest in it; reading the whole needs a
session that has not done so. -/
def reading (room : Nat) (session : Session) : Call → Parse (Option Expr)
  | .whole => if session.used then throw .reused else some <$> Parse.whole room
  | .advance => do Parse.advance; return none
  | .expect kind => do Parse.expect kind; return none
  | .primary => some <$> Parse.primary room
  | .expression floor => some <$> Parse.expression room floor
  | .operation left => some <$> Parse.operation room left

def performWithin (room : Nat) (session : Session) (call : Call) : Reply :=
  let (answer, next) := session.visit (session.reading room call)
  match call, answer with
  | .whole, .ok (some e) => ⟨answer, { next with used := true }, [.parsed session.text e]⟩
  | .whole, _ => ⟨answer, { next with used := true }, []⟩
  | _, _ => ⟨answer, next, []⟩

def perform (session : Session) (call : Call) : Reply := session.performWithin Parse.maxNesting call

/-- The session after calls, each with a room of its own; those that fail are followed by the
next. -/
def after (session : Session) (calls : List (Nat × Call)) : Session :=
  calls.foldl (fun session (room, call) => (session.performWithin room call).session) session

end Session
end Abacus
