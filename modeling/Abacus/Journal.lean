/-
The journal of a run.

A `Run` writes events down as they happen, and they stay in the journal if the
run fails afterwards.
-/
import Abacus.Expr.Reading
import Abacus.Expr.Value
import Abacus.Form

namespace Abacus

/-! ## Events -/

inductive Event where
  | parsed (text : String) (e : Expr)
  | evaluated (e : Expr) (value : Binary64)
  | started (line : Nat) (text : String)
  | finished (line : Nat) (value : Binary64)
  | failed (line : Nat) (text reason : String)
deriving DecidableEq

inductive Severity where
  | debug
  | info
  | error
deriving DecidableEq

def Severity.name : Severity → String
  | .debug => "DEBUG"
  | .info => "INFO"
  | .error => "ERROR"

namespace Event

def severity : Event → Severity
  | parsed .. => .debug
  | evaluated .. => .debug
  | started .. => .info
  | finished .. => .info
  | failed .. => .error

def message : Event → String
  | parsed text e => "🌳 Parsed " ++ Text.quoted text ++ " into " ++ e.text
  | evaluated e value => "🧮 Evaluated " ++ e.text ++ " to " ++ value.text
  | started line text => "🏁 Evaluating line " ++ toString line ++ ": " ++ text
  | finished line value => "✅ Finished line " ++ toString line ++ ": " ++ value.text
  | failed line text reason =>
    "❌ Failed on line " ++ toString line ++ ": " ++ reason ++
      "\nInvalid arithmetic expression, could not evaluate: " ++ Text.quoted text

end Event

/-! ## Runs -/

inductive Failure where
  | parsing (error : ParseError)
  | evaluation (error : EvaluationError)
  | invalid (issues : List Issue)
deriving DecidableEq

/-- A computation that may fail and that adds to the journal. -/
abbrev Run := EStateM Failure (List Event)

namespace Run

def record (event : Event) : Run Unit := modify (· ++ [event])

/-- What became of a run, as a value. -/
def outcome {α : Type} (run : Run α) : Run (Except Failure α) := fun journal =>
  match run journal with
  | .ok a journal => .ok (.ok a) journal
  | .error failure journal => .ok (.error failure) journal

def check {α : Type} : Checked α → Run α
  | .ok a => pure a
  | .error issues => throw (.invalid issues)

/-- Runs from an empty journal. -/
def result {α : Type} (run : Run α) : Except Failure α × List Event :=
  match run [] with
  | .ok a journal => (.ok a, journal)
  | .error failure journal => (.error failure, journal)

end Run
end Abacus
