/-
Requests and entries: a line to be evaluated, and what became of it.

Lines count from one. A request's expression has a character that is not
blank; an entry's outcome is a value or the reason for which there is none,
never both.
-/
import Abacus.Form

namespace Abacus

abbrev LineNumber := { line : Nat // 0 < line }

def LineNumber.first : LineNumber := ⟨1, by decide⟩

def LineNumber.read (raw : Raw) : Except Cause LineNumber := do
  let line ← raw.readInteger
  if positive : 0 < line.toNat then return ⟨line.toNat, positive⟩ else throw .belowOne

/-! ## Requests -/

structure Request where
  expression : String
  line : LineNumber
  visible : ¬ Text.Blank expression

namespace Request

def readExpression (raw : Raw) : Except Cause { text : String // ¬ Text.Blank text } := do
  let text ← raw.readText
  if blank : Text.Blank text then throw .blankExpression else return ⟨text, blank⟩

def ofForm (form : Form) : Checked Request :=
  let expression := form.field "expression" none readExpression
  let line := form.field "line_number" (some .first) LineNumber.read
  (expression.both line).map fun (expression, line) => ⟨expression.val, line, expression.property⟩

end Request

/-! ## Entries -/

inductive Outcome where
  | value (result : Binary64)
  | failure (reason : String)
deriving DecidableEq

/-- Exactly one of a result and a reason makes an outcome. -/
def Outcome.ofParts? : Option Binary64 → Option String → Option Outcome
  | some result, none => some (.value result)
  | none, some reason => some (.failure reason)
  | _, _ => none

structure Entry where
  expression : String
  line : LineNumber
  outcome : Outcome
deriving DecidableEq

namespace Entry

def result? (entry : Entry) : Option Binary64 :=
  match entry.outcome with
  | .value result => some result
  | .failure _ => none

def error? (entry : Entry) : Option String :=
  match entry.outcome with
  | .value _ => none
  | .failure reason => some reason

def succeeded (entry : Entry) : Bool := entry.error?.isNone

/-- The outcome is looked at only if every field is valid. -/
def ofForm (form : Form) : Checked Entry := do
  let expression := form.field "expression" none Raw.readText
  let line := form.field "line_number" (some .first) LineNumber.read
  let result := form.field "result" (some none) (Raw.readOptional Raw.readNumber)
  let error := form.field "error" (some none) (Raw.readOptional Raw.readText)
  let (expression, line, result, error) ← expression.both (line.both (result.both error))
  match Outcome.ofParts? result error with
  | some outcome => return ⟨expression, line, outcome⟩
  | none => throw [⟨"", .notExactlyOne⟩]

end Entry
end Abacus
