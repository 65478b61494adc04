/-
Evaluation of texts: of one text, of one request, and of a batch of lines.

A request always has an entry, whether its expression has a value or not. A
batch has one entry for each line that is not blank, numbered from one in the
order of the lines.
-/
import Abacus.Entry
import Abacus.Journal

namespace Abacus

/-! ## One text -/

def Expr.parse (text : String) : Run Expr := do
  match Expr.ofText text with
  | .ok e =>
    Run.record (.parsed text e)
    return e
  | .error error => throw (.parsing error)

def Expr.evaluate (tolerance : Tolerance) (e : Expr) : Run Binary64 := do
  match e.value tolerance with
  | .ok value =>
    Run.record (.evaluated e value)
    return value
  | .error error => throw (.evaluation error)

/-- The value of the expression that a text denotes. -/
def compute (tolerance : Tolerance) (text : String) : Run Binary64 := do
  (← Expr.parse text).evaluate tolerance

theorem Expr.parse_apply (text : String) (journal : List Event) :
    Expr.parse text journal =
      match Expr.ofText text with
      | .ok e => .ok e (journal ++ [.parsed text e])
      | .error err => .error (.parsing err) journal := by
  rw [Expr.parse]
  cases Expr.ofText text <;> rfl

theorem Expr.evaluate_apply (tolerance : Tolerance) (e : Expr) (journal : List Event) :
    e.evaluate tolerance journal =
      match e.value tolerance with
      | .ok value => .ok value (journal ++ [.evaluated e value])
      | .error err => .error (.evaluation err) journal := by
  rw [Expr.evaluate]
  cases e.value tolerance <;> rfl

/-- A computation fails with the first error of its two stages, and the journal says how far it
came. -/
theorem compute_apply (tolerance : Tolerance) (text : String) (journal : List Event) :
    compute tolerance text journal =
      match Expr.ofText text with
      | .error err => .error (.parsing err) journal
      | .ok e =>
        match e.value tolerance with
        | .error err => .error (.evaluation err) (journal ++ [.parsed text e])
        | .ok value => .ok value (journal ++ [.parsed text e, .evaluated e value]) := by
  simp only [compute, bind, EStateM.bind, Expr.parse_apply]
  cases Expr.ofText text with
  | error err => rfl
  | ok e =>
    simp only [Expr.evaluate_apply]
    cases e.value tolerance with
    | error err => rfl
    | ok value => simp

/-! ## Requests -/

/-- What an entry keeps of a failure. -/
def Failure.message : Failure → String
  | .parsing error => error.message
  | .evaluation error => error.message
  | .invalid issues => "\n".intercalate (issues.map fun issue => issue.cause.message)

def Request.entry (request : Request) : Run Entry := do
  Run.record (.started request.line.val request.expression)
  match ← (compute .standard request.expression).outcome with
  | .ok value =>
    Run.record (.finished request.line.val value)
    return ⟨request.expression, request.line, .value value⟩
  | .error failure =>
    Run.record (.failed request.line.val request.expression failure.message)
    return ⟨request.expression, request.line, .failure failure.message⟩

/-- The entry of the request that a form makes. -/
def evaluateForm (form : Form) : Run Entry := do
  (← Run.check (Request.ofForm form)).entry

/-! ## Batches -/

/-- The form of a line in a batch. -/
def lineForm (text : String) (line : Nat) : Form :=
  [("expression", .text text), ("line_number", .integer line)]

def evaluateLines (line : Nat) : List String → Run (List Entry)
  | [] => return []
  | text :: rest => do
    let entry ← evaluateForm (lineForm text line)
    return entry :: (← evaluateLines (line + 1) rest)

def evaluateMany (lines : List String) : Run (List Entry) :=
  evaluateLines 1 (lines.filter fun line => ¬ Text.Blank line)

end Abacus
