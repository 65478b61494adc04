/-
Readings that differ in their numbers and their faults alone.

Reading looks at the kinds of the tokens and never at the value of a number, and
all that it does with a fault is to report it. So with other values in the same
places, and another fault at the end, every run goes on as before, and what it
reads or reports is renamed in the same way (`Runs.rename`).
-/
import Abacus.Proofs.Run

namespace Abacus

open Parse (advance extendsAbove Result)

/-- Other values for numbers, and other faults. -/
structure Renaming where
  value : Binary64 → Binary64
  fault : LexicalFault → LexicalFault

namespace Renaming

/-! ## What is renamed -/

def token (f : Renaming) : Token → Token
  | .number value => .number (f.value value)
  | token => token

def expr (f : Renaming) : Expr → Expr
  | .number value => .number (f.value value)
  | .negative operand => .negative (f.expr operand)
  | .binary op left right => .binary op (f.expr left) (f.expr right)
  | .undetermined left right => .undetermined (f.expr left) (f.expr right)
  | .empty => .empty

def error (f : Renaming) : ParseError → ParseError
  | .lexical fault => .lexical (f.fault fault)
  | .unexpected token => .unexpected (f.token token)
  | .expected kind token => .expected kind (f.token token)
  | .notOperator token => .notOperator (f.token token)
  | .trailing token => .trailing (f.token token)
  | .unexpectedEnd => .unexpectedEnd
  | .reused => .reused
  | .tooDeep => .tooDeep

def script (f : Renaming) (script : Script) : Script :=
  ⟨script.tokens.map f.token, script.fault?.map f.fault⟩

def cursor (f : Renaming) (c : Cursor) : Cursor :=
  ⟨f.token c.current, c.unread.map f.token, c.fault?.map f.fault, c.consumed⟩

def result (f : Renaming) : Result → Result
  | .ok e c => .ok (f.expr e) (f.cursor c)
  | .error err c => .error (f.error err) (f.cursor c)

def outcome (f : Renaming) : Except ParseError Expr → Except ParseError Expr
  | .ok e => .ok (f.expr e)
  | .error err => .error (f.error err)

def task (f : Renaming) : Task → Task
  | .primary => .primary
  | .expression floor => .expression floor
  | .extension floor left => .extension floor (f.expr left)
  | .operation left => .operation (f.expr left)
  | .closing group => .closing (f.expr group)
  | .following group => .following (f.expr group)

/-! ## What stays the same -/

variable (f : Renaming)

/-- With the values kept, an expression is the same. -/
theorem expr_eq_self (h : ∀ value, f.value value = value) (e : Expr) : f.expr e = e := by
  induction e with
  | number value => rw [expr, h]
  | negative operand ih => rw [expr, ih]
  | binary op left right ihl ihr => rw [expr, ihl, ihr]
  | undetermined left right ihl ihr => rw [expr, ihl, ihr]
  | empty => rfl

theorem token_eq_self (h : ∀ value, f.value value = value) (token : Token) :
    f.token token = token := by
  cases token with
  | number value => rw [Renaming.token, h]
  | operator | leftParen | rightParen | endOfInput => rfl

/-- With the values kept, an error other than a fault is the same. -/
theorem error_eq_self (h : ∀ value, f.value value = value) {err : ParseError}
    (hne : ∀ fault, err ≠ .lexical fault) : f.error err = err := by
  cases err with
  | lexical fault => exact absurd rfl (hne fault)
  | unexpected | expected | notOperator | trailing => rw [error, f.token_eq_self h]
  | unexpectedEnd | reused | tooDeep => rfl

theorem kind_token (token : Token) : (f.token token).kind = token.kind := by cases token <;> rfl

theorem opens_token (token : Token) : (f.token token).opens = token.opens := by
  cases token <;> rfl

theorem token_eq_iff {token other : Token} (h : other.isNumber = false) :
    f.token token = other ↔ token = other := by
  cases token with
  | number value =>
    constructor
    · rintro rfl; cases h
    · rintro rfl; cases h
  | operator | leftParen | rightParen | endOfInput => exact Iff.rfl

theorem token_eq {token other : Token} (h : token = other) (hn : other.isNumber = false) :
    f.token token = other := (f.token_eq_iff hn).2 h

theorem token_ne {token other : Token} (h : token ≠ other) (hn : other.isNumber = false) :
    f.token token ≠ other := fun he => h ((f.token_eq_iff hn).1 he)

theorem token_eq_end {token : Token} : f.token token = .endOfInput ↔ token = .endOfInput :=
  f.token_eq_iff rfl

theorem extendsAbove_token (floor : Int) (token : Token) :
    extendsAbove floor (f.token token) = extendsAbove floor token := by
  simp [extendsAbove, kind_token, token_eq_end]

theorem error_eq_tooDeep {err : ParseError} : f.error err = .tooDeep ↔ err = .tooDeep := by
  cases err <;> simp [error]

theorem result_negative (r : Result) :
    f.result (r.build .negative) = (f.result r).build .negative := by
  cases r <;> rfl

theorem result_binary (op : Operator) (left : Expr) (r : Result) :
    f.result (r.build (.binary op left)) = (f.result r).build (.binary op (f.expr left)) := by
  cases r <;> rfl

variable {f} {c d : Cursor}

theorem advance_ok (h : advance c = .ok () d) : advance (f.cursor c) = .ok () (f.cursor d) := by
  unfold advance at h
  split at h <;> cases h
  next hu => simp [advance, cursor, hu]

theorem advance_error {err : ParseError} (h : advance c = .error err d) :
    advance (f.cursor c) = .error (f.error err) (f.cursor d) := by
  unfold advance at h
  split at h <;> cases h
  next hu hf => simp [advance, cursor, error, hu, hf]
  next hu hf => simp [advance, cursor, error, hu, hf]

theorem nests_task {task : Task} (h : task.Nests) : (f.task task).Nests := by
  cases task <;> exact h

end Renaming

open Renaming

/-- Renamed, a run is the run of what is renamed. -/
theorem Runs.rename (f : Renaming) {room : Nat} {task : Task} {c : Cursor} {r : Result}
    (h : Runs room task c r) : Runs room (f.task task) (f.cursor c) (f.result r) := by
  induction h with
  | tooDeep hn => exact .tooDeep (nests_task hn)
  | refused ho => exact .refused ((f.opens_token _).trans ho)
  | stuck ho ha => exact .stuck ((f.opens_token _).trans ho) (advance_error ha)
  | negative hc ha _ ih =>
    rw [result_negative]
    exact .negative (f.token_eq hc rfl) (advance_ok ha) ih
  | number hc ha hl =>
    refine .number ?_ (advance_ok ha) (f.token_ne hl rfl)
    simp only [cursor, hc, token]
  | numberTimes hc ha hl _ ih =>
    rw [result_binary]
    refine .numberTimes ?_ (advance_ok ha) (f.token_eq hl rfl) ih
    simp only [cursor, hc, token]
  | groupFails hc ha _ ih => exact .groupFails (f.token_eq hc rfl) (advance_ok ha) ih
  | group hc ha _ _ ih ih' => exact .group (f.token_eq hc rfl) (advance_ok ha) ih ih'
  | unclosed hc => exact .unclosed (f.token_ne hc rfl)
  | closedLast hc ha => exact .closedLast (f.token_eq hc rfl) (advance_error ha)
  | closed hc ha _ ih => exact .closed (f.token_eq hc rfl) (advance_ok ha) ih
  | minus hc => exact .minus (f.token_eq hc rfl)
  | times hc _ ih => exact .times (f.token_ne hc rfl) ih
  | alone hc _ hne hd ih =>
    exact .alone (f.token_ne hc rfl) ih (fun he => hne (f.error_eq_tooDeep.1 he)) hd
  | broken hc _ hd ih =>
    exact .broken (f.token_ne hc rfl) ih (hd.imp_left f.error_eq_tooDeep.2)
  | noOperand _ ih => exact .noOperand ih
  | operand _ _ ih ih' => exact .operand ih ih'
  | stop hx => exact .stop ((f.extendsAbove_token _ _).trans hx)
  | stepFails hx _ ih => exact .stepFails ((f.extendsAbove_token _ _).trans hx) ih
  | step hx _ _ ih ih' => exact .step ((f.extendsAbove_token _ _).trans hx) ih ih'
  | noOperator hc => exact .noOperator fun op => f.token_ne (hc op) rfl
  | operatorLast hc ha => exact .operatorLast (f.token_eq hc rfl) (advance_error ha)
  | operator hc ha _ ih =>
    rw [result_binary]
    exact .operator (f.token_eq hc rfl) (advance_ok ha) ih

/-! ## Texts -/

namespace Renaming

variable (f : Renaming)

theorem tokens_cursor (c : Cursor) :
    (f.cursor c).current :: (f.cursor c).unread = (c.current :: c.unread).map f.token := rfl

theorem stream_script (script : Script) : (f.script script).stream = script.stream.map f.token := by
  cases hf : script.fault? <;> simp [Script.stream, Renaming.script, hf, token]

theorem answer_result (r : Result) : (f.result r).answer = f.outcome r.answer := by
  cases r with
  | error err c => rfl
  | ok e c =>
    simp only [result, Result.answer, cursor, token_eq_end]
    split <;> rfl

end Renaming

namespace Expr

variable {f : Renaming} {text text' : String}

/-- A text with the renamed script of another is read as that is, renamed. -/
theorem ofTextWithin_rename (room : Nat)
    (h : Script.ofText text' = f.script (Script.ofText text)) :
    ofTextWithin room text' = f.outcome (ofTextWithin room text) := by
  cases hc : Cursor.ofText text with
  | error err =>
    obtain ⟨fault, ht, hf, rfl⟩ := Cursor.ofText_eq_error hc
    have hc' : Cursor.ofText text' = .error (.lexical (f.fault fault)) := by
      simp [Cursor.ofText, Cursor.ofScript, h, Script.stream, Renaming.script, ht, hf]
    simp [ofTextWithin, hc, hc', bind, Except.bind, outcome, error]
  | ok c =>
    obtain ⟨htokens, hf, hzero⟩ := Cursor.ofText_eq_ok.1 hc
    have hc' : Cursor.ofText text' = .ok (f.cursor c) := by
      rw [Cursor.ofText_eq_ok, h, f.stream_script, f.tokens_cursor, htokens]
      exact ⟨rfl, by simp [cursor, hf, Renaming.script], hzero⟩
    obtain ⟨r, hr⟩ := Runs.total room (.expression Precedence.none.level) c
    rw [ofTextWithin_eq hc hr, ofTextWithin_eq hc' (hr.rename f), f.answer_result]

end Expr
end Abacus
