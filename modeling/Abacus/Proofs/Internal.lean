/-
The failures that no text comes to.

Some errors say that the parts of the reading do not fit each other, or that the
evaluation does not know what was read: the end of the input is passed, an
operation is begun without an operator, an expression has no operator at all.
They can be met by single steps and by expressions that are built, but not by a
text (`compute_external`). The end of the input is the delicate one, because a
fault may be used up by an operand that is taken back, and one more advance
would then pass the end: `Runs.surfaces` says where a run that did so would
stand, and `Runs.reported` that no run stands there.
-/
import Abacus.Batch
import Abacus.Proofs.Evaluation
import Abacus.Proofs.Fault
import Abacus.Proofs.Misfit

namespace Abacus

open Parse (advance Result)

/-! ## Failures and their messages -/

namespace Failure

/-- The failures by which the reading or the evaluation is at fault, and not the text. -/
inductive Internal : Failure → Prop
  | unexpectedEnd : Internal (.parsing .unexpectedEnd)
  | notOperator {token : Token} : Internal (.parsing (.notOperator token))
  | empty : Internal (.evaluation .empty)
  | undetermined : Internal (.evaluation .undetermined)

/-- How the messages of internal failures begin. -/
def internalTexts : List String :=
  ["Unexpected end of input", "Please enter a valid operator, got ", "Unsupported node type: "]

/-- Neither text begins with the other. -/
def Diverge (a b : String) : Prop := ¬ a.toList <+: b.toList ∧ ¬ b.toList <+: a.toList

instance (a b : String) : Decidable (Diverge a b) := inferInstanceAs (Decidable (_ ∧ _))

theorem Diverge.append {a b : String} (h : Diverge a b) (c : String) : Diverge a (b ++ c) := by
  rw [Diverge, String.toList_append]
  constructor
  · intro hp
    cases List.prefix_or_prefix_of_prefix hp (List.prefix_append _ _) with
    | inl hp => exact h.1 hp
    | inr hp => exact h.2 hp
  · exact fun hp => h.2 ((List.prefix_append _ _).trans hp)

/-- The message is not that of an internal failure. -/
def Clear (message : String) : Prop := ∀ beginning ∈ internalTexts, Diverge beginning message

instance (message : String) : Decidable (Clear message) := List.decidableBAll _ internalTexts

/-- A message that begins in another way may go on with anything. -/
theorem Clear.append {head : String} (h : Clear head) (tail : String) : Clear (head ++ tail) :=
  fun beginning hm => (h beginning hm).append tail

/-- The failure is not internal, nor does its message say so. -/
structure External (failure : Failure) : Prop where
  cause : ¬ failure.Internal
  message : ∀ beginning ∈ internalTexts, ¬ beginning.toList <+: failure.message.toList

theorem External.of_clear {failure : Failure} (h : ¬ failure.Internal)
    (hm : Clear failure.message) : failure.External :=
  ⟨h, fun beginning hb => (hm beginning hb).1⟩

/-- How the messages of all other failures begin, but for those of symbols that are left over. -/
def otherTexts : List String :=
  ["Invalid character ", "Malformed number at position ", "Unable to parse, unexpected ",
    "Expected ", "Unexpected number ",
    "Parser has already been used, create a new one for each expression",
    "Expression nested too deeply", "Result is not a finite number: ", "Division by zero",
    "0^negative is undefined", "Negative base with fractional exponent",
    "Overflow in exponentiation", "Undefined exponentiation ", "Cannot perform bitwise "]

theorem clear_otherTexts : ∀ head ∈ otherTexts, Clear head := by decide +kernel

/-- No symbol that is left over reads like the end of the input. -/
theorem clear_kind (kind : Kind) : Clear ("Unexpected " ++ kind.name) := by
  have hall : ∀ kind ∈ Kind.all, Clear ("Unexpected " ++ kind.name) := by decide
  refine hall kind ?_
  cases kind with
  | operator op => cases op <;> simp [Kind.all]
  | number | leftParen | rightParen | endOfInput => simp [Kind.all]

theorem clear_trailing (token : Token) : Clear (ParseError.trailing token).message := by
  cases token with
  | number value =>
    have hsplit : "Unexpected " ++ ("number " ++ value.text) = "Unexpected number " ++ value.text :=
      String.append_assoc.symm
    have hhead := (clear_otherTexts "Unexpected number " (by simp [otherTexts])).append value.text
    rw [← hsplit] at hhead
    exact hhead.append _
  | operator op => exact (clear_kind (.operator op)).append _
  | leftParen => exact (clear_kind .leftParen).append _
  | rightParen => exact (clear_kind .rightParen).append _
  | endOfInput => exact (clear_kind .endOfInput).append _

theorem external_parsing {err : ParseError} (hend : err ≠ .unexpectedEnd)
    (hop : ∀ token, err ≠ .notOperator token) : (parsing err).External := by
  have hcause : ¬ (parsing err).Internal := by
    intro h
    cases h with
    | unexpectedEnd => exact hend rfl
    | notOperator => exact hop _ rfl
  refine .of_clear hcause ?_
  cases err with
  | unexpectedEnd => exact absurd rfl hend
  | notOperator token => exact absurd rfl (hop token)
  | lexical fault =>
    cases fault with
    | invalidCharacter c position =>
      have h := clear_otherTexts "Invalid character " (by simp [otherTexts])
      exact ((h.append _).append _).append _
    | secondPoint start =>
      have h := clear_otherTexts "Malformed number at position " (by simp [otherTexts])
      exact (h.append _).append _
  | unexpected token =>
    exact (clear_otherTexts "Unable to parse, unexpected " (by simp [otherTexts])).append _
  | expected kind token =>
    have h := clear_otherTexts "Expected " (by simp [otherTexts])
    exact ((h.append _).append _).append _
  | trailing token => exact clear_trailing token
  | reused =>
    exact clear_otherTexts "Parser has already been used, create a new one for each expression"
      (by simp [otherTexts])
  | tooDeep => exact clear_otherTexts "Expression nested too deeply" (by simp [otherTexts])

theorem external_evaluation {err : EvaluationError} (hempty : err ≠ .empty)
    (hpair : err ≠ .undetermined) : (evaluation err).External := by
  have hcause : ¬ (evaluation err).Internal := by
    intro h
    cases h with
    | empty => exact hempty rfl
    | undetermined => exact hpair rfl
  refine .of_clear hcause ?_
  cases err with
  | empty => exact absurd rfl hempty
  | undetermined => exact absurd rfl hpair
  | notFinite value =>
    exact (clear_otherTexts "Result is not a finite number: " (by simp [otherTexts])).append _
  | undefinedPower base exponent =>
    have h := clear_otherTexts "Undefined exponentiation " (by simp [otherTexts])
    exact (((h.append _).append _).append _).append _
  | notWords op left right =>
    have h := clear_otherTexts "Cannot perform bitwise " (by simp [otherTexts])
    exact ((((h.append _).append _).append _).append _).append _
  | divisionByZero => exact clear_otherTexts "Division by zero" (by simp [otherTexts])
  | zeroToNegative => exact clear_otherTexts "0^negative is undefined" (by simp [otherTexts])
  | fractionalPower =>
    exact clear_otherTexts "Negative base with fractional exponent" (by simp [otherTexts])
  | overflow => exact clear_otherTexts "Overflow in exponentiation" (by simp [otherTexts])
  | tooDeep => exact clear_otherTexts "Expression nested too deeply" (by simp [otherTexts])

end Failure

/-! ## Reading -/

/-- The last token has been reached and is not the end of the input, and no fault is left to tell
why nothing comes behind it. -/
structure Cursor.Stranded (c : Cursor) : Prop where
  current : c.current ≠ .endOfInput
  unread : c.unread = []
  fault : c.fault? = none

/-- The error is no missing operator, and the end of the input is passed only where a cursor is
stranded. -/
structure Surfaces (err : ParseError) (d : Cursor) : Prop where
  operator : ∀ token, err ≠ .notOperator token
  stranded : err = .unexpectedEnd → d.Stranded

theorem Surfaces.of_ne {err : ParseError} {d : Cursor} (hend : err ≠ .unexpectedEnd)
    (hop : ∀ token, err ≠ .notOperator token) : Surfaces err d :=
  ⟨hop, fun h => absurd h hend⟩

theorem Surfaces.of_stuck {err : ParseError} {c d : Cursor} (h : advance c = .error err d)
    (hc : c.current ≠ .endOfInput) : Surfaces err d := by
  unfold Parse.advance at h
  split at h <;> cases h
  next => exact .of_ne (by simp) (by simp)
  next hu hf => exact ⟨by simp, fun _ => ⟨hc, hu, hf⟩⟩

/-- The tasks that an expression comes to: floors are levels, and an operation begins at an
operator. -/
def Task.Guarded (c : Cursor) : Task → Prop
  | expression floor | extension floor _ => 0 ≤ floor
  | operation _ => ∃ op, c.current = .operator op
  | primary | closing _ | following _ => True

theorem Runs.surfaces {room : Nat} {task : Task} {c d : Cursor} {err : ParseError} {r : Result}
    (h : Runs room task c r) (hg : task.Guarded c) (hr : r = .error err d) : Surfaces err d := by
  induction h generalizing d err with
  | number | minus | times | alone | stop => cases hr
  | tooDeep | refused | unclosed =>
    cases hr
    exact .of_ne (by simp) (by simp)
  | stuck ho ha =>
    cases hr
    refine .of_stuck ha fun hc => ?_
    rw [hc] at ho
    cases ho
  | closedLast hc ha | operatorLast hc ha =>
    cases hr
    exact .of_stuck ha (by simp [hc])
  | noOperator hno =>
    obtain ⟨op, hop⟩ := hg
    exact absurd hop (hno op)
  | negative _ _ _ ih | operator _ _ _ ih =>
    exact ih (Int.natCast_nonneg _) (Result.build_eq_error.1 hr)
  | numberTimes _ _ _ _ ih => exact ih trivial (Result.build_eq_error.1 hr)
  | groupFails _ _ _ ih => exact ih (Int.le_refl 0) hr
  | group _ _ _ _ _ ih' => exact ih' trivial hr
  | closed _ _ _ ih | broken _ _ _ ih | noOperand _ ih => exact ih trivial hr
  | operand _ _ _ ih' => exact ih' hg hr
  | stepFails hx _ ih => exact ih (Parse.operator_of_extendsAbove hg hx) hr
  | step _ _ _ _ ih' => exact ih' hg hr

/-- A run on a text that has come to its end stands at the end of the input, or has reported the
text's fault. So it is never stranded. -/
theorem Runs.ne_unexpectedEnd {room : Nat} {text : String} {c d : Cursor} {err : ParseError}
    (hc : Cursor.ofText text = .ok c)
    (h : Runs room (.expression Precedence.none.level) c (.error err d)) :
    err ≠ .unexpectedEnd := by
  intro herr
  subst herr
  obtain ⟨hcurrent, hunread, hfault⟩ := (h.surfaces (Int.le_refl 0) rfl).stranded rfl
  obtain ⟨htokens, hcf, -⟩ := Cursor.ofText_eq_ok.1 hc
  obtain ⟨used, hm, -⟩ := h.moves
  have hstream : (Script.ofText text).stream = used ++ [d.current] := by
    rw [← htokens, hm.tokens, Result.cursor_error, hunread]
  cases hf : (Script.ofText text).fault? with
  | none =>
    have hlast : (Script.ofText text).stream.getLast? = some .endOfInput := by
      simp [Script.stream, hf]
    rw [hstream] at hlast
    simp at hlast
    exact hcurrent hlast
  | some fault =>
    obtain ⟨used, -, hreported⟩ := h.reported (Int.le_refl 0) (hcf.trans hf)
    cases hreported hfault [] (.inl (by simp [Task.Fits]))

theorem Expr.external_of_ofTextWithin {room : Nat} {text : String} {err : ParseError}
    (h : Expr.ofTextWithin room text = .error err) : (Failure.parsing err).External := by
  cases hc : Cursor.ofText text with
  | error err' =>
    obtain ⟨fault, -, -, rfl⟩ := Cursor.ofText_eq_error hc
    simp only [ofTextWithin, hc, bind, Except.bind, Except.error.injEq] at h
    subst h
    exact Failure.external_parsing (by simp) (by simp)
  | ok c =>
    obtain ⟨r, hr⟩ := Runs.total room (.expression Precedence.none.level) c
    rw [ofTextWithin_eq hc hr] at h
    cases r with
    | error err' d =>
      obtain rfl := Except.error.inj h
      exact Failure.external_parsing (Runs.ne_unexpectedEnd hc hr)
        (hr.surfaces (Int.le_refl 0) rfl).operator
    | ok e d =>
      simp only [Result.answer] at h
      split at h <;> cases h
      exact Failure.external_parsing (by simp) (by simp)

/-! ## Expressions that are read -/

/-- A number that is not negative. -/
def Binary64.Unsigned (x : Binary64) : Prop := x.isNaN = false ∧ x.isNegative = false

/-- Rounding does not make a sign. -/
theorem Binary64.unsigned_nearest (num den : Nat) : (nearest false num den).Unsigned := by
  unfold nearest
  split <;> exact ⟨rfl, rfl⟩

theorem Numeral.unsigned_value (numeral : Numeral) : numeral.value.Unsigned := by
  rw [value, Binary64.ofDecimal]
  exact Binary64.unsigned_nearest _ _

namespace Script

theorem unsigned_close {open? : Option Numeral} {value : Binary64}
    (h : .number value ∈ Numeral.close open?) : value.Unsigned := by
  cases open? with
  | none => simp [Numeral.close] at h
  | some numeral =>
    have hvalue : value = numeral.value := by simpa [Numeral.close] using h
    rw [hvalue]
    exact numeral.unsigned_value

/-- The numbers that are scanned have no sign; the minus in front of one is a token of its own. -/
theorem unsigned_scan (position : Nat) (open? : Option Numeral) (cs : List Char)
    {value : Binary64} (h : .number value ∈ (scan position open? cs).tokens) : value.Unsigned := by
  fun_induction scan position open? cs with
  | case1 => exact unsigned_close h
  | case7 =>
    simp only at h
    exact unsigned_close h
  | case2 _ _ _ _ _ ih | case3 _ _ _ _ _ _ ih | case6 _ _ _ _ _ _ _ ih => exact ih h
  | case4 _ open? _ _ _ _ token ht ih =>
    simp only [after, List.mem_append, List.mem_singleton] at h
    obtain (h | h) | h := h
    · exact unsigned_close h
    · have hno := Token.not_number_of_ofSymbol? ht
      rw [← h] at hno
      cases hno
    · exact ih h
  | case5 | case8 => simp at h

end Script

namespace Expr

/-- Numbers without a sign, negations and operations, as they can be written in a text. -/
def Readable : Expr → Prop
  | number value => value.Unsigned
  | negative operand => operand.Readable
  | binary _ left right => left.Readable ∧ right.Readable
  | undetermined .. | empty => False

theorem readable_of_derives {level : Nat} {tokens : List Token} {e : Expr}
    (h : Derives level tokens e) (hvalues : ∀ value, .number value ∈ tokens → value.Unsigned) :
    e.Readable := by
  induction h with
  | tighter _ _ ih => exact ih hvalues
  | binary _ _ ih ih' =>
    exact ⟨ih fun value hm => hvalues value (by simp [hm]),
      ih' fun value hm => hvalues value (by simp [hm])⟩
  | negative _ ih => exact ih fun value hm => hvalues value (by simp [hm])
  | product _ _ _ ih ih' =>
    exact ⟨ih fun value hm => hvalues value (by simp [hm]),
      ih' fun value hm => hvalues value (by simp [hm])⟩
  | number => exact hvalues _ (by simp)
  | group _ ih => exact ih fun value hm => hvalues value (by simp [hm])

theorem readable_of_ofTextWithin {room : Nat} {text : String} {e : Expr}
    (h : ofTextWithin room text = .ok e) : e.Readable :=
  readable_of_derives (derives_of_ofTextWithin h).2 fun _ hm => Script.unsigned_scan _ _ _ hm

/-! ## Evaluation -/

/-- Whatever error the computation ends in, it is none about the form of an expression. -/
def KnowsForm {α : Type} (outcome : Except EvaluationError α) : Prop :=
  ∀ err, outcome = .error err → err ≠ .empty ∧ err ≠ .undetermined

namespace KnowsForm

variable {α β : Type}

theorem ok (a : α) : KnowsForm (.ok a) := by
  intro err h
  cases h

theorem error {err : EvaluationError} (h : err ≠ .empty ∧ err ≠ .undetermined) :
    KnowsForm (.error err : Except EvaluationError α) := by
  intro err' herr
  obtain rfl := Except.error.inj herr
  exact h

theorem bind {outcome : Except EvaluationError α} {f : α → Except EvaluationError β}
    (h : KnowsForm outcome) (hf : ∀ a, KnowsForm (f a)) : KnowsForm (outcome >>= f) := by
  cases outcome with
  | ok a => exact hf a
  | error err => exact .error (h err rfl)

theorem checkFinite (value : Binary64) : KnowsForm (checkFinite value) := by
  unfold Expr.checkFinite
  split
  · exact .ok _
  · exact .error (by simp)

theorem checkDivisor (tolerance : Tolerance) (divisor : Binary64) :
    KnowsForm (checkDivisor tolerance divisor) := by
  unfold Expr.checkDivisor
  split
  · exact .error (by simp)
  · exact .ok _

theorem power (tolerance : Tolerance) (x y : Binary64) : KnowsForm (power tolerance x y) := by
  unfold Expr.power
  dsimp only
  split
  · exact .error (by simp)
  · split
    · exact .error (by simp)
    · split
      · exact .error (by simp)
      · split
        · exact .error (by simp)
        · exact .ok _

theorem bitwise (op : Operator) (combine : BitVec 64 → BitVec 64 → BitVec 64) (x y : Binary64) :
    KnowsForm (bitwise op combine x y) := by
  unfold Expr.bitwise
  split
  · exact .ok _
  · exact .error (by simp)

theorem operate (tolerance : Tolerance) (op : Operator) (x y : Binary64) :
    KnowsForm (operate tolerance op x y) := by
  cases op with
  | add | subtract | multiply | divide => exact .ok _
  | power => exact .power tolerance x y
  | and => exact .bitwise .and _ x y
  | or => exact .bitwise .or _ x y

end KnowsForm

theorem Readable.knowsForm {e : Expr} (h : e.Readable) (tolerance : Tolerance) (depth : Nat) :
    KnowsForm (e.valueWithin tolerance depth) := by
  induction e generalizing depth with
  | number value =>
    cases depth with
    | zero => exact .error (by simp)
    | succ depth => exact .checkFinite value
  | negative e ih =>
    cases depth with
    | zero => exact .error (by simp)
    | succ depth => exact (ih h depth).bind fun x => .checkFinite _
  | binary op left right ihl ihr =>
    cases depth with
    | zero => exact .error (by simp)
    | succ depth =>
      rw [valueWithin_binary]
      split
      · exact (ihr h.2 depth).bind fun y => (KnowsForm.checkDivisor tolerance y).bind fun _ =>
          (ihl h.1 depth).bind fun x => .checkFinite _
      · exact (ihl h.1 depth).bind fun x => (ihr h.2 depth).bind fun y =>
          (KnowsForm.operate tolerance op x y).bind fun z => .checkFinite z
  | undetermined | empty => exact h.elim

end Expr

/-- **No text comes to an internal failure.** Whatever a text holds and whatever the room is, it is
refused for an error that is not internal, or read as an expression of numbers without a sign,
negations and operations; and whatever the tolerance and the depth are, an expression that is read
is refused a value only for an error that is not internal either. So the computation of a text never
passes the end of the input, never misses an operator and never meets a form that it does not know,
and no message that it ends in says so. -/
theorem compute_external (text : String) :
    (∀ room err, Expr.ofTextWithin room text = .error err → (Failure.parsing err).External) ∧
    (∀ room e, Expr.ofTextWithin room text = .ok e → e.Readable ∧
      ∀ tolerance depth err, e.valueWithin tolerance depth = .error err →
        (Failure.evaluation err).External) ∧
    ∀ tolerance failure, (compute tolerance text).result.1 = .error failure → failure.External := by
  have hread : ∀ room err, Expr.ofTextWithin room text = .error err →
      (Failure.parsing err).External := fun _ _ => Expr.external_of_ofTextWithin
  have hvalue : ∀ room e, Expr.ofTextWithin room text = .ok e →
      ∀ tolerance depth err, e.valueWithin tolerance depth = .error err →
        (Failure.evaluation err).External := by
    intro room e he tolerance depth err herr
    obtain ⟨hempty, hpair⟩ :=
      (Expr.readable_of_ofTextWithin he).knowsForm tolerance depth err herr
    exact Failure.external_evaluation hempty hpair
  refine ⟨hread, fun room e he => ⟨Expr.readable_of_ofTextWithin he, hvalue room e he⟩,
    fun tolerance failure hfailure => ?_⟩
  rw [Run.result, compute_apply] at hfailure
  cases he : Expr.ofText text with
  | error err =>
    rw [he] at hfailure
    obtain rfl := Except.error.inj hfailure
    exact hread _ err he
  | ok e =>
    cases hv : e.value tolerance with
    | ok value => simp only [he, hv] at hfailure; cases hfailure
    | error err =>
      simp only [he, hv, Except.error.injEq] at hfailure
      subst hfailure
      exact hvalue _ e he tolerance _ err hv

/-- The number behind the group has used the fault up, so a step more would pass the end. -/
example :
    Expr.ofText "(1)3@" = .error (.trailing (.number (.ofInt 3))) ∧
      Parse.advance ⟨.number (.ofInt 3), [], none, 3⟩ =
        .error .unexpectedEnd ⟨.number (.ofInt 3), [], none, 3⟩ :=
  ⟨by decide +kernel, rfl⟩

end Abacus
