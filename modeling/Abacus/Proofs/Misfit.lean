/-
Where a text that is no expression is refused.

Reading stops at the first token that does not fit. What a failing run has moved
past can be completed, one part after the other (`Runs.breaksOff`), and the same
run would fail on every text that goes on with the same token, because it has
seen no other. So the tokens before the failure begin some expression, and with
the token that is reported none (`Parse.whole_error_earliest`).
-/
import Abacus.Proofs.Completion
import Abacus.Proofs.Lookahead

namespace Abacus

open Parse (advance extendsAbove Result)

/-! ## Where a run may stand -/

/-- The tokens from here on go up to the end of the input, and two numbers never stand side by
side. -/
structure Cursor.Intact (c : Cursor) : Prop where
  ends : (c.current :: c.unread).getLast? = some .endOfInput
  separated : Separated (c.current :: c.unread)

theorem Moves.intact {c d : Cursor} {used : List Token} (hm : Moves c used d) (h : c.Intact) :
    d.Intact where
  ends := by simpa [hm.tokens, List.getLast?_append] using h.ends
  separated := (separated_append.1 (hm.tokens ▸ h.separated)).2.1

namespace Cursor.Intact

variable {c d : Cursor}

/-- Only the end of the input has no token behind it. -/
theorem end_of_stuck {err : ParseError} (h : c.Intact) (ha : advance c = .error err d) :
    c.current = .endOfInput := by
  have hends := h.ends
  unfold Parse.advance at ha
  split at ha <;> cases ha
  next hu _ => simpa [hu] using hends
  next hu _ => simpa [hu] using hends

/-- Behind a number that multiplies nothing no operand begins. -/
theorem divides_of_number {value : Binary64} (h : c.Intact) (hc : c.current = .number value)
    (ha : advance c = .ok () d) (hl : d.current ≠ .leftParen) : d.Divides := by
  have htokens := (Moves.advance ha).tokens
  have happ := (separated_cons.1 h.separated).1
  simp only [List.singleton_append, List.cons.injEq, true_and] at htokens
  rw [htokens, hc] at happ
  intro ho
  cases hd : d.current with
  | number value' => simp [Token.Apart, hd, Token.isNumber, Token.kind, Token.label] at happ
  | operator op => exact hd ▸ d.divides_of_operator hd ho
  | leftParen => exact absurd hd hl
  | rightParen | endOfInput => rw [hd] at ho; cases ho

end Cursor.Intact

/-- Where the tasks within an expression begin. -/
def Task.Placed (c : Cursor) : Task → Prop
  | expression floor => 0 ≤ floor
  | extension floor _ => 0 ≤ floor ∧ c.Divides
  | operation _ => ∃ op, c.current = .operator op
  | closing _ => c.current = .rightParen ∨ c.current = .endOfInput
  | primary | following _ => True

theorem Parse.operator_of_extendsAbove {floor : Int} {token : Token} (hfloor : 0 ≤ floor)
    (h : extendsAbove floor token = true) : ∃ op, token = .operator op := by
  cases token with
  | operator op => exact ⟨op, rfl⟩
  | number | leftParen | rightParen | endOfInput =>
    simp only [extendsAbove, Bool.and_eq_true, decide_eq_true_iff] at h
    exact absurd hfloor (Int.not_le.2 h.1)

/-- Behind an expression that no operator extends stands a closing parenthesis or the end. -/
theorem Cursor.Divides.closing {c : Cursor} (h : c.Divides)
    (hx : extendsAbove Precedence.none.level c.current = false) :
    c.current = .rightParen ∨ c.current = .endOfInput := by
  cases hc : c.current with
  | number | leftParen => have := h (by rw [hc]; rfl); rw [hc] at this; cases this
  | operator op =>
    rw [hc, Bool.eq_false_iff, ne_eq, Parse.extendsAbove_operator] at hx
    exact absurd (Int.ofNat_lt.2 op.level_pos) hx
  | rightParen => exact .inl rfl
  | endOfInput => exact .inr rfl

namespace Runs

open Parse

theorem stops {room : Nat} {floor : Int} {c d : Cursor} {e : Expr}
    (h : Runs room (.expression floor) c (.ok e d)) : extendsAbove floor d.current = false := by
  obtain ⟨used, -, -, hx⟩ := h.sound rfl
  exact hx

/-- An operand is refused where it begins, or its first token is passed. -/
theorem not_opens_of_unmoved {room : Nat} {c : Cursor} {r : Result} (h : Runs room .primary c r)
    (hs : r.Settled) (hi : c.Intact) (hd : r.cursor.consumed = c.consumed) :
    c.current.opens = false := by
  have hpassed : ∀ {c' : Cursor} {used : List Token}, advance c = .ok () c' →
      ¬ Moves c' used r.cursor := by
    intro c' used ha hm
    have := ((Moves.advance ha).trans hm).nil_of_consumed hd
    simp at this
  cases h with
  | tooDeep => exact absurd rfl (hs c)
  | refused ho => exact ho
  | stuck _ ha => rw [hi.end_of_stuck ha]; rfl
  | number _ ha => exact (hpassed ha (.refl _)).elim
  | negative _ ha h | numberTimes _ ha _ h =>
    obtain ⟨used, hm, -⟩ := h.moves
    exact (hpassed ha (by simpa using hm)).elim
  | groupFails _ ha h =>
    obtain ⟨used, hm, -⟩ := h.moves
    exact (hpassed ha hm).elim
  | group _ ha h h' =>
    obtain ⟨used, hm, -⟩ := h.moves
    obtain ⟨more, hm', -⟩ := h'.moves
    exact (hpassed ha (hm.trans hm')).elim

/-- Where a finished part ends no operand begins. -/
theorem divides {room : Nat} {task : Task} {c d : Cursor} {e : Expr} {r : Result}
    (h : Runs room task c r) (hr : r = .ok e d) (hi : c.Intact) (hp : task.Placed c) :
    d.Divides := by
  induction h generalizing d e with
  | tooDeep | refused | stuck | groupFails | unclosed | closedLast | broken | noOperand
  | stepFails | noOperator | operatorLast => cases hr
  | negative _ ha _ ih | operator _ ha _ ih =>
    obtain ⟨a, rfl, rfl⟩ := Result.build_eq_ok.1 hr
    exact ih rfl ((Moves.advance ha).intact hi) (Int.natCast_nonneg _)
  | number hc ha hl =>
    cases hr
    exact hi.divides_of_number hc ha hl
  | numberTimes _ ha _ _ ih =>
    obtain ⟨a, rfl, rfl⟩ := Result.build_eq_ok.1 hr
    exact ih rfl ((Moves.advance ha).intact hi) trivial
  | group _ ha h _ ih ih' =>
    obtain ⟨used, hm, -⟩ := h.moves
    have hi' := (Moves.advance ha).intact hi
    exact ih' hr (hm.intact hi') ((ih rfl hi' (Int.le_refl 0)).closing h.stops)
  | closed _ ha _ ih => exact ih hr ((Moves.advance ha).intact hi) trivial
  | minus hc =>
    cases hr
    exact fun _ => hc
  | times _ _ ih =>
    cases hr
    exact ih rfl hi trivial
  | alone _ h hne hd =>
    cases hr
    obtain ⟨used, hm, -⟩ := h.moves
    obtain rfl := hm.nil_of_consumed hd
    have hcur := hm.tokens
    have hno := h.not_opens_of_unmoved (Result.settled_error.2 hne) hi hd
    simp only [Result.cursor_error, List.nil_append, List.cons.injEq] at hcur
    intro ho
    rw [← hcur.1, hno] at ho
    cases ho
  | operand h _ ih ih' =>
    obtain ⟨used, hm, -⟩ := h.moves
    exact ih' hr (hm.intact hi) ⟨hp, ih rfl hi trivial⟩
  | stop =>
    cases hr
    exact hp.2
  | step hx h _ ih ih' =>
    obtain ⟨used, hm, -⟩ := h.moves
    have hop := operator_of_extendsAbove hp.1 hx
    exact ih' hr (hm.intact hi) ⟨hp.1, ih rfl hi hop⟩

end Runs

/-! ## Breaking off -/

/-- What is reported of a token that does not fit: no operand begins with it, a group that is open
ends with the input, or a group is closed that is not open. -/
inductive Misfit : ParseError → Token → Prop
  | operand {token : Token} : token.opens = false → Misfit (.unexpected token) token
  | unclosed : Misfit (.expected .rightParen .endOfInput) .endOfInput
  | unopened : Misfit (.trailing .rightParen) .rightParen

theorem Misfit.message {err : ParseError} {token : Token} (h : Misfit err token) :
    (err.message = "Unable to parse, unexpected " ++ token.text ∧
      ((∃ op, token = .operator op ∧ op ≠ .subtract) ∨ token = .rightParen ∨
        token = .endOfInput)) ∨
    (err.message = "Expected RIGHT_PAREN, got EOF" ∧ token = .endOfInput) ∨
    (err.message = "Unexpected RIGHT_PAREN after the end of the expression" ∧
      token = .rightParen) := by
  cases h with
  | operand ho =>
    refine .inl ⟨rfl, ?_⟩
    cases token with
    | number | leftParen => cases ho
    | operator op => exact .inl ⟨op, rfl, by rintro rfl; cases ho⟩
    | rightParen => exact .inr (.inl rfl)
    | endOfInput => exact .inr (.inr rfl)
  | unclosed => exact .inr (.inl ⟨by decide, rfl⟩)
  | unopened => exact .inr (.inr ⟨by decide, rfl⟩)

namespace Runs

open Parse

/-- A run that fails stops at a token that does not fit, and what it has moved past can be
completed. -/
theorem breaksOff {room : Nat} {task : Task} {c d : Cursor} {err : ParseError} {r : Result}
    (h : Runs room task c r) (hr : r = .error err d) (hne : err ≠ .tooDeep) (hi : c.Intact)
    (hp : task.Placed c) (hroom : 0 < room) :
    ∃ used, Moves c used d ∧ Misfit err d.current ∧ task.Completes room c used := by
  -- Each part of the run begins in its place, because the part before it has ended in its own.
  induction h generalizing d err with
  | number | minus | times | alone | stop => cases hr
  | tooDeep => cases hr; exact absurd rfl hne
  | refused ho =>
    cases hr
    exact ⟨[], .refl _, .operand ho, .operand ho⟩
  | stuck ho ha => rw [hi.end_of_stuck ha] at ho; cases ho
  | closedLast hc ha => rw [hi.end_of_stuck ha] at hc; cases hc
  | operatorLast hc ha => rw [hi.end_of_stuck ha] at hc; cases hc
  | noOperator hno => obtain ⟨op, hop⟩ := hp; exact absurd hop (hno op)
  | negative hc ha h ih =>
    obtain rfl := Result.build_eq_error.1 hr
    have hpos := h.room_pos (Result.settled_error.2 hne) trivial
    obtain ⟨used, hm, hmis, hcomp⟩ :=
      ih rfl hne ((Moves.advance ha).intact hi) (Int.natCast_nonneg _) hpos
    exact ⟨_, (Moves.advance ha).trans hm, hmis, .negative hc hcomp⟩
  | numberTimes hc ha hl h ih =>
    obtain rfl := Result.build_eq_error.1 hr
    have hpos := h.room_pos (Result.settled_error.2 hne) trivial
    obtain ⟨used, hm, hmis, hcomp⟩ := ih rfl hne ((Moves.advance ha).intact hi) trivial hpos
    exact ⟨_, (Moves.advance ha).trans hm, hmis, .numberTimes hc hl hcomp⟩
  | groupFails hc ha h ih =>
    cases hr
    have hpos := h.room_pos (Result.settled_error.2 hne) trivial
    obtain ⟨used, hm, hmis, hcomp⟩ :=
      ih rfl hne ((Moves.advance ha).intact hi) (Int.le_refl 0) hpos
    exact ⟨_, (Moves.advance ha).trans hm, hmis, .group hpos hc hcomp⟩
  | group hc ha h _ _ ih' =>
    -- What the group holds is read again, with the completion of what closes it in its place.
    have hpos := h.room_pos Result.settled_ok trivial
    have hi' := (Moves.advance ha).intact hi
    obtain ⟨used, hm, ht⟩ := h.takes rfl hpos
    have hclosing := (h.divides rfl hi' (Int.le_refl 0)).closing h.stops
    obtain ⟨more, hm', hmis, hcomp⟩ := ih' hr hne (hm.intact hi') hclosing hpos
    have hcomp := Task.Completes.closing hc ht hcomp
    exact ⟨_, (Moves.advance ha).trans (hm.trans hm'), hmis, hcomp⟩
  | unclosed hc =>
    cases hr
    have hend := hp.resolve_left hc
    refine ⟨[], .refl _, ?_, .unclosed hroom⟩
    rw [hend]
    exact .unclosed
  | closed hc ha _ ih =>
    obtain ⟨used, hm, hmis, hcomp⟩ := ih hr hne ((Moves.advance ha).intact hi) trivial hroom
    exact ⟨_, (Moves.advance ha).trans hm, hmis, .closed hc hcomp⟩
  | broken hc _ hd ih =>
    cases hr
    obtain ⟨used, hm, hmis, hcomp⟩ := ih rfl hne hi trivial hroom
    have hused : used ≠ [] := by
      rintro rfl
      exact hd.resolve_left hne hm.consumed
    exact ⟨used, hm, hmis, .times hc (hm.head hused) hcomp⟩
  | noOperand h ih =>
    cases hr
    have hpos := h.room_pos (Result.settled_error.2 hne) trivial
    obtain ⟨used, hm, hmis, hcomp⟩ := ih rfl hne hi trivial hpos
    exact ⟨used, hm, hmis, .noOperand hcomp⟩
  | operand h _ _ ih' =>
    have hpos := h.room_pos Result.settled_ok trivial
    obtain ⟨used, hm, ht⟩ := h.takes rfl hpos
    obtain ⟨more, hm', hmis, hcomp⟩ :=
      ih' hr hne (hm.intact hi) ⟨hp, h.divides rfl hi trivial⟩ hpos
    exact ⟨_, hm.trans hm', hmis, .extension ht hcomp⟩
  | stepFails hx _ ih =>
    cases hr
    obtain ⟨used, hm, hmis, hcomp⟩ := ih rfl hne hi (operator_of_extendsAbove hp.1 hx) hroom
    exact ⟨used, hm, hmis, .lastStep hx hcomp⟩
  | step hx h _ _ ih' =>
    have hplaced := operator_of_extendsAbove hp.1 hx
    obtain ⟨used, hm, ht⟩ := h.takes rfl hroom
    obtain ⟨op, hop, hstop⟩ := h.operation_operator
    obtain ⟨more, hm', hmis, hcomp⟩ :=
      ih' hr hne (hm.intact hi) ⟨hp.1, h.divides rfl hi hplaced⟩ hroom
    exact ⟨_, hm.trans hm', hmis, .step hx hop hstop (h.head trivial hm) ht hcomp⟩
  | operator hc ha h ih =>
    obtain rfl := Result.build_eq_error.1 hr
    have hpos := h.room_pos (Result.settled_error.2 hne) trivial
    obtain ⟨used, hm, hmis, hcomp⟩ :=
      ih rfl hne ((Moves.advance ha).intact hi) (Int.natCast_nonneg _) hpos
    exact ⟨_, (Moves.advance ha).trans hm, hmis, .operator hc hcomp⟩

end Runs

/-! ## Texts -/

theorem Derives.separated {level : Nat} {tokens : List Token} {e : Expr}
    (h : Derives level tokens e) : Separated tokens := by
  induction h with
  | tighter _ _ ih => exact ih
  | binary _ _ ih ih' =>
    exact separated_append.2 ⟨ih, separated_cons.2 ⟨Token.apart_of_not_number rfl, ih'⟩,
      Token.apart_of_head?_not_number rfl⟩
  | negative _ ih => exact separated_cons.2 ⟨Token.apart_of_not_number rfl, ih⟩
  | product _ _ hapart ih ih' => exact separated_append.2 ⟨ih, ih', hapart⟩
  | number => exact separated_singleton
  | group _ ih =>
    exact separated_cons.2 ⟨Token.apart_of_not_number rfl, separated_append.2
      ⟨ih, separated_singleton, Token.apart_of_head?_not_number rfl⟩⟩

namespace Task.Takes

variable {room : Nat} {tokens : List Token} {e : Expr}

theorem runs_to_end (h : (expression Precedence.none.level).Takes room tokens e) {c : Cursor}
    (hc : c.current :: c.unread = tokens ++ [.endOfInput]) :
    ∃ d, Moves c tokens d ∧ d.current = .endOfInput ∧
      Runs room (.expression Precedence.none.level) c (.ok e d) := by
  refine ⟨⟨.endOfInput, [], c.fault?, c.consumed + tokens.length⟩, ⟨hc, rfl, .inl rfl⟩, rfl,
    h (.of_tokens hc) ?_ ?_⟩
  · exact fun ho => by cases ho
  · exact Parse.not_extendsAbove fun op hop => by cases hop

theorem derives (h : (expression Precedence.none.level).Takes room tokens e) :
    Derives 1 tokens e := by
  obtain ⟨first, rest, hc⟩ := List.exists_cons_of_ne_nil (l := tokens ++ [.endOfInput]) (by simp)
  obtain ⟨d, hm, -, hr⟩ := h.runs_to_end (c := ⟨first, rest, none, 0⟩) hc.symm
  obtain ⟨used, hm', hd, -⟩ := hr.sound rfl
  exact hm'.unique hm ▸ hd

/-- Tokens that are read up to the end of the input are what their text is read of. -/
theorem ofTextWithin {text : String}
    (h : (expression Precedence.none.level).Takes room tokens e) (hr : Renders text.toList tokens) :
    (Script.ofText text).tokens = tokens ∧ Expr.ofTextWithin room text = .ok e := by
  have hscript := Script.ofText_eq_iff.2 ⟨hr, h.derives.separated⟩
  refine ⟨by rw [hscript], ?_⟩
  cases hc : Cursor.ofText text with
  | error err =>
    obtain ⟨fault, -, hf, -⟩ := Cursor.ofText_eq_error hc
    rw [hscript] at hf
    cases hf
  | ok c =>
    have htokens := (Cursor.ofText_eq_ok.1 hc).1
    rw [hscript] at htokens
    obtain ⟨d, -, hd, hrun⟩ := h.runs_to_end htokens
    rw [Expr.ofTextWithin_eq hc hrun]
    exact if_pos hd

end Task.Takes

namespace Parse

/-- Reading the whole fails where its expression fails, or where that ends before the end. -/
theorem whole_eq_error {room : Nat} {c d : Cursor} {err : ParseError}
    (h : whole room c = .error err d) :
    ∃ r, Runs room (.expression Precedence.none.level) c r ∧ r.cursor = d ∧
      (r = .error err d ∨
        (∃ e, r = .ok e d) ∧ d.current ≠ .endOfInput ∧ err = .trailing d.current) := by
  obtain ⟨r, hr⟩ := Runs.total room (.expression Precedence.none.level) c
  have he : expression room Precedence.none.level c = r := hr.eq_run 0
  cases r with
  | error err' d' =>
    rw [whole, bind_error he] at h
    cases h
    exact ⟨_, hr, rfl, .inl rfl⟩
  | ok e d' =>
    rw [whole, bind_ok he, bind_ok (current_apply d')] at h
    split at h
    · cases h
    · next hend =>
      cases h
      exact ⟨_, hr, rfl, .inr ⟨⟨e, rfl⟩, hend, rfl⟩⟩

/-- A text that is refused for other reasons than its depth is refused at a token that does not
fit, by a run that has ended there, and the tokens before it can be completed. -/
theorem whole_breaksOff {room : Nat} {c d : Cursor} {err : ParseError}
    (h : whole room c = .error err d) (hne : err ≠ .tooDeep) (hi : c.Intact) :
    (∃ r, Runs room (.expression Precedence.none.level) c r ∧ r.cursor = d ∧ r.Settled) ∧
    ∃ used, Moves c used d ∧ Misfit err d.current ∧
      (Task.expression Precedence.none.level).Completes room c used := by
  obtain ⟨r, hr, hd, rfl | ⟨⟨e, rfl⟩, hend, rfl⟩⟩ := whole_eq_error h
  · have hs := Result.settled_error (c := d) |>.2 hne
    exact ⟨⟨_, hr, hd, hs⟩, hr.breaksOff rfl hne hi (Int.le_refl 0) (hr.room_pos hs trivial)⟩
  · have hpos := hr.room_pos Result.settled_ok trivial
    obtain ⟨used, hm, ht⟩ := hr.takes rfl hpos
    have hclose : d.current = .rightParen :=
      ((hr.divides rfl hi (Int.le_refl 0)).closing hr.stops).resolve_right hend
    refine ⟨⟨_, hr, hd, Result.settled_ok⟩, used, hm, ?_, ?_⟩
    · rw [hclose]
      exact .unopened
    · exact ⟨[], [], e, .nil, trivial, by rwa [List.append_nil]⟩

end Parse

theorem Cursor.intact_of_ofText {text : String} {c : Cursor}
    (hf : (Script.ofText text).fault? = none) (hc : Cursor.ofText text = .ok c) : c.Intact := by
  have htokens := (Cursor.ofText_eq_ok.1 hc).1
  have hscript : Script.ofText text = ⟨(Script.ofText text).tokens, none⟩ := by rw [← hf]
  obtain ⟨-, hs⟩ := Script.ofText_eq_iff.1 hscript
  simp only [Script.stream, hf, Option.isNone_none, if_true] at htokens
  refine ⟨by rw [htokens]; simp, ?_⟩
  rw [htokens]
  exact separated_append.2 ⟨hs, separated_singleton, Token.apart_of_head?_not_number rfl⟩

namespace Expr

/-- What can be completed begins the tokens of a text that is read with the same room. -/
theorem begins_of_completes {room : Nat} {text : String} {c d : Cursor} {used : List Token}
    (hf : (Script.ofText text).fault? = none) (hc : Cursor.ofText text = .ok c)
    (hm : Moves c used d)
    (h : (Task.expression Precedence.none.level).Completes room c used) :
    ∃ text' e, ofTextWithin room text' = .ok e ∧ used <+: (Script.ofText text').tokens := by
  have hscript : Script.ofText text = ⟨(Script.ofText text).tokens, none⟩ := by rw [← hf]
  have hstream : used ++ d.current :: d.unread =
      (Script.ofText text).tokens ++ [Token.endOfInput] := by
    rw [← hm.tokens, (Cursor.ofText_eq_ok.1 hc).1, Script.stream, hf]
    rfl
  have hlen : used.length ≤ (Script.ofText text).tokens.length := by
    have := congrArg List.length hstream
    simp at this
    omega
  obtain ⟨back, hback⟩ := List.prefix_of_prefix_length_le ⟨_, hstream⟩ ⟨_, rfl⟩ hlen
  obtain ⟨more, cs, e, hr, -, ht⟩ := h
  obtain ⟨before, -, -, hbefore, -⟩ :=
    Renders.append_inv (hback ▸ (Script.ofText_eq_iff.1 hscript).1)
  have hr : Renders (String.ofList (before ++ cs)).toList (used ++ more) := by
    simpa using hbefore.append hr
  obtain ⟨htokens, hread⟩ := ht.ofTextWithin hr
  exact ⟨_, e, hread, more, htokens.symm⟩

/-- No text that is read as an expression goes on with the token at which this one is refused. -/
theorem not_begins_of_refused {room room' : Nat} {text text' : String} {c d : Cursor}
    {err : ParseError} {e : Expr} {used : List Token} (hf : (Script.ofText text).fault? = none)
    (hc : Cursor.ofText text = .ok c) (h : Parse.whole room c = .error err d)
    (hne : err ≠ .tooDeep) (hm : Moves c used d) (h' : ofTextWithin room' text' = .ok e) :
    ¬ used ++ [d.current] <+: (Script.ofText text').stream := by
  rintro ⟨tail, htail⟩
  have hi := Cursor.intact_of_ofText hf hc
  obtain ⟨htokens, -, hzero⟩ := Cursor.ofText_eq_ok.1 hc
  by_cases hend : d.current = .endOfInput
  · -- Both texts have the same tokens, and one of them is read.
    have hused := (Script.tokens_of_stream (htokens.symm.trans (hend ▸ hm.tokens))).2
    rw [hend, List.append_assoc] at htail
    have hused' := (Script.tokens_of_stream htail.symm).2
    have hd := (derives_of_ofTextWithin h').2
    rw [hused', ← hused] at hd
    have hrefused : ofTextWithin room text = .error err := by
      simp [ofTextWithin, hc, h, bind, Except.bind, throw, throwThe, MonadExceptOf.throw]
    have hread : ofTextWithin room text = .ok e :=
      ofTextWithin_of_derives_of_ne hf hd (by simp [hrefused, hne])
    rw [hrefused] at hread
    cases hread
  · obtain ⟨⟨r, hr, rfl, hs⟩, -⟩ := Parse.whole_breaksOff h hne hi
    have hshared : c.current :: c.unread = (used ++ [r.cursor.current]) ++ r.cursor.unread := by
      rw [hm.tokens, List.append_assoc]; rfl
    refine hend (end_of_twin hr hs hzero hshared (by simp) h' htail.symm
      ⟨Nat.le_refl _, fun hu => ?_⟩)
    have hends := (hm.intact hi).ends
    simp only [hu, List.getLast?_singleton, Option.some.injEq] at hends
    exact absurd hends hend

end Expr

namespace Parse

/-- **A text is refused at the first token that does not fit.** Let a text without a fault be
refused, and not for its depth. The tokens before the current one begin some text that is read with
the same room, and together with the current one they begin none that is read with any room. The
message says that no operand begins with the token, which is an operator other than minus, a closing
parenthesis or the end of the input; or that a group is still open at the end; or that a group is
closed that was never opened. -/
theorem whole_error_earliest {room : Nat} {text : String} {c d : Cursor} {err : ParseError}
    (hf : (Script.ofText text).fault? = none) (hc : Cursor.ofText text = .ok c)
    (h : whole room c = .error err d) (hne : err ≠ .tooDeep) :
    let stream := (Script.ofText text).stream
    stream[d.consumed]? = some d.current ∧
    (∃ text' e, Expr.ofTextWithin room text' = .ok e ∧
      stream.take d.consumed <+: (Script.ofText text').tokens) ∧
    (∀ room' text' e, Expr.ofTextWithin room' text' = .ok e →
      ¬ stream.take (d.consumed + 1) <+: (Script.ofText text').stream) ∧
    ((err.message = "Unable to parse, unexpected " ++ d.current.text ∧
        ((∃ op, d.current = .operator op ∧ op ≠ .subtract) ∨ d.current = .rightParen ∨
          d.current = .endOfInput)) ∨
      (err.message = "Expected RIGHT_PAREN, got EOF" ∧ d.current = .endOfInput) ∨
      (err.message = "Unexpected RIGHT_PAREN after the end of the expression" ∧
        d.current = .rightParen)) := by
  intro stream
  obtain ⟨htokens, -, hzero⟩ := Cursor.ofText_eq_ok.1 hc
  obtain ⟨-, used, hm, hmis, hcomp⟩ := whole_breaksOff h hne (Cursor.intact_of_ofText hf hc)
  have hlen : d.consumed = used.length := by rw [hm.consumed, hzero, Nat.zero_add]
  have hstream : stream = used ++ d.current :: d.unread := htokens.symm.trans hm.tokens
  have htake : stream.take d.consumed = used := by rw [hstream, hlen, List.take_left]
  have hcur : stream[d.consumed]? = some d.current := by simp [hstream, hlen]
  have htake' : stream.take (d.consumed + 1) = used ++ [d.current] := by
    rw [List.take_add_one, htake, hcur]
    rfl
  refine ⟨hcur, ?_, fun room' text' e h' => ?_, hmis.message⟩
  · rw [htake]
    exact Expr.begins_of_completes hf hc hm hcomp
  · rw [htake']
    exact Expr.not_begins_of_refused hf hc h hne hm h'

theorem whole_error_earliest_operand :
    let c : Cursor := ⟨.leftParen,
      [.number .one, .operator .add, .rightParen, .endOfInput], none, 0⟩
    Cursor.ofText "(1+)" = .ok c ∧
      whole 9 c = .error (.unexpected .rightParen) ⟨.rightParen, [.endOfInput], none, 3⟩ ∧
      ∀ room text e, Expr.ofTextWithin room text = .ok e →
        ¬ (Script.ofText "(1+)").stream.take 4 <+: (Script.ofText text).stream := by
  intro c
  have hf : (Script.ofText "(1+)").fault? = none := by decide
  have hc : Cursor.ofText "(1+)" = .ok c := by decide +kernel
  have h : whole 9 c = .error (.unexpected .rightParen) ⟨.rightParen, [.endOfInput], none, 3⟩ :=
    rfl
  exact ⟨hc, h, (whole_error_earliest hf hc h (by simp)).2.2.1⟩

end Parse
end Abacus
