/-
Where the fault of a text is reported.

A run reports the fault when it asks for the token behind the last one. Only in
one place is the report lost: where a group is closed and the last token begins
an operand that would multiply it, the attempt at that operand moves past
nothing, so it is taken back as if no operand began there. `Runs.reported`
follows the fault through a run, and `Expr.fault_reported_iff` says for which
texts it is the answer.
-/
import Abacus.Proofs.Derivation
import Abacus.Proofs.Lookahead

namespace Abacus

open Parse (advance extendsAbove Result)

/-! ## Reports -/

/-- Behind these tokens the token begins an operand that multiplies a group. -/
def Multiplies (before : List Token) (token : Token) : Prop :=
  before.getLast? = some .rightParen ∧ token.opens = true ∧ token ≠ .operator .subtract

/-- How a run ends that came upon the fault, with the tokens before the current one. Either it
raises the fault, or the fault is lost and the token behind the group is left over. -/
inductive Reported (fault : LexicalFault) (before : List Token) : Result → Prop
  | raised {d : Cursor} : ¬ Multiplies before d.current →
      Reported fault before (.error (.lexical fault) d)
  | leftOver {e : Expr} {d : Cursor} : Multiplies before d.current → Reported fault before (.ok e d)
  | misplaced {d : Cursor} : Multiplies before d.current →
      Reported fault before (.error (.expected .rightParen d.current) d)

/-- What may stand before a task. -/
def Task.Fits (before : List Token) : Task → Prop
  | primary | expression _ => before.getLast? ≠ some .rightParen
  | following _ => before.getLast? = some .rightParen
  | extension .. | operation _ | closing _ => True

/-- The floors of all tasks within an expression are levels. -/
def Task.Proper : Task → Prop
  | expression floor | extension floor _ => 0 ≤ floor
  | primary | operation _ | closing _ | following _ => True

/-- If the run comes upon the fault it reports it, behind whatever its task may be begun. -/
def Reports (fault : LexicalFault) (task : Task) (c : Cursor) (r : Result) : Prop :=
  ∃ used, Moves c used r.cursor ∧ (r.cursor.fault? = none →
    ∀ before, task.Fits before ∨ used ≠ [] → Reported fault (before ++ used) r)

theorem Token.eq_subtract_of_opens {op : Operator} (h : (Token.operator op).opens = true) :
    op = .subtract := by
  cases op <;> first | rfl | cases h

theorem Multiplies.not_operator {before : List Token} {token : Token} (h : Multiplies before token)
    (op : Operator) : token ≠ .operator op := by
  intro htoken
  subst htoken
  exact h.2.2 (by rw [Token.eq_subtract_of_opens h.2.1])

theorem Multiplies.ne_rightParen {before : List Token} {token : Token}
    (h : Multiplies before token) : token ≠ .rightParen := by
  intro htoken
  subst htoken
  cases h.2.1

theorem Multiplies.ne_end {before : List Token} {token : Token} (h : Multiplies before token) :
    token ≠ .endOfInput := by
  intro htoken
  subst htoken
  cases h.2.1

theorem Multiplies.not_extendsAbove {before : List Token} {token : Token} {floor : Int}
    (h : Multiplies before token) (hfloor : 0 ≤ floor) : extendsAbove floor token = false := by
  obtain ⟨level, rfl⟩ := Int.eq_ofNat_of_zero_le hfloor
  exact Parse.not_extendsAbove fun op hop => absurd hop (h.not_operator op)

theorem Parse.advance_eq_error {c d : Cursor} {err : ParseError} {fault : LexicalFault}
    (h : advance c = .error err d) (hc : c.fault? = some fault) :
    err = .lexical fault ∧ d.current = c.current := by
  unfold advance at h
  split at h <;> cases h
  next hf => exact ⟨by rw [Option.some.inj (hf.symm.trans hc)], rfl⟩
  next hf => simp [hf] at hc

theorem Parse.advance_fault {c d : Cursor} (h : advance c = .ok () d) : d.fault? = c.fault? := by
  unfold advance at h
  split at h <;> cases h
  rfl

namespace Reported

variable {fault : LexicalFault} {before : List Token}

theorem build {r : Result} (f : Expr → Expr) (h : Reported fault before r) :
    Reported fault before (r.build f) := by
  cases h with
  | raised hm => exact .raised hm
  | leftOver hm => exact .leftOver hm
  | misplaced hm => exact .misplaced hm

/-- An operand before the token that is left over is not extended. -/
theorem extension_stops {room : Nat} {floor : Int} {e : Expr} {d : Cursor} {r : Result}
    (h : Reported fault before (.ok e d)) (hfloor : 0 ≤ floor)
    (hr : Runs room (.extension floor e) d r) : r.cursor = d ∧ Reported fault before r := by
  cases h with
  | leftOver hm =>
    obtain rfl := hr.det (.stop (hm.not_extendsAbove hfloor))
    exact ⟨rfl, .leftOver hm⟩

/-- A group is not closed by the token that is left over. -/
theorem not_closed {room : Nat} {e : Expr} {d : Cursor} {r : Result}
    (h : Reported fault before (.ok e d)) (hr : Runs room (.closing e) d r) :
    r.cursor = d ∧ Reported fault before r := by
  cases h with
  | leftOver hm =>
    obtain rfl := hr.det (.unclosed hm.ne_rightParen)
    exact ⟨rfl, .misplaced hm⟩

theorem settled {r : Result} (h : Reported fault before r) : r.Settled := by
  cases h with
  | leftOver => exact Result.settled_ok
  | raised | misplaced => exact Result.settled_error.2 (by simp)

end Reported

namespace Reports

variable {fault : LexicalFault} {task whole : Task} {c d : Cursor} {r : Result}

/-- A run that holds the fault at its end has not come upon it. -/
theorem of_held {used : List Token} (hm : Moves c used r.cursor)
    (hr : r.cursor.fault? = some fault) : Reports fault task c r := by
  refine ⟨used, hm, fun hn => ?_⟩
  rw [hr] at hn
  cases hn

/-- The fault is raised behind a token that does not begin an operand after a group. -/
theorem of_stuck {err : ParseError} (ha : advance c = .error err d) (hc : c.fault? = some fault)
    (hm : ∀ before, task.Fits before → ¬ Multiplies before c.current) :
    Reports fault task c (.error err d) := by
  obtain ⟨rfl, hd⟩ := Parse.advance_eq_error ha hc
  refine ⟨[], .stuck ha, fun _ before hfit => ?_⟩
  rw [List.append_nil]
  exact .raised (by rw [hd]; exact hm before (hfit.resolve_right (absurd rfl)))

theorem build (f : Expr → Expr) (h : Reports fault task c r) : Reports fault task c (r.build f) := by
  obtain ⟨used, hm, hrep⟩ := h
  refine ⟨used, by simpa using hm, fun hn before hfit => ?_⟩
  rw [Result.cursor_build] at hn
  exact (hrep hn before hfit).build f

/-- What is reported once the cursor has moved depends on nothing before it. -/
theorem of_moved {used : List Token} (h : Reports fault task c r) (hm : Moves c used r.cursor)
    (hne : used ≠ []) : Reports fault whole c r := by
  obtain ⟨used', hm', hrep⟩ := h
  obtain rfl := hm'.unique hm
  exact ⟨used', hm', fun hn before _ => hrep hn before (.inr hne)⟩

/-- A task that begins behind the current token. -/
theorem of_advance (ha : advance c = .ok () d) (h : Reports fault task d r)
    (hfit : ∀ before, task.Fits (before ++ [c.current])) : Reports fault whole c r := by
  obtain ⟨used, hm, hrep⟩ := h
  refine ⟨_, (Moves.advance ha).trans hm, fun hn before _ => ?_⟩
  rw [← List.append_assoc]
  exact hrep hn _ (.inl (hfit before))

/-- A task with a part that goes on where the first part ended. The second part may be begun
anywhere, and goes no further if the fault is lost in the first. -/
theorem append {next : Task} {e : Expr} (hc : c.fault? = some fault)
    (h : Reports fault task c (.ok e d)) (hnil : task.Fits [])
    (hfit : ∀ before, whole.Fits before → task.Fits before)
    (h' : d.fault? = some fault → Reports fault next d r) (hnext : ∀ before, next.Fits before)
    (hlost : ∀ before, Reported fault before (.ok e d) → r.cursor = d ∧ Reported fault before r) :
    Reports fault whole c r := by
  obtain ⟨used, hm, hrep⟩ := h
  rw [Result.cursor_ok] at hm hrep
  rcases hm.fault with hd | ⟨hd, -⟩
  · obtain ⟨more, hm', hrep'⟩ := h' (hd.trans hc)
    refine ⟨_, hm.trans hm', fun hn before _ => ?_⟩
    rw [← List.append_assoc]
    exact hrep' hn _ (.inl (hnext _))
  · -- The first part came upon the fault, so the second ends where it begins.
    have hr := (hlost _ (hrep hd [] (.inl hnil))).1
    refine ⟨used, by rw [hr]; exact hm, fun _ before hb => ?_⟩
    exact (hlost _ (hrep hd before (hb.imp_left (hfit before)))).2

/-- Behind a group an operand that moves past nothing is taken back, and the fault with it. -/
theorem of_lost {room : Nat} {e : Expr} {err : ParseError} (hc : c.fault? = some fault)
    (hne : c.current ≠ .operator .subtract) (h : Runs room .primary c (.error err d))
    (herr : err ≠ .tooDeep) (hd : d.consumed = c.consumed) :
    Reports fault (.following e) c (.ok e d) := by
  obtain ⟨used, hm, -⟩ := h.moves
  obtain rfl := hm.nil_of_consumed hd
  refine ⟨[], hm, fun hn before hfit => ?_⟩
  have hcur : d.current = c.current := by have := hm.tokens; simp at this; exact this.1.symm
  have ho : c.current.opens = true := by
    cases room with
    | zero => cases h.det (.tooDeep trivial); exact absurd rfl herr
    | succ room =>
      rw [← Bool.not_eq_false]
      intro ho
      cases h.det (.refused ho)
      rw [Result.cursor_ok, hc] at hn
      cases hn
  rw [List.append_nil]
  refine .leftOver ⟨hfit.resolve_right (absurd rfl), ?_, ?_⟩ <;> rwa [hcur]

end Reports

/-- Every run that comes upon the fault reports it. -/
theorem Runs.reported {fault : LexicalFault} {room : Nat} {task : Task} {c : Cursor} {r : Result}
    (h : Runs room task c r) (hp : task.Proper) (hc : c.fault? = some fault) :
    Reports fault task c r := by
  induction h with
  | tooDeep | refused | unclosed | minus | stop | noOperator => exact .of_held (.refl _) hc
  | stuck _ ha => exact .of_stuck ha hc fun before hfit hm => hfit hm.1
  | closedLast hcur ha => exact .of_stuck ha hc fun before _ hm => hm.ne_rightParen hcur
  | operatorLast hcur ha => exact .of_stuck ha hc fun before _ hm => hm.not_operator _ hcur
  | number _ ha => exact .of_held (.advance ha) ((Parse.advance_fault ha).trans hc)
  | negative hcur ha _ ih | numberTimes hcur ha _ _ ih | operator hcur ha _ ih =>
    have hd := (Parse.advance_fault ha).trans hc
    refine .build _ (.of_advance ha (ih (by simp [Task.Proper]) hd) fun before => ?_)
    simp [Task.Fits, hcur]
  | groupFails hcur ha _ ih =>
    have hd := (Parse.advance_fault ha).trans hc
    refine .of_advance ha (ih (Int.le_refl 0) hd) fun before => ?_
    simp [Task.Fits, hcur]
  | @group room c d d' e r hcur ha _ hr ih ih' =>
    have hd := (Parse.advance_fault ha).trans hc
    have hwhole : Reports fault (.expression Precedence.none.level) d r :=
      (ih (Int.le_refl 0) hd).append hd (by simp [Task.Fits]) (fun _ h => h) (ih' trivial)
        (fun _ => trivial) fun _ h => h.not_closed hr
    refine .of_advance ha hwhole fun before => ?_
    simp [Task.Fits, hcur]
  | closed hcur ha _ ih =>
    have hd := (Parse.advance_fault ha).trans hc
    refine .of_advance ha (ih trivial hd) fun before => ?_
    simp [Task.Fits, hcur]
  | times _ h ih =>
    obtain ⟨used, hm, hne⟩ := h.moves
    exact ((ih trivial hc).of_moved hm (hne trivial ⟨_, _, rfl⟩)).build (.binary .multiply _)
  | alone hcur h herr hd ih => exact .of_lost hc hcur h herr hd
  | @broken room c d e err _ h hd ih =>
    rcases hd with rfl | hd
    · -- A lack of room is no report, so the fault is still to come.
      obtain ⟨used, hm, hrep⟩ := ih trivial hc
      refine ⟨used, hm, fun hn before _ => ?_⟩
      exact absurd rfl ((hrep hn [] (.inl (by simp [Task.Fits]))).settled d)
    · obtain ⟨used, hm, -⟩ := h.moves
      refine (ih trivial hc).of_moved hm ?_
      intro hnil
      subst hnil
      exact hd hm.consumed
  | noOperand _ ih => exact ih trivial hc
  | operand _ hr ih ih' =>
    exact (ih trivial hc).append hc (by simp [Task.Fits]) (fun _ h => h) (ih' hp)
      (fun _ => trivial) fun _ h => h.extension_stops hp hr
  | stepFails _ _ ih => exact ih trivial hc
  | step _ _ hr ih ih' =>
    exact (ih trivial hc).append hc trivial (fun _ _ => trivial) (ih' hp)
      (fun _ => trivial) fun _ h => h.extension_stops hp hr

/-! ## Texts -/

/-- The last token begins an operand that multiplies the group closed before it. -/
def EndsWithFactor (tokens : List Token) : Prop :=
  ∃ before token, tokens = before ++ [token] ∧ Multiplies before token

theorem endsWithFactor_append {before : List Token} {token : Token} :
    EndsWithFactor (before ++ [token]) ↔ Multiplies before token := by
  constructor
  · rintro ⟨before', token', h, hm⟩
    obtain ⟨rfl, hlast⟩ := List.append_inj' h rfl
    obtain rfl : token = token' := by simpa using hlast
    exact hm
  · exact fun hm => ⟨before, token, rfl, hm⟩

namespace Expr

/-- If the tokens before its fault begin some expression, reading a text comes upon the fault: one
token of lookahead cannot tell the text from that of the expression before. -/
theorem fault_found {room room' : Nat} {text text' : String} {e : Expr} {fault : LexicalFault}
    {c : Cursor} {r : Result} (hf : (Script.ofText text).fault? = some fault)
    (hc : Cursor.ofText text = .ok c) (hr : Runs room (.expression Precedence.none.level) c r)
    (hs : r.Settled) (h' : ofTextWithin room' text' = .ok e)
    (hbegins : (Script.ofText text).tokens <+: (Script.ofText text').tokens) :
    r.cursor.fault? = none := by
  by_contra hheld
  obtain ⟨htokens, -, hzero⟩ := Cursor.ofText_eq_ok.1 hc
  have hstream : (Script.ofText text).stream = (Script.ofText text).tokens := by
    simp [Script.stream, hf]
  obtain ⟨used, hm, -⟩ := hr.moves
  have hmem : r.cursor.current ∈ (Script.ofText text).tokens := by
    rw [← hstream, ← htokens, hm.tokens]; simp
  obtain ⟨more, hmore⟩ := hbegins
  have hstream' : (Script.ofText text').stream =
      (Script.ofText text).tokens ++ (more ++ [Token.endOfInput]) := by
    simp [Script.stream, (derives_of_ofTextWithin h').1, ← hmore]
  have hc' : c.current :: c.unread = (Script.ofText text).tokens ++ [] := by
    rw [htokens, hstream, List.append_nil]
  have hend : r.cursor.current = .endOfInput :=
    end_of_twin hr hs hzero hc' (List.ne_nil_of_mem hmem) h' hstream'
      ⟨Nat.zero_le _, fun _ => hheld⟩
  rw [hend] at hmem
  exact Script.end_notMem_tokens text hmem

theorem reported_of_fault {room room' : Nat} {text text' : String} {e : Expr}
    {fault : LexicalFault} {c : Cursor} {r : Result} (hf : (Script.ofText text).fault? = some fault)
    (hc : Cursor.ofText text = .ok c) (hr : Runs room (.expression Precedence.none.level) c r)
    (hs : r.Settled) (h' : ofTextWithin room' text' = .ok e)
    (hbegins : (Script.ofText text).tokens <+: (Script.ofText text').tokens) :
    ∃ used, (Script.ofText text).tokens = used ++ [r.cursor.current] ∧ Reported fault used r := by
  have hn := fault_found hf hc hr hs h' hbegins
  obtain ⟨hstream, hcf, -⟩ := Cursor.ofText_eq_ok.1 hc
  obtain ⟨used, hm, hrep⟩ := hr.reported (Int.le_refl 0) (hcf.trans hf)
  have hu : r.cursor.unread = [] := by
    rcases hm.fault with h | ⟨-, h⟩
    · simp [hn, hcf, hf] at h
    · exact h
  refine ⟨used, ?_, hrep hn [] (.inl (by simp [Task.Fits]))⟩
  rw [hm.tokens, hu] at hstream
  simpa [Script.stream, hf] using hstream.symm

/-- **A fault is the answer exactly if the last token before it is no factor behind a group.** If
the tokens before its fault begin some expression and there is room for it, a text is answered by
its fault, unless the last of them begins an operand that multiplies the group closed before it.
Then that token is answered to be misplaced. -/
theorem fault_reported_iff (room : Nat) (text : String) (fault : LexicalFault)
    (hf : (Script.ofText text).fault? = some fault)
    (hbegins : ∃ room' text' e, ofTextWithin room' text' = .ok e ∧
      (Script.ofText text).tokens <+: (Script.ofText text').tokens)
    (hdeep : ofTextWithin room text ≠ .error .tooDeep) :
    (ofTextWithin room text = .error (.lexical fault) ↔
      ¬ EndsWithFactor (Script.ofText text).tokens) ∧
    (EndsWithFactor (Script.ofText text).tokens →
      ∃ token, (Script.ofText text).tokens.getLast? = some token ∧
        (ofTextWithin room text = .error (.trailing token) ∨
          ofTextWithin room text = .error (.expected .rightParen token))) := by
  obtain ⟨room', text', e, h', hbegins⟩ := hbegins
  cases hc : Cursor.ofText text with
  | error err =>
    obtain ⟨fault', ht, hf', rfl⟩ := Cursor.ofText_eq_error hc
    obtain rfl := Option.some.inj (hf.symm.trans hf')
    have hno : ¬ EndsWithFactor (Script.ofText text).tokens := by simp [EndsWithFactor, ht]
    exact ⟨iff_of_true (by simp [ofTextWithin, hc, bind, Except.bind]) hno, fun h => absurd h hno⟩
  | ok c =>
    obtain ⟨r, hr⟩ := Runs.total room (.expression Precedence.none.level) c
    obtain ⟨used, ht, hrep⟩ :=
      reported_of_fault hf hc hr (settled_of_ne hdeep hc hr) h' hbegins
    rw [ofTextWithin_eq hc hr, ht, endsWithFactor_append]
    cases hrep with
    | raised hno => exact ⟨iff_of_true rfl hno, fun h => absurd h hno⟩
    | @leftOver e d hmul =>
      have ha : Result.answer (.ok e d) = .error (.trailing d.current) := if_neg hmul.ne_end
      rw [ha]
      exact ⟨by simp [hmul], fun _ => ⟨d.current, by simp, .inl rfl⟩⟩
    | @misplaced d hmul =>
      exact ⟨by simp [hmul, Result.answer], fun _ => ⟨d.current, by simp, .inr rfl⟩⟩

theorem fault_reported_sum :
    ofTextWithin 9 "1+@" = .error (.lexical (.invalidCharacter '@' 2)) :=
  (fault_reported_iff 9 "1+@" (.invalidCharacter '@' 2) (by decide)
    ⟨9, "1+1", .binary .add (.number .one) (.number .one), by decide +kernel, by decide +kernel⟩
    (by decide)).1.2 (by
      have ht : (Script.ofText "1+@").tokens = [Token.number .one] ++ [Token.operator .add] := by
        decide +kernel
      rw [ht, endsWithFactor_append]
      exact fun h => h.not_operator .add rfl)

/-- Behind a group the number takes the fault with it, though it is fine itself. -/
theorem fault_lost_behind_group :
    (Script.ofText "(1)3@").fault? = some (.invalidCharacter '@' 4) ∧
      (Script.ofText "(1)3@").tokens <+: (Script.ofText "(1)3").tokens ∧
      ofText "(1)3" = .ok (.binary .multiply (.number (.ofInt 1)) (.number (.ofInt 3))) ∧
      ofText "(1)3@" = .error (.trailing (.number (.ofInt 3))) := by
  decide +kernel

end Expr

end Abacus
