/-
What a run reads, read again in another place.

A run looks one token ahead, so what it has read can be read elsewhere, and with
the same room, if what comes next there would not have been read along with it
(`Task.Takes`, `Runs.takes`). Tokens that break off are completed by others in
the same way, part by part (`Task.Completes`). Both have one rule for each way a
task goes on.
-/
import Abacus.Proofs.Derivation
import Abacus.Proofs.Rendering

namespace Abacus

open Parse (advance extendsAbove Result)

namespace Parse

theorem extendsAbove_of_le {floor floor' : Int} {token : Token}
    (h : extendsAbove floor token = false) (hle : floor ≤ floor') :
    extendsAbove floor' token = false := by
  rw [Bool.eq_false_iff] at h ⊢
  simp only [extendsAbove, ne_eq, Bool.and_eq_true, decide_eq_true_iff, not_and] at h ⊢
  exact fun hlt => h (Int.lt_of_le_of_lt hle hlt)

end Parse

theorem Advances.current_eq {c d : Cursor} {tokens : List Token} {token : Token}
    (h : Advances c tokens d) (ht : tokens.head? = some token) : c.current = token := by
  have hne : tokens ≠ [] := by rintro rfl; cases ht
  exact Option.some.inj ((h.head hne).symm.trans ht)

/-- What stands at `d` extends no operand of the task begun at `c`. -/
def Task.StopsBefore (c d : Cursor) : Task → Prop
  | expression floor | extension floor _ => extendsAbove floor d.current = false
  | operation _ => ∀ op, c.current = .operator op →
      extendsAbove op.precedence.level d.current = false
  | primary | closing _ | following _ => True

/-- With this room the task reads the tokens to their end, wherever they stand, if nothing that
comes next would be read along with them. -/
def Task.Takes (room : Nat) (tokens : List Token) (e : Expr) (task : Task) : Prop :=
  ∀ ⦃c d : Cursor⦄, Advances c tokens d → d.Divides → task.StopsBefore c d →
    Runs room task c (.ok e d)

namespace Task.Takes

variable {room : Nat} {floor : Int} {op : Operator} {tokens more : List Token}
  {e e' left longer : Expr}

theorem number {value : Binary64} :
    primary.Takes (room + 1) [.number value] (.number value) := by
  intro c d hadv hd _
  obtain ⟨d, hc, ha, hadv⟩ := hadv.cons_inv
  obtain rfl := hadv.nil_inv
  exact .number hc ha fun hl => by simp [Cursor.Divides, hl, Token.opens] at hd

theorem numberTimes {value : Binary64} (hl : tokens.head? = some .leftParen)
    (h : primary.Takes room tokens e) :
    primary.Takes (room + 1) (.number value :: tokens) (.binary .multiply (.number value) e) := by
  intro c d hadv hd _
  obtain ⟨c', hc, ha, hadv⟩ := hadv.cons_inv
  exact .numberTimes (r := .ok e d) hc ha (hadv.current_eq hl) (h hadv hd trivial)

theorem negative (h : (expression Precedence.negation.level).Takes room tokens e) :
    primary.Takes (room + 1) (.operator .subtract :: tokens) (.negative e) := by
  intro c d hadv hd _
  obtain ⟨c', hc, ha, hadv⟩ := hadv.cons_inv
  have hx : extendsAbove Precedence.negation.level d.current = false :=
    Parse.not_extendsAbove fun op _ => Nat.le_of_lt op.level_lt
  exact .negative (r := .ok e d) hc ha (h hadv hd hx)

theorem group (h : (expression Precedence.none.level).Takes room tokens e)
    (hr : more.head? = some .rightParen) (h' : (closing e).Takes room more e') :
    primary.Takes (room + 1) (.leftParen :: (tokens ++ more)) e' := by
  intro c d hadv hd _
  obtain ⟨c', hc, ha, hadv⟩ := hadv.cons_inv
  obtain ⟨m, hm, hadv⟩ := hadv.append_inv
  have hcur : m.current = .rightParen := hadv.current_eq hr
  refine .group hc ha (h hm ?_ ?_) (h' hadv hd trivial)
  · simp [Cursor.Divides, hcur, Token.opens]
  · exact Parse.not_extendsAbove fun op hop => by simp [hcur] at hop

theorem closed (h : (following e).Takes room tokens e') :
    (closing e).Takes room (.rightParen :: tokens) e' := by
  intro c d hadv hd _
  obtain ⟨c', hc, ha, hadv⟩ := hadv.cons_inv
  exact .closed hc ha (h hadv hd trivial)

/-- It takes room for one call to find that nothing multiplies a group. -/
theorem alone (hroom : 0 < room) : (following e).Takes room [] e := by
  intro c d hadv hd _
  obtain rfl := hadv.nil_inv
  obtain ⟨k, rfl⟩ := Nat.exists_eq_add_of_lt hroom
  exact Reads.following_alone hd

theorem times {first : Token} (hf : tokens.head? = some first) (hs : first ≠ .operator .subtract)
    (h : primary.Takes room tokens e') :
    (following e).Takes room tokens (.binary .multiply e e') := by
  intro c d hadv hd _
  rw [← hadv.current_eq hf] at hs
  exact .times hs (h hadv hd trivial)

theorem stop : (extension floor e).Takes room [] e := by
  intro c d hadv _ hs
  obtain rfl := hadv.nil_inv
  exact .stop hs

/-- What comes behind an operand, if it is not the end, is an operator. -/
theorem operand (h : primary.Takes room tokens e)
    (hop : more = [] ∨ ∃ op, more.head? = some (.operator op))
    (h' : (extension floor e).Takes room more e') :
    (expression floor).Takes (room + 1) (tokens ++ more) e' := by
  intro c d hadv hd hs
  obtain ⟨m, hm, hadv⟩ := hadv.append_inv
  refine .operand (h hm ?_ trivial) (h' hadv hd hs)
  rcases hop with rfl | ⟨op, hop⟩
  · rw [hadv.nil_inv]; exact hd
  · exact Cursor.divides_of_operator (hadv.current_eq hop)

/-- What comes behind a step, if it is not the end, is an operator that the step leaves. -/
theorem step (hop : tokens.head? = some (.operator op)) (hfloor : floor < op.precedence.level)
    (h : (operation left).Takes room tokens longer)
    (hnext : more = [] ∨ ∃ op', more.head? = some (.operator op') ∧
      op'.precedence.level ≤ op.precedence.level)
    (h' : (extension floor longer).Takes room more e) :
    (extension floor left).Takes room (tokens ++ more) e := by
  intro c d hadv hd hs
  obtain ⟨m, hm, hadv⟩ := hadv.append_inv
  have hc : c.current = .operator op := hm.current_eq hop
  have hmid : m.Divides ∧ extendsAbove op.precedence.level m.current = false := by
    rcases hnext with rfl | ⟨op', hop', hle⟩
    · rw [hadv.nil_inv]
      exact ⟨hd, Parse.extendsAbove_of_le hs (Int.le_of_lt hfloor)⟩
    · have hcur : m.current = .operator op' := hadv.current_eq hop'
      refine ⟨Cursor.divides_of_operator hcur, Parse.not_extendsAbove fun op'' hop'' => ?_⟩
      rw [hcur] at hop''
      cases hop''
      exact hle
  refine .step ?_ (h hm hmid.1 fun op'' hop'' => ?_) (h' hadv hd hs)
  · rw [hc, Parse.extendsAbove_operator]; exact hfloor
  · rw [hc] at hop''
    cases hop''
    exact hmid.2

theorem operator (h : (expression op.precedence.level).Takes room tokens e) :
    (operation left).Takes (room + 1) (.operator op :: tokens) (.binary op left e) := by
  intro c d hadv hd hs
  obtain ⟨c', hc, ha, hadv⟩ := hadv.cons_inv
  exact .operator (r := .ok e d) hc ha (h hadv hd (hs op hc))

end Task.Takes

namespace Runs

open Parse

theorem room_pos {room : Nat} {task : Task} {c : Cursor} {r : Result} (h : Runs room task c r)
    (hs : r.Settled) (hn : task.Nests) : 0 < room := by
  cases room with
  | zero => cases h.det (.tooDeep hn); exact absurd rfl (hs c)
  | succ room => exact Nat.succ_pos room

/-- A nested task that reads anything begins at the first of the tokens. -/
theorem head {room : Nat} {task : Task} {c d : Cursor} {e : Expr} {used : List Token}
    (h : Runs room task c (.ok e d)) (hn : task.Nests) (hm : Moves c used d) :
    used.head? = some c.current := by
  refine hm.head fun hnil => ?_
  have := h.unread_lt hn
  have := hm.unread_length
  simp [hnil] at this
  omega

theorem closing_head {room : Nat} {group e : Expr} {c d : Cursor} {used : List Token}
    (h : Runs room (.closing group) c (.ok e d)) (hm : Moves c used d) :
    used.head? = some .rightParen := by
  cases h with
  | closed hc ha h =>
    obtain ⟨more, hm', -⟩ := h.moves
    rw [← ((Moves.advance ha).trans hm').unique hm, hc]
    rfl

theorem operation_operator {room : Nat} {left e : Expr} {c d : Cursor}
    (h : Runs room (.operation left) c (.ok e d)) :
    ∃ op, c.current = .operator op ∧ extendsAbove op.precedence.level d.current = false := by
  obtain ⟨used, -, op, hop, hstop, -⟩ := h.sound rfl
  exact ⟨op, hop, not_extendsAbove hstop⟩

/-- An extension that reads anything begins at an operator. -/
theorem extension_head {room : Nat} {floor : Int} {left e : Expr} {c d : Cursor}
    {used : List Token} (h : Runs room (.extension floor left) c (.ok e d)) (hm : Moves c used d) :
    used = [] ∨ ∃ op, used.head? = some (.operator op) ∧ c.current = .operator op := by
  by_cases hne : used = []
  · exact .inl hne
  · cases h with
    | stop => exact absurd (hm.nil_of_consumed rfl) hne
    | step _ h _ =>
      obtain ⟨op, hop, -⟩ := h.operation_operator
      exact .inr ⟨op, by rw [hm.head hne, hop], hop⟩

/-- What a run has read it reads again with the same room, wherever it stands. -/
theorem takes {room : Nat} {task : Task} {c d : Cursor} {e : Expr} {r : Result}
    (h : Runs room task c r) (hr : r = .ok e d) (hroom : 0 < room) :
    ∃ used, Moves c used d ∧ task.Takes room used e := by
  induction h generalizing d e with
  | tooDeep | refused | stuck | groupFails | unclosed | closedLast | broken | noOperand
  | stepFails | noOperator | operatorLast => cases hr
  | negative hc ha h ih =>
    obtain ⟨a, rfl, rfl⟩ := Result.build_eq_ok.1 hr
    obtain ⟨used, hm, ht⟩ := ih rfl (h.room_pos Result.settled_ok trivial)
    exact ⟨_, (Moves.advance ha).trans hm, hc ▸ .negative ht⟩
  | number hc ha _ =>
    cases hr
    exact ⟨_, .advance ha, hc ▸ .number⟩
  | numberTimes hc ha hl h ih =>
    obtain ⟨a, rfl, rfl⟩ := Result.build_eq_ok.1 hr
    obtain ⟨used, hm, ht⟩ := ih rfl (h.room_pos Result.settled_ok trivial)
    have hhead := h.head trivial hm
    rw [hl] at hhead
    exact ⟨_, (Moves.advance ha).trans hm, hc ▸ .numberTimes hhead ht⟩
  | group hc ha h h' ih ih' =>
    subst hr
    have hpos := h.room_pos Result.settled_ok trivial
    obtain ⟨used, hm, ht⟩ := ih rfl hpos
    obtain ⟨more, hm', ht'⟩ := ih' rfl hpos
    have hp := Task.Takes.group ht (h'.closing_head hm') ht'
    exact ⟨_, (Moves.advance ha).trans (hm.trans hm'), hc ▸ hp⟩
  | closed hc ha _ ih =>
    obtain ⟨used, hm, ht⟩ := ih hr hroom
    exact ⟨_, (Moves.advance ha).trans hm, hc ▸ .closed ht⟩
  | minus hc =>
    cases hr
    exact ⟨[], .refl _, .alone hroom⟩
  | times hc h ih =>
    cases hr
    obtain ⟨used, hm, ht⟩ := ih rfl hroom
    exact ⟨used, hm, .times (h.head trivial hm) hc ht⟩
  | alone hc h _ hd ih =>
    cases hr
    obtain ⟨used, hm, -⟩ := h.moves
    obtain rfl := hm.nil_of_consumed hd
    exact ⟨[], hm, .alone hroom⟩
  | operand h h' ih ih' =>
    subst hr
    have hpos := h.room_pos Result.settled_ok trivial
    obtain ⟨used, hm, ht⟩ := ih rfl hpos
    obtain ⟨more, hm', ht'⟩ := ih' rfl hpos
    refine ⟨_, hm.trans hm', .operand ht ?_ ht'⟩
    exact (h'.extension_head hm').imp_right fun ⟨op, hop, _⟩ => ⟨op, hop⟩
  | stop hx =>
    cases hr
    exact ⟨[], .refl _, .stop⟩
  | step hx h h' ih ih' =>
    subst hr
    obtain ⟨used, hm, ht⟩ := ih rfl hroom
    obtain ⟨more, hm', ht'⟩ := ih' rfl hroom
    obtain ⟨op, hop, hstop⟩ := h.operation_operator
    rw [hop, extendsAbove_operator] at hx
    refine ⟨_, hm.trans hm', .step (hop ▸ h.head trivial hm) hx ht ?_ ht'⟩
    refine (h'.extension_head hm').imp_right fun ⟨op', hop', hcur⟩ => ⟨op', hop', ?_⟩
    rw [hcur, Bool.eq_false_iff, ne_eq, extendsAbove_operator] at hstop
    omega
  | operator hc ha h ih =>
    obtain ⟨a, rfl, rfl⟩ := Result.build_eq_ok.1 hr
    obtain ⟨used, hm, ht⟩ := ih rfl (h.room_pos Result.settled_ok trivial)
    exact ⟨_, (Moves.advance ha).trans hm, hc ▸ .operator ht⟩

end Runs

/-! ## Completions -/

/-- The token that a task begins with. -/
def Task.Starts (c : Cursor) (tokens : List Token) : Task → Prop
  | primary => c.current.opens = true → tokens.head? = some c.current
  | extension .. | operation _ => ∃ op, c.current = .operator op ∧ tokens.head? = some (.operator op)
  | closing _ => tokens.head? = some .rightParen
  | expression _ | following _ => True

/-- Further tokens complete what the task has moved past, and with the same room it reads them
all. -/
def Task.Completes (room : Nat) (c : Cursor) (used : List Token) (task : Task) : Prop :=
  ∃ more cs e, Renders cs more ∧ task.Starts c (used ++ more) ∧ task.Takes room (used ++ more) e

namespace Task.Completes

variable {room : Nat} {floor : Int} {op : Operator} {c d : Cursor} {used more : List Token}
  {e left longer : Expr}

theorem operand (ho : c.current.opens = false) : primary.Completes (room + 1) c [] := by
  have hl : Lexeme ['0'] (.zero false) := ⟨rfl, by simp, by decide, by decide +kernel⟩
  refine ⟨[.number (.zero false)], ['0'], _, .token (.number hl) .nil, ?_, .number⟩
  intro ho'
  rw [ho] at ho'
  cases ho'

theorem negative (hc : c.current = .operator .subtract)
    (h : (expression Precedence.negation.level).Completes room d used) :
    primary.Completes (room + 1) c (c.current :: used) := by
  obtain ⟨more, cs, e, hr, -, ht⟩ := h
  refine ⟨more, cs, .negative e, hr, fun _ => rfl, ?_⟩
  rw [hc]
  exact ht.negative

theorem numberTimes {value : Binary64} (hc : c.current = .number value)
    (hd : d.current = .leftParen) (h : primary.Completes room d used) :
    primary.Completes (room + 1) c (c.current :: used) := by
  obtain ⟨more, cs, e, hr, hs, ht⟩ := h
  have hl : (used ++ more).head? = some .leftParen := by
    rw [← hd]
    exact hs (by rw [hd]; rfl)
  refine ⟨more, cs, .binary .multiply (.number value) e, hr, fun _ => rfl, ?_⟩
  rw [hc]
  exact ht.numberTimes hl

theorem group (hroom : 0 < room) (hc : c.current = .leftParen)
    (h : (expression Precedence.none.level).Completes room d used) :
    primary.Completes (room + 1) c (c.current :: used) := by
  obtain ⟨more, cs, e, hr, -, ht⟩ := h
  have ht' := ht.group rfl (.closed (.alone hroom))
  rw [List.append_assoc, ← List.cons_append, ← hc] at ht'
  exact ⟨more ++ [.rightParen], cs ++ [')'], _, hr.append (.symbol rfl .nil), fun _ => rfl, ht'⟩

theorem closing (hc : c.current = .leftParen)
    (ht : (expression Precedence.none.level).Takes room used e)
    (h : (closing e).Completes room d more) :
    primary.Completes (room + 1) c (c.current :: (used ++ more)) := by
  obtain ⟨rest, cs, e', hr, hs, ht'⟩ := h
  have ht := ht.group hs ht'
  rw [← List.append_assoc, ← List.cons_append, ← hc] at ht
  exact ⟨rest, cs, _, hr, fun _ => rfl, ht⟩

theorem unclosed (hroom : 0 < room) : (Task.closing e).Completes room c [] :=
  ⟨[.rightParen], [')'], _, .symbol rfl .nil, rfl, .closed (.alone hroom)⟩

theorem closed (hc : c.current = .rightParen) (h : (following e).Completes room d used) :
    (Task.closing e).Completes room c (c.current :: used) := by
  obtain ⟨more, cs, e', hr, -, ht⟩ := h
  refine ⟨more, cs, e', hr, by rw [hc]; rfl, ?_⟩
  rw [hc]
  exact ht.closed

theorem times (hc : c.current ≠ .operator .subtract) (hhead : used.head? = some c.current)
    (h : primary.Completes room c used) : (following e).Completes room c used := by
  obtain ⟨more, cs, right, hr, -, ht⟩ := h
  have hhead' : (used ++ more).head? = some c.current := by rw [List.head?_append, hhead]; rfl
  exact ⟨more, cs, _, hr, trivial, .times hhead' hc ht⟩

theorem noOperand (h : primary.Completes room c used) :
    (expression floor).Completes (room + 1) c used := by
  obtain ⟨more, cs, e, hr, -, ht⟩ := h
  have hstop : (Task.extension floor e).Takes room [] e := .stop
  have ht := ht.operand (.inl rfl) hstop
  rw [List.append_nil] at ht
  exact ⟨more, cs, e, hr, trivial, ht⟩

theorem extension (ht : primary.Takes room used e) (h : (extension floor e).Completes room d more) :
    (expression floor).Completes (room + 1) c (used ++ more) := by
  obtain ⟨rest, cs, e', hr, ⟨op, -, hop⟩, ht'⟩ := h
  have ht := ht.operand (.inr ⟨op, hop⟩) ht'
  rw [← List.append_assoc] at ht
  exact ⟨rest, cs, _, hr, trivial, ht⟩

theorem lastStep (hx : extendsAbove floor c.current = true)
    (h : (operation left).Completes room c used) :
    (Task.extension floor left).Completes room c used := by
  obtain ⟨more, cs, e, hr, ⟨op, hc, hop⟩, ht⟩ := h
  rw [hc, Parse.extendsAbove_operator] at hx
  have ht := ht.step hop hx (.inl rfl) .stop
  rw [List.append_nil] at ht
  exact ⟨more, cs, e, hr, ⟨op, hc, hop⟩, ht⟩

theorem step (hx : extendsAbove floor c.current = true) (hc : c.current = .operator op)
    (hstop : extendsAbove op.precedence.level d.current = false)
    (hhead : used.head? = some c.current) (ht : (operation left).Takes room used longer)
    (h : (Task.extension floor longer).Completes room d more) :
    (Task.extension floor left).Completes room c (used ++ more) := by
  obtain ⟨rest, cs, e, hr, ⟨op', hd, hop'⟩, ht'⟩ := h
  rw [hc, Parse.extendsAbove_operator] at hx
  rw [hd, Bool.eq_false_iff, ne_eq, Parse.extendsAbove_operator] at hstop
  rw [hc] at hhead
  have ht := ht.step hhead hx (.inr ⟨op', hop', by omega⟩) ht'
  rw [← List.append_assoc] at ht
  refine ⟨rest, cs, _, hr, ⟨op, hc, ?_⟩, ht⟩
  rw [List.append_assoc, List.head?_append, hhead]
  rfl

theorem operator (hc : c.current = .operator op)
    (h : (expression op.precedence.level).Completes room d used) :
    (operation left).Completes (room + 1) c (c.current :: used) := by
  obtain ⟨more, cs, e, hr, -, ht⟩ := h
  refine ⟨more, cs, .binary op left e, hr, ⟨op, hc, by rw [hc]; rfl⟩, ?_⟩
  rw [hc]
  exact ht.operator

end Task.Completes

end Abacus
