/-
The reading of expressions as a judgement.

`Runs room task c r` says that a task, begun at the cursor `c` with the given
room, ends in `r`. It has one rule for each way a task can go on, failures
included, so what every run keeps is proved by induction on the rules and
never by looking into the functions again. `Runs.eq_run` and `Runs.total` say that
the judgement is neither more nor less than what the functions compute.
-/
import Abacus.Expr.Reading

namespace Abacus

/-! ## Moves of a cursor -/

/-- The cursor `d` stands behind the tokens `used`, which begin at `c`. A fault is only ever taken
away, and only where no tokens are left. -/
structure Moves (c : Cursor) (used : List Token) (d : Cursor) : Prop where
  tokens : c.current :: c.unread = used ++ d.current :: d.unread
  consumed : d.consumed = c.consumed + used.length
  fault : d.fault? = c.fault? ∨ d.fault? = none ∧ d.unread = []

namespace Moves

theorem refl (c : Cursor) : Moves c [] c := ⟨rfl, rfl, .inl rfl⟩

theorem unread_length {c d : Cursor} {used : List Token} (h : Moves c used d) :
    c.unread.length = used.length + d.unread.length := by
  have := congrArg List.length h.tokens
  simp at this; omega

theorem trans {a b c : Cursor} {used more : List Token} (h : Moves a used b) (h' : Moves b more c) :
    Moves a (used ++ more) c := by
  refine ⟨?_, ?_, ?_⟩
  · rw [h.tokens, h'.tokens, List.append_assoc]
  · rw [h'.consumed, h.consumed, List.length_append]; omega
  · have := h'.unread_length
    rcases h'.fault with hc | hc
    · rcases h.fault with hb | ⟨hb, hu⟩
      · exact .inl (hc.trans hb)
      · exact .inr ⟨hc.trans hb, List.eq_nil_of_length_eq_zero (by simp [hu] at this; omega)⟩
    · exact .inr hc

theorem advance {c d : Cursor} (h : Parse.advance c = .ok () d) : Moves c [c.current] d := by
  unfold Parse.advance at h
  split at h <;> cases h
  next hu => exact ⟨by simp [hu], rfl, .inl rfl⟩

theorem stuck {c d : Cursor} {err : ParseError} (h : Parse.advance c = .error err d) :
    Moves c [] d := by
  unfold Parse.advance at h
  split at h <;> cases h
  next hu hf => exact ⟨rfl, rfl, .inr ⟨rfl, hu⟩⟩
  next => exact refl c

theorem unique {c d : Cursor} {used used' : List Token} (h : Moves c used d)
    (h' : Moves c used' d) : used = used' :=
  List.append_cancel_right (h.tokens.symm.trans h'.tokens)

/-- A cursor that has consumed nothing stands where it stood. -/
theorem nil_of_consumed {c d : Cursor} {used : List Token} (h : Moves c used d)
    (hc : d.consumed = c.consumed) : used = [] := by
  have := h.consumed
  exact List.eq_nil_of_length_eq_zero (by omega)

end Moves

/-! ## Tasks -/

/-- What is to be read, with what has been read of it so far. -/
inductive Task where
  | primary
  | expression (floor : Int)
  /-- The operations that extend an operand. -/
  | extension (floor : Int) (left : Expr)
  | operation (left : Expr)
  /-- The end of a group and what follows it. -/
  | closing (group : Expr)
  /-- What follows a group. -/
  | following (group : Expr)

namespace Parse

abbrev Result := EStateM.Result ParseError Cursor Expr

namespace Result

def cursor : Result → Cursor
  | .ok _ c => c
  | .error _ c => c

/-- The expression that a finished operand is part of. -/
def build (f : Expr → Expr) : Result → Result
  | .ok e c => .ok (f e) c
  | .error err c => .error err c

@[simp] theorem cursor_ok (e : Expr) (c : Cursor) : cursor (.ok e c) = c := rfl
@[simp] theorem cursor_error (err : ParseError) (c : Cursor) : cursor (.error err c) = c := rfl

@[simp] theorem cursor_build (f : Expr → Expr) (r : Result) : (build f r).cursor = r.cursor := by
  cases r <;> rfl

theorem build_eq_ok {f : Expr → Expr} {r : Result} {e : Expr} {c : Cursor} :
    build f r = .ok e c ↔ ∃ a, r = .ok a c ∧ f a = e := by
  constructor
  · cases r with
    | ok a d => intro h; cases h; exact ⟨a, rfl, rfl⟩
    | error err d => intro h; cases h
  · rintro ⟨a, rfl, rfl⟩; rfl

theorem build_eq_error {f : Expr → Expr} {r : Result} {err : ParseError} {c : Cursor} :
    build f r = .error err c ↔ r = .error err c := by
  cases r <;> simp [build]

end Result

/-- What follows a closed group: a minus leaves it alone, an operand multiplies it. -/
def follow (room : Nat) (group : Expr) : Parse Expr := do
  if (← current) = .operator .subtract then return group else afterGroup group (primary room)

end Parse

namespace Task

/-- The tasks that take room of their own. -/
def Nests : Task → Prop
  | primary | expression _ | operation _ => True
  | extension .. | closing _ | following _ => False

/-- What a task computes; an extension may make `spare` more steps than there are tokens. -/
def run (room spare : Nat) : Task → Parse Expr
  | primary => Parse.primary room
  | expression floor => Parse.expression room floor
  | extension floor left => fun c =>
    Parse.extend (Parse.operation room) floor (c.unread.length + spare) left c
  | operation left => Parse.operation room left
  | closing group => do Parse.expect .rightParen; Parse.follow room group
  | following group => Parse.follow room group

end Task

/-! ## Runs -/

/-- The tokens that an operand begins with. -/
def Token.opens : Token → Bool
  | .number _ | .leftParen | .operator .subtract => true
  | _ => false

open Parse (advance extendsAbove Result)

inductive Runs : Nat → Task → Cursor → Result → Prop
  | tooDeep {task : Task} {c : Cursor} : task.Nests → Runs 0 task c (.error .tooDeep c)
  /-- No operand begins here. -/
  | refused {room : Nat} {c : Cursor} : c.current.opens = false →
      Runs (room + 1) .primary c (.error (.unexpected c.current) c)
  | stuck {room : Nat} {c d : Cursor} {err : ParseError} : c.current.opens = true →
      advance c = .error err d → Runs (room + 1) .primary c (.error err d)
  | negative {room : Nat} {c d : Cursor} {r : Result} : c.current = .operator .subtract →
      advance c = .ok () d → Runs room (.expression Precedence.negation.level) d r →
      Runs (room + 1) .primary c (r.build .negative)
  | number {room : Nat} {value : Binary64} {c d : Cursor} : c.current = .number value →
      advance c = .ok () d → d.current ≠ .leftParen →
      Runs (room + 1) .primary c (.ok (.number value) d)
  | numberTimes {room : Nat} {value : Binary64} {c d : Cursor} {r : Result} :
      c.current = .number value → advance c = .ok () d → d.current = .leftParen →
      Runs room .primary d r →
      Runs (room + 1) .primary c (r.build (.binary .multiply (.number value)))
  | groupFails {room : Nat} {c d d' : Cursor} {err : ParseError} : c.current = .leftParen →
      advance c = .ok () d → Runs room (.expression Precedence.none.level) d (.error err d') →
      Runs (room + 1) .primary c (.error err d')
  | group {room : Nat} {c d d' : Cursor} {e : Expr} {r : Result} : c.current = .leftParen →
      advance c = .ok () d → Runs room (.expression Precedence.none.level) d (.ok e d') →
      Runs room (.closing e) d' r → Runs (room + 1) .primary c r
  | unclosed {room : Nat} {c : Cursor} {e : Expr} : c.current ≠ .rightParen →
      Runs room (.closing e) c (.error (.expected .rightParen c.current) c)
  | closedLast {room : Nat} {c d : Cursor} {e : Expr} {err : ParseError} :
      c.current = .rightParen → advance c = .error err d →
      Runs room (.closing e) c (.error err d)
  | closed {room : Nat} {c d : Cursor} {e : Expr} {r : Result} : c.current = .rightParen →
      advance c = .ok () d → Runs room (.following e) d r → Runs room (.closing e) c r
  | minus {room : Nat} {c : Cursor} {e : Expr} : c.current = .operator .subtract →
      Runs room (.following e) c (.ok e c)
  | times {room : Nat} {c d : Cursor} {e right : Expr} : c.current ≠ .operator .subtract →
      Runs room .primary c (.ok right d) →
      Runs room (.following e) c (.ok (.binary .multiply e right) d)
  /-- No operand begins behind the group. -/
  | alone {room : Nat} {c d : Cursor} {e : Expr} {err : ParseError} :
      c.current ≠ .operator .subtract → Runs room .primary c (.error err d) → err ≠ .tooDeep →
      d.consumed = c.consumed → Runs room (.following e) c (.ok e d)
  /-- The operand behind the group began and broke off, or there was no room for it. -/
  | broken {room : Nat} {c d : Cursor} {e : Expr} {err : ParseError} :
      c.current ≠ .operator .subtract → Runs room .primary c (.error err d) →
      err = .tooDeep ∨ d.consumed ≠ c.consumed → Runs room (.following e) c (.error err d)
  | noOperand {room : Nat} {floor : Int} {c d : Cursor} {err : ParseError} :
      Runs room .primary c (.error err d) →
      Runs (room + 1) (.expression floor) c (.error err d)
  | operand {room : Nat} {floor : Int} {c d : Cursor} {e : Expr} {r : Result} :
      Runs room .primary c (.ok e d) → Runs room (.extension floor e) d r →
      Runs (room + 1) (.expression floor) c r
  | stop {room : Nat} {floor : Int} {c : Cursor} {left : Expr} :
      extendsAbove floor c.current = false → Runs room (.extension floor left) c (.ok left c)
  | stepFails {room : Nat} {floor : Int} {c d : Cursor} {left : Expr} {err : ParseError} :
      extendsAbove floor c.current = true → Runs room (.operation left) c (.error err d) →
      Runs room (.extension floor left) c (.error err d)
  | step {room : Nat} {floor : Int} {c d : Cursor} {left longer : Expr} {r : Result} :
      extendsAbove floor c.current = true → Runs room (.operation left) c (.ok longer d) →
      Runs room (.extension floor longer) d r → Runs room (.extension floor left) c r
  | noOperator {room : Nat} {c : Cursor} {left : Expr} : (∀ op, c.current ≠ .operator op) →
      Runs (room + 1) (.operation left) c (.error (.notOperator c.current) c)
  | operatorLast {room : Nat} {op : Operator} {c d : Cursor} {left : Expr} {err : ParseError} :
      c.current = .operator op → advance c = .error err d →
      Runs (room + 1) (.operation left) c (.error err d)
  | operator {room : Nat} {op : Operator} {c d : Cursor} {left : Expr} {r : Result} :
      c.current = .operator op → advance c = .ok () d →
      Runs room (.expression op.precedence.level) d r →
      Runs (room + 1) (.operation left) c (r.build (.binary op left))

namespace Runs

/-- Every run moves its cursor forward, and past one token at least if it reads something of its
own. -/
theorem moves {room : Nat} {task : Task} {c : Cursor} {r : Result} (h : Runs room task c r) :
    ∃ used, Moves c used r.cursor ∧ (task.Nests → (∃ e d, r = .ok e d) → used ≠ []) := by
  induction h with
  | tooDeep | refused | unclosed | noOperator => exact ⟨[], .refl _, by simp⟩
  | minus | stop => exact ⟨[], .refl _, by simp [Task.Nests]⟩
  | stuck _ ha | closedLast _ ha | operatorLast _ ha => exact ⟨[], .stuck ha, by simp⟩
  | number _ ha => exact ⟨_, .advance ha, by simp⟩
  | negative _ ha _ ih | numberTimes _ ha _ _ ih | operator _ ha _ ih =>
    obtain ⟨used, hm, -⟩ := ih
    exact ⟨_, (Moves.advance ha).trans (by simpa using hm), by simp⟩
  | groupFails _ ha _ ih =>
    obtain ⟨used, hm, -⟩ := ih
    exact ⟨_, (Moves.advance ha).trans hm, by simp⟩
  | group _ ha _ _ ih ih' =>
    obtain ⟨used, hm, -⟩ := ih
    obtain ⟨more, hm', -⟩ := ih'
    exact ⟨_, (Moves.advance ha).trans (hm.trans hm'), by simp⟩
  | closed _ ha _ ih =>
    obtain ⟨used, hm, -⟩ := ih
    exact ⟨_, (Moves.advance ha).trans hm, by simp⟩
  | times _ _ ih | broken _ _ _ ih =>
    obtain ⟨used, hm, -⟩ := ih
    exact ⟨used, hm, by simp [Task.Nests]⟩
  | alone _ _ _ _ ih | stepFails _ _ ih =>
    obtain ⟨used, hm, -⟩ := ih
    exact ⟨used, hm, by simp [Task.Nests]⟩
  | noOperand _ ih =>
    obtain ⟨used, hm, -⟩ := ih
    exact ⟨used, hm, by simp⟩
  | operand _ _ ih ih' =>
    obtain ⟨used, hm, hne⟩ := ih
    obtain ⟨more, hm', -⟩ := ih'
    exact ⟨_, hm.trans hm', by simp [hne trivial ⟨_, _, rfl⟩]⟩
  | step _ _ _ ih ih' =>
    obtain ⟨used, hm, -⟩ := ih
    obtain ⟨more, hm', -⟩ := ih'
    exact ⟨_, hm.trans hm', by simp [Task.Nests]⟩

theorem unread_lt {room : Nat} {task : Task} {c d : Cursor} {e : Expr}
    (h : Runs room task c (.ok e d)) (hn : task.Nests) : d.unread.length < c.unread.length := by
  obtain ⟨used, hm, hne⟩ := h.moves
  have := List.length_pos_iff.2 (hne hn ⟨e, d, rfl⟩)
  have := hm.unread_length
  simp at this; omega

end Runs

/-! ## Runs and functions -/

namespace Parse

theorem bind_ok {α β : Type} {p : Parse α} {f : α → Parse β} {a : α} {c d : Cursor}
    (h : p c = .ok a d) : (p >>= f) c = f a d := by
  simp only [bind, EStateM.bind, h]

theorem bind_error {α β : Type} {p : Parse α} {f : α → Parse β} {err : ParseError} {c d : Cursor}
    (h : p c = .error err d) : (p >>= f) c = .error err d := by
  simp only [bind, EStateM.bind, h]

theorem current_apply (c : Cursor) : current c = .ok c.current c := rfl

theorem kind_eq_rightParen {token : Token} : token.kind = .rightParen ↔ token = .rightParen := by
  cases token <;> simp [Token.kind, Token.label]

theorem expect_rightParen_of_eq {c : Cursor} (h : c.current = .rightParen) :
    expect .rightParen c = advance c := by
  simp only [expect, bind_ok (current_apply c), h, kind_eq_rightParen.2, if_true]

theorem expect_rightParen_of_ne {c : Cursor} (h : c.current ≠ .rightParen) :
    expect .rightParen c = .error (.expected .rightParen c.current) c := by
  simp only [expect, bind_ok (current_apply c), kind_eq_rightParen, h, if_false]
  rfl

theorem follow_minus {room : Nat} {e : Expr} {c : Cursor} (h : c.current = .operator .subtract) :
    follow room e c = .ok e c := by
  simp only [follow, bind_ok (current_apply c), h, if_true]
  rfl

theorem follow_operand {room : Nat} {e : Expr} {c : Cursor} (h : c.current ≠ .operator .subtract) :
    follow room e c = afterGroup e (primary room) c := by
  simp only [follow, bind_ok (current_apply c), h, if_false]

theorem afterGroup_ok {e right : Expr} {operand : Parse Expr} {c d : Cursor}
    (h : operand c = .ok right d) : afterGroup e operand c = .ok (.binary .multiply e right) d := by
  simp only [afterGroup, h]

theorem afterGroup_alone {e : Expr} {operand : Parse Expr} {c d : Cursor} {err : ParseError}
    (h : operand c = .error err d) (hne : err ≠ .tooDeep) (hd : d.consumed = c.consumed) :
    afterGroup e operand c = .ok e d := by
  simp only [afterGroup, h]
  cases err <;> first | exact absurd rfl hne | exact if_pos hd

theorem afterGroup_broken {e : Expr} {operand : Parse Expr} {c d : Cursor} {err : ParseError}
    (h : operand c = .error err d) (hd : err = .tooDeep ∨ d.consumed ≠ c.consumed) :
    afterGroup e operand c = .error err d := by
  simp only [afterGroup, h]
  cases err <;> first | rfl | exact if_neg (hd.resolve_left ParseError.noConfusion)

/-! ### Calls

The equations below are the only places where these functions are opened. -/

theorem extend_apply (step : Expr → Parse Expr) (floor : Int) (budget : Nat) (left : Expr)
    (c : Cursor) : extend step floor budget left c =
      if extendsAbove floor c.current then
        (step left >>= fun longer =>
          match budget with
          | 0 => pure longer
          | budget + 1 => extend step floor budget longer) c
      else .ok left c := by
  rw [extend, bind_ok (current_apply c)]
  split <;> rfl

theorem primary_apply (room : Nat) (c : Cursor) : primary (room + 1) c =
    (match c.current with
      | .operator .subtract => do
        advance
        return .negative (← expression room Precedence.negation.level)
      | .number value => do
        advance
        if (← current) = .leftParen then
          return .binary .multiply (.number value) (← primary room)
        else
          return .number value
      | .leftParen => do
        advance
        let group ← expression room Precedence.none.level
        expect .rightParen
        follow room group
      | _ => throw (.unexpected c.current) : Parse Expr) c := rfl

theorem operation_apply (room : Nat) (left : Expr) (c : Cursor) : operation (room + 1) left c =
    (match c.current with
      | .operator op => do
        advance
        return .binary op left (← expression room op.precedence.level)
      | token => throw (.notOperator token) : Parse Expr) c := rfl

theorem extend_stop {step : Expr → Parse Expr} {floor : Int} {budget : Nat} {left : Expr}
    {c : Cursor} (h : extendsAbove floor c.current = false) :
    extend step floor budget left c = .ok left c := by
  rw [extend_apply, if_neg (by simp [h])]

theorem extend_error {step : Expr → Parse Expr} {floor : Int} {budget : Nat} {left : Expr}
    {c d : Cursor} {err : ParseError} (h : extendsAbove floor c.current = true)
    (hs : step left c = .error err d) : extend step floor budget left c = .error err d := by
  rw [extend_apply, if_pos h, bind_error hs]

theorem extend_step {step : Expr → Parse Expr} {floor : Int} {budget : Nat} {left longer : Expr}
    {c d : Cursor} (h : extendsAbove floor c.current = true) (hs : step left c = .ok longer d) :
    extend step floor (budget + 1) left c = extend step floor budget longer d := by
  rw [extend_apply, if_pos h, bind_ok hs]

theorem primary_refused {room : Nat} {c : Cursor} (h : c.current.opens = false) :
    primary (room + 1) c = .error (.unexpected c.current) c := by
  rw [primary_apply]
  cases hc : c.current with
  | number | leftParen => rw [hc] at h; cases h
  | operator op => cases op <;> first | rfl | (rw [hc] at h; cases h)
  | rightParen | endOfInput => rfl

theorem primary_stuck {room : Nat} {c d : Cursor} {err : ParseError} (h : c.current.opens = true)
    (ha : advance c = .error err d) : primary (room + 1) c = .error err d := by
  rw [primary_apply]
  cases hc : c.current with
  | number | leftParen => exact bind_error ha
  | operator op => cases op <;> first | exact bind_error ha | (rw [hc] at h; cases h)
  | rightParen | endOfInput => rw [hc] at h; cases h

theorem primary_negative {room : Nat} {c d : Cursor} (h : c.current = .operator .subtract)
    (ha : advance c = .ok () d) : primary (room + 1) c =
      Result.build .negative (expression room Precedence.negation.level d) := by
  simp only [primary_apply, h, bind_ok ha]
  cases he : expression room Precedence.negation.level d with
  | ok e d' => rw [bind_ok he]; rfl
  | error err d' => rw [bind_error he]; rfl

theorem primary_number {room : Nat} {value : Binary64} {c d : Cursor}
    (h : c.current = .number value) (ha : advance c = .ok () d) (hd : d.current ≠ .leftParen) :
    primary (room + 1) c = .ok (.number value) d := by
  simp only [primary_apply, h, bind_ok ha, bind_ok (current_apply d),
    if_neg hd]
  rfl

theorem primary_numberTimes {room : Nat} {value : Binary64} {c d : Cursor}
    (h : c.current = .number value) (ha : advance c = .ok () d) (hd : d.current = .leftParen) :
    primary (room + 1) c =
      Result.build (.binary .multiply (.number value)) (primary room d) := by
  simp only [primary_apply, h, bind_ok ha, bind_ok (current_apply d),
    if_pos hd]
  cases hp : primary room d with
  | ok e d' => rw [bind_ok hp]; rfl
  | error err d' => rw [bind_error hp]; rfl

theorem primary_groupFails {room : Nat} {c d d' : Cursor} {err : ParseError}
    (h : c.current = .leftParen) (ha : advance c = .ok () d)
    (he : expression room Precedence.none.level d = .error err d') :
    primary (room + 1) c = .error err d' := by
  simp only [primary_apply, h, bind_ok ha, bind_error he]

theorem primary_group {room : Nat} {c d d' : Cursor} {e : Expr} (h : c.current = .leftParen)
    (ha : advance c = .ok () d) (he : expression room Precedence.none.level d = .ok e d') :
    primary (room + 1) c = (do expect .rightParen; follow room e : Parse Expr) d' := by
  simp only [primary_apply, h, bind_ok ha, bind_ok he]

theorem operation_noOperator {room : Nat} {c : Cursor} {left : Expr}
    (h : ∀ op, c.current ≠ .operator op) :
    operation (room + 1) left c = .error (.notOperator c.current) c := by
  rw [operation_apply]
  cases hc : c.current with
  | operator op => exact absurd hc (h op)
  | number | leftParen | rightParen | endOfInput => rfl

theorem operation_stuck {room : Nat} {op : Operator} {c d : Cursor} {left : Expr}
    {err : ParseError} (h : c.current = .operator op) (ha : advance c = .error err d) :
    operation (room + 1) left c = .error err d := by
  simp only [operation_apply, h, bind_error ha]

theorem operation_operator {room : Nat} {op : Operator} {c d : Cursor} {left : Expr}
    (h : c.current = .operator op) (ha : advance c = .ok () d) :
    operation (room + 1) left c =
      Result.build (.binary op left) (expression room op.precedence.level d) := by
  simp only [operation_apply, h, bind_ok ha]
  cases he : expression room op.precedence.level d with
  | ok e d' => rw [bind_ok he]; rfl
  | error err d' => rw [bind_error he]; rfl

end Parse

namespace Runs

open Parse

/-- A run is what its task computes. -/
theorem eq_run {room : Nat} {task : Task} {c : Cursor} {r : Result} (h : Runs room task c r) :
    ∀ spare, task.run room spare c = r := by
  induction h with
  | @tooDeep task c hn => intro; cases task <;> first | rfl | exact hn.elim
  | refused ho => intro; exact primary_refused ho
  | stuck ho ha => intro; exact primary_stuck ho ha
  | negative hc ha _ ih => intro spare; rw [← ih spare]; exact primary_negative hc ha
  | number hc ha hd => intro; exact primary_number hc ha hd
  | numberTimes hc ha hd _ ih => intro spare; rw [← ih spare]; exact primary_numberTimes hc ha hd
  | groupFails hc ha _ ih => intro spare; exact primary_groupFails hc ha (ih spare)
  | group hc ha _ _ ih ih' => intro spare; rw [← ih' spare]; exact primary_group hc ha (ih spare)
  | unclosed hc => intro; exact bind_error (expect_rightParen_of_ne hc)
  | closedLast hc ha => intro; exact bind_error ((expect_rightParen_of_eq hc).trans ha)
  | closed hc ha _ ih =>
    intro spare
    rw [← ih spare]
    exact bind_ok ((expect_rightParen_of_eq hc).trans ha)
  | minus hc => intro; exact follow_minus hc
  | times hc _ ih => intro spare; exact (follow_operand hc).trans (afterGroup_ok (ih spare))
  | alone hc _ hne hd ih =>
    intro spare; exact (follow_operand hc).trans (afterGroup_alone (ih spare) hne hd)
  | broken hc _ hd ih =>
    intro spare; exact (follow_operand hc).trans (afterGroup_broken (ih spare) hd)
  | noOperand _ ih => intro spare; exact bind_error (ih spare)
  | operand _ _ ih ih' =>
    intro spare
    rw [← ih' 0]
    exact bind_ok (ih spare)
  | stop hx => intro; exact extend_stop hx
  | stepFails hx _ ih => intro spare; exact extend_error hx (ih spare)
  | @step room floor c d left longer r hx h _ ih ih' =>
    intro spare
    have hlt := h.unread_lt trivial
    obtain ⟨more, hmore⟩ : ∃ more, c.unread.length + spare = d.unread.length + more + 1 :=
      ⟨c.unread.length + spare - d.unread.length - 1, by omega⟩
    show extend (operation room) floor (c.unread.length + spare) left c = r
    rw [hmore, extend_step hx (ih 0)]
    exact ih' more
  | noOperator hc => intro; exact operation_noOperator hc
  | operatorLast hc ha => intro; exact operation_stuck hc ha
  | operator hc ha _ ih => intro spare; rw [← ih spare]; exact operation_operator hc ha

/-- The steps of an extension come to an end, because each moves the cursor. -/
theorem extension_total {room : Nat} (floor : Int)
    (hop : ∀ left c, ∃ r, Runs room (.operation left) c r) :
    ∀ (n : Nat) (left : Expr) (c : Cursor), c.unread.length = n →
      ∃ r, Runs room (.extension floor left) c r := by
  intro n
  induction n using Nat.strongRecOn with
  | ind n ih =>
    intro left c hn
    cases hx : extendsAbove floor c.current with
    | false => exact ⟨_, .stop hx⟩
    | true =>
      obtain ⟨r, hr⟩ := hop left c
      cases r with
      | error err d => exact ⟨_, .stepFails hx hr⟩
      | ok longer d =>
        obtain ⟨r, hr'⟩ := ih _ (hn ▸ hr.unread_lt trivial) longer d rfl
        exact ⟨r, .step hx hr hr'⟩

theorem following_total {room : Nat} (hp : ∀ c, ∃ r, Runs room .primary c r) (e : Expr)
    (c : Cursor) : ∃ r, Runs room (.following e) c r := by
  by_cases hc : c.current = .operator .subtract
  · exact ⟨_, .minus hc⟩
  · obtain ⟨r, hr⟩ := hp c
    cases r with
    | ok right d => exact ⟨_, .times hc hr⟩
    | error err d =>
      by_cases hd : err = .tooDeep ∨ d.consumed ≠ c.consumed
      · exact ⟨_, .broken hc hr hd⟩
      · exact ⟨_, .alone hc hr (fun h => hd (.inl h)) (Decidable.not_not.1 fun h => hd (.inr h))⟩

theorem closing_total {room : Nat} (hp : ∀ c, ∃ r, Runs room .primary c r) (e : Expr)
    (c : Cursor) : ∃ r, Runs room (.closing e) c r := by
  by_cases hc : c.current = .rightParen
  · cases ha : advance c with
    | error err d => exact ⟨_, .closedLast hc ha⟩
    | ok _ d =>
      obtain ⟨r, hr⟩ := following_total hp e d
      exact ⟨r, .closed hc ha hr⟩
  · exact ⟨_, .unclosed hc⟩

theorem primary_total {room : Nat} (hp : ∀ c, ∃ r, Runs room .primary c r)
    (he : ∀ floor c, ∃ r, Runs room (.expression floor) c r) (c : Cursor) :
    ∃ r, Runs (room + 1) .primary c r := by
  cases ho : c.current.opens with
  | false => exact ⟨_, .refused ho⟩
  | true =>
    cases ha : advance c with
    | error err d => exact ⟨_, .stuck ho ha⟩
    | ok _ d =>
      cases hc : c.current with
      | number value =>
        by_cases hd : d.current = .leftParen
        · obtain ⟨r, hr⟩ := hp d
          exact ⟨_, .numberTimes hc ha hd hr⟩
        · exact ⟨_, .number hc ha hd⟩
      | leftParen =>
        obtain ⟨r, hr⟩ := he Precedence.none.level d
        cases r with
        | error err d' => exact ⟨_, .groupFails hc ha hr⟩
        | ok e d' =>
          obtain ⟨r, hr'⟩ := closing_total hp e d'
          exact ⟨r, .group hc ha hr hr'⟩
      | operator op =>
        obtain ⟨r, hr⟩ := he Precedence.negation.level d
        cases op <;> first | exact ⟨_, .negative hc ha hr⟩ | (rw [hc] at ho; cases ho)
      | rightParen | endOfInput => rw [hc] at ho; cases ho

theorem expression_total {room : Nat} (hp : ∀ c, ∃ r, Runs room .primary c r)
    (hop : ∀ left c, ∃ r, Runs room (.operation left) c r) (floor : Int) (c : Cursor) :
    ∃ r, Runs (room + 1) (.expression floor) c r := by
  obtain ⟨r, hr⟩ := hp c
  cases r with
  | error err d => exact ⟨_, .noOperand hr⟩
  | ok e d =>
    obtain ⟨r, hr'⟩ := extension_total floor hop _ e d rfl
    exact ⟨r, .operand hr hr'⟩

theorem operation_total {room : Nat} (he : ∀ floor c, ∃ r, Runs room (.expression floor) c r)
    (left : Expr) (c : Cursor) : ∃ r, Runs (room + 1) (.operation left) c r := by
  by_cases hc : ∃ op, c.current = .operator op
  · obtain ⟨op, hc⟩ := hc
    cases ha : advance c with
    | error err d => exact ⟨_, .operatorLast hc ha⟩
    | ok _ d =>
      obtain ⟨r, hr⟩ := he op.precedence.level d
      exact ⟨_, .operator hc ha hr⟩
  · exact ⟨_, .noOperator fun op h => hc ⟨op, h⟩⟩

theorem nested_total : ∀ room, (∀ c, ∃ r, Runs room .primary c r) ∧
    (∀ floor c, ∃ r, Runs room (.expression floor) c r) ∧
    (∀ left c, ∃ r, Runs room (.operation left) c r)
  | 0 => ⟨fun _ => ⟨_, .tooDeep trivial⟩, fun _ _ => ⟨_, .tooDeep trivial⟩,
      fun _ _ => ⟨_, .tooDeep trivial⟩⟩
  | room + 1 =>
    have ⟨hp, he, hop⟩ := nested_total room
    ⟨primary_total hp he, expression_total hp hop, operation_total he⟩

/-- Every task begun anywhere with any room has a run. -/
theorem total (room : Nat) (task : Task) (c : Cursor) : ∃ r, Runs room task c r := by
  have ⟨hp, he, hop⟩ := nested_total room
  cases task with
  | primary => exact hp c
  | expression floor => exact he floor c
  | extension floor left => exact extension_total floor hop _ left c rfl
  | operation left => exact hop left c
  | closing e => exact closing_total hp e c
  | following e => exact following_total hp e c

/-- The judgement is what the functions compute. -/
theorem iff_run {room : Nat} {task : Task} {c : Cursor} {r : Result} :
    Runs room task c r ↔ task.run room 0 c = r := by
  constructor
  · exact fun h => h.eq_run 0
  · rintro rfl
    obtain ⟨r, hr⟩ := total room task c
    rwa [hr.eq_run 0]

theorem det {room : Nat} {task : Task} {c : Cursor} {r r' : Result} (h : Runs room task c r)
    (h' : Runs room task c r') : r = r' :=
  (h.eq_run 0).symm.trans (h'.eq_run 0)

end Runs

/-! ## Texts -/

theorem Token.ofSymbol?_ne_end {c : Char} : Token.ofSymbol? c ≠ some .endOfInput := by
  unfold Token.ofSymbol?
  split <;> simp

theorem Numeral.end_notMem_close (open? : Option Numeral) :
    Token.endOfInput ∉ Numeral.close open? := by
  cases open? <;> simp [Numeral.close]

theorem Script.end_notMem_scan (position : Nat) (open? : Option Numeral) (cs : List Char) :
    Token.endOfInput ∉ (Script.scan position open? cs).tokens := by
  fun_induction Script.scan position open? cs with
  | case1 | case7 => simp [Numeral.end_notMem_close]
  | case2 _ _ _ _ _ ih | case3 _ _ _ _ _ _ ih | case6 _ _ _ _ _ _ _ ih => exact ih
  | case4 _ open? _ _ _ _ token ht ih =>
    have hne : token ≠ .endOfInput := fun h => Token.ofSymbol?_ne_end (h ▸ ht)
    simp [Script.after, Numeral.end_notMem_close, ih, hne.symm]
  | case5 | case8 => simp

theorem Script.end_notMem_tokens (text : String) :
    Token.endOfInput ∉ (Script.ofText text).tokens := end_notMem_scan _ _ _

/-- What a text is found to be when the reading of its expression has ended. -/
def Parse.Result.answer : Result → Except ParseError Expr
  | .ok e c => if c.current = .endOfInput then .ok e else .error (.trailing c.current)
  | .error err _ => .error err

theorem Cursor.ofText_eq_ok {text : String} {c : Cursor} : Cursor.ofText text = .ok c ↔
    c.current :: c.unread = (Script.ofText text).stream ∧ c.fault? = (Script.ofText text).fault? ∧
      c.consumed = 0 := by
  obtain ⟨current, unread, fault?, consumed⟩ := c
  simp only [Cursor.ofText, Cursor.ofScript]
  split
  next token rest _ hs =>
    simp only [hs, Except.ok.injEq, Cursor.mk.injEq, List.cons.injEq]
    constructor
    · rintro ⟨rfl, rfl, rfl, rfl⟩; exact ⟨⟨rfl, rfl⟩, rfl, rfl⟩
    · rintro ⟨⟨rfl, rfl⟩, rfl, rfl⟩; exact ⟨rfl, rfl, rfl, rfl⟩
  next hs _ => simp [hs]
  next hs _ => simp [hs]

theorem Expr.ofTextWithin_eq {room : Nat} {text : String} {c : Cursor} {r : Result}
    (hc : Cursor.ofText text = .ok c)
    (h : Runs room (.expression Precedence.none.level) c r) :
    Expr.ofTextWithin room text = r.answer := by
  have he : Parse.expression room Precedence.none.level c = r := h.eq_run 0
  simp only [Expr.ofTextWithin, hc, bind, Except.bind, Parse.whole, EStateM.bind, he]
  cases r with
  | error err d => rfl
  | ok e d =>
    simp only [Parse.Result.answer, Parse.current]
    by_cases hd : d.current = .endOfInput
    · rw [if_pos hd, if_pos hd]; rfl
    · rw [if_neg hd, if_neg hd]; rfl

/-- An expression is read of a text by a run from its first token to its end. -/
theorem Expr.runs_of_ofTextWithin {room : Nat} {text : String} {e : Expr}
    (h : Expr.ofTextWithin room text = .ok e) : ∃ c d, Cursor.ofText text = .ok c ∧
      Runs room (.expression Precedence.none.level) c (.ok e d) ∧ d.current = .endOfInput := by
  cases hc : Cursor.ofText text with
  | error err => simp [Expr.ofTextWithin, hc, bind, Except.bind] at h
  | ok c =>
    obtain ⟨r, hr⟩ := Runs.total room (.expression Precedence.none.level) c
    rw [Expr.ofTextWithin_eq hc hr] at h
    cases r with
    | error err d => cases h
    | ok e' d =>
      simp only [Parse.Result.answer] at h
      split at h
      · next hd => cases h; exact ⟨c, d, rfl, hr, hd⟩
      · cases h

/-- A text without a first token is refused for its fault. -/
theorem Cursor.ofText_eq_error {text : String} {err : ParseError}
    (h : Cursor.ofText text = .error err) :
    ∃ fault, (Script.ofText text).tokens = [] ∧ (Script.ofText text).fault? = some fault ∧
      err = .lexical fault := by
  simp only [Cursor.ofText, Cursor.ofScript] at h
  split at h
  next => cases h
  next fault hs hf =>
    cases h
    exact ⟨fault, by simpa [Script.stream, hf] using hs, hf, rfl⟩
  next hs hf => simp [Script.stream, hf] at hs

end Abacus
