/-
The room of a run.

A run that does not end for lack of room ends in the same way with any more
room (`Runs.mono`), and a room of two calls for each token left to read is
never too little (`Runs.room_lt`). So the room decides nothing but whether a
text is read at all.
-/
import Abacus.Proofs.Run

namespace Abacus

open Parse (advance Result)

namespace Parse.Result

/-- The run did not end for lack of room. -/
def Settled (r : Result) : Prop := ∀ d, r ≠ .error .tooDeep d

theorem not_settled {r : Result} : ¬ r.Settled ↔ ∃ d, r = .error .tooDeep d := by simp [Settled]

theorem settled_ok {e : Expr} {c : Cursor} : Settled (.ok e c) := fun _ h => by cases h

theorem settled_build {f : Expr → Expr} {r : Result} : (r.build f).Settled ↔ r.Settled := by
  simp only [Settled, ne_eq, build_eq_error]

theorem settled_error {err : ParseError} {c : Cursor} :
    Settled (.error err c) ↔ err ≠ .tooDeep := by
  constructor
  · intro h herr
    exact h c (by rw [herr])
  · intro h d heq
    cases heq
    exact h rfl

end Parse.Result

theorem Parse.advance_ne_tooDeep {c d : Cursor} : advance c ≠ .error .tooDeep d := by
  unfold advance
  split <;> simp

namespace Runs

open Parse.Result

/-- More room never changes how a run ends. -/
theorem mono {room room' : Nat} {task : Task} {c : Cursor} {r : Result} (h : Runs room task c r)
    (hs : r.Settled) (hle : room ≤ room') : Runs room' task c r := by
  induction h generalizing room' with
  | tooDeep => exact absurd rfl (hs _)
  | refused ho =>
    obtain ⟨k, rfl⟩ := Nat.exists_eq_add_of_lt hle
    exact .refused ho
  | stuck ho ha =>
    obtain ⟨k, rfl⟩ := Nat.exists_eq_add_of_lt hle
    exact .stuck ho ha
  | negative hc ha _ ih =>
    obtain ⟨k, rfl⟩ := Nat.exists_eq_add_of_lt hle
    exact .negative hc ha (ih (settled_build.1 hs) (by omega))
  | number hc ha hd =>
    obtain ⟨k, rfl⟩ := Nat.exists_eq_add_of_lt hle
    exact .number hc ha hd
  | numberTimes hc ha hd _ ih =>
    obtain ⟨k, rfl⟩ := Nat.exists_eq_add_of_lt hle
    exact .numberTimes hc ha hd (ih (settled_build.1 hs) (by omega))
  | groupFails hc ha _ ih =>
    obtain ⟨k, rfl⟩ := Nat.exists_eq_add_of_lt hle
    exact .groupFails hc ha (ih hs (by omega))
  | group hc ha _ _ ih ih' =>
    obtain ⟨k, rfl⟩ := Nat.exists_eq_add_of_lt hle
    exact .group hc ha (ih settled_ok (by omega)) (ih' hs (by omega))
  | unclosed hc => exact .unclosed hc
  | closedLast hc ha => exact .closedLast hc ha
  | closed hc ha _ ih => exact .closed hc ha (ih hs hle)
  | minus hc => exact .minus hc
  | times hc _ ih => exact .times hc (ih settled_ok hle)
  | alone hc _ hne hd ih => exact .alone hc (ih (settled_error.2 hne) hle) hne hd
  | broken hc _ hd ih => exact .broken hc (ih hs hle) hd
  | noOperand _ ih =>
    obtain ⟨k, rfl⟩ := Nat.exists_eq_add_of_lt hle
    exact .noOperand (ih hs (by omega))
  | operand _ _ ih ih' =>
    obtain ⟨k, rfl⟩ := Nat.exists_eq_add_of_lt hle
    exact .operand (ih settled_ok (by omega)) (ih' hs (by omega))
  | stop hx => exact .stop hx
  | stepFails hx _ ih => exact .stepFails hx (ih hs hle)
  | step hx _ _ ih ih' => exact .step hx (ih settled_ok hle) (ih' hs hle)
  | noOperator hc =>
    obtain ⟨k, rfl⟩ := Nat.exists_eq_add_of_lt hle
    exact .noOperator hc
  | operatorLast hc ha =>
    obtain ⟨k, rfl⟩ := Nat.exists_eq_add_of_lt hle
    exact .operatorLast hc ha
  | operator hc ha _ ih =>
    obtain ⟨k, rfl⟩ := Nat.exists_eq_add_of_lt hle
    exact .operator hc ha (ih (settled_build.1 hs) (by omega))

/-- Two runs of one task that both end, whatever their rooms, end in the same way. -/
theorem settled_unique {room room' : Nat} {task : Task} {c : Cursor} {r r' : Result}
    (h : Runs room task c r) (h' : Runs room' task c r') (hs : r.Settled) (hs' : r'.Settled) :
    r = r' :=
  (h.mono hs (Nat.le_max_left room room')).det (h'.mono hs' (Nat.le_max_right room room'))

end Runs

/-! ## Enough room -/

/-- A room that is never too little with `n` tokens unread. -/
def Task.need (n : Nat) : Task → Nat
  | expression _ => 2 * n + 2
  | _ => 2 * n + 1

namespace Runs

open Parse.Result

/-- A run that ends for lack of room had less than it may need. -/
theorem room_lt {room : Nat} {task : Task} {c d : Cursor} {r : Result} (h : Runs room task c r)
    (hr : r = .error .tooDeep d) : room < task.need c.unread.length := by
  induction h generalizing d with
  | @tooDeep task => cases task <;> simp [Task.need]
  | refused | unclosed | noOperator | number | minus | times | alone | stop => cases hr
  | stuck _ ha | closedLast _ ha | operatorLast _ ha =>
    cases hr; exact absurd ha Parse.advance_ne_tooDeep
  | negative _ ha _ ih | operator _ ha _ ih =>
    have := (Moves.advance ha).unread_length
    have := ih (build_eq_error.1 hr)
    simp [Task.need] at *; omega
  | numberTimes _ ha _ _ ih =>
    have := (Moves.advance ha).unread_length
    have := ih (build_eq_error.1 hr)
    simp [Task.need] at *; omega
  | groupFails _ ha _ ih =>
    have := (Moves.advance ha).unread_length
    have := ih hr
    simp [Task.need] at *; omega
  | group _ ha h _ _ ih' =>
    have := (Moves.advance ha).unread_length
    have := h.unread_lt trivial
    have := ih' hr
    simp [Task.need] at *; omega
  | closed _ ha _ ih =>
    have := (Moves.advance ha).unread_length
    have := ih hr
    simp [Task.need] at *; omega
  | broken _ _ _ ih | stepFails _ _ ih =>
    have := ih hr
    simp [Task.need] at *; omega
  | noOperand _ ih =>
    have := ih hr
    simp [Task.need] at *; omega
  | operand h _ _ ih' | step _ h _ _ ih' =>
    have := h.unread_lt trivial
    have := ih' hr
    simp [Task.need] at *; omega

end Runs

/-! ## Texts -/

theorem Parse.Result.answer_eq_tooDeep {r : Result} :
    r.answer = .error .tooDeep ↔ ∃ d, r = .error .tooDeep d := by
  cases r with
  | ok e c => simp only [answer]; split <;> simp
  | error err c => simp [answer]

namespace Expr

theorem settled_of_ne {room : Nat} {text : String} {c : Cursor} {r : Result}
    (h : ofTextWithin room text ≠ .error .tooDeep) (hc : Cursor.ofText text = .ok c)
    (hr : Runs room (.expression Precedence.none.level) c r) : r.Settled := by
  rw [ofTextWithin_eq hc hr] at h
  exact fun d hd => h (Parse.Result.answer_eq_tooDeep.2 ⟨d, hd⟩)

/-- A text that is not too deep for a room is the same for any greater room. -/
theorem ofTextWithin_of_le {room room' : Nat} {text : String}
    (h : ofTextWithin room text ≠ .error .tooDeep) (hle : room ≤ room') :
    ofTextWithin room' text = ofTextWithin room text := by
  cases hc : Cursor.ofText text with
  | error err => simp [ofTextWithin, hc, bind, Except.bind]
  | ok c =>
    obtain ⟨r, hr⟩ := Runs.total room (.expression Precedence.none.level) c
    rw [ofTextWithin_eq hc hr, ofTextWithin_eq hc (hr.mono (settled_of_ne h hc hr) hle)]

/-- Two calls for each token and two more are enough for a text. -/
theorem ofTextWithin_ne_tooDeep {room : Nat} {text : String}
    (hroom : 2 * (Script.ofText text).tokens.length + 2 ≤ room) :
    ofTextWithin room text ≠ .error .tooDeep := by
  cases hc : Cursor.ofText text with
  | error err =>
    obtain ⟨fault, -, -, rfl⟩ := Cursor.ofText_eq_error hc
    simp [ofTextWithin, hc, bind, Except.bind]
  | ok c =>
    obtain ⟨r, hr⟩ := Runs.total room (.expression Precedence.none.level) c
    rw [ofTextWithin_eq hc hr]
    intro hdeep
    obtain ⟨d, hd⟩ := Parse.Result.answer_eq_tooDeep.1 hdeep
    have hlt := hr.room_lt hd
    have hlen := congrArg List.length (Cursor.ofText_eq_ok.1 hc).1
    have hend : (if (Script.ofText text).fault?.isNone then [Token.endOfInput] else []).length ≤ 1 := by
      split <;> simp
    simp only [Script.stream, List.length_append, List.length_cons] at hlen
    simp only [Task.need] at hlt
    omega

/-- The text is read as the expression wherever there is room for it, and room for it there is. -/
def Denoted (text : String) (e : Expr) : Prop :=
  (∃ room, ofTextWithin room text = .ok e) ∧
    ∀ room, ofTextWithin room text ≠ .error .tooDeep → ofTextWithin room text = .ok e

theorem denoted_of_ofTextWithin {room : Nat} {text : String} {e : Expr}
    (h : ofTextWithin room text = .ok e) : Denoted text e := by
  refine ⟨⟨room, h⟩, fun room' hdeep => ?_⟩
  have hr : ofTextWithin room text ≠ .error .tooDeep := by simp [h]
  rw [← ofTextWithin_of_le hdeep (Nat.le_max_left room' room),
    ofTextWithin_of_le hr (Nat.le_max_right room' room), h]

end Expr
end Abacus
