/-
Where a session stands.

Every computation of a call only moves the cursor forward (`Forward`), and a
forward move keeps the place of the cursor in the stream of its text: what is
current stands there at the count of the tokens consumed, and what is unread
comes right behind (`Stands`). So no call, whether it fails or not, and no
sequence of calls skips, repeats or rereads a token (`position_kept`).
-/
import Abacus.Proofs.Run
import Abacus.Session
import Mathlib.Order.Basic

namespace Abacus

/-! ## Forward computations -/

namespace Parse

/-- Wherever the computation begins, it ends behind some of the tokens there. -/
def Forward {α : Type} (p : Parse α) : Prop :=
  ∀ c, ∃ used d, Moves c used d ∧ ((∃ a, p c = .ok a d) ∨ ∃ err, p c = .error err d)

namespace Forward

variable {α β : Type}

theorem pure (a : α) : Forward (Pure.pure a : Parse α) :=
  fun c => ⟨[], c, .refl c, .inl ⟨a, rfl⟩⟩

theorem throw (err : ParseError) : Forward (MonadExcept.throw err : Parse α) :=
  fun c => ⟨[], c, .refl c, .inr ⟨err, rfl⟩⟩

theorem current : Forward current := fun c => ⟨[], c, .refl c, .inl ⟨_, rfl⟩⟩

theorem bind {p : Parse α} {f : α → Parse β} (h : Forward p) (h' : ∀ a, Forward (f a)) :
    Forward (p >>= f) := by
  intro c
  obtain ⟨used, d, hm, ⟨a, hp⟩ | ⟨err, hp⟩⟩ := h c
  · obtain ⟨more, d', hm', hf⟩ := h' a d
    exact ⟨_, d', hm.trans hm', by rwa [bind_ok hp]⟩
  · exact ⟨used, d, hm, .inr ⟨err, bind_error hp⟩⟩

theorem map {p : Parse α} (f : α → β) (h : Forward p) : Forward (f <$> p) := by
  intro c
  obtain ⟨used, d, hm, ⟨a, hp⟩ | ⟨err, hp⟩⟩ := h c
  · exact ⟨used, d, hm, .inl ⟨f a, by simp only [Functor.map, EStateM.map, hp]⟩⟩
  · exact ⟨used, d, hm, .inr ⟨err, by simp only [Functor.map, EStateM.map, hp]⟩⟩

theorem advance : Forward advance := by
  intro c
  cases ha : Parse.advance c with
  | ok a d => exact ⟨_, d, .advance ha, .inl ⟨a, rfl⟩⟩
  | error err d => exact ⟨_, d, .stuck ha, .inr ⟨err, rfl⟩⟩

theorem expect (kind : Kind) : Forward (expect kind) := by
  refine current.bind fun token => ?_
  split
  · exact advance
  · exact throw _

/-- Every task of a reading moves forward. -/
theorem run (room spare : Nat) (task : Task) : Forward (task.run room spare) := by
  intro c
  obtain ⟨r, hr⟩ := Runs.total room task c
  obtain ⟨used, hm, -⟩ := hr.moves
  refine ⟨used, r.cursor, hm, ?_⟩
  rw [hr.eq_run spare]
  cases r with
  | ok e d => exact .inl ⟨e, rfl⟩
  | error err d => exact .inr ⟨err, rfl⟩

theorem whole (room : Nat) : Forward (whole room) := by
  refine bind (run room 0 (.expression Precedence.none.level)) fun e => current.bind fun token => ?_
  split
  · exact pure e
  · exact throw _

end Forward
end Parse

/-! ## Sessions -/

namespace Session

open Parse (Forward)

theorem reading_forward (room : Nat) (session : Session) (call : Call) :
    Forward (session.reading room call) := by
  cases call with
  | whole =>
    rw [reading]
    split
    · exact .throw _
    · exact .map _ (.whole room)
  | advance => exact Forward.advance.bind fun _ => .pure none
  | expect kind => exact (Forward.expect kind).bind fun _ => .pure none
  | primary => exact .map _ (.run room 0 .primary)
  | expression floor => exact .map _ (.run room 0 (.expression floor))
  | operation left => exact .map _ (.run room 0 (.operation left))

/-- The cursor of a call's reply is where the call's computation left it. -/
theorem cursor_performWithin (room : Nat) (session : Session) (call : Call) :
    (session.performWithin room call).session.cursor =
      (session.visit (session.reading room call)).2.cursor := by
  unfold performWithin
  split
  split <;> simp [*]

/-- A call moves the cursor forward, also if it fails. -/
theorem moves_performWithin (room : Nat) (session : Session) (call : Call) :
    ∃ used, Moves session.cursor used (session.performWithin room call).session.cursor := by
  obtain ⟨used, d, hm, hp⟩ := reading_forward room session call session.cursor
  refine ⟨used, ?_⟩
  rw [cursor_performWithin, visit]
  rcases hp with ⟨a, hp⟩ | ⟨err, hp⟩ <;> rw [hp] <;> exact hm

end Session

/-! ## Positions -/

/-- The cursor stands in the stream at the count of the tokens consumed, with nothing lost behind
it. -/
def Cursor.Stands (stream : List Token) (c : Cursor) : Prop :=
  stream.drop c.consumed = c.current :: c.unread

namespace Cursor.Stands

variable {stream used : List Token} {c d : Cursor}

theorem moves (h : c.Stands stream) (hm : Moves c used d) : d.Stands stream := by
  unfold Stands at *
  rw [hm.consumed, ← List.drop_drop, h, hm.tokens, List.drop_left]

theorem consumed_lt (h : c.Stands stream) : c.consumed < stream.length := by
  have := congrArg List.length h
  simp only [List.length_drop, List.length_cons] at this
  omega

theorem getElem? (h : c.Stands stream) : stream[c.consumed]? = some c.current := by
  rw [← List.head?_drop, h]; rfl

theorem unread (h : c.Stands stream) : stream.drop (c.consumed + 1) = c.unread := by
  rw [← List.tail_drop, h]; rfl

end Cursor.Stands

namespace Session

theorem stands_ofText {text : String} {session : Session} (h : ofText text = .ok session) :
    session.cursor.Stands (Script.ofText text).stream := by
  obtain ⟨c, hc, rfl⟩ : ∃ c, Cursor.ofText text = .ok c ∧ session = ⟨text, c, false⟩ := by
    cases hc : Cursor.ofText text with
    | error err => rw [ofText, hc] at h; cases h
    | ok c => rw [ofText, hc] at h; exact ⟨c, rfl, (Except.ok.inj h).symm⟩
  obtain ⟨htokens, -, hzero⟩ := Cursor.ofText_eq_ok.1 hc
  rw [Cursor.Stands, hzero, List.drop_zero, ← htokens]

theorem stands_after {stream : List Token} {session : Session} (h : session.cursor.Stands stream)
    (calls : List (Nat × Call)) : (session.after calls).cursor.Stands stream := by
  induction calls generalizing session with
  | nil => exact h
  | cons call calls ih =>
    obtain ⟨used, hm⟩ := moves_performWithin call.1 session call.2
    exact ih (h.moves hm)

/-- **No sequence of calls loses its place.** Let any calls follow each other in a session on a
text, in any order and each with any room, whether they fail or not. The current token is then the
one that stands in the text's stream behind as many tokens as have been consumed, and the unread
ones are all that come after it; a further call never takes the count back. -/
theorem position_kept {text : String} {start : Session} (h : ofText text = .ok start)
    (calls : List (Nat × Call)) :
    let stream := (Script.ofText text).stream
    let session := start.after calls
    (session.cursor.consumed < stream.length ∧
      stream[session.cursor.consumed]? = some session.cursor.current ∧
      stream.drop (session.cursor.consumed + 1) = session.cursor.unread) ∧
    ∀ room call,
      session.cursor.consumed ≤ (session.performWithin room call).session.cursor.consumed := by
  have hs := stands_after (stands_ofText h) calls
  refine ⟨⟨hs.consumed_lt, hs.getElem?, hs.unread⟩, fun room call => ?_⟩
  obtain ⟨used, hm⟩ := moves_performWithin room (start.after calls) call
  rw [hm.consumed]
  exact Nat.le_add_right _ _

/-- The number behind the group takes its fault with it, so the whole fails there; so do the calls
after it. -/
theorem position_kept_lost_fault :
    let start : Session := ⟨"(1)3@", ⟨.leftParen, [.number .one, .rightParen, .number (.ofInt 3)],
      some (.invalidCharacter '@' 4), 0⟩, false⟩
    ofText "(1)3@" = .ok start ∧
      (Script.ofText "(1)3@").stream[
        (start.after [(9, .whole), (9, .advance), (0, .expression (-1))]).cursor.consumed]? =
          some (start.after [(9, .whole), (9, .advance), (0, .expression (-1))]).cursor.current := by
  intro start
  have h : ofText "(1)3@" = .ok start := by decide +kernel
  exact ⟨h, (position_kept h [(9, .whole), (9, .advance), (0, .expression (-1))]).1.2.1⟩

end Session
end Abacus
