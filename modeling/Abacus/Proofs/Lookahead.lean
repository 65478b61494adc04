/-
One token of lookahead.

A run sees its tokens up to the one under the cursor at its end and nothing
behind it: from another cursor with the same tokens up to there it ends in the
same way (`Runs.twin`), whatever other tokens, or fault, come after them. So a text
that begins like one that is read as an expression cannot fail before the two
part (`Expr.end_of_twin`).
-/
import Abacus.Proofs.Room

namespace Abacus

open Parse (advance Result)

/-- Two cursors with the same tokens before them, up to the tails. -/
structure Twins (tail tail' : List Token) (c d : Cursor) : Prop where
  current : d.current = c.current
  consumed : d.consumed = c.consumed
  unread : ∃ shared, c.unread = shared ++ tail ∧ d.unread = shared ++ tail'

/-- The cursor has not moved into the tail, nor has it found that nothing comes after an empty
one. -/
structure Cursor.Before (tail : List Token) (c : Cursor) : Prop where
  length_le : tail.length ≤ c.unread.length
  fault : tail = [] → c.fault? ≠ none

theorem Moves.before {c d : Cursor} {used tail : List Token} (h : Moves c used d)
    (hd : d.Before tail) : c.Before tail where
  length_le := by have := hd.length_le; have := h.unread_length; omega
  fault := by
    intro ht
    rcases h.fault with he | ⟨hn, -⟩
    · rw [← he]; exact hd.fault ht
    · exact absurd hn (hd.fault ht)

theorem Runs.before {room : Nat} {task : Task} {c : Cursor} {r : Result} {tail : List Token}
    (h : Runs room task c r) (hr : r.cursor.Before tail) : c.Before tail := by
  obtain ⟨used, hm, -⟩ := h.moves
  exact hm.before hr

namespace Twins

variable {tail tail' : List Token} {c c' d : Cursor}

/-- Cursors at the first of the same tokens are twins. -/
theorem of_tokens {shared : List Token} (hne : shared ≠ [])
    (hc : c.current :: c.unread = shared ++ tail) (hd : d.current :: d.unread = shared ++ tail')
    (hk : d.consumed = c.consumed) : Twins tail tail' c d := by
  cases shared with
  | nil => exact absurd rfl hne
  | cons first shared =>
    obtain ⟨hcur, hu⟩ := List.cons.inj hc
    obtain ⟨hcur', hu'⟩ := List.cons.inj hd
    exact ⟨hcur'.trans hcur.symm, hk, shared, hu, hu'⟩

theorem advance (h : Twins tail tail' c d) (ha : advance c = .ok () c') (hb : c'.Before tail) :
    ∃ d', Parse.advance d = .ok () d' ∧ Twins tail tail' c' d' := by
  obtain ⟨shared, hc, hd⟩ := h.unread
  unfold Parse.advance at ha
  split at ha <;> cases ha
  next token rest hu =>
    have hlen := hb.length_le
    cases shared with
    | nil =>
      rw [List.nil_append] at hc
      rw [← hc, hu] at hlen
      exact absurd hlen (Nat.not_succ_le_self _)
    | cons first shared =>
      rw [hu, List.cons_append, List.cons.injEq] at hc
      obtain ⟨rfl, rfl⟩ := hc
      refine ⟨⟨token, shared ++ tail', d.fault?, d.consumed + 1⟩, ?_, rfl, ?_, shared, rfl, rfl⟩
      · rw [Parse.advance, hd]; rfl
      · simp [h.consumed]

/-- Before the tail a cursor can be advanced. -/
theorem not_stuck {err : ParseError} (h : Twins tail tail' c d) (ha : Parse.advance c = .error err c')
    (hb : c'.Before tail) : False := by
  obtain ⟨shared, hc, -⟩ := h.unread
  unfold Parse.advance at ha
  split at ha <;> cases ha
  next hu hf => rw [hu] at hc; exact hb.fault (List.nil_eq_append_iff.1 hc).2 rfl
  next hu hf => rw [hu] at hc; exact hb.fault (List.nil_eq_append_iff.1 hc).2 hf

end Twins

namespace Parse.Result

/-- The same end at another cursor. -/
def moveTo (d : Cursor) : Result → Result
  | .ok e _ => .ok e d
  | .error err _ => .error err d

@[simp] theorem cursor_moveTo (d : Cursor) (r : Result) : (moveTo d r).cursor = d := by
  cases r <;> rfl

theorem settled_moveTo {d : Cursor} {r : Result} : (r.moveTo d).Settled ↔ r.Settled := by
  cases r with
  | ok => exact iff_of_true settled_ok settled_ok
  | error => simp only [moveTo, settled_error]

theorem moveTo_build (d : Cursor) (f : Expr → Expr) (r : Result) :
    moveTo d (build f r) = build f (moveTo d r) := by
  cases r <;> rfl

end Parse.Result

open Parse.Result (moveTo moveTo_build)

/-- A run ends in the same way at a twin cursor if it ends before the tail. -/
theorem Runs.twin {tail tail' : List Token} {room : Nat} {task : Task} {c d : Cursor} {r : Result}
    (h : Runs room task c r) (ht : Twins tail tail' c d) (hb : r.cursor.Before tail) :
    ∃ d', Twins tail tail' r.cursor d' ∧ Runs room task d (moveTo d' r) := by
  induction h generalizing d with
  | tooDeep hn => exact ⟨d, ht, .tooDeep hn⟩
  | refused ho => exact ⟨d, ht, by rw [← ht.current] at ho ⊢; exact .refused ho⟩
  | stuck _ ha | closedLast _ ha | operatorLast _ ha => exact (ht.not_stuck ha hb).elim
  | negative hc ha h ih =>
    rw [Result.cursor_build] at hb ⊢
    obtain ⟨d', ha', ht'⟩ := ht.advance ha (h.before hb)
    obtain ⟨d'', ht'', h'⟩ := ih ht' hb
    exact ⟨d'', ht'', by rw [moveTo_build]; exact .negative (ht.current.trans hc) ha' h'⟩
  | number hc ha hl =>
    obtain ⟨d', ha', ht'⟩ := ht.advance ha hb
    exact ⟨d', ht', .number (ht.current.trans hc) ha' (ht'.current ▸ hl)⟩
  | numberTimes hc ha hl h ih =>
    rw [Result.cursor_build] at hb ⊢
    obtain ⟨d', ha', ht'⟩ := ht.advance ha (h.before hb)
    obtain ⟨d'', ht'', h'⟩ := ih ht' hb
    refine ⟨d'', ht'', ?_⟩
    rw [moveTo_build]
    exact .numberTimes (ht.current.trans hc) ha' (ht'.current.trans hl) h'
  | groupFails hc ha h ih =>
    obtain ⟨d', ha', ht'⟩ := ht.advance ha (h.before hb)
    obtain ⟨d'', ht'', h'⟩ := ih ht' hb
    exact ⟨d'', ht'', .groupFails (ht.current.trans hc) ha' h'⟩
  | group hc ha h h₂ ih ih₂ =>
    have hb₂ := h₂.before hb
    obtain ⟨d', ha', ht'⟩ := ht.advance ha (h.before hb₂)
    obtain ⟨d₂, ht₂, h'⟩ := ih ht' hb₂
    obtain ⟨d₃, ht₃, h₂'⟩ := ih₂ ht₂ hb
    exact ⟨d₃, ht₃, .group (ht.current.trans hc) ha' h' h₂'⟩
  | unclosed hc => exact ⟨d, ht, by rw [← ht.current] at hc ⊢; exact .unclosed hc⟩
  | closed hc ha h ih =>
    obtain ⟨d', ha', ht'⟩ := ht.advance ha (h.before hb)
    obtain ⟨d'', ht'', h'⟩ := ih ht' hb
    exact ⟨d'', ht'', .closed (ht.current.trans hc) ha' h'⟩
  | minus hc => exact ⟨d, ht, .minus (ht.current.trans hc)⟩
  | times hc _ ih =>
    obtain ⟨d', ht', h'⟩ := ih ht hb
    exact ⟨d', ht', .times (ht.current ▸ hc) h'⟩
  | alone hc _ hne hd ih =>
    obtain ⟨d', ht', h'⟩ := ih ht hb
    refine ⟨d', ht', .alone (ht.current ▸ hc) h' hne ?_⟩
    rw [ht'.consumed, ht.consumed]; exact hd
  | broken hc _ hd ih =>
    obtain ⟨d', ht', h'⟩ := ih ht hb
    refine ⟨d', ht', .broken (ht.current ▸ hc) h' ?_⟩
    rw [ht'.consumed, ht.consumed]; exact hd
  | noOperand _ ih =>
    obtain ⟨d', ht', h'⟩ := ih ht hb
    exact ⟨d', ht', .noOperand h'⟩
  | operand _ h₂ ih ih₂ =>
    obtain ⟨d', ht', h'⟩ := ih ht (h₂.before hb)
    obtain ⟨d₂, ht₂, h₂'⟩ := ih₂ ht' hb
    exact ⟨d₂, ht₂, .operand h' h₂'⟩
  | stop hx => exact ⟨d, ht, .stop (ht.current ▸ hx)⟩
  | stepFails hx _ ih =>
    obtain ⟨d', ht', h'⟩ := ih ht hb
    exact ⟨d', ht', .stepFails (ht.current ▸ hx) h'⟩
  | step hx _ h₂ ih ih₂ =>
    obtain ⟨d', ht', h'⟩ := ih ht (h₂.before hb)
    obtain ⟨d₂, ht₂, h₂'⟩ := ih₂ ht' hb
    exact ⟨d₂, ht₂, .step (ht.current ▸ hx) h' h₂'⟩
  | noOperator hc => exact ⟨d, ht, by rw [← ht.current] at hc ⊢; exact .noOperator hc⟩
  | operator hc ha h ih =>
    rw [Result.cursor_build] at hb ⊢
    obtain ⟨d', ha', ht'⟩ := ht.advance ha (h.before hb)
    obtain ⟨d'', ht'', h'⟩ := ih ht' hb
    exact ⟨d'', ht'', by rw [moveTo_build]; exact .operator (ht.current.trans hc) ha' h'⟩

/-- A run on a text that begins like one that is read as an expression ends at the end of the input
if it ends before the tail. -/
theorem Expr.end_of_twin {room room' : Nat} {text : String} {c : Cursor} {r : Result} {e : Expr}
    {shared tail tail' : List Token} (hr : Runs room (.expression Precedence.none.level) c r)
    (hs : r.Settled) (hzero : c.consumed = 0) (hc : c.current :: c.unread = shared ++ tail)
    (hne : shared ≠ []) (h' : ofTextWithin room' text = .ok e)
    (hstream : (Script.ofText text).stream = shared ++ tail') (hb : r.cursor.Before tail) :
    r.cursor.current = .endOfInput := by
  obtain ⟨c', d', hc', hr', hd'⟩ := runs_of_ofTextWithin h'
  obtain ⟨htokens, -, hzero'⟩ := Cursor.ofText_eq_ok.1 hc'
  have ht : Twins tail tail' c c' :=
    .of_tokens hne hc (htokens.trans hstream) (hzero'.trans hzero.symm)
  obtain ⟨d, ht, hrun⟩ := hr.twin ht hb
  have heq := hrun.settled_unique hr' (Result.settled_moveTo.2 hs) Result.settled_ok
  obtain rfl : d = d' := by simpa using congrArg Result.cursor heq
  rw [← ht.current, hd']

end Abacus
