/-
Runs and derivations: reading accepts exactly the grammar.

`Runs.sound` says what the tokens that a finished run moved past derive, and
`Derives.reads` that the tokens of a derivation are read to their end, whatever
comes next, if nothing that comes next would have been read along with them.
`Expr.ofTextWithin_eq_ok_iff` puts the two together for texts.
-/
import Abacus.Expr.Grammar
import Abacus.Proofs.Room
import Mathlib.Data.List.Basic

namespace Abacus

open Parse (advance extendsAbove Result)

/-! ## Levels -/

theorem Operator.level_pos (op : Operator) : 0 < op.precedence.level := by cases op <;> decide

theorem Operator.level_lt (op : Operator) : op.precedence.level < 5 := by cases op <;> decide

namespace Parse

/-- The weakest level that an expression above the floor may have. -/
def levelAbove (floor : Int) : Nat := (max 1 (min 5 (floor + 1))).toNat

theorem levelAbove_pos (floor : Int) : 0 < levelAbove floor := by unfold levelAbove; omega

theorem levelAbove_le (floor : Int) : levelAbove floor ≤ 5 := by unfold levelAbove; omega

theorem levelAbove_operator (op : Operator) :
    levelAbove op.precedence.level = op.precedence.level + 1 := by
  cases op <;> rfl

theorem extendsAbove_operator (floor : Int) (op : Operator) :
    extendsAbove floor (.operator op) = true ↔ floor < op.precedence.level := by
  rw [extendsAbove, Bool.and_eq_true, decide_eq_true_iff, decide_eq_true_iff]
  exact and_iff_left Token.noConfusion

/-- Only an operator extends an operand above a floor that is a level. -/
theorem not_extendsAbove {level : Nat} {token : Token}
    (h : ∀ op, token = .operator op → op.precedence.level ≤ level) :
    extendsAbove level token = false := by
  rw [Bool.eq_false_iff]
  cases token with
  | operator op =>
    have := h op rfl
    rw [ne_eq, extendsAbove_operator]; omega
  | number | leftParen | rightParen | endOfInput =>
    rw [ne_eq, extendsAbove, Bool.and_eq_true, decide_eq_true_iff]
    exact fun hlt => absurd (Int.natCast_nonneg level) (Int.not_le.2 hlt.1)

end Parse

namespace Derives

theorem relax {level level' : Nat} {tokens : List Token} {e : Expr} (h : Derives level' tokens e)
    (hpos : 0 < level) (hle : level ≤ level') : Derives level tokens e := by
  obtain ⟨k, rfl⟩ := Nat.exists_eq_add_of_le hle
  clear hle
  induction k with
  | zero => exact h
  | succ k ih => exact ih (.tighter (by omega) h)

theorem ne_nil {level : Nat} {tokens : List Token} {e : Expr} (h : Derives level tokens e) :
    tokens ≠ [] := by
  induction h with
  | tighter _ _ ih => exact ih
  | product _ _ _ ih _ => simp [ih]
  | binary | negative | number | group => simp

theorem level_le {level : Nat} {tokens : List Token} {e : Expr} (h : Derives level tokens e) :
    level ≤ 7 := by
  induction h with
  | tighter _ _ ih => omega
  | @binary op => have := op.level_lt; omega
  | negative | product | number | group => omega

end Derives

/-! ## What a run has read -/

theorem Moves.head {c d : Cursor} {used : List Token} (h : Moves c used d) (hne : used ≠ []) :
    used.head? = some c.current := by
  cases used with
  | nil => exact absurd rfl hne
  | cons token rest => have := h.tokens; simp at this; simp [this.1]

/-- No operator above the level stands here. -/
def Cursor.StopsAt (level : Nat) (c : Cursor) : Prop :=
  ∀ op, c.current = .operator op → op.precedence.level ≤ level

/-- What the tokens derive that a finished task moved past. The parts that are read before the task
begins come with derivations of their own. -/
def Task.Sound (c d : Cursor) (used : List Token) (e : Expr) : Task → Prop
  | primary => Derives 5 used e ∧ (c.current ≠ .operator .subtract → Derives 6 used e)
  | expression floor => Derives (Parse.levelAbove floor) used e ∧ extendsAbove floor d.current = false
  | extension floor left => extendsAbove floor d.current = false ∧
      ∀ before level, Derives level before left → Parse.levelAbove floor ≤ level →
        c.StopsAt level → Derives (Parse.levelAbove floor) (before ++ used) e
  | operation left => ∃ op, c.current = .operator op ∧ d.StopsAt op.precedence.level ∧
      ∀ before, Derives op.precedence.level before left →
        Derives op.precedence.level (before ++ used) e
  | closing group => ∀ before, Derives 1 before group → Derives 6 (.leftParen :: before ++ used) e
  | following group => ∀ before, Derives 7 before group → before.getLast? = some .rightParen →
      Derives 6 (before ++ used) e

theorem Cursor.stopsAt_of_not_extendsAbove {op : Operator} {d : Cursor}
    (h : extendsAbove op.precedence.level d.current = false) : d.StopsAt op.precedence.level := by
  intro op' hd
  rw [hd, Bool.eq_false_iff, ne_eq, Parse.extendsAbove_operator] at h
  omega

theorem Token.apart_of_rightParen {before after : List Token}
    (h : before.getLast? = some .rightParen) : Token.Apart before after := by
  simp [Token.Apart, h, Token.isNumber, Token.kind, Token.label]

theorem Token.apart_of_leftParen {before after : List Token} (h : after.head? = some .leftParen) :
    Token.Apart before after := by
  simp [Token.Apart, h, Token.isNumber, Token.kind, Token.label]

namespace Runs

open Parse

/-- The tokens that a finished run moved past are a derivation of what it read. -/
theorem sound {room : Nat} {task : Task} {c d : Cursor} {e : Expr} {r : Result}
    (h : Runs room task c r) (hr : r = .ok e d) :
    ∃ used, Moves c used d ∧ task.Sound c d used e := by
  induction h generalizing d e with
  | tooDeep | refused | stuck | groupFails | unclosed | closedLast | broken | noOperand
  | stepFails | noOperator | operatorLast => cases hr
  | negative hc ha _ ih =>
    obtain ⟨a, rfl, rfl⟩ := Result.build_eq_ok.1 hr
    obtain ⟨used, hm, hd, -⟩ := ih rfl
    refine ⟨_, (Moves.advance ha).trans hm, ?_, fun hne => absurd hc hne⟩
    rw [hc]
    exact .negative hd
  | number hc ha _ =>
    cases hr
    refine ⟨_, .advance ha, ?_, fun _ => ?_⟩ <;> rw [hc] <;>
      exact Derives.number.relax (by omega) (by omega)
  | @numberTimes room value c d r hc ha hl h ih =>
    obtain ⟨a, rfl, rfl⟩ := Result.build_eq_ok.1 hr
    obtain ⟨used, hm, -, hd⟩ := ih rfl
    have hd := hd (by simp [hl])
    have hp : Derives 6 ([.number value] ++ used) (.binary .multiply (.number value) a) :=
      .product .number hd (Token.apart_of_leftParen (hl ▸ hm.head hd.ne_nil))
    refine ⟨_, (Moves.advance ha).trans hm, ?_, fun _ => ?_⟩ <;> rw [hc]
    · exact hp.relax (by omega) (by omega)
    · exact hp
  | group hc ha _ _ ih ih' =>
    obtain ⟨used, hm, hd, -⟩ := ih rfl
    obtain ⟨more, hm', hd'⟩ := ih' hr
    have hp := hd' used hd
    refine ⟨_, (Moves.advance ha).trans (hm.trans hm'), ?_, fun _ => ?_⟩ <;> rw [hc]
    · exact hp.relax (by omega) (by omega)
    · exact hp
  | closed hc ha _ ih =>
    obtain ⟨used, hm, hd⟩ := ih hr
    refine ⟨_, (Moves.advance ha).trans hm, fun before hb => ?_⟩
    have := hd _ (.group hb) (by simp [List.getLast?_cons, List.getLast?_append])
    simpa [hc] using this
  | minus hc =>
    cases hr
    refine ⟨[], .refl _, fun before hb _ => ?_⟩
    simpa using hb.relax (by omega) (by omega)
  | times hc _ ih =>
    cases hr
    obtain ⟨used, hm, -, hd⟩ := ih rfl
    exact ⟨used, hm, fun before hb hl => .product hb (hd hc) (Token.apart_of_rightParen hl)⟩
  | alone hc h _ hd ih =>
    cases hr
    obtain ⟨used, hm, -⟩ := h.moves
    obtain rfl := hm.nil_of_consumed hd
    refine ⟨[], hm, fun before hb _ => ?_⟩
    simpa using hb.relax (by omega) (by omega)
  | operand _ _ ih ih' =>
    obtain ⟨used, hm, hd, -⟩ := ih rfl
    obtain ⟨more, hm', hstop, hd'⟩ := ih' hr
    exact ⟨_, hm.trans hm', hd' used 5 hd (levelAbove_le _) fun op _ => Nat.le_of_lt op.level_lt, hstop⟩
  | stop hx =>
    cases hr
    refine ⟨[], .refl _, hx, fun before level hb hle _ => ?_⟩
    simpa using hb.relax (levelAbove_pos _) hle
  | @step room floor c _ left longer r hx _ _ ih ih' =>
    obtain ⟨used, hm, op, hop, hstop, hd⟩ := ih rfl
    obtain ⟨more, hm', hstop', hd'⟩ := ih' hr
    refine ⟨_, hm.trans hm', hstop', fun before level hb _ hc => ?_⟩
    have hfloor : levelAbove floor ≤ op.precedence.level := by
      rw [hop, extendsAbove_operator] at hx
      have := op.level_lt; have := op.level_pos
      unfold levelAbove; omega
    rw [← List.append_assoc]
    exact hd' _ _ (hd before (hb.relax op.level_pos (hc op hop))) hfloor hstop
  | @operator room op c d left r hc ha _ ih =>
    obtain ⟨a, rfl, rfl⟩ := Result.build_eq_ok.1 hr
    obtain ⟨used, hm, hd, hstop⟩ := ih rfl
    refine ⟨_, (Moves.advance ha).trans hm, op, hc, Cursor.stopsAt_of_not_extendsAbove hstop,
      fun before hb => ?_⟩
    rw [levelAbove_operator] at hd
    rw [hc]
    exact .binary hb hd

end Runs

/-! ## What is read of a derivation -/

/-- The cursor goes past the tokens one by one. -/
inductive Advances : Cursor → List Token → Cursor → Prop
  | nil {c : Cursor} : Advances c [] c
  | cons {c d d' : Cursor} {tokens : List Token} : advance c = .ok () d → Advances d tokens d' →
      Advances c (c.current :: tokens) d'

namespace Advances

theorem cons_inv {c d' : Cursor} {token : Token} {tokens : List Token}
    (h : Advances c (token :: tokens) d') :
    ∃ d, c.current = token ∧ advance c = .ok () d ∧ Advances d tokens d' := by
  cases h with
  | cons ha h => exact ⟨_, rfl, ha, h⟩

theorem append_inv {c d : Cursor} {first rest : List Token} (h : Advances c (first ++ rest) d) :
    ∃ m, Advances c first m ∧ Advances m rest d := by
  induction first generalizing c with
  | nil => exact ⟨c, .nil, h⟩
  | cons token first ih =>
    obtain ⟨c', rfl, ha, h'⟩ := cons_inv h
    obtain ⟨m, hm, hr⟩ := ih h'
    exact ⟨m, .cons ha hm, hr⟩

theorem nil_inv {c d : Cursor} (h : Advances c [] d) : c = d := by cases h; rfl

theorem head {c d : Cursor} {tokens : List Token} (h : Advances c tokens d) (hne : tokens ≠ []) :
    tokens.head? = some c.current := by
  cases h with
  | nil => exact absurd rfl hne
  | cons => rfl

/-- A cursor goes past all tokens but the last. -/
theorem of_tokens {c : Cursor} {tokens rest : List Token} {token : Token}
    (h : c.current :: c.unread = tokens ++ token :: rest) :
    Advances c tokens ⟨token, rest, c.fault?, c.consumed + tokens.length⟩ := by
  induction tokens generalizing c with
  | nil =>
    obtain ⟨rfl, rfl⟩ : c.current = token ∧ c.unread = rest := by simpa using h
    exact .nil
  | cons first tokens ih =>
    obtain ⟨rfl, hu⟩ : c.current = first ∧ c.unread = tokens ++ token :: rest := by simpa using h
    cases hn : tokens ++ token :: rest with
    | nil => simp at hn
    | cons next more =>
      have ha : advance c = .ok () ⟨next, more, c.fault?, c.consumed + 1⟩ := by
        rw [advance, hu, hn]
      have := ih (c := ⟨next, more, c.fault?, c.consumed + 1⟩) hn.symm
      refine .cons ha ?_
      rw [List.length_cons, Nat.add_comm tokens.length, ← Nat.add_assoc]
      exact this

end Advances

namespace Derives

/-- The products of level 6 begin with an atom. -/
theorem head_of_le {level : Nat} {tokens : List Token} {e : Expr} (h : Derives level tokens e)
    (hle : 6 ≤ level) :
    tokens.head? = some .leftParen ∨ ∃ value, tokens.head? = some (.number value) := by
  induction h with
  | tighter _ _ ih => exact ih (by omega)
  | @binary op => have := op.level_lt; omega
  | negative => omega
  | product _ _ _ ih _ =>
    rw [List.head?_append]
    rcases ih (by omega) with hl | ⟨value, hn⟩
    · simp [hl]
    · simp [hn]
  | number => exact .inr ⟨_, rfl⟩
  | group => exact .inl rfl

end Derives

/-- An operand ends before this token: none that it could multiply begins here. -/
def Cursor.Divides (c : Cursor) : Prop := c.current.opens = true → c.current = .operator .subtract

theorem Cursor.divides_of_operator {c : Cursor} {op : Operator} (h : c.current = .operator op) :
    c.Divides := by
  intro ho
  rw [h] at ho ⊢
  cases op <;> first | rfl | cases ho

open Parse in
/-- How the tokens of a derivation are read where something follows them. What comes after an
operand is left to the rest of the run. -/
structure Reads (level : Nat) (tokens : List Token) (e : Expr) : Prop where
  atom : level = 7 → (∃ value, tokens = [.number value] ∧ e = .number value) ∨
    ∀ {room c d r}, 2 * tokens.length ≤ room + 1 → Advances c tokens d →
      Runs room (.following e) d r → Runs (room + 1) .primary c r
  primary : 5 ≤ level → ∀ {room c d}, 2 * tokens.length ≤ room → Advances c tokens d →
    d.Divides → Runs room .primary c (.ok e d)
  expression : ∀ {room floor c d r}, 2 * tokens.length ≤ room → Advances c tokens d → d.Divides →
    d.StopsAt level → floor < level ∨ 5 ≤ level → Runs room (.extension floor e) d r →
      Runs (room + 1) (.expression floor) c r

namespace Reads

theorem of_primary {level : Nat} {tokens : List Token} {e : Expr} (hlt : level < 7)
    (h : ∀ {room c d}, 2 * tokens.length ≤ room → Advances c tokens d → d.Divides →
      Runs room .primary c (.ok e d)) : Reads level tokens e where
  atom := by omega
  primary := fun _ => h
  expression := fun hroom ha hd _ _ hx => .operand (h hroom ha hd) hx

theorem tighter {level : Nat} {tokens : List Token} {e : Expr} (hlt : level < 7)
    (h : Reads (level + 1) tokens e) : Reads level tokens e where
  atom := by omega
  primary := fun hle => h.primary (by omega)
  expression := fun hroom ha hd hs hf hx => h.expression hroom ha hd
    (fun op hop => Nat.le_succ_of_le (hs op hop)) (by omega) hx

theorem number {value : Binary64} : Reads 7 [.number value] (.number value) := by
  have hp : ∀ {room c d}, 2 * [Token.number value].length ≤ room →
      Advances c [.number value] d → d.Divides → Runs room .primary c (.ok (.number value) d) := by
    intro room c d hroom h hd
    obtain ⟨d, hc, ha, h⟩ := h.cons_inv
    obtain rfl := h.nil_inv
    obtain ⟨k, rfl⟩ := Nat.exists_eq_add_of_lt (show 0 < room by simp at hroom; omega)
    exact .number hc ha fun hl => by simp [Cursor.Divides, hl, Token.opens] at hd
  exact ⟨fun _ => .inl ⟨value, rfl, rfl⟩, fun _ => hp,
    fun hroom ha hd _ _ hx => .operand (hp hroom ha hd) hx⟩

/-- A group alone, when nothing is to be multiplied behind it. -/
theorem following_alone {room : Nat} {c : Cursor} {e : Expr} (h : c.Divides) :
    Runs (room + 1) (.following e) c (.ok e c) := by
  by_cases hc : c.current = .operator .subtract
  · exact .minus hc
  · have ho : c.current.opens = false := by
      rw [Bool.eq_false_iff]; exact fun ho => hc (h ho)
    exact .alone hc (.refused ho) (by simp) rfl

theorem group {tokens : List Token} {e : Expr} (h : Reads 1 tokens e) :
    Reads 7 (.leftParen :: (tokens ++ [.rightParen])) e := by
  have hatom : ∀ {room c d r},
      2 * (Token.leftParen :: (tokens ++ [Token.rightParen])).length ≤ room + 1 →
      Advances c (.leftParen :: (tokens ++ [Token.rightParen])) d → Runs room (.following e) d r →
      Runs (room + 1) .primary c r := by
    intro room c d r hroom hadv hf
    obtain ⟨c', hc, ha, hadv⟩ := hadv.cons_inv
    obtain ⟨m, hm, hadv⟩ := hadv.append_inv
    obtain ⟨d, hr, ha', hadv⟩ := hadv.cons_inv
    obtain rfl := hadv.nil_inv
    simp only [List.length_cons, List.length_append, List.length_nil] at hroom
    obtain ⟨k, rfl⟩ := Nat.exists_eq_add_of_lt (show 0 < room by omega)
    have hno : ∀ op, m.current ≠ .operator op := by simp [hr]
    refine .group hc ha (h.expression (by omega) hm ?_ (fun op hop => absurd hop (hno op))
      (.inl (by decide)) (.stop ?_)) (.closed hr ha' hf)
    · simp [Cursor.Divides, hr, Token.opens]
    · exact Parse.not_extendsAbove fun op hop => absurd hop (hno op)
  have hp : ∀ {room c d}, 2 * (Token.leftParen :: (tokens ++ [Token.rightParen])).length ≤ room →
      Advances c (.leftParen :: (tokens ++ [Token.rightParen])) d → d.Divides →
      Runs room .primary c (.ok e d) := by
    intro room c d hroom hadv hd
    have hlen : 4 ≤ room := by simp at hroom; omega
    obtain ⟨k, rfl⟩ := Nat.exists_eq_add_of_le' hlen
    exact hatom (by omega) hadv (following_alone hd)
  exact ⟨fun _ => .inr hatom, fun _ => hp,
    fun hroom ha hd _ _ hx => .operand (hp hroom ha hd) hx⟩

theorem negative {tokens : List Token} {e : Expr} (h : Reads 5 tokens e) :
    Reads 5 (.operator .subtract :: tokens) (.negative e) := by
  refine of_primary (by omega) fun {room c d} hroom hadv hd => ?_
  obtain ⟨c', hc, ha, hadv⟩ := hadv.cons_inv
  simp only [List.length_cons] at hroom
  obtain ⟨k, rfl⟩ := Nat.exists_eq_add_of_le' (show 2 ≤ room by omega)
  have hx : extendsAbove Precedence.negation.level d.current = false :=
    Parse.not_extendsAbove fun op _ => Nat.le_of_lt op.level_lt
  exact .negative (r := .ok e d) hc ha (h.expression (by omega) hadv hd
    (fun op _ => Nat.le_of_lt op.level_lt) (.inr (Nat.le_refl 5)) (.stop hx))

theorem product {before after : List Token} {left right : Expr} (hb : Derives 7 before left)
    (hab : Derives 6 after right) (hapart : Token.Apart before after) (h : Reads 7 before left)
    (h' : Reads 6 after right) : Reads 6 (before ++ after) (.binary .multiply left right) := by
  refine of_primary (by omega) fun {room c d} hroom hadv hd => ?_
  obtain ⟨m, hm, hadv⟩ := hadv.append_inv
  have hne := List.length_pos_iff.2 hb.ne_nil
  simp only [List.length_append] at hroom
  obtain ⟨k, rfl⟩ := Nat.exists_eq_add_of_lt (show 0 < room by omega)
  have hp : Runs (0 + k) .primary m (.ok right d) := h'.primary (by omega) (by omega) hadv hd
  have hhead := hadv.head hab.ne_nil
  rcases h.atom rfl with ⟨value, rfl, rfl⟩ | hatom
  · obtain ⟨d', hc, ha, hm⟩ := hm.cons_inv
    obtain rfl := hm.nil_inv
    have hl : d'.current = .leftParen := by
      rcases hab.head_of_le (by omega) with hl | ⟨value', hn⟩
      · simpa [hhead] using hl
      · simp [Token.Apart, hn, Token.isNumber, Token.kind, Token.label] at hapart
    exact .numberTimes (r := .ok right d) hc ha hl hp
  · refine hatom (by omega) hm (.times ?_ hp)
    rcases hab.head_of_le (by omega) with hl | ⟨value', hn⟩
    · rw [hl, Option.some.injEq] at hhead; simp [← hhead]
    · rw [hn, Option.some.injEq] at hhead; simp [← hhead]

theorem binary {op : Operator} {before after : List Token} {left right : Expr}
    (h : Reads op.precedence.level before left)
    (h' : Reads (op.precedence.level + 1) after right) :
    Reads op.precedence.level (before ++ .operator op :: after) (.binary op left right) := by
  have hlt := op.level_lt
  refine ⟨by omega, by omega, fun {room floor c d r} hroom hadv hd hs hf hx => ?_⟩
  obtain ⟨m, hm, hadv⟩ := hadv.append_inv
  obtain ⟨m', hop, ha, hadv⟩ := hadv.cons_inv
  simp only [List.length_append, List.length_cons] at hroom
  obtain ⟨k, rfl⟩ := Nat.exists_eq_add_of_le' (show 2 ≤ room by omega)
  have hright : Runs (k + 1) (.expression op.precedence.level) m' (.ok right d) :=
    h'.expression (by omega) hadv hd (fun op' hop' => Nat.le_succ_of_le (hs op' hop'))
      (.inl (by omega)) (.stop (Parse.not_extendsAbove hs))
  have hext : extendsAbove floor m.current = true := by
    rw [hop, Parse.extendsAbove_operator]; omega
  refine h.expression (by omega) hm (Cursor.divides_of_operator hop) ?_ hf
    (.step hext (.operator (r := .ok right d) hop ha hright) hx)
  intro op' hop'
  rw [hop] at hop'
  cases hop'
  exact Nat.le_refl _

end Reads

theorem Derives.reads {level : Nat} {tokens : List Token} {e : Expr} (h : Derives level tokens e) :
    Reads level tokens e := by
  induction h with
  | tighter _ h ih => have := h.level_le; exact ih.tighter (by omega)
  | binary _ _ ih ih' => exact ih.binary ih'
  | negative _ ih => exact ih.negative
  | product hb ha hapart ih ih' => exact .product hb ha hapart ih ih'
  | number => exact .number
  | group _ ih => exact ih.group

/-! ## Texts -/

/-- A text in whose stream the end of the input stands has no fault, and its tokens are those that
come first. -/
theorem Script.tokens_of_stream {text : String} {used rest : List Token}
    (h : (Script.ofText text).stream = used ++ .endOfInput :: rest) :
    (Script.ofText text).fault? = none ∧ (Script.ofText text).tokens = used := by
  have hs := Script.end_notMem_tokens text
  cases hf : (Script.ofText text).fault? with
  | some fault =>
    simp only [Script.stream, hf, Option.isNone_some, Bool.false_eq_true, if_false,
      List.append_nil] at h
    simp [h] at hs
  | none =>
    simp only [Script.stream, hf, Option.isNone_none, if_true] at h
    exact ⟨rfl, ((List.append_cons_inj_of_notMem hs (by simp)).1 h).1⟩

/-- An expression read of a text is derived by all the tokens of the text, which has no fault. -/
theorem Expr.derives_of_ofTextWithin {room : Nat} {text : String} {e : Expr}
    (h : Expr.ofTextWithin room text = .ok e) :
    (Script.ofText text).fault? = none ∧ Derives 1 (Script.ofText text).tokens e := by
  obtain ⟨c, d, hc, hr, hd⟩ := runs_of_ofTextWithin h
  obtain ⟨used, hm, hs, -⟩ := hr.sound rfl
  have ht := hm.tokens
  rw [(Cursor.ofText_eq_ok.1 hc).1, hd] at ht
  obtain ⟨hf, hu⟩ := Script.tokens_of_stream ht
  exact ⟨hf, hu ▸ hs⟩

/-- The tokens of a derivation are read with a room of two calls for each of them. -/
theorem Expr.ofTextWithin_of_derives {room : Nat} {text : String} {e : Expr}
    (hf : (Script.ofText text).fault? = none) (h : Derives 1 (Script.ofText text).tokens e)
    (hroom : 2 * (Script.ofText text).tokens.length < room) :
    Expr.ofTextWithin room text = .ok e := by
  cases hc : Cursor.ofText text with
  | error err =>
    obtain ⟨fault, ht, -⟩ := Cursor.ofText_eq_error hc
    exact absurd ht h.ne_nil
  | ok c =>
    obtain ⟨k, rfl⟩ := Nat.exists_eq_add_of_lt hroom
    have ht : c.current :: c.unread = (Script.ofText text).tokens ++ Token.endOfInput :: [] := by
      rw [(Cursor.ofText_eq_ok.1 hc).1, Script.stream, hf]; rfl
    have hadv := Advances.of_tokens ht
    let d : Cursor := ⟨.endOfInput, [], c.fault?, c.consumed + (Script.ofText text).tokens.length⟩
    have hno : ∀ {P : Prop} (op : Operator), d.current = .operator op → P := fun _ h => by cases h
    have hx : extendsAbove Precedence.none.level d.current = false :=
      Parse.not_extendsAbove fun op hop => hno op hop
    have hr : Runs (2 * (Script.ofText text).tokens.length + k + 1)
        (.expression Precedence.none.level) c (.ok e d) :=
      h.reads.expression (by omega) hadv (fun ho => by cases ho) (fun op hop => hno op hop)
        (.inl (by decide)) (.stop hx)
    rw [Expr.ofTextWithin_eq hc hr]
    rfl

theorem Expr.ofTextWithin_of_derives_of_ne {room : Nat} {text : String} {e : Expr}
    (hf : (Script.ofText text).fault? = none) (h : Derives 1 (Script.ofText text).tokens e)
    (hdeep : Expr.ofTextWithin room text ≠ .error .tooDeep) :
    Expr.ofTextWithin room text = .ok e := by
  rw [← ofTextWithin_of_le hdeep (Nat.le_max_left room _)]
  exact ofTextWithin_of_derives hf h (Nat.lt_of_lt_of_le (Nat.lt_succ_self _) (Nat.le_max_right _ _))

/-- **Reading accepts exactly the grammar.** Unless there is no room for it, a text is read as an
expression exactly if it has no fault and its tokens derive that expression; and there is room
for every text with two calls for each token and two more. -/
theorem Expr.ofTextWithin_eq_ok_iff (text : String) :
    (∀ room e, Expr.ofTextWithin room text = .ok e ↔
      Expr.ofTextWithin room text ≠ .error .tooDeep ∧ (Script.ofText text).fault? = none ∧
        Derives 1 (Script.ofText text).tokens e) ∧
    ∀ room, 2 * (Script.ofText text).tokens.length + 2 ≤ room →
      Expr.ofTextWithin room text ≠ .error .tooDeep := by
  refine ⟨fun room e => ⟨fun h => ?_, fun ⟨hdeep, hf, h⟩ => ?_⟩, fun room => ?_⟩
  · exact ⟨by simp [h], derives_of_ofTextWithin h⟩
  · exact ofTextWithin_of_derives_of_ne hf h hdeep
  · exact ofTextWithin_ne_tooDeep

end Abacus
