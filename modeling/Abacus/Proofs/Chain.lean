/-
What is read above a floor.

An expression above a floor is a chain: an operand, and then links, each an
operator above the floor with what is read above the operator behind it. The
tree is the operand with the links applied one after the other, so operators of
one strength group to the left. `Runs.chain` takes a finished run apart into its
links, `Chain.runs` puts them together again, and `Derives.outerOperators` says
which binary operators a part has outside of its parentheses: those of its level
and tighter ones.
-/
import Abacus.Proofs.Derivation

namespace Abacus

open Parse (advance extendsAbove Result)

/-! ## Operators outside of parentheses -/

/-- The binary operators that stand outside of all parentheses, with `depth` of them open before the
tokens. An operator is binary where an operand ends before it; otherwise it is a sign. -/
def outerOperators : (behindOperand : Bool) → (depth : Nat) → List Token → List Operator
  | _, _, [] => []
  | _, depth, .number _ :: rest => outerOperators true depth rest
  | _, depth, .leftParen :: rest => outerOperators false (depth + 1) rest
  | _, depth, .rightParen :: rest => outerOperators true (depth - 1) rest
  | behindOperand, depth, .operator op :: rest =>
    (if behindOperand && depth = 0 then [op] else []) ++ outerOperators false depth rest
  | _, depth, .endOfInput :: rest => outerOperators false depth rest

theorem outerOperators_nil (behindOperand : Bool) (depth : Nat) :
    outerOperators behindOperand depth [] = [] := rfl

theorem outerOperators_operator (behindOperand : Bool) (depth : Nat) (op : Operator)
    (rest : List Token) : outerOperators behindOperand depth (.operator op :: rest) =
      (if behindOperand && depth = 0 then [op] else []) ++ outerOperators false depth rest := rfl

theorem outerOperators_leftParen (behindOperand : Bool) (depth : Nat) (rest : List Token) :
    outerOperators behindOperand depth (.leftParen :: rest) =
      outerOperators false (depth + 1) rest := rfl

theorem outerOperators_rightParen (behindOperand : Bool) (depth : Nat) (rest : List Token) :
    outerOperators behindOperand (depth + 1) (.rightParen :: rest) =
      outerOperators true depth rest := rfl

/-- The tokens of a level are an operand to whatever comes after them, and outside of parentheses
they have no binary operators but those of the level and tighter ones. -/
theorem Derives.outerOperators {level : Nat} {tokens : List Token} {e : Expr}
    (h : Derives level tokens e) (behindOperand : Bool) (hb : behindOperand = true → 6 ≤ level)
    (depth : Nat) (rest : List Token) : ∃ ops,
      outerOperators behindOperand depth (tokens ++ rest) = ops ++ outerOperators true depth rest ∧
      ∀ op ∈ ops, depth = 0 ∧ level ≤ op.precedence.level := by
  induction h generalizing behindOperand depth rest with
  | tighter _ _ ih =>
    obtain ⟨ops, hops, hall⟩ := ih behindOperand (fun h => Nat.le_succ_of_le (hb h)) depth rest
    exact ⟨ops, hops, fun op hm => ⟨(hall op hm).1, Nat.le_of_succ_le (hall op hm).2⟩⟩
  | @binary op before after left right _ _ ih ih' =>
    obtain ⟨ops, hops, hall⟩ := ih behindOperand hb depth (.operator op :: after ++ rest)
    obtain ⟨more, hmore, hall'⟩ := ih' false (by simp) depth rest
    refine ⟨ops ++ (if depth = 0 then [op] else []) ++ more, ?_, fun op' hm => ?_⟩
    · rw [List.append_assoc, hops, List.cons_append, outerOperators_operator, hmore]
      simp
    · simp only [List.mem_append] at hm
      obtain (hm | hm) | hm := hm
      · exact hall op' hm
      · by_cases hd : depth = 0
        · simp only [hd, if_true, List.mem_singleton] at hm
          simp [hd, hm]
        · simp [hd] at hm
      · exact ⟨(hall' op' hm).1, Nat.le_of_succ_le (hall' op' hm).2⟩
  | negative _ ih =>
    have hsign : behindOperand = false := by
      rw [← Bool.not_eq_true]
      exact fun h => absurd (hb h) (by omega)
    subst hsign
    exact ih false (by simp) depth rest
  | @product before after left right _ hr _ ih ih' =>
    obtain ⟨ops, hops, hall⟩ := ih behindOperand (fun _ => by omega) depth (after ++ rest)
    obtain ⟨more, hmore, hall'⟩ := ih' true (by simp) depth rest
    refine ⟨ops ++ more, ?_, fun op hm => ?_⟩
    · rw [List.append_assoc, hops, hmore, List.append_assoc]
    · obtain hm | hm := List.mem_append.1 hm
      · exact ⟨(hall op hm).1, Nat.le_of_succ_le (hall op hm).2⟩
      · exact hall' op hm
  | number => exact ⟨[], rfl, by simp⟩
  | @group tokens e _ ih =>
    obtain ⟨ops, hops, hall⟩ := ih false (by simp) (depth + 1) (.rightParen :: rest)
    have hnil : ops = [] := by
      rw [List.eq_nil_iff_forall_not_mem]
      exact fun op hm => absurd (hall op hm).1 (by omega)
    refine ⟨[], ?_, by simp⟩
    rw [List.cons_append, List.append_assoc, outerOperators_leftParen, List.singleton_append, hops,
      hnil, outerOperators_rightParen]

/-- The sign and the sum in parentheses are not among them. -/
example : outerOperators false 0
    [.operator .subtract, .number .one, .operator .multiply, .leftParen, .number .one,
      .operator .add, .number .one, .rightParen, .operator .subtract, .number .one] =
      [.multiply, .subtract] := rfl

theorem Derives.level_le_of_mem {level : Nat} {tokens : List Token} {e : Expr}
    (h : Derives level tokens e) {op : Operator}
    (hm : op ∈ Abacus.outerOperators false 0 tokens) : level ≤ op.precedence.level := by
  obtain ⟨ops, hops, hall⟩ := h.outerOperators false (by simp) 0 []
  rw [outerOperators_nil, List.append_nil, List.append_nil] at hops
  rw [hops] at hm
  exact (hall op hm).2

/-- Outside of parentheses, what is read above an operator has only tighter binary operators. -/
theorem Task.Sound.outerOperators_of_operator {op : Operator} {c d : Cursor} {tokens : List Token}
    {e : Expr} (h : (Task.expression op.precedence.level).Sound c d tokens e) :
    ∀ op' ∈ outerOperators false 0 tokens, op.precedence.level < op'.precedence.level := by
  obtain ⟨hd, -⟩ := h
  rw [Parse.levelAbove_operator] at hd
  exact fun op' hm => hd.level_le_of_mem hm

/-- An operand has no binary operators outside of parentheses. -/
theorem Task.Sound.outerOperators_of_primary {c d : Cursor} {tokens : List Token} {e : Expr}
    (h : Task.primary.Sound c d tokens e) : outerOperators false 0 tokens = [] := by
  obtain ⟨hd, -⟩ := h
  rw [List.eq_nil_iff_forall_not_mem]
  intro op hm
  exact absurd op.level_lt (Nat.not_lt.2 (hd.level_le_of_mem hm))

/-! ## Links -/

/-- An operator, with the tokens behind it and what is read of them. -/
structure Link where
  op : Operator
  tokens : List Token
  right : Expr

namespace Link

/-- All tokens of a link. -/
def span (link : Link) : List Token := .operator link.op :: link.tokens

/-- An operand with links behind it. -/
def apply (operand : Expr) (links : List Link) : Expr :=
  links.foldl (fun left link => .binary link.op left link.right) operand

end Link

/-- The links lead from one cursor to another: each has its operator above the floor, and all that
is read above the operator behind it. -/
inductive Chain (room : Nat) (floor : Int) : Cursor → List Link → Cursor → Prop
  | nil {c : Cursor} : Chain room floor c [] c
  | cons {c c' m d : Cursor} {link : Link} {links : List Link} :
      c.current = .operator link.op → floor < link.op.precedence.level → advance c = .ok () c' →
      Parse.expression room link.op.precedence.level c' = .ok link.right m →
      Moves c' link.tokens m → Chain room floor m links d → Chain room floor c (link :: links) d

namespace Chain

variable {room : Nat} {floor : Int} {c d : Cursor} {links : List Link}

theorem moves (h : Chain room floor c links d) : Moves c (links.flatMap Link.span) d := by
  induction h with
  | nil => exact .refl _
  | cons hc _ ha _ hm _ ih =>
    have := (Moves.advance ha).trans (hm.trans ih)
    rw [hc] at this
    simpa [Link.span] using this

/-- The operators of a chain are above the floor, and what follows one has no binary operators
outside of parentheses but tighter ones. -/
theorem operators (h : Chain room floor c links d) : ∀ link ∈ links,
    floor < link.op.precedence.level ∧ ∀ op ∈ outerOperators false 0 link.tokens,
      link.op.precedence.level < op.precedence.level := by
  induction h with
  | nil => simp
  | @cons _ c' m _ link _ _ hfloor _ he hm _ ih =>
    have hrun : Runs room (.expression link.op.precedence.level) c' (.ok link.right m) :=
      Runs.iff_run.2 he
    obtain ⟨used, hm', hs⟩ := hrun.sound rfl
    obtain rfl := hm'.unique hm
    simp only [List.mem_cons, forall_eq_or_imp]
    exact ⟨⟨hfloor, hs.outerOperators_of_operator⟩, ih⟩

/-- A chain that nothing extends is read as one extension. -/
theorem runs (h : Chain room floor c links d) (hstop : extendsAbove floor d.current = false)
    (left : Expr) :
    Runs (room + 1) (.extension floor left) c (.ok (Link.apply left links) d) := by
  induction h generalizing left with
  | nil => exact .stop hstop
  | @cons c c' m d link links hc hfloor ha he _ _ ih =>
    have hx : extendsAbove floor c.current = true := by
      rw [hc, Parse.extendsAbove_operator]
      exact hfloor
    have hrun : Runs room (.expression link.op.precedence.level) c' (.ok link.right m) :=
      Runs.iff_run.2 he
    exact .step hx (.operator (r := .ok link.right m) hc ha hrun) (ih hstop _)

end Chain

namespace Runs

/-- An operation is a link. -/
theorem link {room room' : Nat} {left e : Expr} {c d : Cursor} {r : Result}
    (h : Runs room (.operation left) c r) (hr : r = .ok e d) (hle : room ≤ room') :
    ∃ (link : Link) (c' : Cursor), c.current = .operator link.op ∧ advance c = .ok () c' ∧
      Parse.expression room' link.op.precedence.level c' = .ok link.right d ∧
      Moves c' link.tokens d ∧ e = .binary link.op left link.right := by
  cases h with
  | tooDeep | noOperator | operatorLast => cases hr
  | @operator room op _ c' _ r hc ha h =>
    obtain ⟨right, rfl, rfl⟩ := Result.build_eq_ok.1 hr
    obtain ⟨tokens, hm, -⟩ := h.moves
    have hrun := h.mono Result.settled_ok (Nat.le_of_succ_le hle)
    exact ⟨⟨op, tokens, right⟩, c', hc, ha, hrun.eq_run 0, hm, rfl⟩

/-- An extension is a chain from its beginning to its end. -/
theorem chain {room room' : Nat} {task : Task} {floor : Int} {left e : Expr} {c d : Cursor}
    {r : Result} (h : Runs room task c r) (ht : task = .extension floor left) (hr : r = .ok e d)
    (hle : room ≤ room') : ∃ links, Chain room' floor c links d ∧ e = Link.apply left links ∧
      extendsAbove floor d.current = false := by
  induction h generalizing floor left e d with
  | tooDeep | stepFails => cases hr
  | stop hx =>
    cases ht
    cases hr
    exact ⟨[], .nil, rfl, hx⟩
  | @step room _ c m _ longer _ hx hop _ _ ih =>
    cases ht
    obtain ⟨links, hchain, rfl, hstop⟩ := ih rfl hr hle
    obtain ⟨link, c', hc, ha, he, hm, rfl⟩ := hop.link rfl hle
    rw [hc, Parse.extendsAbove_operator] at hx
    exact ⟨link :: links, .cons hc hx ha he hm hchain, rfl, hstop⟩
  | _ => cases ht

end Runs

/-! ## Expressions -/

namespace Parse

/-- Nothing extends an expression at the end of the input, nor does a token not above the floor. -/
theorem extendsAbove_eq_false {floor : Int} {token : Token} : extendsAbove floor token = false ↔
    token = .endOfInput ∨ (token.kind.precedence.level : Int) ≤ floor := by
  simp only [extendsAbove, Bool.and_eq_false_iff, decide_eq_false_iff_not, Int.not_lt, ne_eq,
    Decidable.not_not]
  exact or_comm

/-- **What is read above a floor is an operand with a chain of links.** Whatever the floor and
wherever the reading begins: an expression that is read is an operand, whose tokens come first, with
links applied to it from left to right. Each link has an operator above the floor and, with its
tokens, all that is read above that operator there; outside of parentheses no operator in it is as
weak. At least one token is consumed, and what stands behind is the end of the input or not above
the floor. Conversely an operand and a chain with such an end are read as an expression, with two
calls more. A reading that fails has not gone back. -/
theorem expression_chain (room : Nat) (floor : Int) (c : Cursor) :
    (∀ e d, expression room floor c = .ok e d →
      ∃ (operand : Expr) (first : List Token) (m : Cursor) (links : List Link),
        primary room c = .ok operand m ∧ Moves c first m ∧ Chain room floor m links d ∧
        e = Link.apply operand links ∧
        (first ++ links.flatMap Link.span ≠ [] ∧ Moves c (first ++ links.flatMap Link.span) d) ∧
        outerOperators false 0 first = [] ∧
        (∀ link ∈ links, floor < link.op.precedence.level ∧
          ∀ op ∈ outerOperators false 0 link.tokens,
            link.op.precedence.level < op.precedence.level) ∧
        (d.current = .endOfInput ∨ (d.current.kind.precedence.level : Int) ≤ floor)) ∧
    (∀ operand m links d, primary room c = .ok operand m → Chain room floor m links d →
      d.current = .endOfInput ∨ (d.current.kind.precedence.level : Int) ≤ floor →
      expression (room + 2) floor c = .ok (Link.apply operand links) d) ∧
    ∀ err d, expression room floor c = .error err d → c.consumed ≤ d.consumed := by
  refine ⟨fun e d he => ?_, fun operand m links d hp hchain hstop => ?_, fun err d he => ?_⟩
  · have hrun : Runs room (.expression floor) c (.ok e d) := Runs.iff_run.2 he
    cases hrun with
    | @operand room _ _ m operand _ hp hx =>
      obtain ⟨links, hchain, rfl, hstop⟩ := hx.chain rfl rfl (Nat.le_succ room)
      obtain ⟨first, hm, hs⟩ := hp.sound rfl
      have hne : first ++ links.flatMap Link.span ≠ [] := by
        simp [hs.1.ne_nil]
      exact ⟨operand, first, m, links, (hp.mono Result.settled_ok (Nat.le_succ room)).eq_run 0, hm,
        hchain, rfl, ⟨hne, hm.trans hchain.moves⟩, hs.outerOperators_of_primary, hchain.operators,
        extendsAbove_eq_false.1 hstop⟩
  · have hp : Runs room .primary c (.ok operand m) := Runs.iff_run.2 hp
    have hx := hchain.runs (extendsAbove_eq_false.2 hstop) operand
    exact (Runs.operand (hp.mono Result.settled_ok (Nat.le_succ room)) hx).eq_run 0
  · have hrun : Runs room (.expression floor) c (.error err d) := Runs.iff_run.2 he
    obtain ⟨used, hm, -⟩ := hrun.moves
    have hconsumed := hm.consumed
    simp at hconsumed
    omega

end Parse
end Abacus
