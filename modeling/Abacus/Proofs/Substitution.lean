/-
Expressions in the place of numbers.

A number and a group are both atoms, so in a derivation one can stand where the
other stands (`Derives.replace`), and in a text a literal can be replaced by any
text in parentheses (`Expr.denoted_replace`). What changes in the tree is the
one leaf that the literal gave; a context holds all that stays.
-/
import Abacus.Expr.Context
import Abacus.Proofs.Derivation
import Abacus.Proofs.Rendering
import Mathlib.Data.List.Induction

namespace Abacus

/-! ## Leaves -/

/-- The values of the numbers among the tokens. -/
def Token.values (tokens : List Token) : List Binary64 := tokens.filterMap (·.label.value?)

theorem Token.values_append (before after : List Token) :
    values (before ++ after) = values before ++ values after := List.filterMap_append

theorem Token.values_operator (op : Operator) (tokens : List Token) :
    values (.operator op :: tokens) = values tokens := rfl

/-- The values at the leaves, from left to right. -/
def Expr.leaves : Expr → List Binary64
  | number value => [value]
  | negative operand => operand.leaves
  | binary _ left right | undetermined left right => left.leaves ++ right.leaves
  | empty => []

/-- The leaves to the left of the hole. -/
def Context.leavesBefore : Context → List Binary64
  | hole => []
  | negative operand => operand.leavesBefore
  | binaryLeft _ left _ | undeterminedLeft left _ => left.leavesBefore
  | binaryRight _ left right | undeterminedRight left right => left.leaves ++ right.leavesBefore

/-- The leaves of an expression are the numbers among its tokens. -/
theorem Derives.leaves {level : Nat} {tokens : List Token} {e : Expr}
    (h : Derives level tokens e) : e.leaves = Token.values tokens := by
  induction h with
  | tighter _ _ ih => exact ih
  | @binary op _ _ _ _ _ _ ih ih' =>
    have hop : Token.values [.operator op] = [] := rfl
    rw [List.append_cons, Token.values_append, Token.values_append, hop, List.append_nil, ← ih,
      ← ih']
    rfl
  | negative _ ih => exact ih
  | product _ _ _ ih ih' => rw [Token.values_append, ← ih, ← ih']; rfl
  | number => rfl
  | @group tokens _ _ ih =>
    have hvalues : Token.values (.leftParen :: (tokens ++ [Token.rightParen])) =
        Token.values tokens ++ [] := Token.values_append tokens [.rightParen]
    rw [hvalues, List.append_nil, ih]

/-! ## Groups in the place of numbers -/

theorem append_eq_append_cons {α : Type} {xs ys before after : List α} {x : α}
    (h : xs ++ ys = before ++ x :: after) :
    (∃ rest, xs = before ++ x :: rest ∧ after = rest ++ ys) ∨
      ∃ rest, ys = rest ++ x :: after ∧ before = xs ++ rest := by
  rcases List.append_eq_append_iff.1 h with ⟨rest, rfl, hy⟩ | ⟨rest, rfl, hy⟩
  · exact .inr ⟨rest, hy, rfl⟩
  · cases rest with
    | nil => exact .inr ⟨[], by simpa using hy.symm, by simp⟩
    | cons y rest =>
      rw [List.cons_append, List.cons.injEq] at hy
      obtain ⟨rfl, rfl⟩ := hy
      exact .inl ⟨rest, rfl, rfl⟩

namespace Token

/-- The tokens of a group. -/
def group (tokens : List Token) : List Token := .leftParen :: (tokens ++ [.rightParen])

theorem apart_group_left {before after rest tokens : List Token} {value : Binary64}
    (h : Apart (before ++ .number value :: after) rest) :
    Apart (before ++ group tokens ++ after) rest := by
  cases after with
  | nil => exact apart_of_rightParen (by simp [group, List.getLast?_cons])
  | cons next after => simpa [Apart, List.getLast?_append, List.getLast?_cons] using h

theorem apart_group_right {before after rest tokens : List Token} {value : Binary64}
    (h : Apart rest (before ++ .number value :: after)) :
    Apart rest (before ++ group tokens ++ after) := by
  cases before with
  | nil => exact apart_of_leftParen rfl
  | cons first before => exact h

end Token

/-- The expression has a leaf for the number between the tokens, a context holds all else of it,
and what a group derives in the number's place stands at that leaf. -/
structure Replaces (level : Nat) (before : List Token) (value : Binary64) (after : List Token)
    (e : Expr) (K : Context) : Prop where
  fill : e = K.fill (.number value)
  leaves : K.leavesBefore = Token.values before
  derives : ∀ {inner : List Token} {s : Expr}, Derives 1 inner s →
    Derives level (before ++ Token.group inner ++ after) (K.fill s)

namespace Replaces

variable {level : Nat} {op : Operator} {first last before after rest : List Token}
  {value : Binary64} {e left right : Expr} {K : Context}

theorem number : Replaces 7 [] value [] (.number value) .hole where
  fill := rfl
  leaves := rfl
  derives := fun hs => by simpa using .group hs

theorem negative (h : Replaces 5 before value after e K) :
    Replaces 5 (.operator .subtract :: before) value after (.negative e) (.negative K) where
  fill := by rw [h.fill]; rfl
  leaves := h.leaves
  derives := fun hs => .negative (h.derives hs)

theorem group (h : Replaces 1 before value rest e K) :
    Replaces 7 (.leftParen :: before) value (rest ++ [.rightParen]) e K where
  fill := h.fill
  leaves := h.leaves
  derives := fun hs => by
    rw [← List.append_assoc]
    exact .group (h.derives hs)

theorem binaryLeft (h : Replaces op.precedence.level before value rest left K)
    (ha : Derives (op.precedence.level + 1) last right) :
    Replaces op.precedence.level before value (rest ++ .operator op :: last)
      (.binary op left right) (.binaryLeft op K right) where
  fill := by rw [h.fill]; rfl
  leaves := h.leaves
  derives := fun hs => by
    rw [← List.append_assoc]
    exact .binary (h.derives hs) ha

theorem binaryRight (hb : Derives op.precedence.level first left)
    (h : Replaces (op.precedence.level + 1) rest value after right K) :
    Replaces op.precedence.level (first ++ .operator op :: rest) value after
      (.binary op left right) (.binaryRight op left K) where
  fill := by rw [h.fill]; rfl
  leaves := by
    rw [Context.leavesBefore, hb.leaves, h.leaves, Token.values_append, Token.values_operator]
  derives := fun hs => by
    rw [List.append_assoc first, List.append_assoc first]
    exact .binary hb (h.derives hs)

theorem productLeft (h : Replaces 7 before value rest left K) (ha : Derives 6 last right)
    (hapart : Token.Apart (before ++ .number value :: rest) last) :
    Replaces 6 before value (rest ++ last) (.binary .multiply left right)
      (.binaryLeft .multiply K right) where
  fill := by rw [h.fill]; rfl
  leaves := h.leaves
  derives := fun hs => by
    rw [← List.append_assoc]
    exact .product (h.derives hs) ha (Token.apart_group_left hapart)

theorem productRight (hb : Derives 7 first left) (h : Replaces 6 rest value after right K)
    (hapart : Token.Apart first (rest ++ .number value :: after)) :
    Replaces 6 (first ++ rest) value after (.binary .multiply left right)
      (.binaryRight .multiply left K) where
  fill := by rw [h.fill]; rfl
  leaves := by rw [Context.leavesBefore, hb.leaves, h.leaves, Token.values_append]
  derives := fun hs => by
    rw [List.append_assoc first, List.append_assoc first]
    exact .product hb (h.derives hs) (Token.apart_group_right hapart)

end Replaces

/-- Each number of a derivation can be replaced by a group. -/
theorem Derives.replace {level : Nat} {tokens before after : List Token} {value : Binary64}
    {e : Expr} (h : Derives level tokens e) (ht : tokens = before ++ .number value :: after) :
    ∃ K, Replaces level before value after e K := by
  induction h generalizing before after with
  | tighter hpos _ ih =>
    obtain ⟨K, hK⟩ := ih ht
    exact ⟨K, hK.fill, hK.leaves, fun hs => .tighter hpos (hK.derives hs)⟩
  | @binary op first last left right hb ha ih ih' =>
    rcases append_eq_append_cons ht with ⟨rest, hfirst, rfl⟩ | ⟨rest, hlast, rfl⟩
    · obtain ⟨K, hK⟩ := ih hfirst
      exact ⟨_, hK.binaryLeft ha⟩
    · -- The number is not the operator, so it stands behind it.
      cases rest with
      | nil => cases hlast
      | cons token rest =>
        obtain ⟨rfl, hrest⟩ := List.cons.inj hlast
        obtain ⟨K, hK⟩ := ih' hrest
        exact ⟨_, .binaryRight hb hK⟩
  | negative _ ih =>
    cases before with
    | nil => cases ht
    | cons token before =>
      obtain ⟨rfl, hrest⟩ := List.cons.inj ht
      obtain ⟨K, hK⟩ := ih hrest
      exact ⟨_, hK.negative⟩
  | @product first last left right hb ha hapart ih ih' =>
    rcases append_eq_append_cons ht with ⟨rest, hfirst, rfl⟩ | ⟨rest, hlast, rfl⟩
    · obtain ⟨K, hK⟩ := ih hfirst
      exact ⟨_, hK.productLeft ha (hfirst ▸ hapart)⟩
    · obtain ⟨K, hK⟩ := ih' hlast
      exact ⟨_, .productRight hb hK (hlast ▸ hapart)⟩
  | number =>
    cases before with
    | nil =>
      obtain ⟨hv, rfl⟩ := List.cons.inj ht
      obtain rfl := Token.number.inj hv
      exact ⟨_, .number⟩
    | cons token before => simp at ht
  | group _ ih =>
    cases before with
    | nil => cases ht
    | cons token before =>
      obtain ⟨rfl, hrest⟩ := List.cons.inj ht
      rcases append_eq_append_cons hrest with ⟨rest, hinner, rfl⟩ | ⟨rest, hclose, rfl⟩
      · obtain ⟨K, hK⟩ := ih hinner
        exact ⟨_, hK.group⟩
      · cases rest <;> simp at hclose

/-! ## Texts in the place of literals -/

/-- A text cut out at one of its literals, with the tokens before and behind it. -/
structure Cut (text before literal after : String) (front : List Token) (value : Binary64)
    (back : List Token) : Prop where
  text : text = before ++ literal ++ after
  before : Renders before.toList front
  literal : Lexeme literal.toList value
  after : Renders after.toList back

theorem Lexeme.of_space_last {cs : List Char} {c : Char} {value : Binary64}
    (h : Lexeme (cs ++ [c]) value) (hc : isSpace c = true) : Lexeme cs value where
  starts := by
    have hs := h.starts
    cases cs with
    | nil =>
      have hd : c.isDigit = true := by simpa using hs
      rw [isSpace_eq_false_of_isDigit hd] at hc
      cases hc
    | cons => exact hs
  characters := fun c' hm => h.characters c' (List.mem_append_left _ hm)
  points := Nat.le_trans (List.sublist_append_left cs [c] |>.count_le '.') h.points
  reads := by simpa [hc] using h.reads

/-- The spaces at the end of a literal can be counted to what comes behind it. -/
theorem Lexeme.trim {cs : List Char} {value : Binary64} (h : Lexeme cs value) :
    ∃ literal spaces, cs = literal ++ spaces ∧ Lexeme literal value ∧
      literal.getLast?.any isSpace = false ∧ ∀ c ∈ spaces, isSpace c = true := by
  induction cs using List.reverseRecOn with
  | nil => cases h.starts
  | append_singleton cs c ih =>
    cases hc : isSpace c with
    | false => exact ⟨cs ++ [c], [], by simp, h, by simp [hc], by simp⟩
    | true =>
      obtain ⟨literal, spaces, rfl, hl, hlast, hs⟩ := ih (h.of_space_last hc)
      refine ⟨literal, spaces ++ [c], by simp, hl, hlast, fun c' hm => ?_⟩
      rcases List.mem_append.1 hm with hm | hm
      · exact hs c' hm
      · rw [List.mem_singleton.1 hm, hc]

theorem Renders.spaces {spaces cs : List Char} {tokens : List Token}
    (hs : ∀ c ∈ spaces, isSpace c = true) (h : Renders cs tokens) :
    Renders (spaces ++ cs) tokens := by
  induction spaces with
  | nil => exact h
  | cons c spaces ih => exact .space (hs c (by simp)) (ih fun c' hm => hs c' (by simp [hm]))

/-- A rendering can be cut at each of its numbers, right behind the last character that is not a
space. -/
theorem Renders.cut {cs : List Char} {tokens front back : List Token} {value : Binary64}
    (h : Renders cs tokens) (ht : tokens = front ++ .number value :: back) :
    ∃ before literal after, cs = before ++ literal ++ after ∧ Renders before front ∧
      Lexeme literal value ∧ literal.getLast?.any isSpace = false ∧ Renders after back := by
  induction h generalizing front with
  | nil => simp at ht
  | @space c cs tokens hc h ih =>
    obtain ⟨before, literal, after, rfl, hb, hl⟩ := ih ht
    exact ⟨c :: before, literal, after, rfl, .space hc hb, hl⟩
  | @token first rest token tokens hf h ih =>
    cases front with
    | nil =>
      obtain ⟨rfl, rfl⟩ := List.cons.inj ht
      cases hf with
      | number hl =>
        obtain ⟨literal, spaces, rfl, hl, hlast, hs⟩ := hl.trim
        exact ⟨[], literal, spaces ++ rest, by simp, .nil, hl, hlast, h.spaces hs⟩
      | symbol hc => cases Token.not_number_of_ofSymbol? hc
    | cons next front =>
      obtain ⟨rfl, hrest⟩ := List.cons.inj ht
      obtain ⟨before, literal, after, rfl, hb, hl⟩ := ih hrest
      exact ⟨first ++ before, literal, after, by simp, .token hf hb, hl⟩

theorem Renders.group {text : String} {tokens : List Token} (h : Renders text.toList tokens) :
    Renders ("(" ++ text ++ ")").toList (Token.group tokens) := by
  have hs : ("(" ++ text ++ ")").toList = '(' :: (text.toList ++ [')']) := by simp
  rw [hs]
  exact .symbol rfl (h.append (.symbol rfl .nil))

theorem Separated.group {tokens : List Token} (h : Separated tokens) :
    Separated (Token.group tokens) := by
  refine .symbol (c := '(') rfl (separated_append.2 ⟨h, ?_, ?_⟩)
  · exact separated_singleton
  · exact Token.apart_of_head?_not_number rfl

theorem Separated.replace {front back tokens : List Token} {value : Binary64}
    (h : Separated (front ++ .number value :: back)) (h' : Separated tokens) :
    Separated (front ++ Token.group tokens ++ back) := by
  obtain ⟨hf, hb, -⟩ := separated_append.1 h
  refine separated_append.2 ⟨separated_append.2 ⟨hf, h'.group, ?_⟩, (separated_cons.1 hb).2, ?_⟩
  · exact Token.apart_of_leftParen rfl
  · exact Token.apart_of_rightParen (by simp [Token.group, List.getLast?_cons])

namespace Expr

theorem renders_of_ofTextWithin {room : Nat} {text : String} {e : Expr}
    (h : ofTextWithin room text = .ok e) : Renders text.toList (Script.ofText text).tokens ∧
      Separated (Script.ofText text).tokens ∧ Derives 1 (Script.ofText text).tokens e := by
  obtain ⟨hf, hd⟩ := derives_of_ofTextWithin h
  have hscript : Script.ofText text = ⟨(Script.ofText text).tokens, none⟩ := by rw [← hf]
  obtain ⟨hr, hs⟩ := Script.ofText_eq_iff.1 hscript
  exact ⟨hr, hs, hd⟩

theorem denoted_of_renders {text : String} {tokens : List Token} {e : Expr}
    (hr : Renders text.toList tokens) (hs : Separated tokens) (hd : Derives 1 tokens e) :
    Denoted text e := by
  have hscript := Script.ofText_eq_iff.2 ⟨hr, hs⟩
  refine denoted_of_ofTextWithin (ofTextWithin_of_derives ?_ ?_ (Nat.lt_succ_self _))
  · rw [hscript]
  · rwa [hscript]

end Expr

theorem Lexeme.renders {cs : List Char} {value : Binary64} (h : Lexeme cs value) :
    Renders cs [.number value] := by
  simpa using Renders.token (.number h) .nil

/-- What the tokens derive with a group for the number is what is read with the group's text for
the literal. -/
theorem Cut.denoted {text before literal after inner : String} {front back tokens : List Token}
    {value : Binary64} {e : Expr} (h : Cut text before literal after front value back)
    (hs : Separated (front ++ .number value :: back)) (hr : Renders inner.toList tokens)
    (hs' : Separated tokens) (hd : Derives 1 (front ++ Token.group tokens ++ back) e) :
    Expr.Denoted (before ++ ("(" ++ inner ++ ")") ++ after) e := by
  refine Expr.denoted_of_renders ?_ (hs.replace hs') hd
  rw [String.toList_append, String.toList_append]
  exact (h.before.append hr.group).append h.after

namespace Expr

/-- **A text in parentheses can stand for a literal.** Let a text be read as an expression and be
cut at a literal. Some context holds all of the expression but the leaf that the literal gave: with
any text that is read in parentheses in the place of the literal, what is read has that text's
expression at the leaf. So parentheses around a literal, or around a whole text, change nothing. -/
theorem denoted_replace {room room' : Nat} {text inner : String} {e s : Expr}
    (h : ofTextWithin room text = .ok e) (h' : ofTextWithin room' inner = .ok s) :
    (∀ front value back, (Script.ofText text).tokens = front ++ .number value :: back →
      (∃ before literal after, Cut text before literal after front value back ∧
        literal.toList.getLast?.any isSpace = false) ∧
      ∃ K : Context, e = K.fill (.number value) ∧ K.leavesBefore = Token.values front ∧
        ∀ before literal after, Cut text before literal after front value back →
          Denoted (before ++ ("(" ++ inner ++ ")") ++ after) (K.fill s) ∧
            Denoted (before ++ ("(" ++ literal ++ ")") ++ after) e) ∧
    Denoted ("(" ++ text ++ ")") e := by
  obtain ⟨hr, hs, hd⟩ := renders_of_ofTextWithin h
  obtain ⟨hr', hs', hd'⟩ := renders_of_ofTextWithin h'
  refine ⟨fun front value back ht => ⟨?_, ?_⟩, ?_⟩
  · obtain ⟨before, literal, after, heq, hb, hl, hlast, ha⟩ := hr.cut ht
    refine ⟨.ofList before, .ofList literal, .ofList after, ⟨?_, ?_, ?_, ?_⟩, ?_⟩
    · rw [← String.toList_inj]; simpa using heq
    all_goals simpa
  · obtain ⟨K, hK⟩ := hd.replace ht
    rw [ht] at hs
    refine ⟨K, hK.fill, hK.leaves, fun before literal after hcut => ⟨?_, ?_⟩⟩
    · exact hcut.denoted hs hr' hs' (hK.derives hd')
    · have hnumber : Derives 1 [.number value] (.number value) :=
        Derives.number.relax (by omega) (by omega)
      rw [hK.fill]
      exact hcut.denoted hs hcut.literal.renders separated_singleton (hK.derives hnumber)
  · exact denoted_of_renders hr.group hs.group
      ((Derives.group hd).relax (by omega) (by omega))

theorem denoted_replace_factor :
    Denoted "(1+1)(4)" (.binary .multiply (.binary .add (.number .one) (.number .one))
      (.number (.ofInt 4))) := by
  have h : ofTextWithin 9 "3(4)" =
      .ok (.binary .multiply (.number (.ofInt 3)) (.number (.ofInt 4))) := by decide +kernel
  have h' : ofTextWithin 9 "1+1" = .ok (.binary .add (.number .one) (.number .one)) := by
    decide +kernel
  have ht : (Script.ofText "3(4)").tokens =
      [] ++ .number (.ofInt 3) :: [.leftParen, .number (.ofInt 4), .rightParen] := by decide +kernel
  have hafter : Script.ofText "(4)" = ⟨[.leftParen, .number (.ofInt 4), .rightParen], none⟩ := by
    decide +kernel
  have hcut : Cut "3(4)" "" "3" "(4)" [] (.ofInt 3) [.leftParen, .number (.ofInt 4), .rightParen] :=
    ⟨rfl, .nil, ⟨rfl, by simp, by decide, by decide +kernel⟩, (Script.ofText_eq_iff.1 hafter).1⟩
  obtain ⟨-, K, hK, hl, hd⟩ := (denoted_replace h h').1 _ _ _ ht
  have hd := (hd _ _ _ hcut).1
  have htext : "" ++ ("(" ++ "1+1" ++ ")") ++ "(4)" = "(1+1)(4)" := rfl
  rw [htext] at hd
  cases K with
  | binaryLeft op K right =>
    obtain ⟨rfl, hK, rfl⟩ := Expr.binary.inj hK
    cases K with
    | hole => exact hd
    | negative | binaryLeft | binaryRight | undeterminedLeft | undeterminedRight => cases hK
  | binaryRight op left K =>
    obtain ⟨rfl, rfl, hK⟩ := Expr.binary.inj hK
    cases hl
  | hole | negative | undeterminedLeft | undeterminedRight => cases hK

end Expr
end Abacus
