/-
The text of an expression determines the expression.

Texts are read off from the front, in front of a space, a closing parenthesis or
the end (`Determined`). A leaf has no delimiters, so the first of them ends it;
every other text is a group, and its parts are read off one by one. A negation is
no pair of operands even if the left operand begins with a minus: that operand is
a leaf then, so a space comes before any parenthesis, while the first delimiter
inside a negation is a parenthesis (`negative_ne_paired`).
-/
import Abacus.Proofs.Numbers
import Abacus.Proofs.Substitution
import Abacus.Proofs.ZeroSign

namespace Abacus
namespace Expr

/-! ## Texts -/

/-- Two operands, with an operator or without one. -/
def paired : Option Operator → Expr → Expr → Expr
  | some op => binary op
  | none => undetermined

/-- What stands between two operands. -/
def sign : Option Operator → Char
  | some op => op.symbol
  | none => '?'

theorem ofSymbol?_sign (op? : Option Operator) :
    Token.ofSymbol? (sign op?) = op?.map Token.operator := by
  cases op? with
  | none => rfl
  | some op => exact op.ofSymbol?_symbol

theorem sign_injective {op? op?' : Option Operator} (h : sign op? = sign op?') : op? = op?' := by
  have hmap : op?.map Token.operator = op?'.map Token.operator := by
    rw [← ofSymbol?_sign, h, ofSymbol?_sign]
  exact Option.map_injective (fun _ _ => Token.operator.inj) hmap

theorem toList_text_negative (operand : Expr) :
    (negative operand).text.toList = '(' :: '-' :: (operand.text.toList ++ [')']) := by
  simp [text]

theorem toList_text_paired (op? : Option Operator) (left right : Expr) :
    (paired op? left right).text.toList =
      '(' :: (left.text.toList ++ ' ' :: sign op? :: ' ' :: (right.text.toList ++ [')'])) := by
  cases op? <;> simp [paired, text, sign]

/-- A number, or nothing. -/
inductive IsLeaf : Expr → Prop where
  | number (value : Binary64) : IsLeaf (number value)
  | empty : IsLeaf empty

theorem IsLeaf.not_delimiter {e : Expr} (h : e.IsLeaf) :
    ∀ c ∈ e.text.toList, isDelimiter c = false := by
  cases h with
  | number value => exact value.not_delimiter_text
  | empty =>
    intro c hc
    cases hc

theorem IsLeaf.text_inj {a b : Expr} (ha : a.IsLeaf) (hb : b.IsLeaf)
    (h : a.text.toList = b.text.toList) : a = b := by
  cases ha with
  | number x =>
    cases hb with
    | number y => rw [Binary64.text_injective (String.toList_injective h)]
    | empty => exact absurd h x.text_ne_nil
  | empty =>
    cases hb with
    | number y => exact absurd h.symm y.text_ne_nil
    | empty => rfl

theorem text_cases (e : Expr) : e.IsLeaf ∨ ∃ inner, e.text.toList = '(' :: inner := by
  cases e with
  | number value => exact .inl (.number value)
  | empty => exact .inl .empty
  | negative operand => exact .inr ⟨_, toList_text_negative operand⟩
  | binary op left right => exact .inr ⟨_, toList_text_paired (some op) left right⟩
  | undetermined left right => exact .inr ⟨_, toList_text_paired none left right⟩

/-! ## What follows a text -/

/-- Nothing follows, or a space or a closing parenthesis. -/
def Ends (rest : List Char) : Prop := ∀ c ∈ rest.head?, c = ' ' ∨ c = ')'

variable {cs ds rest rest' : List Char}

theorem ends_nil : Ends [] := by
  intro c h
  cases h

theorem ends_space (cs : List Char) : Ends (' ' :: cs) := by
  intro c h
  cases h
  exact .inl rfl

theorem ends_close (cs : List Char) : Ends (')' :: cs) := by
  intro c h
  cases h
  exact .inr rfl

theorem takeWhile_append (hc : ∀ c ∈ cs, isDelimiter c = false) (hr : Ends rest) :
    (cs ++ rest).takeWhile (fun c => !isDelimiter c) = cs := by
  rw [List.takeWhile_append_of_pos (by simpa using hc)]
  cases rest with
  | nil => rw [List.takeWhile_nil, List.append_nil]
  | cons c rest =>
    have hd : isDelimiter c = true := by
      rcases hr c rfl with rfl | rfl <;> rfl
    rw [List.takeWhile_cons_of_neg (by simp [hd]), List.append_nil]

/-- Texts without delimiters are the same if all that follows is. -/
theorem append_inj (hc : ∀ c ∈ cs, isDelimiter c = false) (hd : ∀ c ∈ ds, isDelimiter c = false)
    (hr : Ends rest) (hr' : Ends rest') (h : cs ++ rest = ds ++ rest') : cs = ds ∧ rest = rest' := by
  have hsame : cs = ds := by
    rw [← takeWhile_append hc hr, h, takeWhile_append hd hr']
  subst hsame
  exact ⟨rfl, List.append_cancel_left h⟩

/-- What is in parentheses does not begin with a leaf. -/
theorem IsLeaf.append_ne_group {e : Expr} (h : e.IsLeaf) (hr : Ends rest) (inner : List Char) :
    e.text.toList ++ rest ≠ '(' :: inner := by
  intro heq
  have hc := h.not_delimiter
  cases htext : e.text.toList with
  | nil =>
    rw [htext, List.nil_append] at heq
    subst heq
    rcases hr '(' rfl with h | h <;> cases h
  | cons c cs =>
    rw [htext] at heq hc
    have hparen := hc c (by simp)
    rw [(List.cons.inj heq).1] at hparen
    cases hparen

theorem find?_append (hc : ∀ c ∈ cs, isDelimiter c = false) (rest : List Char) :
    (cs ++ rest).find? isDelimiter = rest.find? isDelimiter := by
  have hnone : cs.find? isDelimiter = none := by
    rw [List.find?_eq_none]
    intro c hm
    simp [hc c hm]
  rw [List.find?_append, hnone, Option.none_or]

/-- The first delimiter in a text that a closing parenthesis ends is a parenthesis. -/
theorem find?_text_close (e : Expr) (rest : List Char) :
    (e.text.toList ++ ')' :: rest).find? isDelimiter ≠ some ' ' := by
  rcases e.text_cases with hleaf | ⟨inner, htext⟩
  · rw [find?_append hleaf.not_delimiter]
    simp [isDelimiter]
  · rw [htext]
    simp [isDelimiter]

/-! ## Reading a text off -/

/-- In front of what ends a text, no other expression is written as this one is, and nothing else
follows. -/
def Determined (e : Expr) : Prop :=
  ∀ {b : Expr} {rest rest' : List Char}, Ends rest → Ends rest' →
    e.text.toList ++ rest = b.text.toList ++ rest' → e = b ∧ rest = rest'

theorem IsLeaf.determined {e : Expr} (he : e.IsLeaf) : e.Determined := by
  intro b rest rest' hr hr' h
  rcases b.text_cases with hb | ⟨inner, htext⟩
  · obtain ⟨htext, hrest⟩ := append_inj he.not_delimiter hb.not_delimiter hr hr' h
    exact ⟨he.text_inj hb htext, hrest⟩
  · rw [htext] at h
    exact absurd h (he.append_ne_group hr _)

/-- A negation is not written as a pair of operands. -/
theorem negative_ne_paired (operand left right : Expr) (op? : Option Operator)
    (rest rest' : List Char) :
    (negative operand).text.toList ++ rest ≠ (paired op? left right).text.toList ++ rest' := by
  intro h
  rw [toList_text_negative, toList_text_paired] at h
  simp only [List.cons_append, List.append_assoc, List.nil_append, List.cons.injEq, true_and] at h
  rcases left.text_cases with hleaf | ⟨inner, htext⟩
  · -- The minus begins the left operand, and the first delimiter behind it is a space.
    have hspace : ('-' :: (operand.text.toList ++ ')' :: rest)).find? isDelimiter = some ' ' := by
      rw [h, find?_append hleaf.not_delimiter]
      rfl
    exact operand.find?_text_close rest hspace
  · rw [htext] at h
    cases (List.cons.inj h).1

theorem Determined.negative {operand : Expr} (ho : operand.Determined) :
    (negative operand).Determined := by
  intro b rest rest' hr hr' h
  cases b with
  | number value =>
    rw [toList_text_negative] at h
    exact absurd h.symm ((IsLeaf.number value).append_ne_group hr' _)
  | empty =>
    rw [toList_text_negative] at h
    exact absurd h.symm (IsLeaf.empty.append_ne_group hr' _)
  | negative operand' =>
    simp only [toList_text_negative, List.cons_append, List.append_assoc, List.nil_append,
      List.cons.injEq, true_and] at h
    obtain ⟨rfl, hclose⟩ := ho (ends_close _) (ends_close _) h
    exact ⟨rfl, (List.cons.inj hclose).2⟩
  | binary op left right => exact absurd h (negative_ne_paired _ _ _ (some op) _ _)
  | undetermined left right => exact absurd h (negative_ne_paired _ _ _ none _ _)

/-- Pairs of operands are read off part by part. -/
theorem paired_inj {left right left' right' : Expr} {op? : Option Operator}
    (op?' : Option Operator) (hl : left.Determined)
    (hr : right.Determined)
    (h : (paired op? left right).text.toList ++ rest =
      (paired op?' left' right').text.toList ++ rest') :
    paired op? left right = paired op?' left' right' ∧ rest = rest' := by
  simp only [toList_text_paired, List.cons_append, List.append_assoc, List.nil_append,
    List.cons.injEq, true_and] at h
  obtain ⟨rfl, hbehind⟩ := hl (ends_space _) (ends_space _) h
  simp only [List.cons.injEq, true_and] at hbehind
  obtain ⟨hsign, hbehind⟩ := hbehind
  obtain ⟨rfl, hclose⟩ := hr (ends_close _) (ends_close _) hbehind
  rw [sign_injective hsign]
  exact ⟨rfl, (List.cons.inj hclose).2⟩

theorem Determined.paired {left right : Expr} (hl : left.Determined) (hr : right.Determined)
    (op? : Option Operator) : (paired op? left right).Determined := by
  intro b rest rest' hrest hrest' h
  cases b with
  | number value =>
    rw [toList_text_paired] at h
    exact absurd h.symm ((IsLeaf.number value).append_ne_group hrest' _)
  | empty =>
    rw [toList_text_paired] at h
    exact absurd h.symm (IsLeaf.empty.append_ne_group hrest' _)
  | negative operand => exact absurd h.symm (negative_ne_paired _ _ _ op? _ _)
  | binary op left' right' => exact paired_inj (some op) hl hr h
  | undetermined left' right' => exact paired_inj none hl hr h

/-- Every expression is read off its text. -/
theorem determined (e : Expr) : e.Determined := by
  induction e with
  | number value => exact (IsLeaf.number value).determined
  | empty => exact IsLeaf.empty.determined
  | negative operand ih => exact ih.negative
  | binary op left right ihl ihr => exact ihl.paired ihr (some op)
  | undetermined left right ihl ihr => exact ihl.paired ihr none

/-! ## Equality -/

/-- An expression without NaN has the value of itself at every leaf. -/
theorem same_self {e : Expr} (h : ∀ value ∈ e.leaves, value.isNaN = false) : e.same e = true := by
  induction e with
  | number value => exact (Binary64.Alike.refl value).equal (h value (by simp [leaves]))
  | empty => rfl
  | negative operand ih => exact ih h
  | binary op left right ihl ihr =>
    simp only [leaves, List.mem_append] at h
    simp [same, ihl fun value hv => h value (.inl hv), ihr fun value hv => h value (.inr hv)]
  | undetermined left right ihl ihr =>
    simp only [leaves, List.mem_append] at h
    simp [same, ihl fun value hv => h value (.inl hv), ihr fun value hv => h value (.inr hv)]

/-- **The text determines the expression.** Expressions of every form, with numbers of every sign
and magnitude and with operands that are empty, are identical if their texts are. If none of the
numbers is NaN they are the same in value, too. -/
theorem text_determines {a b : Expr} (h : a.text = b.text) :
    a = b ∧ ((∀ value ∈ a.leaves, value.isNaN = false) → a.same b = true) := by
  have hcs : a.text.toList ++ [] = b.text.toList ++ [] := by rw [h]
  obtain ⟨rfl, -⟩ := a.determined ends_nil ends_nil hcs
  exact ⟨rfl, same_self⟩

/-- A minus is that of a number, a sign between operands and a negation, of nothing here. -/
theorem text_determines_minus :
    let a := binary .subtract (number (.ofInt (-1)))
      (undetermined (negative empty) (number (.ofDecimal false ⟨1, -5⟩)))
    let b := binary .subtract (number (Binary64.ofInt 1).neg)
      (undetermined (negative empty) (number (.ofDecimal false ⟨10, -6⟩)))
    a.text = "(-1.0 - ((-) ? 1e-05))" ∧ a.text = b.text ∧ a = b ∧ a.same b = true := by
  intro a b
  have ha : a.text = "(-1.0 - ((-) ? 1e-05))" := by decide +kernel
  have hb : b.text = "(-1.0 - ((-) ? 1e-05))" := by decide +kernel
  obtain ⟨hab, hsame⟩ := text_determines (ha.trans hb.symm)
  exact ⟨ha, ha.trans hb.symm, hab, hsame (by decide +kernel)⟩

end Expr
end Abacus
