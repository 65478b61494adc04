/-
How an expression comes to its value.

An evaluation succeeds exactly if the operands have values and every check
passes (`valueWithin_negative_eq_ok`, `valueWithin_binary_eq_ok`); in which
order the operands are looked at matters for failures alone. So every value is
finite, more depth keeps it, and each part of an expression that has a value
has one.
-/
import Abacus.Expr.Context
import Abacus.Expr.Value
import Abacus.Proofs.Order
import Mathlib.Order.Basic

namespace Abacus

theorem Except.bind_eq_ok {ε α β : Type} {x : Except ε α} {f : α → Except ε β} {b : β} :
    (x >>= f) = .ok b ↔ ∃ a, x = .ok a ∧ f a = .ok b := by
  constructor
  · intro h
    cases x with
    | error err => cases h
    | ok a => exact ⟨a, rfl, h⟩
  · rintro ⟨a, rfl, h⟩
    exact h

/-- Two computations in sequence are the same as two others if each is, wherever it does not end in
a given error, and the whole does not. -/
theorem Except.bind_congr_of_ne {ε α β : Type} {err : ε} {x y : Except ε α}
    {f g : α → Except ε β} (h : (x >>= f) ≠ .error err) (hx : x ≠ .error err → y = x)
    (hf : ∀ a, f a ≠ .error err → g a = f a) : (y >>= g) = (x >>= f) := by
  cases x with
  | error other =>
    rw [hx fun he => h (by rw [he]; rfl)]
    rfl
  | ok a =>
    rw [hx (by simp)]
    exact hf a h

namespace Expr

variable {tolerance : Tolerance} {op : Operator} {e left right : Expr} {depth : Nat}
  {v x y : Binary64}

/-! ## Checks -/

theorem checkFinite_eq_ok : checkFinite x = .ok v ↔ x = v ∧ v.isFinite = true := by
  unfold checkFinite
  constructor
  · intro h
    split at h <;> cases h
    next hx => exact ⟨rfl, hx⟩
  · rintro ⟨rfl, hx⟩
    rw [if_pos hx]

theorem checkDivisor_eq_ok : checkDivisor tolerance y = .ok () ↔ ¬ y.abs < tolerance.value := by
  unfold checkDivisor
  split <;> simp [*]

/-! ## Values -/

theorem valueWithin_negative : (negative e).valueWithin tolerance (depth + 1) =
    (do checkFinite (-(← e.valueWithin tolerance depth))) := rfl

/-- A division evaluates its divisor first, the other operations their left operand. -/
theorem valueWithin_binary : (binary op left right).valueWithin tolerance (depth + 1) =
    (if op = .divide then do
      let divisor ← right.valueWithin tolerance depth
      checkDivisor tolerance divisor
      let dividend ← left.valueWithin tolerance depth
      checkFinite (dividend / divisor)
    else do
      let x ← left.valueWithin tolerance depth
      let y ← right.valueWithin tolerance depth
      checkFinite (← operate tolerance op x y)) := rfl

theorem valueWithin_number_eq_ok :
    (number x).valueWithin tolerance (depth + 1) = .ok v ↔ x = v ∧ v.isFinite = true :=
  checkFinite_eq_ok

theorem valueWithin_negative_eq_ok : (negative e).valueWithin tolerance (depth + 1) = .ok v ↔
    ∃ x, e.valueWithin tolerance depth = .ok x ∧ -x = v ∧ v.isFinite = true := by
  simp only [valueWithin_negative, Except.bind_eq_ok, checkFinite_eq_ok]

theorem valueWithin_binary_eq_ok :
    (binary op left right).valueWithin tolerance (depth + 1) = .ok v ↔
      ∃ x y, left.valueWithin tolerance depth = .ok x ∧ right.valueWithin tolerance depth = .ok y ∧
        (op = .divide → ¬ y.abs < tolerance.value) ∧ operate tolerance op x y = .ok v ∧
        v.isFinite = true := by
  by_cases hop : op = .divide
  · subst hop
    rw [valueWithin_binary, if_pos rfl]
    simp only [Except.bind_eq_ok, checkFinite_eq_ok]
    constructor
    · rintro ⟨y, hy, ⟨⟩, hd, x, hx, hv, hfin⟩
      exact ⟨x, y, hx, hy, fun _ => checkDivisor_eq_ok.1 hd, congrArg _ hv, hfin⟩
    · rintro ⟨x, y, hx, hy, hd, hv, hfin⟩
      exact ⟨y, hy, (), checkDivisor_eq_ok.2 (hd trivial), x, hx, Except.ok.inj hv, hfin⟩
  · rw [valueWithin_binary, if_neg hop]
    simp only [Except.bind_eq_ok, checkFinite_eq_ok]
    constructor
    · rintro ⟨x, hx, y, hy, z, hz, rfl, hfin⟩
      exact ⟨x, y, hx, hy, fun h => absurd h hop, hz, hfin⟩
    · rintro ⟨x, y, hx, hy, -, hz, hfin⟩
      exact ⟨x, hx, y, hy, v, hz, rfl, hfin⟩

theorem exists_depth_of_ne (h : e.valueWithin tolerance depth ≠ .error .tooDeep) :
    ∃ k, depth = k + 1 := by
  cases depth with
  | zero => exact absurd (by cases e <;> rfl) h
  | succ k => exact ⟨k, rfl⟩

theorem exists_depth (h : e.valueWithin tolerance depth = .ok v) : ∃ k, depth = k + 1 := by
  have hne : e.valueWithin tolerance depth ≠ .error .tooDeep := by simp [h]
  exact exists_depth_of_ne hne

/-- No value is infinite or NaN. -/
theorem isFinite_of_valueWithin (h : e.valueWithin tolerance depth = .ok v) :
    v.isFinite = true := by
  obtain ⟨depth, rfl⟩ := exists_depth h
  cases e with
  | number x => exact (valueWithin_number_eq_ok.1 h).2
  | negative e =>
    obtain ⟨-, -, -, hfin⟩ := valueWithin_negative_eq_ok.1 h
    exact hfin
  | binary op left right =>
    obtain ⟨-, -, -, -, -, -, hfin⟩ := valueWithin_binary_eq_ok.1 h
    exact hfin
  | undetermined | empty => cases h

/-! ## Depth -/

theorem valueWithin_negative_congr {e' : Expr} {depth' : Nat}
    (h : (negative e).valueWithin tolerance (depth + 1) ≠ .error .tooDeep)
    (he : e.valueWithin tolerance depth ≠ .error .tooDeep →
      e'.valueWithin tolerance depth' = e.valueWithin tolerance depth) :
    (negative e').valueWithin tolerance (depth' + 1) =
      (negative e).valueWithin tolerance (depth + 1) :=
  Except.bind_congr_of_ne h he fun _ _ => rfl

/-- An operand that is never come to need not be the same, nor need one without enough depth. -/
theorem valueWithin_binary_congr {left' right' : Expr} {depth' : Nat}
    (h : (binary op left right).valueWithin tolerance (depth + 1) ≠ .error .tooDeep)
    (hl : left.valueWithin tolerance depth ≠ .error .tooDeep →
      left'.valueWithin tolerance depth' = left.valueWithin tolerance depth)
    (hr : right.valueWithin tolerance depth ≠ .error .tooDeep →
      right'.valueWithin tolerance depth' = right.valueWithin tolerance depth) :
    (binary op left' right').valueWithin tolerance (depth' + 1) =
      (binary op left right).valueWithin tolerance (depth + 1) := by
  rw [valueWithin_binary] at h
  rw [valueWithin_binary, valueWithin_binary]
  split at h
  · rw [if_pos ‹_›, if_pos ‹_›]
    refine Except.bind_congr_of_ne h hr fun y h => ?_
    refine Except.bind_congr_of_ne h (fun _ => rfl) fun _ h => ?_
    exact Except.bind_congr_of_ne h hl fun _ _ => rfl
  · rw [if_neg ‹_›, if_neg ‹_›]
    refine Except.bind_congr_of_ne h hl fun x h => ?_
    exact Except.bind_congr_of_ne h hr fun _ _ => rfl

/-- An evaluation that does not run out of depth ends in the same way with any more of it. -/
theorem valueWithin_settled {depth' : Nat} (h : e.valueWithin tolerance depth ≠ .error .tooDeep)
    (hle : depth ≤ depth') : e.valueWithin tolerance depth' = e.valueWithin tolerance depth := by
  induction e generalizing depth depth' with
  | number | undetermined | empty =>
    obtain ⟨depth, rfl⟩ := exists_depth_of_ne h
    obtain ⟨k, rfl⟩ := Nat.exists_eq_add_of_lt hle
    rfl
  | negative e ih =>
    obtain ⟨depth, rfl⟩ := exists_depth_of_ne h
    obtain ⟨k, rfl⟩ := Nat.exists_eq_add_of_lt hle
    exact valueWithin_negative_congr h fun he => ih he (by omega)
  | binary op left right ihl ihr =>
    obtain ⟨depth, rfl⟩ := exists_depth_of_ne h
    obtain ⟨k, rfl⟩ := Nat.exists_eq_add_of_lt hle
    exact valueWithin_binary_congr h (fun hl => ihl hl (by omega)) fun hr => ihr hr (by omega)

/-- What has a value has the same value with more depth. -/
theorem valueWithin_mono {depth' : Nat} (h : e.valueWithin tolerance depth = .ok v)
    (hle : depth ≤ depth') : e.valueWithin tolerance depth' = .ok v :=
  (valueWithin_settled (by simp [h]) hle).trans h

/-! ## Parts -/

/-- Each part of an expression that has a value has one. -/
theorem valueWithin_part {K : Context} {part : Expr}
    (h : (K.fill part).valueWithin tolerance depth = .ok v) :
    ∃ w, part.valueWithin tolerance depth = .ok w := by
  induction K generalizing depth v with
  | hole => exact ⟨v, h⟩
  | negative K ih =>
    obtain ⟨depth, rfl⟩ := exists_depth h
    obtain ⟨x, hx, -⟩ := valueWithin_negative_eq_ok.1 h
    obtain ⟨w, hw⟩ := ih hx
    exact ⟨w, valueWithin_mono hw (Nat.le_succ _)⟩
  | binaryLeft op K right ih =>
    obtain ⟨depth, rfl⟩ := exists_depth h
    obtain ⟨x, y, hx, -⟩ := valueWithin_binary_eq_ok.1 h
    obtain ⟨w, hw⟩ := ih hx
    exact ⟨w, valueWithin_mono hw (Nat.le_succ _)⟩
  | binaryRight op left K ih =>
    obtain ⟨depth, rfl⟩ := exists_depth h
    obtain ⟨x, y, -, hy, -⟩ := valueWithin_binary_eq_ok.1 h
    obtain ⟨w, hw⟩ := ih hy
    exact ⟨w, valueWithin_mono hw (Nat.le_succ _)⟩
  | undeterminedLeft | undeterminedRight => cases depth <;> cases h

/-- **A part may stand for its value.** Wherever a part that has a value is replaced by that number,
the whole comes to the same outcome, be it a value or an error, unless it runs out of depth. -/
theorem valueWithin_fill_number {depth' : Nat} (K : Context)
    (h : e.valueWithin tolerance depth' = .ok v)
    (hdeep : (K.fill e).valueWithin tolerance depth ≠ .error .tooDeep) :
    (K.fill (number v)).valueWithin tolerance depth = (K.fill e).valueWithin tolerance depth := by
  induction K generalizing depth with
  | hole =>
    have hv : e.valueWithin tolerance depth = .ok v :=
      (valueWithin_settled hdeep (Nat.le_max_left depth depth')).symm.trans
        (valueWithin_mono h (Nat.le_max_right depth depth'))
    obtain ⟨depth, rfl⟩ := exists_depth hv
    exact (valueWithin_number_eq_ok.2 ⟨rfl, isFinite_of_valueWithin h⟩).trans hv.symm
  | negative K ih =>
    obtain ⟨depth, rfl⟩ := exists_depth_of_ne hdeep
    exact valueWithin_negative_congr hdeep ih
  | binaryLeft op K right ih =>
    obtain ⟨depth, rfl⟩ := exists_depth_of_ne hdeep
    exact valueWithin_binary_congr hdeep ih fun _ => rfl
  | binaryRight op left K ih =>
    obtain ⟨depth, rfl⟩ := exists_depth_of_ne hdeep
    exact valueWithin_binary_congr hdeep (fun _ => rfl) ih
  | undeterminedLeft | undeterminedRight =>
    -- A pair without an operator is refused before its parts are looked at.
    obtain ⟨depth, rfl⟩ := exists_depth_of_ne hdeep
    rfl

/-- The sign of a zero is kept, as the message of a refused operator shows. -/
theorem valueWithin_fill_number_zero :
    let e := negative (number (.zero false))
    let K := Context.negative (.binaryLeft .and .hole (number (.nearest false 5 2)))
    e.valueWithin .standard 2 = .ok (.zero true) ∧
      (K.fill e).valueWithin .standard 4 =
        .error (.notWords .and (.zero true) (.nearest false 5 2)) ∧
      (K.fill (number (.zero true))).valueWithin .standard 4 = (K.fill e).valueWithin .standard 4 := by
  intro e K
  have h : e.valueWithin .standard 2 = .ok (.zero true) := by decide
  have herr : (K.fill e).valueWithin .standard 4 =
      .error (.notWords .and (.zero true) (.nearest false 5 2)) := by decide +kernel
  exact ⟨h, herr, valueWithin_fill_number K h (by simp [herr])⟩

end Expr
end Abacus
