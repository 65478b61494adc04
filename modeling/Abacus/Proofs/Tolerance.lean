/-
What the tolerance decides.

A greater tolerance refuses more divisors, and it lets more fractions pass in
the exponents of negative bases. The second never shows: a power of a negative
base whose exponent has any fraction at all is NaN, and so it is refused
afterwards (`power_of_power`). All that is left of the tolerance is which
expressions have a value, never the value (`valueWithin_tolerance`).
-/
import Abacus.Proofs.Evaluation
import Mathlib.Order.Basic

namespace Abacus

/-! ## Powers without a value -/

namespace Binary64

theorem eq_finite_of_isFinite {x : Binary64} (h : x.isFinite = true) :
    ∃ negative m, x = .finite negative m := by
  cases x with
  | finite negative m => exact ⟨negative, m, rfl⟩
  | nan | infinite => cases h

theorem rank_zero (negative : Bool) : (zero negative).rank? = some 0 := by
  cases negative <;> rfl

theorem rank_one : one.rank? = some (unitsPerOne : Int) := by decide +kernel

/-- A number below zero has its sign and is neither zero nor one. -/
theorem isNegative_of_lt_zero {x : Binary64} (h : x < zero false) :
    x.isNegative = true ∧ x.isZero = false ∧ x.equal one = false := by
  obtain ⟨a, b, ha, hb, hab⟩ := lt_iff.1 h
  obtain rfl := Option.some.inj ((rank_zero false).symm.trans hb)
  refine ⟨?_, ?_, ?_⟩
  · cases x with
    | nan => cases ha
    | infinite negative | finite negative m =>
      cases negative with
      | true => rfl
      | false =>
        have ha := Option.some.inj ha
        simp only [signed, Bool.false_eq_true, if_false] at ha
        omega
  · cases x with
    | nan | infinite => rfl
    | finite negative m =>
      have ha := Option.some.inj ha
      simp only [isZero, beq_eq_false_iff_ne]
      intro hm
      cases negative <;> simp [signed, hm] at ha <;> omega
  · simp only [equal, ha, rank_one, beq_eq_false_iff_ne]
    omega

/-- A finite number with a fraction is no whole number. -/
theorem toInt?_eq_none_of_fraction {bound x : Binary64} (hb : zero false < bound)
    (hx : x.isFinite = true) (h : bound < x.fraction.abs) : x.toInt? = none := by
  obtain ⟨negative, m, rfl⟩ := eq_finite_of_isFinite hx
  rw [toInt?, if_neg]
  intro hm
  obtain ⟨a, b, ha, hb, hab⟩ := lt_iff.1 (lt_of_lt_of_le hb (le_of_lt h))
  obtain rfl := Option.some.inj ((rank_zero false).symm.trans ha)
  have hb := Option.some.inj hb
  simp only [signed, Bool.false_eq_true, if_false, hm] at hb
  omega

theorem isZero_eq_false_of_toInt? {x : Binary64} (h : x.toInt? = none) : x.isZero = false := by
  cases x with
  | nan | infinite => rfl
  | finite negative m =>
    simp only [isZero, beq_eq_false_iff_ne]
    intro hm
    simp [toInt?, hm] at h

/-- No power of a negative base to an exponent with a fraction is a number. -/
theorem pow_eq_nan {base exponent : Binary64} (hb : base < zero false) (hbf : base.isFinite = true)
    (hef : exponent.isFinite = true) (he : exponent.toInt? = none) : base.pow exponent = .nan := by
  obtain ⟨hneg, hzero, hone⟩ := isNegative_of_lt_zero hb
  have hezero := isZero_eq_false_of_toInt? he
  obtain ⟨s, m, rfl⟩ := eq_finite_of_isFinite hbf
  obtain ⟨t, k, rfl⟩ := eq_finite_of_isFinite hef
  simp only [pow, hezero, hone, hneg, hzero, he, isNaN, isInfinite, Bool.or_false, Bool.false_and,
    Bool.true_and, Bool.false_eq_true, if_false, Option.isNone_none, if_true]

end Binary64

/-- Of two tolerances one is at most as great as the other. -/
theorem Tolerance.le_total (t t' : Tolerance) : t.value ≤ t'.value ∨ t'.value ≤ t.value := by
  by_cases h : t.value < t'.value
  · exact .inl (Binary64.le_of_lt h)
  · exact .inr (Binary64.le_of_not_lt (Binary64.isNaN_right_of_lt t.positive)
      (Binary64.isNaN_right_of_lt t'.positive) h)

namespace Expr

open Binary64 (zero)

variable {t t' : Tolerance} {op : Operator} {e : Expr} {depth : Nat} {v x y : Binary64}

/-! ## Operations -/

theorem power_eq_ok : power t x y = .ok v ↔ ¬ (x.isZero = true ∧ y < zero false) ∧
    ¬ (x < zero false ∧ t.value < y.fraction.abs) ∧ x.pow y = v ∧ v.isInfinite = false ∧
      ¬ (v.isNaN = true ∧ x.isFinite = true ∧ y.isFinite = true) := by
  simp only [power, Bool.and_eq_true, and_assoc]
  constructor
  · intro h
    split at h
    · cases h
    · next hzero =>
      split at h
      · cases h
      · next hfraction =>
        split at h
        · cases h
        · next hinf =>
          split at h <;> cases h
          next hnan => exact ⟨hzero, hfraction, rfl, Bool.eq_false_iff.2 hinf, hnan⟩
  · rintro ⟨hzero, hfraction, rfl, hinf, hnan⟩
    refine (if_neg hzero).trans ((if_neg hfraction).trans ((if_neg ?_).trans (if_neg hnan)))
    exact Bool.eq_false_iff.1 hinf

/-- A power that only a greater tolerance lets pass is NaN, so none has a value under one tolerance
alone. -/
theorem power_of_power (hx : x.isFinite = true) (hy : y.isFinite = true)
    (h : power t' x y = .ok v) : power t x y = .ok v := by
  obtain ⟨hzero, -, hv, hinf, hnan⟩ := power_eq_ok.1 h
  refine power_eq_ok.2 ⟨hzero, fun ⟨hneg, hlt⟩ => hnan ?_, hv, hinf, hnan⟩
  rw [← hv, Binary64.pow_eq_nan hneg hx hy (Binary64.toInt?_eq_none_of_fraction t.positive hy hlt)]
  exact ⟨rfl, hx, hy⟩

theorem operate_of_operate (hx : x.isFinite = true) (hy : y.isFinite = true)
    (h : operate t' op x y = .ok v) : operate t op x y = .ok v := by
  cases op with
  | power => exact power_of_power hx hy h
  | add | subtract | multiply | divide | and | or => exact h

/-! ## Evaluations -/

theorem valueWithin_of_le (hle : t.value ≤ t'.value) (h : e.valueWithin t' depth = .ok v) :
    e.valueWithin t depth = .ok v := by
  induction e generalizing depth v with
  | number x => cases depth <;> exact h
  | negative e ih =>
    obtain ⟨depth, rfl⟩ := exists_depth h
    obtain ⟨x, hx, hv⟩ := valueWithin_negative_eq_ok.1 h
    exact valueWithin_negative_eq_ok.2 ⟨x, ih hx, hv⟩
  | binary op left right ihl ihr =>
    obtain ⟨depth, rfl⟩ := exists_depth h
    obtain ⟨x, y, hx, hy, hd, hv, hfin⟩ := valueWithin_binary_eq_ok.1 h
    refine valueWithin_binary_eq_ok.2 ⟨x, y, ihl hx, ihr hy, fun hop hlt => ?_, ?_, hfin⟩
    · exact hd hop (Binary64.lt_of_lt_of_le hlt hle)
    · exact operate_of_operate (isFinite_of_valueWithin hx) (isFinite_of_valueWithin hy) hv
  | undetermined | empty => cases depth <;> exact h

/-- **The tolerance decides which expressions have a value, never the value.** What has a value
under a tolerance has the same value under any smaller one, so two evaluations that both succeed
agree, whatever their tolerances. -/
theorem valueWithin_tolerance (e : Expr) :
    (∀ (t t' : Tolerance) depth v, t.value ≤ t'.value → e.valueWithin t' depth = .ok v →
      e.valueWithin t depth = .ok v) ∧
    ∀ (t t' : Tolerance) depth depth' v v', e.valueWithin t depth = .ok v →
      e.valueWithin t' depth' = .ok v' → v = v' := by
  refine ⟨fun t t' depth v => valueWithin_of_le, fun t t' depth depth' v v' h h' => ?_⟩
  have h := valueWithin_mono h (Nat.le_max_left depth depth')
  have h' := valueWithin_mono h' (Nat.le_max_right depth depth')
  rcases t.le_total t' with hle | hle
  · exact Except.ok.inj (h.symm.trans (valueWithin_of_le hle h'))
  · exact Except.ok.inj ((valueWithin_of_le hle h).symm.trans h')

theorem valueWithin_tolerance_quotient :
    (binary .divide (number .one) (number (.ofInt 4))).valueWithin .standard 2 =
      .ok (.nearest false unitsPerOne 4) :=
  (valueWithin_tolerance _).1 .standard ⟨.one, by decide +kernel⟩ 2 (.nearest false unitsPerOne 4)
    (by decide +kernel) (by decide +kernel)

end Expr
end Abacus
