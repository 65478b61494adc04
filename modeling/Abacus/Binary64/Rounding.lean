/-
Rounding of an exact quotient of natural numbers.

Every magnitude of the binary64 format is a whole number of units of
`2 ^ -1074`, so the format's rounding is a question about natural numbers:
which number of at most 53 significant bits is nearest to `num / den`, a tie
going to the even significand. `roundUnits` answers it with one integer
division, and `representable_roundUnits` says that the answer has no more bits
than the format keeps.
-/
namespace Abacus

-- Powers of numbers are the built-in ones also where an algebraic library has its own.
attribute [instance (high), default_instance high] instPowNat

/-! ## Nearest whole number -/

/-- The whole number nearest to `num / den`; halfway between two, the even one. -/
def roundHalfEven (num den : Nat) : Nat :=
  let quotient := num / den
  let rest := num % den
  if 2 * rest < den ∨ (2 * rest = den ∧ quotient % 2 = 0) then quotient else quotient + 1

theorem roundHalfEven_le (num den : Nat) : roundHalfEven num den ≤ num / den + 1 := by
  simp only [roundHalfEven]; split <;> omega

/-! ## Nearest number of 53 bits -/

/-- A number of units that 53 bits and a power of two express. -/
def Representable (units : Nat) : Prop :=
  ∃ significand exponent, significand ≤ 2 ^ 53 ∧ units = significand * 2 ^ exponent

/-- The distance between neighbouring representable numbers from `units` on, up to the next power
of two. -/
def spacing (units : Nat) : Nat := 2 ^ (units.log2 - 52)

/-- The representable number nearest to `num / den`; halfway between two, the one with the even
significand. -/
def roundUnits (num den : Nat) : Nat :=
  let grain := spacing (num / den)
  roundHalfEven num (den * grain) * grain

theorem div_spacing_lt (units : Nat) : units / spacing units < 2 ^ 53 := by
  refine (Nat.div_lt_iff_lt_mul (Nat.two_pow_pos _)).2 ?_
  rw [← Nat.pow_add]
  exact Nat.lt_of_lt_of_le Nat.lt_log2_self (Nat.pow_le_pow_right (by decide) (by omega))

theorem representable_roundUnits (num den : Nat) : Representable (roundUnits num den) := by
  refine ⟨roundHalfEven num (den * spacing (num / den)), (num / den).log2 - 52, ?_, rfl⟩
  have bound := roundHalfEven_le num (den * spacing (num / den))
  rw [← Nat.div_div_eq_div_mul] at bound
  have small := div_spacing_lt (num / den)
  omega

/-- A significand of 53 bits suffices: the largest one is twice that of the next exponent. -/
theorem Representable.significand_lt {units : Nat} (h : Representable units) :
    ∃ significand exponent, significand < 2 ^ 53 ∧ units = significand * 2 ^ exponent := by
  obtain ⟨m, e, bound, rfl⟩ := h
  by_cases largest : m = 2 ^ 53
  · refine ⟨2 ^ 52, e + 1, by decide, ?_⟩
    rw [largest, ← Nat.pow_add, ← Nat.pow_add]
    congr 1
    omega
  · exact ⟨m, e, by omega, rfl⟩

theorem Representable.spacing_dvd {units : Nat} (h : Representable units) :
    spacing units ∣ units := by
  obtain ⟨m, e, bound, rfl⟩ := h.significand_lt
  by_cases vanishes : m * 2 ^ e = 0
  · rw [vanishes]; exact Nat.dvd_zero _
  · have below : m * 2 ^ e < 2 ^ (53 + e) := by
      rw [Nat.pow_add]; exact Nat.mul_lt_mul_of_pos_right bound (Nat.two_pow_pos e)
    have short := (Nat.log2_lt vanishes).2 below
    exact Nat.dvd_mul_left_of_dvd (Nat.pow_dvd_pow 2 (by omega)) m

/-- A representable number is its own rounding. -/
theorem roundUnits_of_representable {units : Nat} (h : Representable units) :
    roundUnits units 1 = units := by
  obtain ⟨quotient, product⟩ := h.spacing_dvd
  have positive : 0 < spacing units := Nat.two_pow_pos _
  have whole : units / spacing units = quotient := by
    conv => lhs; lhs; rw [product]
    exact Nat.mul_div_cancel_left quotient positive
  have rest : units % spacing units = 0 := Nat.mod_eq_zero_of_dvd h.spacing_dvd
  simp only [roundUnits, roundHalfEven, Nat.div_one, Nat.one_mul, rest, whole]
  rw [if_pos (.inl (by omega)), Nat.mul_comm, ← product]

theorem roundHalfEven_mul_right (num den : Nat) {factor : Nat} (positive : 0 < factor) :
    roundHalfEven (num * factor) (den * factor) = roundHalfEven num den := by
  have less : 2 * (num % den * factor) < den * factor ↔ 2 * (num % den) < den := by
    rw [← Nat.mul_assoc]; exact Nat.mul_lt_mul_right positive
  have half : 2 * (num % den * factor) = den * factor ↔ 2 * (num % den) = den := by
    rw [← Nat.mul_assoc]; exact Nat.mul_right_cancel_iff positive
  simp only [roundHalfEven, Nat.mul_div_mul_right _ _ positive, Nat.mul_mod_mul_right, less, half]

/-- Rounding depends on the value of the quotient alone. -/
theorem roundUnits_mul_right (num den : Nat) {factor : Nat} (positive : 0 < factor) :
    roundUnits (num * factor) (den * factor) = roundUnits num den := by
  simp only [roundUnits, Nat.mul_div_mul_right _ _ positive]
  rw [Nat.mul_right_comm, roundHalfEven_mul_right _ _ positive]

theorem representable_zero : Representable 0 := ⟨0, 0, Nat.zero_le _, rfl⟩

end Abacus
