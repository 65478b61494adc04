/-
Bitwise operators on whole numbers.

The words of two integers combine to the word of the integers combined
(`ofInt_land`, `ofInt_lor`), so nothing is lost between integers and words. Nor is
anything lost between integers and numbers of the format: an integer that 53
bits and a power of two express is a number (`toInt?_ofInt`), and the
conjunction of two such integers is a third, because it ends in as many zeros as
either and goes no higher than the greater of the two (`representable_land`). A
disjunction can have more bits than either operand, but none of at most 53 bits
has more than 53.
-/
import Abacus.Proofs.Decimal
import Abacus.Proofs.Tolerance
import Mathlib.Data.Int.Bitwise
import Mathlib.Data.Nat.Bitwise

namespace Abacus

/-! ## Integers and words -/

theorem ofNat_ldiff (w m n : Nat) :
    BitVec.ofNat w (Nat.ldiff m n) = BitVec.ofNat w m &&& ~~~BitVec.ofNat w n := by
  apply BitVec.eq_of_getLsbD_eq
  intro i hi
  simp only [BitVec.getLsbD_and, BitVec.getLsbD_not, BitVec.getLsbD_ofNat, Nat.testBit_ldiff, hi,
    decide_true, Bool.true_and]

theorem ofInt_ofNat (w n : Nat) : BitVec.ofInt w (Int.ofNat n) = BitVec.ofNat w n :=
  BitVec.ofInt_natCast w n

/-- The word of a conjunction of integers is the conjunction of their words. -/
theorem ofInt_land (w : Nat) (a b : Int) :
    BitVec.ofInt w (a.land b) = BitVec.ofInt w a &&& BitVec.ofInt w b := by
  cases a with
  | ofNat m =>
    cases b with
    | ofNat n => rw [Int.land, ofInt_ofNat, ofInt_ofNat, BitVec.ofInt_natCast, BitVec.ofNat_and]
    | negSucc n =>
      rw [Int.land, ofInt_ofNat, BitVec.ofInt_negSucc_eq_not_ofNat, BitVec.ofInt_natCast,
        ofNat_ldiff]
  | negSucc m =>
    cases b with
    | ofNat n =>
      rw [Int.land, ofInt_ofNat, BitVec.ofInt_negSucc_eq_not_ofNat, BitVec.ofInt_natCast,
        ofNat_ldiff, BitVec.and_comm]
    | negSucc n =>
      simp only [Int.land, BitVec.ofInt_negSucc_eq_not_ofNat, BitVec.ofNat_or, BitVec.not_or]

/-- The word of a disjunction of integers is the disjunction of their words. -/
theorem ofInt_lor (w : Nat) (a b : Int) :
    BitVec.ofInt w (a.lor b) = BitVec.ofInt w a ||| BitVec.ofInt w b := by
  cases a with
  | ofNat m =>
    cases b with
    | ofNat n => rw [Int.lor, ofInt_ofNat, ofInt_ofNat, BitVec.ofInt_natCast, BitVec.ofNat_or]
    | negSucc n =>
      rw [Int.lor, ofInt_ofNat, BitVec.ofInt_negSucc_eq_not_ofNat, BitVec.ofInt_negSucc_eq_not_ofNat,
        ofNat_ldiff, BitVec.not_and, BitVec.not_not, BitVec.or_comm]
  | negSucc m =>
    cases b with
    | ofNat n =>
      rw [Int.lor, ofInt_ofNat, BitVec.ofInt_negSucc_eq_not_ofNat, BitVec.ofInt_negSucc_eq_not_ofNat,
        ofNat_ldiff, BitVec.not_and, BitVec.not_not]
    | negSucc n =>
      simp only [Int.lor, BitVec.ofInt_negSucc_eq_not_ofNat, BitVec.ofNat_and, BitVec.not_and]

theorem ofInt_eq_zero_iff {w : Nat} {a : Int} : BitVec.ofInt w a = 0#w ↔ (2 ^ w : Int) ∣ a := by
  rw [← BitVec.toNat_inj, BitVec.toNat_ofInt, Int.dvd_iff_emod_eq_zero]
  have hpos : (0 : Int) < 2 ^ w := Int.pow_pos (by decide)
  have hmod := Int.emod_nonneg a (Int.ne_of_gt hpos)
  simp
  omega

/-- A conjunction ends in as many zeros as an operand. -/
theorem dvd_land_right {k : Nat} {a b : Int} (h : (2 ^ k : Int) ∣ b) : (2 ^ k : Int) ∣ a.land b := by
  rw [← ofInt_eq_zero_iff] at h ⊢
  rw [ofInt_land, h, BitVec.and_zero]

theorem dvd_land_left {k : Nat} {a b : Int} (h : (2 ^ k : Int) ∣ a) : (2 ^ k : Int) ∣ a.land b := by
  rw [← ofInt_eq_zero_iff] at h ⊢
  rw [ofInt_land, h, BitVec.zero_and]

/-! ## Short integers -/

/-- The integers that `k` bits and a sign hold. -/
def Short (k : Nat) (a : Int) : Prop := -2 ^ k ≤ a ∧ a < 2 ^ k

theorem ldiff_le (m n : Nat) : Nat.ldiff m n ≤ m := by
  have h : Nat.ldiff m n &&& m = Nat.ldiff m n := by
    apply Nat.eq_of_testBit_eq
    intro i
    cases hm : m.testBit i <;> simp [Nat.testBit_and, Nat.testBit_ldiff, hm]
  rw [← h]
  exact Nat.and_le_right

namespace Short

variable {k : Nat} {a b : Int}

theorem ofNat_iff {n : Nat} : Short k (Int.ofNat n) ↔ n < 2 ^ k := by
  have hcast : ((2 ^ k : Nat) : Int) = 2 ^ k := by simp
  simp only [Short, Int.ofNat_eq_natCast]
  omega

theorem negSucc_iff {n : Nat} : Short k (Int.negSucc n) ↔ n < 2 ^ k := by
  have hcast : ((2 ^ k : Nat) : Int) = 2 ^ k := by simp
  simp only [Short, Int.negSucc_eq]
  omega

theorem land (ha : Short k a) (hb : Short k b) : Short k (a.land b) := by
  cases a with
  | ofNat m =>
    rw [ofNat_iff] at ha
    cases b with
    | ofNat n => exact ofNat_iff.2 (Nat.lt_of_le_of_lt Nat.and_le_left ha)
    | negSucc n => exact ofNat_iff.2 (Nat.lt_of_le_of_lt (ldiff_le m n) ha)
  | negSucc m =>
    rw [negSucc_iff] at ha
    cases b with
    | ofNat n => exact ofNat_iff.2 (Nat.lt_of_le_of_lt (ldiff_le n m) (ofNat_iff.1 hb))
    | negSucc n => exact negSucc_iff.2 (Nat.or_lt_two_pow ha (negSucc_iff.1 hb))

theorem lor (ha : Short k a) (hb : Short k b) : Short k (a.lor b) := by
  cases a with
  | ofNat m =>
    rw [ofNat_iff] at ha
    cases b with
    | ofNat n => exact ofNat_iff.2 (Nat.or_lt_two_pow ha (ofNat_iff.1 hb))
    | negSucc n => exact negSucc_iff.2 (Nat.lt_of_le_of_lt (ldiff_le n m) (negSucc_iff.1 hb))
  | negSucc m =>
    rw [negSucc_iff] at ha
    cases b with
    | ofNat n => exact negSucc_iff.2 (Nat.lt_of_le_of_lt (ldiff_le m n) ha)
    | negSucc n => exact negSucc_iff.2 (Nat.lt_of_le_of_lt Nat.and_le_left ha)

theorem mono {k' : Nat} (h : Short k a) (hle : k ≤ k') : Short k' a := by
  have hpow : (2 ^ k : Nat) ≤ 2 ^ k' := Nat.pow_le_pow_right (by decide) hle
  cases a with
  | ofNat n => exact ofNat_iff.2 (Nat.lt_of_lt_of_le (ofNat_iff.1 h) hpow)
  | negSucc n => exact negSucc_iff.2 (Nat.lt_of_lt_of_le (negSucc_iff.1 h) hpow)

theorem of_natAbs_lt (h : a.natAbs < 2 ^ k) : Short k a := by
  cases a with
  | ofNat n => exact ofNat_iff.2 h
  | negSucc n => exact negSucc_iff.2 (Nat.lt_of_succ_lt h)

theorem natAbs_le (h : Short k a) : a.natAbs ≤ 2 ^ k := by
  cases a with
  | ofNat n => exact Nat.le_of_lt (ofNat_iff.1 h)
  | negSucc n => exact negSucc_iff.1 h

end Short

/-! ## Integers that the format can hold -/

theorem two_pow_dvd_iff {e : Nat} {a : Int} : (2 ^ e : Int) ∣ a ↔ 2 ^ e ∣ a.natAbs := by
  have hcast : ((2 ^ e : Nat) : Int) = 2 ^ e := by simp
  rw [← hcast, Int.natCast_dvd]

/-- An integer is representable if 53 bits and a sign hold what stands before zeros at its end. -/
theorem representable_iff {a : Int} :
    Representable a.natAbs ↔ ∃ e, Short (53 + e) a ∧ (2 ^ e : Int) ∣ a := by
  constructor
  · intro h
    obtain ⟨s, e, hs, ha⟩ := h.significand_lt
    refine ⟨e, .of_natAbs_lt ?_, two_pow_dvd_iff.2 ⟨s, by rw [ha, Nat.mul_comm]⟩⟩
    rw [ha, Nat.pow_add]
    exact Nat.mul_lt_mul_of_pos_right hs (Nat.two_pow_pos e)
  · rintro ⟨e, hshort, hdvd⟩
    obtain ⟨q, hq⟩ := two_pow_dvd_iff.1 hdvd
    have hle := hshort.natAbs_le
    rw [hq, Nat.pow_add, Nat.mul_comm (2 ^ 53)] at hle
    exact ⟨q, e, Nat.le_of_mul_le_mul_left hle (Nat.two_pow_pos e), by rw [hq, Nat.mul_comm]⟩

theorem representable_land {a b : Int} (ha : Representable a.natAbs) (hb : Representable b.natAbs) :
    Representable (a.land b).natAbs := by
  obtain ⟨e, ha, hea⟩ := representable_iff.1 ha
  obtain ⟨f, hb, hfb⟩ := representable_iff.1 hb
  rw [representable_iff]
  rcases Nat.le_total e f with hle | hle
  · exact ⟨f, (ha.mono (by omega)).land hb, dvd_land_right hfb⟩
  · exact ⟨e, ha.land (hb.mono (by omega)), dvd_land_left hea⟩

theorem representable_of_short {a : Int} (h : Short 53 a) : Representable a.natAbs :=
  ⟨a.natAbs, 0, h.natAbs_le, by rw [Nat.pow_zero, Nat.mul_one]⟩

/-- What is left of a representable number without zeros at its end is representable. -/
theorem Representable.of_mul {n k : Nat} (h : Representable (n * 2 ^ k)) : Representable n := by
  obtain ⟨s, e, hs, hn⟩ := h
  rcases Nat.le_total k e with hle | hle
  · obtain ⟨d, rfl⟩ := Nat.exists_eq_add_of_le hle
    refine ⟨s, d, hs, Nat.eq_of_mul_eq_mul_right (Nat.two_pow_pos k) ?_⟩
    rw [hn, Nat.pow_add, Nat.mul_assoc, Nat.mul_comm (2 ^ k)]
  · obtain ⟨d, rfl⟩ := Nat.exists_eq_add_of_le hle
    have heq : n * 2 ^ d = s := by
      refine Nat.eq_of_mul_eq_mul_right (Nat.two_pow_pos e) ?_
      rw [← hn, Nat.pow_add, Nat.mul_assoc, Nat.mul_comm (2 ^ d)]
    refine ⟨n, 0, ?_, by rw [Nat.pow_zero, Nat.mul_one]⟩
    exact Nat.le_trans (Nat.le_mul_of_pos_right n (Nat.two_pow_pos d)) (heq ▸ hs)

theorem Representable.mul {n : Nat} (h : Representable n) (k : Nat) : Representable (n * 2 ^ k) := by
  obtain ⟨s, e, hs, rfl⟩ := h
  exact ⟨s, e + k, hs, by rw [Nat.pow_add, Nat.mul_assoc]⟩

theorem Representable.mul_unitsPerOne {n : Nat} (h : Representable n) :
    Representable (n * unitsPerOne) := by
  rw [unitsPerOne]; apply h.mul

theorem Representable.of_mul_unitsPerOne {n : Nat} (h : Representable (n * unitsPerOne)) :
    Representable n := by
  rw [unitsPerOne] at h; exact h.of_mul (k := 1074)

/-! ## Whole numbers -/

namespace Binary64

variable {x y : Binary64} {m n : Int}

theorem isFinite_of_toInt? (h : x.toInt? = some m) : x.isFinite = true := by
  cases x with
  | finite => rfl
  | nan | infinite => cases h

theorem representable_of_toInt? (h : x.toInt? = some m) : Representable m.natAbs := by
  obtain ⟨s, M, rfl⟩ := eq_finite_of_isFinite (isFinite_of_toInt? h)
  simp only [toInt?] at h
  split at h
  · next hmod =>
    obtain rfl := Option.some.inj h
    rw [natAbs_signed]
    have hunits : M.units / unitsPerOne * unitsPerOne = M.units :=
      Nat.div_mul_cancel (Nat.dvd_of_mod_eq_zero hmod)
    exact Representable.of_mul_unitsPerOne (hunits.symm ▸ M.representable)
  · cases h

theorem mul_unitsPerOne_lt {n k : Nat} (h : n < 2 ^ k) (hk : k ≤ 1024) :
    n * unitsPerOne < unitsLimit := by
  calc n * unitsPerOne < 2 ^ k * unitsPerOne := Nat.mul_lt_mul_of_pos_right h unitsPerOne_pos
    _ = 2 ^ (k + 1074) := (two_pow_add_1074 k).symm
    _ ≤ unitsLimit := by
      rw [unitsLimit]
      apply Nat.pow_le_pow_right (by decide)
      omega

/-- An integer that the format can hold is converted without rounding. -/
theorem toInt?_ofInt {k : Nat} (hrep : Representable m.natAbs) (hm : Short k m) (hk : k < 1024) :
    (ofInt m).toInt? = some m := by
  have hlt : m.natAbs < 2 ^ (k + 1) :=
    Nat.lt_of_le_of_lt hm.natAbs_le (Nat.pow_lt_pow_right (by decide) (Nat.lt_succ_self k))
  have hlimit := mul_unitsPerOne_lt hlt hk
  have hunits : ofInt m = .finite (m < 0) ⟨m.natAbs * unitsPerOne, hlimit, hrep.mul_unitsPerOne⟩ :=
    nearest_units (m < 0) ⟨m.natAbs * unitsPerOne, hlimit, hrep.mul_unitsPerOne⟩
  rw [hunits]
  simp only [toInt?, Nat.mul_mod_left, if_true, Nat.mul_div_cancel _ unitsPerOne_pos,
    signed_natAbs]

theorem toWord?_of_toInt? (h : x.toInt? = some m) (hm : Short 63 m) :
    x.toWord? = some (BitVec.ofInt 64 m) := by
  obtain ⟨hlower, hupper⟩ := hm
  have hmin : min m maxWord = m := by unfold maxWord; omega
  simp only [toWord?, h, hmin]
  rw [if_pos]
  omega

/-- A word of an integer is converted as the integer is. -/
theorem ofWord_ofInt (hm : Short 63 m) : ofWord (BitVec.ofInt 64 m) = ofInt m := by
  rw [ofWord, BitVec.toInt_ofInt_eq_self (by decide) hm.1 hm.2]

end Binary64

/-! ## Bitwise operators -/

namespace Expr

variable {tolerance : Tolerance} {op : Operator} {depth : Nat} {x y v : Binary64} {m n r : Int}

/-- A bitwise operator whose result can be held gives it exactly. -/
theorem bitwise_of_word {combine : BitVec 64 → BitVec 64 → BitVec 64} (hx : x.toInt? = some m)
    (hy : y.toInt? = some n) (hm : Short 63 m) (hn : Short 63 n)
    (hword : combine (.ofInt 64 m) (.ofInt 64 n) = .ofInt 64 r) (hr : Short 63 r)
    (hrep : Representable r.natAbs) :
    ∃ v, bitwise op combine x y = .ok v ∧ v.toInt? = some r := by
  refine ⟨.ofInt r, ?_, Binary64.toInt?_ofInt hrep hr (by decide)⟩
  simp only [bitwise, Binary64.toWord?_of_toInt? hx hm, Binary64.toWord?_of_toInt? hy hn, hword,
    Binary64.ofWord_ofInt hr]

theorem and_exact (hx : x.toInt? = some m) (hy : y.toInt? = some n) (hm : Short 63 m)
    (hn : Short 63 n) :
    ∃ v, operate tolerance .and x y = .ok v ∧ v.toInt? = some (m.land n) :=
  bitwise_of_word hx hy hm hn (ofInt_land 64 m n).symm (hm.land hn)
    (representable_land (Binary64.representable_of_toInt? hx) (Binary64.representable_of_toInt? hy))

theorem or_exact (hx : x.toInt? = some m) (hy : y.toInt? = some n) (hm : Short 53 m)
    (hn : Short 53 n) :
    ∃ v, operate tolerance .or x y = .ok v ∧ v.toInt? = some (m.lor n) :=
  bitwise_of_word hx hy (hm.mono (by decide)) (hn.mono (by decide)) (ofInt_lor 64 m n).symm
    ((hm.lor hn).mono (by decide)) (representable_of_short (hm.lor hn))

/-- An operator applied to two finite numbers has the value that it gives to them. -/
theorem valueWithin_numbers (hx : x.isFinite = true) (hy : y.isFinite = true) (hop : op ≠ .divide)
    (hv : operate tolerance op x y = .ok v) (hfin : v.isFinite = true) :
    (binary op (number x) (number y)).valueWithin tolerance (depth + 2) = .ok v :=
  valueWithin_binary_eq_ok.2 ⟨x, y, valueWithin_number_eq_ok.2 ⟨rfl, hx⟩,
    valueWithin_number_eq_ok.2 ⟨rfl, hy⟩, fun h => absurd h hop, hv, hfin⟩

/-- **Conjunctions are exact, and so are short disjunctions.** For whole numbers of 64 bits the
conjunction has a value, which is the two's complement conjunction of the integers without any
rounding, though these may be negative and have more than 53 bits. The disjunction is exact if the
integers have at most 53 bits and a sign. -/
theorem valueWithin_bitwise (hx : x.toInt? = some m) (hy : y.toInt? = some n)
    (tolerance : Tolerance) (depth : Nat) :
    (Short 63 m → Short 63 n →
      ∃ v, (binary .and (number x) (number y)).valueWithin tolerance (depth + 2) = .ok v ∧
        v.toInt? = some (m.land n)) ∧
    (Short 53 m → Short 53 n →
      ∃ v, (binary .or (number x) (number y)).valueWithin tolerance (depth + 2) = .ok v ∧
        v.toInt? = some (m.lor n)) := by
  have hfx := Binary64.isFinite_of_toInt? hx
  have hfy := Binary64.isFinite_of_toInt? hy
  constructor
  · intro hm hn
    obtain ⟨v, hv, hint⟩ := and_exact hx hy hm hn
    have hfin := Binary64.isFinite_of_toInt? hint
    exact ⟨v, valueWithin_numbers hfx hfy (by decide) hv hfin, hint⟩
  · intro hm hn
    obtain ⟨v, hv, hint⟩ := or_exact hx hy hm hn
    have hfin := Binary64.isFinite_of_toInt? hint
    exact ⟨v, valueWithin_numbers hfx hfy (by decide) hv hfin, hint⟩

/-- Negative integers of 53 bits, one with zeros behind them: its conjunction with another is below
both, and a disjunction is exact at the lower bound. -/
theorem valueWithin_bitwise_negative :
    let x := Binary64.ofInt (-9223372036854774784)
    let y := Binary64.ofInt (-9007199254740991)
    let z := Binary64.ofInt (-9007199254740992)
    (x.toInt? = some (-9223372036854774784) ∧ y.toInt? = some (-9007199254740991) ∧
      z.toInt? = some (-9007199254740992)) ∧
    (Short 63 (-9223372036854774784) ∧ Short 63 (-9007199254740991) ∧
      ∃ v, (binary .and (number x) (number y)).valueWithin .standard 2 = .ok v ∧
        v.toInt? = some (-9223372036854775808)) ∧
    (Short 53 (-9007199254740991) ∧ Short 53 (-9007199254740992) ∧
      ∃ v, (binary .or (number y) (number z)).valueWithin .standard 2 = .ok v ∧
        v.toInt? = some (-9007199254740991)) := by
  intro x y z
  have hx : x.toInt? = some (-9223372036854774784) := by decide +kernel
  have hy : y.toInt? = some (-9007199254740991) := by decide +kernel
  have hz : z.toInt? = some (-9007199254740992) := by decide +kernel
  have hland : (-9223372036854774784 : Int).land (-9007199254740991) = -9223372036854775808 := by
    decide
  have hlor : (-9007199254740991 : Int).lor (-9007199254740992) = -9007199254740991 := by
    decide
  have hm : Short 63 (-9223372036854774784) := ⟨by decide, by decide⟩
  have hn : Short 53 (-9007199254740991) := ⟨by decide, by decide⟩
  have hr : Short 53 (-9007199254740992) := ⟨by decide, by decide⟩
  have hand := (valueWithin_bitwise hx hy .standard 0).1 hm (hn.mono (by decide))
  have hor := (valueWithin_bitwise hy hz .standard 0).2 hn hr
  rw [hland] at hand
  rw [hlor] at hor
  exact ⟨⟨hx, hy, hz⟩, ⟨hm, hn.mono (by decide), hand⟩, hn, hr, hor⟩

end Expr
end Abacus
