/-
The written form of a magnitude.

`Magnitude.shortest` always reads back as the magnitude it is the shortest
decimal of, and its point stands where the value has it: a value from
`10 ^ low` up to below `10 ^ high` has a point behind `low` and not behind
`high`. A magnitude reaches a power of ten if its value is at least that power;
all bounds on its digits come down to the powers that it reaches.
-/
import Abacus.Proofs.Decimal

namespace Abacus

/-! ## Digits -/

theorem isDigit_of_mem_toDigits {n : Nat} : ∀ c ∈ Nat.toDigits 10 n, c.isDigit = true :=
  fun _ h => Nat.isDigit_of_mem_toDigits (by decide) (by decide) h

theorem lt_pow_length_toDigits (n : Nat) : n < 10 ^ (Nat.toDigits 10 n).length :=
  (Nat.length_toDigits_le_iff (by decide) Nat.length_toDigits_pos).1 (Nat.le_refl _)

theorem pow_le_of_length_toDigits {n k : Nat} (hn : 0 < n)
    (h : (Nat.toDigits 10 n).length = k + 1) : 10 ^ k ≤ n := by
  cases k with
  | zero => exact hn
  | succ k =>
    rw [← Nat.not_lt, ← Nat.length_toDigits_le_iff (by decide) (Nat.succ_pos k)]
    omega

/-- A number from `10 ^ k` up to below the next power has `k + 1` digits. -/
theorem length_toDigits_eq {n k : Nat} (hl : 10 ^ k ≤ n) (hu : n < 10 ^ (k + 1)) :
    (Nat.toDigits 10 n).length = k + 1 := by
  have hle := (Nat.length_toDigits_le_iff (b := 10) (by decide) (Nat.succ_pos k)).2 hu
  have hlt : 10 ^ k < 10 ^ (Nat.toDigits 10 n).length :=
    Nat.lt_of_le_of_lt hl (lt_pow_length_toDigits n)
  have := (Nat.pow_lt_pow_iff_right (by decide)).1 hlt
  omega

theorem length_toDigits_mul_pow {n : Nat} (hn : 0 < n) (k : Nat) :
    (Nat.toDigits 10 (n * 10 ^ k)).length = (Nat.toDigits 10 n).length + k := by
  obtain ⟨l, hl⟩ := Nat.exists_eq_add_of_lt (Nat.length_toDigits_pos (b := 10) (n := n))
  rw [Nat.zero_add] at hl
  have hlow := pow_le_of_length_toDigits hn hl
  have hup := lt_pow_length_toDigits n
  rw [hl] at hup
  have := @length_toDigits_eq (n * 10 ^ k) (l + k)
    (by rw [Nat.pow_add]; exact Nat.mul_le_mul_right _ hlow)
    (by rw [Nat.add_right_comm, Nat.pow_add]; exact Nat.mul_lt_mul_of_pos_right hup (Nat.pow_pos (by decide)))
  omega

namespace Decimal

/-- How many digits stand before the point; fewer than none if zeros stand behind it. -/
def point (d : Decimal) : Int := (Nat.toDigits 10 d.digits).length + d.exponent

theorem trim_spec (count : Nat) (d : Decimal) : ∃ digits zeros : Nat,
    d.trim count = ⟨digits, d.exponent + zeros⟩ ∧ d.digits = digits * 10 ^ zeros := by
  induction count generalizing d with
  | zero => exact ⟨d.digits, 0, by simp [trim], by simp⟩
  | succ count ih =>
    rw [trim]
    split
    · next h =>
      obtain ⟨digits, zeros, ht, hd⟩ := ih ⟨d.digits / 10, d.exponent + 1⟩
      refine ⟨digits, zeros + 1, ?_, ?_⟩
      · rw [ht]; congr 1; simp only; omega
      · simp only at hd
        rw [Nat.pow_succ, ← Nat.mul_assoc, ← hd]
        omega
    · exact ⟨d.digits, 0, by simp, by simp⟩

theorem ofDecimal_trim (negative : Bool) (count : Nat) (d : Decimal) :
    Binary64.ofDecimal negative (d.trim count) = Binary64.ofDecimal negative d := by
  obtain ⟨digits, zeros, ht, hd⟩ := trim_spec count d
  rw [ht, ← Binary64.ofDecimal_scale negative digits zeros, ← hd, Int.add_sub_cancel]

theorem point_trim {d : Decimal} (hd : 0 < d.digits) (count : Nat) :
    (d.trim count).point = d.point := by
  obtain ⟨digits, zeros, ht, hmul⟩ := trim_spec count d
  have hpos : 0 < digits := by
    rw [hmul] at hd; exact Nat.pos_of_mul_pos_right hd
  have := length_toDigits_mul_pow hpos zeros
  rw [ht]
  simp only [point, hmul]
  omega

end Decimal

namespace Magnitude

/-! ## Powers of ten -/

/-- The value is at least the power of ten. -/
def Reaches (m : Magnitude) (power : Int) : Prop :=
  unitsPerOne * 10 ^ power.toNat ≤ m.units * 10 ^ (-power).toNat

/-- A comparison with a power of ten is the same at every scale. -/
theorem reaches_iff {m : Magnitude} {power : Int} {i j : Nat} (h : power = j - i) :
    m.Reaches power ↔ unitsPerOne * 10 ^ j ≤ m.units * 10 ^ i := by
  obtain ⟨k, hj, hi⟩ : ∃ k, j = power.toNat + k ∧ i = (-power).toNat + k :=
    ⟨i - (-power).toNat, by omega, by omega⟩
  rw [Reaches, hj, hi, Nat.pow_add, Nat.pow_add, ← Nat.mul_assoc, ← Nat.mul_assoc]
  exact (Nat.mul_le_mul_right_iff (Nat.pow_pos (by decide))).symm

theorem Reaches.of_le {m : Magnitude} {power power' : Int} (h : m.Reaches power)
    (hle : power' ≤ power) : m.Reaches power' := by
  obtain ⟨k, rfl⟩ := Int.le.dest hle
  rw [reaches_iff (i := (-power').toNat) (j := power'.toNat + k) (by omega)] at h
  refine Nat.le_trans ?_ h
  exact Nat.mul_le_mul_left _ (Nat.pow_le_pow_right (by decide) (Nat.le_add_right _ _))

theorem Reaches.lt_of_not {m : Magnitude} {power power' : Int} (h : m.Reaches power)
    (h' : ¬ m.Reaches power') : power < power' :=
  Int.not_le.1 fun hle => h' (h.of_le hle)

theorem unitsPerOne_le_pow : unitsPerOne ≤ 10 ^ 400 := by decide +kernel

theorem unitsPerOne_le_units {m : Magnitude} (h : m.units ≠ 0) :
    unitsPerOne ≤ m.units * 10 ^ 400 :=
  Nat.le_trans unitsPerOne_le_pow (Nat.le_mul_of_pos_left _ (Nat.pos_of_ne_zero h))

theorem reaches_place {m : Magnitude} (h : m.units ≠ 0) : m.Reaches (m.place - 1) := by
  obtain ⟨k, hk⟩ := Nat.exists_eq_add_of_lt
    (Nat.length_toDigits_pos (b := 10) (n := m.units * 10 ^ 400 / unitsPerOne))
  rw [Nat.zero_add] at hk
  rw [reaches_iff (i := 400) (j := k) (by rw [place, hk]; omega), Nat.mul_comm,
    ← Nat.le_div_iff_mul_le unitsPerOne_pos]
  exact pow_le_of_length_toDigits (Nat.div_pos (unitsPerOne_le_units h) unitsPerOne_pos) hk

theorem not_reaches_place (m : Magnitude) : ¬ m.Reaches m.place := by
  have hplace : m.place =
      (Nat.toDigits 10 (m.units * 10 ^ 400 / unitsPerOne)).length - (400 : Nat) := rfl
  rw [reaches_iff hplace, Nat.mul_comm, ← Nat.le_div_iff_mul_le unitsPerOne_pos, Nat.not_le]
  exact lt_pow_length_toDigits _

theorem place_gt (m : Magnitude) : -400 < m.place := by
  have := Nat.length_toDigits_pos (b := 10) (n := m.units * 10 ^ 400 / unitsPerOne)
  unfold place; omega

/-! ## Candidates -/

/-- How many times the power of ten goes into the value. -/
def multiples (m : Magnitude) (exponent : Int) : Nat :=
  m.units * 10 ^ (-exponent).toNat / (unitsPerOne * 10 ^ exponent.toNat)

theorem pow_le_multiples {m : Magnitude} {exponent power : Int} {k : Nat}
    (h : power = exponent + k) : 10 ^ k ≤ m.multiples exponent ↔ m.Reaches power := by
  rw [reaches_iff (i := (-exponent).toNat) (j := exponent.toNat + k) (by omega), multiples,
    Nat.le_div_iff_mul_le (Nat.mul_pos unitsPerOne_pos (Nat.pow_pos (by decide))), Nat.mul_comm,
    Nat.mul_assoc, Nat.pow_add]

theorem neighbours_spec {m : Magnitude} {exponent : Int} {d : Decimal}
    (h : d ∈ m.neighbours exponent) : d.exponent = exponent ∧
      (d.digits = m.multiples exponent ∨ d.digits = m.multiples exponent + 1) := by
  simp only [neighbours, List.mem_cons, List.not_mem_nil, or_false] at h
  rcases h with rfl | rfl
  · refine ⟨rfl, ?_⟩
    simp only [roundHalfEven, multiples]
    split <;> simp
  · refine ⟨rfl, ?_⟩
    simp only [multiples]
    split <;> simp [*]

/-- A neighbour on the grid of `count + 1` digits has that many digits, or it is the next power of
ten. -/
theorem neighbours_digits {m : Magnitude} (hm : m.units ≠ 0) {count : Nat} {d : Decimal}
    (h : d ∈ m.neighbours (m.place - (count + 1))) : 0 < d.digits ∧
      (d.point = m.place ∨ d = ⟨10 ^ (count + 1), m.place - (count + 1 : Nat)⟩) := by
  obtain ⟨he, hd⟩ := neighbours_spec h
  have hlow : 10 ^ count ≤ m.multiples (m.place - (count + 1)) :=
    (pow_le_multiples (by omega)).2 (reaches_place hm)
  have hup : m.multiples (m.place - (count + 1)) < 10 ^ (count + 1) := by
    have hplace : m.place = m.place - (count + 1) + ((count + 1 : Nat) : Int) := by omega
    rw [← Nat.not_le, pow_le_multiples hplace]
    exact not_reaches_place m
  have hpos : 0 < 10 ^ count := Nat.pow_pos (by decide)
  refine ⟨by omega, ?_⟩
  obtain ⟨digits, exponent⟩ := d
  simp only at he hd
  subst he
  by_cases hfull : digits < 10 ^ (count + 1)
  · left
    rw [Decimal.point, length_toDigits_eq (by omega) hfull]
    simp only; omega
  · right
    rw [Decimal.mk.injEq]
    omega

theorem mul_ten_pow (n places : Nat) : n * 10 ^ places = n * 5 ^ places * 2 ^ places := by
  rw [Nat.mul_assoc, ← Nat.mul_pow]

theorem expansion_scale (m : Magnitude) :
    m.units * 10 ^ 1074 = m.expansion.digits * unitsPerOne := by
  rw [expansion, unitsPerOne]; apply mul_ten_pow

theorem expansion_reads (m : Magnitude) :
    Binary64.ofDecimal false m.expansion = .finite false m := by
  rw [← Binary64.nearest_units]
  refine Binary64.nearest_congr false (roundUnits_eq_of_mul_eq (Nat.pow_pos (by decide))
    Nat.one_pos ?_)
  have hzero : m.expansion.exponent.toNat = 0 := rfl
  have hplaces : (-m.expansion.exponent).toNat = 1074 := rfl
  rw [hzero, hplaces, Nat.pow_zero, Nat.mul_one, Nat.mul_one, expansion_scale]

theorem pow_le_expansion {m : Magnitude} {power : Int} {k : Nat} (h : power = k - 1074) :
    10 ^ k ≤ m.expansion.digits ↔ m.Reaches power := by
  rw [reaches_iff (i := 1074) h, expansion_scale, Nat.mul_comm]
  exact (Nat.mul_le_mul_right_iff unitsPerOne_pos).symm

theorem expansion_point {m : Magnitude} (hm : m.units ≠ 0) :
    0 < m.expansion.digits ∧ m.expansion.point = m.place := by
  have hgt := m.place_gt
  obtain ⟨k, hk⟩ : ∃ k : Nat, m.place = k + 1 - 1074 := ⟨(m.place + 1073).toNat, by omega⟩
  have hlow : 10 ^ k ≤ m.expansion.digits := (pow_le_expansion (by omega)).2 (reaches_place hm)
  have hup : m.expansion.digits < 10 ^ (k + 1) := by
    rw [← Nat.not_le, pow_le_expansion (show m.place = ((k + 1 : Nat) : Int) - 1074 by omega)]
    exact not_reaches_place m
  have hpos : 0 < 10 ^ k := Nat.pow_pos (by decide)
  refine ⟨by omega, ?_⟩
  rw [Decimal.point, length_toDigits_eq hlow hup, hk]
  show ((k + 1 : Nat) : Int) + -1074 = k + 1 - 1074
  omega

/-! ## The shortest decimal -/

/-- The shortest decimal is found among the neighbours, or it is all digits of the value; its last
zeros are left out. -/
theorem shortest_eq_trim {m : Magnitude} (hm : m.units ≠ 0) : ∃ (d : Decimal) (count : Nat),
    m.shortest = d.trim count ∧ Binary64.ofDecimal false d = .finite false m ∧ 0 < d.digits ∧
      (d.point = m.place ∨ ∃ k : Nat, d = ⟨10 ^ k, m.place - k⟩) := by
  rw [shortest, if_neg hm]
  refine ⟨_, _, rfl, ?_⟩
  cases hf : (List.range 17).findSome? fun (count : Nat) =>
      (m.neighbours (m.place - (count + 1))).find? m.readsAs with
  | none =>
    obtain ⟨hpos, hpoint⟩ := expansion_point hm
    exact ⟨expansion_reads m, hpos, .inl hpoint⟩
  | some d =>
    obtain ⟨count, -, hfind⟩ := List.exists_of_findSome?_eq_some hf
    obtain ⟨hpos, hpoint⟩ := neighbours_digits hm (List.mem_of_find?_eq_some hfind)
    have hreads := List.find?_some hfind
    rw [readsAs, decide_eq_true_iff] at hreads
    exact ⟨hreads, hpos, hpoint.imp_right fun h => ⟨count + 1, h⟩⟩

/-- The written form of a magnitude reads back as the magnitude. -/
theorem shortest_reads (m : Magnitude) :
    Binary64.ofDecimal false m.shortest = .finite false m := by
  by_cases hm : m.units = 0
  · rw [shortest, if_pos hm, ← Binary64.nearest_units]
    refine Binary64.nearest_congr false (roundUnits_eq_of_mul_eq (Nat.pow_pos (by decide))
      Nat.one_pos ?_)
    rw [hm, Nat.zero_mul, Nat.zero_mul, Nat.zero_mul, Nat.zero_mul]
  · obtain ⟨d, count, hs, hd, -⟩ := shortest_eq_trim hm
    rw [hs, Decimal.ofDecimal_trim, hd]

/-- The point of the shortest decimal stands behind the powers of ten that the value reaches. Only
if the value is read from the next power can the point stand behind that too. -/
theorem point_shortest {m : Magnitude} {low high : Int} (hl : m.Reaches low)
    (hh : ¬ m.Reaches high) (hne : Binary64.ofDecimal false ⟨1, high⟩ ≠ .finite false m) :
    low < m.shortest.point ∧ m.shortest.point ≤ high := by
  have hm : m.units ≠ 0 := by
    intro hm
    rw [Reaches, hm, Nat.zero_mul] at hl
    exact absurd (Nat.mul_pos unitsPerOne_pos (Nat.pow_pos (by decide))) (Nat.not_lt.2 hl)
  have hplace := hl.lt_of_not m.not_reaches_place
  have hplace' := (reaches_place hm).lt_of_not hh
  obtain ⟨d, count, hs, hd, hpos, hpoint⟩ := shortest_eq_trim hm
  rw [hs, Decimal.point_trim hpos]
  rcases hpoint with hpoint | ⟨k, rfl⟩
  · omega
  · -- The point of a power of ten stands one place further, but not behind `high`.
    have hscale := Binary64.ofDecimal_scale false 1 k m.place
    rw [Nat.one_mul, hd] at hscale
    have hhigh : m.place ≠ high := by
      intro hhigh
      rw [hhigh] at hscale
      exact hne hscale.symm
    rw [Decimal.point, length_toDigits_eq (k := k) (Nat.le_refl _)
      (Nat.pow_lt_pow_succ (by decide))]
    simp only
    omega

end Magnitude
end Abacus
