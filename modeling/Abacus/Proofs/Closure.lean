/-
Bitwise expressions never fail.

The whole numbers of 64 bits together with the upper end of their range, `2 ^ 63`,
are closed under negation, which maps the ends onto each other, and under the
bitwise operators: the upper end counts as the largest word, and a word that has
to be rounded is rounded to a whole number within the range, because the ends
can be held (`roundUnits_le`). So an expression of signs and bitwise operators
over such numbers runs into nothing but a lack of depth.
-/
import Mathlib.Data.Int.Bitwise
import Abacus.Proofs.Words

namespace Abacus

/-! ## Rounding within bounds -/

theorem log2_le_log2 {m n : Nat} (h : m ≤ n) : m.log2 ≤ n.log2 := by
  by_cases hm : m = 0
  · rw [hm, Nat.log2_zero]
    exact Nat.zero_le _
  · rw [Nat.le_log2 (by omega)]
    exact Nat.le_trans (Nat.log2_self_le hm) h

theorem spacing_dvd_spacing {m n : Nat} (h : m ≤ n) : spacing m ∣ spacing n :=
  Nat.pow_dvd_pow 2 (Nat.sub_le_sub_right (log2_le_log2 h) 52)

/-- Nothing is rounded beyond a representable number that it does not exceed. -/
theorem roundUnits_le {n bound : Nat} (hb : Representable bound) (h : n ≤ bound) :
    roundUnits n 1 ≤ bound := by
  rcases Nat.eq_or_lt_of_le h with rfl | hlt
  · exact Nat.le_of_eq (roundUnits_of_representable hb)
  have hpos : 0 < spacing n := Nat.two_pow_pos _
  -- The bound is on the grid of `n`, and `n` below it.
  obtain ⟨k, hk⟩ := Nat.dvd_trans (spacing_dvd_spacing h) hb.spacing_dvd
  have hcell : n / spacing n < k := by
    rw [Nat.div_lt_iff_lt_mul hpos, Nat.mul_comm, ← hk]
    exact hlt
  have hround := roundHalfEven_le n (spacing n)
  simp only [roundUnits, Nat.div_one, Nat.one_mul]
  calc roundHalfEven n (spacing n) * spacing n ≤ k * spacing n :=
        Nat.mul_le_mul_right _ (by omega)
    _ = bound := by rw [hk, Nat.mul_comm]

/-- What is rounded keeps the zeros at its end, or all that it has stands before them. -/
theorem dvd_roundUnits (n k : Nat) : 2 ^ k ∣ roundUnits (n * 2 ^ k) 1 := by
  rcases Nat.lt_or_ge n (2 ^ 53) with hn | hn
  · rw [roundUnits_of_representable ⟨n, k, Nat.le_of_lt hn, rfl⟩]
    exact Nat.dvd_mul_left ..
  · have hlog : 53 + k ≤ (n * 2 ^ k).log2 := by
      rw [Nat.le_log2 (Nat.ne_of_gt (Nat.mul_pos (by omega) (Nat.two_pow_pos k))), Nat.pow_add]
      exact Nat.mul_le_mul_right _ hn
    simp only [roundUnits, Nat.div_one, Nat.one_mul]
    exact Nat.dvd_mul_left_of_dvd (Nat.pow_dvd_pow 2 (by omega)) _

theorem unitsPerOne_dvd_roundUnits (n : Nat) : unitsPerOne ∣ roundUnits (n * unitsPerOne) 1 := by
  rw [unitsPerOne]; apply dvd_roundUnits

/-! ## Words -/

namespace Binary64

variable {x y : Binary64}

/-- A whole number of 64 bits, or the upper end of their range. -/
def IsWhole64 (x : Binary64) : Prop := ∃ m, x.toInt? = some m ∧ -2 ^ 63 ≤ m ∧ m ≤ 2 ^ 63

theorem IsWhole64.isFinite (h : x.IsWhole64) : x.isFinite = true := by
  obtain ⟨m, hm, -⟩ := h
  exact isFinite_of_toInt? hm

theorem toInt?_neg {m : Int} (h : x.toInt? = some m) : (-x).toInt? = some (-m) := by
  obtain ⟨s, M, rfl⟩ := eq_finite_of_isFinite (isFinite_of_toInt? h)
  show (finite (!s) M).toInt? = _
  simp only [toInt?] at h ⊢
  split at h
  · next hmod =>
    obtain rfl := Option.some.inj h
    rw [if_pos hmod, signed_not]
  · cases h

theorem IsWhole64.neg (h : x.IsWhole64) : (-x).IsWhole64 := by
  obtain ⟨m, hm, hlower, hupper⟩ := h
  exact ⟨-m, toInt?_neg hm, by omega, by omega⟩

/-- An integer of the range is rounded to a whole number of the range. -/
theorem isWhole64_ofInt {m : Int} (hlower : -2 ^ 63 ≤ m) (hupper : m ≤ 2 ^ 63) :
    (ofInt m).IsWhole64 := by
  have hbound : Representable (2 ^ 63 * unitsPerOne) :=
    Representable.mul_unitsPerOne ⟨1, 63, by decide, by decide⟩
  have hle : roundUnits (m.natAbs * unitsPerOne) 1 ≤ 2 ^ 63 * unitsPerOne :=
    roundUnits_le hbound (Nat.mul_le_mul_right _ (by omega))
  have hlimit : roundUnits (m.natAbs * unitsPerOne) 1 < unitsLimit :=
    Nat.lt_of_le_of_lt hle (mul_unitsPerOne_lt (k := 64) (by decide) (by decide))
  have hfinite : ofInt m = .finite (m < 0) ⟨roundUnits (m.natAbs * unitsPerOne) 1, hlimit,
      representable_roundUnits _ _⟩ := by
    rw [ofInt, nearest, dif_pos hlimit]
  obtain ⟨n, hn⟩ := unitsPerOne_dvd_roundUnits m.natAbs
  have hvalue : (ofInt m).toInt? = some (signed (m < 0) n) := by
    rw [hfinite]
    simp only [toInt?, hn, Nat.mul_mod_right, if_true, Nat.mul_div_cancel_left n unitsPerOne_pos]
  have hn : n ≤ 2 ^ 63 := by
    rw [hn, Nat.mul_comm] at hle
    exact Nat.le_of_mul_le_mul_right hle unitsPerOne_pos
  refine ⟨_, hvalue, ?_⟩
  unfold signed
  split <;> omega

theorem isWhole64_ofWord (word : BitVec 64) : (ofWord word).IsWhole64 :=
  isWhole64_ofInt word.le_toInt (Int.le_of_lt word.toInt_lt)

theorem IsWhole64.toWord? (h : x.IsWhole64) : ∃ word, x.toWord? = some word := by
  obtain ⟨m, hm, hrange⟩ := h
  refine ⟨BitVec.ofInt 64 (min m maxWord), ?_⟩
  simp only [Binary64.toWord?, hm, if_pos hrange]

end Binary64

/-! ## Expressions -/

namespace Expr

variable {tolerance : Tolerance} {op : Operator} {e left right part : Expr} {depth : Nat}
  {x y : Binary64}

/-- The expressions of negations and bitwise operators on whole numbers of 64 bits. -/
def Bitwise : Expr → Prop
  | number value => value.IsWhole64
  | negative operand => operand.Bitwise
  | binary op left right => (op = .and ∨ op = .or) ∧ left.Bitwise ∧ right.Bitwise
  | undetermined .. | empty => False

/-- How many levels an expression has. -/
def levels : Expr → Nat
  | number _ | empty => 1
  | negative operand => operand.levels + 1
  | binary _ left right | undetermined left right => max left.levels right.levels + 1

theorem operate_isWhole64 (hop : op = .and ∨ op = .or) (hx : x.IsWhole64) (hy : y.IsWhole64) :
    ∃ v, operate tolerance op x y = .ok v ∧ v.IsWhole64 := by
  obtain ⟨a, ha⟩ := hx.toWord?
  obtain ⟨b, hb⟩ := hy.toWord?
  rcases hop with rfl | rfl
  · exact ⟨.ofWord (a &&& b), by simp only [operate, bitwise, ha, hb],
      Binary64.isWhole64_ofWord _⟩
  · exact ⟨.ofWord (a ||| b), by simp only [operate, bitwise, ha, hb],
      Binary64.isWhole64_ofWord _⟩

theorem exists_depth_of_levels_le (h : e.levels ≤ depth) : ∃ k, depth = k + 1 := by
  cases depth with
  | zero => cases e <;> cases h
  | succ k => exact ⟨k, rfl⟩

namespace Bitwise

/-- There is a value with as much depth as there are levels. -/
theorem value (h : e.Bitwise) (hle : e.levels ≤ depth) :
    ∃ v, e.valueWithin tolerance depth = .ok v ∧ v.IsWhole64 := by
  obtain ⟨depth, rfl⟩ := exists_depth_of_levels_le hle
  induction e generalizing depth with
  | number x => exact ⟨x, valueWithin_number_eq_ok.2 ⟨rfl, h.isFinite⟩, h⟩
  | negative e ih =>
    have hle := Nat.le_of_succ_le_succ hle
    obtain ⟨depth, rfl⟩ := exists_depth_of_levels_le hle
    obtain ⟨v, hv, hwhole⟩ := ih h depth hle
    exact ⟨-v, valueWithin_negative_eq_ok.2 ⟨v, hv, rfl, hwhole.neg.isFinite⟩, hwhole.neg⟩
  | binary op left right ihl ihr =>
    obtain ⟨hop, hl, hr⟩ := h
    have hle := Nat.max_le.1 (Nat.le_of_succ_le_succ hle)
    obtain ⟨depth, rfl⟩ := exists_depth_of_levels_le hle.1
    obtain ⟨x, hx, hwx⟩ := ihl hl depth hle.1
    obtain ⟨y, hy, hwy⟩ := ihr hr depth hle.2
    obtain ⟨v, hv, hwv⟩ := operate_isWhole64 hop hwx hwy
    have hdivide : op ≠ .divide := by rintro rfl; simp at hop
    exact ⟨v, valueWithin_binary_eq_ok.2
      ⟨x, y, hx, hy, fun hd => absurd hd hdivide, hv, hwv.isFinite⟩, hwv⟩
  | undetermined | empty => exact h.elim

theorem isWhole64 {v : Binary64} (h : e.Bitwise) (hv : e.valueWithin tolerance depth = .ok v) :
    v.IsWhole64 := by
  obtain ⟨w, hw, hwhole⟩ := h.value (Nat.le_max_right depth e.levels)
  obtain rfl := Except.ok.inj ((valueWithin_mono hv (Nat.le_max_left depth e.levels)).symm.trans hw)
  exact hwhole

theorem of_fill {K : Context} (h : (K.fill part).Bitwise) : part.Bitwise := by
  induction K with
  | hole => exact h
  | negative K ih => exact ih h
  | binaryLeft op K right ih => exact ih h.2.1
  | binaryRight op left K ih => exact ih h.2.2
  | undeterminedLeft | undeterminedRight => exact h.elim

end Bitwise

/-- **Bitwise expressions never fail half-way.** An expression of negations and bitwise operators on
whole numbers from `-2 ^ 63` to `2 ^ 63`, both ends included, has a value unless it runs out of
depth, which it does not with as much depth as it has levels; and its value and those of all its
parts are again whole numbers of that range. -/
theorem valueWithin_closed (h : e.Bitwise) (tolerance : Tolerance) (depth : Nat) :
    (e.levels ≤ depth → e.valueWithin tolerance depth ≠ .error .tooDeep) ∧
    (e.valueWithin tolerance depth ≠ .error .tooDeep →
      (∃ v, e.valueWithin tolerance depth = .ok v ∧ v.IsWhole64) ∧
      ∀ (K : Context) part, e = K.fill part →
        ∃ v, part.valueWithin tolerance depth = .ok v ∧ v.IsWhole64) := by
  refine ⟨fun hle hdeep => ?_, fun hdeep => ?_⟩
  · obtain ⟨v, hv, -⟩ := h.value hle
    rw [hv] at hdeep
    cases hdeep
  · obtain ⟨v, hv, hwhole⟩ := h.value (Nat.le_max_right depth e.levels)
    rw [valueWithin_settled hdeep (Nat.le_max_left depth e.levels)] at hv
    refine ⟨⟨v, hv, hwhole⟩, fun K part he => ?_⟩
    subst he
    obtain ⟨w, hw⟩ := valueWithin_part hv
    exact ⟨w, hw, h.of_fill.isWhole64 hw⟩

/-- The upper end of the range combines with itself as the largest word, which is rounded up to it
again; and its negation is the lower end. -/
theorem valueWithin_closed_ends :
    let top := number (.ofInt (2 ^ 63))
    let e := binary .or (binary .and top top) (negative top)
    e.Bitwise ∧ e.valueWithin .standard 3 ≠ .error .tooDeep ∧
      (∃ v, e.valueWithin .standard 3 = .ok v ∧ v.IsWhole64) ∧
      (∃ v, (binary .and top top).valueWithin .standard 3 = .ok v ∧ v.IsWhole64) ∧
      (binary .and top top).valueWithin .standard 3 = .ok (.ofInt (2 ^ 63)) ∧
      (negative top).valueWithin .standard 3 = .ok (.ofInt (-2 ^ 63)) := by
  intro top e
  have htop : (Binary64.ofInt (2 ^ 63)).IsWhole64 := ⟨2 ^ 63, by decide +kernel, by decide, by decide⟩
  have h : e.Bitwise := ⟨.inr rfl, ⟨.inl rfl, htop, htop⟩, htop⟩
  have hdeep := (valueWithin_closed h .standard 3).1 (by decide)
  obtain ⟨hvalue, hparts⟩ := (valueWithin_closed h .standard 3).2 hdeep
  exact ⟨h, hdeep, hvalue, hparts (.binaryLeft .or .hole (negative top)) _ rfl, by decide +kernel,
    by decide +kernel⟩

end Expr
end Abacus
