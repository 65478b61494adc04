/-
What the sign of a zero decides.

Expressions that are the same but for the signs of zeros come to the same
outcome: both have a value or neither has one. No operation turns a zero's
sign into anything but the sign of a zero (`Alike.add`, `Alike.mul`,
`Alike.div`, `Alike.pow`), because the places where it could, a quotient by zero
and a negative power of zero, are refused, and no check sees it. It shows in
two places only: in the sign of a value that is zero, and in the message of a
refused bitwise operator.
-/
import Abacus.Proofs.Decimal
import Abacus.Proofs.Tolerance

namespace Abacus
namespace Binary64

/-! ## Numbers alike -/

/-- The same number, or two zeros. -/
def Alike (x y : Binary64) : Prop := x = y ∨ x.isZero = true ∧ y.isZero = true

/-- Counts that are equal with their signs are equal, and so are the signs unless they are zero. -/
theorem signed_eq {s t : Bool} {m n : Nat} (h : signed s m = signed t n) :
    m = n ∧ (m = 0 ∨ s = t) := by
  cases s <;> cases t <;> simp [signed] at h ⊢ <;> omega

theorem signed_zero (s : Bool) : signed s 0 = 0 := by
  cases s <;> rfl

theorem isNaN_of_isFinite {x : Binary64} (h : x.isFinite = true) : x.isNaN = false := by
  cases x <;> first | rfl | cases h

theorem isInfinite_of_isFinite {x : Binary64} (h : x.isFinite = true) : x.isInfinite = false := by
  cases x <;> first | rfl | cases h

theorem isZero_zero (s : Bool) : (zero s).isZero = true := rfl

theorem isZero_iff {x : Binary64} : x.isZero = true ↔ ∃ s, x = zero s := by
  constructor
  · intro h
    cases x with
    | nan | infinite => cases h
    | finite s m =>
      obtain ⟨units, bound, representable⟩ := m
      simp only [isZero, beq_iff_eq] at h
      subst h
      exact ⟨s, rfl⟩
  · rintro ⟨s, rfl⟩
    exact isZero_zero s

theorem alike_iff {x y : Binary64} : Alike x y ↔ x = y ∨ ∃ s t, x = zero s ∧ y = zero t := by
  simp only [Alike, isZero_iff, exists_and_left, exists_and_right]

theorem alike_zero (s t : Bool) : Alike (zero s) (zero t) := .inr ⟨rfl, rfl⟩

namespace Alike

variable {x y z x' y' : Binary64}

theorem refl (x : Binary64) : Alike x x := .inl rfl

theorem symm (h : Alike x y) : Alike y x :=
  h.elim (fun h => .inl h.symm) fun ⟨hx, hy⟩ => .inr ⟨hy, hx⟩

theorem trans (h : Alike x y) (h' : Alike y z) : Alike x z := by
  rcases h with rfl | ⟨hx, hy⟩
  · exact h'
  · rcases h' with rfl | ⟨-, hz⟩
    · exact .inr ⟨hx, hy⟩
    · exact .inr ⟨hx, hz⟩

/-- Numbers of equal value are alike. -/
theorem of_equal (h : x.equal y = true) : Alike x y := by
  cases x with
  | nan => cases y <;> cases h
  | infinite s =>
    cases y with
    | nan => cases h
    | infinite t =>
      simp only [equal, rank?, beq_iff_eq] at h
      rw [(signed_eq h).2.resolve_left (Nat.ne_of_gt unitsLimit_pos)]
      exact refl _
    | finite t n =>
      simp only [equal, rank?, beq_iff_eq] at h
      exact absurd (signed_eq h).1 (Nat.ne_of_gt n.lt_limit)
  | finite s m =>
    cases y with
    | nan => cases h
    | infinite t =>
      simp only [equal, rank?, beq_iff_eq] at h
      exact absurd (signed_eq h).1 (Nat.ne_of_lt m.lt_limit)
    | finite t n =>
      simp only [equal, rank?, beq_iff_eq] at h
      obtain ⟨hunits, hsign⟩ := signed_eq h
      rcases hsign with hzero | rfl
      · exact .inr ⟨by simp [isZero, hzero], by simp [isZero, ← hunits, hzero]⟩
      · obtain ⟨units, bound, representable⟩ := m
        obtain ⟨units', bound', representable'⟩ := n
        subst hunits
        exact refl _

/-- What is alike and no NaN is of equal value. -/
theorem equal (h : Alike x y) (hx : x.isNaN = false) : x.equal y = true := by
  rcases alike_iff.1 h with rfl | ⟨s, t, rfl, rfl⟩
  · obtain ⟨a, ha⟩ := isNaN_eq_false_iff.1 hx
    simp [Binary64.equal, ha]
  · simp [Binary64.equal, rank_zero]

theorem isFinite (h : Alike x y) : x.isFinite = y.isFinite := by
  rcases alike_iff.1 h with rfl | ⟨s, t, rfl, rfl⟩ <;> rfl

theorem abs (h : Alike x y) : x.abs = y.abs := by
  rcases alike_iff.1 h with rfl | ⟨s, t, rfl, rfl⟩ <;> rfl

theorem neg (h : Alike x y) : Alike x.neg y.neg := by
  rcases alike_iff.1 h with rfl | ⟨s, t, rfl, rfl⟩
  · exact refl _
  · exact alike_zero _ _

end Alike

/-! ## Operations on a zero -/

variable {x y x' y' : Binary64}

theorem nearest_zero (s : Bool) {den : Nat} (h : 0 < den) : nearest s 0 den = zero s := by
  have hround : roundUnits 0 den = 0 := roundUnits_of_lt (by omega)
  simp only [nearest, hround, unitsLimit_pos, dite_true, zero]

theorem isZero_nearest_zero (s : Bool) {den : Nat} (h : 0 < den) :
    (nearest s 0 den).isZero = true := by
  rw [nearest_zero s h]
  exact isZero_zero s

/-- Finite numbers are added with their signs. -/
theorem add_finite (s t : Bool) (m n : Magnitude) : (finite s m).add (finite t n) =
    nearest (if signed s m.units + signed t n.units = 0 then s && t
        else signed s m.units + signed t n.units < 0)
      (signed s m.units + signed t n.units).natAbs 1 := rfl

theorem mul_finite (s t : Bool) (m n : Magnitude) : (finite s m).mul (finite t n) =
    nearest (s != t) (m.units * n.units) unitsPerOne := rfl

theorem div_finite (s t : Bool) (m : Magnitude) {n : Magnitude} (hne : ¬ n.units = 0) :
    (finite s m).div (finite t n) = nearest (s != t) (m.units * unitsPerOne) n.units := if_neg hne

protected theorem add_comm (x y : Binary64) : x.add y = y.add x := by
  cases x with
  | nan => cases y <;> rfl
  | infinite s =>
    cases y with
    | infinite t => cases s <;> cases t <;> rfl
    | nan | finite => rfl
  | finite s m =>
    cases y with
    | nan | infinite => rfl
    | finite t n => simp only [add_finite, Int.add_comm, Bool.and_comm]

theorem zero_add_finite (s t : Bool) (n : Magnitude) : (zero s).add (finite t n) =
    nearest (if signed t n.units = 0 then s && t else signed t n.units < 0) n.units 1 := by
  simp only [zero, add_finite, signed_zero, Int.zero_add, natAbs_signed]

theorem isZero_add_zero (s t : Bool) : ((zero s).add (zero t)).isZero = true := by
  have hadd : (zero s).add (zero t) = nearest _ 0 1 := zero_add_finite s t _
  rw [hadd]
  exact isZero_nearest_zero _ Nat.one_pos

/-- A zero adds nothing. -/
theorem zero_add_alike (s : Bool) (hy : y.isFinite = true) : Alike ((zero s).add y) y := by
  obtain ⟨t, n, rfl⟩ := eq_finite_of_isFinite hy
  by_cases hzero : n.units = 0
  · have hn : (Binary64.finite t n).isZero = true := by simp [isZero, hzero]
    obtain ⟨t', ht⟩ := isZero_iff.1 hn
    rw [ht]
    exact .inr ⟨isZero_add_zero s t', rfl⟩
  · have hne : ¬ signed t n.units = 0 := by cases t <;> simp [signed, hzero]
    have hsign : decide (signed t n.units < 0) = t := by
      cases t with
      | false => simp [signed]
      | true => simp [signed]; omega
    refine .inl ?_
    rw [zero_add_finite, if_neg hne, hsign, nearest_units]

theorem isZero_zero_mul (s : Bool) (hy : y.isFinite = true) : ((zero s).mul y).isZero = true := by
  obtain ⟨t, n, rfl⟩ := eq_finite_of_isFinite hy
  rw [zero, mul_finite, Nat.zero_mul]
  exact isZero_nearest_zero _ unitsPerOne_pos

theorem isZero_mul_zero (t : Bool) (hx : x.isFinite = true) : (x.mul (zero t)).isZero = true := by
  obtain ⟨s, m, rfl⟩ := eq_finite_of_isFinite hx
  rw [zero, mul_finite, Nat.mul_zero]
  exact isZero_nearest_zero _ unitsPerOne_pos

theorem isZero_zero_div (s : Bool) (hy : y.isFinite = true) (hne : y.isZero = false) :
    ((zero s).div y).isZero = true := by
  obtain ⟨t, n, rfl⟩ := eq_finite_of_isFinite hy
  simp only [isZero, beq_eq_false_iff_ne] at hne
  rw [zero, div_finite s t _ hne, Nat.zero_mul]
  exact isZero_nearest_zero _ (Nat.pos_of_ne_zero hne)

/-- Every power with an exponent of zero is one. -/
protected theorem pow_zero (t : Bool) : x.pow (zero t) = one := by
  simp [pow, isZero_zero]

theorem lt_zero_zero (s t : Bool) : ¬ zero s < zero t := by
  rw [lt_iff]
  rintro ⟨a, b, ha, hb, hab⟩
  rw [rank_zero] at ha hb
  cases ha
  cases hb
  omega

/-- A finite number that is neither zero nor below it is above it. -/
theorem zero_lt (hy : y.isFinite = true) (hne : y.isZero = false) (hn : ¬ y < zero false) :
    zero false < y := by
  have hnan := isNaN_of_isFinite hy
  obtain ⟨a, b, ha, hb, hab⟩ := le_iff.1 (le_of_not_lt hnan rfl hn)
  refine lt_iff.2 ⟨a, b, ha, hb, Int.lt_iff_le_and_ne.2 ⟨hab, fun heq => ?_⟩⟩
  have hequal : y.equal (zero false) = true := by simp [equal, ha, hb, heq]
  rcases Alike.of_equal hequal with rfl | ⟨hzero, -⟩
  · cases hne
  · rw [hzero] at hne; cases hne

theorem isZero_zero_pow (s : Bool) (hy : y.isFinite = true) (hne : y.isZero = false)
    (hn : ¬ y < zero false) : ((zero s).pow y).isZero = true := by
  have hlt : (zero false).lt y = true := zero_lt hy hne hn
  have hone : (zero s).equal one = false := by
    have := unitsPerOne_pos
    simp only [equal, rank_zero, rank_one, beq_eq_false_iff_ne]
    omega
  have hle : one.lt (zero s).abs = false := by
    have := unitsPerOne_pos
    have habs : (zero s).abs = zero false := rfl
    simp only [lt, habs, rank_zero, rank_one, decide_eq_false_iff_not]
    omega
  obtain ⟨t, n, rfl⟩ := eq_finite_of_isFinite hy
  simp only [pow, hne, hone, isZero_zero, hle, hlt, isNaN, isInfinite, Bool.or_false,
    Bool.false_or, Bool.or_true, Bool.false_and, Bool.false_eq_true, if_false, if_true]
  exact isZero_zero _

theorem isFinite_of_isZero (h : x.isZero = true) : x.isFinite = true := by
  obtain ⟨s, rfl⟩ := isZero_iff.1 h
  rfl

theorem isFinite_one : one.isFinite = true := by decide +kernel

/-- No power of zero that is not negative is infinite or NaN. -/
theorem isFinite_zero_pow (s : Bool) (hy : y.isFinite = true) (hn : ¬ y < zero false) :
    ((zero s).pow y).isFinite = true := by
  cases hzero : y.isZero with
  | true =>
    obtain ⟨t, rfl⟩ := isZero_iff.1 hzero
    rw [Binary64.pow_zero]
    exact isFinite_one
  | false => exact isFinite_of_isZero (isZero_zero_pow s hy hzero hn)

theorem abs_fraction_zero (s : Bool) : (zero s).fraction.abs = zero false := by
  simp [zero, fraction, abs]

theorem toInt?_zero (s : Bool) : (zero s).toInt? = some 0 := by
  simp [zero, toInt?, signed_zero]

theorem toWord?_zero (s : Bool) : (zero s).toWord? = some 0 := by
  rw [toWord?, toInt?_zero]
  rfl

/-! ## Operations on numbers alike -/

namespace Alike

theorem add (hx : Alike x x') (hy : Alike y y') (hfx : x.isFinite = true)
    (hfy : y.isFinite = true) : Alike (x.add y) (x'.add y') := by
  have hfx' : x'.isFinite = true := hx.isFinite.symm.trans hfx
  have hfy' : y'.isFinite = true := hy.isFinite.symm.trans hfy
  rcases alike_iff.1 hx with rfl | ⟨s, t, rfl, rfl⟩
  · rcases alike_iff.1 hy with rfl | ⟨s, t, rfl, rfl⟩
    · exact refl _
    · rw [Binary64.add_comm, Binary64.add_comm x]
      exact (zero_add_alike s hfx).trans (zero_add_alike t hfx).symm
  · exact (zero_add_alike s hfy).trans (hy.trans (zero_add_alike t hfy').symm)

theorem mul (hx : Alike x x') (hy : Alike y y') (hfx : x.isFinite = true)
    (hfy : y.isFinite = true) : Alike (x.mul y) (x'.mul y') := by
  have hfy' : y'.isFinite = true := hy.isFinite.symm.trans hfy
  rcases alike_iff.1 hx with rfl | ⟨s, t, rfl, rfl⟩
  · rcases alike_iff.1 hy with rfl | ⟨s, t, rfl, rfl⟩
    · exact refl _
    · exact .inr ⟨isZero_mul_zero s hfx, isZero_mul_zero t hfx⟩
  · exact .inr ⟨isZero_zero_mul s hfy, isZero_zero_mul t hfy'⟩

/-- A quotient by zero would show the sign of the divisor. -/
theorem div (hx : Alike x x') (hy : Alike y y') (hfy : y.isFinite = true)
    (hne : y.isZero = false) : Alike (x.div y) (x'.div y') := by
  have heq : y = y' := hy.resolve_right fun h => by rw [h.1] at hne; cases hne
  subst heq
  rcases alike_iff.1 hx with rfl | ⟨s, t, rfl, rfl⟩
  · exact refl _
  · exact .inr ⟨isZero_zero_div s hfy hne, isZero_zero_div t hfy hne⟩

/-- A negative power of zero would show the sign of the base. -/
theorem pow (hx : Alike x x') (hy : Alike y y') (hfy : y.isFinite = true)
    (hdomain : ¬ (x.isZero = true ∧ y < zero false)) : Alike (x.pow y) (x'.pow y') := by
  rcases alike_iff.1 hy with rfl | ⟨s, t, rfl, rfl⟩
  · rcases alike_iff.1 hx with rfl | ⟨s, t, rfl, rfl⟩
    · exact refl _
    · cases hzero : y.isZero with
      | true =>
        obtain ⟨u, rfl⟩ := isZero_iff.1 hzero
        rw [Binary64.pow_zero, Binary64.pow_zero]
        exact refl _
      | false =>
        have hn : ¬ y < zero false := fun h => hdomain ⟨rfl, h⟩
        exact .inr ⟨isZero_zero_pow s hfy hzero hn, isZero_zero_pow t hfy hzero hn⟩
  · rw [Binary64.pow_zero, Binary64.pow_zero]
    exact refl _

theorem toWord? (h : Alike x y) : x.toWord? = y.toWord? := by
  rcases alike_iff.1 h with rfl | ⟨s, t, rfl, rfl⟩
  · rfl
  · rw [toWord?_zero, toWord?_zero]

end Alike
end Binary64

/-! ## Outcomes -/

open Binary64 (Alike)

/-- The same error, or a refused bitwise operator with operands that are alike. -/
inductive EvaluationError.Alike : EvaluationError → EvaluationError → Prop
  | refl (error : EvaluationError) : EvaluationError.Alike error error
  | notWords (op : Operator) {x y x' y' : Binary64} : x.Alike x' → y.Alike y' →
      EvaluationError.Alike (.notWords op x y) (.notWords op x' y')

namespace Expr

/-- Both computations have a value or neither has one, and what they end in is alike. -/
inductive Agree : Except EvaluationError Binary64 → Except EvaluationError Binary64 → Prop
  | ok {v w : Binary64} : v.Alike w → Agree (.ok v) (.ok w)
  | error {error error' : EvaluationError} : error.Alike error' → Agree (.error error) (.error error')

namespace Agree

theorem refl (outcome : Except EvaluationError Binary64) : Agree outcome outcome := by
  cases outcome with
  | ok v => exact .ok (.refl v)
  | error error => exact .error (.refl error)

theorem bind {p q : Except EvaluationError Binary64}
    {f g : Binary64 → Except EvaluationError Binary64} (h : Agree p q)
    (hfg : ∀ v w, p = .ok v → q = .ok w → v.Alike w → Agree (f v) (g w)) :
    Agree (p >>= f) (q >>= g) := by
  cases h with
  | ok hvw => exact hfg _ _ rfl rfl hvw
  | error herror => exact .error herror

end Agree

variable {tolerance : Tolerance} {op : Operator} {x y x' y' : Binary64}

theorem checkFinite_agree (h : x.Alike x') : Agree (checkFinite x) (checkFinite x') := by
  rcases h with rfl | ⟨hx, hx'⟩
  · exact .refl _
  · obtain ⟨s, rfl⟩ := Binary64.isZero_iff.1 hx
    obtain ⟨t, rfl⟩ := Binary64.isZero_iff.1 hx'
    exact .ok (Binary64.alike_zero s t)

theorem checkDivisor_alike (h : y.Alike y') : checkDivisor tolerance y = checkDivisor tolerance y' := by
  unfold checkDivisor
  rw [h.abs]

/-- A divisor that passes its check is not zero. -/
theorem isZero_of_checkDivisor (hy : y.isFinite = true)
    (h : checkDivisor tolerance y = .ok ()) : y.isZero = false := by
  rw [Bool.eq_false_iff]
  intro hzero
  obtain ⟨s, rfl⟩ := Binary64.isZero_iff.1 hzero
  exact checkDivisor_eq_ok.1 h tolerance.positive

/-- A power without a check that fails is a value if it is finite. -/
theorem power_of_isFinite (hzero : ¬ (x.isZero = true ∧ y < .zero false))
    (hfraction : ¬ (x < .zero false ∧ tolerance.value < y.fraction.abs))
    (hfin : (x.pow y).isFinite = true) : power tolerance x y = .ok (x.pow y) := by
  refine power_eq_ok.2 ⟨hzero, hfraction, rfl, ?_, fun ⟨hnan, _⟩ => ?_⟩
  · exact Binary64.isInfinite_of_isFinite hfin
  · rw [Binary64.isNaN_of_isFinite hfin] at hnan
    cases hnan

theorem power_zero_right (s : Bool) : power tolerance x (.zero s) = .ok .one := by
  rw [← Binary64.pow_zero (x := x) s]
  refine power_of_isFinite ?_ ?_ ?_
  · exact fun ⟨_, hlt⟩ => Binary64.lt_zero_zero s false hlt
  · -- The fraction of a zero is a zero, which exceeds no tolerance.
    rintro ⟨_, hlt⟩
    rw [Binary64.abs_fraction_zero] at hlt
    exact Binary64.lt_zero_zero false false
      (Binary64.lt_of_lt_of_le tolerance.positive (Binary64.le_of_lt hlt))
  · rw [Binary64.pow_zero]
    exact Binary64.isFinite_one

theorem power_zero_left (s : Bool) (hfy : y.isFinite = true) (hn : ¬ y < .zero false) :
    power tolerance (.zero s) y = .ok ((Binary64.zero s).pow y) :=
  power_of_isFinite (fun ⟨_, hlt⟩ => hn hlt)
    (fun ⟨hlt, _⟩ => Binary64.lt_zero_zero s false hlt) (Binary64.isFinite_zero_pow s hfy hn)

theorem power_zero_negative (s : Bool) (hlt : y < .zero false) :
    power tolerance (.zero s) y = .error .zeroToNegative := by
  have hlt : y.lt (.zero false) = true := hlt
  simp only [power, Binary64.isZero_zero, hlt, Bool.and_self, if_true]

theorem power_agree (hx : x.Alike x') (hy : y.Alike y') (hfy : y.isFinite = true) :
    Agree (power tolerance x y) (power tolerance x' y') := by
  rcases Binary64.alike_iff.1 hy with rfl | ⟨s, t, rfl, rfl⟩
  · rcases Binary64.alike_iff.1 hx with rfl | ⟨s, t, rfl, rfl⟩
    · exact .refl _
    · by_cases hn : y < .zero false
      · rw [power_zero_negative s hn, power_zero_negative t hn]
        exact .refl _
      · rw [power_zero_left s hfy hn, power_zero_left t hfy hn]
        exact .ok (hx.pow (.refl y) hfy fun ⟨_, hlt⟩ => hn hlt)
  · rw [power_zero_right, power_zero_right]
    exact .refl _

theorem bitwise_agree (combine : BitVec 64 → BitVec 64 → BitVec 64) (hx : x.Alike x')
    (hy : y.Alike y') : Agree (bitwise op combine x y) (bitwise op combine x' y') := by
  unfold bitwise
  rw [hx.toWord?, hy.toWord?]
  split
  · exact .refl _
  · exact .error (.notWords op hx hy)

theorem operate_agree (hx : x.Alike x') (hy : y.Alike y') (hfx : x.isFinite = true)
    (hfy : y.isFinite = true) (hdivisor : op = .divide → y.isZero = false) :
    Agree (operate tolerance op x y) (operate tolerance op x' y') := by
  cases op with
  | add => exact .ok (hx.add hy hfx hfy)
  | subtract => exact .ok (hx.add hy.neg hfx ((Binary64.isFinite_neg y).trans hfy))
  | multiply => exact .ok (hx.mul hy hfx hfy)
  | divide => exact .ok (hx.div hy hfy (hdivisor rfl))
  | power => exact power_agree hx hy hfy
  | and => exact bitwise_agree _ hx hy
  | or => exact bitwise_agree _ hx hy

/-! ## Evaluations -/

theorem valueWithin_agree {a b : Expr} (h : a.same b = true) (depth : Nat) :
    Agree (a.valueWithin tolerance depth) (b.valueWithin tolerance depth) := by
  fun_induction same a b generalizing depth with
  | case1 x y =>
    cases depth with
    | zero => exact .refl _
    | succ depth => exact checkFinite_agree (.of_equal h)
  | case2 a b ih =>
    cases depth with
    | zero => exact .refl _
    | succ depth => exact (ih h depth).bind fun v w _ _ hvw => checkFinite_agree hvw.neg
  | case3 op a b op' c d ihl ihr =>
    simp only [Bool.and_eq_true, decide_eq_true_eq] at h
    obtain ⟨⟨rfl, hl⟩, hr⟩ := h
    cases depth with
    | zero => exact .refl _
    | succ depth =>
      rw [valueWithin_binary, valueWithin_binary]
      split
      · -- The divisor comes first, and its check does not see the sign of a zero.
        refine (ihr hr depth).bind fun y y' hy _ halike => ?_
        rw [← checkDivisor_alike halike]
        cases hd : checkDivisor tolerance y with
        | error error => exact .refl _
        | ok =>
          refine (ihl hl depth).bind fun x x' _ _ halike' => checkFinite_agree ?_
          have hfy := isFinite_of_valueWithin hy
          exact halike'.div halike hfy (isZero_of_checkDivisor hfy hd)
      · next hop =>
        refine (ihl hl depth).bind fun x x' hx _ hxx => ?_
        refine (ihr hr depth).bind fun y y' hy _ hyy => ?_
        refine Agree.bind (operate_agree hxx hyy (isFinite_of_valueWithin hx)
          (isFinite_of_valueWithin hy) fun h => absurd h hop) fun v w _ _ => checkFinite_agree
  | case4 a b c d | case5 => cases depth <;> exact .refl _
  | case6 => cases h

/-- **The sign of a zero decides no outcome.** Two expressions of the same form with numbers of
equal value at the leaves, so that only their zeros may have different signs and none is NaN, either
both fail or both have values. The errors differ in the signs of zeros at most, and then in the
operands that a refused bitwise operator names; the values are equal, and they are the same unless
they are zeros. -/
theorem valueWithin_same {a b : Expr} (h : a.same b = true) (tolerance : Tolerance) (depth : Nat) :
    (∃ error error', a.valueWithin tolerance depth = .error error ∧
      b.valueWithin tolerance depth = .error error' ∧ error.Alike error') ∨
    ∃ v w, a.valueWithin tolerance depth = .ok v ∧ b.valueWithin tolerance depth = .ok w ∧
      v.equal w = true ∧ (v = w ∨ v.isZero = true ∧ w.isZero = true) := by
  have hagree : Agree (a.valueWithin tolerance depth) (b.valueWithin tolerance depth) :=
    valueWithin_agree h depth
  cases ha : a.valueWithin tolerance depth with
  | error error =>
    cases hb : b.valueWithin tolerance depth with
    | error error' =>
      rw [ha, hb] at hagree
      cases hagree with
      | error herror => exact .inl ⟨error, error', rfl, rfl, herror⟩
    | ok w => rw [ha, hb] at hagree; cases hagree
  | ok v =>
    cases hb : b.valueWithin tolerance depth with
    | error error => rw [ha, hb] at hagree; cases hagree
    | ok w =>
      rw [ha, hb] at hagree
      cases hagree with
      | ok hvw =>
        have hnan := Binary64.isNaN_of_isFinite (isFinite_of_valueWithin ha)
        exact .inr ⟨v, w, rfl, rfl, hvw.equal hnan, hvw⟩

/-- Zeros that are added keep their sign, and a negative factor turns it. -/
theorem valueWithin_same_product :
    let e := fun s : Bool => binary .multiply (binary .add (number (.zero s)) (number (.zero s)))
      (number (.ofInt (-5)))
    (e false).same (e true) = true ∧ (e false).valueWithin .standard 3 = .ok (.zero true) ∧
      ∃ w, (e true).valueWithin .standard 3 = .ok w ∧ (Binary64.zero true).equal w = true := by
  intro e
  have h : (e false).same (e true) = true := by decide +kernel
  have hv : (e false).valueWithin .standard 3 = .ok (.zero true) := by decide +kernel
  refine ⟨h, hv, ?_⟩
  rcases valueWithin_same h .standard 3 with ⟨error, _, herror, _⟩ | ⟨v, w, hv', hw, hequal, _⟩
  · rw [hv] at herror
    cases herror
  · rw [hv] at hv'
    cases hv'
    exact ⟨w, hw, hequal⟩

end Expr
end Abacus
