/-
Decimals as numbers.

The number of a decimal depends on the value of the decimal alone
(`ofDecimal_scale`), also after its exponent has been made moderate, so digits
around a point read as the number of their digits
(`read?_whole`, `read?_places`).
-/
import Abacus.Binary64.Text

namespace Abacus

/-! ## Rounding -/

/-- Rounding sees nothing of a quotient but its value. -/
theorem roundUnits_eq_of_mul_eq {num den num' den' : Nat} (hd : 0 < den) (hd' : 0 < den')
    (h : num * den' = num' * den) : roundUnits num den = roundUnits num' den' := by
  rw [← roundUnits_mul_right num den hd', h, Nat.mul_comm den den', roundUnits_mul_right _ _ hd]

theorem roundUnits_of_lt {num den : Nat} (h : 2 * num < den) : roundUnits num den = 0 := by
  have hlt : num < den := by omega
  have hs : spacing 0 = 1 := rfl
  simp only [roundUnits, Nat.div_eq_of_lt hlt, hs, Nat.mul_one, roundHalfEven,
    Nat.mod_eq_of_lt hlt]
  rw [if_pos (.inl h)]

namespace Binary64

theorem nearest_congr {num den num' den' : Nat} (negative : Bool)
    (h : roundUnits num den = roundUnits num' den') :
    nearest negative num den = nearest negative num' den' := by
  simp only [nearest, h]

theorem ten_pow_pos (n : Nat) : 0 < 10 ^ n := Nat.pow_pos (by decide)

theorem shift_mul (digits unit places : Nat) (exponent : Int) :
    digits * 10 ^ places * 10 ^ (exponent - places).toNat * unit * 10 ^ (-exponent).toNat =
      digits * 10 ^ exponent.toNat * unit * 10 ^ (-(exponent - places)).toNat := by
  have hp : (10 : Nat) ^ places * 10 ^ (exponent - places).toNat * 10 ^ (-exponent).toNat =
      10 ^ exponent.toNat * 10 ^ (-(exponent - places)).toNat := by
    simp only [← Nat.pow_add]
    congr 1
    omega
  calc digits * 10 ^ places * 10 ^ (exponent - places).toNat * unit * 10 ^ (-exponent).toNat
      = digits * unit *
          (10 ^ places * 10 ^ (exponent - places).toNat * 10 ^ (-exponent).toNat) := by ac_rfl
    _ = digits * unit * (10 ^ exponent.toNat * 10 ^ (-(exponent - places)).toNat) := by rw [hp]
    _ = digits * 10 ^ exponent.toNat * unit * 10 ^ (-(exponent - places)).toNat := by ac_rfl

/-- The digits may be shifted by places that the exponent makes up for. -/
theorem ofDecimal_scale (negative : Bool) (digits places : Nat) (exponent : Int) :
    ofDecimal negative ⟨digits * 10 ^ places, exponent - places⟩ =
      ofDecimal negative ⟨digits, exponent⟩ :=
  nearest_congr negative (roundUnits_eq_of_mul_eq (ten_pow_pos _) (ten_pow_pos _)
    (shift_mul digits unitsPerOne places exponent))

theorem two_pow_add_1074 (n : Nat) : 2 ^ (n + 1074) = 2 ^ n * unitsPerOne := by
  rw [unitsPerOne]; apply Nat.pow_add

theorem two_mul_units_lt {digits places : Nat} (h : digits.log2 + 400 ≤ places) :
    2 * (digits * unitsPerOne) < 10 ^ places := by
  have hd : 2 * digits < 2 ^ (digits.log2 + 2) := by
    have : digits < 2 ^ (digits.log2 + 1) := Nat.lt_log2_self
    rw [Nat.pow_succ']; omega
  calc 2 * (digits * unitsPerOne) = 2 * digits * unitsPerOne := (Nat.mul_assoc ..).symm
    _ < 2 ^ (digits.log2 + 2) * unitsPerOne := Nat.mul_lt_mul_of_pos_right hd unitsPerOne_pos
    _ = 2 ^ (digits.log2 + 2 + 1074) := (two_pow_add_1074 _).symm
    _ ≤ 2 ^ (3 * places) := Nat.pow_le_pow_right (by decide) (by omega)
    _ = 8 ^ places := by rw [Nat.pow_mul]
    _ ≤ 10 ^ places := Nat.pow_le_pow_left (by decide) places

/-- A decimal with more places than can matter is zero. -/
theorem ofDecimal_eq_zero (negative : Bool) {digits : Nat} {exponent : Int}
    (h : exponent ≤ -(digits.log2 + 400)) : ofDecimal negative ⟨digits, exponent⟩ = zero negative := by
  have hn : exponent.toNat = 0 := by omega
  have hround : roundUnits (digits * 10 ^ exponent.toNat * unitsPerOne)
      (10 ^ (-exponent).toNat) = 0 := by
    rw [hn, Nat.pow_zero, Nat.mul_one]
    exact roundUnits_of_lt (two_mul_units_lt (by omega))
  simp only [ofDecimal, nearest, hround, unitsLimit_pos, dite_true, zero]

/-- An exponent that is not too large can be made moderate. -/
theorem ofDecimal_moderate (negative : Bool) {d : Decimal} (h : d.exponent ≤ 400) :
    ofDecimal negative d.moderate = ofDecimal negative d := by
  obtain ⟨digits, exponent⟩ := d
  simp only at h
  by_cases hlow : exponent ≤ -(digits.log2 + 400)
  · rw [ofDecimal_eq_zero negative hlow, Decimal.moderate]
    exact ofDecimal_eq_zero negative (by simp only; omega)
  · have : max (-((digits.log2 : Int) + 400)) (min exponent 400) = exponent := by omega
    rw [Decimal.moderate, this]

/-! ## Reading -/

theorem readDigits_append {digits : List Char} (rest : List Char)
    (hd : ∀ c ∈ digits, c.isDigit = true) (hr : rest.head?.any Char.isDigit = false) :
    readDigits (digits ++ rest) = (digits, rest) := by
  induction digits with
  | nil =>
    cases rest with
    | nil => rfl
    | cons c rest => simp [readDigits, show c.isDigit = false by simpa using hr]
  | cons c digits ih =>
    have hc := hd c (by simp)
    have ih := ih fun c h => hd c (by simp [h])
    simp only [readDigits, Prod.mk.injEq] at ih
    simp [readDigits, hc, ih]

theorem readDigits_self {digits : List Char} (hd : ∀ c ∈ digits, c.isDigit = true) :
    readDigits digits = (digits, []) := by
  simpa using readDigits_append [] hd rfl

theorem readSign_of_digit {c : Char} {cs : List Char} (h : c.isDigit = true) :
    readSign (c :: cs) = (false, c :: cs) := by
  unfold readSign
  split
  · next heq => cases heq; cases h
  · next heq => cases heq; cases h
  · rfl

theorem toLower_of_digit {c : Char} (h : c.isDigit = true) : c.toLower = c := by
  unfold Char.toLower
  rw [dif_neg]
  rintro ⟨hA, -⟩
  simp only [Char.isDigit, Bool.and_eq_true, decide_eq_true_eq] at h
  exact absurd (UInt32.le_trans hA h.2) (by decide)

/-- Characters that begin with a digit are no name. -/
theorem ofList_toLower_ne {c : Char} {cs : List Char} (h : c.isDigit = true) (first : Char)
    (rest : List Char) (hf : first.isDigit = false) :
    String.ofList ((c :: cs).map Char.toLower) ≠ String.ofList (first :: rest) := by
  intro heq
  have := congrArg String.toList heq
  simp only [String.toList_ofList, List.map_cons, List.cons.injEq, toLower_of_digit h] at this
  rw [← this.1, h] at hf
  cases hf

/-- Behind a sign, what begins with a digit is read as a decimal. -/
theorem read?_of_sign {cs unsigned : List Char} {negative : Bool}
    (hs : readSign cs = (negative, unsigned)) (h : unsigned.head?.any Char.isDigit = true) :
    read? cs = (readDecimal? unsigned).map fun d => ofDecimal negative d.moderate := by
  cases unsigned with
  | nil => cases h
  | cons c unsigned =>
    have h : c.isDigit = true := by simpa using h
    have hinf : String.ofList ((c :: unsigned).map Char.toLower) ≠ "inf" :=
      ofList_toLower_ne h 'i' ['n', 'f'] rfl
    have hinfinity : String.ofList ((c :: unsigned).map Char.toLower) ≠ "infinity" :=
      ofList_toLower_ne h 'i' ['n', 'f', 'i', 'n', 'i', 't', 'y'] rfl
    have hnan : String.ofList ((c :: unsigned).map Char.toLower) ≠ "nan" :=
      ofList_toLower_ne h 'n' ['a', 'n'] rfl
    simp only [read?, hs, hinf, hinfinity, hnan, decide_false, Bool.or_self, Bool.false_eq_true,
      if_false]

theorem read?_of_digit {cs : List Char} (h : cs.head?.any Char.isDigit = true) :
    read? cs = (readDecimal? cs).map fun d => ofDecimal false d.moderate := by
  cases cs with
  | nil => cases h
  | cons c cs => exact read?_of_sign (readSign_of_digit (by simpa using h)) h

theorem head?_digit_append {digits : List Char} (rest : List Char) (hne : digits ≠ [])
    (hd : ∀ c ∈ digits, c.isDigit = true) : (digits ++ rest).head?.any Char.isDigit = true := by
  cases digits with
  | nil => exact absurd rfl hne
  | cons c digits => exact hd c (by simp)

theorem readExponent?_nil : readExponent? [] = some 0 := rfl

/-- Digits alone read as a whole number. -/
theorem read?_whole {whole : List Char} (hne : whole ≠ []) (hd : ∀ c ∈ whole, c.isDigit = true) :
    read? whole = some (ofDecimal false ⟨Nat.ofDigitChars 10 whole 0, 0⟩) := by
  have hhead := head?_digit_append [] hne hd
  rw [List.append_nil] at hhead
  rw [read?_of_digit hhead]
  simp [readDecimal?, readDigits_self hd, hne, readExponent?_nil, ofDecimal_moderate]

theorem readDecimal?_places {whole places : List Char} (hne : whole ≠ [])
    (hw : ∀ c ∈ whole, c.isDigit = true) (hp : ∀ c ∈ places, c.isDigit = true) :
    readDecimal? (whole ++ '.' :: places) =
      some ⟨Nat.ofDigitChars 10 (whole ++ places) 0, -places.length⟩ := by
  have hpoint : readDigits (whole ++ '.' :: places) = (whole, '.' :: places) :=
    readDigits_append _ hw rfl
  simp [readDecimal?, hpoint, readDigits_self hp, hne, readExponent?_nil]

/-- Digits around a point read as the number of all digits, with as many places as stand behind the
point. -/
theorem read?_places {whole places : List Char} (hne : whole ≠ [])
    (hw : ∀ c ∈ whole, c.isDigit = true) (hp : ∀ c ∈ places, c.isDigit = true) :
    read? (whole ++ '.' :: places) =
      some (ofDecimal false ⟨Nat.ofDigitChars 10 (whole ++ places) 0, -places.length⟩) := by
  rw [read?_of_digit (head?_digit_append _ hne hw), readDecimal?_places hne hw hp, Option.map_some,
    ofDecimal_moderate]
  simp only
  omega

end Binary64
end Abacus
