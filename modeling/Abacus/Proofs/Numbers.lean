/-
The written form of a number determines the number.

What is written of a number reads as that number (`Binary64.read?_text`), whether
its digits stand around their point or it has an exponent, and whatever its sign.
So different numbers are written differently, and no number is written as nothing.
Nor does the text of a number hold a space or a parenthesis.
-/
import Abacus.Proofs.RoundTrip

namespace Abacus

/-- What ends a part of an expression in its text, or begins one. -/
def isDelimiter (c : Char) : Bool := c ∈ [' ', '(', ')']

theorem isDelimiter_of_isDigit {c : Char} (h : c.isDigit = true) : isDelimiter c = false := by
  rw [Bool.eq_false_iff]
  intro hc
  simp only [isDelimiter, decide_eq_true_eq, List.mem_cons, List.not_mem_nil, or_false] at hc
  rcases hc with rfl | rfl | rfl <;> cases h

theorem not_delimiter_of_all {cs : List Char} (h : cs.all (fun c => !isDelimiter c) = true) :
    ∀ c ∈ cs, isDelimiter c = false := by
  intro c hc
  simpa using List.all_eq_true.1 h c hc

/-! ## Decimals -/

namespace Decimal

/-- An exponent is written as its sign and digits of its absolute value. -/
theorem exponentText_eq (exponent : Int) : ∃ digits,
    exponentText exponent = 'e' :: (if exponent < 0 then '-' else '+') :: digits ∧ digits ≠ [] ∧
      (∀ c ∈ digits, c.isDigit = true) ∧ Nat.ofDigitChars 10 digits 0 = exponent.natAbs := by
  refine ⟨_, rfl, ?_, ?_, ?_⟩
  · exact List.append_ne_nil_of_right_ne_nil _ Nat.toDigits_ne_nil
  · exact isDigit_of_mem_append isDigit_of_mem_replicate isDigit_of_mem_toDigits
  · rw [Nat.ofDigitChars_append, Nat.ofDigitChars_replicate_zero, Nat.mul_zero,
      Nat.ofDigitChars_ten_toDigits]

theorem readExponent?_exponentText (exponent : Int) :
    Binary64.readExponent? (exponentText exponent) = some exponent := by
  obtain ⟨digits, htext, hne, hd, hvalue⟩ := exponentText_eq exponent
  have hsign : Binary64.readSign ((if exponent < 0 then '-' else '+') :: digits) =
      (decide (exponent < 0), digits) := by
    by_cases h : exponent < 0 <;> simp [h, Binary64.readSign]
  have hall : digits.all Char.isDigit = true := List.all_eq_true.2 hd
  simp only [htext, Binary64.readExponent?, hsign, hall, hvalue, Binary64.signed_natAbs]
  simp [hne]

/-- An exponent stands behind digits, or behind digits around a point. -/
theorem readDecimal?_append_exponent {whole : List Char} (hne : whole ≠ [])
    (hw : ∀ c ∈ whole, c.isDigit = true) (exponent : Int) :
    Binary64.readDecimal? (whole ++ exponentText exponent) =
      some ⟨Nat.ofDigitChars 10 whole 0, exponent⟩ := by
  have hread : Binary64.readDigits (whole ++ exponentText exponent) =
      (whole, exponentText exponent) := Binary64.readDigits_append _ hw rfl
  obtain ⟨digits, htext, -⟩ := exponentText_eq exponent
  have hexponent := readExponent?_exponentText exponent
  rw [htext] at hread hexponent ⊢
  simp [Binary64.readDecimal?, hread, hexponent, hne]

theorem readDecimal?_places_exponent {whole places : List Char} (hne : whole ≠ [])
    (hw : ∀ c ∈ whole, c.isDigit = true) (hp : ∀ c ∈ places, c.isDigit = true) (exponent : Int) :
    Binary64.readDecimal? (whole ++ '.' :: (places ++ exponentText exponent)) =
      some ⟨Nat.ofDigitChars 10 (whole ++ places) 0, exponent - places.length⟩ := by
  have hpoint : Binary64.readDigits (whole ++ '.' :: (places ++ exponentText exponent)) =
      (whole, '.' :: (places ++ exponentText exponent)) := Binary64.readDigits_append _ hw rfl
  have hread : Binary64.readDigits (places ++ exponentText exponent) =
      (places, exponentText exponent) := Binary64.readDigits_append _ hp rfl
  simp [Binary64.readDecimal?, hpoint, hread, hne, readExponent?_exponentText]

/-- What is written with an exponent reads as all its digits at the place of the last. -/
theorem readDecimal?_scientific {digits : List Char} (hne : digits ≠ [])
    (hd : ∀ c ∈ digits, c.isDigit = true) (point : Int) :
    Binary64.readDecimal? (scientific digits point) =
      some ⟨Nat.ofDigitChars 10 digits 0, point - digits.length⟩ := by
  match digits, hne with
  | [first], hne => exact readDecimal?_append_exponent hne hd (point - 1)
  | first :: second :: rest, _ =>
    have hfirst : ∀ c ∈ [first], c.isDigit = true := fun c hc => hd c (by simp_all)
    have hread := readDecimal?_places_exponent (List.cons_ne_nil first []) hfirst
      (fun c hc => hd c (List.mem_cons_of_mem _ hc)) (point - 1)
    refine hread.trans ?_
    simp only [List.singleton_append, List.length_cons]
    congr 2
    omega

/-- What is written of a decimal reads as a decimal of the same value. -/
theorem readDecimal?_text (d : Decimal) : ∃ zeros : Nat, Binary64.readDecimal? d.text =
    some ⟨d.digits * 10 ^ zeros, d.exponent - zeros⟩ := by
  have hne : Nat.toDigits 10 d.digits ≠ [] := Nat.toDigits_ne_nil
  have hd := isDigit_of_mem_toDigits (n := d.digits)
  have hexponent : d.point - (Nat.toDigits 10 d.digits).length = d.exponent := by
    unfold point
    omega
  rw [text]
  split
  · obtain ⟨whole, fraction, htext, h⟩ := positional_eq hne hd d.point
    obtain ⟨zeros, hlength, hvalue⟩ := h.value
    refine ⟨zeros, (congrArg _ htext).trans ?_⟩
    rw [Binary64.readDecimal?_places h.ne_nil h.whole_digits h.fraction_digits, hvalue, hlength,
      Nat.ofDigitChars_ten_toDigits, hexponent]
  · refine ⟨0, (readDecimal?_scientific hne hd d.point).trans ?_⟩
    simp [Nat.ofDigitChars_ten_toDigits, hexponent]

theorem head?_digit_positional {digits : List Char} (hne : digits ≠ [])
    (hd : ∀ c ∈ digits, c.isDigit = true) (point : Int) :
    (positional digits point).head?.any Char.isDigit = true := by
  obtain ⟨whole, fraction, htext, h⟩ := positional_eq hne hd point
  rw [htext]
  exact Binary64.head?_digit_append _ h.ne_nil h.whole_digits

theorem head?_digit_scientific {digits : List Char} (hne : digits ≠ [])
    (hd : ∀ c ∈ digits, c.isDigit = true) (point : Int) :
    (scientific digits point).head?.any Char.isDigit = true := by
  match digits, hne with
  | [first], _ => exact hd first (by simp)
  | first :: second :: rest, _ => exact hd first (by simp)

theorem head?_digit_text (d : Decimal) : d.text.head?.any Char.isDigit = true := by
  rw [text]
  split
  · exact head?_digit_positional Nat.toDigits_ne_nil isDigit_of_mem_toDigits _
  · exact head?_digit_scientific Nat.toDigits_ne_nil isDigit_of_mem_toDigits _

theorem not_delimiter_positional {digits : List Char} (hne : digits ≠ [])
    (hd : ∀ c ∈ digits, c.isDigit = true) (point : Int) :
    ∀ c ∈ positional digits point, isDelimiter c = false := by
  intro c hc
  obtain ⟨whole, fraction, htext, h⟩ := positional_eq hne hd point
  rw [htext] at hc
  rcases h.digit_or_point c hc with hdigit | rfl
  · exact isDelimiter_of_isDigit hdigit
  · rfl

theorem not_delimiter_exponentText (exponent : Int) :
    ∀ c ∈ exponentText exponent, isDelimiter c = false := by
  obtain ⟨digits, htext, -, hd, -⟩ := exponentText_eq exponent
  rw [htext]
  intro c hc
  rcases List.mem_cons.1 hc with rfl | hc
  · rfl
  rcases List.mem_cons.1 hc with rfl | hc
  · split <;> rfl
  · exact isDelimiter_of_isDigit (hd c hc)

theorem not_delimiter_scientific {digits : List Char} (hd : ∀ c ∈ digits, c.isDigit = true)
    (point : Int) : ∀ c ∈ scientific digits point, isDelimiter c = false := by
  intro c hc
  rcases List.mem_append.1 hc with hc | hc
  · -- The significand is made of the digits and a point.
    have hdigit : c ∈ digits ∨ c = '.' := by
      match digits with
      | [] | [first] => exact .inl hc
      | first :: second :: rest =>
        simp only [List.mem_cons] at hc ⊢
        tauto
    rcases hdigit with hdigit | rfl
    · exact isDelimiter_of_isDigit (hd c hdigit)
    · rfl
  · exact not_delimiter_exponentText _ c hc

theorem not_delimiter_text (d : Decimal) : ∀ c ∈ d.text, isDelimiter c = false := by
  rw [text]
  split
  · exact not_delimiter_positional Nat.toDigits_ne_nil isDigit_of_mem_toDigits _
  · exact not_delimiter_scientific isDigit_of_mem_toDigits _

end Decimal

/-! ## Magnitudes -/

namespace Magnitude

theorem limit_lt_pow : unitsLimit < unitsPerOne * 10 ^ 309 := by decide +kernel

theorem ofDecimal_pow : Binary64.ofDecimal false ⟨1, 309⟩ = .infinite false := by decide +kernel

/-- The digits of a magnitude never stand so far before their point that it matters. -/
theorem shortest_exponent_le (m : Magnitude) : m.shortest.exponent ≤ 400 := by
  by_cases hm : m.units = 0
  · rw [shortest, if_pos hm]
    decide
  · have hlow : m.Reaches (-400) := by
      rw [reaches_iff (i := 400) (j := 0) (by omega), Nat.pow_zero, Nat.mul_one]
      exact unitsPerOne_le_units hm
    have hhigh : ¬ m.Reaches 309 := by
      rw [reaches_iff (i := 0) (j := 309) (by omega), Nat.pow_zero, Nat.mul_one]
      exact Nat.not_le.2 (Nat.lt_trans m.lt_limit limit_lt_pow)
    have hpoint := point_shortest hlow hhigh (by rw [ofDecimal_pow]; simp)
    unfold Decimal.point at hpoint
    omega

end Magnitude

/-! ## Numbers -/

namespace Binary64

theorem nearest_sign {s t : Bool} {num den : Nat} {m : Magnitude}
    (h : nearest s num den = .finite s m) : nearest t num den = .finite t m := by
  unfold nearest at h ⊢
  split at h
  · next hlt =>
    rw [dif_pos hlt]
    cases h
    rfl
  · cases h

theorem toList_text (negative : Bool) (m : Magnitude) : (finite negative m).text.toList =
    (if negative then ['-'] else []) ++ m.shortest.text := by
  rw [text, String.toList_ofList]

theorem readSign_text (negative : Bool) (m : Magnitude) :
    readSign (finite negative m).text.toList = (negative, m.shortest.text) := by
  rw [toList_text]
  cases negative with
  | true => rfl
  | false =>
    have hd := m.shortest.head?_digit_text
    cases htext : m.shortest.text with
    | nil =>
      rw [htext] at hd
      cases hd
    | cons c cs =>
      rw [htext] at hd
      exact readSign_of_digit (by simpa using hd)

/-- What is written of a number reads as the number. -/
theorem read?_text (x : Binary64) : read? x.text.toList = some x := by
  cases x with
  | nan => rfl
  | infinite negative => cases negative <;> rfl
  | finite negative m =>
    obtain ⟨zeros, hread⟩ := m.shortest.readDecimal?_text
    have hsign := readSign_text negative m
    have hle := m.shortest_exponent_le
    rw [read?_of_sign hsign m.shortest.head?_digit_text, hread, Option.map_some,
      ofDecimal_moderate _ (by simp only; omega), ofDecimal_scale]
    exact congrArg some (nearest_sign m.shortest_reads)

theorem text_injective {x y : Binary64} (h : x.text = y.text) : x = y := by
  have hx := read?_text x
  rw [h, read?_text y] at hx
  exact (Option.some.inj hx).symm

theorem text_ne_nil (x : Binary64) : x.text.toList ≠ [] := by
  intro h
  have hx := read?_text x
  rw [h] at hx
  have hnone : read? [] = none := rfl
  rw [hnone] at hx
  cases hx

theorem not_delimiter_text (x : Binary64) : ∀ c ∈ x.text.toList, isDelimiter c = false := by
  cases x with
  | nan => exact not_delimiter_of_all (by decide)
  | infinite negative =>
    cases negative with
    | false => exact not_delimiter_of_all (by decide)
    | true => exact not_delimiter_of_all (by decide)
  | finite negative m =>
    rw [toList_text]
    intro c hc
    rcases List.mem_append.1 hc with hc | hc
    · cases negative with
      | false => cases hc
      | true =>
        rw [List.mem_singleton.1 hc]
        rfl
    · exact m.shortest.not_delimiter_text c hc

end Binary64
end Abacus
