/-
Reading what was written.

The numbers from `0.0001` up to below `10 ^ 16` are written as digits around a
point, which is a literal of the same number. An expression over such numbers
is written with parentheses around every operation, so its text renders tokens
that derive it as an atom (`Expr.derives_tokens`) and is read as it
(`Expr.ofTextWithin_text`).
-/
import Abacus.Proofs.Derivation
import Abacus.Proofs.Order
import Abacus.Proofs.Rendering
import Abacus.Proofs.Shortest

namespace Abacus

/-! ## Positional texts -/

namespace Decimal

/-- Digits before and behind a point that have the value of other digits around their point. -/
structure Places (digits : List Char) (point : Int) (whole fraction : List Char) : Prop where
  ne_nil : whole ≠ []
  whole_digits : ∀ c ∈ whole, c.isDigit = true
  fraction_digits : ∀ c ∈ fraction, c.isDigit = true
  value : ∃ zeros : Nat, -(fraction.length : Int) = point - digits.length - zeros ∧
    Nat.ofDigitChars 10 (whole ++ fraction) 0 = Nat.ofDigitChars 10 digits 0 * 10 ^ zeros

theorem isDigit_of_mem_replicate {n : Nat} : ∀ c ∈ List.replicate n '0', c.isDigit = true := by
  intro c h
  rw [(List.mem_replicate.1 h).2]
  rfl

theorem isDigit_of_mem_append {before after : List Char} (hb : ∀ c ∈ before, c.isDigit = true)
    (ha : ∀ c ∈ after, c.isDigit = true) : ∀ c ∈ before ++ after, c.isDigit = true := by
  intro c h
  exact (List.mem_append.1 h).elim (hb c) (ha c)

theorem positional_before {digits : List Char} (hne : digits ≠ []) (n : Nat) :
    positional digits (-n) = ['0'] ++ '.' :: (List.replicate n '0' ++ digits) := by
  have hn : (-(n : Int)).toNat = 0 := by omega
  have hz : (-(n : Int) - digits.length).toNat = 0 := by omega
  simp [positional, hn, hz, hne]

theorem positional_inside {digits : List Char} {n : Nat} (hpos : 0 < n) (hn : n < digits.length) :
    positional digits n = digits.take n ++ '.' :: digits.drop n := by
  have hne : digits ≠ [] := List.length_pos_iff.1 (by omega)
  have hz : ((n : Int) - digits.length).toNat = 0 := by omega
  have hm : (-(n : Int)).toNat = 0 := by omega
  simp [positional, hz, hm, hne, Nat.pos_iff_ne_zero.1 hpos, Nat.not_le.2 hn]

theorem positional_behind {digits : List Char} (hne : digits ≠ []) (n : Nat) :
    positional digits (digits.length + n) = (digits ++ List.replicate n '0') ++ '.' :: ['0'] := by
  have hp : ((digits.length : Int) + n).toNat = digits.length + n := by omega
  have hm : (-((digits.length : Int) + n)).toNat = 0 := by omega
  simp [positional, hp, hm, hne, List.take_of_length_le, List.drop_of_length_le]

/-- A positional text is made of digits around a point. -/
theorem positional_eq {digits : List Char} (hne : digits ≠ [])
    (hd : ∀ c ∈ digits, c.isDigit = true) (point : Int) : ∃ whole fraction,
      positional digits point = whole ++ '.' :: fraction ∧ Places digits point whole fraction := by
  have hlen := List.length_pos_iff.2 hne
  rcases Int.lt_or_le 0 point with hp | hp
  · rcases Int.lt_or_le point digits.length with hn | hn
    · obtain ⟨n, rfl⟩ := Int.eq_ofNat_of_zero_le (Int.le_of_lt hp)
      refine ⟨_, _, positional_inside (by omega) (by omega), ?_, ?_, ?_, 0, ?_, ?_⟩
      · simp only [ne_eq, List.take_eq_nil_iff, hne, or_false]; omega
      · exact fun c h => hd c (List.mem_of_mem_take h)
      · exact fun c h => hd c (List.mem_of_mem_drop h)
      · rw [List.length_drop]; omega
      · rw [List.take_append_drop, Nat.pow_zero, Nat.mul_one]
    · obtain ⟨n, rfl⟩ := Int.le.dest hn
      refine ⟨_, _, positional_behind hne n, ?_, ?_, ?_, n + 1, ?_, ?_⟩
      · simp [hne]
      · exact isDigit_of_mem_append hd isDigit_of_mem_replicate
      · simp
      · simp only [List.length_cons, List.length_nil]; omega
      · simp only [List.append_assoc, Nat.ofDigitChars_append, Nat.ofDigitChars_replicate_zero,
          Nat.ofDigitChars_cons, Nat.ofDigitChars_nil, Nat.pow_succ]
        ac_rfl
  · obtain ⟨n, rfl⟩ := Int.exists_eq_neg_ofNat hp
    refine ⟨_, _, positional_before hne n, ?_, ?_, ?_, 0, ?_, ?_⟩
    · simp
    · simp
    · exact isDigit_of_mem_append isDigit_of_mem_replicate hd
    · rw [List.length_append, List.length_replicate]; omega
    · simp [Nat.ofDigitChars_append, Nat.ofDigitChars_cons]

theorem Places.digit_or_point {digits whole fraction : List Char} {point : Int}
    (h : Places digits point whole fraction) :
    ∀ c ∈ whole ++ '.' :: fraction, c.isDigit = true ∨ c = '.' := by
  intro c hc
  rcases List.mem_append.1 hc with hc | hc
  · exact .inl (h.whole_digits c hc)
  · rcases List.mem_cons.1 hc with hc | hc
    · exact .inr hc
    · exact .inl (h.fraction_digits c hc)

/-- Digits around a point are a literal of the number that they have the value of. -/
theorem Places.lexeme {digits whole fraction : List Char} {point : Int}
    (h : Places digits point whole fraction) : Lexeme (whole ++ '.' :: fraction)
      (Binary64.ofDecimal false ⟨Nat.ofDigitChars 10 digits 0, point - digits.length⟩) where
  starts := Binary64.head?_digit_append _ h.ne_nil h.whole_digits
  characters := fun c hc => (h.digit_or_point c hc).imp_right .inl
  points := by
    have hw : '.' ∉ whole := fun hc => ne_point_of_isDigit (h.whole_digits _ hc) rfl
    have hf : '.' ∉ fraction := fun hc => ne_point_of_isDigit (h.fraction_digits _ hc) rfl
    simp [List.count_eq_zero_of_not_mem, hw, hf]
  reads := by
    obtain ⟨zeros, hlen, hval⟩ := h.value
    have hspace : ∀ c ∈ whole ++ '.' :: fraction, (decide ¬ isSpace c = true) = true := by
      intro c hc
      rcases h.digit_or_point c hc with hd | rfl
      · simp [isSpace_eq_false_of_isDigit hd]
      · rfl
    rw [List.filter_eq_self.2 hspace,
      Binary64.read?_places h.ne_nil h.whole_digits h.fraction_digits, hval, hlen,
      Binary64.ofDecimal_scale]

/-- A decimal with its point near the digits is written as a literal of its number. -/
theorem lexeme_text {d : Decimal} (hlow : -4 < d.point) (hhigh : d.point ≤ 16) :
    Lexeme d.text (Binary64.ofDecimal false d) := by
  have htext : d.text = positional (Nat.toDigits 10 d.digits) d.point := if_pos ⟨hlow, hhigh⟩
  obtain ⟨whole, fraction, heq, h⟩ := positional_eq Nat.toDigits_ne_nil
    (isDigit_of_mem_toDigits (n := d.digits)) d.point
  have hd : d.point - (Nat.toDigits 10 d.digits).length = d.exponent := by unfold point; omega
  have hl := h.lexeme
  rwa [Nat.ofDigitChars_ten_toDigits, hd, ← heq, ← htext] at hl

end Decimal

/-! ## Plain numbers -/

/-- The numbers that are written without an exponent and without a sign: zero, and those from
`0.0001` up to below `10 ^ 16`. -/
def Binary64.Plain (x : Binary64) : Prop :=
  x = zero false ∨ ofDecimal false ⟨1, -4⟩ ≤ x ∧ x < ofInt (10 ^ 16)

instance (x : Binary64) : Decidable x.Plain :=
  inferInstanceAs (Decidable (_ ∨ _ ∧ _))

namespace Binary64

theorem rank_lower :
    ∃ a : Int, (ofDecimal false ⟨1, -4⟩).rank? = some a ∧ (unitsPerOne : Int) ≤ a * 10 ^ 4 := by
  have h : (ofDecimal false ⟨1, -4⟩).rank?.any
      (fun a => decide ((unitsPerOne : Int) ≤ a * 10 ^ 4)) = true := by
    decide +kernel
  obtain ⟨a, ha, hle⟩ := (Option.any_eq_true _ _).1 h
  exact ⟨a, ha, of_decide_eq_true hle⟩

theorem rank_upper : (ofInt (10 ^ 16)).rank? = some ((unitsPerOne * 10 ^ 16 : Nat) : Int) := by
  decide +kernel

/-- A number from the lower bound on reaches its power of ten, and one below the upper bound does
not. -/
theorem reaches_of_le {m : Magnitude} (h : ofDecimal false ⟨1, -4⟩ ≤ .finite false m) :
    m.Reaches (-4) := by
  obtain ⟨a, b, ha, hb, hle⟩ := le_iff.1 h
  obtain ⟨a', ha', hunits⟩ := rank_lower
  obtain rfl := Option.some.inj (ha.symm.trans ha')
  obtain rfl : b = m.units := (Option.some.inj hb).symm
  rw [Magnitude.reaches_iff (i := 4) (j := 0) (by omega), Nat.pow_zero, Nat.mul_one]
  omega

theorem not_reaches_of_lt {m : Magnitude} (h : finite false m < ofInt (10 ^ 16)) :
    ¬ m.Reaches 16 := by
  obtain ⟨a, b, ha, hb, hlt⟩ := lt_iff.1 h
  obtain rfl : a = m.units := (Option.some.inj ha).symm
  obtain rfl := Option.some.inj (hb.symm.trans rank_upper)
  rw [Magnitude.reaches_iff (i := 0) (j := 16) (by omega), Nat.pow_zero, Nat.mul_one]
  omega

theorem ofInt_upper : ofInt (10 ^ 16) = ofDecimal false ⟨1, 16⟩ := by decide +kernel

theorem upper_le_limit : unitsPerOne * 10 ^ 16 ≤ unitsLimit := by decide +kernel

theorem finite_of_between {x : Binary64} (hl : ofDecimal false ⟨1, -4⟩ ≤ x)
    (hu : x < ofInt (10 ^ 16)) : ∃ m, x = finite false m := by
  obtain ⟨a, b, ha, hb, hle⟩ := le_iff.1 hl
  obtain ⟨a', ha', hunits⟩ := rank_lower
  obtain rfl := Option.some.inj (ha.symm.trans ha')
  obtain ⟨b', c, hb', hc, hlt⟩ := lt_iff.1 hu
  obtain rfl := Option.some.inj (hb.symm.trans hb')
  obtain rfl := Option.some.inj (hc.symm.trans rank_upper)
  have hpos := unitsPerOne_pos
  cases x with
  | nan => cases hb
  | infinite negative =>
    have hb := Option.some.inj hb
    have := upper_le_limit
    cases negative <;> simp only [signed, if_true, Bool.false_eq_true, if_false] at hb <;> omega
  | finite negative m =>
    have hb := Option.some.inj hb
    cases negative with
    | false => exact ⟨m, rfl⟩
    | true => simp only [signed, if_true] at hb; omega

/-- A plain number is not negative, and the point of its shortest decimal is near the digits. -/
theorem Plain.point {x : Binary64} (h : x.Plain) : ∃ m : Magnitude, x = finite false m ∧
    -4 < m.shortest.point ∧ m.shortest.point ≤ 16 := by
  rcases h with rfl | ⟨hl, hu⟩
  · refine ⟨_, rfl, ?_⟩
    rw [Magnitude.shortest, if_pos rfl]
    decide
  · obtain ⟨m, rfl⟩ := finite_of_between hl hu
    refine ⟨m, rfl, Magnitude.point_shortest (reaches_of_le hl) (not_reaches_of_lt hu) ?_⟩
    rw [← ofInt_upper]
    intro heq
    obtain ⟨a, b, ha, hb, hlt⟩ := lt_iff.1 hu
    rw [heq] at hb
    obtain rfl := Option.some.inj (ha.symm.trans hb)
    exact absurd hlt (Int.lt_irrefl a)

/-- A plain number is written as a literal of itself. -/
theorem lexeme_text {x : Binary64} (h : x.Plain) : Lexeme x.text.toList x := by
  obtain ⟨m, rfl, hlow, hhigh⟩ := h.point
  have hl := Decimal.lexeme_text hlow hhigh
  rw [Magnitude.shortest_reads] at hl
  simpa [text] using hl

end Binary64
/-! ## Texts of expressions -/

namespace Expr

/-- The expressions of negations and operations on plain numbers. -/
def Plain : Expr → Prop
  | number value => value.Plain
  | negative operand => operand.Plain
  | binary _ left right => left.Plain ∧ right.Plain
  | undetermined .. | empty => False

def decidePlain : (e : Expr) → Decidable e.Plain
  | number value => inferInstanceAs (Decidable value.Plain)
  | negative operand => operand.decidePlain
  | binary _ left right => @instDecidableAnd _ _ left.decidePlain right.decidePlain
  | undetermined .. | empty => .isFalse id

instance : DecidablePred Plain := decidePlain

/-- The tokens of the text of an expression. -/
def tokens : Expr → List Token
  | number value => [.number value]
  | negative operand =>
    .leftParen :: (.operator .subtract :: operand.tokens ++ [.rightParen])
  | binary op left right =>
    .leftParen :: (left.tokens ++ .operator op :: right.tokens ++ [.rightParen])
  | undetermined .. | empty => []

theorem renders_text {e : Expr} (h : e.Plain) : Renders e.text.toList e.tokens := by
  induction e with
  | number value =>
    simpa [text, tokens] using Renders.token (.number (Binary64.lexeme_text h)) .nil
  | negative operand ih =>
    have htext : (negative operand).text.toList =
        '(' :: '-' :: (operand.text.toList ++ [')']) := by simp [text]
    rw [htext]
    exact .symbol rfl (.symbol rfl ((ih h).append (.symbol rfl .nil)))
  | binary op left right ihl ihr =>
    have htext : (binary op left right).text.toList = '(' :: (left.text.toList ++
        ' ' :: op.symbol :: ' ' :: (right.text.toList ++ [')'])) := by simp [text]
    have htokens : (binary op left right).tokens = .leftParen :: (left.tokens ++
        .operator op :: (right.tokens ++ [Token.rightParen])) := by simp [tokens]
    rw [htext, htokens]
    exact .symbol rfl ((ihl h.1).append (.space rfl (.symbol op.ofSymbol?_symbol
      (.space rfl ((ihr h.2).append (.symbol rfl .nil))))))
  | undetermined | empty => exact h.elim

/-- Between any two numbers of a text stand a parenthesis or an operator. -/
theorem separated_tokens (e : Expr) : Separated e.tokens := by
  induction e with
  | number value => exact separated_singleton
  | negative operand ih =>
    refine .symbol (c := '(') rfl (.symbol (c := '-') rfl (separated_append.2 ⟨ih, ?_, ?_⟩))
    · exact separated_singleton
    · exact Token.apart_of_head?_not_number rfl
  | binary op left right ihl ihr =>
    refine .symbol (c := '(') rfl (separated_append.2 ⟨separated_append.2 ⟨ihl, ?_, ?_⟩, ?_, ?_⟩)
    · exact .symbol op.ofSymbol?_symbol ihr
    · exact Token.apart_of_head?_not_number rfl
    · exact separated_singleton
    · exact Token.apart_of_head?_not_number rfl
  | undetermined | empty => exact separated_nil

/-- The text of an expression is an atom that derives it. -/
theorem derives_tokens {e : Expr} (h : e.Plain) : Derives 7 e.tokens e := by
  induction e with
  | number value => exact .number
  | negative operand ih =>
    exact .group (.relax (.negative ((ih h).relax (by omega) (by omega))) (by omega) (by omega))
  | binary op left right ihl ihr =>
    have hlt := op.level_lt
    have hl : Derives op.precedence.level left.tokens left :=
      (ihl h.1).relax op.level_pos (by omega)
    have hr : Derives (op.precedence.level + 1) right.tokens right :=
      (ihr h.2).relax (by omega) (by omega)
    exact .group (.relax (.binary hl hr) (by omega) op.level_pos)
  | undetermined | empty => exact h.elim

/-- **Reading undoes writing.** An expression of negations and operations on plain numbers is read
of its text, if there is room for it; and there is with two calls for each token and two more. -/
theorem ofTextWithin_text {e : Expr} (h : e.Plain) :
    (∀ room, ofTextWithin room e.text ≠ .error .tooDeep → ofTextWithin room e.text = .ok e) ∧
      ∀ room, 2 * e.tokens.length + 2 ≤ room → ofTextWithin room e.text = .ok e := by
  have hscript := Script.ofText_eq_iff.2 ⟨renders_text h, separated_tokens e⟩
  have hd : Derives 1 (Script.ofText e.text).tokens e := by
    rw [hscript]; exact (derives_tokens h).relax (by omega) (by omega)
  have hf : (Script.ofText e.text).fault? = none := by rw [hscript]
  refine ⟨fun room hdeep => ofTextWithin_of_derives_of_ne hf hd hdeep, fun room hroom => ?_⟩
  exact ofTextWithin_of_derives hf hd (by rw [hscript]; simp only; omega)

theorem ofTextWithin_text_negative :
    ofTextWithin 20 "(-(1.0 + 0.0))" =
      .ok (negative (binary .add (number .one) (number (.zero false)))) := by
  have htext : (negative (binary .add (number .one) (number (.zero false)))).text =
      "(-(1.0 + 0.0))" := by decide +kernel
  rw [← htext]
  exact (ofTextWithin_text (by decide +kernel)).2 20 (by decide)

end Expr
end Abacus
