/-
Scripts and renderings.

A text without a fault has the tokens that it renders, and a rendering of
separated tokens has these tokens and no fault (`Script.ofText_eq_iff`). The
literal that a scan has open is followed character by character
(`Numeral.absorb`), and its value is what its characters read as
(`read?_absorb`).
-/
import Abacus.Proofs.Decimal
import Abacus.Token.Rendering

namespace Abacus

/-! ## Kinds of characters -/

theorem isSpace_eq_false_of_isDigit {c : Char} (h : c.isDigit = true) : isSpace c = false := by
  rw [Bool.eq_false_iff]
  intro hs
  simp only [isSpace, decide_eq_true_eq, List.mem_cons, List.not_mem_nil, or_false] at hs
  rcases hs with rfl | rfl | rfl | rfl | rfl <;> cases h

theorem ne_point_of_isDigit {c : Char} (h : c.isDigit = true) : c ≠ '.' := by
  intro hc
  rw [hc] at h
  cases h

theorem ne_point_of_isSpace {c : Char} (h : isSpace c = true) : c ≠ '.' := by
  intro hc
  rw [hc] at h
  cases h

theorem Token.not_space_of_ofSymbol? {c : Char} {token : Token} (h : ofSymbol? c = some token) :
    isSpace c = false := by
  unfold ofSymbol? at h
  split at h <;> first | rfl | cases h

theorem Token.not_digit_of_ofSymbol? {c : Char} {token : Token} (h : ofSymbol? c = some token) :
    c.isDigit = false := by
  unfold ofSymbol? at h
  split at h <;> first | rfl | cases h

theorem Token.not_number_of_ofSymbol? {c : Char} {token : Token} (h : ofSymbol? c = some token) :
    token.isNumber = false := by
  unfold ofSymbol? at h
  split at h <;> first | (cases h; rfl) | cases h

theorem Operator.ofSymbol?_symbol (op : Operator) :
    Token.ofSymbol? op.symbol = some (.operator op) := by
  cases op <;> rfl

/-- What may stand in a literal. -/
def IsLiteralChar (c : Char) : Prop := c.isDigit = true ∨ c = '.' ∨ isSpace c = true

/-! ## Literals -/

namespace Numeral

/-- A literal with one more of its characters. -/
def absorb (numeral : Numeral) (c : Char) : Numeral :=
  if c.isDigit then numeral.push (Text.digitValue c)
  else if c = '.' then { numeral with places? := some 0 }
  else numeral

theorem absorb_digit {numeral : Numeral} {c : Char} (h : c.isDigit = true) :
    numeral.absorb c = numeral.push (Text.digitValue c) := by
  simp [absorb, h]

theorem absorb_point (numeral : Numeral) :
    numeral.absorb '.' = { numeral with places? := some 0 } := rfl

theorem absorb_space {numeral : Numeral} {c : Char} (h : isSpace c = true) :
    numeral.absorb c = numeral := by
  have hd : c.isDigit = false := by
    rw [Bool.eq_false_iff]
    intro hd
    rw [isSpace_eq_false_of_isDigit hd] at h
    cases h
  simp [absorb, hd, ne_point_of_isSpace h]

theorem foldl_absorb_filter (numeral : Numeral) (cs : List Char) :
    (cs.filter fun c => ¬ isSpace c).foldl absorb numeral = cs.foldl absorb numeral := by
  induction cs generalizing numeral with
  | nil => rfl
  | cons c cs ih =>
    cases hs : isSpace c with
    | true => simp [hs, absorb_space hs, ← ih]
    | false => simp [hs, ← ih]

theorem foldl_absorb_digits (numeral : Numeral) {digits : List Char}
    (hd : ∀ c ∈ digits, c.isDigit = true) : digits.foldl absorb numeral =
      ⟨numeral.start, Nat.ofDigitChars 10 digits numeral.digits,
        numeral.places?.map (· + digits.length)⟩ := by
  induction digits generalizing numeral with
  | nil => simp
  | cons c digits ih =>
    rw [List.foldl_cons, absorb_digit (hd c (by simp)), ih _ fun c h => hd c (by simp [h])]
    simp only [push, Nat.ofDigitChars_cons, Text.digitValue, Nat.mul_comm, List.length_cons,
      Option.map_map]
    congr 2
    funext n
    simp; omega

theorem read?_foldl_absorb (start : Nat) {cs : List Char} (hs : cs.head?.any Char.isDigit = true)
    (hc : ∀ c ∈ cs, c.isDigit = true ∨ c = '.') (hp : cs.count '.' ≤ 1) :
    Binary64.read? cs = some (cs.foldl absorb ⟨start, 0, none⟩).value := by
  by_cases hm : '.' ∈ cs
  · obtain ⟨whole, places, rfl, hw⟩ := List.eq_append_cons_of_mem hm
    have hplaces : '.' ∉ places := by
      rw [← List.count_eq_zero]
      simp only [List.count_append, List.count_cons_self] at hp
      omega
    have hdw : ∀ c ∈ whole, c.isDigit = true := fun c h =>
      (hc c (by simp [h])).resolve_right fun he => hw (he ▸ h)
    have hdp : ∀ c ∈ places, c.isDigit = true := fun c h =>
      (hc c (by simp [h])).resolve_right fun he => hplaces (he ▸ h)
    have hne : whole ≠ [] := by rintro rfl; cases hs
    rw [Binary64.read?_places hne hdw hdp, List.foldl_append, List.foldl_cons,
      foldl_absorb_digits _ hdw, absorb_point, foldl_absorb_digits _ hdp]
    simp [value, decimal, Nat.ofDigitChars_append]
  · have hd : ∀ c ∈ cs, c.isDigit = true := fun c h =>
      (hc c h).resolve_right fun he => hm (he ▸ h)
    have hne : cs ≠ [] := by rintro rfl; cases hs
    rw [Binary64.read?_whole hne hd, foldl_absorb_digits _ hd]
    rfl

/-- The value of a literal is what its characters read as. -/
theorem read?_absorb (start : Nat) {cs : List Char} (hs : cs.head?.any Char.isDigit = true)
    (hc : ∀ c ∈ cs, IsLiteralChar c) (hp : cs.count '.' ≤ 1) :
    Binary64.read? (cs.filter fun c => ¬ isSpace c) =
      some (cs.foldl absorb ⟨start, 0, none⟩).value := by
  rw [← foldl_absorb_filter]
  apply read?_foldl_absorb
  · cases cs with
    | nil => cases hs
    | cons c cs =>
      have hs : c.isDigit = true := by simpa using hs
      simp [isSpace_eq_false_of_isDigit hs, hs]
  · intro c hm
    obtain ⟨hm, hns⟩ := List.mem_filter.1 hm
    rcases hc c hm with h | h | h
    · exact .inl h
    · exact .inr h
    · simp [h] at hns
  · exact Nat.le_trans (List.filter_sublist.count_le '.') hp

end Numeral

/-! ## Scans -/

namespace Script

theorem scan_space {c : Char} (h : isSpace c = true) (position : Nat) (open? : Option Numeral)
    (rest : List Char) : scan position open? (c :: rest) = scan (position + 1) open? rest :=
  if_pos h

/-- What is neither white space nor a digit is a symbol, a point or no part of a token. -/
theorem scan_other {c : Char} (hs : isSpace c = false) (hd : c.isDigit = false) (position : Nat)
    (open? : Option Numeral) (rest : List Char) : scan position open? (c :: rest) =
      match Token.ofSymbol? c with
      | some token => (scan (position + 1) none rest).after (Numeral.close open? ++ [token])
      | none =>
        match open? with
        | some numeral =>
          if c = '.' then
            match numeral.places? with
            | some _ => ⟨[], some (.secondPoint numeral.start)⟩
            | none => scan (position + 1) (some { numeral with places? := some 0 }) rest
          else
            ⟨Numeral.close open?, some (.invalidCharacter c position)⟩
        | none => ⟨[], some (.invalidCharacter c position)⟩ :=
  (if_neg (by simp [hs])).trans (if_neg (by simp [hd]))

theorem scan_digit {c : Char} (h : c.isDigit = true) (position : Nat) (open? : Option Numeral)
    (rest : List Char) : scan position open? (c :: rest) =
      scan (position + 1) (some (Numeral.grow open? position (Text.digitValue c))) rest :=
  (if_neg (by simp [isSpace_eq_false_of_isDigit h])).trans (if_pos h)

theorem scan_symbol {c : Char} {token : Token} (h : Token.ofSymbol? c = some token)
    (position : Nat) (open? : Option Numeral) (rest : List Char) :
    scan position open? (c :: rest) =
      (scan (position + 1) none rest).after (Numeral.close open? ++ [token]) := by
  rw [scan_other (Token.not_space_of_ofSymbol? h) (Token.not_digit_of_ofSymbol? h), h]

theorem scan_point {numeral : Numeral} (h : numeral.places? = none) (position : Nat)
    (rest : List Char) : scan position (some numeral) ('.' :: rest) =
      scan (position + 1) (some (numeral.absorb '.')) rest := by
  have hs : isSpace '.' = false := rfl
  have hd : '.'.isDigit = false := rfl
  have ht : Token.ofSymbol? '.' = none := rfl
  simp only [scan_other hs hd, ht, h, if_true, Numeral.absorb_point]

theorem scan_secondPoint {numeral : Numeral} (h : numeral.places? ≠ none) (position : Nat)
    (rest : List Char) : scan position (some numeral) ('.' :: rest) =
      ⟨[], some (.secondPoint numeral.start)⟩ := by
  obtain ⟨places, hp⟩ := Option.ne_none_iff_exists'.1 h
  have hs : isSpace '.' = false := rfl
  have hd : '.'.isDigit = false := rfl
  have ht : Token.ofSymbol? '.' = none := rfl
  simp only [scan_other hs hd, ht, hp, if_true]

theorem scan_invalid {c : Char} {open? : Option Numeral} (hs : ¬ isSpace c) (hd : ¬ c.isDigit)
    (ht : Token.ofSymbol? c = none) (hp : open? ≠ none → c ≠ '.') (position : Nat)
    (rest : List Char) : scan position open? (c :: rest) =
      ⟨Numeral.close open?, some (.invalidCharacter c position)⟩ := by
  have hother := scan_other (Bool.eq_false_iff.2 hs) (Bool.eq_false_iff.2 hd) position open? rest
  rw [ht] at hother
  cases open? with
  | none => exact hother
  | some numeral => exact hother.trans (if_neg (hp (by simp)))

theorem add_length_cons (position : Nat) (c : Char) (rest : List Char) :
    position + (c :: rest).length = position + 1 + rest.length := by
  rw [List.length_cons]
  omega

/-- A scan follows an open literal over its characters. -/
theorem scan_literal {cs : List Char} (hc : ∀ c ∈ cs, IsLiteralChar c) :
    ∀ {numeral : Numeral} (position : Nat) (rest : List Char),
      cs.count '.' ≤ (if numeral.places?.isSome then 0 else 1) →
      scan position (some numeral) (cs ++ rest) =
        scan (position + cs.length) (some (cs.foldl Numeral.absorb numeral)) rest := by
  induction cs with
  | nil => intros; rfl
  | cons c cs ih =>
    intro numeral position rest hp
    have ih := @ih fun c h => hc c (by simp [h])
    rw [List.cons_append, List.foldl_cons, add_length_cons]
    rcases hc c (by simp) with h | rfl | h
    · rw [scan_digit h, Numeral.absorb_digit h, Numeral.grow]
      apply ih
      simpa [Numeral.push, ne_point_of_isDigit h] using hp
    · have hn : numeral.places? = none := by
        cases hn : numeral.places? with
        | none => rfl
        | some n => simp [hn] at hp
      rw [scan_point hn]
      apply ih
      simp [hn] at hp
      simp [Numeral.absorb_point, hp]
    · rw [scan_space h, Numeral.absorb_space h]
      apply ih
      simpa [ne_point_of_isSpace h] using hp

end Script

/-! ## Separated tokens -/

theorem Token.apart_nil (tokens : List Token) : Apart [] tokens := fun h => by cases h.1

theorem Token.apart_of_not_number {token : Token} {tokens : List Token}
    (h : token.isNumber = false) : Apart [token] tokens := by
  intro hboth
  simp [h] at hboth

theorem Token.apart_of_head?_not_number {before after : List Token}
    (h : after.head?.any isNumber = false) : Apart before after := by
  intro hboth
  simp [h] at hboth

/-- Of the tokens in front, the last alone decides. -/
theorem Token.apart_cons_cons {first second : Token} {before after : List Token} :
    Apart (first :: second :: before) after ↔ Apart (second :: before) after := by
  simp [Apart, List.getLast?_cons_cons]

theorem separated_nil : Separated [] := by
  intro before after h
  rw [(List.nil_eq_append_iff.1 h).1]
  exact Token.apart_nil after

theorem separated_cons {token : Token} {tokens : List Token} : Separated (token :: tokens) ↔
    Token.Apart [token] tokens ∧ Separated tokens := by
  constructor
  · intro h
    refine ⟨h [token] tokens rfl, fun before after hsplit => ?_⟩
    cases before with
    | nil => exact Token.apart_nil _
    | cons first before =>
      exact Token.apart_cons_cons.1 (h (token :: first :: before) after (by rw [hsplit]; rfl))
  · rintro ⟨ha, h⟩ before after hsplit
    cases before with
    | nil => exact Token.apart_nil _
    | cons first before =>
      rw [List.cons_append, List.cons.injEq] at hsplit
      obtain ⟨rfl, hsplit⟩ := hsplit
      cases before with
      | nil => rw [List.nil_append] at hsplit; rw [← hsplit]; exact ha
      | cons second before => exact Token.apart_cons_cons.2 (h _ _ hsplit)

theorem separated_singleton {token : Token} : Separated [token] :=
  separated_cons.2 ⟨Token.apart_of_head?_not_number rfl, separated_nil⟩

theorem separated_append {before after : List Token} : Separated (before ++ after) ↔
    Separated before ∧ Separated after ∧ Token.Apart before after := by
  induction before with
  | nil => simp [separated_nil, Token.apart_nil]
  | cons token before ih =>
    rw [List.cons_append, separated_cons, ih, separated_cons]
    cases before with
    | nil =>
      have hnil : Token.Apart [token] [] := Token.apart_of_head?_not_number rfl
      simp [separated_nil, Token.apart_nil, hnil, and_comm]
    | cons next before =>
      rw [Token.apart_cons_cons]
      exact and_assoc.symm

/-! ## From renderings to scripts -/

theorem Renders.append {cs cs' : List Char} {tokens tokens' : List Token} (h : Renders cs tokens)
    (h' : Renders cs' tokens') : Renders (cs ++ cs') (tokens ++ tokens') := by
  induction h with
  | nil => exact h'
  | space hc _ ih => exact .space hc ih
  | token hf _ ih => rw [List.append_assoc, List.cons_append]; exact .token hf ih

theorem Renders.append_inv {cs : List Char} {front back : List Token}
    (h : Renders cs (front ++ back)) :
    ∃ before after, cs = before ++ after ∧ Renders before front ∧ Renders after back := by
  generalize ht : front ++ back = tokens at h
  induction h generalizing front with
  | nil =>
    obtain ⟨rfl, rfl⟩ := List.append_eq_nil_iff.1 ht
    exact ⟨[], [], rfl, .nil, .nil⟩
  | space hc _ ih =>
    obtain ⟨before, after, rfl, hb, ha⟩ := ih ht
    exact ⟨_ :: before, after, rfl, .space hc hb, ha⟩
  | @token first rest token tokens hf h ih =>
    cases front with
    | nil =>
      rw [List.nil_append] at ht
      exact ⟨[], first ++ rest, rfl, .nil, ht ▸ .token hf h⟩
    | cons next front =>
      obtain ⟨rfl, hrest⟩ := List.cons.inj ht
      obtain ⟨before, after, rfl, hb, ha⟩ := ih hrest
      exact ⟨first ++ before, after, (List.append_assoc ..).symm, .token hf hb, ha⟩

theorem Lexeme.scan {cs : List Char} {value : Binary64} (h : Lexeme cs value) (position : Nat) :
    ∃ numeral : Numeral, numeral.value = value ∧ ∀ rest, Script.scan position none (cs ++ rest) =
      Script.scan (position + cs.length) (some numeral) rest := by
  refine ⟨cs.foldl Numeral.absorb ⟨position, 0, none⟩, ?_, fun rest => ?_⟩
  · have := h.reads.symm.trans (Numeral.read?_absorb position h.starts h.characters h.points)
    exact (Option.some.inj this).symm
  · have hs := h.starts
    have hc := h.characters
    have hp := h.points
    cases cs with
    | nil => cases hs
    | cons c cs =>
      have hd : c.isDigit = true := by simpa using hs
      have hne := ne_point_of_isDigit hd
      rw [List.cons_append, Script.scan_digit hd, List.foldl_cons, Numeral.absorb_digit hd,
        Script.add_length_cons]
      simp only [Numeral.grow, Numeral.push, Nat.zero_mul, Nat.zero_add, Option.map_none]
      exact Script.scan_literal (fun c h => hc c (by simp [h])) _ _ (by simpa [hne] using hp)

/-- The tokens of a rendering are scanned, behind the literal that is open before it. -/
theorem Renders.scan {cs : List Char} {tokens : List Token} (h : Renders cs tokens)
    (hs : Separated tokens) : ∀ (position : Nat) (open? : Option Numeral),
      Token.Apart (Numeral.close open?) tokens →
      Script.scan position open? cs = ⟨Numeral.close open? ++ tokens, none⟩ := by
  induction h with
  | nil => intro position open? _; rw [List.append_nil]; rfl
  | space hc _ ih => intro position open? ha; rw [Script.scan_space hc, ih hs _ _ ha]
  | token hf _ ih =>
    intro position open? ha
    obtain ⟨happ, hs'⟩ := separated_cons.1 hs
    cases hf with
    | number hl =>
      cases open? with
      | some numeral => simp [Token.Apart, Numeral.close, Token.isNumber, Token.kind,
          Token.label] at ha
      | none =>
        obtain ⟨numeral, rfl, hscan⟩ := hl.scan position
        rw [hscan, ih hs' _ (some numeral) happ]
        rfl
    | symbol hc =>
      rw [List.singleton_append, Script.scan_symbol hc, ih hs' _ none (Token.apart_nil _)]
      simp [Script.after, Numeral.close]

/-! ## From scripts to renderings -/

/-- The characters of a literal that is open, as far as they have been read. -/
structure Numeral.Spells (numeral : Numeral) (cs : List Char) : Prop where
  starts : cs.head?.any Char.isDigit = true
  characters : ∀ c ∈ cs, IsLiteralChar c
  points : cs.count '.' = if numeral.places?.isSome then 1 else 0
  absorbed : ∃ start, numeral = cs.foldl Numeral.absorb ⟨start, 0, none⟩

namespace Numeral.Spells

theorem lexeme {numeral : Numeral} {cs : List Char} (h : numeral.Spells cs) :
    Lexeme cs numeral.value where
  starts := h.starts
  characters := h.characters
  points := by rw [h.points]; split <;> omega
  reads := by
    obtain ⟨start, hn⟩ := h.absorbed
    rw [hn]
    exact read?_absorb start h.starts h.characters (by rw [h.points]; split <;> omega)

theorem start {c : Char} (position : Nat) (h : c.isDigit = true) :
    Numeral.Spells (grow none position (Text.digitValue c)) [c] where
  starts := by simpa using h
  characters := by simp [IsLiteralChar, h]
  points := by simp [grow, ne_point_of_isDigit h]
  absorbed := ⟨position, by simp [absorb_digit h, push, grow]⟩

theorem snoc {numeral : Numeral} {cs : List Char} {c : Char} (h : numeral.Spells cs)
    (hc : IsLiteralChar c) (hp : c = '.' → numeral.places? = none) :
    (numeral.absorb c).Spells (cs ++ [c]) where
  starts := by
    have hs := h.starts
    cases cs with
    | nil => cases hs
    | cons => exact hs
  characters := by
    intro c' hm
    rcases List.mem_append.1 hm with hm | hm
    · exact h.characters c' hm
    · rw [List.mem_singleton.1 hm]; exact hc
  points := by
    rw [List.count_append, h.points]
    rcases hc with hd | rfl | hs
    · simp [absorb_digit hd, push, ne_point_of_isDigit hd]
    · simp [absorb_point, hp rfl]
    · simp [absorb_space hs, ne_point_of_isSpace hs]
  absorbed := by
    obtain ⟨start, hn⟩ := h.absorbed
    exact ⟨start, by rw [List.foldl_append, ← hn]; rfl⟩

end Numeral.Spells

/-- The characters that the open literal has taken, if one is open. -/
def Numeral.Taken (open? : Option Numeral) (cs : List Char) : Prop :=
  match open? with
  | some numeral => numeral.Spells cs
  | none => cs = []

theorem Renders.symbol {c : Char} {rest : List Char} {token : Token} {tokens : List Token}
    (hc : Token.ofSymbol? c = some token) (h : Renders rest tokens) :
    Renders (c :: rest) (token :: tokens) :=
  .token (.symbol hc) h

theorem Separated.symbol {c : Char} {token : Token} {tokens : List Token}
    (hc : Token.ofSymbol? c = some token) (h : Separated tokens) : Separated (token :: tokens) :=
  separated_cons.2 ⟨Token.apart_of_not_number (Token.not_number_of_ofSymbol? hc), h⟩

/-- What is scanned without a fault renders its tokens, and these are separated. -/
theorem Script.renders_of_scan (position : Nat) (open? : Option Numeral) (cs : List Char) :
    ∀ {tokens : List Token} {taken : List Char}, Numeral.Taken open? taken →
      scan position open? cs = ⟨tokens, none⟩ → Renders (taken ++ cs) tokens ∧ Separated tokens := by
  fun_induction scan position open? cs with
  | case1 position open? =>
    intro tokens taken ht h
    cases h
    cases open? with
    | none => cases ht; exact ⟨.nil, separated_nil⟩
    | some numeral => exact ⟨.token (.number ht.lexeme) .nil, separated_singleton⟩
  | case2 position open? c rest hs ih =>
    intro tokens taken ht h
    cases open? with
    | none =>
      cases ht
      obtain ⟨hr, hsep⟩ := @ih _ [] rfl h
      exact ⟨.space hs hr, hsep⟩
    | some numeral =>
      have ht' := ht.snoc (.inr (.inr hs)) fun hp => absurd hp (ne_point_of_isSpace hs)
      rw [Numeral.absorb_space hs] at ht'
      simpa using ih ht' h
  | case3 position open? c rest _ hd ih =>
    intro tokens taken ht h
    cases open? with
    | none => cases ht; exact ih (.start position hd) h
    | some numeral =>
      have ht' := ht.snoc (.inl hd) fun hp => absurd hp (ne_point_of_isDigit hd)
      rw [Numeral.absorb_digit hd] at ht'
      simpa using ih ht' h
  | case4 position open? c rest _ _ token hc ih =>
    intro tokens taken ht h
    rcases hscan : scan (position + 1) none rest with ⟨scanned, fault?⟩
    simp only [after, hscan, mk.injEq] at h
    obtain ⟨rfl, rfl⟩ := h
    obtain ⟨hr, hsep⟩ := @ih _ [] rfl hscan
    have hr := hr.symbol hc
    have hsep := hsep.symbol hc
    cases open? with
    | none => cases ht; exact ⟨hr, hsep⟩
    | some numeral =>
      refine ⟨.token (.number ht.lexeme) hr, separated_cons.2 ⟨?_, hsep⟩⟩
      exact Token.apart_of_head?_not_number (Token.not_number_of_ofSymbol? hc)
  | case6 position rest numeral hn _ _ _ ih =>
    intro tokens taken ht h
    simpa using ih (ht.snoc (.inr (.inl rfl)) fun _ => hn) h
  | case5 | case7 | case8 => intro tokens taken _ h; cases h

/-- A text has a list of tokens and no fault exactly if it renders that list and no two numbers
stand side by side in it. -/
theorem Script.ofText_eq_iff {text : String} {tokens : List Token} :
    Script.ofText text = ⟨tokens, none⟩ ↔ Renders text.toList tokens ∧ Separated tokens := by
  constructor
  · intro h
    simpa using @renders_of_scan 0 none text.toList tokens [] rfl h
  · rintro ⟨hr, hs⟩
    exact hr.scan hs 0 none (Token.apart_nil _)

/-- A number is written as a literal, and any other token as what its kind is called; the end of the
input is not written. -/
theorem spells_iff {cs : List Char} {token : Token} : Spells cs token ↔
    (∃ value, token = .number value ∧ Lexeme cs value) ∨
      (token.isNumber = false ∧ token ≠ .endOfInput ∧ token.kind.spelling = String.ofList cs) := by
  constructor
  · intro hs
    cases hs with
    | number hl => exact .inl ⟨_, rfl, hl⟩
    | symbol hc =>
      unfold Token.ofSymbol? at hc
      split at hc <;> cases hc <;> exact .inr ⟨rfl, by simp, rfl⟩
  · rintro (⟨value, rfl, hl⟩ | ⟨hnumber, hend, hc⟩)
    · exact .number hl
    · have hc := congrArg String.toList hc
      rw [String.toList_ofList] at hc
      cases token with
      | number => cases hnumber
      | endOfInput => exact absurd rfl hend
      | operator op =>
        obtain rfl : [op.symbol] = cs := (String.toList_singleton _).symm.trans hc
        exact .symbol op.ofSymbol?_symbol
      | leftParen => exact hc ▸ .symbol rfl
      | rightParen => exact hc ▸ .symbol rfl

namespace Script

theorem ofText_eq_iff_stream {text : String} {tokens : List Token} :
    ofText text = ⟨tokens, none⟩ ↔
      (ofText text).stream = tokens ++ [.endOfInput] ∧ (ofText text).fault? = none := by
  constructor
  · intro h
    rw [h]
    exact ⟨rfl, rfl⟩
  · rintro ⟨hstream, hf⟩
    simp only [stream, hf, Option.isNone_none, if_true, List.append_cancel_right_eq] at hstream
    rw [← hstream, ← hf]

/-- **The texts that can be read to their end are the renderings of separated tokens.** The stream of
a text is a list of tokens and then the end of the input, without a fault, exactly if the text
renders that list and no two numbers stand side by side in it. A text that renders no such list has a
fault, and no other text has one. In a rendering a number is a literal, and any other token is what
its kind is called. -/
theorem stream_eq_iff (text : String) :
    (∀ tokens, (ofText text).stream = tokens ++ [.endOfInput] ∧ (ofText text).fault? = none ↔
      Renders text.toList tokens ∧ Separated tokens) ∧
    ((∃ fault, (ofText text).fault? = some fault) ↔
      ¬ ∃ tokens, Renders text.toList tokens ∧ Separated tokens) ∧
    ∀ cs token, Spells cs token ↔ (∃ value, token = .number value ∧ Lexeme cs value) ∨
      (token.isNumber = false ∧ token ≠ .endOfInput ∧ token.kind.spelling = String.ofList cs) := by
  have hread : ∀ tokens, (ofText text).stream = tokens ++ [Token.endOfInput] ∧
      (ofText text).fault? = none ↔ Renders text.toList tokens ∧ Separated tokens :=
    fun tokens => ofText_eq_iff_stream.symm.trans ofText_eq_iff
  refine ⟨hread, ⟨?_, ?_⟩, fun cs token => spells_iff⟩
  · rintro ⟨fault, hf⟩ ⟨tokens, hr⟩
    have hnone := ((hread tokens).2 hr).2
    simp [hf] at hnone
  · intro hno
    rw [← Option.ne_none_iff_exists']
    intro hf
    exact hno ⟨(ofText text).tokens, ofText_eq_iff.1 (by rw [← hf])⟩

end Script

end Abacus
