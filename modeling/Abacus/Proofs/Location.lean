/-
Where a text has its fault.

The fault of a text belongs to one character: the characters before it have no
fault, and whatever follows it changes nothing (`Script.fault_located`). Which
fault it is depends on whether a literal is open there, and that is said of the
characters alone (`OpenLiteral`): a literal reaches back to a digit, over digits,
points and white space, and before it stands nothing, or a symbol with white space
behind it. The scan's own literal is such a one at every step (`Opened`).
-/
import Abacus.Proofs.Finality

namespace Abacus

/-! ## Open literals -/

def lastVisible? (cs : List Char) : Option Char := (cs.filter fun c => ¬ isSpace c).getLast?

/-- Behind the last symbol stands nothing but white space. -/
def Closed (cs : List Char) : Prop := ∀ c, lastVisible? cs = some c → (Token.ofSymbol? c).isSome

/-- The characters from `start` on are a literal that may go on behind them. -/
structure OpenLiteral (cs : List Char) (start : Nat) : Prop where
  before : Closed (cs.take start)
  starts : (cs.drop start).head?.any Char.isDigit = true
  characters : ∀ c ∈ cs.drop start, IsLiteralChar c

theorem lastVisible?_append_space {cs : List Char} {c : Char} (h : isSpace c = true) :
    lastVisible? (cs ++ [c]) = lastVisible? cs := by
  simp [lastVisible?, h]

theorem lastVisible?_append {cs : List Char} {c : Char} (h : isSpace c = false) :
    lastVisible? (cs ++ [c]) = some c := by
  simp [lastVisible?, h]

theorem closed_nil : Closed [] := by
  intro c h
  cases h

theorem Closed.space {cs : List Char} {c : Char} (h : Closed cs) (hc : isSpace c = true) :
    Closed (cs ++ [c]) := by
  rw [Closed, lastVisible?_append_space hc]
  exact h

theorem Closed.symbol {c : Char} {token : Token} (cs : List Char)
    (h : Token.ofSymbol? c = some token) : Closed (cs ++ [c]) := by
  intro last hlast
  rw [lastVisible?_append (Token.not_space_of_ofSymbol? h)] at hlast
  obtain rfl := Option.some.inj hlast
  rw [h]
  rfl

theorem IsLiteralChar.ofSymbol? {c : Char} (h : IsLiteralChar c) : Token.ofSymbol? c = none := by
  rw [Option.eq_none_iff_forall_ne_some]
  intro token ht
  rcases h with hd | rfl | hs
  · rw [Token.not_digit_of_ofSymbol? ht] at hd
    cases hd
  · cases ht
  · rw [Token.not_space_of_ofSymbol? ht] at hs
    cases hs

/-- The last visible character behind the start of an open literal is one of the literal's. -/
theorem OpenLiteral.last {cs : List Char} {start : Nat} (h : OpenLiteral cs start) :
    ∃ c, lastVisible? cs = some c ∧ IsLiteralChar c := by
  have hvisible : (cs.drop start).filter (fun c => ¬ isSpace c) ≠ [] := by
    intro hnil
    obtain ⟨c, hhead, hd⟩ := (Option.any_eq_true ..).1 h.starts
    have hs := List.filter_eq_nil_iff.1 hnil c (List.mem_of_mem_head? hhead)
    simp [isSpace_eq_false_of_isDigit hd] at hs
  obtain ⟨c, hc⟩ : ∃ c, ((cs.drop start).filter fun c => ¬ isSpace c).getLast? = some c :=
    ⟨_, List.getLast?_eq_some_getLast hvisible⟩
  refine ⟨c, ?_, h.characters c (List.mem_of_mem_filter (List.mem_of_getLast? hc))⟩
  rw [lastVisible?, ← List.take_append_drop start cs, List.filter_append,
    List.getLast?_append, hc]
  rfl

theorem Closed.not_open {cs : List Char} (h : Closed cs) (start : Nat) : ¬ OpenLiteral cs start := by
  intro ho
  obtain ⟨c, hlast, hc⟩ := ho.last
  have hsymbol := h c hlast
  rw [hc.ofSymbol?] at hsymbol
  cases hsymbol

namespace Numeral

theorem start_absorb (numeral : Numeral) (c : Char) : (numeral.absorb c).start = numeral.start := by
  unfold absorb
  split
  · rfl
  · split <;> rfl

/-- What a scan has open is what is open in the characters that it has seen. -/
def Opened (seen : List Char) : Option Numeral → Prop
  | some numeral => Closed (seen.take numeral.start) ∧ numeral.Spells (seen.drop numeral.start)
  | none => Closed seen

namespace Opened

variable {seen : List Char} {numeral : Numeral} {c : Char}

theorem openLiteral (h : Opened seen (some numeral)) : OpenLiteral seen numeral.start :=
  ⟨h.1, h.2.starts, h.2.characters⟩

theorem snoc (h : Opened seen (some numeral)) (hc : IsLiteralChar c)
    (hp : c = '.' → numeral.places? = none) : Opened (seen ++ [c]) (some (numeral.absorb c)) := by
  obtain ⟨hclosed, hspells⟩ := h
  have hle : numeral.start ≤ seen.length := by
    by_contra hgt
    have hstarts := hspells.starts
    rw [List.drop_of_length_le (by omega)] at hstarts
    cases hstarts
  simp only [Opened, start_absorb, List.take_append_of_le_length hle,
    List.drop_append_of_le_length hle]
  exact ⟨hclosed, hspells.snoc hc hp⟩

theorem space {open? : Option Numeral} (h : Opened seen open?) (hc : isSpace c = true) :
    Opened (seen ++ [c]) open? := by
  cases open? with
  | none => exact Closed.space h hc
  | some numeral =>
    have hsnoc := h.snoc (.inr (.inr hc)) fun hp => absurd hp (ne_point_of_isSpace hc)
    rwa [absorb_space hc] at hsnoc

theorem digit {open? : Option Numeral} (h : Opened seen open?) (hc : c.isDigit = true) :
    Opened (seen ++ [c]) (some (grow open? seen.length (Text.digitValue c))) := by
  cases open? with
  | none =>
    have hclosed : Closed seen := h
    refine ⟨?_, ?_⟩
    · simpa [grow] using hclosed
    · simpa [grow] using Spells.start seen.length hc
  | some numeral =>
    have hsnoc := h.snoc (.inl hc) fun hp => absurd hp (ne_point_of_isDigit hc)
    rwa [absorb_digit hc] at hsnoc

end Opened
end Numeral

/-! ## Faults -/

namespace Script

/-- What a character is to be blamed for behind others: the fault, the tokens that come before it,
and those that the others have when nothing follows them. -/
inductive Blamed (before : List Char) :
    Char → LexicalFault → (kept read : List Token) → Prop where
  /-- An open literal that has a point gets another; it is not among the tokens. -/
  | secondPoint {start : Nat} {value : Binary64} {kept : List Token} :
    OpenLiteral before start → '.' ∈ before.drop start → Lexeme (before.drop start) value →
      Blamed before '.' (.secondPoint start) kept (kept ++ [.number value])
  | invalidCharacter {c : Char} {kept : List Token} :
    isSpace c = false → c.isDigit = false → Token.ofSymbol? c = none →
      (c = '.' → ∀ start, ¬ OpenLiteral before start) →
      Blamed before c (.invalidCharacter c before.length) kept kept

theorem Blamed.after {before : List Char} {c : Char} {fault : LexicalFault}
    {kept read : List Token} (h : Blamed before c fault kept read) (front : List Token) :
    Blamed before c fault (front ++ kept) (front ++ read) := by
  cases h with
  | secondPoint ho hp hl =>
    rw [← List.append_assoc]
    exact .secondPoint ho hp hl
  | invalidCharacter hs hd ht ho => exact .invalidCharacter hs hd ht ho

/-- A scan of characters, behind those that it has seen, ends at the first that is to be blamed. -/
def EndsAt (position : Nat) (open? : Option Numeral) (seen cs : List Char) (kept : List Token)
    (fault : LexicalFault) : Prop :=
  ∃ before c rest read, cs = before ++ c :: rest ∧ scan position open? before = ⟨read, none⟩ ∧
    scan position open? (before ++ [c]) = ⟨kept, some fault⟩ ∧
    Blamed (seen ++ before) c fault kept read

theorem EndsAt.cons {position : Nat} {open? next? : Option Numeral} {seen cs : List Char} {c : Char}
    {kept : List Token} {fault : LexicalFault} (front : List Token)
    (h : EndsAt (position + 1) next? (seen ++ [c]) cs kept fault)
    (hstep : ∀ more, scan position open? (c :: more) =
      (scan (position + 1) next? more).after front) :
    EndsAt position open? seen (c :: cs) (front ++ kept) fault := by
  obtain ⟨before, last, rest, read, rfl, hread, hfault, hblamed⟩ := h
  refine ⟨c :: before, last, rest, front ++ read, rfl, ?_, ?_, ?_⟩
  · rw [hstep, hread]
    rfl
  · rw [List.cons_append, hstep, hfault]
    rfl
  · rw [List.append_cons]
    exact hblamed.after front

theorem EndsAt.here {position : Nat} {open? : Option Numeral} {seen rest : List Char} {c : Char}
    {kept : List Token} {fault : LexicalFault}
    (hfault : scan position open? [c] = ⟨kept, some fault⟩)
    (h : Blamed seen c fault kept (Numeral.close open?)) :
    EndsAt position open? seen (c :: rest) kept fault :=
  ⟨[], c, rest, Numeral.close open?, rfl, rfl, hfault, by rwa [List.append_nil]⟩

/-- A scan with a fault ends at a character that is to be blamed for it. -/
theorem endsAt_of_scan (position : Nat) (open? : Option Numeral) (cs : List Char)
    {kept : List Token} {fault : LexicalFault} :
    ∀ {seen : List Char}, seen.length = position → Numeral.Opened seen open? →
      scan position open? cs = ⟨kept, some fault⟩ → EndsAt position open? seen cs kept fault := by
  fun_induction scan position open? cs generalizing kept with
  | case1 =>
    intro seen _ _ h
    cases h
  | case2 position open? c rest hs ih =>
    intro seen hlen ho h
    exact (ih (by simp [hlen]) (ho.space hs) h).cons [] fun more => scan_space hs ..
  | case3 position open? c rest _ hd ih =>
    intro seen hlen ho h
    subst hlen
    exact (ih (by simp) (ho.digit hd) h).cons [] fun more => scan_digit hd ..
  | case4 position open? c rest _ _ token ht ih =>
    intro seen hlen ho h
    rcases hscan : scan (position + 1) none rest with ⟨scanned, fault?⟩
    simp only [after, hscan, mk.injEq] at h
    obtain ⟨rfl, rfl⟩ := h
    have hends := @ih scanned (seen ++ [c]) (by simp [hlen]) (Closed.symbol seen ht) hscan
    exact hends.cons _ fun more => scan_symbol ht ..
  | case5 position rest numeral places hn =>
    intro seen hlen ho h
    cases h
    have hn : numeral.places? ≠ none := by simp [hn]
    refine .here (scan_secondPoint hn ..) (.secondPoint ho.openLiteral ?_ ho.2.lexeme)
    rw [← List.count_pos_iff, ho.2.points, if_pos (Option.isSome_iff_ne_none.2 hn)]
    exact Nat.one_pos
  | case6 position rest numeral hn _ _ _ ih =>
    intro seen hlen ho h
    exact (ih (by simp [hlen]) (ho.snoc (.inr (.inl rfl)) fun _ => hn) h).cons []
      fun more => scan_point hn ..
  | case7 position c rest hs hd ht numeral hp =>
    intro seen hlen ho h
    cases h
    subst hlen
    exact .here (scan_invalid hs hd ht (fun _ => hp) ..) (.invalidCharacter (by simpa using hs)
      (by simpa using hd) ht fun hc => absurd hc hp)
  | case8 position c rest hs hd ht =>
    intro seen hlen ho h
    cases h
    subst hlen
    exact .here (scan_invalid hs hd ht (fun h => absurd rfl h) ..) (.invalidCharacter
      (by simpa using hs) (by simpa using hd) ht fun _ => Closed.not_open ho)

/-- The script of the first characters of a text. -/
def ofPrefix (text : String) (count : Nat) : Script :=
  ofText (String.ofList (text.toList.take count))

theorem ofText_append_of_fault {a : String} (h : (ofText a).fault? ≠ none) (b : String) :
    ofText (a ++ b) = ofText a := by
  rcases ofText_append a with hsame | ⟨closed, last?, next, ha, -⟩
  · exact hsame b
  · rw [ha] at h
    exact absurd rfl h

/-- A prefix with a fault has the script of the text, and so it has that of any longer prefix. -/
theorem ofPrefix_of_fault {text : String} {k n : Nat} (hle : k ≤ n)
    (h : (ofPrefix text k).fault? ≠ none) : ofPrefix text n = ofPrefix text k := by
  have hsplit : String.ofList (text.toList.take n) =
      String.ofList (text.toList.take k) ++ String.ofList ((text.toList.take n).drop k) := by
    rw [← String.ofList_append, ← Nat.min_eq_left hle, ← List.take_take, Nat.min_eq_left hle,
      List.take_append_drop]
  rw [ofPrefix, hsplit]
  exact ofText_append_of_fault h _

theorem ofPrefix_eq {text : String} {count : Nat} {cs : List Char}
    (h : text.toList.take count = cs) : ofPrefix text count = scan 0 none cs := by
  rw [ofPrefix, ofText, String.toList_ofList, h]

/-- **The fault of a text is that of its first character that makes one.** A text with a fault has a
character `c` such that the characters before it have no fault, nor have fewer of them, and together
with it they have one. Either `c` is a point in an open literal that has one already, and the fault
is reported where that literal has its first digit; or `c` is neither white space nor a digit nor a
symbol, and no literal is open there if it is a point, and then it is reported itself. The tokens of
the text are those of the characters before `c`, without the literal that is open there if it gets a
second point. Whatever follows the text, neither the tokens nor the fault change. -/
theorem fault_located (text : String) (h : (ofText text).fault? ≠ none) :
    ∃ before c rest fault, text.toList = before ++ c :: rest ∧
      (∀ k ≤ before.length, (ofPrefix text k).fault? = none) ∧
      (ofPrefix text (before.length + 1)).fault? = some fault ∧ (ofText text).fault? = some fault ∧
      ((c = '.' ∧ ∃ start value, OpenLiteral before start ∧ '.' ∈ before.drop start ∧
          Lexeme (before.drop start) value ∧ fault = .secondPoint start ∧
          fault.message =
            "Malformed number at position " ++ toString start ++ ": more than one decimal point" ∧
          (ofPrefix text before.length).tokens = (ofText text).tokens ++ [.number value]) ∨
        (isSpace c = false ∧ c.isDigit = false ∧ Token.ofSymbol? c = none ∧
          (c = '.' → ∀ start, ¬ OpenLiteral before start) ∧
          fault = .invalidCharacter c before.length ∧
          fault.message = "Invalid character " ++ Text.quoted c.toString ++ " at position " ++
            toString before.length ∧
          (ofPrefix text before.length).tokens = (ofText text).tokens)) ∧
      ∀ more, ofText (text ++ more) = ofText text := by
  obtain ⟨fault, hf⟩ := Option.ne_none_iff_exists'.1 h
  obtain ⟨before, c, rest, read, htext, hread, hfault, hblamed⟩ :=
    @endsAt_of_scan 0 none text.toList (ofText text).tokens fault [] rfl closed_nil
      (by rw [← hf]; rfl)
  have hbefore : ofPrefix text before.length = ⟨read, none⟩ :=
    (ofPrefix_eq (by simp [htext])).trans hread
  have hlast : ofPrefix text (before.length + 1) = ⟨(ofText text).tokens, some fault⟩ :=
    (ofPrefix_eq (by simp [htext, List.take_append, List.take_of_length_le])).trans hfault
  refine ⟨before, c, rest, fault, htext, fun k hk => ?_, by rw [hlast], hf, ?_,
    ofText_append_of_fault h⟩
  · by_contra hk'
    rw [← ofPrefix_of_fault hk hk', hbefore] at hk'
    exact hk' rfl
  · rw [hbefore]
    cases hblamed with
    | secondPoint ho hp hl => exact .inl ⟨rfl, _, _, ho, hp, hl, rfl, rfl, rfl⟩
    | invalidCharacter hs hd ht ho => exact .inr ⟨hs, hd, ht, ho, rfl, rfl, rfl⟩

/-- White space inside a literal does not end it, and a character behind the fault is not looked
at. -/
theorem fault_located_secondPoint :
    let text := "(1 .2 . 3@"
    (ofText text).fault? ≠ none ∧ (ofText text).fault? = some (.secondPoint 1) ∧
      (∃ before c rest, text.toList = before ++ c :: rest ∧
        (∀ k ≤ before.length, (ofPrefix text k).fault? = none) ∧
        (ofPrefix text (before.length + 1)).fault? = some (.secondPoint 1)) ∧
      ofText (text ++ "+") = ofText text := by
  intro text
  have h : (ofText text).fault? = some (.secondPoint 1) := by decide
  have hne : (ofText text).fault? ≠ none := by simp [h]
  obtain ⟨before, c, rest, fault, htext, hnone, hlast, hf, -, hmore⟩ := fault_located text hne
  obtain rfl := Option.some.inj (hf.symm.trans h)
  exact ⟨hne, h, ⟨before, c, rest, htext, hnone, hlast⟩, hmore "+"⟩

end Script
end Abacus
