/-
White space means nothing, not even within a literal.

A scan of characters is the scan of those among them that are no white space,
with the place of a fault counted again (`Script.scan_place`). All that reading
and evaluation do with a fault is to report it, so texts that differ in white space
alone come to the same expressions and values, or to the same errors, but for the
places that these tell (`compute_solid`).
-/
import Abacus.Batch
import Abacus.Proofs.Renaming
import Abacus.Proofs.Rendering

namespace Abacus

/-- The characters of a text that are no white space. -/
def solid (text : String) : List Char := text.toList.filter fun c => ¬ isSpace c

def spacesBefore (text : String) (position : Nat) : Nat := (text.toList.take position).countP isSpace

/-! ## Places -/

/-- The place of the character that has `k` others before it, white space not counted. -/
def place : List Char → Nat → Nat
  | [], k => k
  | c :: cs, k =>
    if isSpace c then place cs k + 1
    else
      match k with
      | 0 => 0
      | k + 1 => place cs k + 1

theorem place_space {c : Char} (h : isSpace c = true) (cs : List Char) (k : Nat) :
    place (c :: cs) k = place cs k + 1 :=
  if_pos h

theorem place_zero {c : Char} (h : isSpace c = false) (cs : List Char) : place (c :: cs) 0 = 0 :=
  if_neg (by simp [h])

theorem place_succ {c : Char} (h : isSpace c = false) (cs : List Char) (k : Nat) :
    place (c :: cs) (k + 1) = place cs k + 1 :=
  if_neg (by simp [h])

/-- Before a place stand the characters counted and white space. -/
theorem place_eq (cs : List Char) (k : Nat) :
    place cs k = k + (cs.take (place cs k)).countP isSpace := by
  induction cs generalizing k with
  | nil => simp [place]
  | cons c cs ih =>
    cases hs : isSpace c with
    | true =>
      have := ih k
      rw [place_space hs, List.take_succ_cons, List.countP_cons_of_pos hs]
      omega
    | false =>
      cases k with
      | zero => simp [place_zero hs]
      | succ k =>
        have := ih k
        rw [place_succ hs, List.take_succ_cons, List.countP_cons_of_neg (by simp [hs])]
        omega

theorem getElem?_place (cs : List Char) (k : Nat) :
    cs[place cs k]? = (cs.filter fun c => ¬ isSpace c)[k]? := by
  induction cs generalizing k with
  | nil => simp
  | cons c cs ih =>
    cases hs : isSpace c with
    | true => simp [place_space hs, hs, ih]
    | false =>
      cases k with
      | zero => simp [place_zero hs, hs]
      | succ k => simp [place_succ hs, hs, ih]

/-! ## Faults -/

namespace LexicalFault

/-- The place that the fault tells. -/
def position : LexicalFault → Nat
  | invalidCharacter _ position => position
  | secondPoint start => start

/-- The same fault at another place. -/
def moveTo (position : Nat) : LexicalFault → LexicalFault
  | invalidCharacter c _ => invalidCharacter c position
  | secondPoint _ => secondPoint position

theorem position_moveTo (fault : LexicalFault) (position : Nat) :
    (fault.moveTo position).position = position := by
  cases fault <;> rfl

/-- What a message says beside the place. -/
theorem message_moveTo (fault : LexicalFault) : ∃ front back, ∀ position,
    (fault.moveTo position).message = front ++ toString position ++ back := by
  cases fault with
  | invalidCharacter c =>
    exact ⟨"Invalid character " ++ Text.quoted c.toString ++ " at position ", "",
      fun _ => String.append_empty.symm⟩
  | secondPoint =>
    exact ⟨"Malformed number at position ", ": more than one decimal point", fun _ => rfl⟩

/-- The faults of two texts are the same but for the places that they tell: these differ by the white
space before them, and the same character stands there. -/
structure Matches (s t : String) (fault fault' : LexicalFault) : Prop where
  same : fault.moveTo fault'.position = fault'
  message : ∃ front back, fault.message = front ++ toString fault.position ++ back ∧
    fault'.message = front ++ toString fault'.position ++ back
  position : fault.position + spacesBefore t fault'.position =
    fault'.position + spacesBefore s fault.position
  character : s.toList[fault.position]? = t.toList[fault'.position]?

theorem matches_of_solid {s t : String} (h : solid s = solid t) (fault : LexicalFault) (k : Nat) :
    (fault.moveTo (place s.toList k)).Matches s t (fault.moveTo (place t.toList k)) where
  same := by cases fault <;> rfl
  message := by
    obtain ⟨front, back, hmessage⟩ := fault.message_moveTo
    refine ⟨front, back, ?_, ?_⟩ <;> rw [hmessage, position_moveTo]
  position := by
    have hs := place_eq s.toList k
    have ht := place_eq t.toList k
    simp only [position_moveTo, spacesBefore]
    omega
  character := by
    simp only [position_moveTo, getElem?_place]
    exact congrArg (·[k]?) h

end LexicalFault

/-! ## Scripts -/

/-- Faults told at other places. -/
def Renaming.ofPlaces (f : Nat → Nat) : Renaming :=
  ⟨id, fun fault => fault.moveTo (f fault.position)⟩

theorem Renaming.script_ofPlaces (f : Nat → Nat) (script : Script) :
    (ofPlaces f).script script =
      ⟨script.tokens, script.fault?.map fun fault => fault.moveTo (f fault.position)⟩ := by
  rw [Renaming.script, List.map_id'' (token_eq_self _ fun _ => rfl)]
  rfl

theorem Renaming.stream_ofPlaces (f : Nat → Nat) (script : Script) :
    ((ofPlaces f).script script).stream = script.stream := by
  rw [Renaming.stream_script, List.map_id'' (token_eq_self _ fun _ => rfl)]

namespace Numeral

/-- The literal with its start counted at another place. -/
def relocate (f : Nat → Nat) (numeral : Numeral) : Numeral :=
  { numeral with start := f numeral.start }

theorem close_relocate (f : Nat → Nat) (open? : Option Numeral) :
    close (open?.map (relocate f)) = close open? := by
  cases open? <;> rfl

theorem grow_relocate (f : Nat → Nat) (open? : Option Numeral) (position digit : Nat) :
    (grow open? position digit).relocate f =
      grow (open?.map (relocate f)) (f position) digit := by
  cases open? <;> rfl

end Numeral

namespace Script

/-- A scan is the scan of what is no white space, with the places counted from `position` on. The
literal that is open has its place counted as well. -/
theorem scan_place {f : Nat → Nat} (cs : List Char) {k position : Nat} (open? : Option Numeral)
    (hf : ∀ j, f (k + j) = position + place cs j) :
    scan position (open?.map (.relocate f)) cs =
      (Renaming.ofPlaces f).script (scan k open? (cs.filter fun c => ¬ isSpace c)) := by
  induction cs generalizing k position open? with
  | nil => simp [scan, Renaming.script_ofPlaces, Numeral.close_relocate]
  | cons c cs ih =>
    cases hs : isSpace c with
    | true =>
      have hf' : ∀ j, f (k + j) = position + 1 + place cs j := fun j => by
        rw [hf, place_space hs]
        omega
      rw [scan_space hs, ih open? hf']
      simp [hs]
    | false =>
      have hk : f k = position := by simpa [place_zero hs] using hf 0
      have hf' : ∀ j, f (k + 1 + j) = position + 1 + place cs j := fun j => by
        rw [Nat.add_right_comm, Nat.add_assoc, hf, place_succ hs]
        omega
      have hc : (c :: cs).filter (fun c => ¬ isSpace c) = c :: cs.filter fun c => ¬ isSpace c := by
        simp [hs]
      rw [hc]
      by_cases hd : c.isDigit = true
      · rw [scan_digit hd, scan_digit hd, ← ih _ hf', Option.map_some, Numeral.grow_relocate, hk]
      · cases ht : Token.ofSymbol? c with
        | some token =>
          rw [scan_symbol ht, scan_symbol ht, Numeral.close_relocate]
          have ih := ih none hf'
          rw [Option.map_none] at ih
          rw [ih]
          simp only [after, Renaming.script_ofPlaces]
        | none =>
          by_cases hp : open? ≠ none ∧ c = '.'
          · obtain ⟨ho, rfl⟩ := hp
            obtain ⟨numeral, rfl⟩ := Option.ne_none_iff_exists'.1 ho
            by_cases hn : numeral.places? = none
            · have hn' : (numeral.relocate f).places? = none := hn
              rw [scan_point hn, Option.map_some, scan_point hn']
              exact ih (some (numeral.absorb '.')) hf'
            · have hn' : (numeral.relocate f).places? ≠ none := hn
              rw [scan_secondPoint hn, Option.map_some, scan_secondPoint hn']
              rfl
          · have hinvalid : open? ≠ none → c ≠ '.' := fun ho hc => hp ⟨ho, hc⟩
            have hs : ¬ isSpace c := by simp [hs]
            rw [scan_invalid hs hd ht hinvalid, scan_invalid hs hd ht (by simpa using hinvalid),
              Renaming.script_ofPlaces, Numeral.close_relocate, ← hk]
            rfl

/-- A text is read as what is left of it without white space, with the places counted in the text. -/
theorem ofText_of_solid {s t : String} (h : solid s = solid t) :
    ofText s =
      (Renaming.ofPlaces (place s.toList)).script (ofText (String.ofList (solid t))) := by
  rw [ofText, ofText, String.toList_ofList, ← h]
  exact scan_place s.toList none fun j => by rw [Nat.zero_add, Nat.zero_add]

end Script

/-! ## Readings and values -/

/-- The outcomes have the same value, or errors that are related. -/
inductive Agree {ε α : Type} (R : ε → ε → Prop) : Except ε α → Except ε α → Prop where
  | value (a : α) : Agree R (.ok a) (.ok a)
  | error {err err' : ε} : R err err' → Agree R (.error err) (.error err')

/-- The errors of two texts are the same, but for the place if it is a fault. -/
inductive ParseError.Matches (s t : String) : ParseError → ParseError → Prop where
  | lexical {fault fault' : LexicalFault} :
    fault.Matches s t fault' → Matches s t (.lexical fault) (.lexical fault')
  | other {err : ParseError} : (∀ fault, err ≠ .lexical fault) → Matches s t err err

inductive Failure.Matches (s t : String) : Failure → Failure → Prop where
  | parsing {err err' : ParseError} :
    err.Matches s t err' → Matches s t (.parsing err) (.parsing err')
  | evaluation (err : EvaluationError) : Matches s t (.evaluation err) (.evaluation err)

section

variable {s t : String} (h : solid s = solid t)
include h

theorem Script.stream_solid : (ofText s).stream = (ofText t).stream := by
  rw [ofText_of_solid h, ofText_of_solid (Eq.refl (solid t)), Renaming.stream_ofPlaces,
    Renaming.stream_ofPlaces]

theorem Script.fault_solid :
    Option.Rel (LexicalFault.Matches s t) (ofText s).fault? (ofText t).fault? := by
  rw [ofText_of_solid h, ofText_of_solid (Eq.refl (solid t)), Renaming.script_ofPlaces,
    Renaming.script_ofPlaces]
  cases (ofText (String.ofList (solid t))).fault? with
  | none => exact .none
  | some fault => exact .some (LexicalFault.matches_of_solid h fault fault.position)

theorem ParseError.matches_solid (err : ParseError) :
    ((Renaming.ofPlaces (place s.toList)).error err).Matches s t
      ((Renaming.ofPlaces (place t.toList)).error err) := by
  by_cases hl : ∃ fault, err = .lexical fault
  · obtain ⟨fault, rfl⟩ := hl
    exact .lexical (LexicalFault.matches_of_solid h fault fault.position)
  · have hne : ∀ fault, err ≠ .lexical fault := fun fault he => hl ⟨fault, he⟩
    rw [Renaming.error_eq_self _ (fun _ => rfl) hne, Renaming.error_eq_self _ (fun _ => rfl) hne]
    exact .other hne

theorem Expr.ofTextWithin_solid (room : Nat) :
    Agree (ParseError.Matches s t) (ofTextWithin room s) (ofTextWithin room t) := by
  rw [ofTextWithin_rename room (Script.ofText_of_solid h),
    ofTextWithin_rename room (Script.ofText_of_solid (Eq.refl (solid t)))]
  cases ofTextWithin room (String.ofList (solid t)) with
  | error err => exact .error (ParseError.matches_solid h err)
  | ok e =>
    rw [Renaming.outcome, Renaming.outcome, Renaming.expr_eq_self _ (fun _ => rfl),
      Renaming.expr_eq_self _ (fun _ => rfl)]
    exact .value e

/-- Texts that differ in white space alone have the same tokens and the same expression, and come to
the same value, or fail in the same way: a fault that is reported stands at the same character. -/
theorem compute_solid :
    (Script.ofText s).stream = (Script.ofText t).stream ∧
      Option.Rel (LexicalFault.Matches s t) (Script.ofText s).fault? (Script.ofText t).fault? ∧
      (∀ room, Agree (ParseError.Matches s t) (Expr.ofTextWithin room s)
        (Expr.ofTextWithin room t)) ∧
      ∀ tolerance, Agree (Failure.Matches s t) (compute tolerance s).result.1
        (compute tolerance t).result.1 := by
  refine ⟨Script.stream_solid h, Script.fault_solid h, Expr.ofTextWithin_solid h,
    fun tolerance => ?_⟩
  have hread : Agree (ParseError.Matches s t) (Expr.ofText s) (Expr.ofText t) :=
    Expr.ofTextWithin_solid h Parse.maxNesting
  simp only [Run.result, compute_apply]
  generalize Expr.ofText s = read, Expr.ofText t = read' at hread
  cases hread with
  | error hm => exact .error (.parsing hm)
  | value e =>
    dsimp only
    cases e.value tolerance with
    | error err => exact .error (.evaluation err)
    | ok value => exact .value value

end

/-- Between the digits of a literal white space only moves the fault behind it. -/
theorem compute_solid_digits :
    solid " 1 2@" = solid "12 @" ∧
      (Script.ofText " 1 2@").fault? = some (.invalidCharacter '@' 4) ∧
      (Script.ofText "12 @").fault? = some (.invalidCharacter '@' 3) ∧
      Agree (Failure.Matches " 1 2@" "12 @") (compute .standard " 1 2@").result.1
        (compute .standard "12 @").result.1 := by
  have h : solid " 1 2@" = solid "12 @" := by decide
  exact ⟨h, by decide, by decide, (compute_solid h).2.2.2 .standard⟩

end Abacus
