/-
The order of binary64 numbers.

Comparisons are comparisons of ranks, so they are a linear order on all
numbers but NaN, which no comparison holds of.
-/
import Abacus.Binary64.Basic

namespace Abacus
namespace Binary64

theorem le_iff {x y : Binary64} : x ≤ y ↔ ∃ a b, x.rank? = some a ∧ y.rank? = some b ∧ a ≤ b := by
  show x.le y = true ↔ _
  unfold le
  cases x.rank? <;> cases y.rank? <;> simp

theorem lt_iff {x y : Binary64} : x < y ↔ ∃ a b, x.rank? = some a ∧ y.rank? = some b ∧ a < b := by
  show x.lt y = true ↔ _
  unfold lt
  cases x.rank? <;> cases y.rank? <;> simp

theorem lt_of_lt_of_le {x y z : Binary64} (h : x < y) (h' : y ≤ z) : x < z := by
  obtain ⟨a, b, ha, hb, hab⟩ := lt_iff.1 h
  obtain ⟨b', c, hb', hc, hbc⟩ := le_iff.1 h'
  obtain rfl := Option.some.inj (hb.symm.trans hb')
  exact lt_iff.2 ⟨a, c, ha, hc, Int.lt_of_lt_of_le hab hbc⟩

theorem isNaN_eq_false_iff {x : Binary64} : x.isNaN = false ↔ ∃ a, x.rank? = some a := by
  cases x <;> simp [isNaN, rank?]

/-- Of two numbers that are not NaN one is less or the other is at most as great. -/
theorem le_of_not_lt {x y : Binary64} (hx : x.isNaN = false) (hy : y.isNaN = false)
    (h : ¬ x < y) : y ≤ x := by
  obtain ⟨a, ha⟩ := isNaN_eq_false_iff.1 hx
  obtain ⟨b, hb⟩ := isNaN_eq_false_iff.1 hy
  refine le_iff.2 ⟨b, a, hb, ha, Int.not_lt.1 fun hab => h ?_⟩
  exact lt_iff.2 ⟨a, b, ha, hb, hab⟩

theorem le_of_lt {x y : Binary64} (h : x < y) : x ≤ y := by
  obtain ⟨a, b, ha, hb, hab⟩ := lt_iff.1 h
  exact le_iff.2 ⟨a, b, ha, hb, Int.le_of_lt hab⟩

theorem isNaN_right_of_lt {x y : Binary64} (h : x < y) : y.isNaN = false := by
  obtain ⟨-, b, -, hb, -⟩ := lt_iff.1 h
  exact isNaN_eq_false_iff.2 ⟨b, hb⟩

end Binary64
end Abacus
