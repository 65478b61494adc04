/-
The tolerance of an evaluation: how close to zero a divisor counts as zero,
and how much of a fraction the exponent of a negative base may have.
-/
import Abacus.Form

namespace Abacus

structure Tolerance where
  value : Binary64
  positive : .zero false < value

namespace Tolerance

/-- The distance from one to the next greater number, `2 ^ -52`. -/
def standard : Tolerance := ⟨.nearest false (2 ^ 1022) 1, by decide +kernel⟩

instance : Inhabited Tolerance := ⟨standard⟩

def read (raw : Raw) : Except Cause Tolerance := do
  let value ← raw.readNumber
  if positive : .zero false < value then return ⟨value, positive⟩ else throw .notPositive

/-- The tolerance that the field `epsilon` asks for. -/
def ofForm (form : Form) : Checked Tolerance := form.field "epsilon" (some standard) read

end Tolerance
end Abacus
