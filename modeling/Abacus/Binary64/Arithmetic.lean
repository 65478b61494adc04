/-
Arithmetic of binary64 numbers: the exact result rounded once, and the
format's rules for zeros, infinities and NaN. The bitwise operations work on
the 64-bit two's complement words of whole numbers.
-/
import Abacus.Binary64.Basic

namespace Abacus
namespace Binary64

/-! ## The four operations -/

/-- A sum that is exactly zero is negative only if both terms are. -/
def add : Binary64 → Binary64 → Binary64
  | .nan, _ => .nan
  | _, .nan => .nan
  | .infinite s, .infinite t => if s = t then .infinite s else .nan
  | .infinite s, .finite .. => .infinite s
  | .finite .., .infinite t => .infinite t
  | .finite s x, .finite t y =>
    let sum := signed s x.units + signed t y.units
    nearest (if sum = 0 then s && t else sum < 0) sum.natAbs 1

def sub (x y : Binary64) : Binary64 := x.add y.neg

def mul : Binary64 → Binary64 → Binary64
  | .nan, _ => .nan
  | _, .nan => .nan
  | .infinite s, .infinite t => .infinite (s != t)
  | .infinite s, .finite t y => if y.units = 0 then .nan else .infinite (s != t)
  | .finite s x, .infinite t => if x.units = 0 then .nan else .infinite (s != t)
  | .finite s x, .finite t y => nearest (s != t) (x.units * y.units) unitsPerOne

/-- A number other than zero divided by zero is infinite, and zero by zero is NaN. -/
def div : Binary64 → Binary64 → Binary64
  | .nan, _ => .nan
  | _, .nan => .nan
  | .infinite _, .infinite _ => .nan
  | .infinite s, .finite t _ => .infinite (s != t)
  | .finite s _, .infinite t => zero (s != t)
  | .finite s x, .finite t y =>
    if y.units = 0 then
      if x.units = 0 then .nan else .infinite (s != t)
    else
      nearest (s != t) (x.units * unitsPerOne) y.units

instance : Add Binary64 := ⟨add⟩
instance : Sub Binary64 := ⟨sub⟩
instance : Mul Binary64 := ⟨mul⟩
instance : Div Binary64 := ⟨div⟩
instance : Neg Binary64 := ⟨neg⟩

/-! ## Words -/

/-- The largest signed 64-bit word. -/
def maxWord : Int := 2 ^ 63 - 1

/-- The 64-bit word of a whole number between `-2 ^ 63` and `2 ^ 63`. The upper end is no word of
its own: it stands for the largest word, which the format rounds up to it. -/
def toWord? (x : Binary64) : Option (BitVec 64) :=
  match x.toInt? with
  | some value =>
    if -2 ^ 63 ≤ value ∧ value ≤ 2 ^ 63 then
      some (BitVec.ofInt 64 (min value maxWord))
    else
      none
  | none => none

/-- The number nearest to a signed word. -/
def ofWord (word : BitVec 64) : Binary64 := ofInt word.toInt

end Binary64
end Abacus
