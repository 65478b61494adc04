/-
Decimals and binary64 numbers.

`Binary64.ofDecimal` is the number nearest to a decimal. `Magnitude.shortest`
goes the other way and looks for the fewest digits that `ofDecimal` reads
back: on the grid of one digit, of two, and so on to seventeen, it tries the
two neighbours of the value, the nearer first. Each answer is tested by
reading it back, and the exact expansion is there if no grid serves, so that
the text of a number always determines the number.
-/
import Abacus.Binary64.Basic

namespace Abacus

/-- The value `digits * 10 ^ exponent`. -/
structure Decimal where
  digits : Nat
  exponent : Int
deriving DecidableEq

namespace Binary64

def ofDecimal (negative : Bool) (d : Decimal) : Binary64 :=
  nearest negative (d.digits * 10 ^ d.exponent.toNat * unitsPerOne) (10 ^ (-d.exponent).toNat)

end Binary64

namespace Decimal

/-- Removes up to `count` zeros from the end of the digits. -/
def trim : Nat → Decimal → Decimal
  | 0, d => d
  | count + 1, d => if d.digits % 10 = 0 then trim count ⟨d.digits / 10, d.exponent + 1⟩ else d

/-- The same value or one that reads as the same number, with an exponent of moderate size. Beyond
the bounds every decimal but zero is too large for the format, or too small to differ from
zero. -/
def moderate (d : Decimal) : Decimal :=
  ⟨d.digits, max (-(d.digits.log2 + 400)) (min d.exponent 400)⟩

end Decimal

namespace Magnitude

/-- The value lies below `10 ^ m.place` and, unless it is zero, not below a tenth of that. -/
def place (m : Magnitude) : Int :=
  (Nat.toDigits 10 (m.units * 10 ^ 400 / unitsPerOne)).length - 400

/-- The two neighbours on the grid of the multiples of `10 ^ exponent`, the nearer first. -/
def neighbours (m : Magnitude) (exponent : Int) : List Decimal :=
  let num := m.units * 10 ^ (-exponent).toNat
  let den := unitsPerOne * 10 ^ exponent.toNat
  let near := roundHalfEven num den
  let far := if near = num / den then near + 1 else num / den
  [⟨near, exponent⟩, ⟨far, exponent⟩]

def readsAs (m : Magnitude) (d : Decimal) : Bool :=
  Binary64.ofDecimal false d = .finite false m

/-- All digits of the value. -/
def expansion (m : Magnitude) : Decimal := ⟨m.units * 5 ^ 1074, -1074⟩

/-- The decimal of fewest digits that reads back as `m`, and among these the nearest to it. -/
def shortest (m : Magnitude) : Decimal :=
  if m.units = 0 then
    ⟨0, 0⟩
  else
    let place := m.place
    let found := (List.range 17).findSome? fun (count : Nat) =>
      (m.neighbours (place - (count + 1))).find? m.readsAs
    let d := found.getD m.expansion
    d.trim (Nat.toDigits 10 d.digits).length

end Magnitude
end Abacus
