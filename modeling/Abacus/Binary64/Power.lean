/-
Exponentiation.

Zeros, infinities, NaN and the signs of negative bases are decided here by the
rules of IEEE 754. What is left, a positive finite base and a finite exponent,
goes to the platform's power function through the 64-bit encoding of the
format, so no law of that function is needed to know which powers exist and
which sign they have.
-/
import Abacus.Binary64.Basic

namespace Abacus
namespace Binary64

/-! ## The 64-bit encoding -/

/-- Exponent and significand fields of a finite magnitude. Neighbouring magnitudes have
neighbouring codes, because the leading bit of a normal significand is carried into the exponent
field. -/
def encodeUnits (units : Nat) : Nat :=
  let exponent := units.log2 - 52
  exponent * 2 ^ 52 + units / 2 ^ exponent

/-- The magnitude with the given exponent and significand fields. -/
def decodeUnits (exponent significand : Nat) : Nat :=
  if exponent = 0 then significand else (2 ^ 52 + significand) * 2 ^ (exponent - 1)

def toBits : Binary64 → UInt64
  | .nan => 0x7FF8000000000000
  | .infinite negative => if negative then 0xFFF0000000000000 else 0x7FF0000000000000
  | .finite negative magnitude =>
    (if negative then 0x8000000000000000 else 0) + (encodeUnits magnitude.units).toUInt64

def ofBits (bits : UInt64) : Binary64 :=
  let negative := decide (2 ^ 63 ≤ bits.toNat)
  let exponent := bits.toNat / 2 ^ 52 % 2 ^ 11
  let significand := bits.toNat % 2 ^ 52
  if exponent = 2 ^ 11 - 1 then
    if significand = 0 then .infinite negative else .nan
  else
    nearest negative (decodeUnits exponent significand) 1

/-! ## Powers -/

/-- The power of a positive finite base to a finite exponent, as the platform computes it. -/
def platformPower (base exponent : Binary64) : Binary64 :=
  ofBits (Float.pow (Float.ofBits base.toBits) (Float.ofBits exponent.toBits)).toBits

def pow (base exponent : Binary64) : Binary64 :=
  let negative := base.isNegative && exponent.isOdd
  if exponent.isZero || base.equal one then
    one
  else if base.isNaN || exponent.isNaN then
    .nan
  else if exponent.isInfinite && base.abs.equal one then
    one
  else if exponent.isInfinite || base.isInfinite || base.isZero then
    if one.lt base.abs == (zero false).lt exponent then .infinite negative else zero negative
  else if base.isNegative && exponent.toInt?.isNone then
    .nan
  else
    let power := platformPower base.abs exponent
    if negative then power.neg else power

end Binary64
end Abacus
