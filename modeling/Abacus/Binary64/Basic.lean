/-
The numbers of the IEEE 754 binary64 format.

A finite number is a sign and a magnitude; a magnitude is a count of units of
`2 ^ -1074`, the smallest positive number of the format, together with the
proof that the format can hold it. There is one NaN: its payload and sign
cannot be observed. `Binary64.nearest` is the only way from an exact value to
a number of the format, so each operation of `Abacus.Binary64.Arithmetic` is
its exact result, rounded once.

Comparisons go through `Binary64.rank?`, the place of a number on the line:
both zeros have rank 0, an infinity lies beyond every finite number, and NaN
has no place.
-/
import Abacus.Binary64.Rounding

namespace Abacus

/-- How many units of `2 ^ -1074` make one. -/
def unitsPerOne : Nat := 2 ^ 1074

/-- The least count of units that is too large for the format: `2 ^ 1024` as a value. -/
def unitsLimit : Nat := 2 ^ 2098

theorem unitsPerOne_pos : 0 < unitsPerOne := by rw [unitsPerOne]; apply Nat.two_pow_pos

theorem unitsLimit_pos : 0 < unitsLimit := by rw [unitsLimit]; apply Nat.two_pow_pos

/-- The absolute value of a finite number. -/
structure Magnitude where
  units : Nat
  lt_limit : units < unitsLimit
  representable : Representable units
deriving DecidableEq

inductive Binary64 where
  | nan
  | infinite (negative : Bool)
  | finite (negative : Bool) (magnitude : Magnitude)
deriving DecidableEq

namespace Binary64

/-! ## Numbers from exact values -/

/-- The number nearest to `num / den` units with the given sign. -/
def nearest (negative : Bool) (num den : Nat) : Binary64 :=
  if h : roundUnits num den < unitsLimit then
    .finite negative ⟨roundUnits num den, h, representable_roundUnits num den⟩
  else
    .infinite negative

/-- A magnitude of the format is its own rounding. -/
theorem nearest_units (negative : Bool) (magnitude : Magnitude) :
    nearest negative magnitude.units 1 = .finite negative magnitude := by
  simp only [nearest, roundUnits_of_representable magnitude.representable, magnitude.lt_limit,
    dite_true]

def zero (negative : Bool) : Binary64 :=
  .finite negative ⟨0, unitsLimit_pos, representable_zero⟩

def ofInt (value : Int) : Binary64 :=
  nearest (value < 0) (value.natAbs * unitsPerOne) 1

def one : Binary64 := ofInt 1

instance : Inhabited Binary64 := ⟨zero false⟩

/-! ## Sign and class -/

def neg : Binary64 → Binary64
  | .nan => .nan
  | .infinite negative => .infinite !negative
  | .finite negative magnitude => .finite (!negative) magnitude

def abs : Binary64 → Binary64
  | .nan => .nan
  | .infinite _ => .infinite false
  | .finite _ magnitude => .finite false magnitude

def isFinite : Binary64 → Bool
  | .finite .. => true
  | _ => false

def isNaN : Binary64 → Bool
  | .nan => true
  | _ => false

def isInfinite : Binary64 → Bool
  | .infinite _ => true
  | _ => false

/-- The sign bit; set for `-0`, and never for NaN. -/
def isNegative : Binary64 → Bool
  | .nan => false
  | .infinite negative => negative
  | .finite negative _ => negative

def isZero : Binary64 → Bool
  | .finite _ magnitude => magnitude.units == 0
  | _ => false

@[simp] theorem neg_neg (x : Binary64) : x.neg.neg = x := by
  cases x <;> simp [neg]

@[simp] theorem isFinite_neg (x : Binary64) : x.neg.isFinite = x.isFinite := by
  cases x <;> rfl

/-! ## Order -/

/-- A count with a sign. -/
def signed (negative : Bool) (count : Nat) : Int :=
  if negative then -count else count

theorem natAbs_signed (negative : Bool) (count : Nat) : (signed negative count).natAbs = count := by
  cases negative <;> simp [signed]

theorem signed_not (negative : Bool) (count : Nat) :
    signed (!negative) count = -signed negative count := by
  cases negative <;> simp [signed]

theorem signed_natAbs (value : Int) : signed (value < 0) value.natAbs = value := by
  unfold signed
  simp only [decide_eq_true_eq]
  split <;> omega

/-- The place of a number on the line, in units; an infinity stands just beyond the finite
numbers. -/
def rank? : Binary64 → Option Int
  | .nan => none
  | .infinite negative => some (signed negative unitsLimit)
  | .finite negative magnitude => some (signed negative magnitude.units)

/-- False when either number is NaN. -/
def lt (x y : Binary64) : Bool :=
  match x.rank?, y.rank? with
  | some a, some b => a < b
  | _, _ => false

/-- False when either number is NaN. -/
def le (x y : Binary64) : Bool :=
  match x.rank?, y.rank? with
  | some a, some b => a ≤ b
  | _, _ => false

/-- Equality of values: the two zeros are equal, and NaN differs from everything. -/
def equal (x y : Binary64) : Bool :=
  match x.rank?, y.rank? with
  | some a, some b => a == b
  | _, _ => false

instance : LT Binary64 := ⟨fun x y => x.lt y = true⟩
instance : LE Binary64 := ⟨fun x y => x.le y = true⟩

instance (x y : Binary64) : Decidable (x < y) := inferInstanceAs (Decidable (x.lt y = true))
instance (x y : Binary64) : Decidable (x ≤ y) := inferInstanceAs (Decidable (x.le y = true))

/-! ## Whole numbers and fractions -/

/-- The value of a finite number without a fractional part. -/
def toInt? : Binary64 → Option Int
  | .finite negative magnitude =>
    if magnitude.units % unitsPerOne = 0 then
      some (signed negative (magnitude.units / unitsPerOne))
    else
      none
  | _ => none

/-- Whether the number is finite, whole and odd. -/
def isOdd (x : Binary64) : Bool :=
  match x.toInt? with
  | some value => value % 2 == 1
  | none => false

theorem representable_mod {n : Nat} (h : Representable n) (k : Nat) :
    Representable (n % 2 ^ k) := by
  obtain ⟨m, e, hm, rfl⟩ := h
  by_cases hk : k ≤ e
  · have divides : 2 ^ k ∣ m * 2 ^ e := Nat.dvd_mul_left_of_dvd (Nat.pow_dvd_pow 2 hk) m
    exact ⟨0, 0, Nat.zero_le _, by rw [Nat.mod_eq_zero_of_dvd divides, Nat.zero_mul]⟩
  · obtain ⟨d, rfl⟩ := Nat.exists_eq_add_of_le (Nat.le_of_not_le hk)
    refine ⟨m % 2 ^ d, e, Nat.le_trans (Nat.mod_le _ _) hm, ?_⟩
    rw [Nat.pow_add, Nat.mul_comm m, Nat.mul_mod_mul_left, Nat.mul_comm]

theorem representable_mod_unitsPerOne {n : Nat} (h : Representable n) :
    Representable (n % unitsPerOne) := by
  rw [unitsPerOne]; apply representable_mod h

/-- The part of the number after its binary point, with its sign; nothing is left of an
infinity. -/
def fraction : Binary64 → Binary64
  | .nan => .nan
  | .infinite negative => zero negative
  | .finite negative magnitude =>
    .finite negative
      ⟨magnitude.units % unitsPerOne, Nat.lt_of_le_of_lt (Nat.mod_le _ _) magnitude.lt_limit,
        representable_mod_unitsPerOne magnitude.representable⟩

end Binary64
end Abacus
