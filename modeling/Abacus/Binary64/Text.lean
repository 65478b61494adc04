/-
The written form of binary64 numbers.

A number is written with the fewest digits that read back as it: positionally
from `0.0001` up to below `10 ^ 16`, always with a digit after the point, and
otherwise with an exponent of two digits or more.

Reading accepts more than writing produces. `read?` takes a leading `+`, `.5`
and `5.`, an exponent anywhere, and the names of infinity and NaN in either
case. `ofText?` takes in addition white space around the number, digits of any
script and single underscores between digits.
-/
import Abacus.Binary64.Decimal
import Abacus.Text.Blank
import Abacus.Text.Digit

namespace Abacus

/-! ## Writing -/

namespace Decimal

/-- An exponent has a sign and two digits at least. -/
def exponentText (exponent : Int) : List Char :=
  let digits := Nat.toDigits 10 exponent.natAbs
  'e' :: (if exponent < 0 then '-' else '+') :: (List.replicate (2 - digits.length) '0' ++ digits)

/-- Digits around a point that stands `point` places after the first digit's left edge. -/
def positional (digits : List Char) (point : Int) : List Char :=
  let whole := digits.take point.toNat ++ List.replicate (point - digits.length).toNat '0'
  let fraction := List.replicate (-point).toNat '0' ++ digits.drop point.toNat
  (if whole.isEmpty then ['0'] else whole) ++ '.' :: (if fraction.isEmpty then ['0'] else fraction)

/-- One digit before the point; no point after a single digit. -/
def scientific (digits : List Char) (point : Int) : List Char :=
  let significand :=
    match digits with
    | first :: second :: rest => first :: '.' :: second :: rest
    | single => single
  significand ++ exponentText (point - 1)

def text (d : Decimal) : List Char :=
  let digits := Nat.toDigits 10 d.digits
  let point := digits.length + d.exponent
  if -4 < point ∧ point ≤ 16 then positional digits point else scientific digits point

end Decimal

namespace Binary64

def text : Binary64 → String
  | .nan => "nan"
  | .infinite negative => if negative then "-inf" else "inf"
  | .finite negative magnitude =>
    String.ofList ((if negative then ['-'] else []) ++ magnitude.shortest.text)

/-! ## Reading -/

/-- Takes a sign off the front; true for a minus. -/
def readSign : List Char → Bool × List Char
  | '-' :: rest => (true, rest)
  | '+' :: rest => (false, rest)
  | cs => (false, cs)

/-- Reads what may follow the significand. -/
def readExponent? : List Char → Option Int
  | [] => some 0
  | c :: rest =>
    let (negative, digits) := readSign rest
    if (c = 'e' || c = 'E') && !digits.isEmpty && digits.all Char.isDigit then
      some (signed negative (Nat.ofDigitChars 10 digits 0))
    else
      none

/-- Takes digits off the front. -/
def readDigits (cs : List Char) : List Char × List Char :=
  (cs.takeWhile Char.isDigit, cs.dropWhile Char.isDigit)

def readDecimal? (cs : List Char) : Option Decimal :=
  let (whole, rest) := readDigits cs
  let (places, rest) :=
    match rest with
    | '.' :: rest => readDigits rest
    | rest => ([], rest)
  if whole.isEmpty && places.isEmpty then
    none
  else
    (readExponent? rest).map fun exponent =>
      ⟨Nat.ofDigitChars 10 (whole ++ places) 0, exponent - places.length⟩

/-- The number that characters denote with nothing around or between them that is not part of it. -/
def read? (cs : List Char) : Option Binary64 :=
  let (negative, unsigned) := readSign cs
  let name := String.ofList (unsigned.map Char.toLower)
  if name = "inf" || name = "infinity" then
    some (.infinite negative)
  else if name = "nan" then
    some .nan
  else
    (readDecimal? unsigned).map fun d => ofDecimal negative d.moderate

/-- The number that a text denotes, if it denotes one. -/
def ofText? (text : String) : Option Binary64 :=
  read? (Text.joinDigits false ((Text.trim text.toList).map Text.plainDigit))

end Binary64
end Abacus
