/-
Quoted text.

A text is quoted with apostrophes, or with double quotes if it holds an
apostrophe and no double quote. The backslash, the quote in use and every
character that is not printable are escaped, so that a quoted text is one
visible line.
-/
import Abacus.Text.Printable

namespace Abacus
namespace Text

/-- The hexadecimal digits of `n` in lower case, at least `width` of them. -/
def hex (width n : Nat) : List Char :=
  let digits := Nat.toDigits 16 n
  List.replicate (width - digits.length) '0' ++ digits

/-- A character as it stands between two of the given quotes. -/
def escape (quote c : Char) : List Char :=
  if c = quote || c = '\\' then ['\\', c]
  else if c = '\n' then ['\\', 'n']
  else if c = '\r' then ['\\', 'r']
  else if c = '\t' then ['\\', 't']
  else if isPrintable c then [c]
  else if c.toNat < 0x100 then '\\' :: 'x' :: hex 2 c.toNat
  else if c.toNat < 0x10000 then '\\' :: 'u' :: hex 4 c.toNat
  else '\\' :: 'U' :: hex 8 c.toNat

def quoteFor (cs : List Char) : Char :=
  if '\'' ∈ cs && '"' ∉ cs then '"' else '\''

def quotedChars (cs : List Char) : List Char :=
  let quote := quoteFor cs
  quote :: cs.flatMap (escape quote) ++ [quote]

def quoted (text : String) : String := String.ofList (quotedChars text.toList)

end Text
end Abacus
