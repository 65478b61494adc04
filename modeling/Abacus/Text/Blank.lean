/-
Blank characters: the white space of Unicode, and the four information
separators.
-/
namespace Abacus
namespace Text

/-- The property White_Space of Unicode. -/
def isWhiteSpace (c : Char) : Bool :=
  c.val ∈ [0x20, 0x85, 0xA0, 0x1680, 0x2028, 0x2029, 0x202F, 0x205F, 0x3000] ||
    (0x09 ≤ c.val && c.val ≤ 0x0D) ||
    (0x2000 ≤ c.val && c.val ≤ 0x200A)

def isSeparator (c : Char) : Bool := 0x1C ≤ c.val && c.val ≤ 0x1F

def isBlank (c : Char) : Bool := isWhiteSpace c || isSeparator c

/-- No character but blanks. -/
def Blank (text : String) : Prop := ∀ c ∈ text.toList, isBlank c = true

instance (text : String) : Decidable (Blank text) := List.decidableBAll _ text.toList

/-- The text without the white space at its ends. Separators stay. -/
def trim (cs : List Char) : List Char :=
  ((cs.dropWhile isWhiteSpace).reverse.dropWhile isWhiteSpace).reverse

end Text
end Abacus
