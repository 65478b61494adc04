/-
The tokens of a text.

A script holds the tokens of a text up to its end, or up to the first place
where the characters make no token, together with the fault found there. White
space means nothing anywhere, not even between the digits of a literal, so a
literal stays open until a symbol, a fault or the end of the text closes it.
-/
import Abacus.Text.Quoted
import Abacus.Token

namespace Abacus

inductive LexicalFault where
  /-- The character starts no token. -/
  | invalidCharacter (c : Char) (position : Nat)
  /-- The literal that begins at `start` has another point. -/
  | secondPoint (start : Nat)
deriving DecidableEq

def LexicalFault.message : LexicalFault → String
  | .invalidCharacter c position =>
    "Invalid character " ++ Text.quoted c.toString ++ " at position " ++ toString position
  | .secondPoint start =>
    "Malformed number at position " ++ toString start ++ ": more than one decimal point"

/-! ## Literals -/

/-- A literal as far as it is read: its digits, and how many of them stand after its point if it
has one. -/
structure Numeral where
  start : Nat
  digits : Nat
  places? : Option Nat
deriving DecidableEq

namespace Numeral

def decimal (numeral : Numeral) : Decimal := ⟨numeral.digits, -(numeral.places?.getD 0)⟩

def value (numeral : Numeral) : Binary64 := .ofDecimal false numeral.decimal

def push (numeral : Numeral) (digit : Nat) : Numeral :=
  ⟨numeral.start, numeral.digits * 10 + digit, numeral.places?.map (· + 1)⟩

/-- A digit goes on with the open literal, or begins one at its own position. -/
def grow (open? : Option Numeral) (position digit : Nat) : Numeral :=
  match open? with
  | some numeral => numeral.push digit
  | none => ⟨position, digit, none⟩

/-- The token of a literal that is complete. -/
def close (open? : Option Numeral) : List Token :=
  (open?.map fun numeral => Token.number numeral.value).toList

end Numeral

/-! ## Characters -/

/-- White space between and inside tokens. -/
def isSpace (c : Char) : Bool := c ∈ [' ', '\t', '\n', '\r', '\x0c']

def Token.ofSymbol? : Char → Option Token
  | '+' => some (.operator .add)
  | '-' => some (.operator .subtract)
  | '*' => some (.operator .multiply)
  | '/' => some (.operator .divide)
  | '^' => some (.operator .power)
  | '&' => some (.operator .and)
  | '|' => some (.operator .or)
  | '(' => some .leftParen
  | ')' => some .rightParen
  | _ => none

/-! ## Scripts -/

structure Script where
  tokens : List Token
  fault? : Option LexicalFault
deriving DecidableEq

namespace Script

/-- The script with further tokens in front. -/
def after (tokens : List Token) (script : Script) : Script :=
  ⟨tokens ++ script.tokens, script.fault?⟩

/-- Reads characters from `position` on, with the literal that is open there. -/
def scan (position : Nat) (open? : Option Numeral) : List Char → Script
  | [] => ⟨Numeral.close open?, none⟩
  | c :: rest =>
    if isSpace c then
      scan (position + 1) open? rest
    else if c.isDigit then
      scan (position + 1) (some (Numeral.grow open? position (Text.digitValue c))) rest
    else
      match Token.ofSymbol? c with
      | some token => (scan (position + 1) none rest).after (Numeral.close open? ++ [token])
      | none =>
        match open? with
        | some numeral =>
          if c = '.' then
            match numeral.places? with
            | some _ => ⟨[], some (.secondPoint numeral.start)⟩
            | none => scan (position + 1) (some { numeral with places? := some 0 }) rest
          else
            ⟨Numeral.close open?, some (.invalidCharacter c position)⟩
        | none => ⟨[], some (.invalidCharacter c position)⟩

def ofText (text : String) : Script := scan 0 none text.toList

/-- All that can be read one after the other: the end of the input is a token if no fault hides
it. -/
def stream (script : Script) : List Token :=
  script.tokens ++ if script.fault?.isNone then [.endOfInput] else []

end Script
end Abacus
