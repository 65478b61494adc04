/-
Forms: fields of loosely typed values, and the checks that turn them into
typed ones.

A field's reader either gives the value or the cause for which it refuses;
`Form.field` adds the name of the field, and `Checked.both` collects the
issues of two parts in their order, so that a check of a whole form lists one
issue for each field at fault.
-/
import Abacus.Binary64.Text

namespace Abacus

/-! ## Issues -/

/-- Why a field, or a form as a whole, is refused. -/
inductive Cause where
  | missing
  | notText
  | blankExpression
  | notInteger
  | fractionalInteger
  | infiniteInteger
  | unreadableInteger
  | longInteger
  | belowOne
  | notNumber
  | unreadableNumber
  | notPositive
  | notExactlyOne
  | frozen
deriving DecidableEq

def Cause.code : Cause → String
  | .missing => "missing"
  | .notText => "string_type"
  | .blankExpression => "value_error"
  | .notInteger => "int_type"
  | .fractionalInteger => "int_from_float"
  | .infiniteInteger => "finite_number"
  | .unreadableInteger => "int_parsing"
  | .longInteger => "int_parsing_size"
  | .belowOne => "greater_than_equal"
  | .notNumber => "float_type"
  | .unreadableNumber => "float_parsing"
  | .notPositive => "greater_than"
  | .notExactlyOne => "value_error"
  | .frozen => "frozen_instance"

def Cause.message : Cause → String
  | .missing => "Field required"
  | .notText => "Input should be a valid string"
  | .blankExpression => "Value error, Expression cannot be empty"
  | .notInteger => "Input should be a valid integer"
  | .fractionalInteger => "Input should be a valid integer, got a number with a fractional part"
  | .infiniteInteger => "Input should be a finite number"
  | .unreadableInteger => "Input should be a valid integer, unable to parse string as an integer"
  | .longInteger => "Unable to parse input string as an integer, exceeded maximum size"
  | .belowOne => "Input should be greater than or equal to 1"
  | .notNumber => "Input should be a valid number"
  | .unreadableNumber => "Input should be a valid number, unable to parse string as a number"
  | .notPositive => "Input should be greater than 0"
  | .notExactlyOne => "Value error, Exactly one of 'result' and 'error' must be set"
  | .frozen => "Instance is frozen"

/-- The cause for which a field is refused. An issue of the form as a whole names no field. -/
structure Issue where
  field : String
  cause : Cause
deriving DecidableEq

/-- What an attempt to change a field of a finished record meets. -/
def Issue.frozen (field : String) : Issue := ⟨field, .frozen⟩

/-! ## Raw values -/

inductive Raw where
  | null
  | boolean (value : Bool)
  | integer (value : Int)
  | real (value : Binary64)
  | text (value : String)
  /-- A list or a record. -/
  | compound
deriving DecidableEq

namespace Raw

def readText : Raw → Except Cause String
  | text value => .ok value
  | _ => .error .notText

/-! ### Integers in text

A text is cleaned step by step: the white space around it goes, then a plus sign, the leading zeros
behind the sign, the zero places behind a point, and single underscores. What is left has to be an
integer in its plain form, where a zero in front of the digits stands alone.
-/

/-- Leaves out leading zeros and the underscores among them, but keeps the last of these
characters where the text or its whole part ends with them. Only a digit may begin the text, though
a minus sign may follow the zeros. -/
def withoutLeadingZeros? (cs : List Char) : Option (List Char) :=
  let isLeading := fun c => c = '0' || c = '_'
  let rest := cs.dropWhile isLeading
  if !cs.head?.any Char.isDigit then
    none
  else if cs.head? ≠ some '0' then
    some cs
  else if rest.isEmpty || rest.head? = some '.' then
    some ((cs.takeWhile isLeading).getLast?.toList ++ rest)
  else
    some rest

/-- Leaves out a point and the zeros behind it, if there are no other places and one at least. -/
def withoutZeroPlaces (cs : List Char) : List Char :=
  let places := (cs.dropWhile fun c => c ≠ '.').tail
  if !places.isEmpty && places.all (fun c => c = '0') then cs.takeWhile fun c => c ≠ '.' else cs

/-- How many characters an integer may have, its minus sign counted. -/
def maxIntegerLength : Nat := 4300

/-- The integer of a sign and digits. The length is judged before what follows the digits. -/
def integerOfDigits (negative : Bool) (digits : List Char) : Except Cause Int :=
  let length := (digits.takeWhile Char.isDigit).length + (if negative then 1 else 0)
  if digits.head? = some '0' then
    if digits.tail.isEmpty then .ok 0 else .error .unreadableInteger
  else if maxIntegerLength < length then
    .error .longInteger
  else if digits.isEmpty || !digits.all Char.isDigit then
    .error .unreadableInteger
  else
    .ok (Binary64.signed negative (Nat.ofDigitChars 10 digits 0))

def integerOfPlain : List Char → Except Cause Int
  | '-' :: digits => integerOfDigits true digits
  | digits => integerOfDigits false digits

/-- The integer that a text denotes. -/
def integerOfText (text : String) : Except Cause Int :=
  let (negative, unsigned) := Binary64.readSign (Text.trim text.toList)
  match withoutLeadingZeros? unsigned with
  | none => .error .unreadableInteger
  | some rest =>
    let plain := withoutZeroPlaces (if negative then '-' :: rest else rest)
    integerOfPlain ((Text.dropUnderscores? plain).getD plain)

/-! ### Integers and numbers in raw values -/

/-- The integer that a number is, if it lies strictly between the bounds of a signed word. -/
def integerOfNumber (value : Binary64) : Except Cause Int :=
  match value.toInt? with
  | some whole => if -2 ^ 63 < whole ∧ whole < 2 ^ 63 then .ok whole else .error .longInteger
  | none => .error (if value.isFinite then .fractionalInteger else .infiniteInteger)

def readInteger : Raw → Except Cause Int
  | integer value => .ok value
  | boolean value => .ok (if value then 1 else 0)
  | real value => integerOfNumber value
  | text value => integerOfText value
  | _ => .error .notInteger

/-- The number that a text denotes. There may be white space around it, or single underscores
anywhere inside it, but not both. -/
def numberOfText? (text : String) : Option Binary64 :=
  Binary64.read? (Text.trim text.toList) <|>
    (Text.dropUnderscores? text.toList).bind Binary64.read?

/-- An integer beyond the range of numbers is none. -/
def readNumber : Raw → Except Cause Binary64
  | real value => .ok value
  | boolean value => .ok (.ofInt (if value then 1 else 0))
  | integer value =>
    if (Binary64.ofInt value).isFinite then .ok (.ofInt value) else .error .notNumber
  | text value =>
    match numberOfText? value with
    | some number => .ok number
    | none => .error .unreadableNumber
  | _ => .error .notNumber

/-- A value that may be left open by `null`. -/
def readOptional {α : Type} (read : Raw → Except Cause α) : Raw → Except Cause (Option α)
  | null => .ok none
  | raw => (read raw).map some

end Raw

/-! ## Checks of forms -/

abbrev Form := List (String × Raw)

/-- A value, or every issue that stands against it. -/
abbrev Checked (α : Type) := Except (List Issue) α

/-- Both values, or the issues of the first and then those of the second. -/
def Checked.both {α β : Type} : Checked α → Checked β → Checked (α × β)
  | .ok a, .ok b => .ok (a, b)
  | .ok _, .error issues => .error issues
  | .error issues, .ok _ => .error issues
  | .error first, .error second => .error (first ++ second)

/-- Reads a field; an absent one has its default, or is missing if it has none. -/
def Form.field {α : Type} (form : Form) (name : String) (default? : Option α)
    (read : Raw → Except Cause α) : Checked α :=
  match form.lookup name, default? with
  | some raw, _ => (read raw).mapError fun cause => [⟨name, cause⟩]
  | none, some value => .ok value
  | none, none => .error [⟨name, .missing⟩]

end Abacus
