/-
Tokens: what an expression is made of once its characters are read.

A `Label` is a kind with or without a value, whether or not the two belong
together. Every token has one, and its text is what messages call the token.
-/
import Abacus.Binary64.Text
import Abacus.Operator

namespace Abacus

inductive Kind where
  | number
  | operator (op : Operator)
  | leftParen
  | rightParen
  | endOfInput
deriving DecidableEq

namespace Kind

def all : List Kind :=
  [.number, .operator .add, .operator .subtract, .operator .multiply, .operator .divide,
    .operator .power, .operator .and, .operator .or, .leftParen, .rightParen, .endOfInput]

def name : Kind → String
  | number => "NUMBER"
  | operator op => op.name
  | leftParen => "LEFT_PAREN"
  | rightParen => "RIGHT_PAREN"
  | endOfInput => "EOF"

/-- The character of a symbol, and a description of the kinds that have no character of their
own. -/
def spelling : Kind → String
  | number => "number"
  | operator op => op.symbol.toString
  | leftParen => "("
  | rightParen => ")"
  | endOfInput => "end of input"

def precedence : Kind → Precedence
  | operator op => op.precedence
  | _ => .none

def ofName? (name : String) : Option Kind := all.find? (·.name = name)

end Kind

structure Label where
  kind : Kind
  value? : Option Binary64
deriving DecidableEq

def Label.text (label : Label) : String :=
  match label.kind, label.value? with
  | .number, some value => "number " ++ value.text
  | .number, none => "number None"
  | kind, _ => kind.name

inductive Token where
  | number (value : Binary64)
  | operator (op : Operator)
  | leftParen
  | rightParen
  | endOfInput
deriving DecidableEq

namespace Token

def label : Token → Label
  | number value => ⟨.number, some value⟩
  | operator op => ⟨.operator op, none⟩
  | leftParen => ⟨.leftParen, none⟩
  | rightParen => ⟨.rightParen, none⟩
  | endOfInput => ⟨.endOfInput, none⟩

def kind (token : Token) : Kind := token.label.kind

def isNumber (token : Token) : Bool := token.kind = .number

def text (token : Token) : String := token.label.text

/-- The tokens before a place and those after it do not bring two numbers together. -/
def Apart (before after : List Token) : Prop :=
  ¬ (before.getLast?.any isNumber ∧ after.head?.any isNumber)

end Token
end Abacus
