import DiffGraph.Decimal.Reading
import DiffGraph.Error
import DiffGraph.Numeral
import DiffGraph.Text.Letters

/-!
# Tokens of formulas

A formula is cut into numbers, names and one-character signs; white space only
separates. A number is the longest run of digits, points and `e` and has to be a
decimal literal; a name starts with a letter or an underscore and goes on with
letters, digits and underscores.
-/

namespace DiffGraph.Formula

inductive Token (α : Type) where
  | number (x : α)
  | name (n : String)
  | plus | minus | star | slash | caret | lparen | rparen | lbracket | rbracket

namespace Token

variable {α : Type} [Numeral α]

def text : Token α → String
  | number x => "Number(" ++ Numeral.marked x ++ ")"
  | name n => "Identifier(" ++ Text.quoted n ++ ")"
  | plus => "Plus"
  | minus => "Minus"
  | star => "Star"
  | slash => "Slash"
  | caret => "Caret"
  | lparen => "LParen"
  | rparen => "RParen"
  | lbracket => "LBracket"
  | rbracket => "RBracket"

/-- A token that may be missing. -/
def optionText : Option (Token α) → String
  | some t => "Some(" ++ t.text ++ ")"
  | none => "None"

end Token

inductive Error (α : Type) where
  | badNumber (literal : String)
  | badCharacter (c : Char)
  | trailing (token : Token α)
  | expected (token : Token α) (found : Option (Token α))
  | badExponent (found : Option (Token α))
  | badIndex (found : Option (Token α))
  | unexpected (found : Option (Token α))
  | unknownFunction (name : String)
  | unknownVariable (name : String)
  | indexOutOfRange (index : Nat) (name : String) (shape : Nat × Nat)
  | graph (e : GraphError)

namespace Error

variable {α : Type} [Numeral α]

def message (input : String) : Error α → String
  | badNumber literal => s!"Invalid number literal \"{literal}\""
  | badCharacter c => s!"Unexpected character '{c}' in \"{input}\""
  | trailing token => "Unexpected trailing token " ++ token.text ++ s!" in \"{input}\""
  | expected token found =>
    "Expected " ++ token.text ++ ", found " ++ Token.optionText found
  | badExponent found =>
    "Exponent must be a non-negative integer, found " ++ Token.optionText found
  | badIndex found => "Index must be a non-negative integer, found " ++ Token.optionText found
  | unexpected found => "Unexpected token " ++ Token.optionText found
  | unknownFunction name => s!"Unknown function: {name}"
  | unknownVariable name => s!"Unknown variable: {name}"
  | indexOutOfRange index name shape =>
    s!"Index {index} out of range for {name} of shape " ++ shapeText shape
  | graph e => e.message

end Error

def isNumberChar (c : Char) : Bool :=
  c.isDigit || c == '.' || c == 'e'

def startsNumber (c : Char) : Bool :=
  c.isDigit || c == '.'

def startsName (c : Char) : Bool :=
  Text.isLetter c || c == '_'

def isNameChar (c : Char) : Bool :=
  Text.isLetter c || Text.isNumeric c || c == '_'

/-- The token of a one-character sign. -/
def sign? {α : Type} : Char → Option (Token α)
  | '+' => some .plus
  | '-' => some .minus
  | '*' => some .star
  | '/' => some .slash
  | '^' => some .caret
  | '(' => some .lparen
  | ')' => some .rparen
  | '[' => some .lbracket
  | ']' => some .rbracket
  | _ => none

variable {α : Type} [OrderedScalar α]

def readNumber (literal : List Char) : Except (Error α) (Token α) :=
  match Decimal.read? literal with
  | some d => .ok (.number (OrderedScalar.ofDecimal d.digits d.exponent))
  | none => .error (.badNumber (String.ofList literal))

def tokens (cs : List Char) : Except (Error α) (List (Token α)) :=
  match cs with
  | [] => .ok []
  | c :: rest =>
    have shorter (p : Char → Bool) : (rest.dropWhile p).length ≤ rest.length :=
      (List.dropWhile_sublist p).length_le
    if Text.isBlank c then tokens rest
    else if startsNumber c then do
      let t ← readNumber (c :: rest.takeWhile isNumberChar)
      have := shorter isNumberChar
      return t :: (← tokens (rest.dropWhile isNumberChar))
    else if startsName c then do
      let t := Token.name (String.ofList (c :: rest.takeWhile isNameChar))
      have := shorter isNameChar
      return t :: (← tokens (rest.dropWhile isNameChar))
    else match sign? c with
      | some t => do return t :: (← tokens rest)
      | none => .error (.badCharacter c)
  termination_by cs.length

end DiffGraph.Formula
