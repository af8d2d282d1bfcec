import Parkour.Language.Fault
import Parkour.Number.Numeral
/-!
# Tokens of expressions

An expression is cut into numerals, names, operators and parentheses, each as long
as it can be. Blanks between them are kept beside the token that they precede, so
that no character is lost.
-/

namespace Parkour.Language.Expression

open Number (Numeral)

/-- A token. -/
inductive Token where
  | number (value : Float)
  | name (name : String)
  | plus
  | minus
  | star
  | slash
  | power
  | opening
  | closing

namespace Token

/-- An operand may end here. -/
def endsOperand : Token → Bool
  | number _ | name _ | closing => true
  | _ => false

/-- An operand may start here. -/
def startsOperand : Token → Bool
  | number _ | name _ | opening => true
  | _ => false

/-- The text of a token in a message. -/
def text : Token → String
  | number value => Number.text value
  | name held => held
  | plus => "+"
  | minus => "-"
  | star => "*"
  | slash => "/"
  | power => "**"
  | opening => "("
  | closing => ")"

end Token

/-- A token with its characters and the blanks before it. -/
structure Lexeme where
  /-- The blanks before the token. -/
  blanks : List Char
  /-- The characters of the token. -/
  chars : List Char
  /-- The token. -/
  token : Token

/-- The length of a sign and whether it is a minus. -/
def signOf : List Char → Nat × Bool
  | '+' :: _ => (1, false)
  | '-' :: _ => (1, true)
  | _ => (0, false)

/-- The length and the value of a power of ten at the start of a text. The letter
belongs to the numeral only if a digit follows, after a sign or at once. -/
def powerOfTen : List Char → Nat × Int
  | [] => (0, 0)
  | c :: cs =>
      if c = 'e' ∨ c = 'E' then
        let (length, negative) := signOf cs
        let ds := (cs.drop length).takeWhile Text.isDigit
        let power : Int := Number.readDigits 0 ds
        if ds.isEmpty then (0, 0)
        else (1 + length + ds.length, if negative then -power else power)
      else (0, 0)

/-- The digits behind a point at the start of a text, and the length with it. -/
def fractionOf : List Char → Nat × List Char
  | [] => (0, [])
  | c :: cs =>
      if c = '.' then
        let ds := cs.takeWhile Text.isDigit
        (1 + ds.length, ds)
      else (0, [])

/-- The longest numeral at the start of a text, with its length. It may turn out
to have no digit at all. -/
def numeralOf (cs : List Char) : Nat × Numeral :=
  let whole := cs.takeWhile Text.isDigit
  let rest := cs.drop whole.length
  let (pointed, fraction) := fractionOf rest
  let (length, power) := powerOfTen (rest.drop pointed)
  (whole.length + pointed + length, ⟨whole, fraction, power⟩)

/-- A character that may stand in an expression. -/
def isExpressionChar (c : Char) : Bool :=
  Text.isAlphanumeric c || Text.isBlank c || c == '_' || c == '.' || c == '+' || c == '-' ||
    c == '*' || c == '/' || c == '(' || c == ')'

/-- The token that starts with `c`, and how many of the characters after `c`
belong to it. -/
def scan (c : Char) (cs : List Char) : Except ExpressionFault (Nat × Token) :=
  if Text.isDigit c ∨ c = '.' then
    let (length, numeral) := numeralOf (c :: cs)
    if numeral.whole.isEmpty && numeral.fraction.isEmpty then
      .error (.numeral (String.ofList ((c :: cs).take length)))
    else .ok (length - 1, .number numeral.value)
  else if Text.isNameStart c then
    let more := cs.takeWhile Text.isNamePart
    .ok (more.length, .name (String.ofList (c :: more)))
  else if c = '+' then .ok (0, .plus)
  else if c = '-' then .ok (0, .minus)
  else if c = '/' then .ok (0, .slash)
  else if c = '(' then .ok (0, .opening)
  else if c = ')' then .ok (0, .closing)
  else if c = '*' then
    if cs.head? = some '*' then .ok (1, .power) else .ok (0, .star)
  else .error (.unexpected (String.ofList (c :: cs.takeWhile fun d => !isExpressionChar d)))

/-- The lexemes of a text, where `blanks` have been read before it. -/
def lexemesAfter (blanks : List Char) : List Char → Except ExpressionFault (List Lexeme)
  | [] => .ok []
  | c :: cs =>
      if Text.isBlank c then lexemesAfter (blanks ++ [c]) cs
      else do
        let (more, token) ← scan c cs
        let rest ← lexemesAfter [] (cs.drop more)
        return ⟨blanks, c :: cs.take more, token⟩ :: rest
termination_by cs => cs.length
decreasing_by
  · simp
  · simp only [List.length_drop, List.length_cons]; omega

/-- The lexemes of a text. -/
def lexemes (text : String) : Except ExpressionFault (List Lexeme) :=
  lexemesAfter [] text.toList

/-- The tokens of a text. -/
def tokens (text : String) : Except ExpressionFault (List Token) :=
  (lexemes text).map fun found => found.map Lexeme.token

end Parkour.Language.Expression
