import Parkour.Json.Amount
/-!
# Tokens of JSON

The marks, texts, numbers and words of a JSON text. Every token is as long as it
can be, so two numbers or two words never stand next to each other undivided.
-/

namespace Parkour.Json

/-- A token. -/
inductive Token where
  /-- A bracket, a brace, a colon or a comma. -/
  | mark (c : Char)
  | text (content : String)
  | number (amount : Amount)
  | flag (b : Bool)
  | null

/-- The characters between tokens. -/
def isGap (c : Char) : Bool :=
  c == ' ' || c == '\t' || c == '\n' || c == '\r'

/-- The characters that are tokens by themselves. -/
def isMark (c : Char) : Bool :=
  c == '\x7b' || c == '\x7d' || c == '[' || c == ']' || c == ':' || c == ','

/-- The value of a hexadecimal digit. -/
def hexDigit? (c : Char) : Option Nat :=
  if Text.isDigit c then some (c.toNat - '0'.toNat)
  else if 'a' ≤ c ∧ c ≤ 'f' then some (c.toNat - 'a'.toNat + 10)
  else if 'A' ≤ c ∧ c ≤ 'F' then some (c.toNat - 'A'.toNat + 10)
  else none

/-- The character with a code of four hexadecimal digits. Halves of a pair are
refused, as no name needs them. -/
def codedChar? (a b c d : Char) : Option Char := do
  let n := (((← hexDigit? a) * 16 + (← hexDigit? b)) * 16 + (← hexDigit? c)) * 16 +
    (← hexDigit? d)
  if 0xD800 ≤ n ∧ n ≤ 0xDFFF then none else some (Char.ofNat n)

/-- The character that an escaped letter stands for. -/
def escapedChar? : Char → Option Char
  | '"' => some '"'
  | '\\' => some '\\'
  | '/' => some '/'
  | 'b' => some '\x08'
  | 'f' => some '\x0c'
  | 'n' => some '\n'
  | 'r' => some '\r'
  | 't' => some '\t'
  | _ => none

/-- The content of a text behind its opening quote, and what follows its closing
quote. -/
def textPart : List Char → Option (List Char × List Char)
  | [] => none
  | '"' :: rest => some ([], rest)
  | '\\' :: 'u' :: a :: b :: c :: d :: rest => do
      let coded ← codedChar? a b c d
      let (content, after) ← textPart rest
      return (coded :: content, after)
  | '\\' :: c :: rest => do
      let escaped ← escapedChar? c
      let (content, after) ← textPart rest
      return (escaped :: content, after)
  | c :: rest => do
      if c < ' ' || c = '\\' then none
      let (content, after) ← textPart rest
      return (c :: content, after)

/-- The digits behind a point, if there is a point. -/
def fractionPart : List Char → Option (List Char × List Char)
  | [] => some ([], [])
  | c :: cs =>
      if c = '.' then
        let ds := cs.takeWhile Text.isDigit
        if ds.isEmpty then none else some (ds, cs.dropWhile Text.isDigit)
      else some ([], c :: cs)

/-- The power of ten behind the letter `e`, if there is one. -/
def powerPart : List Char → Option (Option Int × List Char)
  | [] => some (none, [])
  | c :: cs =>
      if c = 'e' ∨ c = 'E' then
        let (negative, rest) :=
          match cs with
          | '+' :: rest => (false, rest)
          | '-' :: rest => (true, rest)
          | _ => (false, cs)
        let ds := rest.takeWhile Text.isDigit
        let power : Int := Number.readDigits 0 ds
        if ds.isEmpty then none
        else some (some (if negative then -power else power), rest.dropWhile Text.isDigit)
      else some (none, c :: cs)

/-- Whether a whole part is written as it has to be, without needless zeros. -/
def isWholePart (ds : List Char) : Bool :=
  match ds with
  | [] => false
  | [_] => true
  | d :: _ => d != '0'

/-- A number behind its sign, and what follows it. -/
def numberPart (negative : Bool) (cs : List Char) : Option (Amount × List Char) := do
  let whole := cs.takeWhile Text.isDigit
  if !isWholePart whole then none
  let (fraction, rest) ← fractionPart (cs.dropWhile Text.isDigit)
  let (power, rest) ← powerPart rest
  let amount ←
    if fraction.isEmpty && power.isNone then ofWholeDigits? negative whole
    else ofNumeral? negative ⟨whole, fraction, power.getD 0⟩
  return (amount, rest)

/-- A word, and what follows it. -/
def wordPart (cs : List Char) : Option (Token × List Char) :=
  let rest := cs.dropWhile Text.isLetter
  match String.ofList (cs.takeWhile Text.isLetter) with
  | "true" => some (.flag true, rest)
  | "false" => some (.flag false, rest)
  | "null" => some (.null, rest)
  | _ => none

/-- The token that starts with `c`, and what follows it. -/
def scan (c : Char) (cs : List Char) : Option (Token × List Char) :=
  if isMark c then some (.mark c, cs)
  else if c = '"' then
    (textPart cs).map fun (content, rest) => (.text (String.ofList content), rest)
  else if c = '-' then (numberPart true cs).map fun (amount, rest) => (.number amount, rest)
  else if Text.isDigit c then
    (numberPart false (c :: cs)).map fun (amount, rest) => (.number amount, rest)
  else wordPart (c :: cs)

/-- The tokens of a text, with `fuel` for its characters. -/
def tokensWithin : Nat → List Char → Option (List Token)
  | _, [] => some []
  | 0, _ :: _ => none
  | fuel + 1, c :: cs =>
      if isGap c then tokensWithin fuel cs
      else do
        let (token, rest) ← scan c cs
        let more ← tokensWithin fuel rest
        return token :: more

/-- The tokens of a text. -/
def tokens (text : String) : Option (List Token) :=
  tokensWithin text.length text.toList

end Parkour.Json
