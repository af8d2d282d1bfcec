import Parkour.Language.Fault
/-!
# Splitting

Cutting a text at the boundaries outside brackets: a sequence at blanks, a list of
arguments at commas. A backslash protects the character after it. Both kinds of
brackets have to match, and in a sequence nothing may cling to a bracket that
closes a call.
-/

namespace Parkour.Language.Sequence

/-- What a text is cut into. -/
inductive Mode where
  /-- Calls between blanks; empty pieces are left out. -/
  | calls
  /-- Arguments between commas; empty pieces are kept. -/
  | arguments
deriving DecidableEq, Repr

/-- Where a text is cut. -/
def Mode.isBoundary : Mode → Char → Bool
  | .calls, c => Text.isBlank c
  | .arguments, c => c == ','

/-- An opening bracket. -/
def isOpening (c : Char) : Bool := c == '(' || c == '['

/-- A closing bracket. -/
def isClosing (c : Char) : Bool := c == ')' || c == ']'

/-- The opening bracket that a closing one matches. -/
def partner (c : Char) : Char := if c = ')' then '(' else '['

/-- An open bracket and its offset. -/
abbrev Opened := Char × Nat

/-- Closes the innermost bracket, or says why it cannot. -/
def closeBracket (c : Char) : List Opened → Except Malformed (List Opened)
  | [] => .error (.unmatched c)
  | (opened, openedAt) :: outer =>
      if opened = partner c then .ok outer else .error (.closesOther c opened openedAt)

/-- Whether a call may end before the rest of the text. -/
def isSeparated : List Char → Bool
  | [] => true
  | c :: _ => Text.isBlank c || isOpening c || isClosing c

/-- The brackets that are open after `c`, or the fault and how far behind `c` it
lies. -/
def bracketsAfter (mode : Mode) (offset : Nat) (opened : List Opened) (c : Char)
    (rest : List Char) : Except (Malformed × Nat) (List Opened) :=
  if isOpening c then .ok ((c, offset) :: opened)
  else if isClosing c then
    match closeBracket c opened with
    | .error cause => .error (cause, 0)
    | .ok outer =>
        if outer.isEmpty && mode = .calls && !isSeparated rest then
          .error (.unseparated c, 1)
        else .ok outer
  else .ok opened

/-- Adds a finished piece, given backwards, in front of the others. -/
def Mode.addPiece (mode : Mode) (piece : List Char) (pieces : List String) : List String :=
  if mode = .calls && piece.isEmpty then pieces else String.ofList piece.reverse :: pieces

/-- The pieces of a text, or the fault and its offset. `piece` is what has been
read of the current piece, backwards. -/
def splitFrom (mode : Mode) (offset : Nat) (opened : List Opened) (escaped : Bool)
    (piece : List Char) : List Char → Except (Malformed × Nat) (List String)
  | [] =>
      match opened with
      | [] => .ok (mode.addPiece piece [])
      | (bracket, openedAt) :: _ => .error (.unmatched bracket, openedAt)
  | c :: cs =>
      if escaped then splitFrom mode (offset + 1) opened false (c :: piece) cs
      else if c = '\\' then splitFrom mode (offset + 1) opened true (c :: piece) cs
      else match bracketsAfter mode offset opened c cs with
        | .error (cause, behind) => .error (cause, offset + behind)
        | .ok opened =>
            if opened.isEmpty && mode.isBoundary c then
              (splitFrom mode (offset + 1) opened false [] cs).map (mode.addPiece piece)
            else splitFrom mode (offset + 1) opened false (c :: piece) cs

/-- The pieces of a text. A fault carries the enclosing calls `stack`. -/
def split (mode : Mode) (stack : List String) (text : String) : Except Fault (List String) :=
  match splitFrom mode 0 [] false [] text.toList with
  | .ok pieces => .ok pieces
  | .error (cause, offset) => .error (.malformed cause (some ⟨text, offset, stack⟩))

end Parkour.Language.Sequence
