import Parkour.Text.Character
/-!
# Trimming and letter case

Trimming removes blanks at both ends. Lowering touches `A` to `Z` alone, so a
text keeps its length and its characters outside ASCII.
-/

namespace Parkour.Text

/-- The characters without the blanks at either end. -/
def trimmed (cs : List Char) : List Char :=
  ((cs.dropWhile isBlank).reverse.dropWhile isBlank).reverse

/-- The text without the blanks at either end. -/
def trim (text : String) : String :=
  String.ofList (trimmed text.toList)

/-- Nothing but blanks. -/
def isBlankText (text : String) : Bool :=
  text.toList.all isBlank

/-- The text with `A` to `Z` replaced by their small letters. -/
def lower (text : String) : String :=
  String.ofList (text.toList.map Char.toLower)

@[simp] theorem toList_lower (text : String) :
    (lower text).toList = text.toList.map Char.toLower := by
  simp [lower]

@[simp] theorem toList_trim (text : String) :
    (trim text).toList = trimmed text.toList := by
  simp [trim]

/-- The first part before `mark` and the rest after it, if `mark` occurs. -/
def cut? (mark : Char) (text : String) : Option (String × String) :=
  let cs := text.toList
  match cs.dropWhile (· != mark) with
  | [] => none
  | _ :: rest => some (String.ofList (cs.takeWhile (· != mark)), String.ofList rest)

end Parkour.Text
