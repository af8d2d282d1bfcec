import Parkour.Proofs.Sequence.Printing
import Parkour.Proofs.Sequence.Seam

/-!
# Escaped texts

A text with a backslash before every character passes the preparation of a sequence, the
cuts between calls and the cuts between arguments as it is. Only the trimming of an
argument does not look for backslashes.
-/

namespace Parkour.Text

/-- A backslash before every character. -/
def escaped (text : List Char) : List Char := text.flatMap fun c => ['\\', c]

/-- The text with a backslash before every character. -/
def escape (text : String) : String := String.ofList (escaped text.toList)

@[simp] theorem escaped_nil : escaped [] = [] := rfl

@[simp] theorem escaped_cons (c : Char) (text : List Char) :
    escaped (c :: text) = '\\' :: c :: escaped text := rfl

@[simp] theorem escaped_append (first second : List Char) :
    escaped (first ++ second) = escaped first ++ escaped second :=
  List.flatMap_append

@[simp] theorem toList_escape (text : String) : (escape text).toList = escaped text.toList := by
  simp [escape]

theorem isBlank_backslash : isBlank '\\' = false := by decide

/-- Trimming takes the last character of an escaped text if it is a blank, and leaves the
backslash before it. -/
theorem trimmed_escaped (text : List Char) (c : Char) :
    trimmed (escaped (text ++ [c])) =
      escaped text ++ '\\' :: if isBlank c then [] else [c] := by
  have hfront : (escaped (text ++ [c])).dropWhile isBlank = escaped (text ++ [c]) := by
    cases text <;> simp [isBlank_backslash]
  rw [trimmed, hfront]
  cases hc : isBlank c <;> simp [hc, isBlank_backslash]

end Parkour.Text

namespace Parkour.Language.Sequence

open Player (Axis)
open Text (escaped escape toList_escape)

theorem stripFrom_escaped (text rest : List Char) :
    stripFrom false false (escaped text ++ rest) =
      escaped text ++ stripFrom false false rest := by
  induction text with
  | nil => rfl
  | cons c text ih => simp [stripFrom, ih]

theorem expandFrom_escaped (axis : Axis) (depth : Nat) (text rest : List Char) :
    expandFrom axis depth false (escaped text ++ rest) =
      escaped text ++ expandFrom axis depth false rest := by
  induction text with
  | nil => rfl
  | cons c text ih => simp [expandFrom, ih]

theorem nested_escaped (text : List Char) : Nested (escaped text) := by
  induction text with
  | nil => exact .nil
  | cons c text ih => exact .escaped c ih

theorem taken_escapes {mode : Mode} {opened : List Opened} (text rest : List Char) :
    Taken mode opened (escaped text) rest := by
  induction text with
  | nil => exact taken_nil mode opened rest
  | cons c text ih => exact (taken_escaped c _).append ih

/-- An escaped text is one argument. -/
theorem isArgument_escape (text : String) : IsArgument (escape text) := by
  have hwhole : Whole .arguments (escape text).toList := by
    rw [toList_escape]
    exact whole_of_taken (taken_escapes _ [])
  have hsplit : split .arguments [] (escape text) = .ok [escape text] :=
    split_eq_ok_iff.mpr (splitFrom_piece hwhole nofun)
  have hescaped : escapedAfter false (escape text).toList = false := by
    rw [toList_escape]
    exact ((nested_escaped text.toList).closed []).2
  exact (isArgument_iff_split [] _).mpr ⟨hsplit, hescaped⟩

end Parkour.Language.Sequence
