import Parkour.Language.Sequence.Split

/-!
# Brackets and backslashes in a text

What a text leaves open for what follows it: brackets, and a backslash that protects the
next character.
-/

namespace Parkour.Language.Sequence

/-- Whether a backslash protects what follows a text. -/
def escapedAfter (escaped : Bool) : List Char → Bool
  | [] => escaped
  | c :: cs => escapedAfter (!escaped && c = '\\') cs

/-- The brackets that are open behind `c`, the innermost one in front. Any closing
bracket closes the innermost one. -/
def behind (opened : List Char) (c : Char) : List Char :=
  if isOpening c then c :: opened
  else if isClosing c then opened.tail
  else opened

/-- The brackets that are open after a text. -/
def openAfter (opened : List Char) (escaped : Bool) : List Char → List Char
  | [] => opened
  | c :: cs =>
      openAfter (if escaped then opened else behind opened c) (!escaped && c = '\\') cs

theorem escapedAfter_append (escaped : Bool) (first second : List Char) :
    escapedAfter escaped (first ++ second) =
      escapedAfter (escapedAfter escaped first) second := by
  induction first generalizing escaped with
  | nil => rfl
  | cons c first ih => exact ih _

theorem openAfter_append (opened : List Char) (escaped : Bool) (first second : List Char) :
    openAfter opened escaped (first ++ second) =
      openAfter (openAfter opened escaped first) (escapedAfter escaped first) second := by
  induction first generalizing opened escaped with
  | nil => rfl
  | cons c first ih => exact ih _ _

/-- In a text that is read behind the brackets `opened`, no boundary stands unescaped and
outside brackets. -/
def Uncut (mode : Mode) (opened : List Char) (escaped : Bool) (text : List Char) : Prop :=
  ∀ before c after, text = before ++ c :: after → openAfter opened escaped before = [] →
    escapedAfter escaped before = false → mode.isBoundary c = false

theorem isOpening_partner (c : Char) : isOpening (partner c) = true := by
  unfold partner
  split <;> rfl

theorem eq_of_isOpening {c : Char} (h : isOpening c = true) : c = '(' ∨ c = '[' := by
  simpa [isOpening] using h

theorem eq_of_isClosing {c : Char} (h : isClosing c = true) : c = ')' ∨ c = ']' := by
  simpa [isClosing] using h

theorem isOpening_of_isClosing {c : Char} (h : isClosing c = true) : isOpening c = false := by
  rcases eq_of_isClosing h with rfl | rfl <;> rfl

theorem ne_backslash_of_isOpening {c : Char} (h : isOpening c = true) : c ≠ '\\' := by
  rcases eq_of_isOpening h with rfl | rfl <;> decide

theorem ne_backslash_of_isClosing {c : Char} (h : isClosing c = true) : c ≠ '\\' := by
  rcases eq_of_isClosing h with rfl | rfl <;> decide

/-- A character that is neither a bracket nor a backslash. -/
structure Plain (c : Char) : Prop where
  opening : isOpening c = false
  closing : isClosing c = false
  backslash : c ≠ '\\'

theorem plain_of_isBoundary {mode : Mode} {c : Char} (h : mode.isBoundary c = true) :
    Plain c := by
  refine ⟨?_, ?_, ?_⟩
  · refine Bool.eq_false_iff.mpr fun hc => ?_
    rcases eq_of_isOpening hc with rfl | rfl <;> cases mode <;> exact absurd h (by decide)
  · refine Bool.eq_false_iff.mpr fun hc => ?_
    rcases eq_of_isClosing hc with rfl | rfl <;> cases mode <;> exact absurd h (by decide)
  · rintro rfl
    cases mode <;> exact absurd h (by decide)

theorem isBoundary_of_isClosing {mode : Mode} {c : Char} (h : isClosing c = true) :
    mode.isBoundary c = false := by
  refine Bool.eq_false_iff.mpr fun hc => ?_
  rw [(plain_of_isBoundary hc).closing] at h
  cases h

theorem behind_plain {opened : List Char} {c : Char} (hopening : isOpening c = false)
    (hclosing : isClosing c = false) : behind opened c = opened := by
  simp [behind, hopening, hclosing]

theorem behind_opening {opened : List Char} {c : Char} (h : isOpening c = true) :
    behind opened c = c :: opened := by
  simp [behind, h]

theorem behind_closing {opened : List Char} {c : Char} (h : isClosing c = true) :
    behind opened c = opened.tail := by
  simp [behind, h, isOpening_of_isClosing h]

end Parkour.Language.Sequence
