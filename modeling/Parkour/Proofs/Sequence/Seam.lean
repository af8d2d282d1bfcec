import Parkour.Language.Sequence.Preparation
import Parkour.Proofs.Sequence.Nested

/-!
# Two texts with a blank between them

Behind a text that leaves no comment, no backslash and no bracket open, a second text is
prepared and split as if it stood alone.
-/

namespace Parkour.Language.Sequence

open Player (Axis)

/-! ## Comments -/

/-- Whether a comment is open after a text. -/
def commentAfter (inside escaped : Bool) : List Char → Bool
  | [] => inside
  | c :: cs =>
      commentAfter (if !escaped && c = '#' then !inside else inside) (!escaped && c = '\\') cs

/-- What is left of a character without comments. -/
def uncommented (inside escaped : Bool) (c : Char) : List Char :=
  if inside || (!escaped && c = '#') then [] else [c]

/-- One equation for what becomes of a character. -/
theorem stripFrom_cons (inside escaped : Bool) (c : Char) (cs : List Char) :
    stripFrom inside escaped (c :: cs) =
      uncommented inside escaped c ++
        stripFrom (if !escaped && c = '#' then !inside else inside) (!escaped && c = '\\') cs := by
  by_cases hhash : c = '#'
  · subst hhash
    cases inside <;> cases escaped <;> rfl
  · by_cases hbackslash : c = '\\'
    · subst hbackslash
      cases inside <;> cases escaped <;> rfl
    · cases inside <;> cases escaped <;> simp [stripFrom, uncommented, hhash, hbackslash]

theorem stripFrom_append (inside escaped : Bool) (first second : List Char) :
    stripFrom inside escaped (first ++ second) =
      stripFrom inside escaped first ++
        stripFrom (commentAfter inside escaped first) (escapedAfter escaped first) second := by
  induction first generalizing inside escaped with
  | nil => rfl
  | cons c first ih =>
      rw [List.cons_append, stripFrom_cons, stripFrom_cons, ih, List.append_assoc]
      rfl

theorem escapedAfter_uncommented (inside escaped : Bool) (c : Char) :
    escapedAfter (!inside && escaped) (uncommented inside escaped c) =
      (!(if !escaped && c = '#' then !inside else inside) && (!escaped && c = '\\')) := by
  by_cases hhash : c = '#'
  · subst hhash
    cases inside <;> cases escaped <;> rfl
  · cases inside <;> cases escaped <;> simp [uncommented, escapedAfter, hhash]

/-- Outside comments, a backslash protects what it protected in the whole text. Inside
one, none is left that could protect anything. -/
theorem escapedAfter_stripFrom (inside escaped : Bool) (text : List Char) :
    escapedAfter (!inside && escaped) (stripFrom inside escaped text) =
      (!commentAfter inside escaped text && escapedAfter escaped text) := by
  induction text generalizing inside escaped with
  | nil => rfl
  | cons c text ih =>
      rw [stripFrom_cons, escapedAfter_append, escapedAfter_uncommented, ih]
      rfl

/-! ## Bars -/

/-- What a character becomes in a sequence. -/
def expanded (axis : Axis) (depth : Nat) (escaped : Bool) (c : Char) : List Char :=
  if !escaped && c = '|' && depth = 0 then reset axis else [c]

/-- One equation for what becomes of a character. The open brackets give the depth. -/
theorem expandFrom_cons (axis : Axis) (opened : List Char) (escaped : Bool) (c : Char)
    (cs : List Char) :
    expandFrom axis opened.length escaped (c :: cs) =
      expanded axis opened.length escaped c ++
        expandFrom axis (if escaped then opened else behind opened c).length
          (!escaped && c = '\\') cs := by
  cases escaped with
  | true => rfl
  | false =>
      by_cases hopening : isOpening c = true
      · rw [behind_opening hopening]
        rcases eq_of_isOpening hopening with rfl | rfl <;> rfl
      · by_cases hclosing : isClosing c = true
        · rw [behind_closing hclosing]
          rcases eq_of_isClosing hclosing with rfl | rfl <;> simp [expanded, expandFrom]
        · simp only [Bool.not_eq_true] at hopening hclosing
          rw [behind_plain hopening hclosing]
          simp only [isOpening, isClosing, Bool.or_eq_false_iff, beq_eq_false_iff_ne]
            at hopening hclosing
          by_cases hbackslash : c = '\\'
          · simp [expanded, expandFrom, hbackslash]
          · simp only [expandFrom, expanded, hbackslash, hopening, hclosing, or_self, if_false,
              decide_false, Bool.not_false, Bool.true_and, Bool.and_eq_true, decide_eq_true_eq,
              Bool.false_eq_true]
            split <;> rfl

theorem expandFrom_append (axis : Axis) (opened : List Char) (escaped : Bool)
    (first second : List Char) :
    expandFrom axis opened.length escaped (first ++ second) =
      expandFrom axis opened.length escaped first ++
        expandFrom axis (openAfter opened escaped first).length (escapedAfter escaped first)
          second := by
  induction first generalizing opened escaped with
  | nil => rfl
  | cons c first ih =>
      rw [List.cons_append, expandFrom_cons, expandFrom_cons, ih, List.append_assoc]
      rfl

/-- The calls that a bar stands for are nested. -/
theorem nested_reset (axis : Axis) : Nested (reset axis) := by
  have hsplit : ∃ pieces, splitFrom .calls 0 [] false [] (reset axis) = .ok pieces := by
    cases axis <;> exact ⟨_, rfl⟩
  obtain ⟨pieces, hpieces⟩ := hsplit
  exact nested_of_splitFrom hpieces (by cases axis <;> rfl)

/-- What a character becomes leaves open what the character leaves open. -/
theorem after_expanded (axis : Axis) (opened : List Char) (escaped : Bool) (c : Char) :
    openAfter opened escaped (expanded axis opened.length escaped c) =
        (if escaped then opened else behind opened c) ∧
      escapedAfter escaped (expanded axis opened.length escaped c) =
        (!escaped && c = '\\') := by
  unfold expanded
  split
  · next hbar =>
    simp only [Bool.and_eq_true, Bool.not_eq_true', decide_eq_true_eq] at hbar
    obtain ⟨⟨rfl, rfl⟩, -⟩ := hbar
    exact (nested_reset axis).closed opened
  · exact ⟨rfl, rfl⟩

/-- Writing out the bars leaves open what the text leaves open. -/
theorem after_expandFrom (axis : Axis) (opened : List Char) (escaped : Bool)
    (text : List Char) :
    openAfter opened escaped (expandFrom axis opened.length escaped text) =
        openAfter opened escaped text ∧
      escapedAfter escaped (expandFrom axis opened.length escaped text) =
        escapedAfter escaped text := by
  induction text generalizing opened escaped with
  | nil => exact ⟨rfl, rfl⟩
  | cons c text ih =>
      obtain ⟨hopen, hescaped⟩ := after_expanded axis opened escaped c
      rw [expandFrom_cons, openAfter_append, escapedAfter_append, hopen, hescaped]
      exact ih _ _

/-! ## Both passes and the cuts -/

/-- A text that splits closes its brackets. -/
theorem openAfter_of_splitFrom {mode : Mode} {offset : Nat} {opened : List Opened}
    {escaped : Bool} {piece cs : List Char} {pieces : List String}
    (h : splitFrom mode offset opened escaped piece cs = .ok pieces) :
    openAfter (kinds opened) escaped cs = [] := by
  induction cs generalizing offset opened escaped piece pieces with
  | nil =>
      obtain ⟨rfl, -⟩ := opened_eq_nil h
      rfl
  | cons c cs ih =>
      obtain ⟨outer, piece', pieces', hstep, hrest⟩ := splitFrom_rest h
      rw [openAfter, ← kinds_of_step hstep]
      exact ih hrest

/-- A text leaves nothing open that reaches into what follows: no comment, and no
backslash. -/
structure Settled (text : String) : Prop where
  comment : commentAfter false false text.toList = false
  backslash : escapedAfter false text.toList = false

theorem toList_prepare (axis : Axis) (text : String) :
    (prepare axis text).toList =
      expandFrom axis ([] : List Char).length false (stripFrom false false text.toList) := by
  simp [prepare, expand, strip]

theorem Settled.strip {text : String} (h : Settled text) :
    escapedAfter false (stripFrom false false text.toList) = false := by
  have hstrip := escapedAfter_stripFrom false false text.toList
  rwa [h.comment, h.backslash] at hstrip

/-- Two texts with a blank between them are prepared one by one. -/
theorem prepare_append (axis : Axis) {first : String} (second : String)
    (hfirst : Settled first)
    (hopen : openAfter [] false (prepare axis first).toList = []) :
    (prepare axis (first ++ " " ++ second)).toList =
      (prepare axis first).toList ++ ' ' :: (prepare axis second).toList := by
  rw [toList_prepare, (after_expandFrom axis [] false _).1] at hopen
  have hstrip : stripFrom false false (first ++ " " ++ second).toList =
      stripFrom false false first.toList ++ ' ' :: stripFrom false false second.toList := by
    rw [String.toList_append, String.toList_append, List.append_assoc, stripFrom_append,
      hfirst.comment, hfirst.backslash]
    rfl
  rw [toList_prepare, toList_prepare, toList_prepare, hstrip, expandFrom_append, hopen,
    hfirst.strip]
  rfl

/-- Two texts with a blank between them are split one by one. -/
theorem split_append {axis : Axis} {stack : List String} {first second : String}
    {tokens tokens' : List String} (hfirst : Settled first)
    (h : split .calls stack (prepare axis first) = .ok tokens)
    (h' : split .calls stack (prepare axis second) = .ok tokens') :
    split .calls stack (prepare axis (first ++ " " ++ second)) = .ok (tokens ++ tokens') := by
  rw [split_eq_ok_iff] at h h' ⊢
  have hescaped : escapedAfter false (prepare axis first).toList = false := by
    rw [toList_prepare, (after_expandFrom axis [] false _).2]
    exact hfirst.strip
  have hblank : Mode.isBoundary .calls ' ' = true := rfl
  have hopen : openAfter (kinds []) false (prepare axis first).toList = [] :=
    openAfter_of_splitFrom h
  rw [prepare_append axis second hfirst hopen]
  exact splitFrom_seam h hescaped hblank h'

end Parkour.Language.Sequence
