import Parkour.Proofs.Sequence.Seam

/-!
# Prepared texts

A prepared text has no hash outside escapes and no bar outside escapes and brackets. There is
nothing left to do in it, so it is prepared for either axis already.
-/

namespace Parkour.Language.Sequence

open Player (Axis)

/-! ## Characters outside escapes -/

/-- In a text that is read behind the brackets `opened`, no character outside escapes has the
property. -/
def Avoids (p : List Char → Char → Prop) (opened : List Char) (escaped : Bool)
    (text : List Char) : Prop :=
  ∀ before c after, text = before ++ c :: after → escapedAfter escaped before = false →
    ¬p (openAfter opened escaped before) c

/-- A hash, inside brackets or not. -/
def Hash (_ : List Char) (c : Char) : Prop := c = '#'

/-- A bar outside brackets. -/
def Bar (opened : List Char) (c : Char) : Prop := c = '|' ∧ opened = []

/-- There is nothing to prepare in a text. -/
structure Clear (text : List Char) : Prop where
  /-- Every hash is escaped. -/
  hashes : Avoids Hash [] false text
  /-- Every bar is escaped or stands in brackets. -/
  bars : Avoids Bar [] false text

section

variable {p : List Char → Char → Prop} {opened : List Char} {escaped : Bool}

theorem avoids_nil : Avoids p opened escaped [] := by
  intro before c after h
  simp at h

theorem avoids_cons {c : Char} {text : List Char} :
    Avoids p opened escaped (c :: text) ↔
      (escaped = false → ¬p opened c) ∧
        Avoids p (if escaped then opened else behind opened c) (!escaped && c = '\\') text := by
  constructor
  · intro h
    refine ⟨h [] c text rfl, ?_⟩
    rintro before d after rfl
    exact h (c :: before) d after rfl
  · rintro ⟨hc, htext⟩ (_ | ⟨d, before⟩) e after h
    · cases h
      exact hc
    · cases h
      exact htext before e after rfl

theorem avoids_append {first second : List Char} :
    Avoids p opened escaped (first ++ second) ↔
      Avoids p opened escaped first ∧
        Avoids p (openAfter opened escaped first) (escapedAfter escaped first) second := by
  induction first generalizing opened escaped with
  | nil => exact ⟨fun h => ⟨avoids_nil, h⟩, And.right⟩
  | cons c first ih =>
      rw [List.cons_append, avoids_cons, avoids_cons, ih, and_assoc]
      rfl

theorem avoids_of_forall {text : List Char} (h : ∀ c ∈ text, ∀ opened, ¬p opened c) :
    Avoids p opened escaped text := by
  rintro before c after rfl -
  exact h c (by simp) _

theorem avoids_singleton {c : Char} (h : escaped = false → ¬p opened c) :
    Avoids p opened escaped [c] :=
  avoids_cons.mpr ⟨h, avoids_nil⟩

end

/-! ## Comments -/

variable {axis : Axis} {opened text : List Char} {escaped : Bool}

/-- No hash is left outside escapes. -/
theorem avoids_stripFrom (inside escaped : Bool) (opened text : List Char) :
    Avoids Hash opened (!inside && escaped) (stripFrom inside escaped text) := by
  induction text generalizing inside escaped opened with
  | nil => exact avoids_nil
  | cons c text ih =>
      rw [stripFrom_cons, avoids_append, escapedAfter_uncommented]
      refine ⟨?_, ih _ _ _⟩
      unfold uncommented
      split
      · exact avoids_nil
      · next hkept =>
        refine avoids_singleton fun hescaped hhash => hkept ?_
        change c = '#' at hhash
        cases inside <;> simp_all

theorem stripFrom_eq_self (h : Avoids Hash opened escaped text) :
    stripFrom false escaped text = text := by
  induction text generalizing opened escaped with
  | nil => rfl
  | cons c text ih =>
      obtain ⟨hc, htext⟩ := avoids_cons.mp h
      have hkept : (!escaped && decide (c = '#')) = false := by
        cases escaped with
        | true => rfl
        | false => simpa [Hash] using hc rfl
      rw [stripFrom_cons, uncommented, hkept]
      exact congrArg (c :: ·) (ih htext)

/-! ## Bars -/

/-- Written out, no bar is left outside escapes and brackets. -/
theorem avoids_expandFrom (axis : Axis) (opened : List Char) (escaped : Bool)
    (text : List Char) :
    Avoids Bar opened escaped (expandFrom axis opened.length escaped text) := by
  induction text generalizing opened escaped with
  | nil => exact avoids_nil
  | cons c text ih =>
      obtain ⟨hopen, hescaped⟩ := after_expanded axis opened escaped c
      rw [expandFrom_cons, avoids_append, hopen, hescaped]
      refine ⟨?_, ih _ _⟩
      unfold expanded
      split
      · refine avoids_of_forall fun d hd opened hbar => ?_
        rw [hbar.1] at hd
        cases axis <;> exact absurd hd (by decide)
      · next hkept =>
        refine avoids_singleton ?_
        rintro rfl ⟨rfl, rfl⟩
        exact hkept rfl

/-- The calls that a bar stands for have no hash. -/
theorem avoids_hash_expandFrom (axis : Axis) (h : Avoids Hash opened escaped text) :
    Avoids Hash opened escaped (expandFrom axis opened.length escaped text) := by
  induction text generalizing opened escaped with
  | nil => exact avoids_nil
  | cons c text ih =>
      obtain ⟨hc, htext⟩ := avoids_cons.mp h
      obtain ⟨hopen, hescaped⟩ := after_expanded axis opened escaped c
      rw [expandFrom_cons, avoids_append, hopen, hescaped]
      refine ⟨?_, ih htext⟩
      unfold expanded
      split
      · refine avoids_of_forall fun d hd opened hhash => ?_
        rw [show d = '#' from hhash] at hd
        cases axis <;> exact absurd hd (by decide)
      · exact avoids_singleton hc

theorem expandFrom_eq_self (axis : Axis) (h : Avoids Bar opened escaped text) :
    expandFrom axis opened.length escaped text = text := by
  induction text generalizing opened escaped with
  | nil => rfl
  | cons c text ih =>
      obtain ⟨hc, htext⟩ := avoids_cons.mp h
      have hkept : expanded axis opened.length escaped c = [c] := by
        refine if_neg fun hbar => ?_
        simp only [Bool.and_eq_true, Bool.not_eq_true', decide_eq_true_eq] at hbar
        exact hc hbar.1.1 ⟨hbar.1.2, List.length_eq_zero_iff.mp hbar.2⟩
      rw [expandFrom_cons, hkept, ih htext]
      rfl

/-! ## Both passes -/

theorem clear_prepare (axis : Axis) (text : String) : Clear (prepare axis text).toList := by
  rw [toList_prepare]
  exact ⟨avoids_hash_expandFrom axis (avoids_stripFrom false false [] text.toList),
    avoids_expandFrom axis [] false _⟩

/-- What is prepared for one axis is prepared for either. -/
theorem Clear.prepare_eq_self {text : String} (h : Clear text.toList) (axis : Axis) :
    prepare axis text = text := by
  rw [← String.toList_inj, toList_prepare, stripFrom_eq_self h.hashes,
    expandFrom_eq_self axis h.bars]

/-- An escaped character outside comments comes through with its backslash, behind what stands
before it. -/
theorem prepare_escape (axis : Axis) {text : String} {before after : List Char} {c : Char}
    (htext : text.toList = before ++ '\\' :: c :: after)
    (hcomment : commentAfter false false before = false)
    (hescaped : escapedAfter false before = false) :
    escapedAfter false (prepare axis (String.ofList before)).toList = false ∧
      ∃ rest, (prepare axis text).toList =
        (prepare axis (String.ofList before)).toList ++ '\\' :: c :: rest := by
  have hbefore := escapedAfter_stripFrom false false before
  rw [hcomment, hescaped] at hbefore
  change escapedAfter false (stripFrom false false before) = false at hbefore
  rw [toList_prepare, toList_prepare, String.toList_ofList]
  constructor
  · rw [(after_expandFrom axis [] false _).2, hbefore]
  · rw [htext, stripFrom_append, hcomment, hescaped, expandFrom_append, hbefore]
    exact ⟨_, rfl⟩

/-- In a text whose hashes are escaped, each character stays what it is or is written out. -/
theorem prepare_each (axis : Axis) {text : String} {before after : List Char} {c : Char}
    (h : Avoids Hash [] false text.toList) (htext : text.toList = before ++ c :: after) :
    ∃ rest, (prepare axis text).toList =
      (prepare axis (String.ofList before)).toList ++
        (expanded axis (openAfter [] false before).length (escapedAfter false before) c ++
          rest) := by
  have hbefore : Avoids Hash [] false before := by
    rw [htext] at h
    exact (avoids_append.mp h).1
  rw [toList_prepare, toList_prepare, String.toList_ofList, stripFrom_eq_self h,
    stripFrom_eq_self hbefore, htext, expandFrom_append, expandFrom_cons]
  exact ⟨_, rfl⟩

end Parkour.Language.Sequence
