import Mathlib.Data.List.TakeWhile
import Parkour.Proofs.Sequence.Prepared
import Parkour.Proofs.Sequence.Splitting

/-!
# Parts of texts without comments

A text in which every hash is escaped loses no character when it is prepared. So does each part
of it whose first character is not escaped there.
-/

namespace Parkour.Language.Sequence

variable {body text whole first rest : List Char}

/-! ## Parts -/

/-- A text stands in another one, and its first character is not escaped there. -/
def Stands (text whole : List Char) : Prop :=
  ∃ before after, whole = before ++ (text ++ after) ∧ escapedAfter false before = false

theorem escapedAfter_of_notMem (h : '\\' ∉ text) : escapedAfter false text = false := by
  induction text with
  | nil => rfl
  | cons c text ih =>
      rw [List.mem_cons, not_or] at h
      obtain ⟨hc, htext⟩ := h
      rw [escapedAfter, show (!false && decide (c = '\\')) = false by simpa using Ne.symm hc]
      exact ih htext

namespace Stands

theorem nil (whole : List Char) : Stands [] whole := ⟨[], whole, rfl, rfl⟩

theorem trans (h : Stands body text) (h' : Stands text whole) : Stands body whole := by
  obtain ⟨before, after, rfl, hbefore⟩ := h
  obtain ⟨front, back, rfl, hfront⟩ := h'
  refine ⟨front ++ before, after ++ back, by simp, ?_⟩
  rw [escapedAfter_append, hfront, hbefore]

/-- What has no backslash escapes nothing. -/
theorem behind (h : '\\' ∉ first) : Stands body (first ++ (body ++ rest)) :=
  ⟨first, rest, rfl, escapedAfter_of_notMem h⟩

end Stands

/-- Trimming takes blanks away, and nothing else. -/
theorem exists_trimmed (text : List Char) :
    ∃ lead trail, Blank lead ∧ Blank trail ∧ text = lead ++ (Text.trimmed text ++ trail) := by
  refine ⟨text.takeWhile Text.isBlank,
    ((text.dropWhile Text.isBlank).reverse.takeWhile Text.isBlank).reverse,
    fun c hc => List.mem_takeWhile_imp hc,
    fun c hc => List.mem_takeWhile_imp (List.mem_reverse.mp hc), ?_⟩
  rw [Text.trimmed, ← List.reverse_append, List.takeWhile_append_dropWhile, List.reverse_reverse,
    List.takeWhile_append_dropWhile]

theorem Blank.nested (h : Blank text) : Nested text := by
  refine nested_of_plain fun c hc => ?_
  have hboundary : Mode.calls.isBoundary c = true := h c hc
  exact plain_of_isBoundary hboundary

theorem stands_trimmed (text : List Char) : Stands (Text.trimmed text) text := by
  obtain ⟨lead, trail, hlead, -, htext⟩ := exists_trimmed text
  exact ⟨lead, trail, htext, (hlead.nested.closed []).2⟩

theorem mem_trimmed {c : Char} (h : c ∈ text) (hc : Text.isBlank c = false) :
    c ∈ Text.trimmed text := by
  obtain ⟨lead, trail, hlead, htrail, htext⟩ := exists_trimmed text
  have hblank : ∀ blanks, Blank blanks → c ∉ blanks := by
    intro blanks hblanks hmem
    rw [hblanks c hmem] at hc
    cases hc
  rw [htext, List.mem_append, List.mem_append] at h
  exact (h.resolve_left (hblank lead hlead)).resolve_right (hblank trail htrail)

/-- Before a piece of a text all brackets are closed. -/
theorem exists_place_of_split {mode : Mode} {stack pieces : List String} {piece whole : String}
    (h : split mode stack whole = .ok pieces) (hpiece : piece ∈ pieces) :
    ∃ before after, whole.toList = before ++ (piece.toList ++ after) ∧ Nested before := by
  obtain ⟨raw, hcuts, -, rfl⟩ := exists_cuts (split_eq_ok_iff.mp h)
  exact hcuts.exists_place (mem_kept hpiece).1

theorem stands_of_split {mode : Mode} {stack pieces : List String} {piece whole : String}
    (h : split mode stack whole = .ok pieces) (hpiece : piece ∈ pieces) :
    Stands piece.toList whole.toList := by
  obtain ⟨before, after, hwhole, hbefore⟩ := exists_place_of_split h hpiece
  exact ⟨before, after, hwhole, (hbefore.closed []).2⟩

/-! ## Comments -/

/-- There are no comments in the text: every hash is escaped. -/
def CommentFree (text : String) : Prop := Avoids Hash [] false text.toList

/-- Preparing a text loses none of its characters. Each of them stays what it is, or is a bar
that is written out. -/
def Lossless (text : String) : Prop :=
  ∀ axis before c after, text.toList = before ++ c :: after →
    ∃ rest, (prepare axis text).toList =
      (prepare axis (String.ofList before)).toList ++
        (expanded axis (openAfter [] false before).length (escapedAfter false before) c ++ rest)

theorem CommentFree.lossless {text : String} (h : CommentFree text) : Lossless text :=
  fun axis _ _ _ htext => prepare_each axis h htext

theorem commentFree_of_notMem {text : String} (h : '#' ∉ text.toList) : CommentFree text := by
  refine avoids_of_forall fun c hc _ hhash => h ?_
  rwa [← show c = '#' from hhash]

/-- Parts of texts without comments have none either. -/
theorem Stands.commentFree {text whole : String} (h : Stands text.toList whole.toList)
    (hwhole : CommentFree whole) : CommentFree text := by
  obtain ⟨before, after, heq, hescaped⟩ := h
  have hbehind : Avoids Hash [] false (before ++ (text.toList ++ after)) := heq ▸ hwhole
  have htext := (avoids_append.mp hbehind).2
  rw [hescaped] at htext
  exact (avoids_append.mp htext).1

end Parkour.Language.Sequence
