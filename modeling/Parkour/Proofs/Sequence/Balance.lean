import Parkour.Proofs.Sequence.Cuts

/-!
# Balanced brackets

The brackets of a text outside its escapes are a word over two kinds of brackets. What such
a word leaves open is said here by the grammar of balanced words alone, without a stack: a
bracket is open as long as only balanced words stand behind it.
-/

namespace Parkour.Language.Sequence

variable {text before after : List Char} {c d : Char} {o place : Nat}

/-! ## Words of brackets -/

/-- The words of brackets in which every bracket has its partner. -/
inductive Balanced : List Char → Prop where
  | nil : Balanced []
  | enclosed {opening closing : Char} {inner rest : List Char}
      (hclosing : isClosing closing = true) (hpartner : opening = partner closing)
      (hinner : Balanced inner) (h : Balanced rest) :
      Balanced (opening :: (inner ++ closing :: rest))

theorem Balanced.append {first second : List Char} (h : Balanced first)
    (h' : Balanced second) : Balanced (first ++ second) := by
  induction h with
  | nil => exact h'
  | enclosed hclosing hpartner hinner _ _ ih =>
      simpa using Balanced.enclosed hclosing hpartner hinner ih

/-- A balanced word opens nothing that it does not close, and closes nothing else. -/
theorem Balanced.foldl {word : List Char} (h : Balanced word) (opened : List Char) :
    word.foldl behind opened = opened := by
  induction h generalizing opened with
  | nil => rfl
  | @enclosed opening closing inner rest hclosing hpartner _ _ ihinner ih =>
      have hopening : isOpening opening = true := hpartner ▸ isOpening_partner closing
      rw [List.foldl_cons, List.foldl_append, List.foldl_cons, ihinner,
        behind_opening hopening, behind_closing hclosing, List.tail_cons, ih]

/-- In a balanced word, the partner of every closing bracket stands before it, with a balanced
word between the two. -/
theorem Balanced.exists_partner {word first second : List Char} (h : Balanced word)
    (hword : word = first ++ c :: second) (hc : isClosing c = true) :
    ∃ outer inner, first = outer ++ partner c :: inner ∧ Balanced inner := by
  induction h generalizing first second with
  | nil => simp at hword
  | @enclosed opening closing inner rest hclosing hpartner hinner _ ihinner ih =>
      cases first with
      | nil =>
          have hopening : isOpening c = true := by
            rw [← (List.cons.inj hword).1, hpartner]
            exact isOpening_partner closing
          rw [isOpening_of_isClosing hc] at hopening
          cases hopening
      | cons b first =>
          obtain ⟨rfl, htail⟩ := List.cons.inj hword
          rcases List.append_eq_append_iff.mp htail with ⟨more, rfl, hrest⟩ | ⟨more, rfl, hrest⟩
          · cases more with
            | nil =>
                -- It is the bracket that closes the first one.
                obtain ⟨rfl, -⟩ := List.cons.inj hrest
                exact ⟨[], inner, by rw [hpartner, List.append_nil, List.nil_append], hinner⟩
            | cons b' more =>
                obtain ⟨outer, inside, rfl, hinside⟩ := ih (List.cons.inj hrest).2
                exact ⟨opening :: (inner ++ b' :: outer), inside, by simp, hinside⟩
          · cases more with
            | nil =>
                obtain ⟨rfl, -⟩ := List.cons.inj hrest
                rw [List.append_nil] at hinner
                exact ⟨[], first, by rw [hpartner, List.nil_append], hinner⟩
            | cons b' more =>
                obtain ⟨rfl, -⟩ := List.cons.inj hrest
                obtain ⟨outer, inside, rfl, hinside⟩ := ihinner rfl
                exact ⟨opening :: outer, inside, rfl, hinside⟩

/-! ## The brackets of a text -/

/-- The brackets of a text outside its escapes. -/
def brackets (escaped : Bool) : List Char → List Char
  | [] => []
  | c :: cs =>
      let later := brackets (!escaped && c = '\\') cs
      if !escaped && (isOpening c || isClosing c) then c :: later else later

theorem brackets_append (escaped : Bool) (first second : List Char) :
    brackets escaped (first ++ second) =
      brackets escaped first ++ brackets (escapedAfter escaped first) second := by
  induction first generalizing escaped with
  | nil => rfl
  | cons c first ih =>
      simp only [List.cons_append, brackets, escapedAfter, ih]
      split <;> rfl

section Brackets

variable (h : isOpening c = true ∨ isClosing c = true) (cs : List Char)
include h

theorem ne_backslash_of_bracket : c ≠ '\\' :=
  h.elim ne_backslash_of_isOpening ne_backslash_of_isClosing

theorem escapedAfter_bracket : escapedAfter false (c :: cs) = escapedAfter false cs := by
  simp [escapedAfter, ne_backslash_of_bracket h]

theorem brackets_bracket : brackets false (c :: cs) = c :: brackets false cs := by
  simp [brackets, h, ne_backslash_of_bracket h]

theorem openAfter_bracket (opened : List Char) :
    openAfter opened false (c :: cs) = openAfter (behind opened c) false cs := by
  simp [openAfter, ne_backslash_of_bracket h]

end Brackets

/-- What is open after a text depends on its brackets outside escapes. -/
theorem openAfter_eq_foldl (opened : List Char) (escaped : Bool) (text : List Char) :
    openAfter opened escaped text = (brackets escaped text).foldl behind opened := by
  induction text generalizing opened escaped with
  | nil => rfl
  | cons c text ih =>
      rw [openAfter, ih, brackets]
      cases escaped with
      | true => rfl
      | false =>
          cases hopening : isOpening c <;> cases hclosing : isClosing c <;>
            simp [behind, hopening, hclosing]

theorem openAfter_of_balanced (h : Balanced (brackets false text)) :
    openAfter [] false text = [] := by
  rw [openAfter_eq_foldl, h.foldl]

/-- The brackets of a text stand in it. -/
theorem exists_of_brackets {escaped : Bool} {first second : List Char}
    (h : brackets escaped text = first ++ c :: second) :
    ∃ before after, text = before ++ c :: after ∧ escapedAfter escaped before = false ∧
      brackets false after = second := by
  induction text generalizing escaped first with
  | nil => simp [brackets] at h
  | cons d text ih =>
      by_cases hd : (!escaped && (isOpening d || isClosing d)) = true
      · cases first with
        | nil =>
            obtain ⟨hbare, hbracket⟩ := Bool.and_eq_true_iff.mp hd
            rw [Bool.not_eq_true'] at hbare
            subst hbare
            rw [brackets_bracket (Bool.or_eq_true_iff.mp hbracket)] at h
            obtain ⟨rfl, hrest⟩ := List.cons.inj h
            exact ⟨[], text, rfl, rfl, hrest⟩
        | cons b first =>
            rw [brackets, if_pos hd] at h
            obtain ⟨before, after, rfl, hbare, hrest⟩ := ih (List.cons.inj h).2
            exact ⟨d :: before, after, rfl, hbare, hrest⟩
      · rw [brackets, if_neg hd] at h
        obtain ⟨before, after, rfl, hbare, hrest⟩ := ih h
        exact ⟨d :: before, after, rfl, hbare, hrest⟩

/-! ## Places in a text -/

/-- The character `c` stands at the offset `o`, and no backslash protects it. -/
def Bare (text : List Char) (o : Nat) (c : Char) : Prop :=
  text[o]? = some c ∧ escapedAfter false (text.take o) = false

/-- The bracket `c` at the offset `o` is the innermost one that is open at the end of the text:
the brackets behind it are balanced. -/
structure Innermost (text : List Char) (o : Nat) (c : Char) : Prop where
  bare : Bare text o c
  opening : isOpening c = true
  balanced : Balanced (brackets false (text.drop (o + 1)))

theorem bare_length : Bare (before ++ c :: after) before.length d ↔
    c = d ∧ escapedAfter false before = false := by
  simp [Bare]

/-- What stands at an offset has something before it and something behind it. -/
theorem Bare.exists_append (h : Bare text o c) :
    ∃ before after, text = before ++ c :: after ∧ before.length = o ∧
      escapedAfter false before = false ∧ text.take o = before ∧
      text.drop (o + 1) = after := by
  obtain ⟨hc, hescaped⟩ := h
  obtain ⟨ho, rfl⟩ := List.getElem?_eq_some_iff.mp hc
  have hsplit : text = text.take o ++ text[o] :: text.drop (o + 1) := by
    rw [← List.drop_eq_getElem_cons ho, List.take_append_drop]
  exact ⟨_, _, hsplit, List.length_take_of_le (Nat.le_of_lt ho), hescaped, rfl, rfl⟩

theorem innermost_length (hescaped : escapedAfter false before = false)
    (hopening : isOpening c = true) (h : Balanced (brackets false after)) :
    Innermost (before ++ c :: after) before.length c where
  bare := bare_length.mpr ⟨rfl, hescaped⟩
  opening := hopening
  balanced := by simpa using h

/-- The innermost bracket that is open is the last one that was opened. -/
theorem Innermost.openAfter (h : Innermost text o c) :
    openAfter [] false text = c :: openAfter [] false (text.take o) := by
  obtain ⟨hbare, hopening, hbalanced⟩ := h
  obtain ⟨before, after, rfl, -, hescaped, htake, hdrop⟩ := hbare.exists_append
  rw [hdrop] at hbalanced
  rw [htake, openAfter_append, hescaped, openAfter_bracket (.inl hopening),
    behind_opening hopening, openAfter_eq_foldl, hbalanced.foldl]

/-- In a text whose brackets are balanced, every closing bracket closes the innermost one that is
open before it. -/
theorem Bare.exists_innermost (hc : Bare text o c) (h : Balanced (brackets false text))
    (hclosing : isClosing c = true) : ∃ place, Innermost (text.take o) place (partner c) := by
  obtain ⟨before, after, rfl, -, hescaped, htake, -⟩ := hc.exists_append
  have hword : brackets false (before ++ c :: after) =
      brackets false before ++ c :: brackets false after := by
    rw [brackets_append, hescaped, brackets_bracket (.inr hclosing)]
  obtain ⟨outer, inner, hfirst, hinner⟩ := h.exists_partner hword hclosing
  obtain ⟨first, second, rfl, hbare, rfl⟩ := exists_of_brackets hfirst
  rw [htake]
  exact ⟨first.length, innermost_length hbare (isOpening_partner c) hinner⟩

/-! ## What a text leaves open -/

/-- The brackets that a text leaves open, the innermost one in front, with their offsets. -/
inductive Leaves : List Char → List Opened → Prop where
  | none {text : List Char} (h : Balanced (brackets false text)) : Leaves text []
  | some {before after : List Char} {c : Char} {opened : List Opened}
      (hbefore : Leaves before opened) (hescaped : escapedAfter false before = false)
      (hopening : isOpening c = true) (h : Balanced (brackets false after)) :
      Leaves (before ++ c :: after) ((c, before.length) :: opened)

namespace Leaves

variable {opened : List Opened}

theorem openAfter (h : Leaves text opened) : openAfter [] false text = kinds opened := by
  induction h with
  | none h => exact openAfter_of_balanced h
  | some _ hescaped hopening h ih =>
      rw [(innermost_length hescaped hopening h).openAfter, List.take_left, ih]
      rfl

theorem balanced (h : Leaves text []) : Balanced (brackets false text) := by
  cases h with
  | none h => exact h

theorem innermost (h : Leaves text ((c, o) :: opened)) : Innermost text o c := by
  cases h with
  | some _ hescaped hopening h => exact innermost_length hescaped hopening h

/-- A balanced text more leaves the same brackets open. -/
theorem append {more : List Char} (h : Leaves text opened)
    (hmore : Balanced (brackets (escapedAfter false text) more)) :
    Leaves (text ++ more) opened := by
  cases h with
  | none h =>
      refine .none ?_
      rw [brackets_append]
      exact h.append hmore
  | @some before after c opened hbefore hescaped hopening h =>
      rw [escapedAfter_append, hescaped, escapedAfter_bracket (.inl hopening)] at hmore
      rw [List.append_assoc, List.cons_append]
      refine .some hbefore hescaped hopening ?_
      rw [brackets_append]
      exact h.append hmore

theorem push (h : Leaves text opened) (hescaped : escapedAfter false text = false)
    (hc : isOpening c = true) : Leaves (text ++ [c]) ((c, text.length) :: opened) :=
  .some h hescaped hc .nil

theorem pop (h : Leaves text ((partner c, o) :: opened))
    (hescaped : escapedAfter false text = false) (hc : isClosing c = true) :
    Leaves (text ++ [c]) opened := by
  cases h with
  | @some before after _ _ hbefore hbare hopening h =>
      rw [escapedAfter_append, hbare, escapedAfter_bracket (.inl hopening)] at hescaped
      have hgroup :
          Balanced (brackets (escapedAfter false before) (partner c :: after ++ [c])) := by
        rw [hbare, List.cons_append, brackets_bracket (.inl hopening), brackets_append, hescaped,
          brackets_bracket (.inr hc)]
        exact .enclosed hc rfl h .nil
      rw [List.append_assoc]
      exact hbefore.append hgroup

end Leaves

end Parkour.Language.Sequence
