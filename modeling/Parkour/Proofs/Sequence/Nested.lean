import Parkour.Proofs.Sequence.Cuts

/-!
# Nested texts

A text whose brackets all match is read through, whatever stands around it.
-/

namespace Parkour.Language.Sequence

/-- The texts in which every bracket outside escapes has its partner and no backslash
stands at the end. -/
inductive Nested : List Char → Prop where
  | nil : Nested []
  | plain {c : Char} {rest : List Char} (hc : Plain c) (h : Nested rest) : Nested (c :: rest)
  | escaped (c : Char) {rest : List Char} (h : Nested rest) : Nested ('\\' :: c :: rest)
  | enclosed {opening closing : Char} {inner rest : List Char}
      (hclosing : isClosing closing = true) (hpartner : opening = partner closing)
      (hinner : Nested inner) (h : Nested rest) :
      Nested (opening :: (inner ++ closing :: rest))

variable {mode : Mode} {offset : Nat} {opened : List Opened} {piece : List Char}

/-- A nested text leaves nothing open. -/
theorem Nested.closed {text : List Char} (h : Nested text) (opened : List Char) :
    openAfter opened false text = opened ∧ escapedAfter false text = false := by
  induction h generalizing opened with
  | nil => exact ⟨rfl, rfl⟩
  | plain hc h ih =>
      simpa [openAfter, escapedAfter, behind_plain hc.opening hc.closing, hc.backslash]
        using ih opened
  | escaped c h ih =>
      have hbackslash : behind opened '\\' = opened := rfl
      simpa [openAfter, escapedAfter, hbackslash] using ih opened
  | @enclosed opening closing inner rest hclosing hpartner hinner h ihinner ih =>
      have hopening : isOpening opening = true := hpartner ▸ isOpening_partner closing
      obtain ⟨hopen, hescaped⟩ := ihinner (opening :: opened)
      simpa [openAfter, escapedAfter, openAfter_append, escapedAfter_append, hopen, hescaped,
        behind_opening hopening, ne_backslash_of_isOpening hopening, behind_closing hclosing,
        ne_backslash_of_isClosing hclosing] using ih opened

theorem nested_of_plain {text : List Char} (h : ∀ c ∈ text, Plain c) : Nested text := by
  induction text with
  | nil => exact .nil
  | cons c text ih =>
      obtain ⟨hc, htext⟩ := List.forall_mem_cons.mp h
      exact .plain hc (ih htext)

theorem Nested.append {first second : List Char} (h : Nested first) (h' : Nested second) :
    Nested (first ++ second) := by
  induction h with
  | nil => exact h'
  | plain hc _ ih => exact .plain hc ih
  | escaped c _ ih => exact .escaped c ih
  | enclosed hclosing hpartner hinner _ _ ih =>
      simpa using Nested.enclosed hclosing hpartner hinner ih

/-- Before `rest`, a text goes into the current piece as it is. -/
def Taken (mode : Mode) (opened : List Opened) (text rest : List Char) : Prop :=
  ∀ offset piece,
    splitFrom mode offset opened false piece (text ++ rest) =
      splitFrom mode (offset + text.length) opened false (text.reverse ++ piece) rest

theorem taken_nil (mode : Mode) (opened : List Opened) (rest : List Char) :
    Taken mode opened [] rest :=
  fun _ _ => rfl

theorem Taken.append {first second rest : List Char}
    (hfirst : Taken mode opened first (second ++ rest)) (hsecond : Taken mode opened second rest) :
    Taken mode opened (first ++ second) rest := by
  intro offset piece
  rw [List.append_assoc, hfirst, hsecond, List.length_append, Nat.add_assoc,
    List.reverse_append, List.append_assoc]

theorem splitFrom_taken {c : Char} {outer : List Opened} {cs : List Char}
    (hstep : step mode offset opened false c cs = .ok outer)
    (hcut : cutsAt mode outer false c = false) (hplain : c ≠ '\\') :
    splitFrom mode offset opened false piece (c :: cs) =
      splitFrom mode (offset + 1) outer false (c :: piece) cs := by
  rw [splitFrom_keep hstep hcut]
  simp [hplain]

theorem taken_plain {c : Char} {rest : List Char} (hc : Plain c)
    (hcut : opened = [] → mode.isBoundary c = false) : Taken mode opened [c] rest := by
  intro offset piece
  have hstep : step mode offset opened false c rest = .ok opened :=
    bracketsAfter_plain hc.opening hc.closing rest
  have hkeep : cutsAt mode opened false c = false := by
    refine Bool.eq_false_iff.mpr fun hcuts => ?_
    obtain ⟨-, hopened, hboundary⟩ := cutsAt_eq_true hcuts
    rw [hcut hopened] at hboundary
    cases hboundary
  rw [List.singleton_append, splitFrom_taken hstep hkeep hc.backslash]
  rfl

theorem taken_of_plain {text : List Char}
    (h : ∀ c ∈ text, Plain c ∧ mode.isBoundary c = false) (rest : List Char) :
    Taken mode opened text rest := by
  induction text with
  | nil => exact taken_nil mode opened rest
  | cons c text ih =>
      obtain ⟨hc, htext⟩ := List.forall_mem_cons.mp h
      exact (taken_plain hc.1 fun _ => hc.2).append (ih htext)

theorem taken_escaped (c : Char) (rest : List Char) : Taken mode opened ['\\', c] rest := by
  intro offset piece
  simp [splitFrom]

/-- What brackets enclose is taken, if nothing clings to it in a sequence. -/
theorem taken_enclosed {opening closing : Char} {inner rest : List Char}
    (hclosing : isClosing closing = true) (hpartner : opening = partner closing)
    (hinner : ∀ opened : List Opened, opened ≠ [] → Taken mode opened inner (closing :: rest))
    (hrest : opened = [] → mode = .calls → isSeparated rest = true) :
    Taken mode opened (opening :: (inner ++ [closing])) rest := by
  intro offset piece
  subst hpartner
  have hopening := isOpening_partner closing
  have hopen : step mode offset opened false (partner closing)
      (inner ++ closing :: rest) = .ok ((partner closing, offset) :: opened) :=
    bracketsAfter_opening hopening _
  have hclose : step mode (offset + 1 + inner.length) ((partner closing, offset) :: opened)
      false closing rest = .ok opened := bracketsAfter_closing hclosing hrest
  have hkeep : cutsAt mode opened false closing = false := by
    simp [cutsAt, isBoundary_of_isClosing hclosing]
  calc splitFrom mode offset opened false piece (partner closing :: (inner ++ [closing]) ++ rest)
      = splitFrom mode offset opened false piece
          (partner closing :: (inner ++ closing :: rest)) := by simp
    _ = splitFrom mode (offset + 1) ((partner closing, offset) :: opened) false
          (partner closing :: piece) (inner ++ closing :: rest) :=
        splitFrom_taken hopen rfl (ne_backslash_of_isOpening hopening)
    _ = splitFrom mode (offset + 1 + inner.length) ((partner closing, offset) :: opened) false
          (inner.reverse ++ partner closing :: piece) (closing :: rest) :=
        hinner _ (List.cons_ne_nil _ _) _ _
    _ = splitFrom mode (offset + 1 + inner.length + 1) opened false
          (closing :: (inner.reverse ++ partner closing :: piece)) rest :=
        splitFrom_taken hclose hkeep (ne_backslash_of_isClosing hclosing)
    _ = _ := by
        simp [Nat.add_assoc, Nat.add_comm 1]

/-- A nested text is taken inside brackets. -/
theorem Nested.taken {text : List Char} (h : Nested text) (hopened : opened ≠ [])
    (rest : List Char) : Taken mode opened text rest := by
  induction h generalizing opened rest with
  | nil => exact taken_nil mode opened rest
  | @plain c text hc _ ih =>
      exact (taken_plain hc fun h => absurd h hopened).append (ih hopened rest)
  | escaped c _ ih => exact (taken_escaped c _).append (ih hopened rest)
  | @enclosed opening closing inner text hclosing hpartner _ _ ihinner ih =>
      have hgroup : opening :: (inner ++ closing :: text) =
          opening :: (inner ++ [closing]) ++ text := by simp
      rw [hgroup]
      have htaken : Taken mode opened (opening :: (inner ++ [closing])) (text ++ rest) :=
        taken_enclosed hclosing hpartner (fun opened hopened => ihinner hopened _)
          fun h => absurd h hopened
      exact htaken.append (ih hopened rest)

/-- Behind a nested text, the same boundaries are outside brackets. -/
theorem Uncut.behind (first : List Char) {second : List Char}
    (h : Uncut mode [] false (first ++ second)) (hfirst : Nested first) :
    Uncut mode [] false second := by
  obtain ⟨hopen, hescaped⟩ := hfirst.closed []
  rintro before c after rfl hbefore hbefore'
  refine h (first ++ before) c after (List.append_assoc ..).symm ?_ ?_
  · rwa [openAfter_append, hopen, hescaped]
  · rwa [escapedAfter_append, hescaped]

/-- A nested text without a comma outside brackets is taken as an argument. -/
theorem Nested.taken_argument {text : List Char} (h : Nested text)
    (huncut : Uncut .arguments [] false text) (rest : List Char) :
    Taken .arguments [] text rest := by
  induction h generalizing rest with
  | nil => exact taken_nil _ _ rest
  | @plain c text hc _ ih =>
      have hcut : Mode.isBoundary .arguments c = false := huncut [] c text rfl rfl rfl
      have hnested : Nested [c] := .plain hc .nil
      exact (taken_plain hc fun _ => hcut).append
        (ih (huncut.behind [c] hnested) rest)
  | @escaped c text _ ih =>
      exact (taken_escaped c _).append
        (ih (huncut.behind ['\\', c] (.escaped c .nil)) rest)
  | @enclosed opening closing inner text hclosing hpartner hinner _ _ ih =>
      have hgroup : opening :: (inner ++ closing :: text) =
          opening :: (inner ++ [closing]) ++ text := by simp
      rw [hgroup] at huncut ⊢
      have htaken : Taken .arguments [] (opening :: (inner ++ [closing])) (text ++ rest) :=
        taken_enclosed hclosing hpartner (fun opened hopened => hinner.taken hopened _) nofun
      exact htaken.append
        (ih (huncut.behind _ (.enclosed hclosing hpartner hinner .nil)) rest)

/-- A text that is taken to its end is one piece. -/
theorem whole_of_taken {text : List Char} (h : Taken mode [] text []) : Whole mode text := by
  have hread := h 0 []
  rwa [List.append_nil, List.append_nil] at hread

/-! ## Texts that can be read -/

/-- A text that closes the brackets `opened`, and is nested before, between and after
them. -/
inductive Closes : List Char → List Char → Prop where
  | nil {text : List Char} (h : Nested text) : Closes [] text
  | cons {opening closing : Char} {opened inner rest : List Char} (hinner : Nested inner)
      (hclosing : isClosing closing = true) (hpartner : opening = partner closing)
      (hrest : Closes opened rest) : Closes (opening :: opened) (inner ++ closing :: rest)

theorem Closes.prepend {opened first text : List Char} (hfirst : Nested first)
    (h : Closes opened text) : Closes opened (first ++ text) := by
  cases h with
  | nil h => exact .nil (hfirst.append h)
  | cons hinner hclosing hpartner hrest =>
      rw [← List.append_assoc]
      exact .cons (hfirst.append hinner) hclosing hpartner hrest

theorem Closes.enclose {opened text : List Char} {c : Char} (h : Closes (c :: opened) text) :
    Closes opened (c :: text) := by
  cases h with
  | @cons _ closing _ inner rest hinner hclosing hpartner hrest =>
      have hgroup : Nested (c :: (inner ++ [closing])) := .enclosed hclosing hpartner hinner .nil
      simpa using hrest.prepend hgroup

/-- What follows a character that can be read can be read. -/
theorem splitFrom_rest {escaped : Bool} {c : Char} {cs : List Char} {pieces : List String}
    (h : splitFrom mode offset opened escaped piece (c :: cs) = .ok pieces) :
    ∃ outer piece' pieces', step mode offset opened escaped c cs = .ok outer ∧
      splitFrom mode (offset + 1) outer (!escaped && c = '\\') piece' cs = .ok pieces' := by
  obtain ⟨outer, hstep⟩ := step_of_splitFrom h
  cases hcut : cutsAt mode outer escaped c with
  | true =>
      obtain ⟨rfl, -, hc⟩ := cutsAt_eq_true hcut
      rw [splitFrom_cut hstep hcut] at h
      obtain ⟨rest, hrest, -⟩ := map_eq_ok h
      exact ⟨outer, [], rest, hstep, by simpa [(plain_of_isBoundary hc).backslash] using hrest⟩
  | false =>
      rw [splitFrom_keep hstep hcut] at h
      exact ⟨outer, c :: piece, pieces, hstep, h⟩

/-- What can be read behind open brackets closes them. -/
theorem closes_of_splitFrom {escaped : Bool} {cs : List Char} {pieces : List String}
    (h : splitFrom mode offset opened escaped piece cs = .ok pieces)
    (hescaped : escapedAfter escaped cs = false) :
    Closes (kinds opened) ((if escaped then ['\\'] else []) ++ cs) := by
  induction cs generalizing offset opened escaped piece pieces with
  | nil =>
      obtain ⟨rfl, -⟩ := opened_eq_nil h
      change escaped = false at hescaped
      subst hescaped
      exact .nil .nil
  | cons c cs ih =>
      obtain ⟨outer, piece', pieces', hstep, hrest⟩ := splitFrom_rest h
      have hread := ih hrest hescaped
      cases escaped with
      | true =>
          cases hstep
          have hescape : Nested ['\\', c] := .escaped c .nil
          simpa using Closes.prepend hescape hread
      | false =>
          obtain ⟨hc, rfl⟩ | ⟨hc, ⟨place, rfl⟩, -⟩ | ⟨hopening, hclosing, rfl⟩ :=
            bracketsAfter_eq_ok hstep
          · have hplain := ne_backslash_of_isOpening hc
            exact Closes.enclose (by simpa [hplain] using hread)
          · have hplain := ne_backslash_of_isClosing hc
            exact Closes.cons .nil hc rfl (by simpa [hplain] using hread)
          · by_cases hc : c = '\\'
            · simpa [hc] using hread
            · have hnested : Nested [c] := .plain ⟨hopening, hclosing, hc⟩ .nil
              have hrest : Closes (kinds outer) cs := by simpa [hc] using hread
              simpa using hrest.prepend hnested

/-- A text that splits and does not end in a backslash is nested. -/
theorem nested_of_splitFrom {cs : List Char} {pieces : List String}
    (h : splitFrom mode 0 [] false [] cs = .ok pieces)
    (hescaped : escapedAfter false cs = false) : Nested cs := by
  cases closes_of_splitFrom h hescaped with
  | nil hnested => exact hnested

/-- What stands before a piece of a text is nested. -/
theorem Cuts.exists_place {text part : List Char} {raw : List (List Char)}
    (h : Cuts mode text raw) (hpart : part ∈ raw) :
    ∃ before after, text = before ++ (part ++ after) ∧ Nested before := by
  induction h with
  | @last text h =>
      cases List.mem_singleton.mp hpart
      exact ⟨[], [], by simp, .nil⟩
  | @cut first rest sep raw h hescaped hsep _ ih =>
      rcases List.mem_cons.mp hpart with rfl | hpart
      · exact ⟨[], sep :: rest, rfl, .nil⟩
      · obtain ⟨before, after, rfl, hbefore⟩ := ih hpart
        refine ⟨first ++ sep :: before, after, by simp, ?_⟩
        exact (nested_of_splitFrom h hescaped).append (.plain (plain_of_isBoundary hsep) hbefore)

end Parkour.Language.Sequence
