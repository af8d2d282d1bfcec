import Parkour.Proofs.Outcome
import Parkour.Proofs.Sequence.Brackets

/-!
# Where a text is cut

A text splits exactly if it consists of pieces that are read without a cut, with a
boundary between each two of them. So the pieces of a text do not depend on what stands
behind the next boundary.
-/

namespace Parkour.Language.Sequence

variable {mode : Mode} {offset offset' : Nat} {opened opened' outer : List Opened}
  {escaped : Bool} {piece : List Char} {c sep : Char} {pieces : List String}

/-- The open brackets without their offsets. -/
abbrev kinds (opened : List Opened) : List Char := opened.map Prod.fst

/-! ## One character -/

theorem bracketsAfter_plain (hopening : isOpening c = false) (hclosing : isClosing c = false)
    (rest : List Char) : bracketsAfter mode offset opened c rest = .ok opened := by
  simp [bracketsAfter, hopening, hclosing]

theorem bracketsAfter_opening (h : isOpening c = true) (rest : List Char) :
    bracketsAfter mode offset opened c rest = .ok ((c, offset) :: opened) := by
  simp [bracketsAfter, h]

/-- A bracket closes its partner, unless something clings to the end of a call. -/
theorem bracketsAfter_closing {place : Nat} {rest : List Char} (h : isClosing c = true)
    (hrest : opened = [] → mode = .calls → isSeparated rest = true) :
    bracketsAfter mode offset ((partner c, place) :: opened) c rest = .ok opened := by
  simp only [bracketsAfter, isOpening_of_isClosing h, h, closeBracket, Bool.false_eq_true,
    if_false, if_true]
  split
  · next hbad =>
    simp only [Bool.and_eq_true, List.isEmpty_iff, decide_eq_true_eq, Bool.not_eq_true'] at hbad
    rw [hrest hbad.1.1 hbad.1.2] at hbad
    cases hbad.2
  · rfl

theorem closeBracket_eq_ok (h : closeBracket c opened = .ok outer) :
    ∃ place, opened = (partner c, place) :: outer := by
  unfold closeBracket at h
  split at h
  · cases h
  · next bracket place rest =>
    split at h
    · next hpartner =>
      cases h
      exact ⟨place, by rw [hpartner]⟩
    · cases h

/-- What can be read, with brackets that are open or without. -/
theorem bracketsAfter_eq_ok {rest : List Char}
    (h : bracketsAfter mode offset opened c rest = .ok outer) :
    (isOpening c = true ∧ outer = (c, offset) :: opened) ∨
      (isClosing c = true ∧ (∃ place, opened = (partner c, place) :: outer) ∧
        (outer = [] → mode = .calls → isSeparated rest = true)) ∨
      (isOpening c = false ∧ isClosing c = false ∧ outer = opened) := by
  unfold bracketsAfter at h
  split at h
  · next hopening =>
    cases h
    exact .inl ⟨hopening, rfl⟩
  · next hopening =>
    split at h
    · next hclosing =>
      split at h
      · cases h
      · next inner hinner =>
        split at h
        · cases h
        · next hgood =>
          cases h
          refine .inr (.inl ⟨hclosing, closeBracket_eq_ok hinner, ?_⟩)
          rintro rfl rfl
          simpa using hgood
    · next hclosing =>
      cases h
      exact .inr (.inr ⟨by simpa using hopening, by simpa using hclosing, rfl⟩)

theorem kinds_of_bracketsAfter {rest : List Char}
    (h : bracketsAfter mode offset opened c rest = .ok outer) :
    kinds outer = behind (kinds opened) c := by
  obtain ⟨hc, rfl⟩ | ⟨hc, ⟨place, rfl⟩, -⟩ | ⟨hopening, hclosing, rfl⟩ := bracketsAfter_eq_ok h
  · rw [behind_opening hc]
    rfl
  · rw [behind_closing hc]
    rfl
  · rw [behind_plain hopening hclosing]

/-- Whether a character may stand somewhere does not depend on offsets. -/
theorem bracketsAfter_of_kinds {rest : List Char} (hkinds : kinds opened' = kinds opened)
    (h : bracketsAfter mode offset opened c rest = .ok outer) :
    ∃ outer', bracketsAfter mode offset' opened' c rest = .ok outer' ∧
      kinds outer' = kinds outer := by
  obtain ⟨hc, rfl⟩ | ⟨hc, ⟨place, rfl⟩, hrest⟩ | ⟨hopening, hclosing, rfl⟩ :=
    bracketsAfter_eq_ok h
  · exact ⟨_, bracketsAfter_opening hc rest, by simp [hkinds]⟩
  · obtain ⟨⟨bracket, place'⟩, outer', rfl, hbracket, houter⟩ := List.map_eq_cons_iff.mp hkinds
    cases hbracket
    refine ⟨outer', bracketsAfter_closing hc fun hempty => hrest ?_, houter⟩
    simpa [hempty] using houter.symm
  · exact ⟨opened', bracketsAfter_plain hopening hclosing rest, hkinds⟩

/-- What is read before a boundary is read the same at the end of the text. -/
theorem bracketsAfter_before (hsep : mode.isBoundary sep = true) (first second : List Char) :
    bracketsAfter mode offset opened c (first ++ sep :: second) =
      bracketsAfter mode offset opened c first := by
  have hseparated : mode = .calls →
      isSeparated (first ++ sep :: second) = isSeparated first := by
    rintro rfl
    cases first with
    | nil =>
        change Text.isBlank sep = true at hsep
        simp [isSeparated, hsep]
    | cons d first => rfl
  unfold bracketsAfter
  cases mode with
  | calls => rw [hseparated rfl]
  | arguments => simp

/-- The brackets that are open behind a character, which may be protected. -/
def step (mode : Mode) (offset : Nat) (opened : List Opened) (escaped : Bool) (c : Char)
    (rest : List Char) : Except (Malformed × Nat) (List Opened) :=
  if escaped then .ok opened else bracketsAfter mode offset opened c rest

/-- Whether a character ends a piece. -/
def cutsAt (mode : Mode) (opened : List Opened) (escaped : Bool) (c : Char) : Bool :=
  !escaped && opened.isEmpty && mode.isBoundary c

theorem kinds_of_step {rest : List Char}
    (h : step mode offset opened escaped c rest = .ok outer) :
    kinds outer = if escaped then kinds opened else behind (kinds opened) c := by
  unfold step at h
  split at h
  · next hescaped =>
    cases h
    rw [if_pos hescaped]
  · next hescaped => rw [if_neg hescaped, kinds_of_bracketsAfter h]

theorem step_of_kinds {rest : List Char} (hkinds : kinds opened' = kinds opened)
    (h : step mode offset opened escaped c rest = .ok outer) :
    ∃ outer', step mode offset' opened' escaped c rest = .ok outer' ∧
      kinds outer' = kinds outer := by
  cases escaped with
  | true =>
      cases h
      exact ⟨opened', rfl, hkinds⟩
  | false => exact bracketsAfter_of_kinds hkinds h

theorem step_before (hsep : mode.isBoundary sep = true) (first second : List Char) :
    step mode offset opened escaped c (first ++ sep :: second) =
      step mode offset opened escaped c first := by
  unfold step
  rw [bracketsAfter_before hsep]

theorem cutsAt_of_kinds (hkinds : kinds opened' = kinds opened) :
    cutsAt mode opened' escaped c = cutsAt mode opened escaped c := by
  have hempty : opened'.isEmpty = opened.isEmpty := by
    simpa using congrArg List.isEmpty hkinds
  unfold cutsAt
  rw [hempty]

/-! ## Reading on -/

theorem splitFrom_cons (piece cs : List Char) :
    splitFrom mode offset opened escaped piece (c :: cs) =
      match step mode offset opened escaped c cs with
      | .error (cause, behind) => .error (cause, offset + behind)
      | .ok outer =>
          if cutsAt mode outer escaped c then
            (splitFrom mode (offset + 1) outer false [] cs).map (mode.addPiece piece)
          else splitFrom mode (offset + 1) outer (!escaped && c = '\\') (c :: piece) cs := by
  rw [splitFrom]
  cases escaped with
  | true => simp [step, cutsAt]
  | false =>
      by_cases hc : c = '\\'
      · subst hc
        have hboundary : mode.isBoundary '\\' = false := by cases mode <;> rfl
        have hplain : bracketsAfter mode offset opened '\\' cs = .ok opened :=
          bracketsAfter_plain rfl rfl cs
        simp [step, cutsAt, hplain, hboundary]
      · cases hbrackets : bracketsAfter mode offset opened c cs with
        | error fault => simp [step, hc, hbrackets]
        | ok outer => simp [step, cutsAt, hc, hbrackets]

theorem splitFrom_cut {cs : List Char} (hstep : step mode offset opened escaped c cs = .ok outer)
    (hcut : cutsAt mode outer escaped c = true) (piece : List Char) :
    splitFrom mode offset opened escaped piece (c :: cs) =
      (splitFrom mode (offset + 1) outer false [] cs).map (mode.addPiece piece) := by
  rw [splitFrom_cons, hstep]
  exact if_pos hcut

theorem splitFrom_keep {cs : List Char} (hstep : step mode offset opened escaped c cs = .ok outer)
    (hcut : cutsAt mode outer escaped c = false) (piece : List Char) :
    splitFrom mode offset opened escaped piece (c :: cs) =
      splitFrom mode (offset + 1) outer (!escaped && c = '\\') (c :: piece) cs := by
  rw [splitFrom_cons, hstep]
  exact if_neg (by simp [hcut])

theorem step_of_splitFrom {cs : List Char}
    (h : splitFrom mode offset opened escaped piece (c :: cs) = .ok pieces) :
    ∃ outer, step mode offset opened escaped c cs = .ok outer := by
  rw [splitFrom_cons] at h
  split at h
  · cases h
  · next outer houter => exact ⟨outer, houter⟩

theorem opened_eq_nil (h : splitFrom mode offset opened escaped piece [] = .ok pieces) :
    opened = [] ∧ pieces = mode.addPiece piece [] := by
  cases opened with
  | nil =>
      cases h
      exact ⟨rfl, rfl⟩
  | cons bracket opened => cases h

/-- The pieces do not depend on offsets. -/
theorem splitFrom_of_kinds {cs : List Char} (hkinds : kinds opened' = kinds opened)
    (h : splitFrom mode offset opened escaped piece cs = .ok pieces) :
    splitFrom mode offset' opened' escaped piece cs = .ok pieces := by
  induction cs generalizing offset offset' opened opened' escaped piece pieces with
  | nil =>
      obtain ⟨rfl, rfl⟩ := opened_eq_nil h
      rw [List.map_eq_nil_iff.mp hkinds]
      rfl
  | cons c cs ih =>
      obtain ⟨outer, hstep⟩ := step_of_splitFrom h
      obtain ⟨outer', hstep', houter⟩ := step_of_kinds hkinds hstep
      cases hcut : cutsAt mode outer escaped c with
      | true =>
          rw [splitFrom_cut hstep hcut] at h
          rw [splitFrom_cut hstep' (by rwa [cutsAt_of_kinds houter])]
          obtain ⟨rest, hrest, rfl⟩ := map_eq_ok h
          rw [ih houter hrest]
          rfl
      | false =>
          rw [splitFrom_keep hstep hcut] at h
          rw [splitFrom_keep hstep' (by rwa [cutsAt_of_kinds houter])]
          exact ih houter h

/-! ## Pieces -/

theorem addPiece_eq_append (mode : Mode) (piece : List Char) (pieces : List String) :
    mode.addPiece piece pieces = mode.addPiece piece [] ++ pieces := by
  unfold Mode.addPiece
  split <;> rfl

/-- A text that is read as one piece, with no boundary outside brackets. -/
def Whole (mode : Mode) (text : List Char) : Prop :=
  splitFrom mode 0 [] false [] text = .ok (mode.addPiece text.reverse [])

/-- The texts between the boundaries at which a text is cut. -/
inductive Cuts (mode : Mode) : List Char → List (List Char) → Prop where
  | last {text : List Char} (h : Whole mode text) : Cuts mode text [text]
  | cut {text rest : List Char} {sep : Char} {raw : List (List Char)} (h : Whole mode text)
      (hescaped : escapedAfter false text = false) (hsep : mode.isBoundary sep = true)
      (hrest : Cuts mode rest raw) : Cuts mode (text ++ sep :: rest) (text :: raw)

/-- The pieces among the texts between two cuts: all of them, or those that are not
empty. -/
def Mode.kept (mode : Mode) (raw : List (List Char)) : List String :=
  (raw.filter fun text => mode = .arguments || !text.isEmpty).map String.ofList

theorem kept_cons (mode : Mode) (text : List Char) (raw : List (List Char)) :
    mode.kept (text :: raw) = mode.addPiece text.reverse (mode.kept raw) := by
  cases mode <;> cases text <;> simp [Mode.kept, Mode.addPiece]

theorem uncut_nil (mode : Mode) (opened : List Char) (escaped : Bool) :
    Uncut mode opened escaped [] := by
  intro before c after h
  simp at h

theorem cutsAt_eq_true (h : cutsAt mode opened escaped c = true) :
    escaped = false ∧ opened = [] ∧ mode.isBoundary c = true := by
  simpa [cutsAt, and_assoc] using h

/-- A boundary leaves the brackets as they are. -/
theorem kinds_of_step_boundary {rest : List Char}
    (h : step mode offset opened false c rest = .ok outer) (hc : mode.isBoundary c = true) :
    kinds outer = kinds opened := by
  have hplain := plain_of_isBoundary hc
  rw [kinds_of_step h, if_neg Bool.false_ne_true, behind_plain hplain.opening hplain.closing]

theorem uncut_cons {text rest : List Char}
    (hstep : step mode offset opened escaped c rest = .ok outer)
    (hcut : cutsAt mode outer escaped c = false)
    (h : Uncut mode (kinds outer) (!escaped && c = '\\') text) :
    Uncut mode (kinds opened) escaped (c :: text) := by
  intro before d after htext hopen hescaped
  cases before with
  | nil =>
      obtain ⟨rfl, rfl⟩ := List.cons.inj htext
      refine Bool.eq_false_iff.mpr fun hc => ?_
      change escaped = false at hescaped
      subst hescaped
      have houter : outer = [] :=
        List.map_eq_nil_iff.mp ((kinds_of_step_boundary hstep hc).trans hopen)
      simp [cutsAt, houter, hc] at hcut
  | cons d' before =>
      obtain ⟨rfl, rfl⟩ := List.cons.inj htext
      rw [openAfter, ← kinds_of_step hstep] at hopen
      exact h before d after rfl hopen hescaped

/-- A text is read without a cut, or it is cut at a first boundary. What stands before
that boundary would be read alike without what stands behind it. -/
theorem splitFrom_first {cs : List Char}
    (h : splitFrom mode offset opened escaped piece cs = .ok pieces) :
    (pieces = mode.addPiece (cs.reverse ++ piece) [] ∧ Uncut mode (kinds opened) escaped cs) ∨
      ∃ first sep second rest, cs = first ++ sep :: second ∧ mode.isBoundary sep = true ∧
        escapedAfter escaped first = false ∧ Uncut mode (kinds opened) escaped first ∧
        splitFrom mode offset opened escaped piece first =
          .ok (mode.addPiece (first.reverse ++ piece) []) ∧
        splitFrom mode 0 [] false [] second = .ok rest ∧
        pieces = mode.addPiece (first.reverse ++ piece) rest := by
  induction cs generalizing offset opened escaped piece with
  | nil => exact .inl ⟨(opened_eq_nil h).2, uncut_nil _ _ _⟩
  | cons c cs ih =>
      obtain ⟨outer, hstep⟩ := step_of_splitFrom h
      cases hcut : cutsAt mode outer escaped c with
      | true =>
          rw [splitFrom_cut hstep hcut] at h
          obtain ⟨rest, hrest, rfl⟩ := map_eq_ok h
          obtain ⟨rfl, rfl, hc⟩ := cutsAt_eq_true hcut
          have hopened : opened = [] :=
            List.map_eq_nil_iff.mp (kinds_of_step_boundary hstep hc).symm
          subst hopened
          exact .inr ⟨[], c, cs, rest, rfl, hc, rfl, uncut_nil _ _ _, rfl,
            splitFrom_of_kinds rfl hrest, rfl⟩
      | false =>
          rw [splitFrom_keep hstep hcut] at h
          rcases ih h with ⟨rfl, huncut⟩ | ⟨first, sep, second, rest, rfl, hsep, hescaped,
            huncut, hfirst, hrest, rfl⟩
          · refine .inl ⟨?_, uncut_cons hstep hcut huncut⟩
            rw [List.reverse_cons, List.append_assoc, List.singleton_append]
          · have hread : (c :: first).reverse ++ piece = first.reverse ++ c :: piece := by
              rw [List.reverse_cons, List.append_assoc, List.singleton_append]
            rw [step_before hsep] at hstep
            refine .inr ⟨c :: first, sep, second, rest, rfl, hsep, hescaped,
              uncut_cons hstep hcut huncut, ?_, hrest, ?_⟩
            · rw [splitFrom_keep hstep hcut, hread, hfirst]
            · rw [hread]

/-- Before a boundary, a text is read as if it ended there. -/
theorem splitFrom_seam {first second : List Char} {rest : List String}
    (h : splitFrom mode offset opened escaped piece first = .ok pieces)
    (hescaped : escapedAfter escaped first = false) (hsep : mode.isBoundary sep = true)
    (hrest : splitFrom mode 0 [] false [] second = .ok rest) :
    splitFrom mode offset opened escaped piece (first ++ sep :: second) =
      .ok (pieces ++ rest) := by
  induction first generalizing offset opened escaped piece pieces with
  | nil =>
      obtain ⟨rfl, rfl⟩ := opened_eq_nil h
      change escaped = false at hescaped
      subst hescaped
      have hplain := plain_of_isBoundary hsep
      have hstep : step mode offset [] false sep second = .ok [] := by
        rw [step, if_neg Bool.false_ne_true, bracketsAfter_plain hplain.opening hplain.closing]
      rw [List.nil_append, splitFrom_cut hstep (by simp [cutsAt, hsep]),
        splitFrom_of_kinds rfl hrest, Except.map, addPiece_eq_append]
  | cons c first ih =>
      obtain ⟨outer, hstep⟩ := step_of_splitFrom h
      have hstep' := hstep
      rw [← step_before hsep first second] at hstep
      cases hcut : cutsAt mode outer escaped c with
      | true =>
          obtain ⟨rfl, rfl, hc⟩ := cutsAt_eq_true hcut
          rw [splitFrom_cut hstep' hcut] at h
          obtain ⟨later, hlater, rfl⟩ := map_eq_ok h
          have hplain : escapedAfter false first = false := by
            simpa [escapedAfter, (plain_of_isBoundary hc).backslash] using hescaped
          rw [List.cons_append, splitFrom_cut hstep hcut, ih hlater hplain, Except.map,
            addPiece_eq_append mode piece later, addPiece_eq_append, List.append_assoc]
      | false =>
          rw [splitFrom_keep hstep' hcut] at h
          rw [List.cons_append, splitFrom_keep hstep hcut]
          exact ih h hescaped

theorem Cuts.splitFrom_eq {text : List Char} {raw : List (List Char)} (h : Cuts mode text raw) :
    splitFrom mode 0 [] false [] text = .ok (mode.kept raw) := by
  induction h with
  | last h =>
      rw [kept_cons]
      exact h
  | cut h hescaped hsep _ ih =>
      rw [kept_cons, addPiece_eq_append]
      exact splitFrom_seam h hescaped hsep ih

/-- A text that splits is cut into pieces without boundaries outside brackets. -/
theorem exists_cuts {text : List Char}
    (h : splitFrom mode 0 [] false [] text = .ok pieces) :
    ∃ raw, Cuts mode text raw ∧ (∀ part ∈ raw, Uncut mode [] false part) ∧
      pieces = mode.kept raw := by
  induction hlength : text.length using Nat.strongRecOn generalizing text pieces with
  | ind n ih =>
    rcases splitFrom_first h with ⟨rfl, huncut⟩ | ⟨first, sep, second, rest, rfl, hsep,
      hescaped, huncut, hfirst, hrest, rfl⟩
    · rw [List.append_nil] at h ⊢
      refine ⟨[text], .last h, ?_, (kept_cons mode text []).symm⟩
      rintro part hpart
      rw [List.mem_singleton.mp hpart]
      exact huncut
    · rw [List.append_nil] at hfirst ⊢
      have hshort : second.length < n := by
        rw [List.length_append, List.length_cons] at hlength
        omega
      obtain ⟨raw, hcuts, hothers, rfl⟩ := ih second.length hshort hrest rfl
      refine ⟨first :: raw, .cut hfirst hescaped hsep hcuts, ?_, (kept_cons ..).symm⟩
      exact List.forall_mem_cons.mpr ⟨huncut, hothers⟩

theorem split_eq_ok_iff {stack : List String} {text : String} :
    split mode stack text = .ok pieces ↔
      splitFrom mode 0 [] false [] text.toList = .ok pieces := by
  unfold split
  split
  · next found hfound => simp [hfound]
  · next cause offset hfault => simp [hfault]

end Parkour.Language.Sequence
