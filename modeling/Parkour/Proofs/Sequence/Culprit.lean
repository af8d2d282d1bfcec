import Parkour.Proofs.Sequence.Balance

/-!
# Where splitting fails

A text splits exactly if its brackets are balanced and nothing clings to the end of a call. If
it does not, the fault stands at the character that breaks one of these rules first, or at the
innermost bracket that is left open.
-/

namespace Parkour.Language.Sequence

variable {mode : Mode} {text before cs : List Char} {c : Char} {o : Nat}
  {opened outer : List Opened} {cause : Malformed}

/-! ## The rules -/

/-- What may stand right behind a call. -/
def Separator (d : Char) : Prop :=
  Text.isBlank d = true ∨ isOpening d = true ∨ isClosing d = true

/-- The closing bracket at the offset `o` does not match the innermost one that is open before
it, or none is open there. -/
def Mismatched (text : List Char) (o : Nat) : Prop :=
  ∃ c, Bare text o c ∧ isClosing c = true ∧
    ¬∃ place, Innermost (text.take o) place (partner c)

/-- The closing bracket `c` at the offset `o` leaves nothing open. -/
structure Concludes (text : List Char) (o : Nat) (c : Char) : Prop where
  bare : Bare text o c
  closing : isClosing c = true
  balanced : Balanced (brackets false (text.take (o + 1)))

/-- The character at the offset `o` clings to a closing bracket that leaves nothing open. -/
def Clinging (text : List Char) (o : Nat) : Prop :=
  ∃ i c d, o = i + 1 ∧ Concludes text i c ∧ text[o]? = some d ∧ ¬Separator d

/-- Behind a closing bracket that leaves nothing open, the text ends or a separator stands. -/
def Separated (text : List Char) : Prop :=
  ∀ o c d, Concludes text o c → text[o + 1]? = some d → Separator d

/-- The character at the offset `o` breaks a rule. -/
def Violation (mode : Mode) (text : List Char) (o : Nat) : Prop :=
  Mismatched text o ∨ mode = .calls ∧ Clinging text o

/-- The character at the offset `o` is the first that breaks a rule, or the innermost bracket
that is left open where no rule is broken. -/
def Culprit (mode : Mode) (text : List Char) (o : Nat) : Prop :=
  (Violation mode text o ∧ ∀ o', Violation mode text o' → o ≤ o') ∨
    (∀ o', ¬Violation mode text o') ∧ ∃ c, Innermost text o c

theorem Culprit.lt_length (h : Culprit mode text o) : o < text.length := by
  rcases h with ⟨⟨_, hbare, -⟩ | ⟨-, _, _, _, -, -, hd, -⟩, -⟩ | ⟨-, _, hinnermost⟩
  · exact (List.getElem?_eq_some_iff.mp hbare.1).1
  · exact (List.getElem?_eq_some_iff.mp hd).1
  · exact (List.getElem?_eq_some_iff.mp hinnermost.bare.1).1

theorem mismatched_length : Mismatched (before ++ c :: cs) before.length ↔
    escapedAfter false before = false ∧ isClosing c = true ∧
      ¬∃ place, Innermost before place (partner c) := by
  simp only [Mismatched, bare_length, List.take_left]
  constructor
  · rintro ⟨_, ⟨rfl, hescaped⟩, hrest⟩
    exact ⟨hescaped, hrest⟩
  · rintro ⟨hescaped, hrest⟩
    exact ⟨c, ⟨rfl, hescaped⟩, hrest⟩

theorem concludes_length {d : Char} : Concludes (before ++ c :: cs) before.length d ↔
    c = d ∧ escapedAfter false before = false ∧ isClosing c = true ∧
      Balanced (brackets false (before ++ [c])) := by
  have htake : (before ++ c :: cs).take (before.length + 1) = before ++ [c] := by
    rw [List.take_length_add_append]
    rfl
  constructor
  · rintro ⟨hbare, hclosing, hbalanced⟩
    obtain ⟨rfl, hescaped⟩ := bare_length.mp hbare
    exact ⟨rfl, hescaped, hclosing, htake ▸ hbalanced⟩
  · rintro ⟨rfl, hescaped, hclosing, hbalanced⟩
    exact ⟨bare_length.mpr ⟨rfl, hescaped⟩, hclosing, htake.symm ▸ hbalanced⟩

theorem clinging_length : Clinging (before ++ c :: cs) (before.length + 1) ↔
    escapedAfter false before = false ∧ isClosing c = true ∧
      Balanced (brackets false (before ++ [c])) ∧ ∃ d ∈ cs.head?, ¬Separator d := by
  have hnext : (before ++ c :: cs)[before.length + 1]? = cs.head? := by
    rw [List.getElem?_append_right (Nat.le_add_right ..), Nat.add_sub_cancel_left,
      List.getElem?_cons_succ, List.head?_eq_getElem?]
  constructor
  · rintro ⟨i, _, d, hi, hconcludes, hd, hsep⟩
    cases Nat.succ.inj hi
    obtain ⟨rfl, hescaped, hclosing, hbalanced⟩ := concludes_length.mp hconcludes
    exact ⟨hescaped, hclosing, hbalanced, d, hnext ▸ hd, hsep⟩
  · rintro ⟨hescaped, hclosing, hbalanced, d, hd, hsep⟩
    refine ⟨before.length, c, d, rfl, ?_, hnext.trans hd, hsep⟩
    exact concludes_length.mpr ⟨rfl, hescaped, hclosing, hbalanced⟩

/-- Every rule is kept in a text with balanced brackets whose calls are separated. -/
theorem not_violation (hbalanced : Balanced (brackets false text))
    (hseparated : mode = .calls → Separated text) : ¬Violation mode text o := by
  rintro (⟨c, hbare, hclosing, hnone⟩ | ⟨hmode, i, c, d, rfl, hconcludes, hd, hsep⟩)
  · exact hnone (hbare.exists_innermost hbalanced hclosing)
  · exact hsep (hseparated hmode i c d hconcludes hd)

theorem not_culprit (hbalanced : Balanced (brackets false text))
    (hseparated : mode = .calls → Separated text) : ¬Culprit mode text o := by
  rintro (⟨hviolation, -⟩ | ⟨-, c, hinnermost⟩)
  · exact not_violation hbalanced hseparated hviolation
  · have hopen := hinnermost.openAfter
    rw [openAfter_of_balanced hbalanced] at hopen
    cases hopen

/-! ## One character -/

theorem isSeparated_eq_true : isSeparated cs = true ↔ ∀ d ∈ cs.head?, Separator d := by
  cases cs with
  | nil => simp [isSeparated]
  | cons d cs => simp [isSeparated, Separator, or_assoc]

/-- What cannot be read is a closing bracket that does not match, or one that ends a call to
which something clings. -/
theorem bracketsAfter_eq_error {offset behind : Nat}
    (h : bracketsAfter mode offset opened c cs = .error (cause, behind)) :
    isClosing c = true ∧
      ((behind = 0 ∧ ∀ place outer, opened ≠ (partner c, place) :: outer) ∨
        (behind = 1 ∧ mode = .calls ∧ (∃ place, opened = [(partner c, place)]) ∧
          ∃ d ∈ cs.head?, ¬Separator d)) := by
  unfold bracketsAfter at h
  split at h
  · cases h
  · split at h
    · next hclosing =>
      refine ⟨hclosing, ?_⟩
      split at h
      · next hclose =>
        cases h
        refine .inl ⟨rfl, ?_⟩
        rintro place outer rfl
        simp [closeBracket] at hclose
      · next outer hclose =>
        split at h
        · next hcling =>
          cases h
          obtain ⟨place, rfl⟩ := closeBracket_eq_ok hclose
          simp only [Bool.and_eq_true, List.isEmpty_iff, decide_eq_true_eq, Bool.not_eq_true',
            ← Bool.not_eq_true, isSeparated_eq_true] at hcling
          obtain ⟨⟨rfl, hmode⟩, hsep⟩ := hcling
          push Not at hsep
          exact .inr ⟨rfl, hmode, ⟨place, rfl⟩, hsep⟩
        · cases h
    · cases h

theorem step_eq_error {offset behind : Nat} {escaped : Bool}
    (h : step mode offset opened escaped c cs = .error (cause, behind)) :
    escaped = false ∧ bracketsAfter mode offset opened c cs = .error (cause, behind) := by
  cases escaped with
  | true => cases h
  | false => exact ⟨rfl, h⟩

theorem step_closing {offset : Nat} (hc : isClosing c = true)
    (h : step mode offset opened false c cs = .ok outer) :
    (∃ place, opened = (partner c, place) :: outer) ∧
      (outer = [] → mode = .calls → isSeparated cs = true) := by
  obtain ⟨hopening, -⟩ | ⟨-, hread⟩ | ⟨-, hplain, -⟩ := bracketsAfter_eq_ok h
  · rw [isOpening_of_isClosing hc] at hopening
    cases hopening
  · exact hread
  · rw [hplain] at hc
    cases hc

/-- A character that can be read leaves open what the pass goes on with. -/
theorem Leaves.read (h : Leaves before opened)
    (hstep : step mode before.length opened (escapedAfter false before) c cs = .ok outer) :
    Leaves (before ++ [c]) outer := by
  cases hescaped : escapedAfter false before with
  | true =>
      rw [hescaped] at hstep
      cases hstep
      refine h.append ?_
      rw [hescaped]
      exact .nil
  | false =>
      rw [hescaped] at hstep
      obtain ⟨hc, rfl⟩ | ⟨hc, ⟨place, rfl⟩, -⟩ | ⟨hopening, hclosing, rfl⟩ :=
        bracketsAfter_eq_ok hstep
      · exact h.push hescaped hc
      · exact h.pop hescaped hc
      · refine h.append ?_
        rw [hescaped]
        simp [brackets, hopening, hclosing, Balanced.nil]

/-! ## The pass over a text -/

/-- The pass over a text has come to `cs` with the brackets `opened`, and has met no character
that breaks a rule. The one in front of `cs` is looked at together with the bracket before it. -/
structure Reaches (mode : Mode) (before cs : List Char) (opened : List Opened) : Prop where
  leaves : Leaves before opened
  matched : ∀ o, Mismatched (before ++ cs) o → before.length ≤ o
  separated : mode = .calls → ∀ o, Clinging (before ++ cs) o → before.length < o

theorem reaches_nil (mode : Mode) (cs : List Char) : Reaches mode [] cs [] where
  leaves := .none .nil
  matched _ _ := Nat.zero_le _
  separated := by
    rintro - o ⟨i, c, d, rfl, -⟩
    exact Nat.succ_pos i

namespace Reaches

/-- What breaks a rule is still to come. -/
theorem le_of_violation (h : Reaches mode before cs opened)
    (hviolation : Violation mode (before ++ cs) o) : before.length ≤ o := by
  rcases hviolation with hmismatched | ⟨hmode, hclinging⟩
  · exact h.matched o hmismatched
  · exact Nat.le_of_lt (h.separated hmode o hclinging)

/-- A text that has been read to its end breaks no rule. -/
theorem not_violation (h : Reaches mode text [] opened) : ¬Violation mode text o := by
  intro hviolation
  have hshort : o < text.length := by
    rcases hviolation with ⟨_, hbare, -⟩ | ⟨-, _, _, _, -, -, hd, -⟩
    · exact (List.getElem?_eq_some_iff.mp hbare.1).1
    · exact (List.getElem?_eq_some_iff.mp hd).1
  have hlate := h.le_of_violation (o := o) (by rwa [List.append_nil])
  exact absurd hshort (Nat.not_lt.mpr hlate)

/-- Nothing clings to a call in a sequence that has been read to its end. -/
theorem separated_all (h : Reaches mode text [] opened) (hmode : mode = .calls) :
    Separated text := by
  intro o c d hconcludes hd
  by_contra hsep
  exact h.not_violation (.inr ⟨hmode, o, c, d, rfl, hconcludes, hd, hsep⟩)

theorem advance (h : Reaches mode before (c :: cs) opened) (hleaves : Leaves (before ++ [c]) outer)
    (hmatched : ¬Mismatched (before ++ c :: cs) before.length)
    (hseparated : mode = .calls → ¬Clinging (before ++ c :: cs) (before.length + 1)) :
    Reaches mode (before ++ [c]) cs outer := by
  have hsame : before ++ [c] ++ cs = before ++ c :: cs := by
    rw [List.append_assoc, List.singleton_append]
  have hlength : (before ++ [c]).length = before.length + 1 := List.length_append
  refine ⟨hleaves, ?_, ?_⟩
  · rw [hsame, hlength]
    intro o hmismatched
    refine Nat.lt_of_le_of_ne (h.matched o hmismatched) ?_
    rintro rfl
    exact hmatched hmismatched
  · rw [hsame, hlength]
    intro hmode o hclinging
    refine Nat.lt_of_le_of_ne (h.separated hmode o hclinging) ?_
    rintro rfl
    exact hseparated hmode hclinging

/-- A character that can be read does not break a rule, nor does one behind it cling to it. -/
theorem read (h : Reaches mode before (c :: cs) opened)
    (hstep : step mode before.length opened (escapedAfter false before) c cs = .ok outer) :
    Reaches mode (before ++ [c]) cs outer := by
  have hleaves := h.leaves.read hstep
  refine h.advance hleaves ?_ ?_
  · intro hmismatched
    obtain ⟨hescaped, hclosing, hnone⟩ := mismatched_length.mp hmismatched
    rw [hescaped] at hstep
    obtain ⟨⟨place, rfl⟩, -⟩ := step_closing hclosing hstep
    exact hnone ⟨place, h.leaves.innermost⟩
  · intro hmode hclinging
    obtain ⟨hescaped, hclosing, hbalanced, d, hd, hsep⟩ := clinging_length.mp hclinging
    rw [hescaped] at hstep
    have houter : outer = [] := by
      have hopen := hleaves.openAfter
      rw [openAfter_of_balanced hbalanced] at hopen
      exact List.map_eq_nil_iff.mp hopen.symm
    obtain ⟨-, hseparated⟩ := step_closing hclosing hstep
    exact hsep (isSeparated_eq_true.mp (hseparated houter hmode) d hd)

/-- What cannot be read is the first to break a rule. -/
theorem culprit {behind : Nat} (h : Reaches mode before (c :: cs) opened)
    (hstep : step mode before.length opened (escapedAfter false before) c cs =
      .error (cause, behind)) :
    Culprit mode (before ++ c :: cs) (before.length + behind) := by
  obtain ⟨hescaped, hstep⟩ := step_eq_error hstep
  left
  obtain ⟨hclosing, ⟨rfl, hother⟩ | ⟨rfl, hmode, ⟨place, rfl⟩, hcling⟩⟩ :=
    bracketsAfter_eq_error hstep
  · refine ⟨.inl (mismatched_length.mpr ⟨hescaped, hclosing, ?_⟩), fun o' => h.le_of_violation⟩
    rintro ⟨place, hinnermost⟩
    have hopen := hinnermost.openAfter
    rw [h.leaves.openAfter] at hopen
    obtain ⟨⟨bracket, place'⟩, outer, rfl, hbracket, -⟩ := List.map_eq_cons_iff.mp hopen
    cases hbracket
    exact hother place' outer rfl
  · have hbalanced := (h.leaves.pop hescaped hclosing).balanced
    refine ⟨.inr ⟨hmode, clinging_length.mpr ⟨hescaped, hclosing, hbalanced, hcling⟩⟩, ?_⟩
    -- The bracket itself does not break a rule, for it has its partner.
    rintro o' (hmismatched | ⟨-, hclinging⟩)
    · refine Nat.lt_of_le_of_ne (h.matched o' hmismatched) ?_
      rintro rfl
      exact (mismatched_length.mp hmismatched).2.2 ⟨place, h.leaves.innermost⟩
    · exact h.separated hmode o' hclinging

end Reaches

/-- What a pass says of the text: no rule is broken and nothing is left open, or who is to
blame. -/
def Settles (mode : Mode) (text : List Char) : Except (Malformed × Nat) (List String) → Prop
  | .ok _ => Balanced (brackets false text) ∧ (mode = .calls → Separated text)
  | .error (_, o) => Culprit mode text o

theorem Settles.map {outcome : Except (Malformed × Nat) (List String)}
    (h : Settles mode text outcome) (f : List String → List String) :
    Settles mode text (outcome.map f) := by
  cases outcome <;> exact h

/-- From wherever a pass has come without a fault, it settles the whole text. -/
theorem splitFrom_settles (h : Reaches mode before cs opened) (piece : List Char) :
    Settles mode (before ++ cs)
      (splitFrom mode before.length opened (escapedAfter false before) piece cs) := by
  induction cs generalizing before opened piece with
  | nil =>
      rw [List.append_nil]
      cases opened with
      | nil => exact ⟨h.leaves.balanced, h.separated_all⟩
      | cons bracket opened => exact .inr ⟨fun _ => h.not_violation, _, h.leaves.innermost⟩
  | cons c cs ih =>
      cases hstep : step mode before.length opened (escapedAfter false before) c cs with
      | error fault =>
          rw [splitFrom_cons, hstep]
          exact h.culprit hstep
      | ok outer =>
          have hrest := ih (h.read hstep)
          rw [List.append_assoc, List.singleton_append, List.length_append,
            escapedAfter_append] at hrest
          cases hcut : cutsAt mode outer (escapedAfter false before) c with
          | true =>
              obtain ⟨hescaped, -, hc⟩ := cutsAt_eq_true hcut
              have hplain : escapedAfter false [c] = false := by
                simp [escapedAfter, (plain_of_isBoundary hc).backslash]
              rw [hescaped, hplain] at hrest
              rw [splitFrom_cut hstep hcut]
              exact (hrest []).map _
          | false =>
              rw [splitFrom_keep hstep hcut]
              exact hrest (c :: piece)

theorem split_eq_error {stack : List String} {text : String} {fault : Fault}
    (h : split mode stack text = .error fault) :
    ∃ cause o, fault = .malformed cause (some ⟨text, o, stack⟩) ∧
      splitFrom mode 0 [] false [] text.toList = .error (cause, o) := by
  unfold split at h
  split at h
  · cases h
  · next cause o hfault =>
    cases h
    exact ⟨cause, o, rfl, hfault⟩

/-- A text splits exactly if the brackets outside its escapes are balanced and, in a sequence,
each one that leaves nothing open is followed by a separator or by the end. A fault carries
the enclosing calls and the offset of a character of the text: the first closing bracket that
does not match, or the first character that clings to the end of a call, whichever comes
first, and without either the innermost bracket that is left open. -/
theorem split_settled (mode : Mode) (stack : List String) (text : String) :
    ((∃ pieces, split mode stack text = .ok pieces) ↔
        Balanced (brackets false text.toList) ∧ (mode = .calls → Separated text.toList)) ∧
      ∀ fault, split mode stack text = .error fault →
        ∃ cause o, fault = .malformed cause (some ⟨text, o, stack⟩) ∧ o < text.length ∧
          Culprit mode text.toList o := by
  have hsettles := splitFrom_settles (reaches_nil mode text.toList) []
  have hfault : ∀ fault, split mode stack text = .error fault →
      ∃ cause o, fault = .malformed cause (some ⟨text, o, stack⟩) ∧
        Culprit mode text.toList o := by
    intro fault h
    obtain ⟨cause, o, rfl, hfails⟩ := split_eq_error h
    rw [List.length_nil, escapedAfter, hfails] at hsettles
    exact ⟨cause, o, rfl, hsettles⟩
  refine ⟨⟨?_, ?_⟩, ?_⟩
  · rintro ⟨pieces, h⟩
    rw [List.length_nil, escapedAfter, split_eq_ok_iff.mp h] at hsettles
    exact hsettles
  · rintro ⟨hbalanced, hseparated⟩
    cases h : split mode stack text with
    | ok pieces => exact ⟨pieces, rfl⟩
    | error fault =>
        obtain ⟨_, o, -, hculprit⟩ := hfault fault h
        exact absurd hculprit (not_culprit hbalanced hseparated)
  · intro fault h
    obtain ⟨cause, o, rfl, hculprit⟩ := hfault fault h
    exact ⟨cause, o, rfl, hculprit.lt_length, hculprit⟩

/-- The second call clings to the first one, before a bracket without a partner. -/
theorem split_settled_clings :
    split .calls ["repeat"] "s(1)w(2)]" =
        .error (.malformed (.unseparated ')') (some ⟨"s(1)w(2)]", 4, ["repeat"]⟩)) ∧
      4 < "s(1)w(2)]".length ∧ Culprit .calls "s(1)w(2)]".toList 4 := by
  have hfails : split .calls ["repeat"] "s(1)w(2)]" =
      .error (.malformed (.unseparated ')') (some ⟨"s(1)w(2)]", 4, ["repeat"]⟩)) := rfl
  obtain ⟨_, o, hplace, hlength, hculprit⟩ :=
    (split_settled .calls ["repeat"] "s(1)w(2)]").2 _ hfails
  cases hplace
  exact ⟨hfails, hlength, hculprit⟩

end Parkour.Language.Sequence
