import Parkour.Engine.Session
import Parkour.Proofs.Binding.Faults
import Parkour.Proofs.Command.Grammar
import Parkour.Proofs.Sequence.Culprit

/-!
# Where a call goes wrong

Arguments that do not split make binding fail at a bracket. The place of this fault counts from
the start of the arguments, and it is moved onto the token of the whole call, where the same
bracket stands. The window that shows a place has a caret below the character that is meant.
-/

namespace Parkour.Language

/-! ## The bracket to blame -/

/-- The bracket that a fault of splitting names. -/
inductive Malformed.Rejects : Malformed → Char → Prop where
  | closesOther (close opened : Char) (openedAt : Nat) :
      Rejects (.closesOther close opened openedAt) close
  | unmatched (bracket : Char) : Rejects (.unmatched bracket) bracket

namespace Sequence

variable {before cs piece : List Char} {opened : List Opened} {cause : Malformed} {o : Nat}

theorem rejects_of_closeBracket {c : Char} (h : closeBracket c opened = .error cause) :
    cause.Rejects c := by
  cases opened with
  | nil =>
      cases h
      exact .unmatched c
  | cons bracket outer =>
      obtain ⟨opening, openedAt⟩ := bracket
      simp only [closeBracket] at h
      split at h
      · cases h
      · cases h
        exact .closesOther c opening openedAt

/-- Between commas, only a closing bracket can be refused where it stands. -/
theorem rejects_of_step {offset behind : Nat} {escaped : Bool} {c : Char}
    (h : step .arguments offset opened escaped c cs = .error (cause, behind)) :
    behind = 0 ∧ cause.Rejects c := by
  obtain ⟨-, h⟩ := step_eq_error h
  obtain ⟨-, ⟨hbehind, -⟩ | ⟨-, hmode, -⟩⟩ := bracketsAfter_eq_error h
  · refine ⟨hbehind, ?_⟩
    simp only [bracketsAfter] at h
    split at h
    · cases h
    · split at h
      · split at h
        · next hclose =>
          cases h
          exact rejects_of_closeBracket hclose
        · simp at h
      · cases h
  · cases hmode

/-- Open brackets stand where they are remembered. -/
theorem getElem?_of_step {offset : Nat} {escaped : Bool} {c : Char} {text : List Char}
    {outer : List Opened} (hopened : ∀ b ∈ opened, text[b.2]? = some b.1)
    (hc : text[offset]? = some c)
    (h : step .arguments offset opened escaped c cs = .ok outer) :
    ∀ b ∈ outer, text[b.2]? = some b.1 := by
  cases escaped with
  | true =>
      cases h
      exact hopened
  | false =>
      obtain ⟨-, rfl⟩ | ⟨-, ⟨place, rfl⟩, -⟩ | ⟨-, -, rfl⟩ := bracketsAfter_eq_ok h
      · exact List.forall_mem_cons.mpr ⟨hc, hopened⟩
      · exact (List.forall_mem_cons.mp hopened).2
      · exact hopened

theorem rejects_of_splitFrom {escaped : Bool}
    (hopened : ∀ b ∈ opened, (before ++ cs)[b.2]? = some b.1)
    (h : splitFrom .arguments before.length opened escaped piece cs = .error (cause, o)) :
    ∃ c, (before ++ cs)[o]? = some c ∧ cause.Rejects c := by
  induction cs generalizing before opened escaped piece with
  | nil =>
      cases opened with
      | nil => cases h
      | cons bracket outer =>
          obtain ⟨opening, openedAt⟩ := bracket
          cases h
          exact ⟨opening, (List.forall_mem_cons.mp hopened).1, .unmatched opening⟩
  | cons c cs ih =>
      have hc : (before ++ c :: cs)[before.length]? = some c := by simp
      cases hstep : step .arguments before.length opened escaped c cs with
      | error fault =>
          obtain ⟨refusal, behind⟩ := fault
          obtain ⟨rfl, hrejects⟩ := rejects_of_step hstep
          rw [splitFrom_cons, hstep] at h
          cases h
          exact ⟨c, hc, hrejects⟩
      | ok outer =>
          have houter := getElem?_of_step hopened hc hstep
          have hsame : before ++ c :: cs = (before ++ [c]) ++ cs := by simp
          have hlength : before.length + 1 = (before ++ [c]).length := by simp
          rw [hsame] at houter ⊢
          cases hcut : cutsAt .arguments outer escaped c with
          | true =>
              rw [splitFrom_cut hstep hcut, hlength] at h
              cases hrest : splitFrom .arguments (before ++ [c]).length outer false [] cs with
              | ok pieces =>
                  rw [hrest] at h
                  cases h
              | error fault =>
                  rw [hrest] at h
                  cases h
                  exact ih houter hrest
          | false =>
              rw [splitFrom_keep hstep hcut, hlength] at h
              exact ih houter h

/-- Arguments that do not split fail at the bracket that the fault names. -/
theorem split_arguments_eq_error {stack : List String} {text : String} {fault : Fault}
    (h : split .arguments stack text = .error fault) :
    ∃ cause o c, fault = .malformed cause (some ⟨text, o, stack⟩) ∧
      text.toList[o]? = some c ∧ cause.Rejects c ∧ Culprit .arguments text.toList o := by
  obtain ⟨cause, o, rfl, hfails⟩ := split_eq_error h
  have hnone : ∀ b ∈ ([] : List Opened), ([] ++ text.toList)[b.2]? = some b.1 :=
    List.forall_mem_nil _
  obtain ⟨c, hc, hrejects⟩ := rejects_of_splitFrom hnone hfails
  have hsettles := splitFrom_settles (reaches_nil .arguments text.toList) []
  rw [List.length_nil, escapedAfter, hfails] at hsettles
  exact ⟨cause, o, c, rfl, hc, hrejects, hsettles⟩

end Sequence

/-! ## The window onto a place -/

/-- A character as it is shown. -/
def visible (c : Char) : Char := if Text.isBlank c then ' ' else c

/-- Two lines show an offset of a text: behind a margin the characters around it, at most 24 on
either side, and below them a caret in the column of the character at the offset. -/
structure Shows (text : String) (offset : Nat) (row pointer : List Char) : Prop where
  unbroken : '\n' ∉ row ∧ '\n' ∉ pointer
  margin : row.take 2 = [' ', ' ']
  around : ∀ i, row[2 + i]? =
    if offset - 24 + i ≤ offset + 24 then (text.toList[offset - 24 + i]?).map visible else none
  pointer : pointer = List.replicate (2 + min offset 24) ' ' ++ ['^']
  above : ∃ c, text.toList[offset]? = some c ∧ row[2 + min offset 24]? = some (visible c)

theorem visible_ne_newline (c : Char) : visible c ≠ '\n' := by
  unfold visible
  split
  · decide
  · next hblank =>
    rintro rfl
    exact hblank rfl

theorem contextWindow_shows {text : String} {offset : Nat} (h : offset < text.length) :
    ∃ row pointer, (contextWindow text offset).toList = row ++ '\n' :: pointer ∧
      Shows text offset row pointer := by
  let shown := ((text.toList.take (offset + 25)).drop (offset - 24)).map visible
  have hshown : ∀ i, shown[i]? = if offset - 24 + i ≤ offset + 24 then
      (text.toList[offset - 24 + i]?).map visible else none := by
    intro i
    simp only [shown, List.getElem?_map, List.getElem?_drop, List.getElem?_take]
    split <;> split <;> first | rfl | omega
  refine ⟨' ' :: ' ' :: shown, List.replicate (2 + min offset 24) ' ' ++ ['^'], ?_, ?_⟩
  · have hcolumn : 2 + min offset 24 = offset - (offset - 24) + 1 + 1 := by omega
    rw [hcolumn, List.replicate_succ, List.replicate_succ]
    simp [contextWindow, contextRadius, shown]
    rfl
  · have htext : offset < text.toList.length := by rwa [String.length_toList]
    constructor
    · have hline : '\n' ∉ shown := by
        intro hmem
        obtain ⟨c, -, hc⟩ := List.mem_map.mp hmem
        exact visible_ne_newline c hc
      simp [hline, List.mem_replicate]
    · rfl
    · intro i
      rw [Nat.add_comm]
      exact hshown i
    · rfl
    · refine ⟨text.toList[offset], List.getElem?_eq_getElem htext, ?_⟩
      have hplace : offset - 24 + min offset 24 = offset := by omega
      rw [Nat.add_comm]
      refine (hshown (min offset 24)).trans ?_
      rw [hplace, if_pos (Nat.le_add_right offset 24), List.getElem?_eq_getElem htext]
      rfl

/-! ## Moving a place onto the token -/

theorem getElem?_of_print {command : Command} {text : String}
    (htext : command.arguments = some text) {o : Nat} (ho : o < text.length) :
    command.print.toList[command.offset + o]? = text.toList[o]? ∧
      command.offset + o < command.print.length := by
  have hlength : o < text.toList.length := by rwa [String.length_toList]
  have hprint : command.print.toList = command.front.toList ++ '(' :: (text.toList ++ [')']) := by
    rw [Command.toList_print_front, htext]
    rfl
  have hoffset : command.offset = command.front.toList.length + 1 := by
    rw [String.length_toList, Command.offset, htext]
    rfl
  constructor
  · have hplace : command.offset + o = command.front.toList.length + (o + 1) := by omega
    rw [hprint, hplace, List.getElem?_append_right (Nat.le_add_right _ _),
      Nat.add_sub_cancel_left, List.getElem?_cons_succ, List.getElem?_append_left hlength]
  · rw [← String.length_toList, hprint, hoffset]
    simp only [List.length_append, List.length_cons, List.length_nil]
    omega

theorem relocated_eq_self {fault : Fault}
    (h : ∀ cause place, fault ≠ .malformed cause (some place)) (text : String) (base : Nat) :
    fault.relocated text base = fault := by
  unfold Fault.relocated
  split
  · next cause place => exact absurd rfl (h cause place)
  · rfl

end Parkour.Language

namespace Parkour.Engine

open Parkour.Language

/-- Where the arguments of a call do not split, the fault of the call points to the bracket that
is refused, at its offset in the whole token, and no other fault of binding points anywhere. The
window onto a place has its caret below the character there. A fault without a place is left as
it is. -/
theorem bindCall_located {σ : Type} :
    (∀ stack token command text target scope,
      Command.parse stack token = .ok command → command.arguments = some text →
      (∀ fault, Sequence.split .arguments stack text = .error fault → ∃ cause o c,
        fault = .malformed cause (some ⟨text, o, stack⟩) ∧
        fault.relocated token command.argumentsAt =
          .malformed cause (some ⟨token, command.argumentsAt + o, stack⟩) ∧
        command.argumentsAt + o < token.length ∧
        token.toList[command.argumentsAt + o]? = some c ∧ text.toList[o]? = some c ∧
        cause.Rejects c ∧ Sequence.Culprit .arguments text.toList o) ∧
      (∀ cause place,
        Binding.bindCall command target scope stack = .error (.malformed cause (some place)) →
        Sequence.split .arguments stack text = .error (.malformed cause (some place))) ∧
      ∀ (w : World σ) fault, w.scope = scope → w.resolve command.name = .ok target →
        Binding.bindCall command target scope stack = .error fault →
        w.bindToken stack token = .error (fault.relocated token command.argumentsAt)) ∧
    (∀ text offset, offset < text.length → ∃ row pointer,
      (contextWindow text offset).toList = row ++ '\n' :: pointer ∧
        Shows text offset row pointer) ∧
    ∀ (fault : Fault) text base, (∀ cause place, fault ≠ .malformed cause (some place)) →
      fault.relocated text base = fault := by
  refine ⟨?_, fun text offset h => contextWindow_shows h,
    fun fault text base h => relocated_eq_self h text base⟩
  intro stack token command text target scope hcommand htext
  obtain ⟨-, rfl, hplace⟩ := Command.parse_eq_ok.mp hcommand
  refine ⟨?_, ?_, ?_⟩
  · intro fault hsplit
    obtain ⟨cause, o, c, rfl, hc, hrejects, hculprit⟩ :=
      Sequence.split_arguments_eq_error hsplit
    have ho : o < text.length := by
      rw [← String.length_toList]
      exact hculprit.lt_length
    obtain ⟨hsame, hinside⟩ := getElem?_of_print htext ho
    rw [hplace]
    exact ⟨cause, o, c, rfl, rfl, hinside, hsame.trans hc, hc, hrejects, hculprit⟩
  · intro cause place hbind
    obtain hown | ⟨other, hother, hsplit⟩ := Binding.blamed_bindCall _ _ _ _ _ hbind
    · exact absurd (.placed cause place) hown
    · cases htext.symm.trans hother
      exact hsplit
  · rintro w fault rfl hresolve hbind
    rw [World.bindToken, hcommand, ok_bind, hresolve, ok_bind, hbind]
    rfl

/-- Behind a minus, keys and modifiers, the bracket that is refused is the last but one
character of the token. -/
theorem bindCall_located_sprint :
    ((new .horizontal).world ∅).bindToken ["repeat"] "-s.wa[water](日, (])" =
        .error (.malformed (.closesOther ']' '(' 3)
          (some ⟨"-s.wa[water](日, (])", 17, ["repeat"]⟩)) ∧
      "-s.wa[water](日, (])".toList[17]? = some ']' := by
  let w : World Report.Sink := (new .horizontal).world ∅
  have hcommand : Command.parse ["repeat"] "-s.wa[water](日, (])" =
      .ok ⟨true, "s", some "wa", some "water", some "日, (]", 13⟩ := rfl
  have hsplit : Sequence.split .arguments ["repeat"] "日, (]" =
      .error (.malformed (.closesOther ']' '(' 3) (some ⟨"日, (]", 4, ["repeat"]⟩)) := rfl
  obtain ⟨target, hresolve, hbind⟩ : ∃ target, w.resolve "s" = .ok target ∧
      Binding.bindCall ⟨true, "s", some "wa", some "water", some "日, (]", 13⟩ target w.scope
        ["repeat"] = .error (.malformed (.closesOther ']' '(' 3)
          (some ⟨"日, (]", 4, ["repeat"]⟩)) := ⟨_, rfl, rfl⟩
  obtain ⟨hpoints, -, htoken⟩ := bindCall_located.1 _ _ _ _ target w.scope hcommand rfl
  obtain ⟨cause, o, c, hplace, hrelocated, hinside, hbracket, -, hrejects, -⟩ :=
    hpoints _ hsplit
  cases hplace
  cases hrejects
  exact ⟨(htoken w _ rfl hresolve hbind).trans (congrArg Except.error hrelocated), hbracket⟩

end Parkour.Engine
