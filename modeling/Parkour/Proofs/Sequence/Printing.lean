import Parkour.Proofs.Command.Grammar
import Parkour.Proofs.Sequence.Nested
import Parkour.Proofs.Sequence.Splitting

/-!
# Written calls

A sequence of calls can be read back from the way in which it is written: the blanks
between the calls, the parts of each call and the commas between its arguments are found
where they were put.
-/

namespace Parkour.Language

open Sequence (Mode Nested IsArgument Spaced Taken Whole escapedAfter)

/-- A call as it is written. -/
structure Written where
  /-- A minus stands in front. -/
  reverse : Bool
  /-- The name of what is called. -/
  name : String
  /-- The text behind the point. -/
  keys : Option String
  /-- The text in square brackets. -/
  modifiers : Option String
  /-- The arguments in parentheses, with commas between them. -/
  pieces : Option (List String)
deriving DecidableEq

namespace Written

variable {call : Written}

/-- The text of a call. -/
def print (call : Written) : String :=
  (if call.reverse then "-" else "") ++ call.name ++
    call.keys.elim "" (fun keys => "." ++ keys) ++
    call.modifiers.elim "" (fun text => "[" ++ text ++ "]") ++
    call.pieces.elim "" (fun pieces => "(" ++ Mode.join .arguments pieces ++ ")")

/-- What the parts of a call may be. -/
structure WellFormed (call : Written) : Prop where
  /-- The name is an identifier. -/
  name : Text.isIdentifier call.name = true
  /-- The keys are letters and digits. -/
  keys : ∀ keys ∈ call.keys, ∀ c ∈ keys.toList, Text.isAlphanumeric c = true
  /-- The modifiers have neither brackets nor backslashes. -/
  modifiers : ∀ text ∈ call.modifiers, ∀ c ∈ text.toList, c ∉ ['(', ')', '[', ']', '\\']
  /-- Parentheses enclose at least one argument, which may be empty. -/
  nonempty : ∀ pieces ∈ call.pieces, pieces ≠ []
  /-- Each piece can stand between commas. -/
  pieces : ∀ pieces ∈ call.pieces, ∀ piece ∈ pieces, IsArgument piece

/-- Reads a token: the parts of the call, and its arguments one by one. -/
def read (stack : List String) (token : String) : Except Fault Written := do
  let command ← Command.parse stack token
  let pieces ← command.arguments.mapM (Sequence.split .arguments stack)
  return {
    reverse := command.reverse
    name := command.name
    keys := command.keys
    modifiers := command.modifiers
    pieces }

/-- Reads the calls of a sequence. -/
def readAll (stack : List String) (text : String) : Except Fault (List Written) := do
  (← Sequence.split .calls stack text).mapM (read stack)

end Written

/-! ## The parts of a call -/

namespace Written

variable {call : Written}

/-- The text in the parentheses of a call. -/
def arguments (call : Written) : Option String := call.pieces.map (Mode.join .arguments)

theorem toList_print (call : Written) :
    call.print.toList = (if call.reverse then ['-'] else []) ++ (call.name.toList ++
      (marked '.' [] (call.keys.map String.toList) ++
        (marked '[' [']'] (call.modifiers.map String.toList) ++
          marked '(' [')'] (call.arguments.map String.toList)))) := by
  obtain ⟨reverse, name, keys, modifiers, pieces⟩ := call
  cases reverse <;> cases keys <;> cases modifiers <;> cases pieces <;>
    simp [print, marked, arguments]

theorem isAlphanumeric_keys (h : call.WellFormed) :
    ∀ text ∈ call.keys.map String.toList, ∀ c ∈ text, Text.isAlphanumeric c = true := by
  intro text htext
  obtain ⟨keys, hkeys, rfl⟩ := Option.map_eq_some_iff.mp htext
  exact h.keys keys hkeys

/-- A written call is taken apart into its parts. -/
theorem parse_print (h : call.WellFormed) (stack : List String) :
    ∃ place, Command.parse stack call.print = .ok {
      reverse := call.reverse
      name := call.name
      keys := call.keys
      modifiers := call.modifiers
      arguments := call.arguments
      argumentsAt := place } := by
  let command : Command := {
    reverse := call.reverse
    name := call.name
    keys := call.keys
    modifiers := call.modifiers
    arguments := call.arguments
    argumentsAt := 0 }
  have hcommand : command.WellFormed := by
    constructor
    · exact h.name
    · exact h.keys
    · intro text htext c hc
      have hfree := h.modifiers text htext c hc
      simp only [List.mem_cons, not_or] at hfree
      exact ⟨hfree.2.2.1, hfree.2.2.2.1⟩
  have hprint : command.print = call.print := by
    apply String.toList_inj.mp
    rw [Command.toList_print, toList_print]
    rfl
  rw [← hprint]
  exact ⟨_, Command.parse_print hcommand stack⟩

/-! ## A written call in a sequence -/

/-- The name of a call with what stands in front of it and its keys. -/
def head (call : Written) : List Char :=
  (if call.reverse then ['-'] else []) ++ call.name.toList ++
    marked '.' [] (call.keys.map String.toList)

theorem toList_print_head (call : Written) :
    call.print.toList = call.head ++ (marked '[' [']'] (call.modifiers.map String.toList) ++
      marked '(' [')'] (call.arguments.map String.toList)) := by
  simp only [toList_print, head, List.append_assoc]

/-- A name part is neither a bracket nor a backslash nor a boundary. -/
theorem plain_of_isNamePart {mode : Mode} {c : Char} (h : Text.isNamePart c = true) :
    Sequence.Plain c ∧ mode.isBoundary c = false := by
  refine ⟨⟨?_, ?_, ?_⟩, ?_⟩
  · refine Bool.eq_false_iff.mpr fun hc => ?_
    rcases Sequence.eq_of_isOpening hc with rfl | rfl <;> exact absurd h (by decide)
  · refine Bool.eq_false_iff.mpr fun hc => ?_
    rcases Sequence.eq_of_isClosing hc with rfl | rfl <;> exact absurd h (by decide)
  · rintro rfl
    exact absurd h (by decide)
  · cases mode with
    | calls => exact Text.not_isBlank_of_isNamePart h
    | arguments =>
        refine beq_eq_false_iff_ne.mpr ?_
        rintro rfl
        exact absurd h (by decide)

theorem plain_head (h : call.WellFormed) :
    ∀ c ∈ call.head, Sequence.Plain c ∧ Mode.isBoundary .calls c = false := by
  intro c hc
  simp only [head, List.mem_append] at hc
  rcases hc with (hc | hc) | hc
  · split at hc
    · rw [List.mem_singleton.mp hc]
      exact ⟨⟨rfl, rfl, by decide⟩, rfl⟩
    · cases hc
  · exact plain_of_isNamePart (Text.isNamePart_of_isIdentifier h.name c hc)
  · cases hkeys : call.keys.map String.toList with
    | none =>
        rw [hkeys] at hc
        cases hc
    | some text =>
        rw [hkeys, marked, List.append_nil] at hc
        rcases List.mem_cons.mp hc with rfl | hc
        · exact ⟨⟨rfl, rfl, by decide⟩, rfl⟩
        · have hletter := isAlphanumeric_keys h text hkeys c hc
          exact plain_of_isNamePart (Bool.or_eq_true_iff.mpr (.inl hletter))

/-- Nothing but a bracket or the end stands behind a part of a call. -/
theorem isSeparated_of_starts {rest : List Char} (h : Starts ['('] rest) :
    Sequence.isSeparated rest = true := by
  cases rest with
  | nil => rfl
  | cons c rest =>
      rw [List.mem_singleton.mp (h c rfl)]
      rfl

theorem nested_modifiers (h : call.WellFormed) :
    ∀ text ∈ call.modifiers.map String.toList, Nested text := by
  intro text htext
  obtain ⟨modifiers, hmodifiers, rfl⟩ := Option.map_eq_some_iff.mp htext
  refine Sequence.nested_of_plain fun c hc => ?_
  have hfree := h.modifiers modifiers hmodifiers c hc
  simp only [List.mem_cons, not_or] at hfree
  constructor <;> simp [Sequence.isOpening, Sequence.isClosing, hfree]

theorem nested_arguments (h : call.WellFormed) :
    ∀ text ∈ call.arguments.map String.toList, Nested text := by
  intro text htext
  obtain ⟨joined, hjoined, rfl⟩ := Option.map_eq_some_iff.mp htext
  obtain ⟨pieces, hpieces, rfl⟩ := Option.map_eq_some_iff.mp hjoined
  exact Sequence.nested_join fun piece hpiece => (h.pieces pieces hpieces piece hpiece).nested

/-- Brackets match in what they enclose and in the brackets together with it. -/
theorem nested_marked {opening closing : Char} {part : Option (List Char)}
    (hclosing : Sequence.isClosing closing = true)
    (hpartner : opening = Sequence.partner closing) (h : ∀ text ∈ part, Nested text) :
    Nested (marked opening [closing] part) := by
  cases part with
  | none => exact .nil
  | some text => exact .enclosed hclosing hpartner (h text rfl) .nil

theorem taken_marked {opening closing : Char} {part : Option (List Char)} {rest : List Char}
    (hclosing : Sequence.isClosing closing = true)
    (hpartner : opening = Sequence.partner closing) (h : ∀ text ∈ part, Nested text)
    (hrest : Sequence.isSeparated rest = true) :
    Taken .calls [] (marked opening [closing] part) rest := by
  cases part with
  | none => exact Sequence.taken_nil _ _ _
  | some text =>
      exact Sequence.taken_enclosed hclosing hpartner
        (fun opened hopened => (h text rfl).taken hopened _) fun _ _ => hrest

/-- A written call is one token. -/
theorem whole_print (h : call.WellFormed) : Whole .calls call.print.toList := by
  rw [toList_print_head]
  refine Sequence.whole_of_taken ?_
  have hhead : Taken .calls [] call.head
      (marked '[' [']'] (call.modifiers.map String.toList) ++
        marked '(' [')'] (call.arguments.map String.toList) ++ []) :=
    Sequence.taken_of_plain (plain_head h) _
  have hmodifiers : Taken .calls [] (marked '[' [']'] (call.modifiers.map String.toList))
      (marked '(' [')'] (call.arguments.map String.toList) ++ []) := by
    rw [List.append_nil]
    exact taken_marked rfl rfl (nested_modifiers h) (isSeparated_of_starts (starts_arguments _))
  have harguments : Taken .calls [] (marked '(' [')'] (call.arguments.map String.toList)) [] :=
    taken_marked rfl rfl (nested_arguments h) rfl
  exact hhead.append (hmodifiers.append harguments)

theorem nested_print (h : call.WellFormed) : Nested call.print.toList := by
  rw [toList_print_head]
  have hhead : Nested call.head := Sequence.nested_of_plain fun c hc => (plain_head h c hc).1
  have hmodifiers : Nested (marked '[' [']'] (call.modifiers.map String.toList)) :=
    nested_marked rfl rfl (nested_modifiers h)
  have harguments : Nested (marked '(' [')'] (call.arguments.map String.toList)) :=
    nested_marked rfl rfl (nested_arguments h)
  exact hhead.append (hmodifiers.append harguments)

theorem print_ne_empty (h : call.WellFormed) : call.print ≠ "" := by
  intro hempty
  have hname := h.name
  have hnil : call.name.toList = [] := by
    have hprint := toList_print call
    simp only [hempty, String.toList_empty] at hprint
    exact (List.append_eq_nil_iff.mp (List.append_eq_nil_iff.mp hprint.symm).2).1
  rw [Text.isIdentifier, hnil] at hname
  cases hname

/-! ## Reading what is written -/

theorem split_arguments (h : call.WellFormed) (stack : List String) :
    call.arguments.mapM (Sequence.split .arguments stack) = .ok call.pieces := by
  unfold arguments
  cases hpieces : call.pieces with
  | none => rfl
  | some pieces =>
      have hsplit : Sequence.split .arguments stack (Mode.join .arguments pieces) =
          .ok pieces :=
        Sequence.split_join_arguments (h.nonempty pieces hpieces) (h.pieces pieces hpieces) stack
      rw [Option.map_some, Option.mapM_some, hsplit]
      rfl

/-- A call is read as it was written. -/
theorem read_print (h : call.WellFormed) (stack : List String) :
    read stack call.print = .ok call := by
  obtain ⟨place, hparse⟩ := parse_print h stack
  unfold read
  rw [hparse]
  change (call.arguments.mapM (Sequence.split .arguments stack) >>= _) = _
  rw [split_arguments h]
  rfl

theorem mapM_read_print (calls : List Written) (h : ∀ call ∈ calls, call.WellFormed)
    (stack : List String) : (calls.map print).mapM (read stack) = .ok calls := by
  induction calls with
  | nil => rfl
  | cons call calls ih =>
      obtain ⟨hcall, hcalls⟩ := List.forall_mem_cons.mp h
      rw [List.map_cons, List.mapM_cons, read_print hcall, ih hcalls]
      rfl

/-- The calls of a sequence are read as they were written, with any blanks between
them. -/
theorem readAll_print (calls : List Written) (h : ∀ call ∈ calls, call.WellFormed)
    (text : String) (htext : Spaced (calls.map print) text.toList) (stack : List String) :
    readAll stack text = .ok calls := by
  have htokens : ∀ token ∈ calls.map print, Whole .calls token.toList ∧
      escapedAfter false token.toList = false ∧ token ≠ "" := by
    intro token htoken
    obtain ⟨call, hcall, rfl⟩ := List.mem_map.mp htoken
    have hcall := h call hcall
    exact ⟨whole_print hcall, ((nested_print hcall).closed []).2, print_ne_empty hcall⟩
  unfold readAll
  rw [Sequence.split_spaced htext htokens]
  exact mapM_read_print calls h stack

theorem readAll_print_nested :
    readAll [] "-sprint.wd[water, soul](f(1, [2]), \\,\\)) \n y() " = .ok
      [⟨true, "sprint", some "wd", some "water, soul", some ["f(1, [2])", " \\,\\)"]⟩,
        ⟨false, "y", none, none, some [""]⟩] := by
  have hfirst : IsArgument "f(1, [2])" := (Sequence.isArgument_iff_split [] _).mpr ⟨rfl, rfl⟩
  have hsecond : IsArgument " \\,\\)" := (Sequence.isArgument_iff_split [] _).mpr ⟨rfl, rfl⟩
  have hempty : IsArgument "" := (Sequence.isArgument_iff_split [] _).mpr ⟨rfl, rfl⟩
  have hsprint : WellFormed
      ⟨true, "sprint", some "wd", some "water, soul", some ["f(1, [2])", " \\,\\)"]⟩ := {
    name := rfl
    keys := by
      rintro _ ⟨⟩
      exact List.all_eq_true.mp rfl
    modifiers := by simp
    nonempty := by simp
    pieces := by simp [hfirst, hsecond] }
  have hy : WellFormed ⟨false, "y", none, none, some [""]⟩ := {
    name := rfl
    keys := nofun
    modifiers := nofun
    nonempty := by simp
    pieces := by simpa using hempty }
  have hnone : Sequence.Blank [] := nofun
  have hgap : Sequence.Blank [' ', '\n', ' '] := by simp [Sequence.Blank]; decide
  have htrail : Sequence.Blank [' '] := by simp [Sequence.Blank]; decide
  have htext : Spaced ["-sprint.wd[water, soul](f(1, [2]), \\,\\))", "y()"]
      "-sprint.wd[water, soul](f(1, [2]), \\,\\)) \n y() ".toList :=
    .more _ hnone hgap (List.cons_ne_nil _ _) (.one _ hnone htrail)
  exact readAll_print
    [⟨true, "sprint", some "wd", some "water, soul", some ["f(1, [2])", " \\,\\)"]⟩,
      ⟨false, "y", none, none, some [""]⟩] (by simpa using ⟨hsprint, hy⟩) _ htext []

end Written

end Parkour.Language
