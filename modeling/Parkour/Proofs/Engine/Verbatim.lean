import Parkour.Engine.Session
import Parkour.Proofs.Engine.Run
import Parkour.Proofs.Outcome
import Parkour.Proofs.Sequence.Escaping

/-!
# Printing escaped texts

A call to `print` with an escaped text reports one event, the text itself, if its last
character is no blank. A blank at the end is lost: the argument is trimmed before its
escapes are read, and the backslash that stays behind protects nothing.
-/

namespace Parkour.Text

/-- The characters without the last one if that is a blank. -/
def shorn (text : List Char) : List Char :=
  if text.getLast?.any isBlank then text.dropLast else text

theorem shorn_append_singleton (text : List Char) (c : Char) :
    shorn (text ++ [c]) = text ++ if isBlank c then [] else [c] := by
  cases hc : isBlank c <;> simp [shorn, hc]

theorem shorn_eq_self_iff (text : List Char) :
    shorn text = text ↔ ∀ c ∈ text.getLast?, isBlank c = false := by
  rcases List.eq_nil_or_concat text with rfl | ⟨text, c, rfl⟩
  · simp [shorn]
  · rw [List.concat_eq_append, shorn_append_singleton]
    cases hc : isBlank c <;> simp [hc]

end Parkour.Text

namespace Parkour.Language

open Text (escaped escape toList_escape shorn)

/-! ## The call -/

/-- The call that prints an escaped text. -/
def Written.printing (text : String) : Written :=
  ⟨false, "print", none, none, some [escape text]⟩

namespace Written

theorem print_printing (text : String) :
    (printing text).print = "print(" ++ escape text ++ ")" := by
  rw [← String.toList_inj]
  simp [print, printing, Sequence.join_singleton]

theorem wellFormed_printing (text : String) : (printing text).WellFormed where
  name := by change Text.isIdentifier "print" = true; rfl
  keys := nofun
  modifiers := nofun
  nonempty := by simp [printing]
  pieces := by simpa [printing] using Sequence.isArgument_escape text

end Written

namespace Sequence

theorem prepare_printing (axis : Player.Axis) (text : String) :
    prepare axis (Written.printing text).print = (Written.printing text).print := by
  have hcall : (Written.printing text).print.toList =
      "print(".toList ++ (escaped text.toList ++ [')']) := by
    simp [Written.print_printing]
  have hstrip : ∀ rest, stripFrom false false ("print(".toList ++ rest) =
      "print(".toList ++ stripFrom false false rest := fun _ => rfl
  have hexpand : ∀ rest, expandFrom axis 0 false ("print(".toList ++ rest) =
      "print(".toList ++ expandFrom axis 1 false rest := fun _ => rfl
  rw [← String.toList_inj, toList_prepare, hcall, hstrip, stripFrom_escaped, List.length_nil]
  change expandFrom axis 0 false ("print(".toList ++ (escaped text.toList ++ [')'])) = _
  rw [hexpand, expandFrom_escaped]
  rfl

/-- The call is all that a sequence with it consists of. -/
theorem split_printing (axis : Player.Axis) (stack : List String) (text : String) :
    split .calls stack (prepare axis (Written.printing text).print) =
      .ok [(Written.printing text).print] := by
  have hcall := Written.wellFormed_printing text
  rw [prepare_printing, split_eq_ok_iff]
  exact splitFrom_piece (Written.whole_print hcall) fun _ => Written.print_ne_empty hcall

end Sequence

/-! ## Its argument -/

namespace Binding

variable {stack : List String}

/-- An escaped text is no keyword argument. -/
theorem keyword?_trim_escape (text : String) : keyword? (Text.trim (escape text)) = none := by
  rcases List.eq_nil_or_concat text.toList with hnil | ⟨init, c, htext⟩
  · simp [keyword?, Text.trim, hnil, Text.trimmed, Command.namePart]
  · rw [keyword?, Text.toList_trim, toList_escape, htext, List.concat_eq_append,
      Text.trimmed_escaped]
    cases init <;> rfl

theorem readGiven_escape (function : String) {text : String} (hne : text ≠ "") :
    readGiven function (some (escape text)) stack =
      .ok { positionals := [Text.trim (escape text)] } := by
  obtain ⟨init, c, htext⟩ : ∃ init c, text.toList = init ++ [c] := by
    rcases List.eq_nil_or_concat text.toList with hnil | ⟨init, c, htext⟩
    · exact absurd (String.toList_eq_nil_iff.mp hnil) hne
    · exact ⟨init, c, by rw [htext, List.concat_eq_append]⟩
  have hblank : Text.isBlankText (escape text) = false := by
    simp [Text.isBlankText, htext, Text.isBlank_backslash]
  have hsplit : Sequence.split .arguments stack (escape text) = .ok [escape text] :=
    ((Sequence.isArgument_iff_split stack _).mp (Sequence.isArgument_escape text)).1
  have htrim : (Text.trim (escape text)).isEmpty = false := by
    rw [String.isEmpty_eq_false_iff, ne_eq, ← String.toList_eq_nil_iff, Text.toList_trim,
      toList_escape, htext, Text.trimmed_escaped]
    simp
  have htake : Given.take {} function (escape text) =
      .ok { positionals := [Text.trim (escape text)] } := by
    simp only [Given.take, htrim, keyword?_trim_escape, List.isEmpty_nil, if_true,
      Bool.false_eq_true, if_false, List.nil_append]
  simp only [readGiven, hblank, Bool.false_eq_true, if_false, hsplit, ok_bind,
    List.foldlM_cons, htake]
  rfl

/-- What `print` takes of an escaped text. -/
def taken (text : String) : List Value :=
  if text = "" then [] else [.text (Text.trim (escape text))]

/-- A surplus argument that is read as a text is taken as it is. -/
theorem coerce_surplus (function argument : String) (scope : Scope) :
    coerce function (.variadic "text" .text) argument scope = .ok (.text argument) := by
  have hfallback : (argument = "None" &&
      (Parameter.variadic "text" .text).fallback.any Value.isNone) = false :=
    Bool.and_false _
  rw [coerce, if_neg (by simp [hfallback])]
  rfl

theorem bind_escape (function : String) (text : String) (scope : Scope) :
    bind function [.variadic "text" .text] (some (escape text)) scope stack =
      .ok { rest := taken text } := by
  by_cases hne : text = ""
  · subst hne
    rfl
  · have hslots : fillPositionals function scope [.variadic "text" .text]
        [Text.trim (escape text)] =
          .ok ([{ parameter := .variadic "text" .text }], [Text.trim (escape text)]) := rfl
    have hrest : fillRest function scope [.variadic "text" .text] 1
        [Text.trim (escape text)] = .ok [.text (Text.trim (escape text))] := by
      change [Text.trim (escape text)].mapM (coerce function (.variadic "text" .text) · scope) = _
      rw [List.mapM_cons, coerce_surplus]
      rfl
    simp only [bind, readGiven_escape function hne, ok_bind, hslots, List.length_singleton, hrest,
      taken, if_neg hne]
    rfl

end Binding

end Parkour.Language

namespace Parkour.Engine

open Parkour.Language
open Text (escaped escape toList_escape shorn)

/-! ## Its escapes -/

theorem fillFields_escaped (scope : Scope) (precision : Nat) (whole : String)
    (text rest : List Char) :
    fillFields scope precision whole none (escaped text ++ rest) =
      (fillFields scope precision whole none rest).map (text ++ ·) := by
  induction text with
  | nil => cases h : fillFields scope precision whole none rest <;> simp [h, Except.map]
  | cons c text ih =>
      rw [Text.escaped_cons, List.cons_append, List.cons_append, fillFields, ih]
      cases fillFields scope precision whole none rest <;> rfl

/-- The backslash that trimming leaves at the end stands for nothing. -/
theorem interpolate_trim_escape (scope : Scope) (precision : Nat) (text : String) :
    interpolate scope precision (Text.trim (escape text)) =
      .ok (String.ofList (shorn text.toList)) := by
  rcases List.eq_nil_or_concat text.toList with hnil | ⟨init, c, htext⟩
  · rw [String.toList_eq_nil_iff.mp hnil]
    rfl
  · rw [interpolate, Text.toList_trim, toList_escape, htext, List.concat_eq_append,
      Text.trimmed_escaped, fillFields_escaped, Text.shorn_append_singleton]
    cases Text.isBlank c <;> rfl

/-- What is taken of an escaped text is printed as the text without a blank at its
end. -/
theorem print_taken {σ : Type} [Audience σ] (text : String) (w : World σ) :
    print { rest := Binding.taken text } w =
      .ok (w.emit (.text (String.ofList (shorn text.toList)))) := by
  by_cases hne : text = ""
  · subst hne
    rfl
  · have hpieces : (Binding.taken text).mapM (fun value =>
        interpolate w.scope w.precision value.display) =
          .ok [String.ofList (shorn text.toList)] := by
      rw [Binding.taken, if_neg hne, List.mapM_cons, Value.display, interpolate_trim_escape]
      rfl
    simp only [print, hpieces, ok_bind, String.intercalate_singleton]
    rfl

/-! ## The run -/

variable {σ : Type}

/-- The function of either model with the name `print`. -/
theorem exists_print (axis : Player.Axis) :
    ∃ b, Catalogue.find? axis "print" = some b ∧ b.effect = .action .print ∧
      b.keys = .fixed .none ∧ b.parameters = [.variadic "text" .text] := by
  cases axis <;> exact ⟨_, rfl, rfl, rfl, rfl⟩

/-- The token is bound to a call of `print` with the escaped text. -/
theorem bindToken_printing (w : World σ) (stack : List String) (text : String) :
    ∃ b, b.effect = .action .print ∧
      w.bindToken stack (Written.printing text).print =
        .ok { target := .builtin b, arguments := { rest := Binding.taken text } } := by
  obtain ⟨place, hparse⟩ := Written.parse_print (Written.wellFormed_printing text) stack
  obtain ⟨b, hfind, heffect, hkeys, hparameters⟩ := exists_print w.player.axis
  have hresolve : w.resolve (Written.printing text).name = .ok (.builtin b) := by
    rw [World.resolve, Written.printing, hfind]
  have harguments : (Written.printing text).arguments = some (escape text) := by
    simp [Written.arguments, Written.printing, Sequence.join_singleton]
  have hbindKeys : Binding.bindKeys b (Written.printing text).keys = .ok .none := by
    rw [Binding.bindKeys, hkeys]
    rfl
  have hmodifiers : Binding.bindModifiers b.name b.modifiers (Written.printing text).modifiers =
      .ok .plain := rfl
  refine ⟨b, heffect, ?_⟩
  simp only [World.bindToken, hparse, ok_bind, hresolve, Binding.bindCall, hbindKeys, hmodifiers,
    harguments, hparameters, Binding.bind_escape]
  rfl

/-- A run of the call reports the text and leaves the rest of the world as it is. -/
theorem runSequence_printing [Audience σ] {rules : Rules} (hrules : rules.cancelled = false)
    (text : String) (w : World σ) :
    ∃ call, runSequence rules (Written.printing text).print w =
      (.ok [call], (w.tell (.call [] call)).emit (.text (String.ofList (shorn text.toList)))) := by
  obtain ⟨b, heffect, hbind⟩ := bindToken_printing w [] text
  have hcheck : rules.check = .ok () := by simp [Rules.check, hrules]
  let call : Call := { target := .builtin b, arguments := { rest := Binding.taken text } }
  have hdispatch : dispatch rules (frame rules rules.maxDepth) [] call w =
      (.ok ⟨⟩, (w.tell (.call [] call)).emit (.text (String.ofList (shorn text.toList)))) := by
    rw [dispatch, hcheck, Run.bind_apply_ok (Run.liftM_apply _ w), Run.modify_bind_apply]
    simp only [call, heffect, perform, Run.atomically_apply, print_taken]
  refine ⟨call, ?_⟩
  rw [runSequence, Run.frame_run, Run.runText_apply (Sequence.split_printing _ [] text),
    runTokens, hcheck, Run.bind_apply_ok (Run.liftM_apply _ w), Run.get_bind_apply, hbind,
    Run.bind_apply_ok (Run.liftM_apply _ w), Run.bind_apply_ok hdispatch]
  rfl

/-- A call to `print` with a backslash before every character of its argument reports one
event and changes nothing else. The event is the text itself exactly if no blank stands at
its end. -/
theorem simulate_print_escape (e : Engine) (he : e.cancelled = false) (text : String)
    (closing strict : Bool) (scope : Scope) :
    e.simulate ("print(" ++ escape text ++ ")") closing strict scope =
        { outcome := .ok [.text (String.ofList (shorn text.toList))], engine := e, scope } ∧
      ((e.simulate ("print(" ++ escape text ++ ")") closing strict scope).outcome =
          .ok [.text text] ↔
        ∀ c ∈ text.toList.getLast?, Text.isBlank c = false) := by
  have hanswer : e.simulate ("print(" ++ escape text ++ ")") closing strict scope =
      { outcome := .ok [.text (String.ofList (shorn text.toList))], engine := e, scope } := by
    have hrules : (⟨e.maxDepth, e.cancelled⟩ : Rules).cancelled = false := he
    obtain ⟨call, hrun⟩ := runSequence_printing hrules text (e.world scope)
    rw [Written.print_printing] at hrun
    simp only [simulate, hrun]
    simp [answer, World.emit, World.tell, Audience.tell, Moment.events, world, Report.Sink.empty,
      Report.Sink.emit, Report.Sink.emitted, Report.Sink.kept]
  refine ⟨hanswer, ?_⟩
  rw [hanswer, ← Text.shorn_eq_self_iff]
  simp [← String.toList_inj]

/-- Every kind of character that means something outside escapes. -/
theorem simulate_print_escape_marks :
    (new .horizontal).cancelled = false ∧
      ((new .horizontal).simulate ("print(" ++ escape " ,)([\x7b#|=\\" ++ ")") true true
        ∅).outcome = .ok [.text " ,)([\x7b#|=\\"] := by
  have hlast : ∀ c ∈ " ,)([\x7b#|=\\".toList.getLast?, Text.isBlank c = false := by
    simp [Text.isBlank]
  exact ⟨rfl, (simulate_print_escape _ rfl _ true true ∅).2.mpr hlast⟩

/-- A blank at the end is not printed. -/
theorem not_print_escape_blank :
    ¬ ∀ text, ((new .horizontal).simulate ("print(" ++ escape text ++ ")") false true
      ∅).outcome = .ok [.text text] := by
  intro h
  have hlines := congrArg (fun outcome => outcome.toOption.map (List.map Report.Event.display))
    (h "a ")
  revert hlines
  decide +kernel

end Parkour.Engine
