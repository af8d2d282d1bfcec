import Parkour.Language.Call
import Parkour.Proofs.Outcome

/-!
# Faults of reading and binding

A call that asks its arguments for a value of another type fails with a fault of its own.
Reading texts and binding calls fails in many ways, but never in this one. Binding points to a
place in a text only if the arguments do not split.
-/

namespace Parkour.Language

/-- The faults of a call whose arguments have no value of the type that it asks for. -/
inductive Fault.Unmet : Fault → Prop where
  | demand (parameter : String) (wanted : Demand) : Unmet (.misuse (.demand parameter wanted))
  | angle (value : Value) : Unmet (.misuse (.angle value))

/-- The other faults. -/
abbrev Fault.Other (fault : Fault) : Prop := ¬fault.Unmet

/-- The faults that come up neither in values nor in finding parameters for them: those of unmet
demands, and those that point to a place in a text. -/
inductive Fault.Foreign : Fault → Prop where
  | placed (cause : Malformed) (place : Place) : Foreign (.malformed cause (some place))
  | demand (parameter : String) (wanted : Demand) : Foreign (.misuse (.demand parameter wanted))
  | angle (value : Value) : Foreign (.misuse (.angle value))

/-- The faults of values and of finding parameters for them. -/
abbrev Fault.Own (fault : Fault) : Prop := ¬fault.Foreign

theorem Fault.Own.other {fault : Fault} (h : fault.Own) : fault.Other := by
  intro hunmet
  cases hunmet with
  | demand parameter wanted => exact h (.demand parameter wanted)
  | angle value => exact h (.angle value)

theorem other_relocated {fault : Fault} (h : fault.Other) (text : String) (base : Nat) :
    (fault.relocated text base).Other := by
  unfold Fault.relocated
  split
  · exact nofun
  · exact h

theorem own_evaluate (text : String) (scope : Scope) :
    Blames Fault.Own (Expression.evaluate text scope) := by
  unfold Expression.evaluate
  refine .ite (.ofOk 0) ?_
  split
  · exact .ofOk _
  · exact .ofError nofun
  · exact .ofError nofun

theorem other_evaluate (text : String) (scope : Scope) :
    Blames Fault.Other (Expression.evaluate text scope) :=
  (own_evaluate text scope).imp fun _ => Fault.Own.other

theorem other_split (mode : Sequence.Mode) (stack : List String) (text : String) :
    Blames Fault.Other (Sequence.split mode stack text) := by
  unfold Sequence.split
  split
  · exact .ofOk _
  · exact .ofError nofun

theorem other_parse (stack : List String) (token : String) :
    Blames Fault.Other (Command.parse stack token) := by
  unfold Command.parse
  dsimp only
  split
  · exact .ofError nofun
  · exact .ite (.ofOk _) (.ofError nofun)

/-! ## Arguments -/

namespace Binding

variable (function : String) (scope : Scope)

theorem own_coerce (p : Parameter) (text : String) :
    Blames Fault.Own (coerce function p text scope) := by
  unfold coerce
  refine .ite (.ofOk _) ?_
  split
  · refine (own_evaluate text scope).bind fun v _ => ?_
    exact .ite (.ofError nofun) (.ite (.ofError nofun) (.ofOk _))
  · exact (own_evaluate text scope).map _
  · unfold coerceFlag
    split
    all_goals first | exact .ofOk _ | exact (own_evaluate text scope).map _
  · exact .ofOk _
  · exact .ofOk _

theorem own_take (given : Given) (piece : String) :
    Blames Fault.Own (given.take function piece) := by
  unfold Given.take
  refine .ite (.ofError nofun) ?_
  split
  · exact .ite (.ofError nofun) (.ofOk _)
  · exact .ite (.ofOk _) (.ofError nofun)

/-- The faults of binding the text between parentheses, if there is one: that of a text that
does not split into arguments, and the others without a place. -/
def Blamed (stack : List String) (raw : Option String) (fault : Fault) : Prop :=
  fault.Own ∨ ∃ text, raw = some text ∧ Sequence.split .arguments stack text = .error fault

theorem blamed_readGiven (raw : Option String) (stack : List String) :
    Blames (Blamed stack raw) (readGiven function raw stack) := by
  unfold readGiven
  split
  · exact .ofOk _
  · next text =>
    refine .ite (.ofOk _) (Blames.bind ?_ fun pieces _ => ?_)
    · exact fun fault hfault => .inr ⟨text, rfl, hfault⟩
    · exact (Blames.foldlM (own_take function) pieces _).imp fun _ => Or.inl

theorem own_fillPositionals (parameters : List Parameter) (texts : List String) :
    Blames Fault.Own (fillPositionals function scope parameters texts) := by
  induction parameters generalizing texts with
  | nil => exact .ofOk _
  | cons p rest ih =>
      cases texts with
      | nil => exact .ofOk _
      | cons text texts =>
          unfold fillPositionals
          refine .ite ?_ ?_
          · refine (own_coerce function scope p text).bind fun value _ => ?_
            exact (ih texts).bind fun filled _ => .ofOk _
          · exact (ih (text :: texts)).bind fun filled _ => .ofOk _

theorem own_fillRest (parameters : List Parameter) (given : Nat) (left : List String) :
    Blames Fault.Own (fillRest function scope parameters given left) := by
  unfold fillRest
  refine .ite (.ofOk []) ?_
  split
  · exact .mapM fun text _ => own_coerce function scope _ text
  · exact .ofError nofun

theorem own_fillKeyword (name text : String) (slots : List Slot) :
    Blames Fault.Own (fillKeyword function scope name text slots) := by
  induction slots with
  | nil => exact .ofError nofun
  | cons slot rest ih =>
      unfold fillKeyword
      refine .ite (.ite (.ofError nofun) (.ite (.ofError nofun) ?_)) (ih.map _)
      exact (own_coerce function scope slot.parameter text).map _

theorem own_checkMissing (slots : List Slot) :
    Blames Fault.Own (checkMissing function slots) :=
  .ite (.ofError nofun) (.ite (.ofError nofun) (.ofOk ()))

theorem blamed_bind (parameters : List Parameter) (raw : Option String) (stack : List String) :
    Blames (Blamed stack raw) (bind function parameters raw scope stack) := by
  refine (blamed_readGiven function raw stack).bind fun given _ => Blames.imp ?_ fun _ => Or.inl
  refine (own_fillPositionals function scope parameters _).bind fun placed _ => ?_
  refine (own_fillRest function scope parameters _ _).bind fun rest _ => ?_
  refine Blames.bind (.foldlM (fun slots pair => ?_) _ _) fun filled _ => ?_
  · exact own_fillKeyword function scope pair.1 pair.2 slots
  · exact (own_checkMissing function _).bind fun _ _ => .ofOk _

end Binding

/-! ## Calls -/

namespace Binding

theorem own_bindKeys (b : Builtin) (text : Option String) :
    Blames Fault.Own (bindKeys b text) := by
  have hparse : Blames Fault.Own (parseKeys b.name text) := by
    unfold parseKeys
    split
    · exact .ofOk _
    · split
      · exact .ofOk _
      · exact .ofError nofun
  refine hparse.bind fun given _ => ?_
  split
  · exact .ite (.ofError nofun) (.ofOk _)
  · exact .ofOk _
  · exact .ite (.ofError nofun) (.ofOk _)

theorem own_addFeatures (terrain : Player.Terrain) (names : List String) :
    Blames Fault.Own (addFeatures terrain names) := by
  induction names generalizing terrain with
  | nil => exact .ofOk terrain
  | cons name rest ih =>
      unfold addFeatures
      split
      · exact ih _
      · exact .ofError nofun

theorem own_bindModifiers (function : String) (allowed : Player.Terrain)
    (text : Option String) : Blames Fault.Own (bindModifiers function allowed text) := by
  unfold bindModifiers
  split
  · exact .ofOk _
  · refine (own_addFeatures _ _).bind fun terrain _ => ?_
    exact .ite (.ofError nofun) (.ofOk _)

theorem own_checkBare (name : String) (command : Command) :
    Blames Fault.Own (checkBare name command) :=
  .ite (.ofError nofun) (.ite (.ofError nofun) (.ite (.ofError nofun) (.ofOk ())))

/-- Binding a call fails without a place, or because the arguments do not split. -/
theorem blamed_bindCall (command : Command) (target : Target) (scope : Scope)
    (stack : List String) :
    Blames (Blamed stack command.arguments) (bindCall command target scope stack) := by
  cases target with
  | builtin b =>
      refine .ite (.ofError (.inl nofun)) (Blames.bind ?_ fun keys _ => Blames.bind ?_ ?_)
      · exact (own_bindKeys b _).imp fun _ => Or.inl
      · exact (own_bindModifiers b.name b.modifiers _).imp fun _ => Or.inl
      · intro modifiers _
        exact (blamed_bind b.name scope b.parameters _ stack).bind fun arguments _ => .ofOk _
  | user f =>
      refine Blames.bind ?_ fun _ _ => ?_
      · exact (own_checkBare f.name command).imp fun _ => Or.inl
      · exact (blamed_bind f.name scope f.parameters _ stack).bind fun arguments _ => .ofOk _
  | sequence name body =>
      refine Blames.bind ?_ fun _ _ => .ite (.ofError (.inl nofun)) (.ofOk _)
      exact (own_checkBare name command).imp fun _ => Or.inl

theorem other_bindCall (command : Command) (target : Target) (scope : Scope)
    (stack : List String) : Blames Fault.Other (bindCall command target scope stack) := by
  refine (blamed_bindCall command target scope stack).imp fun fault hfault => ?_
  rcases hfault with hown | ⟨text, -, hsplit⟩
  · exact hown.other
  · exact other_split .arguments stack text fault hsplit

end Binding

/-! ## Signatures -/

namespace Signature

variable (scope : Scope)

theorem other_fallbackValue (type : ParameterType) (text : String) :
    Blames Fault.Other (fallbackValue scope type text) := by
  unfold fallbackValue
  refine .ite (.ofOk _) ?_
  split
  all_goals first | exact .ofOk _ | exact (other_evaluate text scope).map _

theorem other_parseParameter (variadic starred : Bool) (declaration : String) :
    Blames Fault.Other (parseParameter scope variadic starred declaration) := by
  unfold parseParameter
  generalize declarationParts declaration = parts
  have hhead : Blames Fault.Other (headParts parts.1) := by
    unfold headParts
    split
    · exact .ofOk _
    · split
      · exact .ofOk _
      · exact .ofError nofun
  refine hhead.bind fun head _ => ?_
  refine .ite (.ofError nofun) (.ite (.ofError nofun) ?_)
  refine Blames.bind ?_ fun fallback _ => .ofOk _
  cases parts.2 with
  | none => exact .ofOk none
  | some text => exact (other_fallbackValue scope _ text).map some

theorem other_take (d : Draft) (whole name piece : String) :
    Blames Fault.Other (d.take scope whole name piece) := by
  unfold Draft.take
  split
  · exact .ofError nofun
  · exact .ofOk _
  · exact .ofOk _
  · unfold Draft.declare
    refine (other_parseParameter scope _ _ _).bind fun p _ => ?_
    exact .ite (.ofError nofun) (.ite (.ofError nofun) (.ofOk _))

theorem other_parse (text : String) : Blames Fault.Other (parse scope text) := by
  have houtline : Blames Fault.Other (outline (Text.trim text)) := by
    unfold outline
    split
    · exact .ofOk _
    · exact .ite (.ofOk _) (.ofError nofun)
  refine houtline.bind fun parts _ => .ite (.ofError nofun) ?_
  refine Blames.bind ?_ fun parameters _ => .ofOk _
  unfold parseParameters
  refine .ite (.ofOk []) ((other_split _ _ _).bind fun pieces _ => ?_)
  refine Blames.bind ?_ fun draft _ => .ofOk _
  exact .foldlM (fun d piece => other_take scope d _ _ piece) pieces _

end Signature

end Parkour.Language
