import Parkour.Engine.Session
import Parkour.Proofs.Binding.Faults
import Parkour.Proofs.Binding.Typing
import Parkour.Proofs.Engine.Bound
import Parkour.Proofs.Engine.Invariant

/-!
# What builtins ask of their arguments

The catalogue lists the parameters of a builtin, binding reads texts as their types, and
the effect asks for values by name. The three are kept apart. They agree: a builtin that is
bound finds every value that it asks for, and so does every call inside of it.
-/

namespace Parkour.Language

/-! ## What is asked for -/

/-- The values that an action asks for, by name. -/
def Action.demands : Action → List (String × Demand)
  | .move _ | .rise _ => [(Binding.durationName, .integer)]
  | .face | .turn => [("angle", .number)]
  | .setPosition coordinate => [(coordinate.name, .number)]
  | .setVelocity coordinate => [("v" ++ coordinate.name, .number)]
  | .setSlip => [("slip", .number)]
  | .setPotion _ => [("level", .integer)]
  | .setInertia => [("threshold", .number)]
  | .setPrecision => [("digits", .integer)]
  | .assign => [("name", .text), ("value", .text)]
  | .define => [("signature", .text), ("body", .text)]
  | .readOut _ | .readMomentum _ | .readBlocks _ | .readVector | .print | .help
  | .queueAngles | .queueTurns | .setCeiling => []

/-- The values that a wrapper asks for, by name. -/
def Wrapper.demands : Wrapper → List (String × Demand)
  | .solve .distance _ => [("goal", .number), ("sequence", .text)]
  | .solve .momentum _ => [("mm", .number), ("sequence", .text)]
  | .watch (.landing _) =>
      [("mindistance", .number), ("increment", .number), ("miss", .number),
        ("offset", .number), ("sequence", .text)]
  | .watch .stop => [("miss", .number), ("sequence", .text)]
  | .again => [("count", .integer), ("sequence", .text)]

/-- The values that an effect asks for, by name. -/
def Effect.demands : Effect → List (String × Demand)
  | .action a => a.demands
  | .wrapper w => w.demands

/-- Whether an effect reads the surplus arguments as angles. -/
def Effect.readsAngles (effect : Effect) : Bool :=
  effect = .action .queueAngles || effect = .action .queueTurns

/-- A value of this kind is found under the name. -/
def Arguments.Answers (arguments : Arguments) (name : String) : Demand → Prop
  | .number => ∃ v, arguments.requireNumber name = .ok v
  | .integer => ∃ n, arguments.requireInteger name = .ok n
  | .text => ∃ content, arguments.requireText name = .ok content

/-! ## What is supplied -/

/-- All values of the type are of this kind. -/
def ParameterType.meets : Demand → ParameterType → Bool
  | .number, .int | .number, .float | .number, .bool => true
  | .integer, .int => true
  | .text, .text | .text, .sequence => true
  | _, _ => false

/-- A value is of this kind. -/
def Value.meets : Demand → Value → Bool
  | .number, v => v.number?.isSome
  | .integer, .int _ => true
  | .integer, _ => false
  | .text, v => v.text?.isSome

/-- Whatever a parameter of the function holds is of this kind. -/
def Parameter.meets (function : String) (wanted : Demand) (p : Parameter) : Bool :=
  (Binding.typeOf p).meets wanted && (Binding.fallback? function p).all (Value.meets wanted)

/-- A parameter has this name, and what it holds is of this kind. -/
def Builtin.supplies (b : Builtin) (name : String) (wanted : Demand) : Bool :=
  (b.parameters.any fun p => p.name = name && p.kind ≠ .variadic) &&
    b.parameters.all fun p => p.name ≠ name || p.meets b.name wanted

/-- Whatever the variadic parameter takes is of this kind. -/
def Builtin.suppliesRest (b : Builtin) (wanted : Demand) : Bool :=
  b.parameters.all fun p => p.kind ≠ .variadic || p.meets b.name wanted

/-- Every builtin has parameters for what it asks for. -/
theorem Catalogue.supplied :
    ∀ b ∈ Catalogue.all, (∀ d ∈ b.effect.demands, b.supplies d.1 d.2 = true) ∧
      (b.effect.readsAngles = true → b.suppliesRest .number = true) := by
  decide +kernel

theorem meets_of_holds {function : String} {p : Parameter} {v : Value} {wanted : Demand}
    (h : Binding.Holds function p v) (hp : p.meets function wanted = true) :
    v.meets wanted = true := by
  obtain ⟨htype, hfallback⟩ := Bool.and_eq_true_iff.mp hp
  rcases h with hfits | hdefault
  · -- The kinds of a type are listed, and its values are what its constructor says.
    generalize Binding.typeOf p = type at hfits htype
    cases hfits <;> cases wanted <;> first | rfl | cases htype
  · rw [hdefault] at hfallback
    exact hfallback

theorem answers_of_meets {arguments : Arguments} {name : String} {v : Value} {wanted : Demand}
    (hget : arguments.get? name = some v) (h : v.meets wanted = true) :
    arguments.Answers name wanted := by
  cases wanted with
  | number =>
      obtain ⟨number, hnumber⟩ := Option.isSome_iff_exists.mp h
      refine ⟨number, ?_⟩
      simp [Arguments.requireNumber, Arguments.number?, Arguments.demand, hget, hnumber]
  | integer =>
      cases v with
      | int n => exact ⟨n, by simp [Arguments.requireInteger, hget]⟩
      | _ => cases h
  | text =>
      obtain ⟨content, hcontent⟩ := Option.isSome_iff_exists.mp h
      refine ⟨content, ?_⟩
      simp [Arguments.requireText, Arguments.text?, Arguments.demand, hget, hcontent]

/-- Arguments that agree with the parameters answer what the parameters supply. -/
theorem answers_of_typed {b : Builtin} {arguments : Arguments} {name : String}
    {wanted : Demand} (h : Binding.Typed b.name b.parameters arguments)
    (hsupplies : b.supplies name wanted = true) : arguments.Answers name wanted := by
  obtain ⟨hsome, hall⟩ := Bool.and_eq_true_iff.mp hsupplies
  obtain ⟨p, hp, hfound⟩ := List.any_eq_true.mp hsome
  obtain ⟨hname, hkind⟩ := Bool.and_eq_true_iff.mp hfound
  have hfilled := h.filled p hp (of_decide_eq_true hkind)
  rw [of_decide_eq_true hname] at hfilled
  obtain ⟨v, hv⟩ := Option.isSome_iff_exists.mp hfilled
  obtain ⟨q, hq, hqname, hholds⟩ := h.holds name v (Binding.mem_values_of_get? hv)
  have hmeets : q.meets b.name wanted = true := by
    simpa [hqname] using List.all_eq_true.mp hall q hq
  exact answers_of_meets hv (meets_of_holds hholds hmeets)

end Parkour.Language

namespace Parkour.Engine

open Parkour.Language
open Report (Sink)

/-- The arguments have what the effect asks for. -/
structure Answered (effect : Effect) (arguments : Arguments) : Prop where
  demands : ∀ d ∈ effect.demands, arguments.Answers d.1 d.2
  angles : effect.readsAngles = true → ∃ degrees, angles arguments = .ok degrees

theorem angles_of_typed {b : Builtin} {arguments : Arguments}
    (h : Binding.Typed b.name b.parameters arguments) (hrest : b.suppliesRest .number = true) :
    ∃ degrees, angles arguments = .ok degrees := by
  refine mapM_eq_ok fun v hv => ?_
  obtain ⟨p, hp, hkind, hholds⟩ := h.rest v hv
  have hmeets : p.meets b.name .number = true := by
    simpa [hkind] using List.all_eq_true.mp hrest p hp
  obtain ⟨number, hnumber⟩ := Option.isSome_iff_exists.mp (meets_of_holds hholds hmeets)
  refine ⟨Number.narrow number, ?_⟩
  rw [hnumber]

theorem answered_of_bind {b : Builtin} (hb : b ∈ Catalogue.all) {raw : Option String}
    {scope : Scope} {stack : List String} {arguments : Arguments}
    (h : Binding.bind b.name b.parameters raw scope stack = .ok arguments) :
    Answered b.effect arguments := by
  obtain ⟨hdemands, hangles⟩ := Catalogue.supplied b hb
  have htyped := Binding.typed_of_bind h
  constructor
  · intro d hd
    exact answers_of_typed htyped (hdemands d hd)
  · intro hreads
    exact angles_of_typed htyped (hangles hreads)

/-! ## Faults of effects -/

section

variable {σ : Type} {arguments : Arguments}

theorem other_requireNumber {name : String} (h : arguments.Answers name .number) :
    Blames Fault.Other (arguments.requireNumber name) := by
  obtain ⟨v, hv⟩ := h
  rw [hv]
  exact .ofOk v

theorem other_requireInteger {name : String} (h : arguments.Answers name .integer) :
    Blames Fault.Other (arguments.requireInteger name) := by
  obtain ⟨n, hn⟩ := h
  rw [hn]
  exact .ofOk n

theorem other_requireText {name : String} (h : arguments.Answers name .text) :
    Blames Fault.Other (arguments.requireText name) := by
  obtain ⟨content, hcontent⟩ := h
  rw [hcontent]
  exact .ofOk content

theorem other_ofRefusal {α : Type} (x : Except Player.Refusal α) :
    Blames Fault.Other (ofRefusal x) := by
  cases x with
  | ok a => exact .ofOk a
  | error refusal => exact .ofError nofun

theorem other_fieldText (scope : Scope) (precision : Nat) (field : String) :
    Blames Fault.Other (fieldText scope precision field) := by
  unfold fieldText
  dsimp only
  split
  · exact .ofOk _
  · exact (other_evaluate _ scope).map _

theorem other_fillFields (scope : Scope) (precision : Nat) (whole : String)
    (field : Option (List Char)) (text : List Char) :
    Blames Fault.Other (fillFields scope precision whole field text) := by
  fun_induction fillFields scope precision whole field text with
  | case1 => exact .ofOk []
  | case2 => exact .ofError nofun
  | case3 field cs ih =>
      refine (other_fieldText scope precision _).bind fun shown _ => ?_
      exact ih.bind fun rest _ => .ofOk _
  | case4 field c cs hopen ih => exact ih
  | case5 => exact .ofOk []
  | case6 c cs ih => exact ih.map _
  | case7 cs hlast hescape ih => exact ih
  | case8 c cs hlast hescape hplain ih => exact ih.map _

theorem other_adjust {change : Player → Except Fault Player} {w : World σ}
    (h : ∀ p, Blames Fault.Other (change p)) : Blames Fault.Other (w.adjust change) :=
  (h w.player).bind fun _ _ => .ofOk _

theorem other_setNumber {parameter : String} (h : arguments.Answers parameter .number)
    (set : Player → Float → Player) (p : Player) :
    Blames Fault.Other (setNumber arguments parameter set p) :=
  (other_requireNumber h).bind fun _ _ => .ofOk _

theorem other_setChecked {parameter : String} (h : arguments.Answers parameter .integer)
    (set : Player → Int → Except Player.Refusal Player) (p : Player) :
    Blames Fault.Other (setChecked arguments parameter set p) :=
  (other_requireInteger h).bind fun _ _ => other_ofRefusal _

theorem other_queueUp (h : ∃ degrees, angles arguments = .ok degrees)
    (queue : Player → List Float32 → Player) (p : Player) :
    Blames Fault.Other (queueUp arguments queue p) := by
  obtain ⟨degrees, hdegrees⟩ := h
  unfold queueUp
  rw [hdegrees]
  exact .ofOk _

theorem other_assign (hname : arguments.Answers "name" .text)
    (hvalue : arguments.Answers "value" .text) (w : World σ) :
    Blames Fault.Other (assign arguments w) := by
  refine (other_requireText hname).bind fun text _ => .ite (.ofError nofun) ?_
  refine (other_requireText hvalue).bind fun value _ => ?_
  exact (other_evaluate value w.scope).bind fun v _ => .ofOk _

theorem other_define (hsignature : arguments.Answers "signature" .text)
    (hbody : arguments.Answers "body" .text) (w : World σ) :
    Blames Fault.Other (define arguments w) := by
  refine (other_requireText hsignature).bind fun text _ => ?_
  refine (Signature.other_parse w.scope text).bind fun signature _ => ?_
  refine .ite (.ofError nofun) ?_
  exact (other_requireText hbody).bind fun body _ => .ofOk _

/-! ## Wrappers -/

theorem other_goalOf {aim : Aim} {coordinate : Player.Coordinate}
    (h : Answered (.wrapper (.solve aim coordinate)) arguments) :
    Blames Fault.Other (goalOf aim arguments) := by
  cases aim with
  | distance => exact other_requireNumber (h.demands ("goal", .number) List.mem_cons_self)
  | momentum =>
      exact (other_requireNumber (h.demands ("mm", .number) List.mem_cons_self)).map _

theorem other_countOf (h : Answered (.wrapper .again) arguments) :
    Blames Fault.Other (countOf arguments) := by
  refine (other_requireInteger (h.demands ("count", .integer) List.mem_cons_self)).bind ?_
  exact fun count _ => .ite (.ofError nofun) (.ofOk _)

theorem other_checkLanding (b : Builtin) (reach increment miss : Float) :
    Blames Fault.Other (checkLanding b reach increment miss) :=
  .ite (.ofError nofun) (.ite (.ofError nofun) (.ofOk ()))

theorem other_listenerOf {watch : Watch} (h : Answered (.wrapper (.watch watch)) arguments)
    (b : Builtin) (w : World σ) : Blames Fault.Other (listenerOf w watch b arguments) := by
  have hd := h.demands
  cases watch with
  | landing coordinate =>
      obtain ⟨hreach, hd⟩ := List.forall_mem_cons.mp hd
      obtain ⟨hincrement, hd⟩ := List.forall_mem_cons.mp hd
      obtain ⟨hmiss, hd⟩ := List.forall_mem_cons.mp hd
      obtain ⟨hoffset, -⟩ := List.forall_mem_cons.mp hd
      refine Blames.map (.ite (.ofError nofun) ?_) _
      refine (other_requireNumber hreach).bind fun reach _ => ?_
      refine (other_requireNumber hincrement).bind fun increment _ => ?_
      refine (other_requireNumber hmiss).bind fun miss _ => ?_
      refine (other_checkLanding b reach increment miss).bind fun _ _ => ?_
      exact (other_requireNumber hoffset).bind fun offset _ => .ofOk _
  | stop =>
      obtain ⟨hmiss, -⟩ := List.forall_mem_cons.mp hd
      refine Blames.map (.ite (.ofError nofun) ?_) _
      refine (other_requireNumber hmiss).bind fun miss _ => ?_
      exact .ite (.ofError nofun) (.ofOk _)

/-- Every wrapper asks for the sequence that it runs. -/
theorem other_body {wrapper : Wrapper} (h : Answered (.wrapper wrapper) arguments) :
    Blames Fault.Other (arguments.requireText "sequence") := by
  refine other_requireText (h.demands ("sequence", .text) ?_)
  cases wrapper with
  | solve aim coordinate => cases aim <;> simp [Effect.demands, Wrapper.demands]
  | watch watch => cases watch <;> simp [Effect.demands, Wrapper.demands]
  | again => simp [Effect.demands, Wrapper.demands]

/-! ## Calls -/

/-- A call to a builtin has what its effect asks for. -/
def Supplied (call : Call) : Prop :=
  ∀ b, call.target = .builtin b → Answered b.effect call.arguments

theorem Supplied.answered {call : Call} (h : Supplied call) {b : Builtin} {effect : Effect}
    (htarget : call.target = .builtin b) (heffect : b.effect = effect) :
    Answered effect call.arguments := by
  rw [← heffect]
  exact h b htarget

theorem supplied_of_bindToken {w : World σ} {stack : List String} {token : String} {call : Call}
    (h : w.bindToken stack token = .ok call) : Supplied call := by
  intro b htarget
  obtain ⟨⟨hmem, -⟩, command, hparts⟩ := bindToken_eq_builtin h htarget
  exact answered_of_bind hmem hparts.arguments

theorem other_bindToken (w : World σ) (stack : List String) (token : String) :
    Blames Fault.Other (w.bindToken stack token) := by
  refine (other_parse stack token).bind fun command _ => Blames.bind ?_ fun target _ => ?_
  · unfold World.resolve
    split
    · exact .ofOk _
    · split
      · exact .ofOk _
      · split
        · exact .ofOk _
        · exact .ofError nofun
  · split
    · exact .ofOk _
    · next fault hfault =>
      have hother := Binding.other_bindCall command target w.scope stack fault hfault
      exact .ofError (other_relocated hother token command.argumentsAt)

/-! ## Actions -/

variable [Audience σ]

theorem other_moveTicks (gait : Gait) (call : Call) (w : World σ)
    (h : call.arguments.Answers Binding.durationName .integer) :
    Blames Fault.Other (moveTicks gait call w) := by
  refine (other_requireInteger h).bind fun duration _ => Blames.bind ?_ fun slip _ => .ofOk _
  cases call.arguments.number? "slip" with
  | none => exact .ofOk none
  | some v => exact (other_ofRefusal _).map some

theorem other_print (arguments : Arguments) (w : World σ) :
    Blames Fault.Other (print arguments w) := by
  refine Blames.bind (.mapM fun value _ => ?_) fun pieces _ => .ofOk _
  exact (other_fillFields _ _ _ _ _).map _

theorem other_help (arguments : Arguments) (w : World σ) :
    Blames Fault.Other (help arguments w) := by
  unfold help
  split
  · exact .ofOk _
  · dsimp only
    split
    · exact .ofOk _
    · split
      · exact .ofOk _
      · exact .ofError nofun

/-- An action that finds what it asks for fails in other ways only. -/
theorem other_perform {action : Action} {b : Builtin} {call : Call}
    (h : Answered (.action action) call.arguments) (w : World σ) :
    Blames Fault.Other (perform action b call w) := by
  have hd : ∀ d ∈ action.demands, call.arguments.Answers d.1 d.2 := h.demands
  cases action with
  | move gait => exact other_moveTicks gait call w (hd _ (List.mem_singleton_self _))
  | rise phase =>
      refine (other_requireInteger ?_).bind fun duration _ => .ofOk _
      exact hd _ (List.mem_singleton_self _)
  | readOut readout => exact .ofOk _
  | readMomentum coordinate => exact .ofOk _
  | readBlocks coordinate => exact .ofOk _
  | readVector => exact .ofOk _
  | print => exact other_print call.arguments w
  | help => exact other_help call.arguments w
  | face => exact other_adjust (other_setNumber (hd _ (List.mem_singleton_self _)) _)
  | turn => exact other_adjust (other_setNumber (hd _ (List.mem_singleton_self _)) _)
  | queueAngles => exact other_adjust (other_queueUp (h.angles rfl) _)
  | queueTurns => exact other_adjust (other_queueUp (h.angles rfl) _)
  | setPosition coordinate =>
      exact other_adjust (other_setNumber (hd _ (List.mem_singleton_self _)) _)
  | setVelocity coordinate =>
      exact other_adjust (other_setNumber (hd _ (List.mem_singleton_self _)) _)
  | setSlip =>
      refine other_adjust fun _ => (other_requireNumber ?_).bind fun _ _ => other_ofRefusal _
      exact hd _ (List.mem_singleton_self _)
  | setPotion potion =>
      exact other_adjust (other_setChecked (hd _ (List.mem_singleton_self _)) _)
  | setCeiling => exact other_adjust fun _ => other_ofRefusal _
  | setInertia =>
      refine other_adjust fun _ => (other_requireNumber ?_).bind fun _ _ => other_ofRefusal _
      exact hd _ (List.mem_singleton_self _)
  | setPrecision => exact other_adjust (other_setChecked (hd _ (List.mem_singleton_self _)) _)
  | assign =>
      obtain ⟨hname, hrest⟩ := List.forall_mem_cons.mp hd
      exact other_assign hname (hrest _ (List.mem_singleton_self _)) w
  | define =>
      obtain ⟨hsignature, hrest⟩ := List.forall_mem_cons.mp hd
      exact other_define hsignature (hrest _ (List.mem_singleton_self _)) w

/-! ## Runs -/

theorem invariant_supplied : Invariant Supplied fun _ : World σ => True where
  bound _ _ h := supplied_of_bindToken h
  call _ _ _ := trivial
  act _ _ _ _ _ := trivial
  arm _ _ := trivial
  disarm _ _ := trivial
  enter _ _ _ := trivial
  leave _ _ := trivial
  trial _ _ _ := trivial
  absorb _ _ := trivial
  steer _ _ _ := trivial
  report _ _ := trivial

theorem faults_supplied : Faults Supplied (fun _ : World σ => True) Fault.Other where
  interrupted := nofun
  tooDeep _ := nofun
  unsteerable _ := nofun
  split stack text := other_split .calls stack text
  bind stack token _ := other_bindToken _ stack token
  act w hmade htarget heffect := other_perform (hmade.answered htarget heffect) w
  body hmade htarget heffect := other_body (hmade.answered htarget heffect)
  count hmade htarget heffect := other_countOf (hmade.answered htarget heffect)
  goal hmade htarget heffect := other_goalOf (hmade.answered htarget heffect)
  listener {_ b _} w hmade htarget heffect :=
    other_listenerOf (hmade.answered htarget heffect) b w

end

/-- A builtin whose parameters can be bound finds every value that it asks for, and a
call of it never fails for want of one, nor does a call inside of it. -/
theorem dispatch_bound_answered (b : Builtin) (hb : b ∈ Catalogue.all) (raw : Option String)
    (scope : Scope) (stack : List String) (arguments : Arguments)
    (h : Binding.bind b.name b.parameters raw scope stack = .ok arguments) :
    (∀ d ∈ b.effect.demands, arguments.Answers d.1 d.2) ∧
      (b.effect.readsAngles = true → ∃ degrees, angles arguments = .ok degrees) ∧
      ∀ rules n (around : List String) (call : Call) (w v : World Sink) fault,
        call.target = .builtin b → call.arguments = arguments →
        (frame rules n).dispatch around call w = (.error fault, v) → ¬fault.Unmet := by
  have hanswered := answered_of_bind hb h
  refine ⟨hanswered.demands, hanswered.angles, ?_⟩
  intro rules n around call w v fault htarget harguments hfails
  have hmade : Supplied call := by
    intro other hother
    rw [htarget] at hother
    cases hother
    rw [harguments]
    exact hanswered
  have hframes := invariant_supplied.frames faults_supplied rules n (σ := Sink)
  obtain ⟨-, -, hfaults⟩ := hframes.dispatch around call hmade w trivial
  rw [hfails] at hfaults
  exact hfaults fault rfl

/-- A call that is bound to a listener without an increment fails, and not for want of a
number. -/
theorem dispatch_bound_answered_possibility :
    ∃ b ∈ Catalogue.find? .horizontal "poss", ∃ arguments fault v,
      Binding.bind b.name b.parameters (some "outz, increment = 0") ∅ [] = .ok arguments ∧
        (∀ d ∈ b.effect.demands, arguments.Answers d.1 d.2) ∧
        (frame ⟨64, false⟩ 65).dispatch [] { target := .builtin b, arguments }
          ((new .horizontal).world ∅) = (.error fault, v) ∧ ¬fault.Unmet := by
  refine ⟨(Catalogue.find? .horizontal "poss").get (by decide +kernel), by simp, ?_⟩
  generalize hb : (Catalogue.find? .horizontal "poss").get _ = b
  have hfound : Catalogue.find? .horizontal "poss" = some b := by
    rw [← hb, Option.some_get]
  obtain ⟨hmem, -⟩ := Catalogue.find?_eq_some hfound
  have hrefused : ((Binding.bind b.name b.parameters (some "outz, increment = 0") ∅ []).map
      fun arguments => ((frame ⟨64, false⟩ 65).dispatch [] { target := .builtin b, arguments }
        ((new .horizontal).world ∅)).1.isOk).toOption = some false := by
    rw [← hb]
    decide +kernel
  rcases hbind : Binding.bind b.name b.parameters (some "outz, increment = 0") ∅ [] with
    _ | arguments
  · rw [hbind] at hrefused
    cases hrefused
  · rw [hbind] at hrefused
    obtain ⟨hdemands, -, hfails⟩ := dispatch_bound_answered b hmem _ ∅ [] arguments hbind
    rcases hrun : (frame ⟨64, false⟩ 65).dispatch [] { target := .builtin b, arguments }
      ((new .horizontal).world ∅) with ⟨fault | _, v⟩
    · exact ⟨arguments, fault, v, rfl, hdemands, hrun, hfails _ _ _ _ _ _ _ rfl rfl hrun⟩
    · simp only [Except.map, hrun] at hrefused
      cases hrefused

end Parkour.Engine
