import Parkour.Engine.Session
import Parkour.Proofs.Binding.Default
import Parkour.Proofs.Binding.Typing
import Parkour.Proofs.Engine.Bound
import Parkour.Proofs.Engine.Deed
import Parkour.Proofs.Engine.Invariant
import Parkour.Proofs.Expression.Definite

/-!
# What is no number stays out

A run that starts from variables and defaults that are numbers ends with such, whatever its
outcome is. Everything that gets into the variables comes from an expression, from an argument
or from a default, and all of these rely on the variables alone.
-/

namespace Parkour.Language

/-- The default of a parameter is definite, if there is one. -/
def Parameter.Definite (p : Parameter) : Prop := ∀ v ∈ p.fallback, v.Definite

/-- All that a call was bound to is definite. -/
structure Arguments.Definite (arguments : Arguments) : Prop where
  values : ∀ name v, (name, v) ∈ arguments.values → v.Definite
  rest : ∀ v ∈ arguments.rest, v.Definite

variable {function text : String} {p : Parameter} {scope : Scope} {v : Value}
  {parameters : List Parameter}

namespace Binding

theorem definite_of_coerce (hscope : Scope.Definite scope)
    (h : coerce function p text scope = .ok v) : v.Definite := by
  rcases read_of_coerce h with ⟨rfl, -⟩ | hread
  · nofun
  · generalize typeOf p = type at hread
    cases hread with
    | float hvalue => exact Value.definite_float (Expression.isNaN_of_evaluate hscope hvalue)
    | _ => nofun

theorem definite_of_fallback? (hp : p.Definite) (h : fallback? function p = some v) :
    v.Definite := by
  unfold fallback? at h
  split at h
  · next value hvalue =>
    cases h
    exact hp _ hvalue
  · split_ifs at h <;> cases h <;> nofun

/-- Where the variables and the defaults are definite, so is what is bound. -/
theorem definite_of_bind (hscope : Scope.Definite scope)
    (hparameters : ∀ p ∈ parameters, p.Definite) {raw : Option String} {stack : List String}
    {arguments : Arguments} (h : bind function parameters raw scope stack = .ok arguments) :
    arguments.Definite := by
  have hread : ∀ text, Wanted (fun _ v => v.Definite) function scope text :=
    fun _ _ _ hvalue => definite_of_coerce hscope hvalue
  have hbound := bound_of_bind (fun _ _ => ⟨fun text _ => hread text, fun pair _ => hread pair.2⟩)
    (fun p hp _ hdefault => definite_of_fallback? (hparameters p hp) hdefault) h
  constructor
  · intro name v hmem
    obtain ⟨p, -, -, hv⟩ := hbound.holds name v hmem
    exact hv
  · intro v hmem
    obtain ⟨p, -, -, hv⟩ := hbound.rest v hmem
    exact hv

end Binding

namespace Signature

theorem definite_of_fallbackValue (hscope : Scope.Definite scope) {type : ParameterType}
    (h : fallbackValue scope type text = .ok v) : v.Definite := by
  unfold fallbackValue at h
  split at h
  · cases h
    nofun
  · split at h
    · obtain ⟨number, -, rfl⟩ := map_eq_ok h
      nofun
    · obtain ⟨number, hnumber, rfl⟩ := map_eq_ok h
      exact Value.definite_float (Expression.isNaN_of_evaluate hscope hnumber)
    · obtain ⟨number, -, rfl⟩ := map_eq_ok h
      nofun
    · cases h
      nofun
    · cases h
      nofun

/-- A default is computed from the variables when the signature is read. -/
theorem Declared.definite (hscope : Scope.Definite scope) (h : Declared scope p) :
    p.Definite := by
  obtain ⟨starred, declaration, text, q, hdeclares, hq, hp⟩ := h
  rw [parseParameter_eq hdeclares] at hq
  obtain ⟨default, hdefault, hsame⟩ := map_eq_ok hq
  have hfallback : p.fallback = some default := by
    rcases hp with rfl | rfl
    · rw [← hsame]
    · rw [fallback_slashed, ← hsame]
  intro v hv
  rw [hfallback] at hv
  cases hv
  exact definite_of_fallbackValue hscope hdefault

theorem definite_of_parse (hscope : Scope.Definite scope) {s : Signature}
    (h : parse scope text = .ok s) : ∀ p ∈ s.parameters, p.Definite := by
  intro p hp v hv
  have hsome : p.fallback.isSome = true := by
    rw [Option.mem_def.mp hv]
    rfl
  exact (declared_of_parse h p hp hsome).definite hscope v hv

end Signature

end Parkour.Language

namespace Parkour.Engine

open Parkour.Language

/-- The defaults of all functions are definite. -/
def DefiniteDefaults (functions : Dictionary UserFunction) : Prop :=
  ∀ name f, functions.get? name = some f → ∀ p ∈ f.parameters, p.Definite

theorem DefiniteDefaults.insert {functions : Dictionary UserFunction}
    (h : DefiniteDefaults functions) {f : UserFunction} (hf : ∀ p ∈ f.parameters, p.Definite)
    (name : String) : DefiniteDefaults (functions.insert name f) :=
  Dictionary.forall_insert h hf

variable {σ : Type}

/-- The variables of a world are definite, and so are the defaults of its functions. -/
structure World.Definite (w : World σ) : Prop where
  scope : Scope.Definite w.scope
  defaults : DefiniteDefaults w.functions

/-! ## Steps -/

/-- A call of a defined function has definite arguments. -/
def Call.DefiniteArguments (call : Call) : Prop :=
  ∀ f, call.target = .user f → call.arguments.Definite

section

variable {w v : World σ} {arguments : Arguments}

theorem definite_of_bindToken (h : w.Definite) {stack : List String} {token : String}
    {call : Call} (hbind : w.bindToken stack token = .ok call) : Call.DefiniteArguments call := by
  intro f htarget
  obtain ⟨command, -, hresolve, hbound⟩ := arguments_of_bindToken hbind
  rw [htarget] at hresolve hbound
  exact Binding.definite_of_bind h.scope (h.defaults _ f (resolve_eq_user hresolve)) hbound

/-- A variable takes the value of an expression. -/
theorem definite_of_assign (h : w.Definite) (hv : assign arguments w = .ok v) : v.Definite := by
  obtain ⟨name, text, number, -, hnumber, rfl⟩ := assign_eq_ok hv
  have hvalue := Value.definite_float (Expression.isNaN_of_evaluate h.scope hnumber)
  exact ⟨h.scope.insert hvalue name, h.defaults⟩

/-- A function takes its defaults from the variables. -/
theorem definite_of_define (h : w.Definite) (hv : define arguments w = .ok v) : v.Definite := by
  obtain ⟨text, body, signature, -, -, hparse, -, rfl⟩ := define_eq_ok hv
  exact ⟨h.scope, h.defaults.insert (Signature.definite_of_parse h.scope hparse) signature.name⟩

/-- The scope of a function has the arguments beside the variables of the caller. -/
theorem definite_callScope {scope : Scope} (hscope : Scope.Definite scope)
    (harguments : arguments.Definite) (f : UserFunction) :
    Scope.Definite (callScope f arguments scope) := by
  have hvalues : ∀ (pairs : List (String × Value)) (s : Scope), Scope.Definite s →
      (∀ pair ∈ pairs, pair.2.Definite) →
        Scope.Definite (pairs.foldl (fun s pair => s.insert pair.1 pair.2) s) := by
    intro pairs
    induction pairs with
    | nil => exact fun s hs _ => hs
    | cons pair rest ih =>
        intro s hs hpairs
        obtain ⟨hpair, hrest⟩ := List.forall_mem_cons.mp hpairs
        exact ih _ (hs.insert hpair pair.1) hrest
  have hbound := hvalues arguments.values scope hscope fun pair => harguments.values pair.1 pair.2
  unfold callScope
  dsimp only
  split
  · exact hbound
  · exact hbound.insert (Value.definite_text _) _

end

/-! ## Runs -/

variable [Audience σ]

/-- No single thing that a run does lets in what is no number. -/
theorem invariant_definite : Invariant Call.DefiniteArguments (World.Definite (σ := σ)) where
  bound h _ hbind := definite_of_bindToken h hbind
  call _ _ h := ⟨h.scope, h.defaults⟩
  act {w v stack call b action} _ _ _ h hv := by
    by_cases hassign : action = .assign
    · subst hassign
      exact definite_of_assign h hv
    · by_cases hdefine : action = .define
      · subst hdefine
        exact definite_of_define h hv
      · have hdeed := perform_deed hv
        refine ⟨?_, ?_⟩
        · rw [hdeed.scope hassign]
          exact h.scope
        · rw [hdeed.functions hdefine]
          exact h.defaults
  arm _ h := ⟨h.scope, h.defaults⟩
  disarm _ h := ⟨h.scope, h.defaults⟩
  enter hmade htarget h := ⟨definite_callScope h.scope (hmade _ htarget) _, h.defaults⟩
  leave h hv := ⟨h.scope, hv.defaults⟩
  trial _ _ h := ⟨h.scope, h.defaults⟩
  absorb h _ := ⟨h.scope, h.defaults⟩
  steer _ _ h := ⟨h.scope, h.defaults⟩
  report _ h := ⟨h.scope, h.defaults⟩

/-- Where the variables are numbers, so are the values of expressions and what is bound to
parameters whose defaults are. The run of a sequence, whatever its outcome is, keeps variables
and defaults that are numbers. -/
theorem definite_everywhere (scope : Scope) (hscope : Scope.Definite scope) :
    (∀ text v, Expression.evaluate text scope = .ok v → v.isNaN = false) ∧
      (∀ function parameters raw stack arguments, (∀ p ∈ parameters, p.Definite) →
        Binding.bind function parameters raw scope stack = .ok arguments →
        arguments.Definite) ∧
      ∀ {σ : Type} [Audience σ] (rules : Rules) (depth : Nat) (stack : List String)
        (text : String) (w : World σ), w.scope = scope → DefiniteDefaults w.functions →
        ((frame rules depth).run stack text w).2.Definite := by
  refine ⟨fun text v h => Expression.isNaN_of_evaluate hscope h, ?_, ?_⟩
  · intro function parameters raw stack arguments hparameters h
    exact Binding.definite_of_bind hscope hparameters h
  · intro σ _ rules depth stack text w hw hdefaults
    have hframes : Ensures.Frames Call.DefiniteArguments (World.Definite (σ := σ))
        (fun _ => True) (frame rules depth) :=
      invariant_definite.frames (faults_any _ _) rules depth
    exact (hframes.run stack text w ⟨hw ▸ hscope, hdefaults⟩).1

/-- An infinite variable is negated, bound and passed on to a function. The difference that is no
number ends the run. -/
theorem definite_everywhere_infinite :
    let scope : Scope := (∅ : Scope).insert "a" (.float 1e400)
    let p : Parameter := ⟨"x", .positionalOrKeyword, .float, some (.float 1e400)⟩
    let text := "def(swing(x = a, *rest), var(y, -x)) swing(a, a) var(z, -a) var(b, a - a)"
    (∃ v, Expression.evaluate "-a" scope = .ok v ∧ v.isNaN = false) ∧
      (∃ arguments, Binding.bind "swing" [p] (some "a * 2") scope [] = .ok arguments ∧
        arguments.Definite) ∧
      ∃ fault w, (frame ⟨64, false⟩ 65).run [] text ((new .horizontal).world scope) =
        (.error fault, w) ∧ w.Definite := by
  intro scope p text
  have hinfinite : (Value.float 1e400).Definite :=
    Value.definite_float (Number.isNaN_ofScientific _ _ _)
  obtain ⟨hevaluate, hbind, hrun⟩ :=
    definite_everywhere scope (Scope.definite_empty.insert hinfinite "a")
  refine ⟨?_, ?_, ?_⟩
  · have hvalue : (Expression.evaluate "-a" scope).isOk = true := by decide +kernel
    rcases h : Expression.evaluate "-a" scope with fault | v
    · rw [h] at hvalue
      cases hvalue
    · exact ⟨v, rfl, hevaluate "-a" v h⟩
  · have hbound : (Binding.bind "swing" [p] (some "a * 2") scope []).isOk = true := by
      decide +kernel
    rcases h : Binding.bind "swing" [p] (some "a * 2") scope [] with fault | arguments
    · rw [h] at hbound
      cases hbound
    · refine ⟨arguments, rfl, hbind _ _ _ _ _ (List.forall_mem_singleton.mpr ?_) h⟩
      rintro _ ⟨⟩
      exact hinfinite
  · have hends : ((frame ⟨64, false⟩ 65).run [] text
        ((new .horizontal).world scope)).1.isOk = false := by
      decide +kernel
    have hdefinite := hrun ⟨64, false⟩ 65 [] text ((new .horizontal).world scope) rfl nofun
    rcases h : (frame ⟨64, false⟩ 65).run [] text ((new .horizontal).world scope) with
      ⟨fault | calls, w⟩
    · rw [h] at hdefinite
      exact ⟨fault, w, rfl, hdefinite⟩
    · rw [h] at hends
      cases hends

end Parkour.Engine
