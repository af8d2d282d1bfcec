import Parkour.Proofs.Binding.Shape
import Parkour.Proofs.Engine.Failure
import Parkour.Proofs.Engine.Invariant
import Parkour.Proofs.Engine.Validity

/-!
# The registry of functions

Builtins are found in any case and come before defined functions. A definition is
refused under a name that a builtin of either model has in any case, so no function is
ever hidden, and each one has parameters that calls can fill.
-/

namespace Parkour.Language

/-- The names of the catalogue are written in small letters. -/
theorem Catalogue.lower_names :
    ∀ b ∈ Catalogue.all, ∀ name ∈ b.names, Text.lower name = name := by
  decide +kernel

/-- No builtin of either model has this name in any case. -/
def Catalogue.Free (name : String) : Prop :=
  ∀ b ∈ Catalogue.all, ∀ other ∈ b.names, Text.lower other ≠ Text.lower name

theorem Catalogue.free_of_findAny? {name : String} (h : Catalogue.findAny? name = none) :
    Catalogue.Free name := by
  intro b hb other hother hlower
  rw [Catalogue.lower_names b hb other hother] at hlower
  have hnone := List.find?_eq_none.mp h b hb
  rw [← hlower] at hnone
  exact hnone (List.contains_iff_mem.mpr hother)

/-- A free name stands for no builtin under either model. -/
theorem Catalogue.Free.find? {name : String} (h : Catalogue.Free name) (axis : Player.Axis) :
    Catalogue.find? axis name = none := by
  refine List.find?_eq_none.mpr fun b hb hfound => ?_
  obtain ⟨-, hcontains⟩ := Bool.and_eq_true_iff.mp hfound
  have hmem : Text.lower name ∈ b.names := List.contains_iff_mem.mp hcontains
  exact h b hb _ hmem (Catalogue.lower_names b hb _ hmem)

/-- A function that may be kept under a name. -/
structure UserFunction.StandsFor (f : UserFunction) (name : String) : Prop where
  named : f.name = name
  identifier : Text.isIdentifier name = true
  free : Catalogue.Free name
  shaped : Shaped f.parameters

end Parkour.Language

namespace Parkour.Engine

open Parkour.Language
open Player (Axis)
open Report (Sink)

/-- Every function may be kept under its name. -/
def Registered (functions : Dictionary UserFunction) : Prop :=
  ∀ name f, functions.get? name = some f → f.StandsFor name

theorem registered_empty : Registered ∅ := nofun

theorem Registered.insert {functions : Dictionary UserFunction} (h : Registered functions)
    {name : String} {f : UserFunction} (hf : f.StandsFor name) :
    Registered (functions.insert name f) :=
  Dictionary.forall_insert h hf

section

variable {σ : Type} {w v : World σ}

/-- A registered name stands for its function: no builtin comes before it. -/
theorem Registered.resolve (h : Registered w.functions) {name : String} {f : UserFunction}
    (hf : w.functions.get? name = some f) : w.resolve name = .ok (.user f) := by
  unfold World.resolve
  rw [(h name f hf).free.find? w.player.axis, hf]

/-- A definition that succeeds gives a free name a function of its own name. -/
theorem standsFor_of_define {arguments : Arguments} (h : define arguments w = .ok v) :
    ∃ f : UserFunction, f.StandsFor f.name ∧
      v = { w with functions := w.functions.insert f.name f } := by
  obtain ⟨text, body, signature, -, -, hparse, hfree, rfl⟩ := define_eq_ok h
  obtain ⟨hname, hshaped⟩ := Signature.shaped_of_parse hparse
  refine ⟨{ signature with body }, ⟨rfl, hname, ?_, hshaped⟩, rfl⟩
  exact Catalogue.free_of_findAny? hfree

variable [Audience σ]

/-- Whatever a run calls, and in whatever frame, the registry stays in order. -/
theorem invariant_registered :
    Invariant (fun _ => True) fun w : World σ => Registered w.functions where
  bound _ _ _ := trivial
  call _ _ h := h
  arm _ h := h
  disarm _ h := h
  enter _ _ h := h
  leave _ h := h
  trial _ _ h := h
  absorb h _ := h
  steer _ _ h := h
  report _ h := h
  act {w v stack call b action} _ _ _ h hv := by
    by_cases hdefine : action = .define
    · subst hdefine
      obtain ⟨f, hf, rfl⟩ := standsFor_of_define hv
      exact Registered.insert h hf
    · rw [(perform_deed hv).functions hdefine]
      exact h

end

/-! ## Sessions -/

/-- The engine after requests that were served one after the other. -/
def after (e : Engine) (requests : List Request) : Engine :=
  requests.foldl (fun e r => (e.serve r).engine) e

theorem registered_runSequence (rules : Rules) (text : String) {w : World Sink}
    (h : Registered w.functions) : Registered (runSequence rules text w).2.functions := by
  have hframes : Ensures.Frames (fun _ => True) (fun w : World Sink => Registered w.functions)
      (fun _ => True) (frame rules (rules.maxDepth + 1)) :=
    invariant_registered.frames (faults_any _ _) rules _
  unfold runSequence
  exact (hframes.run [] text w h).1

theorem registered_simulate {e : Engine} (h : Registered e.functions) (text : String)
    (closing strict : Bool) (scope : Scope) :
    Registered (e.simulate text closing strict scope).engine.functions := by
  have hworld : Registered (e.world scope).functions := h
  have hkept := registered_runSequence ⟨e.maxDepth, e.cancelled⟩ text hworld
  dsimp only [simulate]
  rcases hrun : runSequence ⟨e.maxDepth, e.cancelled⟩ text (e.world scope) with ⟨result, w⟩
  rw [hrun] at hkept
  exact hkept

theorem registered_serve {e : Engine} (h : Registered e.functions) (r : Request) :
    Registered (e.serve r).engine.functions := by
  have hready : Registered { e with cancelled := r.cancelled }.functions := h
  unfold serve
  exact registered_simulate hready r.text r.closing r.strict r.scope

theorem registered_after {e : Engine} (h : Registered e.functions) (requests : List Request) :
    Registered (e.after requests).functions := by
  unfold after
  induction requests generalizing e with
  | nil => exact h
  | cons r rest ih =>
      rw [List.foldl_cons]
      exact ih (registered_serve h r)

theorem functions_of_start {axis : Axis} {e : Engine}
    (h : e = new axis ∨ ∃ settings, ofSettings axis settings = .ok e) : e.functions = ∅ := by
  rcases h with rfl | ⟨settings, h⟩
  · rfl
  · obtain ⟨p, -, h⟩ := bind_eq_ok h
    cases h
    rfl

/-- Whatever an engine was asked, each name in its registry is an identifier that no
builtin has in any case, and stands for a function of this name that calls can fill. -/
theorem after_registered (axis : Axis) (e : Engine)
    (h : e = new axis ∨ ∃ settings, ofSettings axis settings = .ok e)
    (requests : List Request) :
    (∀ name f, (e.after requests).functions.get? name = some f →
      f.StandsFor name ∧
        ∀ scope, ((e.after requests).world scope).resolve name = .ok (.user f)) ∧
    ∀ (rules : Rules) (inner : Frame Sink) stack token (w v : World Sink) fault,
      (∀ call, w.bindToken stack token = .ok call → call.Performs .define) →
      runTokens rules (dispatch rules inner) stack [token] w = (.error fault, v) →
      v.functions = w.functions := by
  have hstart : Registered e.functions := by
    rw [functions_of_start h]
    exact registered_empty
  have hafter : Registered (e.after requests).functions := registered_after hstart requests
  constructor
  · intro name f hf
    exact ⟨hafter name f hf, fun scope => Registered.resolve hafter hf⟩
  · intro rules inner stack token w v fault hdefine hrun
    have hplain : w.IsPlain stack token := fun call hcall => ⟨.define, hdefine call hcall⟩
    rw [eq_of_plain_failed hplain hrun]

/-- A function defines another one, and a definition under the name of a builtin fails. -/
theorem after_registered_nested :
    let e := (new .horizontal).after
      [⟨"def(Glide(a, /, *rest), def(inner, x)) Glide(1)", false, true, ∅, false⟩]
    e.functions.keys = ["Glide", "inner"] ∧
      (∀ name f, e.functions.get? name = some f →
        f.StandsFor name ∧ ∀ scope, (e.world scope).resolve name = .ok (.user f)) ∧
      ∃ fault v, runTokens ⟨64, false⟩ (dispatch ⟨64, false⟩ (frame ⟨64, false⟩ 64)) []
          ["def(Air(), x)"] (e.world ∅) = (.error fault, v) ∧
        v.functions = (e.world ∅).functions := by
  dsimp only
  obtain ⟨hkept, hfails⟩ := after_registered .horizontal (new .horizontal) (.inl rfl)
    [⟨"def(Glide(a, /, *rest), def(inner, x)) Glide(1)", false, true, ∅, false⟩]
  generalize he : (new .horizontal).after
    [⟨"def(Glide(a, /, *rest), def(inner, x)) Glide(1)", false, true, ∅, false⟩] = e at hkept ⊢
  have hkeys : e.functions.keys = ["Glide", "inner"] := by
    rw [← he]
    decide +kernel
  have hends : (runTokens ⟨64, false⟩ (dispatch ⟨64, false⟩ (frame ⟨64, false⟩ 64)) []
      ["def(Air(), x)"] (e.world ∅)).1.isOk = false := by
    rw [← he]
    decide +kernel
  have hdefine : ∀ call, (e.world ∅).bindToken [] "def(Air(), x)" = .ok call →
      call.Performs .define := by
    rw [← he]
    decide +kernel
  refine ⟨hkeys, hkept, ?_⟩
  rcases hrun : runTokens ⟨64, false⟩ (dispatch ⟨64, false⟩ (frame ⟨64, false⟩ 64)) []
    ["def(Air(), x)"] (e.world ∅) with ⟨fault | calls, v⟩
  · exact ⟨fault, v, rfl, hfails _ _ _ _ _ _ _ hdefine hrun⟩
  · rw [hrun] at hends
    cases hends

end Parkour.Engine
