import Parkour.Engine.World
import Parkour.Proofs.Outcome

/-!
# Calls that tokens make

A token that makes a call to a builtin names one of the model of its player, and the keys,
the modifiers and the arguments of the call are bound to it one after the other.
-/

namespace Parkour.Language

theorem Catalogue.find?_eq_some {axis : Player.Axis} {name : String} {b : Builtin}
    (h : Catalogue.find? axis name = some b) :
    b ∈ Catalogue.all ∧ b.belongsTo axis = true := by
  unfold Catalogue.find? at h
  have hfound := List.find?_some h
  obtain ⟨hbelongs, -⟩ := Bool.and_eq_true_iff.mp hfound
  exact ⟨List.mem_of_find?_eq_some h, hbelongs⟩

/-- The parameters of a target. A sequence has none. -/
def Target.parameters : Target → List Parameter
  | .builtin b => b.parameters
  | .user f => f.parameters
  | .sequence _ _ => []

namespace Binding

theorem target_of_bindCall {command : Command} {target : Target} {scope : Scope}
    {stack : List String} {call : Call}
    (h : Binding.bindCall command target scope stack = .ok call) : call.target = target := by
  cases target with
  | builtin b =>
      dsimp only [Binding.bindCall] at h
      split at h
      · cases h
      · obtain ⟨keys, -, h⟩ := bind_eq_ok h
        obtain ⟨modifiers, -, h⟩ := bind_eq_ok h
        obtain ⟨arguments, -, h⟩ := bind_eq_ok h
        cases h
        rfl
  | user f =>
      obtain ⟨_, -, h⟩ := bind_eq_ok h
      obtain ⟨arguments, -, h⟩ := bind_eq_ok h
      cases h
      rfl
  | sequence name body =>
      obtain ⟨_, -, h⟩ := bind_eq_ok h
      dsimp only at h
      split at h
      · cases h
      · cases h
        rfl

/-- The arguments of a call are bound to the parameters of its target. -/
theorem arguments_of_bindCall {command : Command} {target : Target} {scope : Scope}
    {stack : List String} {call : Call}
    (h : Binding.bindCall command target scope stack = .ok call) :
    bind target.name target.parameters command.arguments scope stack = .ok call.arguments := by
  cases target with
  | builtin b =>
      dsimp only [Binding.bindCall] at h
      split at h
      · cases h
      · obtain ⟨keys, -, h⟩ := bind_eq_ok h
        obtain ⟨modifiers, -, h⟩ := bind_eq_ok h
        obtain ⟨arguments, harguments, h⟩ := bind_eq_ok h
        cases h
        exact harguments
  | user f =>
      obtain ⟨_, -, h⟩ := bind_eq_ok h
      obtain ⟨arguments, harguments, h⟩ := bind_eq_ok h
      cases h
      exact harguments
  | sequence name body =>
      obtain ⟨_, -, h⟩ := bind_eq_ok h
      dsimp only at h
      split at h
      · cases h
      · next hnone =>
        cases h
        rw [Bool.not_eq_true, Option.isSome_eq_false_iff, Option.isNone_iff_eq_none] at hnone
        rw [hnone]
        rfl

/-- The parts of a call that a command makes to a builtin. -/
structure Parts (command : Command) (b : Builtin) (scope : Scope) (stack : List String)
    (call : Call) : Prop where
  reverse : call.reverse = command.reverse
  keys : bindKeys b command.keys = .ok call.keys
  modifiers : bindModifiers b.name b.modifiers command.modifiers = .ok call.modifiers
  arguments : bind b.name b.parameters command.arguments scope stack = .ok call.arguments

theorem parts_of_bindCall {command : Command} {b : Builtin} {scope : Scope}
    {stack : List String} {call : Call}
    (h : bindCall command (.builtin b) scope stack = .ok call) :
    Parts command b scope stack call := by
  dsimp only [bindCall] at h
  split at h
  · cases h
  · obtain ⟨keys, hkeys, h⟩ := bind_eq_ok h
    obtain ⟨modifiers, hmodifiers, h⟩ := bind_eq_ok h
    obtain ⟨arguments, harguments, h⟩ := bind_eq_ok h
    cases h
    exact ⟨rfl, hkeys, hmodifiers, harguments⟩

end Binding

end Parkour.Language

namespace Parkour.Engine

open Parkour.Language

variable {σ : Type} {w : World σ} {stack : List String} {token name : String} {call : Call}
  {b : Builtin}

/-- Only a name of the catalogue stands for a builtin. -/
theorem resolve_eq_builtin (h : w.resolve name = .ok (.builtin b)) :
    Catalogue.find? w.player.axis name = some b := by
  unfold World.resolve at h
  split at h
  · next found hfound =>
    cases h
    exact hfound
  · split at h
    · cases h
    · split at h
      · cases h
      · cases h

/-- Only a name of the registry stands for a function that was defined. -/
theorem resolve_eq_user {f : UserFunction} (h : w.resolve name = .ok (.user f)) :
    w.functions.get? name = some f := by
  unfold World.resolve at h
  split at h
  · cases h
  · split at h
    · next found hfound =>
      cases h
      exact hfound
    · split at h <;> cases h

/-- How a token makes a call to a builtin. -/
theorem bindToken_eq_builtin (h : w.bindToken stack token = .ok call)
    (htarget : call.target = .builtin b) :
    (b ∈ Catalogue.all ∧ b.belongsTo w.player.axis = true) ∧
      ∃ command, Binding.Parts command b w.scope stack call := by
  obtain ⟨command, -, h⟩ := bind_eq_ok h
  obtain ⟨target, hresolve, h⟩ := bind_eq_ok h
  split at h
  · next bound hbound =>
    cases h
    rw [← Binding.target_of_bindCall hbound, htarget] at hresolve hbound
    refine ⟨Catalogue.find?_eq_some (resolve_eq_builtin hresolve), command, ?_⟩
    exact Binding.parts_of_bindCall hbound
  · cases h

/-- How a token makes a call to anything. -/
theorem arguments_of_bindToken (h : w.bindToken stack token = .ok call) :
    ∃ command, Command.parse stack token = .ok command ∧
      w.resolve command.name = .ok call.target ∧
      Binding.bind call.target.name call.target.parameters command.arguments w.scope stack =
        .ok call.arguments := by
  obtain ⟨command, hcommand, h⟩ := bind_eq_ok h
  obtain ⟨target, hresolve, h⟩ := bind_eq_ok h
  split at h
  · next bound hbound =>
    cases h
    rw [Binding.target_of_bindCall hbound]
    exact ⟨command, hcommand, hresolve, Binding.arguments_of_bindCall hbound⟩
  · cases h

theorem mem_catalogue_of_bindToken (h : w.bindToken stack token = .ok call)
    (htarget : call.target = .builtin b) : b ∈ Catalogue.all := by
  obtain ⟨⟨hmem, -⟩, -⟩ := bindToken_eq_builtin h htarget
  exact hmem

end Parkour.Engine
