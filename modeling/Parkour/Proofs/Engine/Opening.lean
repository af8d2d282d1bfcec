import Parkour.Proofs.Engine.Upkeep

/-!
# Frames that calls open

A call opens frames of its own name only, each right inside the frame in which it is
made. So nothing is lost when all other frames are closed to it.
-/

namespace Parkour.Engine

open Parkour.Language

variable {σ : Type}

/-- The ways into a frame for as many enclosing calls as told. All others are closed. -/
def Frame.only (inner : Frame σ) (length : Nat) : Frame σ where
  run child text := if child.length = length then inner.run child text else pure []
  dispatch child call := if child.length = length then inner.dispatch child call else pure ()

section

variable {inner : Frame σ} {stack : List String} (name : String)

@[simp] theorem only_run :
    (inner.only (stack.length + 1)).run (stack ++ [name]) = inner.run (stack ++ [name]) := by
  funext text
  exact if_pos List.length_append

@[simp] theorem only_dispatch :
    (inner.only (stack.length + 1)).dispatch (stack ++ [name]) =
      inner.dispatch (stack ++ [name]) := by
  funext call
  exact if_pos List.length_append

end

/-- A call opens frames right inside its own. -/
theorem dispatch_only [Audience σ] (rules : Rules) (inner : Frame σ) (stack : List String)
    (call : Call) :
    dispatch rules (inner.only (stack.length + 1)) stack call =
      dispatch rules inner stack call := by
  unfold dispatch
  cases call.target with
  | user f => simp only [runUser, only_run]
  | sequence name body => simp only [only_run]
  | builtin b =>
      dsimp only
      cases b.effect with
      | action action => rfl
      | wrapper wrapper =>
          cases wrapper with
          | solve aim coordinate =>
              simp only [wrap, runSolver, findVelocity, probe, only_run]
          | watch watch => simp only [wrap, runWatched, only_run]
          | again => simp only [wrap, runAgain, only_run, only_dispatch]

/-- What the frames for so many enclosing calls keep, all keep once the others are closed. -/
theorem frames_only [Audience σ] {T : World σ → World σ → Prop} (hT : Groundwork T)
    {inner : Frame σ} {length : Nat}
    (hrun : ∀ child text, child.length = length → Keeps T (inner.run child text))
    (hdispatch : ∀ child call, child.length = length → Keeps T (inner.dispatch child call)) :
    Upkeep.Frames T (inner.only length) := by
  constructor
  · intro child text
    dsimp only [Frame.only]
    split
    · next hlength => exact hrun child text hlength
    · exact hT.keeps_pure []
  · intro child call
    dsimp only [Frame.only]
    split
    · next hlength => exact hdispatch child call hlength
    · exact hT.keeps_pure ()

end Parkour.Engine
