import Parkour.Engine.Session
import Parkour.Proofs.Engine.Rehearsal

/-!
# Solvers

A solver tries its sequence twice before it sets a velocity and runs the sequence. What
the trials foretell has failed by then, with nothing changed.
-/

namespace Parkour.Engine

open Parkour.Language
open Player (Coordinate)
open Report (Sink)

/-! ## The trials of a solver -/

section

variable {inner : Frame Sink} {child : List String} {coordinate : Coordinate} {b : Builtin}
  {goal velocity : Float} {body : String} {w : World Sink}

/-- A trial leaves nothing behind, and it succeeds only if the sequence does. -/
theorem probe_cases :
    (∃ fault, probe inner child coordinate velocity body w = (.error fault, w)) ∨
      ∃ distance calls v, probe inner child coordinate velocity body w = (.ok distance, w) ∧
        inner.run child body (w.trial coordinate velocity) = (.ok calls, v) := by
  rw [Run.probe_apply]
  rcases inner.run child body (w.trial coordinate velocity) with ⟨fault | calls, v⟩
  · exact .inl ⟨fault, rfl⟩
  · exact .inr ⟨_, calls, v, rfl, rfl⟩

/-- The search for a velocity changes nothing, and it finds one only if the sequence
succeeds from rest. -/
theorem findVelocity_cases :
    (∃ fault, findVelocity inner child coordinate b goal body w = (.error fault, w)) ∨
      ∃ found calls v, findVelocity inner child coordinate b goal body w = (.ok found, w) ∧
        inner.run child body (w.trial coordinate 0) = (.ok calls, v) := by
  unfold findVelocity
  rcases probe_cases with ⟨fault, hrest⟩ | ⟨atRest, calls, v, hrest, hrun⟩
  · exact .inl ⟨fault, Run.bind_apply_error hrest⟩
  · rw [Run.bind_apply_ok hrest]
    rcases probe_cases with ⟨fault, hone⟩ | ⟨atOne, -, -, hone, -⟩
    · exact .inl ⟨fault, Run.bind_apply_error hone⟩
    · rw [Run.bind_apply_ok hone]
      dsimp only
      split
      · exact .inl ⟨_, rfl⟩
      · exact .inr ⟨_, calls, v, rfl, hrun⟩

end

/-! ## The real run -/

section

variable {rules : Rules} {more : Nat} {child stack : List String} {body : String}
  {coordinate : Coordinate} {b : Builtin} {w v : World Sink} {call : Call} {aim : Aim}
  {fault : Fault}

/-- The trials of a solver rehearse its real run. They lack the listeners that are set
up when the solver is called. -/
theorem rehearses_steered (w : World Sink) (b : Builtin) (coordinate : Coordinate)
    (tried velocity : Float) :
    Rehearses w.recording (w.trial coordinate tried).hushed
      (w.steered b coordinate velocity).hushed where
  names := by
    have htried : Player.Setting w.player (w.player.setVelocity coordinate tried) :=
      .velocity coordinate tried
    have hfound : Player.Setting w.player (w.player.setVelocity coordinate velocity) :=
      .velocity coordinate velocity
    exact ⟨rfl, rfl, hfound.steady.axis.trans htried.steady.axis.symm⟩
  listeners _ h := .inr h

/-- The calls that a sequence makes from a world on, those in trials among them. -/
def attempted (rules : Rules) (more : Nat) (child : List String) (body : String)
    (w : World Sink) : List Call :=
  attempts (historyOf ((frame rules more).run child body) w)

/-- A sequence that succeeds in a trial makes the same calls in the real run, from any
velocity, or fails unforeseen. -/
theorem run_foretold (b : Builtin) {tried : Float} {calls : List Call}
    (h : (frame rules more).run child body (w.trial coordinate tried) = (.ok calls, v))
    (velocity : Float) :
    (∃ u, (frame rules more).run child body (w.steered b coordinate velocity) =
      (.ok calls, u)) ∨
    ∃ fault u, (frame rules more).run child body (w.steered b coordinate velocity) =
        (.error fault, u) ∧
      Unforeseen w.recording
        (attempted rules more child body (w.trial coordinate tried)) fault := by
  rw [run_eq_retold fun s => (twins_retelling rules more s).run child body] at h ⊢
  obtain ⟨hcalls, -⟩ := Prod.mk.inj h
  have hforetold : Foretells w.recording [] Eq _ _ :=
    (foreseen_frame w.recording rules more).run child body
  rcases hforetold.foretold (rehearses_steered w b coordinate tried velocity)
    (Prod.ext hcalls rfl) with ⟨made, u, hmade, rfl, -⟩ | ⟨fault, u, hfault, hunforeseen⟩
  · rw [hmade]
    exact .inl ⟨_, rfl⟩
  · rw [hfault]
    exact .inr ⟨fault, _, rfl, hunforeseen⟩

/-- A solver that fails has changed nothing, or its real run fails unforeseen. -/
theorem runSolver_eq_error
    (h : runSolver (frame rules more) stack aim coordinate b call.arguments w =
      (.error fault, v)) :
    v = w ∨ ∃ body, call.arguments.requireText "sequence" = .ok body ∧
      Unforeseen w.recording
        (attempted rules more (stack ++ [b.name]) body (w.trial coordinate 0)) fault := by
  rcases Run.liftM_bind_eq_error h with rfl | ⟨goal, -, h⟩
  · exact .inl rfl
  rcases Run.liftM_bind_eq_error h with rfl | ⟨body, hbody, h⟩
  · exact .inl rfl
  rcases findVelocity_cases with ⟨refused, hfind⟩ | ⟨found, calls, u, hfind, htrial⟩
  · rw [Run.bind_apply_error hfind] at h
    cases h
    exact .inl rfl
  -- The velocity has been set. From here on, the real run alone can fail.
  rw [Run.bind_apply_ok hfind, Run.get_bind_apply, Run.modify_bind_apply,
    Run.get_bind_apply] at h
  rcases Run.bind_eq_error h with h | ⟨_, t, -, h⟩
  · have hfails := Run.discard_eq_error h
    rcases run_foretold b htrial found with ⟨t, hmade⟩ | ⟨met, t, hmet, hunforeseen⟩
    · cases hmade.symm.trans hfails
    · cases hmet.symm.trans hfails
      exact .inr ⟨body, hbody, hunforeseen⟩
  · cases h

end

/-- A solver that fails has changed nothing, or its sequence made a call that the trials
could not foretell to fail: one that sets up a listener of a kind that was set up already,
or one of another solver, which found no velocity. As for the sequence itself, what
succeeds in a trial makes the same calls when it runs from any velocity, unless it fails
on such a call. The trials and the real run are under the same rules: a run that is cancelled
between them could fail on any call. -/
theorem dispatch_solve_foretold (rules : Rules) (more : Nat) (stack : List String)
    (call : Call) (b : Builtin) (aim : Aim) (coordinate : Coordinate) (w : World Sink)
    (htarget : call.target = .builtin b) (heffect : b.effect = .wrapper (.solve aim coordinate)) :
    (∀ fault v, dispatch rules (frame rules more) stack call w = (.error fault, v) →
      v = w ∨ ∃ body, call.arguments.requireText "sequence" = .ok body ∧
        Unforeseen w.recording
          (attempted rules more (stack ++ [b.name]) body (w.trial coordinate 0)) fault) ∧
    ∀ body tried calls t,
      (frame rules more).run (stack ++ [b.name]) body (w.trial coordinate tried) =
        (.ok calls, t) →
      ∀ velocity,
        (∃ v, (frame rules more).run (stack ++ [b.name]) body
          (w.steered b coordinate velocity) = (.ok calls, v)) ∨
        ∃ fault v, (frame rules more).run (stack ++ [b.name]) body
            (w.steered b coordinate velocity) = (.error fault, v) ∧
          Unforeseen w.recording
            (attempted rules more (stack ++ [b.name]) body (w.trial coordinate tried)) fault := by
  constructor
  · intro fault v h
    rcases Run.liftM_bind_eq_error h with rfl | ⟨_, -, h⟩
    · exact .inl rfl
    · rw [Run.modify_bind_apply, htarget] at h
      dsimp only at h
      rw [heffect] at h
      exact runSolver_eq_error h
  · intro body tried calls t htrial velocity
    exact run_foretold b htrial velocity

/-- The call `zinv(goal, body)`. -/
def solverCall (b : Builtin) (goal : Float) (body : String) : Call where
  target := .builtin b
  arguments := { values := [("goal", .float goal), ("sequence", .text body)] }

theorem dispatch_solve_foretold_stops :
    ∃ b ∈ Catalogue.find? .horizontal "zinv",
      let w := (new .horizontal).world ∅
      (∃ fault v, dispatch ⟨1, false⟩ (frame ⟨1, false⟩ 1) [] (solverCall b 1 "stop nowhere") w =
          (.error fault, v) ∧
        (v = w ∨ ∃ body,
          (solverCall b 1 "stop nowhere").arguments.requireText "sequence" = .ok body ∧
          Unforeseen .idle (attempted ⟨1, false⟩ 1 [b.name] body (w.trial .z 0)) fault)) ∧
      ∃ calls t, (frame ⟨1, false⟩ 1).run [b.name] "stop stop" (w.trial .z 1) = (.ok calls, t) ∧
        ∀ velocity,
          (∃ v, (frame ⟨1, false⟩ 1).run [b.name] "stop stop" (w.steered b .z velocity) =
            (.ok calls, v)) ∨
          ∃ fault v, (frame ⟨1, false⟩ 1).run [b.name] "stop stop" (w.steered b .z velocity) =
              (.error fault, v) ∧
            Unforeseen .idle
              (attempted ⟨1, false⟩ 1 [b.name] "stop stop" (w.trial .z 1)) fault := by
  refine ⟨(Catalogue.find? .horizontal "zinv").get (by decide +kernel), by simp, ?_⟩
  generalize hb : (Catalogue.find? .horizontal "zinv").get _ = b
  intro w
  have heffect : b.effect = .wrapper (.solve .distance .z) := by
    rw [← hb]
    decide +kernel
  have hforetold := dispatch_solve_foretold ⟨1, false⟩ 1 [] (solverCall b 1 "stop nowhere") b
    .distance .z w rfl heffect
  constructor
  · have hfails : (dispatch ⟨1, false⟩ (frame ⟨1, false⟩ 1) [] (solverCall b 1 "stop nowhere")
        w).1.isOk = false := by
      rw [← hb]
      decide +kernel
    rcases h : dispatch ⟨1, false⟩ (frame ⟨1, false⟩ 1) [] (solverCall b 1 "stop nowhere") w
      with ⟨fault | _, v⟩
    · exact ⟨fault, v, rfl, hforetold.1 fault v h⟩
    · rw [h] at hfails
      cases hfails
  · have hruns : ((frame ⟨1, false⟩ 1).run [b.name] "stop stop" (w.trial .z 1)).1.isOk = true := by
      rw [← hb]
      decide +kernel
    rcases h : (frame ⟨1, false⟩ 1).run [b.name] "stop stop" (w.trial .z 1) with ⟨_ | calls, t⟩
    · rw [h] at hruns
      cases hruns
    · exact ⟨calls, t, rfl, hforetold.2 _ _ calls t h⟩

/-- The call `zinv(goal, body)` fails late: its sequence succeeds in both trials, and when
it fails in the real run, the velocity has been set. -/
structure FailsLate (b : Builtin) (goal : Float) (body : String) (stack : List String)
    (w : World Sink) (message : String) : Prop where
  tried : ∀ velocity ∈ [(0 : Float), 1],
    ((frame ⟨64, false⟩ 63).run (stack ++ [b.name]) body (w.trial .z velocity)).1.isOk = true
  fails : (dispatch ⟨64, false⟩ (frame ⟨64, false⟩ 63) stack (solverCall b goal body)
    w).1.mapError Fault.display = .error message
  touched : (dispatch ⟨64, false⟩ (frame ⟨64, false⟩ 63) stack (solverCall b goal body)
    w).2.player.vz ≠ w.player.vz

/-- The real run of a solver can fail where the trials did not: on a listener, when one
of its kind is set up already, and on a solver inside the sequence. -/
theorem dispatch_solve_failsLate :
    ∃ b ∈ Catalogue.find? .horizontal "zinv",
      FailsLate b 1 "inertialistener(stop)" ["inertialistener"]
        (((new .horizontal).world ∅).armed (.stop { miss := 0, label := "stop", start := 0 }))
        "TypeError: inertialistener() cannot run inside another inertia listener" ∧
      FailsLate b 1e300 "stop zinv(1, stop)" [] ((new .horizontal).world ∅)
        ("ZeroDivisionError: zinv(): the sequence travels the same distance from every " ++
          "starting speed") := by
  refine ⟨(Catalogue.find? .horizontal "zinv").get (by decide +kernel), by simp, ?_, ?_⟩
  · constructor
    · decide +kernel
    · decide +kernel
    · decide +kernel
  · constructor
    · decide +kernel
    · decide +kernel
    · decide +kernel

end Parkour.Engine
