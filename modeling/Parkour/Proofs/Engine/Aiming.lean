import Parkour.Proofs.Engine.Solving
import Parkour.Proofs.Number.Absolute

/-!
# How far a solver misses

A solver measures how far its real run went and warns of a miss. No warning means that the
goal was reached, unless the miss is no number: what is no number is not above the tolerance,
although it is not within it either.
-/

namespace Parkour.Engine

open Parkour.Language
open Player (Coordinate)
open Report (Sink)

variable {rules : Rules} {more : Nat} {stack : List String} {coordinate : Coordinate}
  {b : Builtin} {goal : Float} {w u v : World Sink} {call : Call} {aim : Aim}

/-- The real run of a solver that was called in `w`: it started from the velocity that was
found for the goal, and ended in `u`. -/
structure RealRun (rules : Rules) (more : Nat) (stack : List String) (call : Call) (b : Builtin)
    (aim : Aim) (coordinate : Coordinate) (goal : Float) (w u : World Sink) : Prop where
  aimed : goalOf aim call.arguments = .ok goal
  ran : ∃ body velocity calls, call.arguments.requireText "sequence" = .ok body ∧
    findVelocity (frame rules more) (stack ++ [b.name]) coordinate b goal body w =
      (.ok velocity, w) ∧
    (frame rules more).run (stack ++ [b.name]) body (w.steered b coordinate velocity) =
      (.ok calls, u)

/-- How much farther than its goal a real run from `w` to `u` went. -/
def missOf (coordinate : Coordinate) (goal : Float) (w u : World Sink) : Float :=
  u.player.position coordinate - w.player.position coordinate - goal

theorem position_setVelocity (p : Player) (coordinate : Coordinate) (velocity : Float) :
    (p.setVelocity coordinate velocity).position coordinate = p.position coordinate := by
  cases coordinate <;> rfl

/-- A solver that succeeds compares the way of its real run with the goal, and does nothing
else behind it. -/
theorem runSolver_eq_ok
    (h : runSolver (frame rules more) stack aim coordinate b call.arguments w = (.ok ⟨⟩, v)) :
    ∃ goal u, RealRun rules more stack call b aim coordinate goal w u ∧
      v = u.compared b w.precision (missOf coordinate goal w u) := by
  obtain ⟨goal, hgoal, h⟩ := Run.liftM_bind_eq_ok h
  obtain ⟨body, hbody, h⟩ := Run.liftM_bind_eq_ok h
  rcases findVelocity_cases with ⟨refused, hfind⟩ | ⟨velocity, -, -, hfind, -⟩
  · rw [Run.bind_apply_error hfind] at h
    cases h
  · rw [Run.bind_apply_ok hfind, Run.get_bind_apply, Run.modify_bind_apply,
      Run.get_bind_apply] at h
    obtain ⟨_, u, hrun, h⟩ := Run.bind_eq_ok h
    rw [Run.discard_apply] at hrun
    rcases hran : (frame rules more).run (stack ++ [b.name]) body
      (w.steered b coordinate velocity) with ⟨fault | calls, t⟩
    · rw [hran] at hrun
      cases hrun
    · rw [hran] at hrun
      cases hrun
      refine ⟨goal, t, ⟨hgoal, body, velocity, calls, hbody, hfind, hran⟩, ?_⟩
      have hstart : (w.steered b coordinate velocity).player.position coordinate =
          w.player.position coordinate := position_setVelocity _ _ _
      rw [hstart] at h
      exact (Prod.mk.inj h).2.symm

/-- So does the call of a solver. -/
theorem dispatch_solver_eq_ok (htarget : call.target = .builtin b)
    (heffect : b.effect = .wrapper (.solve aim coordinate))
    (h : dispatch rules (frame rules more) stack call w = (.ok ⟨⟩, v)) :
    ∃ goal u, RealRun rules more stack call b aim coordinate goal w u ∧
      v = u.compared b w.precision (missOf coordinate goal w u) := by
  obtain ⟨_, -, h⟩ := Run.liftM_bind_eq_ok h
  rw [Run.modify_bind_apply, htarget] at h
  dsimp only at h
  rw [heffect] at h
  exact runSolver_eq_ok h

/-- A miss that is not above the tolerance is within it, unless it is no number. Then the way
or the goal is not finite. -/
theorem within_or_isNaN {way : Float} (h : ¬tolerance < (way - goal).abs) :
    (way - goal).abs ≤ tolerance ∨
      (way - goal).isNaN = true ∧ ¬(way.isFinite = true ∧ goal.isFinite = true) := by
  cases hmiss : (way - goal).isNaN with
  | false =>
      have htolerance : tolerance.isNaN = false := by decide +kernel
      have habs : (way - goal).abs.isNaN = false := (Number.isNaN_abs _).trans hmiss
      exact .inl ((Number.not_lt_iff_le htolerance habs).mp h)
  | true =>
      refine .inr ⟨rfl, fun ⟨hway, hgoal⟩ => ?_⟩
      rw [Number.isNaN_sub hway hgoal] at hmiss
      cases hmiss

/-- A solver that succeeds warns of its miss if that is above the tolerance, and of nothing
else. Without its warning the way of the real run is within the tolerance of the goal, unless
the miss is no number. A finite way and a finite goal have a miss that is a number. -/
theorem dispatch_solve_missed (rules : Rules) (more : Nat) (stack : List String)
    (call : Call) (b : Builtin) (aim : Aim) (coordinate : Coordinate) (w v : World Sink)
    (htarget : call.target = .builtin b) (heffect : b.effect = .wrapper (.solve aim coordinate))
    (h : dispatch rules (frame rules more) stack call w = (.ok ⟨⟩, v)) :
    ∃ goal u, RealRun rules more stack call b aim coordinate goal w u ∧
      let way := u.player.position coordinate - w.player.position coordinate
      let miss := way - goal
      (v = u ∧ (miss.abs ≤ tolerance ∨
          miss.isNaN = true ∧ ¬(way.isFinite = true ∧ goal.isFinite = true)) ∨
        v = u.emit (.warning (b.name ++ "() missed the goal by " ++
            Report.fixed miss w.precision ++ "; inertia was triggered")) ∧
          tolerance < miss.abs) := by
  obtain ⟨goal, u, hreal, rfl⟩ := dispatch_solver_eq_ok htarget heffect h
  refine ⟨goal, u, hreal, ?_⟩
  by_cases habove : tolerance < (missOf coordinate goal w u).abs
  · exact .inr ⟨if_pos habove, habove⟩
  · exact .inl ⟨if_neg habove, within_or_isNaN habove⟩

/-- One tick of standing still travels the velocity with which it starts. -/
theorem dispatch_solve_missed_reached :
    ∃ b ∈ Catalogue.find? .horizontal "zinv",
      let w := (new .horizontal).world ∅
      ∃ goal u, RealRun ⟨1, false⟩ 1 [] (solverCall b 1 "stop") b .distance .z goal w u ∧
        dispatch ⟨1, false⟩ (frame ⟨1, false⟩ 1) [] (solverCall b 1 "stop") w = (.ok ⟨⟩, u) ∧
        (u.player.z - w.player.z - goal).abs ≤ tolerance := by
  refine ⟨(Catalogue.find? .horizontal "zinv").get (by decide +kernel), by simp, ?_⟩
  generalize hb : (Catalogue.find? .horizontal "zinv").get _ = b
  intro w
  have heffect : b.effect = .wrapper (.solve .distance .z) := by
    rw [← hb]
    decide +kernel
  have hends : (dispatch ⟨1, false⟩ (frame ⟨1, false⟩ 1) [] (solverCall b 1 "stop") w).1.isOk =
        true ∧
      (dispatch ⟨1, false⟩ (frame ⟨1, false⟩ 1) [] (solverCall b 1 "stop") w).2.player.z = 1 := by
    rw [← hb]
    decide +kernel
  rcases h : dispatch ⟨1, false⟩ (frame ⟨1, false⟩ 1) [] (solverCall b 1 "stop") w
    with ⟨fault | _, v⟩
  · rw [h] at hends
    cases hends.1
  · rw [h] at hends
    obtain ⟨goal, u, hreal, hmissed⟩ := dispatch_solve_missed ⟨1, false⟩ 1 []
      (solverCall b 1 "stop") b .distance .z w v rfl heffect h
    have hgoal : goal = 1 := (Except.ok.inj hreal.aimed).symm
    subst hgoal
    rcases hmissed with ⟨rfl, hwithin | ⟨-, hinfinite⟩⟩ | ⟨rfl, habove⟩
    · exact ⟨1, v, hreal, rfl, hwithin⟩
    · rw [show v.player.position .z = 1 from hends.2] at hinfinite
      exact absurd (by decide +kernel) hinfinite
    · rw [show u.player.position .z = 1 from hends.2] at habove
      exact absurd habove (by decide +kernel)

/-- A run that leads to infinity and back from there ends nowhere, and no warning says so. -/
theorem dispatch_solve_silent :
    ∃ b ∈ Catalogue.find? .horizontal "zinv",
      let call := solverCall b 1 "z(1e400) vz(-1e400) st"
      let w := (new .horizontal).world ∅
      ∃ u, RealRun ⟨64, false⟩ 63 [] call b .distance .z 1 w u ∧
        dispatch ⟨64, false⟩ (frame ⟨64, false⟩ 63) [] call w = (.ok ⟨⟩, u) ∧
        ¬(u.player.z - w.player.z - 1).abs ≤ tolerance := by
  refine ⟨(Catalogue.find? .horizontal "zinv").get (by decide +kernel), by simp, ?_⟩
  generalize hb : (Catalogue.find? .horizontal "zinv").get _ = b
  intro call w
  have heffect : b.effect = .wrapper (.solve .distance .z) := by
    rw [← hb]
    decide +kernel
  have hends : (dispatch ⟨64, false⟩ (frame ⟨64, false⟩ 63) [] call w).1.isOk = true ∧
      let miss := (dispatch ⟨64, false⟩ (frame ⟨64, false⟩ 63) [] call w).2.player.z - 0 - 1
      ¬tolerance < miss.abs ∧ ¬miss.abs ≤ tolerance := by
    simp only [call]
    rw [← hb]
    decide +kernel
  rcases h : dispatch ⟨64, false⟩ (frame ⟨64, false⟩ 63) [] call w with ⟨fault | _, v⟩
  · rw [h] at hends
    cases hends.1
  · rw [h] at hends
    obtain ⟨goal, u, hreal, rfl⟩ := dispatch_solver_eq_ok rfl heffect h
    have hgoal : goal = 1 := (Except.ok.inj hreal.aimed).symm
    subst hgoal
    have hplayer : (u.compared b w.precision (missOf .z 1 w u)).player = u.player := by
      unfold World.compared
      split <;> rfl
    rw [hplayer] at hends
    obtain ⟨-, hbelow, hbeyond⟩ := hends
    have hsilent : u.compared b w.precision (missOf .z 1 w u) = u := if_neg hbelow
    exact ⟨u, hreal, by rw [hsilent], hbeyond⟩

end Parkour.Engine
