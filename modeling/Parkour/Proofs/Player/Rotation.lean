import Parkour.Proofs.Player.Feedback

/-!
# Rotation over several ticks

Every tick takes at most one facing and one turn from the queues. Which facing a tick has and
which one is left as the default can therefore be read off the player before the first of
them.
-/

namespace Parkour.Player

variable {p q : Player} {n : Nat}

/-- The default facing after the first turns of the queue. -/
def plannedFacing (p : Player) (n : Nat) : Float32 :=
  (p.turns.take n).foldl (· + ·) p.facing

/-- The facing of the tick that comes after `n` others: a facing that was queued for it, else
the one given with the call, else the default one by then, plus a turn that was queued for it
and the offset of the call. -/
def plannedYaw (p : Player) (n : Nat) (c : Controls) : Float32 :=
  let base := p.angles[n]?.getD (c.rotation.getD (p.plannedFacing n))
  let turned := match p.turns[n]? with
    | some delta => base + delta
    | none => base
  turned + c.facingOffset

theorem plannedFacing_succ (p : Player) (n : Nat) :
    p.plannedFacing (n + 1) = p.turns[n]?.elim (p.plannedFacing n) (p.plannedFacing n + ·) := by
  unfold plannedFacing
  rw [List.take_add_one, List.foldl_append]
  cases p.turns[n]? with
  | none => rfl
  | some delta => rfl

/-- What `n` ticks in the plane leave of the queues of a player, and its default facing. -/
structure Rotated (p : Player) (n : Nat) (q : Player) : Prop where
  axis : q.axis = .horizontal
  angles : q.angles = p.angles.drop n
  turns : q.turns = p.turns.drop n
  facing : q.facing = p.plannedFacing n

namespace Rotated

theorem head?_angles (h : Rotated p n q) : q.angles.head? = p.angles[n]? := by
  rw [h.angles, List.head?_drop]

theorem head?_turns (h : Rotated p n q) : q.turns.head? = p.turns[n]? := by
  rw [h.turns, List.head?_drop]

theorem facingAfter (h : Rotated p n q) : facingAfter q = p.plannedFacing (n + 1) := by
  rw [plannedFacing_succ, ← h.head?_turns, ← h.facing]
  unfold Player.facingAfter
  cases q.turns with
  | nil => rfl
  | cons delta rest => rfl

theorem yaw (h : Rotated p n q) (c : Controls) : yaw q c = p.plannedYaw n c := by
  unfold Player.yaw plannedYaw
  rw [← h.head?_angles, ← h.head?_turns, ← h.facing]
  cases q.angles with
  | nil =>
      cases q.turns with
      | nil => rfl
      | cons delta rest => rfl
  | cons angle others =>
      cases q.turns with
      | nil => rfl
      | cons delta rest => rfl

theorem move_eq (h : Rotated p n q) (c : Controls) : q.move c = moveInPlane q c := by
  rw [move, h.axis]

/-- One tick takes one entry from each queue, as far as there are any. -/
theorem tick (h : Rotated p n q) (c : Controls) : Rotated p (n + 1) (q.tick c) := by
  have hmoved : Rotated p (n + 1) (q.move c) := by
    rw [h.move_eq]
    exact {
      axis := h.axis
      angles := by
        change q.angles.tail = p.angles.drop (n + 1)
        rw [h.angles, List.tail_drop]
      turns := by
        change q.turns.tail = p.turns.drop (n + 1)
        rw [h.turns, List.tail_drop]
      facing := h.facingAfter }
  exact { hmoved with }

/-- So does each one of several ticks. -/
theorem run (h : Rotated p n q) (cs : List Controls) :
    Rotated p (n + cs.length) (cs.foldl Player.tick q) := by
  induction cs generalizing n q with
  | nil => exact h
  | cons c cs ih =>
      have hrest := ih (h.tick c)
      rw [List.length_cons, Nat.add_comm cs.length 1, ← Nat.add_assoc]
      exact hrest

end Rotated

theorem rotated_zero (haxis : p.axis = .horizontal) : Rotated p 0 p :=
  ⟨haxis, List.drop_zero.symm, List.drop_zero.symm, rfl⟩

/-- A run of ticks from a player that moves in the plane. Afterwards as many entries as there
were ticks are gone from the front of each queue, and the turns among them were added to the
default facing from the left to the right. A tick of the run turns to the facing that was
planned for it, and its velocities are those of this facing. -/
theorem run_rotation (haxis : p.axis = .horizontal) (cs : List Controls) :
    (cs.foldl tick p).angles = p.angles.drop cs.length ∧
      (cs.foldl tick p).turns = p.turns.drop cs.length ∧
      (cs.foldl tick p).facing = (p.turns.take cs.length).foldl (· + ·) p.facing ∧
      ∀ (i : Nat) (c : Controls), cs[i]? = some c →
        let before := (cs.take i).foldl tick p
        let facing := p.plannedYaw i c
        let v := accelerated c facing (movement before c (slipOf before c))
          (pushed c facing (braked before c))
        before.facing = p.plannedFacing i ∧ yaw before c = facing ∧
          (before.tick c).vx = confined c v.1 ∧ (before.tick c).vz = confined c v.2 := by
  have hrun : ∀ cs : List Controls, Rotated p cs.length (cs.foldl tick p) := by
    intro cs
    have hcs := (rotated_zero haxis).run cs
    rwa [Nat.zero_add] at hcs
  refine ⟨(hrun cs).angles, (hrun cs).turns, (hrun cs).facing, fun i c hc => ?_⟩
  obtain ⟨hi, -⟩ := List.getElem?_eq_some_iff.mp hc
  have hbefore := hrun (cs.take i)
  rw [List.length_take, Nat.min_eq_left hi.le] at hbefore
  have hvx := vx_moveInPlane ((cs.take i).foldl tick p) c
  have hvz := vz_moveInPlane ((cs.take i).foldl tick p) c
  rw [unconfined, hbefore.yaw, ← hbefore.move_eq] at hvx hvz
  exact ⟨hbefore.facing, hbefore.yaw c, hvx, hvz⟩

/-- A queued facing and two queued turns, used up by a run of three ticks. -/
theorem run_rotation_queued :
    let p : Player := { axis := .horizontal, facing := 10, angles := [90], turns := [15, 30] }
    let ahead : Controls := { phase := .ground, keys := { forward := true } }
    let slanted : Controls := { ahead with rotation := some 120, facingOffset := 45 }
    let cs := [ahead, slanted, ahead]
    (cs.foldl tick p).angles = [] ∧ (cs.foldl tick p).turns = [] ∧
      (cs.foldl tick p).facing = 55 ∧ yaw p ahead = 105 ∧ yaw (p.tick ahead) slanted = 195 ∧
      yaw ((p.tick ahead).tick slanted) ahead = 55 := by
  intro p ahead slanted cs
  obtain ⟨hangles, hturns, hfacing, hticks⟩ := run_rotation (p := p) rfl cs
  have hsum : (p.turns.take cs.length).foldl (· + ·) p.facing = 55 := by decide +kernel
  have hfirst : p.plannedYaw 0 ahead = 105 := by decide +kernel
  have hsecond : p.plannedYaw 1 slanted = 195 := by decide +kernel
  have hthird : p.plannedYaw 2 ahead = 55 := by decide +kernel
  exact ⟨hangles, hturns, hfacing.trans hsum, (hticks 0 ahead rfl).2.1.trans hfirst,
    (hticks 1 slanted rfl).2.1.trans hsecond, (hticks 2 ahead rfl).2.1.trans hthird⟩

end Parkour.Player
