import Mathlib.Data.List.Forall2
import Parkour.Proofs.Player.Ceiling

/-!
# What feeds back into motion

Where a player is and what is shown of it has no say in how it moves on. Two players under
the same controls keep the same velocities if they agree on what the ticks of their model
read, however much they differ in the rest.
-/

namespace Parkour.Player

variable {p q : Player}

/-- What holds of two players and is kept by every tick of both holds after each tick of a
list of controls. -/
theorem forall₂_course {R : Player → Player → Prop}
    (hstep : ∀ p q, R p q → ∀ c : Controls, R (p.tick c) (q.tick c)) (h : R p q)
    (cs : List Controls) : List.Forall₂ R (p.course cs) (q.course cs) := by
  induction cs generalizing p q with
  | nil => exact .nil
  | cons c cs ih =>
      have hnext := hstep p q h c
      exact .cons hnext (ih hnext)

/-! ### In the plane -/

/-- The velocities after a tick in the plane, before the clamps of the terrain. -/
def unconfined (p : Player) (c : Controls) : Float × Float :=
  accelerated c (yaw p c) (movement p c (slipOf p c)) (pushed c (yaw p c) (braked p c))

theorem vx_moveInPlane (p : Player) (c : Controls) :
    (moveInPlane p c).vx = confined c (unconfined p c).1 := rfl

theorem vz_moveInPlane (p : Player) (c : Controls) :
    (moveInPlane p c).vz = confined c (unconfined p c).2 := rfl

theorem prevSlip_moveInPlane (p : Player) (c : Controls) :
    (moveInPlane p c).prevSlip = dragAfter c (slipOf p c) := rfl

/-- Two players of the horizontal model agree on all that the motion in the plane reads. They
may differ in their position, in what is shown of them, in the flags of the last tick that no
later tick reads, and in what belongs to the vertical model. -/
structure SteerAlike (p q : Player) : Prop where
  axis : p.axis = .horizontal ∧ q.axis = .horizontal
  vx : p.vx = q.vx
  vz : p.vz = q.vz
  facing : p.facing = q.facing
  groundSlip : p.groundSlip = q.groundSlip
  prevSlip : p.prevSlip = q.prevSlip
  prevSprint : p.prevSprint = q.prevSprint
  prevTerrain : p.prevTerrain = q.prevTerrain
  speed : p.speed = q.speed
  slowness : p.slowness = q.slowness
  inertia : p.inertia = q.inertia
  inertiaMode : p.inertiaMode = q.inertiaMode
  angles : p.angles = q.angles
  turns : p.turns = q.turns

namespace SteerAlike

theorem facingAfter (h : SteerAlike p q) : facingAfter p = facingAfter q := by
  unfold Player.facingAfter
  rw [h.turns, h.facing]

theorem yaw (h : SteerAlike p q) (c : Controls) : yaw p c = yaw q c := by
  unfold Player.yaw
  rw [h.angles, h.facing, h.turns]

theorem slipOf (h : SteerAlike p q) (c : Controls) : slipOf p c = slipOf q c := by
  unfold Player.slipOf
  rw [h.groundSlip]

theorem dragged (h : SteerAlike p q) (c : Controls) (v : Float) :
    dragged p c v = dragged q c v := by
  unfold Player.dragged
  rw [h.prevTerrain, h.prevSlip]

theorem stopped (h : SteerAlike p q) (vx vz : Float) : stopped p vx vz = stopped q vx vz := by
  unfold Player.stopped
  rw [h.inertiaMode, h.inertia]

theorem braked (h : SteerAlike p q) (c : Controls) : braked p c = braked q c := by
  unfold Player.braked
  rw [h.vx, h.vz, h.dragged, h.dragged, h.stopped]

theorem movement (h : SteerAlike p q) (c : Controls) (slip : Float32) :
    movement p c slip = movement q c slip := by
  unfold Player.movement
  rw [h.prevSprint, h.speed, h.slowness]

theorem unconfined (h : SteerAlike p q) (c : Controls) : unconfined p c = unconfined q c := by
  unfold Player.unconfined
  rw [h.yaw, h.slipOf, h.movement, h.braked]

theorem moveInPlane (h : SteerAlike p q) (c : Controls) :
    SteerAlike (moveInPlane p c) (moveInPlane q c) where
  axis := h.axis
  vx := by rw [vx_moveInPlane, vx_moveInPlane, h.unconfined]
  vz := by rw [vz_moveInPlane, vz_moveInPlane, h.unconfined]
  facing := h.facingAfter
  groundSlip := h.groundSlip
  prevSlip := by rw [prevSlip_moveInPlane, prevSlip_moveInPlane, h.slipOf]
  prevSprint := rfl
  prevTerrain := rfl
  speed := h.speed
  slowness := h.slowness
  inertia := h.inertia
  inertiaMode := h.inertiaMode
  angles := congrArg advance h.angles
  turns := congrArg advance h.turns

theorem tick (h : SteerAlike p q) (c : Controls) : SteerAlike (p.tick c) (q.tick c) := by
  have hmove : SteerAlike (p.move c) (q.move c) := by
    rw [move, move, h.axis.1, h.axis.2]
    exact h.moveInPlane c
  exact { hmove with }

end SteerAlike

/-! ### Up and down -/

theorem vy_moveInHeight (p : Player) (c : Controls) :
    (moveInHeight p c).vy =
      risen p c (if (carried p).2.abs < p.inertia then 0 else (carried p).2) := rfl

/-- Two players of the vertical model without a ceiling agree on all that the velocity upwards
depends on. -/
structure RiseAlike (p q : Player) : Prop where
  axis : p.axis = .vertical ∧ q.axis = .vertical
  ceiling : p.ceiling = none ∧ q.ceiling = none
  pendingSnap : p.pendingSnap = none ∧ q.pendingSnap = none
  vy : p.vy = q.vy
  jumpBoost : p.jumpBoost = q.jumpBoost
  inertia : p.inertia = q.inertia

namespace RiseAlike

/-- Without a snap, a tick starts with the velocity of the one before. -/
theorem carried (h : RiseAlike p q) : (carried p).2 = (carried q).2 := by
  unfold Player.carried
  rw [h.pendingSnap.1, h.pendingSnap.2]
  exact h.vy

theorem risen (h : RiseAlike p q) (c : Controls) (v : Float) : risen p c v = risen q c v := by
  unfold Player.risen jumpSpeed
  rw [h.jumpBoost]

theorem moveInHeight (h : RiseAlike p q) (c : Controls) :
    RiseAlike (moveInHeight p c) (moveInHeight q c) where
  axis := h.axis
  ceiling := h.ceiling
  pendingSnap := by
    rw [pendingSnap_moveInHeight, pendingSnap_moveInHeight, h.ceiling.1, h.ceiling.2]
    exact ⟨rfl, rfl⟩
  vy := by rw [vy_moveInHeight, vy_moveInHeight, h.carried, h.inertia, h.risen]
  jumpBoost := h.jumpBoost
  inertia := h.inertia

theorem tick (h : RiseAlike p q) (c : Controls) : RiseAlike (p.tick c) (q.tick c) := by
  have hmove : RiseAlike (p.move c) (q.move c) := by
    rw [move, move, h.axis.1, h.axis.2]
    exact h.moveInHeight c
  exact { hmove with }

end RiseAlike

/-! ### Whole courses -/

theorem jumpBoost_tick (p : Player) (c : Controls) : (p.tick c).jumpBoost = p.jumpBoost := by
  change (p.move c).jumpBoost = p.jumpBoost
  unfold move
  split <;> rfl

/-- Position and display do not feed back into motion. Two players in the plane that agree on
what steers them go on to agree on it after every tick of the same controls, and on the jump
boost if they did so before; two players that go up and down without a ceiling keep the same
velocity. -/
theorem course_alike (cs : List Controls) :
    (∀ p q : Player, SteerAlike p q →
        List.Forall₂ (fun p' q' => SteerAlike p' q' ∧
            (p.jumpBoost = q.jumpBoost → p'.jumpBoost = q'.jumpBoost))
          (p.course cs) (q.course cs)) ∧
      ∀ p q : Player, RiseAlike p q →
        List.Forall₂ (fun p' q' => p'.vy = q'.vy) (p.course cs) (q.course cs) := by
  constructor
  · intro p q h
    refine forall₂_course ?_ ⟨h, id⟩ cs
    rintro p' q' ⟨halike, hboost⟩ c
    refine ⟨halike.tick c, fun hsame => ?_⟩
    rw [jumpBoost_tick, jumpBoost_tick, hboost hsame]
  · intro p q h
    have hcourse : List.Forall₂ RiseAlike (p.course cs) (q.course cs) :=
      forall₂_course (fun _ _ halike c => halike.tick c) h cs
    exact hcourse.imp fun _ _ halike => halike.vy

/-- A sprinted jump from another place, and a jump from another height. -/
theorem course_alike_apart :
    let p : Player := { axis := .horizontal, vz := 0.1, turns := [15] }
    let q : Player := { p with
      x := 8, z := -3, precision := 2, prevSneak := true, terrain := .fluids, phase := .air
      ticks := 40, y := 1, vy := 0.5, ceiling := some 3 }
    let u : Player := { axis := .vertical, vy := 0.2, jumpBoost := 1 }
    let v : Player := { u with
      y := 64, precision := 0, ticks := 9, prevSprint := true, terrain := .fluids, vx := 1 }
    let jump : Controls := { phase := .jump, keys := { forward := true }, sprint := true }
    let cs := [jump, jump.settled]
    SteerAlike p q ∧ RiseAlike u v ∧
      List.Forall₂ (fun p' q' => SteerAlike p' q' ∧
          (p.jumpBoost = q.jumpBoost → p'.jumpBoost = q'.jumpBoost))
        (p.course cs) (q.course cs) ∧
      List.Forall₂ (fun u' v' => u'.vy = v'.vy) (u.course cs) (v.course cs) := by
  intro p q u v jump cs
  have hsteer : SteerAlike p q :=
    ⟨⟨rfl, rfl⟩, rfl, rfl, rfl, rfl, rfl, rfl, rfl, rfl, rfl, rfl, rfl, rfl, rfl⟩
  have hrise : RiseAlike u v := ⟨⟨rfl, rfl⟩, ⟨rfl, rfl⟩, ⟨rfl, rfl⟩, rfl, rfl, rfl⟩
  exact ⟨hsteer, hrise, (course_alike cs).1 p q hsteer, (course_alike cs).2 u v hrise⟩

end Parkour.Player
