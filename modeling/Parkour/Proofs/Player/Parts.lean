import Parkour.Player.Tick
import Parkour.Proofs.Player.Validity

/-!
# The parts of a player

Each model of motion has a part of the player of its own, and moves no other part. What is
left is common to both.
-/

namespace Parkour.Player

variable {p q r : Player}

/-- What only the motion in the plane has to do with. -/
structure PlanePart where
  x : Float
  z : Float
  vx : Float
  vz : Float
  facing : Float32
  groundSlip : Float32
  prevSlip : Float32
  speed : UInt16
  slowness : UInt16
  angles : List Float32
  turns : List Float32

/-- What only the motion up and down has to do with. -/
structure HeightPart where
  y : Float
  vy : Float
  jumpBoost : UInt16
  ceiling : Option Float
  pendingSnap : Option Float

def planePart (p : Player) : PlanePart :=
  ⟨p.x, p.z, p.vx, p.vz, p.facing, p.groundSlip, p.prevSlip, p.speed, p.slowness, p.angles,
    p.turns⟩

def heightPart (p : Player) : HeightPart :=
  ⟨p.y, p.vy, p.jumpBoost, p.ceiling, p.pendingSnap⟩

/-- The model is the same, and so is the part of the other one. -/
def Isolated (p q : Player) : Prop :=
  q.axis = p.axis ∧
    match p.axis with
    | .horizontal => q.heightPart = p.heightPart
    | .vertical => q.planePart = p.planePart

theorem isolated_of_heightPart (haxis : p.axis = .horizontal) (hq : q.axis = p.axis)
    (h : q.heightPart = p.heightPart) : Isolated p q := by
  refine ⟨hq, ?_⟩
  rw [haxis]
  exact h

theorem isolated_of_planePart (haxis : p.axis = .vertical) (hq : q.axis = p.axis)
    (h : q.planePart = p.planePart) : Isolated p q := by
  refine ⟨hq, ?_⟩
  rw [haxis]
  exact h

theorem isolated_of_parts (hq : q.axis = p.axis) (hheight : q.heightPart = p.heightPart)
    (hplane : q.planePart = p.planePart) : Isolated p q := by
  cases haxis : p.axis with
  | horizontal => exact isolated_of_heightPart haxis hq hheight
  | vertical => exact isolated_of_planePart haxis hq hplane

theorem Isolated.refl (p : Player) : Isolated p p := isolated_of_parts rfl rfl rfl

theorem Isolated.trans (hpq : Isolated p q) (hqr : Isolated q r) : Isolated p r := by
  obtain ⟨hpq, hpart⟩ := hpq
  obtain ⟨hqr, hnext⟩ := hqr
  cases haxis : p.axis with
  | horizontal =>
      rw [haxis] at hpq hpart
      rw [hpq] at hqr hnext
      exact isolated_of_heightPart haxis (hqr.trans haxis.symm) (hnext.trans hpart)
  | vertical =>
      rw [haxis] at hpq hpart
      rw [hpq] at hqr hnext
      exact isolated_of_planePart haxis (hqr.trans haxis.symm) (hnext.trans hpart)

/-! ### Ticks -/

theorem isolated_tick (p : Player) (c : Controls) : Isolated p (p.tick c) := by
  cases haxis : p.axis with
  | horizontal =>
      have hmove : p.move c = moveInPlane p c := by rw [move, haxis]
      refine isolated_of_heightPart haxis (axis_tick p c) ?_
      rw [tick, hmove]
      rfl
  | vertical =>
      have hmove : p.move c = moveInHeight p c := by rw [move, haxis]
      refine isolated_of_planePart haxis (axis_tick p c) ?_
      rw [tick, hmove]
      rfl

theorem isolated_ticked (p : Player) (n : Nat) (c : Controls) :
    ∀ q ∈ p.ticked n c, Isolated p q := by
  induction n generalizing p c with
  | zero => exact List.forall_mem_nil _
  | succ n ih =>
      have hfirst := isolated_tick p c
      exact List.forall_mem_cons.mpr
        ⟨hfirst, fun q hq => hfirst.trans (ih (p.tick c) c.settled q hq)⟩

/-! ### Settings -/

/-- The model to which a coordinate belongs. -/
def Coordinate.model : Coordinate → Axis
  | .x => .horizontal
  | .z => .horizontal
  | .y => .vertical

/-- The model to which an effect belongs. -/
def Potion.model : Potion → Axis
  | .speed => .horizontal
  | .slowness => .horizontal
  | .jumpBoost => .vertical

theorem isolated_setPosition (coordinate : Coordinate) (v : Float)
    (h : coordinate.model = p.axis) : Isolated p (p.setPosition coordinate v) := by
  cases coordinate with
  | x => exact isolated_of_heightPart h.symm rfl rfl
  | z => exact isolated_of_heightPart h.symm rfl rfl
  | y => exact isolated_of_planePart h.symm rfl rfl

theorem isolated_setVelocity (coordinate : Coordinate) (v : Float)
    (h : coordinate.model = p.axis) : Isolated p (p.setVelocity coordinate v) := by
  cases coordinate with
  | x => exact isolated_of_heightPart h.symm rfl rfl
  | z => exact isolated_of_heightPart h.symm rfl rfl
  | y => exact isolated_of_planePart h.symm rfl rfl

theorem isolated_setPotion {potion : Potion} {level : Int} (h : potion.model = p.axis)
    (hset : p.setPotion potion level = .ok q) : Isolated p q := by
  obtain ⟨checked, -, hset⟩ := bind_eq_ok hset
  cases potion with
  | speed =>
      cases hset
      exact isolated_of_heightPart h.symm rfl rfl
  | slowness =>
      cases hset
      exact isolated_of_heightPart h.symm rfl rfl
  | jumpBoost =>
      cases hset
      exact isolated_of_planePart h.symm rfl rfl

end Parkour.Player
