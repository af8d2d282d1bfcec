import Parkour.Player.HeightMotion
import Parkour.Player.PlaneMotion
/-!
# Ticks

One tick under the model of the player.
-/

namespace Parkour.Player

/-- The player moved under its model, its clock apart. -/
def move (p : Player) (c : Controls) : Player :=
  match p.axis with
  | .horizontal => moveInPlane p c
  | .vertical => moveInHeight p c

/-- The player after one tick. -/
def tick (p : Player) (c : Controls) : Player :=
  { move p c with ticks := p.ticks + 1 }

@[simp] theorem axis_move (p : Player) (c : Controls) : (p.move c).axis = p.axis := by
  unfold move
  split <;> rfl

@[simp] theorem axis_tick (p : Player) (c : Controls) : (p.tick c).axis = p.axis :=
  axis_move p c

@[simp] theorem ticks_tick (p : Player) (c : Controls) : (p.tick c).ticks = p.ticks + 1 := rfl

end Parkour.Player
