import Parkour.Player.Tick
import Parkour.Proofs.Player.Setting

/-!
# Valid players

The settings of a player stay in their ranges, and a pending snap is always the one that
the ceiling asks for. Ticks and settings keep a player valid.
-/

namespace Parkour.Player

variable {p q : Player}

/-- What is true of a player at any time. -/
structure Valid (p : Player) : Prop where
  speed : p.speed.toNat ≤ 256
  slowness : p.slowness.toNat ≤ 256
  jumpBoost : p.jumpBoost.toNat ≤ 256
  precision : p.precision.toNat ≤ 16
  inertia : p.inertia.isFinite = true ∧ 0 ≤ p.inertia
  groundSlip : p.groundSlip.isFinite = true ∧ 0 < p.groundSlip
  ceiling : ∀ c ∈ p.ceiling, c.isFinite = true ∧ height ≤ c
  /-- The player rises, and its head would pass the ceiling in the next tick. -/
  pendingSnap : ∀ limit ∈ p.pendingSnap, ∃ c ∈ p.ceiling,
    limit = c - height ∧ 0 < p.vy ∧ limit < p.y + p.vy

theorem valid_new (axis : Axis) : Valid { axis } := by
  have hinertia : (0.005 : Float).isFinite = true ∧ (0 : Float) ≤ 0.005 := by decide +kernel
  have hslip : defaultSlip.isFinite = true ∧ 0 < defaultSlip := by decide +kernel
  exact {
    speed := Nat.zero_le _
    slowness := Nat.zero_le _
    jumpBoost := Nat.zero_le _
    precision := by simp
    inertia := hinertia
    groundSlip := hslip
    ceiling := nofun
    pendingSnap := nofun }

/-- A snap is announced only when the next move would pass the ceiling. -/
theorem snapAt_eq_some {ceiling : Option Float} {y vy limit : Float}
    (h : snapAt ceiling y vy = some limit) :
    ∃ c ∈ ceiling, limit = c - height ∧ 0 < vy ∧ limit < y + vy := by
  unfold snapAt at h
  split at h
  · next c =>
    dsimp only at h
    split at h
    · next hpass =>
      cases h
      exact ⟨c, rfl, rfl, hpass⟩
    · cases h
  · cases h

/-- A tick in the plane touches neither the settings nor the height. -/
theorem Valid.moveInPlane (h : p.Valid) (c : Controls) : (moveInPlane p c).Valid where
  speed := h.speed
  slowness := h.slowness
  jumpBoost := h.jumpBoost
  precision := h.precision
  inertia := h.inertia
  groundSlip := h.groundSlip
  ceiling := h.ceiling
  pendingSnap := h.pendingSnap

/-- A tick up or down uses a pending snap up and announces the next one anew. -/
theorem Valid.moveInHeight (h : p.Valid) (c : Controls) : (moveInHeight p c).Valid where
  speed := h.speed
  slowness := h.slowness
  jumpBoost := h.jumpBoost
  precision := h.precision
  inertia := h.inertia
  groundSlip := h.groundSlip
  ceiling := h.ceiling
  pendingSnap := fun _ hlimit => snapAt_eq_some hlimit

theorem Valid.tick (h : p.Valid) (c : Controls) : (p.tick c).Valid := by
  have hmove : (p.move c).Valid := by
    unfold move
    split
    · exact h.moveInPlane c
    · exact h.moveInHeight c
  exact { hmove with }

/-- The players after each of some ticks in a row. -/
def ticked (p : Player) : Nat → Controls → List Player
  | 0, _ => []
  | n + 1, c => p.tick c :: (p.tick c).ticked n c.settled

theorem Valid.ticked (h : p.Valid) (n : Nat) (c : Controls) : ∀ q ∈ p.ticked n c, q.Valid := by
  induction n generalizing p c with
  | zero => exact List.forall_mem_nil _
  | succ n ih => exact List.forall_mem_cons.mpr ⟨h.tick c, ih (h.tick c) _⟩

theorem Valid.setPosition (h : p.Valid) (coordinate : Coordinate) (v : Float) :
    (p.setPosition coordinate v).Valid := by
  cases coordinate with
  | x => exact { h with }
  | z => exact { h with }
  | y => exact { h with pendingSnap := nofun }

theorem Valid.setVelocity (h : p.Valid) (coordinate : Coordinate) (v : Float) :
    (p.setVelocity coordinate v).Valid := by
  cases coordinate with
  | x => exact { h with }
  | z => exact { h with }
  | y => exact { h with pendingSnap := nofun }

theorem Setting.valid (hset : Setting p q) (h : p.Valid) : q.Valid := by
  cases hset with
  | position coordinate v => exact h.setPosition coordinate v
  | velocity coordinate v => exact h.setVelocity coordinate v
  | facing degrees => exact { h with }
  | turn degrees => exact { h with }
  | angles queued => exact { h with }
  | turns queued => exact { h with }
  | potion hset =>
      obtain ⟨checked, hlevel, rfl | rfl | rfl⟩ := setPotion_eq_ok hset
      · exact { h with speed := hlevel }
      · exact { h with slowness := hlevel }
      · exact { h with jumpBoost := hlevel }
  | precision hset =>
      obtain ⟨checked, hdigits, rfl⟩ := setPrecision_eq_ok hset
      exact { h with precision := hdigits }
  | inertia hset =>
      obtain ⟨hfinite, hsign, rfl⟩ := setInertia_eq_ok hset
      exact { h with inertia := ⟨hfinite, hsign⟩ }
  | ceiling hset =>
      obtain ⟨hceiling, rfl⟩ := setCeiling_eq_ok hset
      exact { h with ceiling := hceiling, pendingSnap := nofun }
  | slip hset =>
      obtain ⟨hfinite, hpositive, rfl⟩ := setGroundSlip_eq_ok hset
      exact { h with groundSlip := ⟨hfinite, hpositive⟩ }

end Parkour.Player
