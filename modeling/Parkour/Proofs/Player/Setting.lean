import Parkour.Player.Basic
import Parkour.Proofs.Number.Order
import Parkour.Proofs.Outcome

/-!
# Settings of a player

What each setting of a player changes, and in which range a setting lies that was not
refused.
-/

namespace Parkour.Player

variable {p q : Player}

theorem checkLevel_eq_ok {potion : Potion} {level : Int} {checked : UInt16}
    (h : checkLevel potion level = .ok checked) : checked.toNat ≤ 256 := by
  unfold checkLevel at h
  split at h
  · next hrange =>
    cases h
    have hlow : level.toNat ≤ 256 := Int.toNat_le.mpr hrange.2
    exact Nat.le_trans (Nat.mod_le _ _) hlow
  · cases h

theorem checkSlip_eq_ok {slip checked : Float32} (h : checkSlip slip = .ok checked) :
    checked = slip ∧ slip.isFinite = true ∧ 0 < slip := by
  unfold checkSlip at h
  split at h
  · cases h
  · next hgood =>
    cases h
    simp only [Bool.or_eq_true, Bool.not_eq_true', decide_eq_true_eq, not_or,
      Bool.not_eq_false] at hgood
    exact ⟨rfl, hgood.1, Number.lt_of_not_le hgood.1 rfl hgood.2⟩

theorem setPotion_eq_ok {potion : Potion} {level : Int} (h : p.setPotion potion level = .ok q) :
    ∃ checked : UInt16, checked.toNat ≤ 256 ∧ (q = { p with speed := checked } ∨
      q = { p with slowness := checked } ∨ q = { p with jumpBoost := checked }) := by
  obtain ⟨checked, hchecked, hset⟩ := bind_eq_ok h
  refine ⟨checked, checkLevel_eq_ok hchecked, ?_⟩
  cases potion with
  | speed =>
      cases hset
      exact .inl rfl
  | slowness =>
      cases hset
      exact .inr (.inl rfl)
  | jumpBoost =>
      cases hset
      exact .inr (.inr rfl)

theorem setPrecision_eq_ok {digits : Int} (h : p.setPrecision digits = .ok q) :
    ∃ checked : UInt64, checked.toNat ≤ 16 ∧ q = { p with precision := checked } := by
  unfold setPrecision at h
  split at h
  · next hrange =>
    cases h
    have hlow : digits.toNat ≤ 16 := Int.toNat_le.mpr hrange.2
    exact ⟨_, Nat.le_trans (Nat.mod_le _ _) hlow, rfl⟩
  · cases h

theorem setInertia_eq_ok {threshold : Float} {mode : InertiaMode}
    (h : p.setInertia threshold mode = .ok q) :
    threshold.isFinite = true ∧ 0 ≤ threshold ∧
      q = { p with inertia := threshold, inertiaMode := mode } := by
  unfold setInertia at h
  split at h
  · cases h
  · next hgood =>
    cases h
    simp only [Bool.or_eq_true, Bool.not_eq_true', decide_eq_true_eq, not_or,
      Bool.not_eq_false] at hgood
    exact ⟨hgood.1, Number.le_of_not_lt hgood.1 rfl hgood.2, rfl⟩

theorem setCeiling_eq_ok {ceiling : Option Float} (h : p.setCeiling ceiling = .ok q) :
    (∀ c ∈ ceiling, c.isFinite = true ∧ height ≤ c) ∧
      q = { p with ceiling, pendingSnap := none } := by
  unfold setCeiling at h
  split at h
  · next value =>
    split at h
    · cases h
    · next hgood =>
      cases h
      simp only [Bool.or_eq_true, Bool.not_eq_true', decide_eq_true_eq, not_or,
        Bool.not_eq_false] at hgood
      refine ⟨?_, rfl⟩
      intro c hc
      cases hc
      exact ⟨hgood.1, Number.le_of_not_lt hgood.1 rfl hgood.2⟩
  · cases h
    exact ⟨nofun, rfl⟩

theorem setGroundSlip_eq_ok {slip : Float32} (h : p.setGroundSlip slip = .ok q) :
    slip.isFinite = true ∧ 0 < slip ∧ q = { p with groundSlip := slip } := by
  obtain ⟨checked, hchecked, hset⟩ := bind_eq_ok h
  obtain ⟨rfl, hfinite, hpositive⟩ := checkSlip_eq_ok hchecked
  cases hset
  exact ⟨hfinite, hpositive, rfl⟩

/-- The players to which a setting that is not refused can lead. -/
inductive Setting (p : Player) : Player → Prop where
  | position (coordinate : Coordinate) (v : Float) : Setting p (p.setPosition coordinate v)
  | velocity (coordinate : Coordinate) (v : Float) : Setting p (p.setVelocity coordinate v)
  | facing (degrees : Float32) : Setting p (p.setFacing degrees)
  | turn (degrees : Float32) : Setting p (p.turn degrees)
  | angles (queued : List Float32) : Setting p (p.queueAngles queued)
  | turns (queued : List Float32) : Setting p (p.queueTurns queued)
  | potion {q : Player} {potion : Potion} {level : Int}
      (h : p.setPotion potion level = .ok q) : Setting p q
  | precision {q : Player} {digits : Int} (h : p.setPrecision digits = .ok q) : Setting p q
  | inertia {q : Player} {threshold : Float} {mode : InertiaMode}
      (h : p.setInertia threshold mode = .ok q) : Setting p q
  | ceiling {q : Player} {ceiling : Option Float} (h : p.setCeiling ceiling = .ok q) :
      Setting p q
  | slip {q : Player} {slip : Float32} (h : p.setGroundSlip slip = .ok q) : Setting p q

/-- A setting neither ticks the player nor puts it under another model. -/
structure Steady (p q : Player) : Prop where
  axis : q.axis = p.axis
  ticks : q.ticks = p.ticks

theorem Setting.steady (h : Setting p q) : Steady p q := by
  cases h with
  | position coordinate v => cases coordinate <;> exact ⟨rfl, rfl⟩
  | velocity coordinate v => cases coordinate <;> exact ⟨rfl, rfl⟩
  | facing degrees => exact ⟨rfl, rfl⟩
  | turn degrees => exact ⟨rfl, rfl⟩
  | angles queued => exact ⟨rfl, rfl⟩
  | turns queued => exact ⟨rfl, rfl⟩
  | potion h =>
      obtain ⟨checked, -, rfl | rfl | rfl⟩ := setPotion_eq_ok h <;> exact ⟨rfl, rfl⟩
  | precision h =>
      obtain ⟨checked, -, rfl⟩ := setPrecision_eq_ok h
      exact ⟨rfl, rfl⟩
  | inertia h =>
      obtain ⟨-, -, rfl⟩ := setInertia_eq_ok h
      exact ⟨rfl, rfl⟩
  | ceiling h =>
      obtain ⟨-, rfl⟩ := setCeiling_eq_ok h
      exact ⟨rfl, rfl⟩
  | slip h =>
      obtain ⟨-, -, rfl⟩ := setGroundSlip_eq_ok h
      exact ⟨rfl, rfl⟩

end Parkour.Player
