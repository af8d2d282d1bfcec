/-!
# The order of numbers

Any two finite numbers can be compared, so one that is not below another is at least as
great. The same holds of infinite ones.
-/

namespace Parkour.Number

open Float.Model (UnpackedFloat)

/-- Finite numbers have an order, and it turns around with them. -/
theorem compare_finite {a b : UnpackedFloat} (ha : a.isFinite = true)
    (hb : b.isFinite = true) :
    ∃ order, a.compare b = some order ∧ b.compare a = some order.swap := by
  cases a with
  | infinity sign => cases ha
  | notANumber => cases ha
  | zero sign =>
      cases b with
      | infinity sign => cases hb
      | notANumber => cases hb
      | zero sign => exact ⟨.eq, rfl, rfl⟩
      | finite sign => cases sign <;> exact ⟨_, rfl, rfl⟩
  | finite sign m e hm =>
      cases b with
      | infinity sign => cases hb
      | notANumber => cases hb
      | zero => cases sign <;> exact ⟨_, rfl, rfl⟩
      | finite sign' m' e' hm' =>
          have hswap : ((compare e e').then (compare m m')).swap =
              (compare e' e).then (compare m' m) := by
            rw [Ordering.swap_then, ← Std.OrientedOrd.eq_swap, ← Std.OrientedOrd.eq_swap]
          cases sign with
          | positive =>
              cases sign' with
              | positive => exact ⟨_, rfl, congrArg some hswap.symm⟩
              | negative => exact ⟨.gt, rfl, rfl⟩
          | negative =>
              cases sign' with
              | positive => exact ⟨.lt, rfl, rfl⟩
              | negative =>
                  exact ⟨_, rfl, congrArg (fun order : Ordering => some order.swap) hswap.symm⟩

/-- Only what is no number has no order. -/
theorem compare_ordered {a b : UnpackedFloat} (ha : a.isNaN = false) (hb : b.isNaN = false) :
    ∃ order, a.compare b = some order ∧ b.compare a = some order.swap := by
  cases a with
  | notANumber => cases ha
  | infinity s =>
      cases b with
      | notANumber => cases hb
      | infinity t => cases s <;> cases t <;> exact ⟨_, rfl, rfl⟩
      | zero t => cases s <;> exact ⟨_, rfl, rfl⟩
      | finite t => cases s <;> cases t <;> exact ⟨_, rfl, rfl⟩
  | zero s =>
      cases b with
      | notANumber => cases hb
      | infinity t => cases t <;> exact ⟨_, rfl, rfl⟩
      | zero t => exact compare_finite rfl rfl
      | finite t => exact compare_finite rfl rfl
  | finite s =>
      cases b with
      | notANumber => cases hb
      | infinity t => cases s <;> cases t <;> exact ⟨_, rfl, rfl⟩
      | zero t => exact compare_finite rfl rfl
      | finite t => exact compare_finite rfl rfl

/-- What is not less is at least as great. -/
theorem le_of_not_lt_unpacked {a b : UnpackedFloat} (ha : a.isFinite = true)
    (hb : b.isFinite = true) (h : a.lt b = false) : b.le a = true := by
  obtain ⟨order, hab, hba⟩ := compare_finite ha hb
  rw [UnpackedFloat.lt, hab] at h
  rw [UnpackedFloat.le, hba]
  cases order with
  | lt => cases h
  | eq => rfl
  | gt => rfl

/-- What is not at least as great is less. -/
theorem lt_of_not_le_unpacked {a b : UnpackedFloat} (ha : a.isFinite = true)
    (hb : b.isFinite = true) (h : a.le b = false) : b.lt a = true := by
  obtain ⟨order, hab, hba⟩ := compare_finite ha hb
  rw [UnpackedFloat.le, hab] at h
  rw [UnpackedFloat.lt, hba]
  cases order with
  | lt => cases h
  | eq => cases h
  | gt => rfl

theorem le_of_not_lt {x y : Float} (hx : x.isFinite = true) (hy : y.isFinite = true)
    (h : ¬x < y) : y ≤ x := by
  refine decide_eq_true (le_of_not_lt_unpacked hx hy (Bool.eq_false_iff.mpr fun hlt => h ?_))
  exact decide_eq_true hlt

theorem lt_of_not_le {x y : Float32} (hx : x.isFinite = true) (hy : y.isFinite = true)
    (h : ¬x ≤ y) : y < x := by
  refine decide_eq_true (lt_of_not_le_unpacked hx hy (Bool.eq_false_iff.mpr fun hle => h ?_))
  exact decide_eq_true hle

theorem not_lt_iff_le {x y : Float} (hx : x.isNaN = false) (hy : y.isNaN = false) :
    ¬x < y ↔ y ≤ x := by
  obtain ⟨order, hxy, hyx⟩ := compare_ordered hx hy
  have hlt : x < y ↔ order = .lt := by
    change decide (UnpackedFloat.lt _ _ = true) = true ↔ _
    rw [decide_eq_true_iff, UnpackedFloat.lt, hxy, beq_iff_eq, Option.some_inj]
  have hle : y ≤ x ↔ order ≠ .lt := by
    change decide (UnpackedFloat.le _ _ = true) = true ↔ _
    rw [decide_eq_true_iff, UnpackedFloat.le, hyx]
    cases order <;> decide
  rw [hlt, hle]

end Parkour.Number
