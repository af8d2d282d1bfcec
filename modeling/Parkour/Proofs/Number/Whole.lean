import Parkour.Number.Whole
import Parkour.Proofs.Number.Packing

/-!
# Whole numbers

A number without a part behind the point is the same whole number whether it is rounded or
cut off, and it keeps its sign.
-/

namespace Parkour.Number

open Float.Model (UnpackedFloat)

theorem wholePart_natCast (m k : Nat) : wholePart m k = m * 2 ^ k := by
  simp [wholePart, Nat.shiftLeft_eq]

theorem wholePart_neg (m k : Nat) : wholePart m (-k) = m / 2 ^ k := by
  cases k with
  | zero => simp [wholePart]
  | succ k =>
      have hneg : ¬(0 : Int) ≤ -((k + 1 : Nat) : Int) := by omega
      rw [wholePart, if_neg hneg, Int.neg_neg, Int.toNat_natCast, Nat.shiftRight_eq_div_pow]

theorem isWholeValue_neg {m k : Nat} :
    isWholeValue m (-((k + 1 : Nat) : Int)) = true ↔ 2 ^ (k + 1) ∣ m := by
  have hneg : ¬(0 : Int) ≤ -((k + 1 : Nat) : Int) := by omega
  rw [isWholeValue, decide_eq_false hneg, Bool.false_or, Int.neg_neg, Int.toNat_natCast,
    Nat.shiftLeft_eq, Nat.one_mul, beq_iff_eq, Nat.dvd_iff_mod_eq_zero]

/-- A value that is whole is the whole number nearest to it. -/
theorem wholeNearest_eq {m : Nat} {e : Int} (h : isWholeValue m e = true) :
    wholeNearest m e = wholePart m e := by
  cases e with
  | ofNat k =>
      cases k with
      | zero =>
          change wholePart (2 * m + wholePart 1 (0 : Nat)) (-(1 : Nat)) = wholePart m (0 : Nat)
          rw [wholePart_natCast, wholePart_neg, wholePart_natCast]
          omega
      | succ k =>
          change wholePart (2 * m + wholePart 1 (-(k + 1 : Nat))) ((k + 1 : Nat) - 1) =
            wholePart m (k + 1 : Nat)
          have hbelow : ((k + 1 : Nat) : Int) - 1 = k := by omega
          have hhalf : 1 / 2 ^ (k + 1) = 0 := Nat.div_eq_of_lt (Nat.one_lt_two_pow (by omega))
          rw [hbelow, wholePart_neg, wholePart_natCast, wholePart_natCast, hhalf, Nat.pow_succ]
          ac_rfl
  | negSucc k =>
      change wholePart (2 * m + wholePart 1 (k + 1 : Nat)) (-(k + 2 : Nat)) =
        wholePart m (-(k + 1 : Nat))
      obtain ⟨q, rfl⟩ := isWholeValue_neg.mp h
      have hpos : 0 < 2 ^ (k + 1) := Nat.two_pow_pos (k + 1)
      have hsum : 2 * (2 ^ (k + 1) * q) + 1 * 2 ^ (k + 1) = 2 ^ (k + 1) * (2 * q + 1) := by
        rw [Nat.mul_add, Nat.one_mul, Nat.mul_one]
        ac_rfl
      rw [wholePart_natCast, wholePart_neg, wholePart_neg, hsum, Nat.pow_succ 2 (k + 1),
        Nat.mul_div_mul_left _ _ hpos, Nat.mul_div_cancel_left q hpos]
      omega

/-- A whole number can be rounded or cut off. -/
theorem nearestWhole_eq {v : Float} (h : isWhole v = true) : nearestWhole v = truncate v := by
  unfold isWhole at h
  unfold nearestWhole truncate
  cases hv : exact v with
  | finite sign m e hm =>
      rw [hv] at h
      cases sign with
      | positive => exact congrArg (fun n : Nat => span64.clamp n) (wholeNearest_eq h)
      | negative => exact congrArg (fun n : Nat => span64.clamp (-n)) (wholeNearest_eq h)
  | zero sign => rfl
  | infinity sign =>
      rw [hv] at h
      cases h
  | notANumber =>
      rw [hv] at h
      cases h

theorem clamp_nonneg {n : Int} (h : 0 ≤ n) : 0 ≤ span64.clamp n :=
  (le_min (by decide) h).trans (le_max_right _ _)

theorem clamp_eq_self_iff {n : Int} : span64.clamp n = n ↔ span64.low ≤ n ∧ n ≤ span64.high := by
  simp only [Span.clamp, span64]
  omega

/-- A whole number that is not below zero is not below zero when it is cut off. -/
theorem truncate_nonneg {v : Float} (h : isWhole v = true) (hv : ¬v < 0) : 0 ≤ truncate v := by
  have hsign : (exact v).lt (.zero .positive) = false := not_lt_iff.mp hv
  unfold isWhole at h
  unfold truncate
  cases hexact : exact v with
  | finite sign m e hm =>
      cases sign with
      | positive => exact clamp_nonneg (Int.natCast_nonneg _)
      | negative =>
          rw [hexact] at hsign
          cases hsign
  | zero sign => exact le_rfl
  | infinity sign =>
      rw [hexact] at h
      cases h
  | notANumber =>
      rw [hexact] at h
      cases h

end Parkour.Number
