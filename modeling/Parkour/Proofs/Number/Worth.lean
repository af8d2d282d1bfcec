import Mathlib.Algebra.Order.Field.Power
import Mathlib.Data.Rat.Cast.Order
import Parkour.Proofs.Number.Absolute
import Parkour.Proofs.Number.Whole

/-!
# The worth of a number

A finite number is worth a fraction, and a number without a part behind the point is worth an
integer. Cutting it off gives this integer, or the end of the range beyond which the integer
lies.
-/

namespace Parkour.Number

open Float.Model.UnpackedFloat (Sign)

/-- What a number is worth. Infinities and what is no number are worth nothing. -/
def worth (v : Float) : Option ℚ :=
  match exact v with
  | .finite sign m e _ => some (sign.apply m * 2 ^ e)
  | .zero _ => some 0
  | _ => none

/-- Only finite numbers and zeros are worth something. -/
theorem exact_of_worth {v : Float} {q : ℚ} (h : worth v = some q) :
    (∃ sign m e, ∃ hm : 0 < m, exact v = .finite sign m e hm ∧ q = sign.apply m * 2 ^ e) ∨
      ∃ sign, exact v = .zero sign ∧ q = 0 := by
  unfold worth at h
  cases hv : exact v with
  | finite sign m e hm =>
      rw [hv] at h
      exact .inl ⟨sign, m, e, hm, rfl, (Option.some.inj h).symm⟩
  | zero sign =>
      rw [hv] at h
      exact .inr ⟨sign, rfl, (Option.some.inj h).symm⟩
  | infinity sign =>
      rw [hv] at h
      cases h
  | notANumber =>
      rw [hv] at h
      cases h

theorem worth_of_exact {v : Float} {sign : Sign} {m : Nat} {e : Int} {hm : 0 < m}
    (h : exact v = .finite sign m e hm) : worth v = some ((sign.apply m : ℚ) * 2 ^ e) := by
  rw [worth, h]

theorem apply_mul (sign : Sign) (a : Int) (b : Nat) : sign.apply (a * b) = sign.apply a * b := by
  cases sign with
  | positive => rfl
  | negative => exact (Int.neg_mul a b).symm

/-- A power of two divides an integer if it divides its absolute value. -/
theorem apply_eq_mul_iff {sign : Sign} {m k : Nat} {z : Int} (hk : 0 < k) :
    sign.apply m = z * k ↔ k ∣ m ∧ z = sign.apply ↑(m / k) := by
  constructor
  · intro h
    have hm : m = z.natAbs * k := by
      have habs := congrArg Int.natAbs h
      rwa [natAbs_apply, Int.natAbs_mul, Int.natAbs_natCast] at habs
    have hquotient : m / k = z.natAbs := by rw [hm, Nat.mul_div_cancel _ hk]
    refine ⟨⟨z.natAbs, by rw [hm, Nat.mul_comm]⟩, ?_⟩
    have hk' : (k : Int) ≠ 0 := by omega
    refine Int.eq_of_mul_eq_mul_right hk' ?_
    rw [← h, ← apply_mul, hquotient]
    congr 1
    exact_mod_cast hm
  · rintro ⟨⟨q, rfl⟩, rfl⟩
    rw [Nat.mul_div_cancel_left q hk, ← apply_mul]
    congr 1
    rw [Nat.cast_mul, Int.mul_comm]

/-- What is finite is worth an integer exactly if it has no part behind the point. -/
theorem worth_finite_iff {sign : Sign} {m : Nat} {e z : Int} :
    (sign.apply m * 2 ^ e : ℚ) = z ↔
      isWholeValue m e = true ∧ z = sign.apply (wholePart m e) := by
  cases e with
  | ofNat k =>
      have hwhole : isWholeValue m (Int.ofNat k) = true := by simp [isWholeValue]
      have hpart : wholePart m (Int.ofNat k) = m * 2 ^ k := wholePart_natCast m k
      rw [hpart, hwhole, Int.ofNat_eq_natCast, zpow_natCast]
      have hproduct : sign.apply ((m * 2 ^ k : Nat) : Int) = sign.apply m * (2 ^ k : Nat) := by
        rw [← apply_mul]
        push_cast
        rfl
      rw [hproduct]
      constructor
      · intro h
        refine ⟨rfl, ?_⟩
        push_cast
        exact_mod_cast h.symm
      · rintro ⟨-, rfl⟩
        push_cast
        rfl
  | negSucc k =>
      have hexponent : Int.negSucc k = -((k + 1 : Nat) : Int) := rfl
      have hpos : (2 ^ (k + 1) : ℚ) ≠ 0 := pow_ne_zero _ two_ne_zero
      rw [hexponent, isWholeValue_neg, wholePart_neg, zpow_neg, zpow_natCast,
        ← apply_eq_mul_iff (Nat.two_pow_pos (k + 1)), ← div_eq_mul_inv, div_eq_iff hpos]
      exact_mod_cast Iff.rfl

/-- A number is worth an integer exactly if it has no part behind the point. -/
theorem isWhole_iff {v : Float} : isWhole v = true ↔ ∃ z : Int, worth v = some (z : ℚ) := by
  unfold isWhole worth
  cases exact v with
  | finite sign m e hm =>
      constructor
      · intro h
        exact ⟨_, congrArg some (worth_finite_iff.mpr ⟨h, rfl⟩)⟩
      · rintro ⟨z, hz⟩
        exact (worth_finite_iff.mp (Option.some.inj hz)).1
  | zero sign => exact iff_of_true rfl ⟨0, by simp⟩
  | infinity sign => simp
  | notANumber => simp

/-- A number that is worth an integer is cut off to it within the range. -/
theorem truncate_of_worth {v : Float} {z : Int} (h : worth v = some (z : ℚ)) :
    truncate v = span64.clamp z := by
  unfold truncate
  obtain ⟨sign, m, e, hm, hv, hz⟩ | ⟨sign, hv, hz⟩ := exact_of_worth h
  · obtain ⟨-, rfl⟩ := worth_finite_iff.mp hz.symm
    rw [hv]
    cases sign <;> rfl
  · rw [hv, Int.cast_eq_zero.mp hz]
    rfl

/-! ## Order -/

/-- What is worth something is finite, and counts its worth in units of the least number above
zero. -/
theorem finite_of_worth {v : Float} {q : ℚ} (h : worth v = some q) :
    Finite (exact v) ∧ (units (exact v) : ℚ) = q * 2 ^ 1074 := by
  have hunpacked : Unpacked (exact v) := unpacked_unpack _
  obtain ⟨sign, m, e, hm, hv, rfl⟩ | ⟨sign, hv, rfl⟩ := exact_of_worth h
  · rw [hv] at hunpacked ⊢
    have hfinite : Finite (.finite sign m e hm) := hunpacked.finite_of_isFinite rfl
    refine ⟨hfinite, ?_⟩
    cases hfinite with
    | finite hred =>
        have hnonneg : 0 ≤ e + 1074 := by
          have hleast := hred.exponent
          omega
        have hpow : ((2 ^ (e + 1074).toNat : Nat) : ℚ) = 2 ^ e * 2 ^ 1074 := by
          rw [Nat.cast_pow, Nat.cast_two, ← zpow_natCast, Int.toNat_of_nonneg hnonneg,
            zpow_add₀ two_ne_zero]
          rfl
        change ((sign.apply ((m * 2 ^ (e + 1074).toNat : Nat) : Int) : Int) : ℚ) = _
        rw [Nat.cast_mul, apply_mul, Int.cast_mul, Int.cast_natCast, hpow, mul_assoc]
  · rw [hv]
    exact ⟨.zero sign, Int.cast_zero.trans (zero_mul _).symm⟩

/-- Numbers are compared by their worth. -/
theorem lt_iff {v w : Float} {q r : ℚ} (hv : worth v = some q) (hw : worth w = some r) :
    v < w ↔ q < r := by
  obtain ⟨hvfinite, hvunits⟩ := finite_of_worth hv
  obtain ⟨hwfinite, hwunits⟩ := finite_of_worth hw
  have hlt : v < w ↔ (exact v).lt (exact w) = true := ⟨of_decide_eq_true, decide_eq_true⟩
  rw [hlt, lt_units hvfinite hwfinite, ← Int.cast_lt (R := ℚ), hvunits, hwunits,
    mul_lt_mul_iff_left₀ (pow_pos two_pos 1074)]

theorem worth_zero : worth 0 = some 0 := rfl

/-- A number is below zero if its worth is. -/
theorem lt_zero_iff {v : Float} {q : ℚ} (h : worth v = some q) : v < 0 ↔ q < 0 :=
  lt_iff h worth_zero

theorem worth_abs {v : Float} {q : ℚ} (h : worth v = some q) : worth v.abs = some |q| := by
  obtain ⟨sign, m, e, hm, hv, rfl⟩ | ⟨sign, hv, rfl⟩ := exact_of_worth h
  · have habs : exact v.abs = .finite .positive m e hm := by rw [exact_abs, hv]; rfl
    have hpos : (0 : ℚ) < m * 2 ^ e := mul_pos (Nat.cast_pos.mpr hm) (zpow_pos two_pos e)
    rw [worth_of_exact habs]
    cases sign with
    | positive => exact congrArg some (abs_of_pos hpos).symm
    | negative =>
        have hneg : ((-(m : Int) : Int) : ℚ) * 2 ^ e = -(m * 2 ^ e) := by
          rw [Int.cast_neg, Int.cast_natCast, neg_mul]
        refine congrArg some ?_
        change ((m : Int) : ℚ) * 2 ^ e = |((-(m : Int) : Int) : ℚ) * 2 ^ e|
        rw [hneg, abs_neg, abs_of_pos hpos, Int.cast_natCast]
  · have habs : exact v.abs = .zero .positive := by rw [exact_abs, hv]; rfl
    rw [worth, habs, abs_zero]

end Parkour.Number
