import Mathlib.Algebra.Group.Int.Defs
import Mathlib.Order.Compare
import Parkour.Proofs.Number.Rounding

/-!
# Sums and differences

The sum and the difference of two finite numbers are the exact ones, rounded. So a sum does
not pass a bound from which neither summand leads away, and a difference has the sign that
the order of its terms gives it.
-/

namespace Parkour.Number

open Float.Model (UnpackedFloat Format)
open Float.Model.UnpackedFloat

/-- The finite numbers of the format, whatever their exponent. -/
inductive Finite : UnpackedFloat → Prop where
  | zero (sign : Sign) : Finite (.zero sign)
  | finite {sign : Sign} {m : Nat} {e : Int} {hm : 0 < m} (h : Reduced m e) :
      Finite (.finite sign m e hm)

/-- The value of a finite number, in units of the least number above zero. -/
def units : UnpackedFloat → Int
  | .finite sign m e _ => sign.apply (magnitude m e)
  | _ => 0

section Signs

variable {m : Nat} {e : Int}

theorem magnitude_pos (hm : 0 < m) : 0 < magnitude m e :=
  Nat.mul_pos hm (Nat.two_pow_pos _)

theorem units_positive (hm : 0 < m) : 0 < units (.finite .positive m e hm) :=
  Int.natCast_pos.mpr (magnitude_pos hm)

theorem units_negative (hm : 0 < m) : units (.finite .negative m e hm) < 0 :=
  Int.neg_neg_of_pos (units_positive hm)

end Signs

/-! ### Order -/

/-- Of two numbers the one at the greater exponent is the greater one. -/
theorem Reduced.lt {m n : Nat} {e f : Int} (hm : Reduced m e) (hn : Reduced n f) (h : e < f) :
    magnitude m e < magnitude n f := by
  by_contra hle
  exact absurd (hn.grid.mono hm.grid (Nat.le_of_not_lt hle)) (Int.not_le.mpr h)

theorem compare_magnitude {m n : Nat} {e f : Int} (hm : Reduced m e) (hn : Reduced n f) :
    (compare e f).then (compare m n) = compare (magnitude m e : Int) (magnitude n f) := by
  rcases lt_trichotomy e f with hlt | rfl | hgt
  · have hvalue := hm.lt hn hlt
    rw [compare_lt_iff_lt.mpr hlt, compare_lt_iff_lt.mpr (Int.ofNat_lt.mpr hvalue)]
    rfl
  · rw [compare_eq_iff_eq.mpr rfl]
    rcases lt_trichotomy m n with hlt | rfl | hgt
    · have hvalue : magnitude m e < magnitude n e :=
        Nat.mul_lt_mul_of_pos_right hlt (Nat.two_pow_pos _)
      rw [compare_lt_iff_lt.mpr hlt, compare_lt_iff_lt.mpr (Int.ofNat_lt.mpr hvalue)]
      rfl
    · rw [compare_eq_iff_eq.mpr rfl, compare_eq_iff_eq.mpr rfl]
      rfl
    · have hvalue : magnitude n e < magnitude m e :=
        Nat.mul_lt_mul_of_pos_right hgt (Nat.two_pow_pos _)
      rw [compare_gt_iff_gt.mpr hgt, compare_gt_iff_gt.mpr (Int.ofNat_lt.mpr hvalue)]
      rfl
  · have hvalue := hn.lt hm hgt
    rw [compare_gt_iff_gt.mpr hgt, compare_gt_iff_gt.mpr (Int.ofNat_lt.mpr hvalue)]
    rfl

theorem compare_neg_neg (a b : Int) : compare (-a) (-b) = (compare a b).swap := by
  rcases lt_trichotomy a b with hlt | rfl | hgt
  · rw [compare_lt_iff_lt.mpr hlt, compare_gt_iff_gt.mpr (Int.neg_lt_neg hlt)]
    rfl
  · rw [compare_eq_iff_eq.mpr rfl, compare_eq_iff_eq.mpr rfl]
    rfl
  · rw [compare_gt_iff_gt.mpr hgt, compare_lt_iff_lt.mpr (Int.neg_lt_neg hgt)]
    rfl

/-- Finite numbers are compared by their values. -/
theorem compare_units {x y : UnpackedFloat} (hx : Finite x) (hy : Finite y) :
    x.compare y = some (compare (units x) (units y)) := by
  cases hx with
  | zero s =>
      cases hy with
      | zero t => rfl
      | @finite t n f hn hred =>
          cases t with
          | negative => exact congrArg some (compare_gt_iff_gt.mpr (units_negative hn)).symm
          | positive => exact congrArg some (compare_lt_iff_lt.mpr (units_positive hn)).symm
  | @finite s m e hm hred =>
      cases hy with
      | zero t =>
          cases s with
          | negative => exact congrArg some (compare_lt_iff_lt.mpr (units_negative hm)).symm
          | positive => exact congrArg some (compare_gt_iff_gt.mpr (units_positive hm)).symm
      | @finite t n f hn hred' =>
          cases s with
          | negative =>
              cases t with
              | negative =>
                  have hcompare := congrArg Ordering.swap (compare_magnitude hred hred')
                  rw [← compare_neg_neg] at hcompare
                  exact congrArg some hcompare
              | positive =>
                  have hlt := (units_negative (e := e) hm).trans (units_positive (e := f) hn)
                  exact congrArg some (compare_lt_iff_lt.mpr hlt).symm
          | positive =>
              cases t with
              | negative =>
                  have hgt := (units_negative (e := f) hn).trans (units_positive (e := e) hm)
                  exact congrArg some (compare_gt_iff_gt.mpr hgt).symm
              | positive => exact congrArg some (compare_magnitude hred hred')

theorem lt_units {x y : UnpackedFloat} (hx : Finite x) (hy : Finite y) :
    x.lt y = true ↔ units x < units y := by
  rw [UnpackedFloat.lt, compare_units hx hy, beq_iff_eq, Option.some_inj, compare_lt_iff_lt]

theorem le_units {x y : UnpackedFloat} (hx : Finite x) (hy : Finite y) :
    x.le y = true ↔ units x ≤ units y := by
  rw [UnpackedFloat.le, compare_units hx hy, Option.any_some]
  exact Std.isLE_compare

/-! ### Exact values and their rounded ones -/

/-- A finite number to which a value may be rounded: it is on the same side as the value of
every finite number. -/
structure RoundsTo (v : Int) (x : UnpackedFloat) : Prop where
  finite : Finite x
  le : ∀ y, Finite y → v ≤ units y → units x ≤ units y
  ge : ∀ y, Finite y → units y ≤ v → units y ≤ units x

theorem Finite.roundsTo {x : UnpackedFloat} (h : Finite x) : RoundsTo (units x) x where
  finite := h
  le _ _ hle := hle
  ge _ _ hge := hge

theorem Finite.neg {x : UnpackedFloat} (h : Finite x) : Finite x.neg := by
  cases h with
  | zero s => exact .zero _
  | finite hred => exact .finite hred

theorem units_neg {x : UnpackedFloat} (h : Finite x) : units x.neg = -units x := by
  cases h with
  | zero s => rfl
  | @finite s m e hm hred =>
      cases s with
      | negative => exact (Int.neg_neg _).symm
      | positive => rfl

theorem RoundsTo.neg {v : Int} {x : UnpackedFloat} (h : RoundsTo v x) :
    RoundsTo (-v) x.neg where
  finite := h.finite.neg
  le y hy hle := by
    have hback := h.ge y.neg hy.neg (by rw [units_neg hy]; omega)
    rw [units_neg hy] at hback
    rw [units_neg h.finite]
    omega
  ge y hy hge := by
    have hback := h.le y.neg hy.neg (by rw [units_neg hy]; omega)
    rw [units_neg hy] at hback
    rw [units_neg h.finite]
    omega

/-- The finite numbers above zero. -/
theorem Finite.eq_positive {y : UnpackedFloat} (hy : Finite y) (hpos : 0 < units y) :
    ∃ n f hn, y = .finite .positive n f hn ∧ Reduced n f := by
  cases hy with
  | zero s => exact absurd hpos (lt_irrefl 0)
  | @finite s n f hn hred =>
      cases s with
      | negative => exact absurd hpos (units_negative hn).not_gt
      | positive => exact ⟨n, f, hn, rfl, hred⟩

theorem Rounds.positive {v m : Nat} {e : Int} (h : Rounds v m e) (hv : 0 < v) (hm : 0 < m) :
    RoundsTo v (.finite .positive m e hm) where
  finite := .finite h.toReduced
  le y hy hle := by
    obtain ⟨n, f, hn, rfl, hred⟩ := hy.eq_positive (by omega)
    exact Int.ofNat_le.mpr (h.le n f hred (Int.ofNat_le.mp hle))
  ge y hy hge := by
    by_cases hpos : 0 < units y
    · obtain ⟨n, f, hn, rfl, hred⟩ := hy.eq_positive hpos
      exact Int.ofNat_le.mpr (h.ge n f hred (Int.ofNat_le.mp hge))
    · exact (Int.not_lt.mp hpos).trans (units_positive hm).le

/-- A mantissa with a sign is rounded as its size is. -/
theorem normalize_roundsTo (k : Int) {e : Int} (he : -1074 ≤ e) (sign : Sign) :
    RoundsTo (k * 2 ^ (e + 1074).toNat) (UnpackedFloat.normalize Format.binary64 k e sign) := by
  unfold UnpackedFloat.normalize
  rcases lt_trichotomy k 0 with hlt | rfl | hgt
  · rw [compare_lt_iff_lt.mpr hlt]
    obtain ⟨n, f, hn, hround, hrounds⟩ :=
      round_rounds (m := (-k).toNat) .negative (by omega) he
    have hneg := (hrounds.positive (magnitude_pos (by omega)) hn).neg
    have hvalue : -(magnitude (-k).toNat e : Int) = k * 2 ^ (e + 1074).toNat := by
      rw [magnitude, Int.natCast_mul, Int.toNat_of_nonneg (by omega), Int.neg_mul, Int.neg_neg]
      rfl
    rw [hvalue] at hneg
    dsimp only
    rw [hround]
    exact hneg
  · rw [compare_eq_iff_eq.mpr rfl, Int.zero_mul]
    exact (Finite.zero sign).roundsTo
  · rw [compare_gt_iff_gt.mpr hgt]
    obtain ⟨n, f, hn, hround, hrounds⟩ :=
      round_rounds (m := k.toNat) .positive (by omega) he
    have hpos := hrounds.positive (magnitude_pos (by omega)) hn
    have hvalue : (magnitude k.toNat e : Int) = k * 2 ^ (e + 1074).toNat := by
      rw [magnitude, Int.natCast_mul, Int.toNat_of_nonneg (by omega)]
      rfl
    rw [hvalue] at hpos
    dsimp only
    rw [hround]
    exact hpos

/-! ### Sums and differences -/

theorem apply_decreaseExponent (sign : Sign) {m : Nat} {e t : Int} (ht : -1074 ≤ t)
    (hte : t ≤ e) :
    sign.apply (decreaseExponent m e t).1 * 2 ^ (t + 1074).toNat = sign.apply (magnitude m e) := by
  have hsame := magnitude_decreaseExponent (m := m) (e := e) ht
  have hexp : (decreaseExponent m e t).2 = t := by
    show e - ((e - t).toNat : Int) = t
    omega
  rw [hexp] at hsame
  rw [← hsame, magnitude, Int.natCast_mul]
  cases sign with
  | negative => exact Int.neg_mul _ _
  | positive => rfl

theorem add_roundsTo {x y : UnpackedFloat} (hx : Finite x) (hy : Finite y) :
    RoundsTo (units x + units y) (add Format.binary64 x y) := by
  cases hx with
  | zero s =>
      rw [show units (.zero s) = 0 from rfl, Int.zero_add]
      cases hy with
      | zero t =>
          unfold add
          dsimp only
          split
          · exact (Finite.zero s).roundsTo
          · exact (Finite.zero .positive).roundsTo
      | finite hred => exact (Finite.finite hred).roundsTo
  | @finite s m e hm hred =>
      cases hy with
      | zero t =>
          rw [show units (.zero t) = 0 from rfl, Int.add_zero]
          exact (Finite.finite hred).roundsTo
      | @finite t n f hn hred' =>
          have hleast : -1074 ≤ min e f := le_min hred.exponent hred'.exponent
          have hrounds := normalize_roundsTo
            (s.apply (decreaseExponent m e (min e f)).1 +
              t.apply (decreaseExponent n f (min e f)).1)
            hleast .positive
          rw [Int.add_mul, apply_decreaseExponent s hleast (min_le_left e f),
            apply_decreaseExponent t hleast (min_le_right e f)] at hrounds
          exact hrounds

theorem sub_eq_add_neg (x y : UnpackedFloat) :
    sub Format.binary64 x y = add Format.binary64 x y.neg := by
  cases x with
  | notANumber => rfl
  | infinity s => cases y <;> rfl
  | zero s => cases y <;> rfl
  | finite s m e hm =>
      cases y with
      | notANumber => rfl
      | infinity t => rfl
      | zero t => rfl
      | finite t n f hn =>
          have hsign : ∀ k : Int, (-t).apply k = -t.apply k := by
            intro k
            cases t with
            | negative => exact (Int.neg_neg k).symm
            | positive => rfl
          unfold sub add UnpackedFloat.neg
          dsimp only
          rw [hsign, Int.sub_eq_add_neg]

theorem sub_roundsTo {x y : UnpackedFloat} (hx : Finite x) (hy : Finite y) :
    RoundsTo (units x - units y) (sub Format.binary64 x y) := by
  rw [sub_eq_add_neg, Int.sub_eq_add_neg, ← units_neg hy]
  exact add_roundsTo hx hy.neg

theorem notANumber_add (x : UnpackedFloat) : add Format.binary64 .notANumber x = .notANumber := by
  cases x <;> rfl

theorem add_notANumber (x : UnpackedFloat) : add Format.binary64 x .notANumber = .notANumber := by
  cases x <;> rfl

theorem Finite.infinity_add {x : UnpackedFloat} (h : Finite x) (s : Sign) :
    add Format.binary64 (.infinity s) x = .infinity s := by
  cases h <;> rfl

theorem Finite.add_infinity {x : UnpackedFloat} (h : Finite x) (s : Sign) :
    add Format.binary64 x (.infinity s) = .infinity s := by
  cases h <;> rfl

end Parkour.Number
