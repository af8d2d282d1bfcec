import Mathlib.Algebra.Group.Nat.Defs
import Mathlib.Data.Nat.Log
import Parkour.Proofs.Number.Order

/-!
# Rounding

Every finite number of the format is a mantissa at an exponent, and is used here in units
of the least number above zero. Rounding a magnitude puts it on the grid of one exponent, to
one of the two points around it, so it never passes a number of the format.
-/

namespace Parkour.Number

open Float.Model (UnpackedFloat Format totalExponent)
open Float.Model.UnpackedFloat

/-! ### Mantissas and exponents -/

/-- The value of a mantissa at an exponent, in units of the least number above zero. -/
def magnitude (m : Nat) (e : Int) : Nat := m * 2 ^ (e + 1074).toNat

/-- The mantissas and exponents of the format. -/
structure Reduced (m : Nat) (e : Int) : Prop where
  mantissa : m < 2 ^ 53
  exponent : -1074 ≤ e
  leading : e = -1074 ∨ 2 ^ 52 ≤ m

/-- The exponent to which a value is rounded. -/
structure Grid (v : Nat) (t : Int) : Prop where
  exponent : -1074 ≤ t
  above : v < 2 ^ 53 * 2 ^ (t + 1074).toNat
  below : t = -1074 ∨ 2 ^ 52 * 2 ^ (t + 1074).toNat ≤ v

theorem two_pow_mul_le {i j : Nat} (h : i < j) : 2 ^ 53 * 2 ^ i ≤ 2 ^ 52 * 2 ^ j := by
  rw [← Nat.pow_add, ← Nat.pow_add]
  exact Nat.pow_le_pow_right (by decide) (by omega)

theorem Reduced.grid {m : Nat} {e : Int} (h : Reduced m e) : Grid (magnitude m e) e where
  exponent := h.exponent
  above := Nat.mul_lt_mul_of_pos_right h.mantissa (Nat.two_pow_pos _)
  below := h.leading.imp_right (Nat.mul_le_mul_right _)

/-- A greater value is rounded to no smaller exponent. -/
theorem Grid.mono {v w : Nat} {t u : Int} (hv : Grid v t) (hw : Grid w u) (h : v ≤ w) :
    t ≤ u := by
  rcases hv.below with hleast | hleading
  · exact hleast ▸ hw.exponent
  · by_contra hlt
    have hu := hw.exponent
    have hpow := two_pow_mul_le (show (u + 1074).toNat < (t + 1074).toNat by omega)
    have habove := hw.above
    omega

theorem Grid.unique {v : Nat} {t u : Int} (ht : Grid v t) (hu : Grid v u) : t = u :=
  le_antisymm (ht.mono hu le_rfl) (hu.mono ht le_rfl)

/-- The exponent at which the format takes a number is the one of its value. -/
theorem grid_target {m : Nat} {e : Int} (hm : m ≠ 0) (he : -1074 ≤ e) :
    Grid (magnitude m e) (Format.binary64.targetExponent (totalExponent m e)) := by
  have htarget : Format.binary64.targetExponent (totalExponent m e) =
      max ((m.log2 : Int) + 1 + e - 53) (-1074) := rfl
  have hlow : 2 ^ m.log2 ≤ m := Nat.log2_self_le hm
  have hhigh : m < 2 ^ (m.log2 + 1) := Nat.lt_log2_self
  rw [htarget]
  refine ⟨by omega, ?_, ?_⟩
  · calc magnitude m e < 2 ^ (m.log2 + 1) * 2 ^ (e + 1074).toNat :=
          Nat.mul_lt_mul_of_pos_right hhigh (Nat.two_pow_pos _)
      _ ≤ 2 ^ 53 * 2 ^ (max ((m.log2 : Int) + 1 + e - 53) (-1074) + 1074).toNat := by
          rw [← Nat.pow_add, ← Nat.pow_add]
          exact Nat.pow_le_pow_right (by decide) (by omega)
  · by_cases hleast : (m.log2 : Int) + 1 + e - 53 ≤ -1074
    · exact .inl (max_eq_right hleast)
    · right
      calc 2 ^ 52 * 2 ^ (max ((m.log2 : Int) + 1 + e - 53) (-1074) + 1074).toNat
          ≤ 2 ^ m.log2 * 2 ^ (e + 1074).toNat := by
            rw [← Nat.pow_add, ← Nat.pow_add]
            exact Nat.pow_le_pow_right (by decide) (by omega)
        _ ≤ magnitude m e := Nat.mul_le_mul_right _ hlow

/-! ### Shifting -/

/-- What is left of a mantissa of which some bits were shifted out. The residual bits are
clear where those were. -/
structure Shifted (m n : Nat) (em : ExtendedMantissa) : Prop where
  mantissa : em.mantissa = m / 2 ^ n
  exact : em.roundBit = false ∧ em.stickyBit = false ↔ 2 ^ n ∣ m

theorem Shifted.succ {m n : Nat} {em : ExtendedMantissa} (h : Shifted m n em) :
    Shifted m (n + 1) em.shiftRightOne where
  mantissa := by
    rw [Nat.pow_succ, ← Nat.div_div_eq_div_mul, ← h.mantissa]
    rfl
  exact := by
    have hround : em.shiftRightOne.roundBit = false ↔ 2 ∣ m / 2 ^ n := by
      rw [← h.mantissa, Nat.dvd_iff_mod_eq_zero]
      simp [ExtendedMantissa.shiftRightOne]
    have hsticky : em.shiftRightOne.stickyBit = false ↔ 2 ^ n ∣ m := by
      rw [← h.exact]
      exact Bool.or_eq_false_iff
    rw [hround, hsticky]
    constructor
    · rintro ⟨htwo, hpow⟩
      exact Nat.mul_dvd_of_dvd_div hpow htwo
    · intro hdvd
      rw [Nat.pow_succ] at hdvd
      exact ⟨Nat.dvd_div_of_mul_dvd hdvd, Nat.dvd_trans (Nat.dvd_mul_right _ _) hdvd⟩

theorem shifted_shiftRight (m n : Nat) :
    Shifted m n ((⟨m, false, false⟩ : ExtendedMantissa) >>> n) := by
  induction n with
  | zero => exact ⟨(Nat.div_one m).symm, iff_of_true ⟨rfl, rfl⟩ (Nat.one_dvd m)⟩
  | succ n ih => exact ih.succ

/-- A value between two neighbouring multiples of a step, or on the first of them: `r` is the
number of the one to which it may be rounded. -/
def Near (v step r : Nat) : Prop := r = v / step ∨ r = v / step + 1 ∧ ¬step ∣ v

theorem Shifted.near {m n : Nat} {em : ExtendedMantissa} (h : Shifted m n em) :
    Near m (2 ^ n) em.roundedMantissa := by
  unfold Near
  rw [← h.mantissa, ← h.exact]
  obtain ⟨q, roundBit, stickyBit⟩ := em
  cases roundBit with
  | false =>
      cases stickyBit with
      | false => exact .inl rfl
      | true => exact .inl rfl
  | true =>
      cases stickyBit with
      | false =>
          have htie : ExtendedMantissa.roundedMantissa ⟨q, true, false⟩ = q + q % 2 := rfl
          rw [htie]
          exact (Nat.mod_two_eq_zero_or_one q).imp (fun h => by rw [h, Nat.add_zero])
            fun h => ⟨by rw [h], nofun⟩
      | true => exact .inr ⟨rfl, nofun⟩

/-- A common factor of value and step does not matter. -/
theorem Near.scale {v step r : Nat} (h : Near v step r) {k : Nat} (hk : 0 < k) :
    Near (v * k) (step * k) r := by
  unfold Near
  rw [Nat.mul_div_mul_right v step hk, Nat.mul_dvd_mul_iff_right hk]
  exact h

/-- A multiple of the step that is not below the value is not below the rounded one. -/
theorem Near.le {v step r w : Nat} (h : Near v step r) (hw : step ∣ w)
    (hle : v ≤ w) : r * step ≤ w := by
  obtain ⟨j, rfl⟩ := hw
  rw [Nat.mul_comm r]
  refine Nat.mul_le_mul_left step ?_
  have hfloor : v / step ≤ j := Nat.div_le_of_le_mul hle
  rcases h with rfl | ⟨rfl, hdvd⟩
  · exact hfloor
  · refine Nat.lt_of_le_of_ne hfloor fun heq => hdvd ⟨j, le_antisymm hle ?_⟩
    rw [← heq]
    exact Nat.mul_div_le v step

/-- One that is not above the value is not above the rounded one. -/
theorem Near.ge {v step r w : Nat} (h : Near v step r) (hpos : 0 < step) (hw : step ∣ w)
    (hle : w ≤ v) : w ≤ r * step := by
  obtain ⟨j, rfl⟩ := hw
  rw [Nat.mul_comm r]
  refine Nat.mul_le_mul_left step ?_
  have hfloor : j ≤ v / step := (Nat.le_div_iff_mul_le hpos).mpr (Nat.mul_comm j step ▸ hle)
  rcases h with rfl | ⟨rfl, -⟩
  · exact hfloor
  · exact Nat.le_succ_of_le hfloor

/-- Numbers of the format lie on the grid of a value that is not above them. -/
theorem Reduced.dvd {m : Nat} {e t : Int} (hte : t ≤ e) :
    2 ^ (t + 1074).toNat ∣ magnitude m e :=
  Nat.dvd_mul_left_of_dvd (Nat.pow_dvd_pow 2 (by omega)) m

/-- What a finite result has to be for a value that was rounded: no number of the format lies
strictly between the two. -/
structure Rounds (v m : Nat) (e : Int) : Prop extends Reduced m e where
  le : ∀ n f, Reduced n f → v ≤ magnitude n f → magnitude m e ≤ magnitude n f
  ge : ∀ n f, Reduced n f → magnitude n f ≤ v → magnitude n f ≤ magnitude m e

theorem Near.rounds {v r m : Nat} {t e : Int} (h : Near v (2 ^ (t + 1074).toNat) r)
    (ht : Grid v t) (hm : Reduced m e) (heq : magnitude m e = r * 2 ^ (t + 1074).toNat) :
    Rounds v m e where
  toReduced := hm
  le n f hn hle := by
    rw [heq]
    exact h.le (Reduced.dvd (ht.mono hn.grid hle)) hle
  ge n f hn hle := by
    rw [heq]
    have hexp := ht.exponent
    by_cases htf : t ≤ f
    · exact h.ge (Nat.two_pow_pos _) (Reduced.dvd htf) hle
    · have hleading := ht.below.resolve_left (by have := hn.exponent; omega)
      refine Nat.le_trans ?_ (h.ge (Nat.two_pow_pos _) (Nat.dvd_mul_left _ _) hleading)
      have hpow := two_pow_mul_le (show (f + 1074).toNat < (t + 1074).toNat by
        have := hn.exponent; omega)
      exact Nat.le_trans (Nat.le_of_lt hn.grid.above) hpow

/-! ### The rounding of the format -/

theorem shiftToTargetExponent_eq {m : Nat} {e t : Int} (hm : m ≠ 0) (he : -1074 ≤ e)
    (ht : Grid (magnitude m e) t) (het : e ≤ t) :
    shiftToTargetExponent Format.binary64 m e .exact =
      ((⟨m, false, false⟩ : ExtendedMantissa) >>> (t - e).toNat, t) := by
  have htarget : Format.binary64.targetExponent (totalExponent m e) = t :=
    (grid_target hm he).unique ht
  unfold shiftToTargetExponent shiftToExponent
  rw [htarget]
  refine Prod.ext rfl ?_
  show e + ((t - e).toNat : Int) = t
  omega

theorem magnitude_split {e t : Int} (he : -1074 ≤ e) (het : e ≤ t) :
    2 ^ (t + 1074).toNat = 2 ^ (t - e).toNat * 2 ^ (e + 1074).toNat := by
  rw [← Nat.pow_add]
  congr 1
  omega

/-- A mantissa that rounding has brought to the next power of two takes the next exponent. -/
theorem shiftToTargetExponent_rounded {r : Nat} {t : Int} (hr : r ≠ 0) (ht : -1074 ≤ t)
    (hmost : r ≤ 2 ^ 53) (hleading : t = -1074 ∨ 2 ^ 52 ≤ r) :
    ∃ em f, shiftToTargetExponent Format.binary64 r t .exact = (em, f) ∧
      em.mantissa ≠ 0 ∧ Reduced em.mantissa f ∧ magnitude em.mantissa f = magnitude r t := by
  rcases Nat.lt_or_eq_of_le hmost with hlt | rfl
  · have hred : Reduced r t := ⟨hlt, ht, hleading⟩
    refine ⟨⟨r, false, false⟩, t, ?_, hr, hred, rfl⟩
    rw [shiftToTargetExponent_eq hr ht hred.grid le_rfl, Int.sub_self]
    rfl
  · have hpow : 2 ^ 53 * 2 ^ (t + 1074).toNat = 2 ^ 52 * 2 ^ (t + 1 + 1074).toNat := by
      rw [← Nat.pow_add, ← Nat.pow_add]
      congr 1
      omega
    have hred : Reduced (2 ^ 52) (t + 1) := ⟨by decide, by omega, .inr le_rfl⟩
    have hgrid : Grid (magnitude (2 ^ 53) t) (t + 1) := by
      unfold magnitude
      rw [hpow]
      exact hred.grid
    refine ⟨⟨2 ^ 52, false, false⟩, t + 1, ?_, by decide, hred, hpow.symm⟩
    rw [shiftToTargetExponent_eq hr ht hgrid (by omega), show t + 1 - t = 1 by omega]
    rfl

theorem roundWithAccuracy_rounds {m : Nat} {e t : Int} (sign : Sign) (hm : m ≠ 0)
    (he : -1074 ≤ e) (ht : Grid (magnitude m e) t) (het : e ≤ t) :
    ∃ n f hn, roundWithAccuracy Format.binary64 sign m e .exact = .finite sign n f hn ∧
      Rounds (magnitude m e) n f := by
  have hshift := shiftToTargetExponent_eq hm he ht het
  have hshifted := (shifted_shiftRight m (t - e).toNat).near
  unfold roundWithAccuracy
  rw [hshift]
  dsimp only
  generalize ((⟨m, false, false⟩ : ExtendedMantissa) >>> (t - e).toNat).roundedMantissa = r
    at hshifted ⊢
  have hnear : Near (magnitude m e) (2 ^ (t + 1074).toNat) r := by
    rw [magnitude_split he het]
    exact hshifted.scale (Nat.two_pow_pos _)
  have hmost : r ≤ 2 ^ 53 :=
    Nat.le_of_mul_le_mul_right (hnear.le (Nat.dvd_mul_left _ _) (Nat.le_of_lt ht.above))
      (Nat.two_pow_pos _)
  have hleading : t = -1074 ∨ 2 ^ 52 ≤ r := ht.below.imp_right fun h =>
    Nat.le_of_mul_le_mul_right (hnear.ge (Nat.two_pow_pos _) (Nat.dvd_mul_left _ _) h)
      (Nat.two_pow_pos _)
  have hr : r ≠ 0 := by
    rcases hleading with hleast | hleading
    · -- The exponent did not change, so nothing was rounded.
      rcases hshifted with hsame | hnext
      · rw [hsame, show (t - e).toNat = 0 by omega, Nat.pow_zero, Nat.div_one]
        exact hm
      · rw [hnext.1]
        exact Nat.succ_ne_zero _
    · omega
  obtain ⟨em, f, heq, hne, hred, hvalue⟩ :=
    shiftToTargetExponent_rounded hr ht.exponent hmost hleading
  refine ⟨em.mantissa, f, Nat.pos_of_ne_zero hne, ?_, hnear.rounds ht hred hvalue⟩
  rw [heq]
  exact dif_neg hne

/-- The exponent is lowered where it is above the one that is needed. -/
theorem magnitude_decreaseExponent {m : Nat} {e t : Int} (ht : -1074 ≤ t) :
    magnitude (decreaseExponent m e t).1 (decreaseExponent m e t).2 = magnitude m e := by
  have hexp : (e + 1074).toNat =
      (e - t).toNat + (e - ((e - t).toNat : Int) + 1074).toNat := by omega
  show m <<< (e - t).toNat * 2 ^ (e - ((e - t).toNat : Int) + 1074).toNat = magnitude m e
  rw [Nat.shiftLeft_eq, magnitude, hexp, Nat.pow_add, Nat.mul_assoc]

theorem round_rounds {m : Nat} {e : Int} (sign : Sign) (hm : m ≠ 0) (he : -1074 ≤ e) :
    ∃ n f hn, UnpackedFloat.round Format.binary64 sign m e = .finite sign n f hn ∧
      Rounds (magnitude m e) n f := by
  have hgrid := grid_target hm he
  unfold UnpackedFloat.round
  generalize Format.binary64.targetExponent (totalExponent m e) = t at hgrid ⊢
  have hsame := magnitude_decreaseExponent (m := m) (e := e) hgrid.exponent
  have hpos : m <<< (e - t).toNat ≠ 0 := by
    rw [Nat.shiftLeft_eq]
    exact Nat.mul_ne_zero hm (Nat.ne_of_gt (Nat.two_pow_pos _))
  rw [← hsame] at hgrid ⊢
  exact roundWithAccuracy_rounds sign hpos (by have := hgrid.exponent; omega) hgrid (by omega)

end Parkour.Number
