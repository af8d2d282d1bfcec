import Parkour.Number.Numeral
import Parkour.Number.Whole
import Parkour.Proofs.Number.Absolute

/-!
# Numbers that are written down

A numeral, a whole number and the negative of a number are numbers. A numeral that is too
large is infinite, and one that is too small is zero.
-/

namespace Parkour.Number

open Float.Model (UnpackedFloat Format)
open Float.Model.UnpackedFloat

theorem isNaN_neg (v : Float) (h : v.isNaN = false) : (-v).isNaN = false := by
  have h : (exact v).isNaN = false := h
  refine isNaN_unpack_pack (exact v).neg ?_
  generalize exact v = x at h
  cases x with
  | notANumber => cases h
  | _ => rfl

/-! ## Rounding -/

theorem isNaN_normalize (n e : Int) (sign : Sign) :
    (UnpackedFloat.normalize Format.binary64 n e sign).isNaN = false := by
  unfold UnpackedFloat.normalize
  cases compare n 0 with
  | eq => rfl
  | lt => exact isNaN_roundWithAccuracy _ _ _ _
  | gt => exact isNaN_roundWithAccuracy _ _ _ _

/-- A positive divisor leaves a number. -/
theorem isNaN_div {a b : Float} (ha : a.isNaN = false) (hfinite : b.isFinite = true)
    (hpos : 0 < b) : (a / b).isNaN = false := by
  obtain ⟨m, e, hm, hb⟩ := exact_positive hfinite hpos
  have ha : (exact a).isNaN = false := ha
  refine isNaN_unpack_pack (UnpackedFloat.div Format.binary64 (exact a) (exact b)) ?_
  rw [hb]
  generalize exact a = x at ha
  cases x with
  | notANumber => cases ha
  | infinity sign => rfl
  | zero sign => rfl
  | finite sign n f hn => exact isNaN_roundWithAccuracy _ _ _ _

/-! ## Numerals -/

section Branches

variable {c : Prop} [Decidable c]

theorem isNaN_dite {x : c → Exact} {y : ¬c → Exact} (hx : ∀ h, (x h).isNaN = false)
    (hy : ∀ h, (y h).isNaN = false) : (dite c x y).isNaN = false := by
  by_cases h : c
  · rw [dif_pos h]
    exact hx h
  · rw [dif_neg h]
    exact hy h

theorem isNaN_ite {x y : Exact} (hx : x.isNaN = false) (hy : y.isNaN = false) :
    (if c then x else y).isNaN = false := by
  by_cases h : c
  · rwa [if_pos h]
  · rwa [if_neg h]

end Branches

theorem isNaN_nearest (format : Format) (sign : Sign) (m : Nat) (e : Int) :
    (nearest format sign m e).isNaN = false :=
  isNaN_dite (fun _ => rfl) fun _ => rfl

theorem isNaN_ofWhole (n : Int) : (ofWhole n).isNaN = false :=
  isNaN_unpack_pack _ (isNaN_nearest .binary64 _ _ _)

theorem isNaN_toFloat (n : UInt64) : n.toFloat.isNaN = false :=
  isNaN_unpack_pack _ (isNaN_normalize _ _ _)

/-- The powers of ten by which a short numeral is scaled. -/
theorem powers_positive : ∀ i : Fin Float.exactlyRepresentablePowersOfTen.size,
    Float.exactlyRepresentablePowersOfTen[i].isFinite = true ∧
      0 < Float.exactlyRepresentablePowersOfTen[i] := by
  decide +kernel

theorem isNaN_ofScientific (m : Nat) (negative : Bool) (e : Nat) :
    (Float.ofScientific m negative e).isNaN = false := by
  unfold Float.ofScientific
  split
  · next hshort =>
    obtain ⟨hfinite, hpos⟩ := powers_positive ⟨e, Nat.lt_succ_of_le hshort.2⟩
    dsimp only
    split
    · exact isNaN_div (isNaN_toFloat _) hfinite hpos
    · exact isNaN_mul (isNaN_toFloat _) hfinite hpos
  · refine isNaN_unpack_pack (UnpackedFloat.ofScientific Format.binary64 m
      (if negative then Int.negOfNat e else Int.ofNat e)) ?_
    generalize (if negative then Int.negOfNat e else Int.ofNat e) = power
    refine isNaN_dite (fun _ => rfl) fun hm => isNaN_ite rfl (isNaN_ite rfl (isNaN_ite ?_ ?_))
    · exact isNaN_roundWithAccuracy _ _ _ _
    · exact isNaN_roundWithAccuracy _ _ _ _

theorem Numeral.isNaN_value (n : Numeral) : n.value.isNaN = false :=
  isNaN_ofScientific _ _ _

end Parkour.Number
