import Parkour.Proofs.Number.Exact

/-!
# Absolute values and products

A product with a positive factor has the sign of the other factor. So it does not matter
whether the sign is left out before or after the multiplication, and only what is no number
is not kept as a number.
-/

namespace Parkour.Number

open Float.Model (UnpackedFloat Format)
open Float.Model.UnpackedFloat

/-! ## Absolute values -/

theorem Unpacked.abs {x : UnpackedFloat} (h : Unpacked x) : Unpacked x.abs := by
  cases h with
  | notANumber => exact .notANumber
  | infinity sign => exact .infinity .positive
  | finite h hbound =>
      cases h with
      | zero sign => exact .finite (.zero .positive) hbound
      | @finite sign m e hm hred =>
          have hsize : (units (.finite sign m e hm)).natAbs = magnitude m e := natAbs_apply _ _
          rw [hsize] at hbound
          exact .finite (.finite hred) hbound

theorem exact_abs (v : Float) : exact v.abs = (exact v).abs :=
  (unpacked_unpack _).abs.unpack_pack

theorem isNaN_abs (v : Float) : v.abs.isNaN = v.isNaN := by
  change (exact v.abs).isNaN = (exact v).isNaN
  rw [exact_abs]
  cases exact v <;> rfl

theorem abs_beq_zero (v : Float) : (v.abs == 0) = (v == 0) := by
  change (exact v.abs).beq (.zero .positive) = (exact v).beq (.zero .positive)
  rw [exact_abs]
  cases exact v with
  | infinity sign => cases sign <;> rfl
  | notANumber => rfl
  | zero sign => rfl
  | finite sign => cases sign <;> rfl

/-- What a word stands for depends on its sign as a number does. -/
theorem unpack_packComponents (exponent : BitVec 11) (mantissa : BitVec 52) :
    ∃ signed : Sign → UnpackedFloat, (∀ sign, (signed sign).abs = signed .positive) ∧
      ∀ sign, unpack Format.binary64 (packComponents Format.binary64 sign exponent mantissa) =
        signed sign := by
  by_cases hgreatest : exponent = -1#11
  · by_cases hzero : mantissa = 0#52
    · subst hgreatest hzero
      exact ⟨.infinity, fun _ => rfl, unpack_packedInfinity⟩
    · subst hgreatest
      refine ⟨fun _ => .notANumber, fun _ => rfl, fun sign => ?_⟩
      exact unpack_notANumber _ unpackExponent_packComponents
        (by rwa [unpackMantissa_packComponents])
  · by_cases hleast : exponent = 0#11
    · by_cases hzero : mantissa = 0#52
      · subst hleast hzero
        exact ⟨.zero, fun _ => rfl, fun _ => unpack_packedZero⟩
      · subst hleast
        have hpos : 0 < mantissa.toNat :=
          Nat.pos_of_ne_zero fun h => hzero (BitVec.eq_of_toNat_eq h)
        refine ⟨fun sign => .finite sign mantissa.toNat (-1074) hpos, fun _ => rfl, fun sign => ?_⟩
        rw [unpack_least _ hpos unpackExponent_packComponents
          (by rw [unpackMantissa_packComponents]), unpackSign_packComponents,
          Sign.ofBitVec_toBitVec]
    · have hpos : 0 < (1#1 ++ mantissa).toNat := by
        rw [toNat_leading]
        omega
      refine ⟨fun sign => .finite sign (1#1 ++ mantissa).toNat (exponent.toNat - 1075) hpos,
        fun _ => rfl, fun sign => ?_⟩
      rw [unpack_leading _ hpos (by rwa [unpackExponent_packComponents])
        (by rwa [unpackExponent_packComponents]) (by rw [unpackMantissa_packComponents]),
        unpackSign_packComponents, Sign.ofBitVec_toBitVec, unpackExponent_packComponents]

/-- Leaving out the sign of a word leaves it out of what the word stands for. -/
theorem unpack_packComponents_positive (sign : Sign) (exponent : BitVec 11)
    (mantissa : BitVec 52) :
    unpack Format.binary64 (packComponents Format.binary64 .positive exponent mantissa) =
      (unpack Format.binary64 (packComponents Format.binary64 sign exponent mantissa)).abs := by
  obtain ⟨signed, habs, hword⟩ := unpack_packComponents exponent mantissa
  rw [hword, hword, habs]

theorem unpack_pack_abs (x : UnpackedFloat) :
    unpack Format.binary64 (pack Format.binary64 x.abs) =
      (unpack Format.binary64 (pack Format.binary64 x)).abs := by
  cases x with
  | notANumber => rfl
  | infinity sign =>
      rw [unpack_pack_infinity]
      exact unpack_pack_infinity .positive
  | zero sign => exact unpack_packComponents_positive sign _ _
  | finite sign m e hm =>
      rw [pack_finite]
      change unpack _ (pack _ (.finite .positive m e hm)) = _
      rw [pack_finite]
      split_ifs
      · exact unpack_packComponents_positive sign _ _
      · exact unpack_packComponents_positive sign _ _
      · exact unpack_packComponents_positive sign _ _

/-! ## Products -/

/-- What is finite and above zero has the positive sign. -/
theorem exists_positive {x : UnpackedFloat} (hfinite : x.isFinite = true)
    (hpos : (UnpackedFloat.zero .positive).lt x = true) :
    ∃ m e hm, x = .finite .positive m e hm := by
  cases x with
  | infinity sign => cases hfinite
  | notANumber => cases hfinite
  | zero sign => cases hpos
  | finite sign m e hm =>
      cases sign with
      | positive => exact ⟨m, e, hm, rfl⟩
      | negative => cases hpos

theorem exact_positive {v : Float} (hfinite : v.isFinite = true) (hpos : 0 < v) :
    ∃ m e hm, exact v = .finite .positive m e hm :=
  exists_positive hfinite (of_decide_eq_true hpos)

theorem exact32_positive {v : Float32} (hfinite : v.isFinite = true) (hpos : 0 < v) :
    ∃ m e hm, exact32 v = .finite .positive m e hm :=
  exists_positive hfinite (of_decide_eq_true hpos)

/-- Rounding treats both signs alike, and leads to a number. -/
theorem roundWithAccuracy_signed (m : Nat) (e : Int) (accuracy : Accuracy) :
    ∃ signed : Sign → UnpackedFloat, (∀ sign, (signed sign).abs = signed .positive) ∧
      (∀ sign, (signed sign).isNaN = false) ∧
      ∀ sign, roundWithAccuracy Format.binary64 sign m e accuracy = signed sign := by
  let once := shiftToTargetExponent Format.binary64 m e accuracy
  let twice := shiftToTargetExponent Format.binary64 once.1.roundedMantissa once.2 .exact
  by_cases hzero : twice.1.mantissa = 0
  · exact ⟨.zero, fun _ => rfl, fun _ => rfl, fun _ => dif_pos hzero⟩
  · exact ⟨fun sign => .finite sign twice.1.mantissa twice.2 (Nat.pos_of_ne_zero hzero),
      fun _ => rfl, fun _ => rfl, fun _ => dif_neg hzero⟩

theorem isNaN_roundWithAccuracy (sign : Sign) (m : Nat) (e : Int) (accuracy : Accuracy) :
    (roundWithAccuracy Format.binary64 sign m e accuracy).isNaN = false := by
  obtain ⟨signed, -, hnumber, hround⟩ := roundWithAccuracy_signed m e accuracy
  rw [hround]
  exact hnumber sign

/-- A positive factor does not change the sign of a product. -/
theorem abs_mul_positive (x : UnpackedFloat) {m : Nat} (e : Int) (hm : 0 < m) :
    (UnpackedFloat.mul Format.binary64 x (.finite .positive m e hm)).abs =
      UnpackedFloat.mul Format.binary64 x.abs (.finite .positive m e hm) := by
  cases x with
  | notANumber => rfl
  | infinity sign => rfl
  | zero sign => rfl
  | finite sign n f hn =>
      obtain ⟨signed, habs, -, hround⟩ := roundWithAccuracy_signed (n * m) (f + e) .exact
      change (roundWithAccuracy _ (sign * .positive) _ _ _).abs =
        roundWithAccuracy _ (.positive * .positive) _ _ _
      rw [hround, hround, habs]
      rfl

theorem abs_mul {a b : Float} (hfinite : b.isFinite = true) (hpos : 0 < b) :
    (a * b).abs = a.abs * b := by
  obtain ⟨m, e, hm, hb⟩ := exact_positive hfinite hpos
  apply exact_injective
  calc exact (a * b).abs
      = (unpack Format.binary64 (pack Format.binary64
          (UnpackedFloat.mul Format.binary64 (exact a) (exact b)))).abs := exact_abs _
    _ = unpack Format.binary64 (pack Format.binary64
          (UnpackedFloat.mul Format.binary64 (exact a.abs) (exact b))) := by
        rw [hb, ← unpack_pack_abs, abs_mul_positive, exact_abs]
    _ = exact (a.abs * b) := rfl

theorem isNaN_mul {a b : Float} (ha : a.isNaN = false) (hfinite : b.isFinite = true)
    (hpos : 0 < b) : (a * b).isNaN = false := by
  obtain ⟨m, e, hm, hb⟩ := exact_positive hfinite hpos
  have ha : (exact a).isNaN = false := ha
  refine isNaN_unpack_pack (UnpackedFloat.mul Format.binary64 (exact a) (exact b)) ?_
  rw [hb]
  generalize exact a = x at ha
  cases x with
  | notANumber => cases ha
  | infinity sign => rfl
  | zero sign => rfl
  | finite sign n f hn => exact isNaN_roundWithAccuracy _ _ _ _

end Parkour.Number
