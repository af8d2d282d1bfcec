import Parkour.Number.Binary
import Parkour.Proofs.Number.Packing

/-!
# Exact values

Every word of the format is the one into which its exact value is packed, so a number is
determined by its exact value. Nothing but what is no number already is packed into a word
that is no number.
-/

namespace Parkour.Number

open Float.Model (UnpackedFloat Format)
open Float.Model.UnpackedFloat

/-! ## Unpacking a word and packing it again -/

theorem ofExact_exact (v : Float) : ofExact (exact v) = v := by
  obtain ⟨⟨bits, hvalid⟩⟩ := v
  have hbits : pack Format.binary64 (unpack Format.binary64 bits.toBitVec) = bits.toBitVec :=
    pack_unpack_of_valid hvalid
  unfold ofExact exact Float.Model.pack Float.Model.unpack
  congr 2
  rw [hbits]

/-- A number is determined by its exact value. -/
theorem exact_injective : Function.Injective exact :=
  Function.LeftInverse.injective ofExact_exact

theorem unpack_pack_zero (sign : Sign) :
    unpack Format.binary64 (pack Format.binary64 (.zero sign)) = .zero sign :=
  unpack_packedZero

theorem Unpacked.unpack_pack {x : UnpackedFloat} (h : Unpacked x) :
    unpack Format.binary64 (pack Format.binary64 x) = x := by
  cases h with
  | notANumber => exact unpack_pack_notANumber
  | infinity sign => exact unpack_pack_infinity sign
  | finite h hbound =>
      rcases Number.unpack_pack h with hsame | ⟨sign, m, e, hm, rfl, hgreat, -⟩
      · exact hsame
      · have hsize : (units (.finite sign m e hm)).natAbs = magnitude m e := natAbs_apply _ _
        omega

/-! ## Numbers and what is no number -/

/-- Words that are no numbers have the greatest exponent, and a mantissa. -/
theorem exponent_of_isNaN {b : BitVec Format.binary64.numBits}
    (h : (unpack Format.binary64 b).isNaN = true) :
    unpackExponent b = -1#11 ∧ unpackMantissa b ≠ 0#52 := by
  by_cases hgreatest : unpackExponent b = -1#11
  · refine ⟨hgreatest, fun hzero => ?_⟩
    rw [unpack_greatest b hgreatest hzero] at h
    cases h
  · by_cases hleast : unpackExponent b = 0#11
    · by_cases hzero : unpackMantissa b = 0#52
      · rw [unpack_blank b hleast hzero] at h
        cases h
      · have hpos : 0 < (unpackMantissa b).toNat :=
          Nat.pos_of_ne_zero fun h => hzero (BitVec.eq_of_toNat_eq h)
        rw [unpack_least b hpos hleast rfl] at h
        cases h
    · rw [unpack_leading b (by omega) hgreatest hleast (toNat_leading _)] at h
      cases h

/-- A word is no number only if it was packed as such. -/
theorem isNaN_unpack_pack (x : UnpackedFloat) (hx : x.isNaN = false) :
    (unpack Format.binary64 (pack Format.binary64 x)).isNaN = false := by
  cases x with
  | notANumber => cases hx
  | infinity sign =>
      rw [unpack_pack_infinity]
      rfl
  | zero sign =>
      rw [unpack_pack_zero]
      rfl
  | finite sign m e hm =>
      rw [Bool.eq_false_iff]
      intro hnan
      obtain ⟨hexponent, hmantissa⟩ := exponent_of_isNaN hnan
      rw [pack_finite] at hexponent hmantissa
      split_ifs at hexponent hmantissa with hgreat hleading
      · exact hmantissa unpackMantissa_packComponents
      · rw [unpackExponent_packComponents] at hexponent
        have hsame : (e + 1075).toNat % 2 ^ 11 = 2047 := congrArg BitVec.toNat hexponent
        omega
      · rw [unpackExponent_packComponents] at hexponent
        exact absurd hexponent (by decide)

theorem Finite.isNaN {x : UnpackedFloat} (h : Finite x) : x.isNaN = false := by
  cases h <;> rfl

theorem isNaN_of_isFinite {v : Float} (h : v.isFinite = true) : v.isNaN = false :=
  ((unpacked_unpack _).finite_of_isFinite h).isNaN

/-- The difference of finite numbers is a number, be it infinite. -/
theorem isNaN_sub {a b : Float} (ha : a.isFinite = true) (hb : b.isFinite = true) :
    (a - b).isNaN = false := by
  have ha : Finite (exact a) := (unpacked_unpack _).finite_of_isFinite ha
  have hb : Finite (exact b) := (unpacked_unpack _).finite_of_isFinite hb
  exact isNaN_unpack_pack _ (sub_roundsTo ha hb).finite.isNaN

/-! ## Zero -/

theorem exact_zero {v : Float} (h : (v == 0) = true) : ∃ sign, exact v = .zero sign := by
  have h : (exact v).beq (.zero .positive) = true := h
  generalize exact v = x at h
  cases x with
  | infinity sign => cases sign <;> cases h
  | notANumber => cases h
  | zero sign => exact ⟨sign, rfl⟩
  | finite sign => cases sign <;> cases h

/-- All zeros compare alike. -/
theorem compare_zero (s t : Sign) (x : UnpackedFloat) :
    (UnpackedFloat.zero s).compare x = (UnpackedFloat.zero t).compare x := by
  cases x with
  | infinity sign => cases sign <;> rfl
  | notANumber => rfl
  | zero sign => rfl
  | finite sign => cases sign <;> rfl

/-- What is added to zero keeps its place in the order. -/
theorem compare_add_zero {x : UnpackedFloat} (h : Unpacked x) (sign : Sign) (y : UnpackedFloat) :
    (unpack Format.binary64 (pack Format.binary64
      (UnpackedFloat.add Format.binary64 x (.zero sign)))).compare y = x.compare y := by
  cases h with
  | notANumber => rw [notANumber_add, unpack_pack_notANumber]
  | infinity s =>
      have hsame : add Format.binary64 (.infinity s) (.zero sign) = .infinity s := rfl
      rw [hsame, unpack_pack_infinity]
  | finite h hbound =>
      cases h with
      | zero s =>
          obtain ⟨t, ht⟩ : ∃ t, add Format.binary64 (.zero s) (.zero sign) = .zero t := by
            cases s <;> cases sign <;> exact ⟨_, rfl⟩
          rw [ht, unpack_pack_zero]
          exact compare_zero t s y
      | @finite s m e hm hred =>
          have hword : Unpacked (.finite s m e hm) := .finite (.finite hred) hbound
          have hsame : add Format.binary64 (.finite s m e hm) (.zero sign) = .finite s m e hm := rfl
          rw [hsame, hword.unpack_pack]

theorem add_zero_le {t m : Float} (hm : (m == 0) = true) (v : Float) : t + m ≤ v ↔ t ≤ v := by
  obtain ⟨sign, hm⟩ := exact_zero hm
  have hsum : (exact (t + m)).compare (exact v) = (exact t).compare (exact v) := by
    change (unpack _ (pack _ (UnpackedFloat.add _ (exact t) (exact m)))).compare _ = _
    rw [hm]
    exact compare_add_zero (unpacked_unpack _) sign _
  change decide ((exact (t + m)).le (exact v) = true) = true ↔
    decide ((exact t).le (exact v) = true) = true
  rw [UnpackedFloat.le, UnpackedFloat.le, hsum]

end Parkour.Number
