import Mathlib
import Parkour.Proofs.Number.Sum

/-!
# Numbers as words

Every word of the format stands for a number that is not finite, or for a mantissa at an
exponent that is not too great. Packing keeps a finite number, or makes it infinite where its
exponent is. What was shown of the exact sums and differences so holds of the numbers that
the arithmetic gives.
-/

namespace Parkour.Number

open Float.Model (UnpackedFloat Format)
open Float.Model.UnpackedFloat

/-- The least value that is too great for a word. -/
def beyond : Nat := magnitude (2 ^ 52) 972

theorem reduced_beyond : Reduced (2 ^ 52) 972 := ⟨by decide, by decide, .inr le_rfl⟩

/-! ## What words stand for -/

/-- What a word of the format stands for. -/
inductive Unpacked : UnpackedFloat → Prop where
  | notANumber : Unpacked .notANumber
  | infinity (sign : Sign) : Unpacked (.infinity sign)
  | finite {x : UnpackedFloat} (h : Finite x) (hbound : (units x).natAbs < beyond) : Unpacked x

theorem natAbs_apply (sign : Sign) (n : Nat) : (sign.apply n).natAbs = n := by
  cases sign with
  | negative => exact Int.natAbs_neg n
  | positive => rfl

theorem Reduced.unpacked {m : Nat} {e : Int} (h : Reduced m e) (hmost : e ≤ 971) (sign : Sign)
    (hm : 0 < m) : Unpacked (.finite sign m e hm) := by
  refine .finite (.finite h) ?_
  change (sign.apply (magnitude m e)).natAbs < beyond
  rw [natAbs_apply]
  exact h.lt reduced_beyond (by omega)

/-- A bit stands for its place before what follows it. -/
theorem toNat_one_append {n : Nat} (rest : BitVec n) :
    (1#1 ++ rest).toNat = 2 ^ n + rest.toNat := by
  have hsum := Nat.two_pow_add_eq_or_of_lt rest.isLt 1
  rw [Nat.mul_one] at hsum
  rw [BitVec.toNat_append, Nat.shiftLeft_eq, BitVec.toNat_ofNat, Nat.pow_one, Nat.one_mod,
    Nat.one_mul, hsum]

/-- The mantissa of a word stands behind an implicit bit. -/
theorem toNat_leading (mantissa : BitVec 52) :
    (1#1 ++ mantissa).toNat = 2 ^ 52 + mantissa.toNat :=
  toNat_one_append mantissa

/-- Words with the greatest exponent and no mantissa are infinite. -/
theorem unpack_greatest (b : BitVec Format.binary64.numBits)
    (hexponent : unpackExponent b = -1#11) (hmantissa : unpackMantissa b = 0#52) :
    unpack Format.binary64 b = .infinity (Sign.ofBitVec (unpackSign b)) :=
  (if_pos hexponent).trans (if_pos hmantissa)

theorem unpack_notANumber (b : BitVec Format.binary64.numBits)
    (hexponent : unpackExponent b = -1#11) (hmantissa : unpackMantissa b ≠ 0#52) :
    unpack Format.binary64 b = .notANumber :=
  (if_pos hexponent).trans (if_neg hmantissa)

/-- Words with neither the greatest exponent nor the least one stand for their mantissa behind
an implicit bit. -/
theorem unpack_leading (b : BitVec Format.binary64.numBits) {m : Nat} (hm : 0 < m)
    (hinfinite : unpackExponent b ≠ -1#11) (hsubnormal : unpackExponent b ≠ 0#11)
    (hmantissa : (1#1 ++ unpackMantissa b).toNat = m) :
    unpack Format.binary64 b =
      .finite (Sign.ofBitVec (unpackSign b)) m ((unpackExponent b).toNat - 1075) hm := by
  subst hmantissa
  exact (if_neg hinfinite).trans (if_neg hsubnormal)

/-- Words with the least exponent and no mantissa are zero. -/
theorem unpack_blank (b : BitVec Format.binary64.numBits)
    (hexponent : unpackExponent b = 0#11) (hmantissa : unpackMantissa b = 0#52) :
    unpack Format.binary64 b = .zero (Sign.ofBitVec (unpackSign b)) := by
  have hinfinite : unpackExponent b ≠ -1#11 := by
    rw [hexponent]
    decide
  exact (if_neg hinfinite).trans ((if_pos hexponent).trans (dif_pos hmantissa))

/-- Words with the least exponent stand for their mantissa alone. -/
theorem unpack_least (b : BitVec Format.binary64.numBits) {m : Nat} (hm : 0 < m)
    (hsubnormal : unpackExponent b = 0#11) (hmantissa : (unpackMantissa b).toNat = m) :
    unpack Format.binary64 b = .finite (Sign.ofBitVec (unpackSign b)) m (-1074) hm := by
  have hinfinite : unpackExponent b ≠ -1#11 := by
    rw [hsubnormal]
    decide
  have hzero : unpackMantissa b ≠ 0#52 := by
    intro h
    rw [h] at hmantissa
    exact absurd hmantissa (Nat.ne_of_lt hm)
  have hword : unpack Format.binary64 b = .finite (Sign.ofBitVec (unpackSign b))
      (unpackMantissa b).toNat ((unpackExponent b).toNat - 1075 + 1) (by omega) :=
    (if_neg hinfinite).trans ((if_pos hsubnormal).trans (dif_neg hzero))
  subst hmantissa
  rw [hword, hsubnormal]
  rfl

theorem unpacked_unpack (b : BitVec Format.binary64.numBits) :
    Unpacked (unpack Format.binary64 b) := by
  have hmantissa : (unpackMantissa b).toNat < 2 ^ 52 := (unpackMantissa b).isLt
  have hexponent : (unpackExponent b).toNat < 2048 := (unpackExponent b).isLt
  by_cases hgreatest : unpackExponent b = -1#11
  · by_cases hzero : unpackMantissa b = 0#52
    · rw [unpack_greatest b hgreatest hzero]
      exact .infinity _
    · rw [unpack_notANumber b hgreatest hzero]
      exact .notANumber
  · by_cases hleast : unpackExponent b = 0#11
    · by_cases hzero : unpackMantissa b = 0#52
      · rw [unpack_blank b hleast hzero]
        exact .finite (.zero _) (magnitude_pos (Nat.two_pow_pos 52))
      · have hpos : 0 < (unpackMantissa b).toNat :=
          Nat.pos_of_ne_zero fun h => hzero (BitVec.eq_of_toNat_eq h)
        rw [unpack_least b hpos hleast rfl]
        exact Reduced.unpacked ⟨by omega, by omega, .inl rfl⟩ (by omega) _ _
    · have hmost : (unpackExponent b).toNat ≠ 2047 := fun h =>
        hgreatest (BitVec.eq_of_toNat_eq h)
      have hpos : (unpackExponent b).toNat ≠ 0 := fun h => hleast (BitVec.eq_of_toNat_eq h)
      rw [unpack_leading b (by omega) hgreatest hleast (toNat_leading _)]
      exact Reduced.unpacked ⟨by omega, by omega, .inr (by omega)⟩ (by omega) _ _

/-! ## Packing a number and unpacking it again -/

theorem unpack_packedInfinity (sign : Sign) :
    unpack Format.binary64 (packedInfinity Format.binary64 sign) = .infinity sign := by
  change unpack Format.binary64 (packComponents Format.binary64 sign (-1#11) 0#52) = _
  rw [unpack_greatest _ unpackExponent_packComponents unpackMantissa_packComponents,
    unpackSign_packComponents, Sign.ofBitVec_toBitVec]

theorem unpack_pack_infinity (sign : Sign) :
    unpack Format.binary64 (pack Format.binary64 (.infinity sign)) = .infinity sign :=
  unpack_packedInfinity sign

theorem unpack_pack_notANumber :
    unpack Format.binary64 (pack Format.binary64 .notANumber) = .notANumber :=
  unpack_packedNaN

theorem unpack_normal (sign : Sign) {m n : Nat} (hm : 0 < m) (hleading : 2 ^ 52 ≤ m)
    (hmost : m < 2 ^ 53) (hn : 0 < n) (hfits : n < 2047) :
    unpack Format.binary64 (packComponents Format.binary64 sign (BitVec.ofNat 11 n)
      (BitVec.ofNat 52 m)) = .finite sign m (n - 1075) hm := by
  have hexponent : (BitVec.ofNat 11 n).toNat = n := Nat.mod_eq_of_lt (by omega)
  have hinfinite : BitVec.ofNat 11 n ≠ -1#11 := fun h => by
    have hsame : (BitVec.ofNat 11 n).toNat = 2047 := congrArg BitVec.toNat h
    omega
  have hsubnormal : BitVec.ofNat 11 n ≠ 0#11 := fun h => by
    have hsame : (BitVec.ofNat 11 n).toNat = 0 := congrArg BitVec.toNat h
    omega
  have hmantissa : (1#1 ++ BitVec.ofNat 52 m).toNat = m := by
    rw [toNat_leading]
    show 2 ^ 52 + m % 2 ^ 52 = m
    omega
  rw [unpack_leading _ hm (by rwa [unpackExponent_packComponents])
    (by rwa [unpackExponent_packComponents]) (by rwa [unpackMantissa_packComponents]),
    unpackSign_packComponents, Sign.ofBitVec_toBitVec, unpackExponent_packComponents, hexponent]

theorem unpack_subnormal (sign : Sign) {m : Nat} (hm : 0 < m) (hmost : m < 2 ^ 52) :
    unpack Format.binary64 (packComponents Format.binary64 sign 0#11 (BitVec.ofNat 52 m)) =
      .finite sign m (-1074) hm := by
  have hmantissa : (BitVec.ofNat 52 m).toNat = m := Nat.mod_eq_of_lt hmost
  rw [unpack_least _ hm unpackExponent_packComponents (by rwa [unpackMantissa_packComponents]),
    unpackSign_packComponents, Sign.ofBitVec_toBitVec]

theorem pack_finite (sign : Sign) {m : Nat} (e : Int) (hm : 0 < m) :
    pack Format.binary64 (.finite sign m e hm) =
      if 2 ^ 11 ≤ (e + 1075).toNat + 1 then packedInfinity Format.binary64 sign
      else if m.log2 + 1 = 53 then
        packComponents Format.binary64 sign (BitVec.ofNat 11 (e + 1075).toNat) (BitVec.ofNat 52 m)
      else packComponents Format.binary64 sign 0#11 (BitVec.ofNat 52 m) := by
  rw [show e + 1075 = e + 1023 + 52 by omega]
  rfl

/-- A finite number is kept by the word into which it is packed, unless it is too great. -/
theorem unpack_pack {x : UnpackedFloat} (hx : Finite x) :
    unpack Format.binary64 (pack Format.binary64 x) = x ∨
      ∃ sign m e hm, x = .finite sign m e hm ∧ beyond ≤ magnitude m e ∧
        unpack Format.binary64 (pack Format.binary64 x) = .infinity sign := by
  cases hx with
  | zero sign => exact .inl unpack_packedZero
  | @finite sign m e hm hred =>
      have hleast := hred.exponent
      have hmost := hred.mantissa
      have hlog : m.log2 + 1 = 53 ↔ 2 ^ 52 ≤ m := by
        have hlow := Nat.le_log2 (k := 52) (Nat.ne_of_gt hm)
        have hhigh := Nat.log2_lt (k := 53) (Nat.ne_of_gt hm)
        omega
      by_cases hfits : e < 972
      · left
        have hback : ((e + 1075).toNat : Int) - 1075 = e := by omega
        rw [pack_finite, if_neg (by omega)]
        by_cases hleading : 2 ^ 52 ≤ m
        · rw [if_pos (hlog.mpr hleading),
            unpack_normal sign hm hleading hmost (by omega) (by omega), hback]
        · rw [if_neg (hlog.not.mpr hleading), unpack_subnormal sign hm (by omega)]
          rw [hred.leading.resolve_right hleading]
      · right
        have hleading : 2 ^ 52 ≤ m := hred.leading.resolve_left (by omega)
        have hgreat : beyond ≤ magnitude m e :=
          Nat.mul_le_mul hleading (Nat.pow_le_pow_right (by decide) (by omega))
        refine ⟨sign, m, e, hm, rfl, hgreat, ?_⟩
        rw [pack_finite, if_pos (by omega)]
        exact unpack_packedInfinity sign

/-! ## Sums and differences of words -/

theorem not_lt_notANumber (x : UnpackedFloat) : x.lt .notANumber = false := by
  cases x <;> rfl

/-- Nothing is below what is infinite downwards. -/
theorem not_lt_infinity_negative (x : UnpackedFloat) : x.lt (.infinity .negative) = false := by
  cases x with
  | notANumber => rfl
  | infinity sign => cases sign <;> rfl
  | zero sign => rfl
  | finite sign m e hm => cases sign <;> rfl

theorem Finite.compare_infinity_negative {x : UnpackedFloat} (h : Finite x) :
    x.compare (.infinity .negative) = some .gt := by
  cases h with
  | zero sign => rfl
  | @finite sign m e hm hred => cases sign <;> rfl

theorem Finite.not_infinity_lt {x : UnpackedFloat} (h : Finite x) :
    (UnpackedFloat.infinity .positive).lt x = false := by
  cases h with
  | zero sign => rfl
  | @finite sign m e hm hred => cases sign <;> rfl

theorem Finite.negative_infinity_lt {x : UnpackedFloat} (h : Finite x) :
    (UnpackedFloat.infinity .negative).lt x = true := by
  cases h with
  | zero sign => rfl
  | @finite sign m e hm hred => cases sign <;> rfl

/-- A value that is not above a bound is not above it as a word either. -/
theorem RoundsTo.not_lt {v : Int} {x l : UnpackedFloat} (h : RoundsTo v x) (hl : Unpacked l)
    (hbelow : l ≠ .infinity .negative) (hv : Finite l → v ≤ units l) :
    l.lt (unpack Format.binary64 (pack Format.binary64 x)) = false := by
  cases hl with
  | notANumber => rfl
  | infinity sign =>
      cases sign with
      | negative => exact absurd rfl hbelow
      | positive =>
          rcases unpack_pack h.finite with hsame | ⟨s, m, e, hm, -, -, hover⟩
          · rw [hsame]
            exact h.finite.not_infinity_lt
          · rw [hover]
            cases s <;> rfl
  | finite hl hbound =>
      have hle := h.le l hl (hv hl)
      rcases unpack_pack h.finite with hsame | ⟨s, m, e, hm, rfl, hgreat, hover⟩
      · rw [hsame, Bool.eq_false_iff, Ne, lt_units hl h.finite]
        exact hle.not_gt
      · rw [hover]
        cases s with
        | negative => exact not_lt_infinity_negative l
        | positive =>
            have hsize : (magnitude m e : Int) ≤ units l := hle
            omega

/-- A value that is not negative is not negative as a word either. -/
theorem RoundsTo.not_negative {v : Int} {x : UnpackedFloat} (h : RoundsTo v x) (hv : 0 ≤ v)
    (sign : Sign) :
    (unpack Format.binary64 (pack Format.binary64 x)).lt (.zero sign) = false := by
  have hge : 0 ≤ units x := h.ge (.zero sign) (.zero sign) hv
  rcases unpack_pack h.finite with hsame | ⟨s, m, e, hm, rfl, -, hover⟩
  · rw [hsame, Bool.eq_false_iff, Ne, lt_units h.finite (.zero sign)]
    exact hge.not_gt
  · rw [hover]
    cases s with
    | negative => exact absurd hge (units_negative hm).not_ge
    | positive => rfl

section Words

variable {a b l : UnpackedFloat}

/-- A sum is not above a bound that its first summand is not above, if the second one is not
positive. -/
theorem not_lt_add_unpacked (ha : Unpacked a) (hb : Unpacked b) (hl : Unpacked l)
    (hal : l.lt a = false) (hsign : (UnpackedFloat.zero .positive).lt b = false) :
    l.lt (unpack Format.binary64 (pack Format.binary64 (add Format.binary64 a b))) = false := by
  cases hb with
  | notANumber =>
      rw [add_notANumber, unpack_pack_notANumber]
      exact not_lt_notANumber l
  | infinity t =>
      cases t with
      | positive => cases hsign
      | negative =>
          cases ha with
          | notANumber => exact not_lt_notANumber l
          | infinity s =>
              cases s with
              | negative => exact not_lt_infinity_negative l
              | positive => exact not_lt_notANumber l
          | finite ha habound =>
              rw [ha.add_infinity, unpack_pack_infinity]
              exact not_lt_infinity_negative l
  | finite hb hbbound =>
      cases ha with
      | notANumber =>
          rw [notANumber_add, unpack_pack_notANumber]
          exact not_lt_notANumber l
      | infinity s =>
          rw [hb.infinity_add, unpack_pack_infinity]
          exact hal
      | finite ha habound =>
          refine (add_roundsTo ha hb).not_lt hl ?_ fun hfinite => ?_
          · rintro rfl
            rw [ha.negative_infinity_lt] at hal
            cases hal
          · have hle : units a ≤ units l := by
              rw [Bool.eq_false_iff, Ne, lt_units hfinite ha, not_lt] at hal
              exact hal
            have hneg : units b ≤ 0 := by
              rw [Bool.eq_false_iff, Ne, lt_units (.zero .positive) hb, not_lt] at hsign
              exact hsign
            omega

/-- A difference is not negative, if its first term is at least as great as the second one. -/
theorem not_negative_sub_unpacked (ha : Unpacked a) (hb : Finite b) (hle : b.le a = true)
    (sign : Sign) :
    (unpack Format.binary64 (pack Format.binary64 (sub Format.binary64 a b))).lt (.zero sign) =
      false := by
  cases ha with
  | notANumber =>
      rw [sub_eq_add_neg, notANumber_add, unpack_pack_notANumber]
      rfl
  | infinity s =>
      rw [sub_eq_add_neg, hb.neg.infinity_add, unpack_pack_infinity]
      cases s with
      | positive => rfl
      | negative =>
          rw [UnpackedFloat.le, hb.compare_infinity_negative] at hle
          cases hle
  | finite ha habound =>
      refine (sub_roundsTo ha hb).not_negative ?_ sign
      have hunits := (le_units hb ha).mp hle
      omega

end Words

/-! ## Sums and differences of numbers -/

theorem not_lt_iff {x y : Float} : ¬x < y ↔ x.toModel.unpack.lt y.toModel.unpack = false := by
  have hlt : x < y ↔ x.toModel.unpack.lt y.toModel.unpack = true :=
    ⟨of_decide_eq_true, decide_eq_true⟩
  rw [hlt, Bool.not_eq_true]

/-- A sum is not above a bound, if its first summand is not and the second one is not
positive. -/
theorem not_lt_add {a b l : Float} (hb : ¬0 < b) (ha : ¬l < a) : ¬l < a + b := by
  rw [not_lt_iff] at *
  exact not_lt_add_unpacked (unpacked_unpack _) (unpacked_unpack _) (unpacked_unpack _) ha hb

theorem Unpacked.finite_of_isFinite {x : UnpackedFloat} (h : Unpacked x)
    (hfinite : x.isFinite = true) : Finite x := by
  cases h with
  | notANumber => cases hfinite
  | infinity sign => cases hfinite
  | finite h hbound => exact h

/-- A difference is not negative, if its first term is at least as great as the second one. -/
theorem not_sub_lt_zero {a b : Float} (hb : b.isFinite = true) (hle : b ≤ a) : ¬a - b < 0 := by
  have hfinite : Finite b.toModel.unpack := (unpacked_unpack _).finite_of_isFinite hb
  have hunpacked : b.toModel.unpack.le a.toModel.unpack = true := of_decide_eq_true hle
  rw [not_lt_iff]
  exact not_negative_sub_unpacked (unpacked_unpack _) hfinite hunpacked _

/-- No number is below itself. -/
theorem not_lt_self (x : Float) : ¬x < x := by
  have hx : Unpacked x.toModel.unpack := unpacked_unpack _
  rw [not_lt_iff]
  generalize x.toModel.unpack = u at hx
  cases hx with
  | notANumber => rfl
  | infinity sign => cases sign <;> rfl
  | finite h hbound =>
      rw [Bool.eq_false_iff, Ne, lt_units h h]
      exact lt_irrefl _

end Parkour.Number
