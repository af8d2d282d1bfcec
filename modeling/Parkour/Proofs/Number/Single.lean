import Parkour.Player.Basic
import Parkour.Proofs.Number.Absolute

/-!
# Numbers of the smaller format

The smaller format has less room for the mantissa and for the exponent, so a number of it is
kept when it is widened. The drag of the ground is not lost when it is computed in it: the
product of a slipperiness above zero with the drag of the ground is above zero, be the
slipperiness as small as it may.
-/

namespace Parkour.Number

open Float.Model (UnpackedFloat Format)
open Float.Model.UnpackedFloat

/-- The mantissas and exponents of the smaller format. -/
structure Fits32 (m : Nat) (e : Int) : Prop where
  mantissa : m < 2 ^ 24
  least : -149 ≤ e
  most : e ≤ 104

/-- What words of the smaller format stand for if they are finite. -/
theorem fits32_unpack {b : BitVec Format.binary32.numBits} {sign : Sign} {m : Nat} {e : Int}
    {hm : 0 < m} (h : unpack Format.binary32 b = .finite sign m e hm) : Fits32 m e := by
  have hmantissa : (unpackMantissa b).toNat < 2 ^ 23 := (unpackMantissa b).isLt
  have hexponent : (unpackExponent b).toNat < 256 := (unpackExponent b).isLt
  unfold unpack at h
  dsimp only at h
  by_cases hgreatest : unpackExponent b = -1#8
  · rw [if_pos hgreatest] at h
    by_cases hzero : unpackMantissa b = 0#23
    · rw [if_pos hzero] at h
      cases h
    · rw [if_neg hzero] at h
      cases h
  · have hmost : (unpackExponent b).toNat ≠ 255 := fun h =>
      hgreatest (BitVec.eq_of_toNat_eq h)
    have hbias : (Format.binary32.exponentBias : Int) = 127 := rfl
    rw [if_neg hgreatest] at h
    by_cases hleast : unpackExponent b = 0#8
    · rw [if_pos hleast] at h
      by_cases hzero : unpackMantissa b = 0#23
      · rw [dif_pos hzero] at h
        cases h
      · rw [dif_neg hzero] at h
        injection h with _ hm he
        rw [hleast] at he
        have he : e = -149 := he.symm
        exact ⟨by omega, by omega, by omega⟩
    · have hpos : (unpackExponent b).toNat ≠ 0 := fun h => hleast (BitVec.eq_of_toNat_eq h)
      have hleading : (1#1 ++ unpackMantissa b).toNat = 2 ^ 23 + (unpackMantissa b).toNat :=
        toNat_one_append _
      rw [if_neg hleast] at h
      injection h with _ hm he
      exact ⟨by omega, by omega, by omega⟩

/-- Words with the positive sign stand for numbers above zero, unless they are infinite or no
numbers, or blank. -/
theorem positive_packComponents32 {exponent : BitVec 8} {mantissa : BitVec 23}
    (hinfinite : exponent ≠ -1#8) (hblank : exponent = 0#8 → mantissa ≠ 0#23) :
    ∃ n f hn, unpack Format.binary32
        (packComponents Format.binary32 .positive exponent mantissa) =
      .finite .positive n f hn := by
  have hsign : Sign.ofBitVec (unpackSign
      (packComponents Format.binary32 .positive exponent mantissa)) = .positive := by
    rw [unpackSign_packComponents, Sign.ofBitVec_toBitVec]
  unfold unpack
  dsimp only
  rw [hsign, if_neg (by rwa [unpackExponent_packComponents])]
  by_cases hleast : exponent = 0#8
  · have hzero : unpackMantissa (packComponents Format.binary32 .positive exponent mantissa) ≠
        0#23 := by
      rw [unpackMantissa_packComponents]
      exact hblank hleast
    rw [if_pos (unpackExponent_packComponents.trans hleast), dif_neg hzero]
    exact ⟨_, _, Nat.pos_of_ne_zero fun h => hzero (BitVec.eq_of_toNat_eq h), rfl⟩
  · have hpos : 0 < (1#1 ++ unpackMantissa
        (packComponents Format.binary32 .positive exponent mantissa)).toNat := by
      rw [toNat_one_append]
      omega
    rw [if_neg (by rwa [unpackExponent_packComponents])]
    exact ⟨_, _, hpos, rfl⟩

theorem pack32_finite (sign : Sign) {m : Nat} (e : Int) (hm : 0 < m) :
    pack Format.binary32 (.finite sign m e hm) =
      if 2 ^ 8 ≤ (e + 150).toNat + 1 then packedInfinity Format.binary32 sign
      else if m.log2 + 1 = 24 then
        packComponents Format.binary32 sign (BitVec.ofNat 8 (e + 150).toNat) (BitVec.ofNat 23 m)
      else packComponents Format.binary32 sign 0#8 (BitVec.ofNat 23 m) := by
  rw [show e + 150 = e + 127 + 23 by omega]
  rfl

/-- Packing does not lose a number above zero that fits. -/
theorem Fits32.positive_unpack_pack {m : Nat} {e : Int} (h : Fits32 m e) (hm : 0 < m) :
    ∃ n f hn, unpack Format.binary32 (pack Format.binary32 (.finite .positive m e hm)) =
      .finite .positive n f hn := by
  obtain ⟨hmantissa, hleast, hmost⟩ := h
  have hfits : ¬2 ^ 8 ≤ (e + 150).toNat + 1 := by omega
  rw [pack32_finite, if_neg hfits]
  by_cases hlog : m.log2 + 1 = 24
  · have hexponent : (BitVec.ofNat 8 (e + 150).toNat).toNat = (e + 150).toNat :=
      Nat.mod_eq_of_lt (by omega)
    rw [if_pos hlog]
    refine positive_packComponents32 (fun h => ?_) (fun h => ?_)
    · have hsame : (BitVec.ofNat 8 (e + 150).toNat).toNat = 255 := congrArg BitVec.toNat h
      omega
    · have hsame : (BitVec.ofNat 8 (e + 150).toNat).toNat = 0 := congrArg BitVec.toNat h
      omega
  · have hhigh : m.log2 < 24 := (Nat.log2_lt (Nat.ne_of_gt hm)).mpr hmantissa
    have hsmall : m < 2 ^ 23 := (Nat.log2_lt (Nat.ne_of_gt hm)).mp (by omega)
    rw [if_neg hlog]
    refine positive_packComponents32 (by decide) fun _ h => ?_
    have hsame : m % 2 ^ 23 = 0 := congrArg BitVec.toNat h
    omega

/-! ## Products with the drag of the ground -/

/-- How many bits of a mantissa have no place in the smaller format. -/
def surplus32 (m : Nat) (e : Int) : Nat := (max ((m.log2 : Int) + 1 + e - 24) (-149) - e).toNat

theorem shiftToTargetExponent32 (m : Nat) (e : Int) :
    shiftToTargetExponent Format.binary32 m e .exact =
      ((⟨m, false, false⟩ : ExtendedMantissa) >>> surplus32 m e, e + surplus32 m e) := rfl

/-- A rounded mantissa has its place in the format, also if rounding has brought it to the next
power of two. -/
theorem fits32_rounded {r : Nat} {t : Int} (hr : r ≠ 0) (hleast : -149 ≤ t)
    (hmost : r < 2 ^ 24 ∧ t ≤ 104 ∨ r = 2 ^ 24 ∧ t < 104) :
    ((⟨r, false, false⟩ : ExtendedMantissa) >>> surplus32 r t).mantissa ≠ 0 ∧
      Fits32 ((⟨r, false, false⟩ : ExtendedMantissa) >>> surplus32 r t).mantissa
        (t + surplus32 r t) := by
  rcases hmost with ⟨hmantissa, hmost⟩ | ⟨rfl, hmost⟩
  · have hlog : r.log2 < 24 := (Nat.log2_lt hr).mpr hmantissa
    have hnone : surplus32 r t = 0 := by
      unfold surplus32
      omega
    rw [hnone]
    exact ⟨hr, hmantissa, by omega, by omega⟩
  · have hone : surplus32 (2 ^ 24) t = 1 := by
      unfold surplus32
      rw [Nat.log2_two_pow]
      omega
    rw [hone]
    exact ⟨by decide, by decide, by omega, by omega⟩

/-- The drag of the ground as a mantissa at the exponent `-24`. -/
def slipMantissa : Nat := 15267267

theorem exact32_slipFactor :
    exact32 Player.slipFactor = .finite .positive slipMantissa (-24) (by decide) := rfl

/-- What becomes of the mantissa of a product with the drag of the ground. -/
theorem rounded_slip {m : Nat} {e : Int} (hm : 0 < m) (h : Fits32 m e) {n r : Nat}
    (hn : n = surplus32 (m * slipMantissa) (e - 24))
    (hr : r = ((⟨m * slipMantissa, false, false⟩ : ExtendedMantissa) >>> n).roundedMantissa) :
    r ≠ 0 ∧ -149 ≤ e - 24 + n ∧
      (r < 2 ^ 24 ∧ e - 24 + n ≤ 104 ∨ r = 2 ^ 24 ∧ e - 24 + n < 104) := by
  obtain ⟨hmantissa, hleast, hmost⟩ := h
  generalize hproduct : m * slipMantissa = p at hn hr
  have hp : p = m * 15267267 := hproduct.symm
  have hne : p ≠ 0 := by omega
  have hfirst : 23 ≤ p.log2 := (Nat.le_log2 hne).mpr (by omega)
  have hlast : p.log2 < 48 := (Nat.log2_lt hne).mpr (by omega)
  have hnear : Near p (2 ^ n) r := by
    rw [hr]
    exact (shifted_shiftRight p n).near
  unfold surplus32 at hn
  have hwide : r ≤ 2 ^ 24 := by
    refine Nat.le_of_mul_le_mul_right (hnear.le (Nat.dvd_mul_left _ _) ?_) (Nat.two_pow_pos n)
    rw [← Nat.pow_add]
    exact Nat.lt_log2_self.le.trans (Nat.pow_le_pow_right (by decide) (by omega))
  have hpos : r ≠ 0 := by
    by_cases hone : 2 ^ n ≤ p
    · rintro rfl
      have hge := hnear.ge (Nat.two_pow_pos n) (Nat.dvd_refl _) hone
      have hpow := Nat.two_pow_pos n
      omega
    · -- All bits of the least mantissa are surplus, but it is more than a half.
      have hall : n = 24 := by
        by_contra hfewer
        have hpow : 2 ^ n ≤ 2 ^ 23 := Nat.pow_le_pow_right (by decide) (by omega)
        omega
      rw [hall] at hone hr
      have hleastMantissa : p = 15267267 := by omega
      rw [hleastMantissa] at hr
      rw [hr]
      decide
  refine ⟨hpos, by omega, ?_⟩
  by_cases hall : n = 24
  · have hslip : r ≤ 15267267 := by
      rw [hall] at hnear
      refine Nat.le_of_mul_le_mul_right (hnear.le (Nat.dvd_mul_left _ _) ?_) (Nat.two_pow_pos 24)
      omega
    exact .inl ⟨by omega, by omega⟩
  · rcases Nat.lt_or_eq_of_le hwide with hless | hnext
    · exact .inl ⟨hless, by omega⟩
    · exact .inr ⟨hnext, by omega⟩

/-- The product of a slipperiness with the drag of the ground fits, and is not lost. -/
theorem mul_slip {m : Nat} {e : Int} (hm : 0 < m) (h : Fits32 m e) :
    ∃ n f hn, UnpackedFloat.mul Format.binary32 (.finite .positive m e hm)
        (.finite .positive slipMantissa (-24) (by decide)) = .finite .positive n f hn ∧
      Fits32 n f := by
  change ∃ n f hn, roundWithAccuracy Format.binary32 .positive (m * slipMantissa) (e + -24)
    .exact = .finite .positive n f hn ∧ Fits32 n f
  rw [show e + -24 = e - 24 from rfl]
  unfold roundWithAccuracy
  rw [shiftToTargetExponent32]
  dsimp only
  rw [shiftToTargetExponent32]
  obtain ⟨hr, hleast, hmost⟩ := rounded_slip hm h rfl rfl
  obtain ⟨hne, hfits⟩ := fits32_rounded hr hleast hmost
  exact ⟨_, _, Nat.pos_of_ne_zero hne, dif_neg hne, hfits⟩

theorem slip_positive {slip : Float32} (hfinite : slip.isFinite = true) (hpos : 0 < slip) :
    (slip * Player.slipFactor).isFinite = true ∧ 0 < slip * Player.slipFactor := by
  obtain ⟨m, e, hm, hslip⟩ := exact32_positive hfinite hpos
  obtain ⟨n, f, hn, hproduct, hfits⟩ := mul_slip hm (fits32_unpack hslip)
  obtain ⟨n, f, hn, hword⟩ := hfits.positive_unpack_pack hn
  have hexact : exact32 (slip * Player.slipFactor) = .finite .positive n f hn := by
    change unpack _ (pack _ (UnpackedFloat.mul _ (exact32 slip) (exact32 Player.slipFactor))) = _
    rw [hslip, exact32_slipFactor, hproduct, hword]
  refine ⟨congrArg UnpackedFloat.isFinite hexact, ?_⟩
  change decide ((UnpackedFloat.zero .positive).lt (exact32 (slip * Player.slipFactor)) = true) =
    true
  rw [hexact]
  rfl

/-! ## Widening -/

/-- A mantissa of the smaller format is moved up to the first bit of the greater one. -/
theorem Fits32.fit {m : Nat} {e : Int} (h : Fits32 m e) (hm : 0 < m) :
    Number.fit Format.binary64 m e = (m * 2 ^ (52 - m.log2), e - (52 - m.log2 : Nat)) := by
  obtain ⟨hmantissa, hleast, hmost⟩ := h
  have hlog : m.log2 < 24 := (Nat.log2_lt (Nat.ne_of_gt hm)).mpr hmantissa
  have htarget : Format.binary64.targetExponent (m.log2 + 1 + e) = e - (52 - m.log2 : Nat) := by
    change max ((m.log2 : Int) + 1 + e - 53) (-1074) = _
    omega
  unfold Number.fit
  rw [htarget, if_pos (by omega), Nat.shiftLeft_eq]
  congr 3
  omega

/-- A number that fits the smaller format is not rounded when it is widened. -/
theorem Fits32.nearest {m : Nat} {e : Int} (h : Fits32 m e) (hm : 0 < m) :
    ∃ n f hn, Number.nearest Format.binary64 .positive m e = .finite .positive n f hn ∧
      Reduced n f ∧ f ≤ 104 := by
  have hfit := h.fit hm
  obtain ⟨hmantissa, hleast, hmost⟩ := h
  have hlog : m.log2 < 24 := (Nat.log2_lt (Nat.ne_of_gt hm)).mpr hmantissa
  have hlow : 2 ^ 52 ≤ m * 2 ^ (52 - m.log2) := by
    calc 2 ^ 52 = 2 ^ m.log2 * 2 ^ (52 - m.log2) := by
          rw [← Nat.pow_add]
          congr 1
          omega
      _ ≤ m * 2 ^ (52 - m.log2) := Nat.mul_le_mul_right _ (Nat.log2_self_le (Nat.ne_of_gt hm))
  have hhigh : m * 2 ^ (52 - m.log2) < 2 ^ 53 := by
    calc m * 2 ^ (52 - m.log2) < 2 ^ (m.log2 + 1) * 2 ^ (52 - m.log2) :=
          Nat.mul_lt_mul_of_pos_right Nat.lt_log2_self (Nat.two_pow_pos _)
      _ = 2 ^ 53 := by
          rw [← Nat.pow_add]
          congr 1
          omega
  have hpos : 0 < (Number.fit Format.binary64 m e).1 := by
    rw [hfit]
    exact Nat.mul_pos hm (Nat.two_pow_pos _)
  refine ⟨_, _, hpos, dif_neg (Nat.ne_of_gt hpos), ?_⟩
  rw [hfit]
  exact ⟨⟨hhigh, by omega, .inr hlow⟩, by omega⟩

theorem widen_positive {v : Float32} (hfinite : v.isFinite = true) (hpos : 0 < v) :
    (widen v).isFinite = true ∧ 0 < widen v := by
  obtain ⟨m, e, hm, hv⟩ := exact32_positive hfinite hpos
  obtain ⟨n, f, hn, hnearest, hreduced, hmost⟩ := (fits32_unpack hv).nearest hm
  have hword : Unpacked (.finite .positive n f hn) := hreduced.unpacked (by omega) _ _
  have hexact : exact (widen v) = .finite .positive n f hn := by
    unfold widen
    rw [hv]
    change unpack _ (pack _ (Number.nearest _ _ _ _)) = _
    rw [hnearest, hword.unpack_pack]
  refine ⟨congrArg UnpackedFloat.isFinite hexact, ?_⟩
  change decide ((UnpackedFloat.zero .positive).lt (exact (widen v)) = true) = true
  rw [hexact]
  rfl

end Parkour.Number
