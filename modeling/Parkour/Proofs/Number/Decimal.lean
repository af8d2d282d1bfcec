import Mathlib.Data.List.TakeWhile
import Mathlib.Tactic.Linarith
import Parkour.Number.Decimal
import Parkour.Number.Numeral
import Parkour.Proofs.Number.Worth

/-!
# Decimal notation

The digits of a number behind and before the point are those of its quotient and its remainder
by a power of ten, so what is written denotes the number that was rounded. A number written with
a fixed count of places is within half of the last place of its worth.
-/

namespace Parkour.Number

open Float.Model.UnpackedFloat (Sign)

/-! ## Digits -/

theorem readDigits_append (before : Nat) (ds es : List Char) :
    readDigits before (ds ++ es) = readDigits (readDigits before ds) es :=
  List.foldl_append

theorem readDigits_digits (n : Nat) : readDigits 0 (digits n) = n :=
  Nat.ofDigitChars_ten_toDigits

theorem readDigits_zeros (before n : Nat) :
    readDigits before (List.replicate n '0') = 10 ^ n * before :=
  Nat.ofDigitChars_replicate_zero

theorem digits_ne_nil (n : Nat) : digits n ≠ [] :=
  Nat.toDigits_ne_nil

theorem isDigit_of_mem_digits {n : Nat} {c : Char} (h : c ∈ digits n) : c.isDigit = true :=
  Nat.isDigit_of_mem_toDigits (by decide) le_rfl h

/-- The last digits of a number, with zeros in front where there are too few. -/
def lastDigits : Nat → Nat → List Char
  | 0, _ => []
  | places + 1, n => lastDigits places (n / 10) ++ [(n % 10).digitChar]

theorem length_lastDigits (places n : Nat) : (lastDigits places n).length = places := by
  induction places generalizing n with
  | zero => rfl
  | succ places ih => rw [lastDigits, List.length_append, ih, List.length_singleton]

theorem isDigit_of_mem_lastDigits {places n : Nat} {c : Char} (h : c ∈ lastDigits places n) :
    c.isDigit = true := by
  induction places generalizing n with
  | zero => cases h
  | succ places ih =>
      rcases List.mem_append.mp h with hmem | hlast
      · exact ih hmem
      · rw [List.mem_singleton.mp hlast]
        rw [Nat.isDigit_digitChar]
        exact decide_eq_true (Nat.mod_lt n (by decide))

/-- The last digits of a multiple of a power of ten are zeros. -/
theorem lastDigits_mul (places n : Nat) :
    lastDigits places (n * 10 ^ places) = List.replicate places '0' := by
  induction places with
  | zero => rfl
  | succ places ih =>
      have hdiv : n * 10 ^ (places + 1) / 10 = n * 10 ^ places := by
        rw [Nat.pow_succ, ← Nat.mul_assoc, Nat.mul_div_cancel _ (by decide)]
      have hmod : n * 10 ^ (places + 1) % 10 = 0 := by
        rw [Nat.pow_succ, ← Nat.mul_assoc, Nat.mul_mod_left]
      rw [lastDigits, hdiv, hmod, ih, List.replicate_succ']
      rfl

/-- The digits of a number with zeros in front, cut before the last ones. -/
theorem padded_digits (places n : Nat) :
    List.replicate (places + 1 - (digits n).length) '0' ++ digits n =
      digits (n / 10 ^ places) ++ lastDigits places n := by
  induction places generalizing n with
  | zero =>
      have hlength : 0 < (digits n).length := List.length_pos_iff.mpr (digits_ne_nil n)
      have hnone : 0 + 1 - (digits n).length = 0 := by omega
      rw [hnone, Nat.pow_zero, Nat.div_one, lastDigits, List.append_nil]
      rfl
  | succ places ih =>
      have hquotient : n / 10 / 10 ^ places = n / 10 ^ (places + 1) := by
        rw [Nat.div_div_eq_div_mul, Nat.pow_succ']
      rw [lastDigits, ← List.append_assoc, ← hquotient, ← ih]
      by_cases hshort : n < 10
      · -- The only digit is the last one, so there are zeros alone before it.
        have hdigits : digits n = [n.digitChar] := Nat.toDigits_of_lt_base hshort
        have hrest : digits (n / 10) = ['0'] := by rw [Nat.div_eq_of_lt hshort]; rfl
        rw [hdigits, hrest, Nat.mod_eq_of_lt hshort, ← List.replicate_succ']
        rfl
      · have hdigits : digits n = digits (n / 10) ++ [(n % 10).digitChar] :=
          Nat.toDigits_of_base_le (by decide) (Nat.le_of_not_lt hshort)
        have hlength : places + 1 + 1 - ((digits (n / 10)).length + 1) =
            places + 1 - (digits (n / 10)).length := by omega
        rw [hdigits, List.length_append, List.length_singleton, hlength, List.append_assoc]

theorem pointed_digits_zero (n : Nat) : pointed 0 (digits n) = digits n := by
  have hpadded := padded_digits 0 n
  rw [Nat.pow_zero, Nat.div_one, lastDigits, List.append_nil] at hpadded
  exact hpadded

theorem pointed_digits {places : Nat} (h : places ≠ 0) (n : Nat) :
    pointed places (digits n) = digits (n / 10 ^ places) ++ '.' :: lastDigits places n := by
  have hcut : (digits (n / 10 ^ places) ++ lastDigits places n).length - places =
      (digits (n / 10 ^ places)).length := by
    rw [List.length_append, length_lastDigits, Nat.add_sub_cancel]
  unfold pointed
  rw [if_neg h, padded_digits, hcut, List.take_left, List.drop_left]

theorem readDigits_pointed (places n : Nat) :
    readDigits 0 (digits (n / 10 ^ places) ++ lastDigits places n) = n := by
  rw [← padded_digits, readDigits_append, readDigits_zeros, Nat.mul_zero, readDigits_digits]

theorem isDigit_of_mem_parts {places n : Nat} :
    ∀ c ∈ digits (n / 10 ^ places) ++ lastDigits places n, c.isDigit = true := fun _ hc =>
  (List.mem_append.mp hc).elim isDigit_of_mem_digits isDigit_of_mem_lastDigits

theorem not_mem_of_isDigit {ds : List Char} (h : ∀ c ∈ ds, c.isDigit = true) {c : Char}
    (hc : c.isDigit = false) : c ∉ ds := fun hmem =>
  absurd (h c hmem) (Bool.eq_false_iff.mp hc)

theorem minus_not_mem_pointed (places n : Nat) : '-' ∉ pointed places (digits n) := by
  have hparts : '-' ∉ digits (n / 10 ^ places) ++ lastDigits places n :=
    not_mem_of_isDigit isDigit_of_mem_parts rfl
  by_cases hplaces : places = 0
  · rw [hplaces, pointed_digits_zero]
    exact not_mem_of_isDigit (fun _ => isDigit_of_mem_digits) rfl
  · rw [pointed_digits hplaces]
    simpa using hparts

/-! ## Reading back -/

/-- What digits before and behind a point denote. -/
def unsigned? (whole fraction : List Char) : Option ℚ :=
  if whole ≠ [] ∧ (whole ++ fraction).all Char.isDigit then
    some (readDigits 0 (whole ++ fraction) / 10 ^ fraction.length)
  else none

/-- What a minus sign may stand before. -/
def signed? : List Char → List Char → Option ℚ
  | '-' :: whole, fraction => (unsigned? whole fraction).map (- ·)
  | whole, fraction => unsigned? whole fraction

/-- The number that a text denotes in decimal notation. -/
def decimal? (text : List Char) : Option ℚ :=
  signed? (text.takeWhile (· != '.')) (text.dropWhile (· != '.')).tail

section Reading

variable {whole fraction text : List Char} {n : Nat}

theorem decimal?_point (h : '.' ∉ whole) :
    decimal? (whole ++ '.' :: fraction) = signed? whole fraction := by
  have hwhole : ∀ c ∈ whole, (c != '.') = true := fun c hc =>
    bne_iff_ne.mpr fun heq => h (heq ▸ hc)
  unfold decimal?
  rw [List.takeWhile_append_of_pos hwhole, List.dropWhile_append_of_pos hwhole]
  simp

theorem decimal?_plain (h : '.' ∉ text) : decimal? text = signed? text [] := by
  have htext : ∀ c ∈ text, (c != '.') = true := fun c hc => bne_iff_ne.mpr fun heq => h (heq ▸ hc)
  unfold decimal?
  rw [List.takeWhile_eq_self_iff.mpr htext, List.dropWhile_eq_nil_iff.mpr htext, List.tail_nil]

/-- Zeros at the end of a fraction do not count. -/
theorem unsigned?_zeros :
    unsigned? whole (fraction ++ List.replicate n '0') = unsigned? whole fraction := by
  have hdigits : (whole ++ (fraction ++ List.replicate n '0')).all Char.isDigit =
      (whole ++ fraction).all Char.isDigit := by
    have hzeros : (List.replicate n '0').all Char.isDigit = true :=
      List.all_eq_true.mpr fun c hc => by rw [List.eq_of_mem_replicate hc]; rfl
    rw [← List.append_assoc, List.all_append, hzeros, Bool.and_true]
  have hvalue : (readDigits 0 (whole ++ (fraction ++ List.replicate n '0')) : ℚ) /
      10 ^ (fraction ++ List.replicate n '0').length =
        readDigits 0 (whole ++ fraction) / 10 ^ fraction.length := by
    rw [← List.append_assoc, readDigits_append, readDigits_zeros, List.length_append,
      List.length_replicate, pow_add, mul_comm (10 ^ fraction.length : ℚ), Nat.cast_mul,
      Nat.cast_pow, Nat.cast_ofNat, mul_div_mul_left _ _ (pow_ne_zero n (by norm_num))]
  unfold unsigned?
  rw [hdigits, hvalue]

theorem signed?_zeros :
    signed? whole (fraction ++ List.replicate n '0') = signed? whole fraction := by
  unfold signed?
  split
  · rw [unsigned?_zeros]
  · exact unsigned?_zeros

end Reading

/-! ## Numbers with a fixed count of places -/

/-- A number is halved to the nearest whole one. -/
theorem halve_near (n k : Nat) :
    2 * n ≤ (2 * halve n k + 1) * 2 ^ k ∧ 2 * halve n k * 2 ^ k ≤ 2 * n + 2 ^ k := by
  have hpos : 0 < 2 ^ k := Nat.two_pow_pos k
  unfold halve
  split
  · next hsmall =>
    have hbound : n < 2 ^ (n.log2 + 1) := Nat.lt_log2_self
    have hpow : 2 ^ (n.log2 + 1) * 2 ≤ 2 ^ k := by
      rw [← Nat.pow_succ]
      exact Nat.pow_le_pow_right (by decide) hsmall
    omega
  · have hdiv : 2 ^ k * (n / 2 ^ k) + n % 2 ^ k = n := Nat.div_add_mod n (2 ^ k)
    have hmod : n % 2 ^ k < 2 ^ k := Nat.mod_lt n hpos
    simp only [Nat.shiftRight_eq_div_pow, Nat.shiftLeft_eq, Nat.one_mul]
    have hrest : n - n / 2 ^ k * 2 ^ k = n % 2 ^ k := by rw [Nat.mul_comm]; omega
    rw [hrest]
    generalize n / 2 ^ k = q at *
    generalize n % 2 ^ k = r at *
    generalize 2 ^ k = unit at *
    split
    · next hup =>
      have hhalf : unit ≤ 2 * r := by
        simp only [Bool.or_eq_true, decide_eq_true_eq, Bool.and_eq_true, beq_iff_eq] at hup
        omega
      constructor <;> nlinarith
    · next hdown =>
      have hhalf : 2 * r ≤ unit := by
        simp only [Bool.or_eq_true, decide_eq_true_eq, not_or] at hdown
        omega
      constructor <;> nlinarith

theorem halve_sub_le (n k : Nat) : |(halve n k : ℚ) - n / 2 ^ k| ≤ 1 / 2 := by
  have hpos : (0 : ℚ) < 2 ^ k := pow_pos two_pos k
  obtain ⟨hlow, hhigh⟩ := halve_near n k
  have hlow : (2 * n : ℚ) ≤ (2 * halve n k + 1) * 2 ^ k := by exact_mod_cast hlow
  have hhigh : (2 * halve n k * 2 ^ k : ℚ) ≤ 2 * n + 2 ^ k := by exact_mod_cast hhigh
  have hupper : (n / 2 ^ k : ℚ) ≤ halve n k + 1 / 2 := by
    rw [div_le_iff₀ hpos]
    linarith
  have hlower : (halve n k - 1 / 2 : ℚ) ≤ n / 2 ^ k := by
    rw [le_div_iff₀ hpos]
    linarith
  rw [abs_le]
  constructor <;> linarith

/-- A number in units of the last place is the nearest whole one. -/
theorem inPlaces_sub_le (places m : Nat) (e : Int) :
    |(inPlaces places m e : ℚ) - m * 2 ^ e * 10 ^ places| ≤ 1 / 2 := by
  cases e with
  | ofNat k =>
      have hunits : inPlaces places m (Int.ofNat k) = m * 10 ^ places * 2 ^ k :=
        (if_pos (Int.natCast_nonneg k)).trans (Nat.shiftLeft_eq _ k)
      have hexact : (m * 2 ^ k * 10 ^ places : ℚ) = ((m * 10 ^ places * 2 ^ k : Nat) : ℚ) := by
        push_cast
        exact mul_right_comm (m : ℚ) _ _
      rw [hunits, Int.ofNat_eq_natCast, zpow_natCast, hexact, sub_self, abs_zero]
      norm_num
  | negSucc k =>
      have hexponent : Int.negSucc k = -((k + 1 : Nat) : Int) := rfl
      have hunits : inPlaces places m (Int.negSucc k) = halve (m * 10 ^ places) (k + 1) := rfl
      have hexact : (m * 2 ^ (-((k + 1 : Nat) : Int)) * 10 ^ places : ℚ) =
          ((m * 10 ^ places : Nat) : ℚ) / 2 ^ (k + 1) := by
        rw [zpow_neg, zpow_natCast, ← div_eq_mul_inv, div_mul_eq_mul_div]
        push_cast
        rfl
      rw [hunits, hexponent, hexact]
      exact halve_sub_le _ _

theorem abs_apply_sub (sign : Sign) (n m : Nat) (x : ℚ) :
    |((sign.apply n : Int) : ℚ) - (sign.apply m : Int) * x| = |(n : ℚ) - m * x| := by
  cases sign with
  | positive => rfl
  | negative =>
      change |((-(n : Int) : Int) : ℚ) - (-(m : Int) : Int) * x| = _
      rw [Int.cast_neg, Int.cast_neg, neg_mul, ← neg_sub', abs_neg]
      rfl

/-- What is worth something is written as a number of units of the last place, the one that is
nearest to it. -/
theorem fixedChars_of_worth {v : Float} {q : ℚ} (h : worth v = some q) (places : Nat) :
    ∃ sign n, fixedChars places v = signText sign ++ pointed places (digits n) ∧
      |((sign.apply n : Int) : ℚ) - q * 10 ^ places| ≤ 1 / 2 := by
  unfold fixedChars
  obtain ⟨sign, m, e, hm, hv, rfl⟩ | ⟨sign, hv, rfl⟩ := exact_of_worth h
  · rw [hv]
    refine ⟨sign, inPlaces places m e, rfl, ?_⟩
    rw [mul_assoc, abs_apply_sub, ← mul_assoc]
    exact inPlaces_sub_le places m e
  · rw [hv]
    refine ⟨sign, 0, rfl, ?_⟩
    cases sign <;> norm_num [Sign.apply]

/-- Integers less than one apart are the same. -/
theorem eq_of_abs_sub_le {a b : Int} (h : |(a : ℚ) - b| ≤ 1 / 2) : a = b := by
  have hlt : |a - b| < 1 := by
    have hcast : ((|a - b| : Int) : ℚ) < 1 := by
      rw [Int.cast_abs, Int.cast_sub]
      exact h.trans_lt (by norm_num)
    exact_mod_cast hcast
  exact sub_eq_zero.mp (Int.abs_lt_one_iff.mp hlt)

/-- An integer is written without rounding. -/
theorem units_of_whole {sign : Sign} {n places : Nat} {z : Int}
    (h : |((sign.apply n : Int) : ℚ) - z * 10 ^ places| ≤ 1 / 2) :
    ∃ k : Nat, n = k * 10 ^ places ∧ z = sign.apply k := by
  have hvalue : sign.apply n = z * ((10 ^ places : Nat) : Int) := by
    refine eq_of_abs_sub_le ?_
    push_cast
    exact h
  obtain ⟨hdvd, hz⟩ := (apply_eq_mul_iff (Nat.pow_pos (by decide))).mp hvalue
  exact ⟨_, (Nat.div_mul_cancel hdvd).symm, hz⟩

/-! ## What the text denotes -/

theorem point_not_mem_signed (sign : Sign) (n : Nat) : '.' ∉ signText sign ++ digits n := by
  rw [List.mem_append, not_or]
  exact ⟨by cases sign <;> decide, not_mem_of_isDigit (fun _ => isDigit_of_mem_digits) rfl⟩

/-- A sign is read before digits. -/
theorem signed?_signText (sign : Sign) {whole fraction : List Char}
    (h : ∀ c ∈ whole, c.isDigit = true) : signed? (signText sign ++ whole) fraction =
      (unsigned? whole fraction).map (((sign.apply 1 : Int) : ℚ) * ·) := by
  cases sign with
  | negative =>
      change (unsigned? whole fraction).map (- ·) = _
      congr 1
      funext q
      exact (neg_one_mul q).symm
  | positive =>
      have hunsigned : signed? whole fraction = unsigned? whole fraction := by
        unfold signed?
        split
        · next rest => exact absurd (h '-' List.mem_cons_self) (by decide)
        · rfl
      change signed? whole fraction = _
      rw [hunsigned]
      cases unsigned? whole fraction with
      | none => rfl
      | some q => exact congrArg some (one_mul q).symm

/-- What is written denotes the number of units that was written. -/
theorem decimal?_pointed (sign : Sign) (places n : Nat) :
    decimal? (signText sign ++ pointed places (digits n)) =
      some (((sign.apply n : Int) : ℚ) / 10 ^ places) := by
  have hsigned : decimal? (signText sign ++ pointed places (digits n)) =
      signed? (signText sign ++ digits (n / 10 ^ places)) (lastDigits places n) := by
    by_cases hplaces : places = 0
    · rw [hplaces, pointed_digits_zero, decimal?_plain (point_not_mem_signed sign n),
        Nat.pow_zero, Nat.div_one, lastDigits]
    · rw [pointed_digits hplaces, ← List.append_assoc,
        decimal?_point (point_not_mem_signed sign _)]
  have hunsigned : unsigned? (digits (n / 10 ^ places)) (lastDigits places n) =
      some ((n : ℚ) / 10 ^ places) := by
    have hall : (digits (n / 10 ^ places) ++ lastDigits places n).all Char.isDigit = true :=
      List.all_eq_true.mpr isDigit_of_mem_parts
    rw [unsigned?, if_pos ⟨digits_ne_nil _, hall⟩, readDigits_pointed, length_lastDigits]
  have hvalue : ((sign.apply n : Int) : ℚ) = (sign.apply 1 : Int) * n := by
    cases sign <;> simp [Sign.apply]
  rw [hsigned, signed?_signText sign fun _ => isDigit_of_mem_digits, hunsigned, Option.map_some,
    hvalue, mul_div_assoc]

end Parkour.Number
