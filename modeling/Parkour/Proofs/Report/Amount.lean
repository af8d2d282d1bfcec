import Mathlib.Algebra.Order.Field.Basic
import Mathlib.Data.List.Induction
import Parkour.Proofs.Number.Decimal
import Parkour.Report.Amount

/-!
# Amounts

The brief form of a number is the fixed one without the zeros at its end, and without a point
that is then last. Whole numbers are no exception, though their brief form does not come from the
fixed one. Both forms denote the same decimal, and neither shows a negative zero.
-/

namespace Parkour.Report

open Float.Model.UnpackedFloat (Sign)
open Number (decimal? digits lastDigits pointed signText worth)

/-! ## Shortened texts -/

/-- A decimal text and what is left of it without the zeros at the end of its fraction, and without
a point that is then last. -/
inductive Shortened : List Char → List Char → Prop where
  | plain {text : List Char} (h : '.' ∉ text) : Shortened text text
  | whole {whole : List Char} (zeros : Nat) (h : '.' ∉ whole) :
      Shortened (whole ++ '.' :: List.replicate zeros '0') whole
  | fraction {whole fraction : List Char} {last : Char} (zeros : Nat) (hwhole : '.' ∉ whole)
      (hfraction : '.' ∉ fraction ++ [last]) (hlast : last ≠ '0') :
      Shortened (whole ++ '.' :: (fraction ++ last :: List.replicate zeros '0'))
        (whole ++ '.' :: (fraction ++ [last]))

/-- A minus sign before a number that is zero. -/
def ShowsNegativeZero (text : List Char) : Prop :=
  text.head? = some '-' ∧ decimal? text = some 0

section Shortened

variable {text short whole fraction : List Char}

theorem Shortened.decimal? (h : Shortened text short) :
    Number.decimal? short = Number.decimal? text := by
  cases h with
  | plain h => rfl
  | whole zeros h =>
      rw [Number.decimal?_plain h, Number.decimal?_point h, ← List.nil_append (List.replicate _ _),
        Number.signed?_zeros]
  | @fraction whole fraction last zeros hwhole hfraction hlast =>
      rw [Number.decimal?_point hwhole, Number.decimal?_point hwhole,
        List.append_cons fraction last (List.replicate zeros '0'), Number.signed?_zeros]

theorem Shortened.isPrefix (h : Shortened text short) : short <+: text := by
  cases h with
  | plain h => exact List.prefix_rfl
  | whole zeros h => exact List.prefix_append _ _
  | @fraction whole fraction last zeros hwhole hfraction hlast =>
      refine ⟨List.replicate zeros '0', ?_⟩
      simp

/-- A shortened text shows a negative zero only if the whole text does. -/
theorem Shortened.showsNegativeZero (h : Shortened text short) (hshort : ShowsNegativeZero short) :
    ShowsNegativeZero text := by
  obtain ⟨hhead, hvalue⟩ := hshort
  refine ⟨?_, h.decimal? ▸ hvalue⟩
  obtain ⟨rest, rfl⟩ := h.isPrefix
  rw [List.head?_append, hhead, Option.some_or]

/-! ## Cutting off zeros -/

/-- Where the zeros at the end of a text begin. -/
theorem exists_zeros (text : List Char) : ∃ n, text = List.replicate n '0' ∨
    ∃ before last, last ≠ '0' ∧ text = before ++ last :: List.replicate n '0' := by
  induction text using List.reverseRecOn with
  | nil => exact ⟨0, .inl rfl⟩
  | append_singleton text c ih =>
      by_cases hc : c = '0'
      · subst hc
        obtain ⟨n, rfl | ⟨before, last, hlast, rfl⟩⟩ := ih
        · exact ⟨n + 1, .inl List.replicate_succ'.symm⟩
        · refine ⟨n + 1, .inr ⟨before, last, hlast, ?_⟩⟩
          rw [List.replicate_succ', List.append_assoc, List.cons_append]
      · exact ⟨0, .inr ⟨text, c, hc, rfl⟩⟩

theorem dropWhile_zeros (n : Nat) {c : Char} (hc : c ≠ '0') (rest : List Char) :
    (List.replicate n '0' ++ c :: rest).dropWhile (· == '0') = c :: rest := by
  have hzeros : ∀ d ∈ List.replicate n '0', (d == '0') = true := fun d hd =>
    beq_iff_eq.mpr (List.eq_of_mem_replicate hd)
  rw [List.dropWhile_append_of_pos hzeros, List.dropWhile_cons_of_neg (by simpa using hc)]

theorem dropWhile_point (h : '.' ∉ text) : text.dropWhile (· == '.') = text := by
  cases text with
  | nil => rfl
  | cons c text =>
      refine List.dropWhile_cons_of_neg ?_
      simpa using fun hc : c = '.' => h (hc ▸ List.mem_cons_self)

theorem exists_shortened (hwhole : '.' ∉ whole) (hfraction : '.' ∉ fraction) :
    ∃ short, Shortened (whole ++ '.' :: fraction) short := by
  obtain ⟨n, rfl | ⟨before, last, hlast, rfl⟩⟩ := exists_zeros fraction
  · exact ⟨whole, .whole n hwhole⟩
  · refine ⟨_, .fraction n hwhole (fun h => hfraction ?_) hlast⟩
    rw [List.append_cons]
    exact List.mem_append_left _ h

/-- Zeros and points that are cut off from the end leave the shortened text. -/
theorem Shortened.trimmed (h : Shortened text short) (hpoint : '.' ∈ text) :
    ((text.reverse.dropWhile (· == '0')).dropWhile (· == '.')).reverse = short := by
  cases h with
  | plain h => exact absurd hpoint h
  | whole zeros h =>
      have hreverse : (short ++ '.' :: List.replicate zeros '0').reverse =
          List.replicate zeros '0' ++ '.' :: short.reverse := by simp
      have hshort : '.' ∉ short.reverse := fun hmem => h (List.mem_reverse.mp hmem)
      rw [hreverse, dropWhile_zeros zeros (by decide), List.dropWhile_cons_of_pos rfl,
        dropWhile_point hshort, List.reverse_reverse]
  | @fraction whole fraction last zeros hwhole hfraction hlast =>
      have hreverse : (whole ++ '.' :: (fraction ++ last :: List.replicate zeros '0')).reverse =
          List.replicate zeros '0' ++ last :: (fraction.reverse ++ '.' :: whole.reverse) := by simp
      have hkept : (last :: (fraction.reverse ++ '.' :: whole.reverse)).reverse =
          whole ++ '.' :: (fraction ++ [last]) := by simp
      have hnext : last ≠ '.' := fun h => hfraction (by simp [h])
      rw [hreverse, dropWhile_zeros zeros hlast, List.dropWhile_cons_of_neg (by simpa using hnext),
        hkept]

theorem Shortened.eq_of_not_mem (h : Shortened text short) (hpoint : '.' ∉ text) :
    short = text := by
  cases h with
  | plain h => rfl
  | whole zeros h => simp at hpoint
  | fraction zeros hwhole hfraction hlast => simp at hpoint

/-- A text has one shortened form. -/
theorem Shortened.unique {other : List Char} (h : Shortened text short)
    (hother : Shortened text other) : other = short := by
  by_cases hpoint : '.' ∈ text
  · rw [← h.trimmed hpoint, ← hother.trimmed hpoint]
  · rw [h.eq_of_not_mem hpoint, hother.eq_of_not_mem hpoint]

theorem showsNegativeZero_zero : ShowsNegativeZero ['-', '0'] := by
  refine ⟨rfl, ?_⟩
  have hvalue := Number.decimal?_pointed .negative 0 0
  rw [Number.pointed_digits_zero] at hvalue
  refine hvalue.trans (congrArg some ?_)
  norm_num [Sign.apply]

/-- Without a negative zero there is no sign to take away. -/
theorem shortened_withoutTail (hwhole : '.' ∉ whole) (hfraction : '.' ∉ fraction)
    (hzero : ¬ShowsNegativeZero (whole ++ '.' :: fraction)) :
    Shortened (whole ++ '.' :: fraction) (withoutTail (whole ++ '.' :: fraction)) := by
  obtain ⟨short, hshort⟩ := exists_shortened hwhole hfraction
  have hpoint : '.' ∈ whole ++ '.' :: fraction := List.mem_append_right _ List.mem_cons_self
  have hsign : short ≠ ['-', '0'] := by
    rintro rfl
    exact hzero (hshort.showsNegativeZero showsNegativeZero_zero)
  have hcut : withoutTail (whole ++ '.' :: fraction) = short := by
    rw [withoutTail, if_pos (List.contains_iff_mem.mpr hpoint), hshort.trimmed hpoint]
    exact if_neg hsign
  rw [hcut]
  exact hshort

theorem withoutTail_plain (h : '.' ∉ text) : withoutTail text = text :=
  if_neg fun hcontains => h (List.contains_iff_mem.mp hcontains)

end Shortened

/-! ## The fixed form -/

section Fixed

variable {v : Float} {q : ℚ}

theorem isZeroText_point (whole fraction : List Char) :
    isZeroText (whole ++ '.' :: fraction) = isZeroText (whole ++ fraction) := by
  simp [isZeroText]

theorem readDigits_of_isZeroText {ds : List Char} (hdigits : ∀ c ∈ ds, c.isDigit = true)
    (h : isZeroText ds = true) : Number.readDigits 0 ds = 0 := by
  have hzeros : ∀ c ∈ ds, c = '0' := by
    intro c hc
    rcases Bool.or_eq_true_iff.mp (List.all_eq_true.mp h c hc) with hzero | hpoint
    · exact beq_iff_eq.mp hzero
    · rw [beq_iff_eq.mp hpoint] at hc
      exact absurd hc (Number.not_mem_of_isDigit hdigits rfl)
  rw [List.eq_replicate_of_mem hzeros, Number.readDigits_zeros, Nat.mul_zero]

/-- Only zero is written with zeros alone. -/
theorem isZeroText_pointed (places n : Nat) :
    isZeroText (pointed places (digits n)) = true ↔ n = 0 := by
  have hparts : isZeroText (pointed places (digits n)) =
      isZeroText (digits (n / 10 ^ places) ++ lastDigits places n) := by
    by_cases hplaces : places = 0
    · rw [hplaces, Number.pointed_digits_zero, Nat.pow_zero, Nat.div_one, lastDigits,
        List.append_nil]
    · rw [Number.pointed_digits hplaces, isZeroText_point]
  rw [hparts]
  constructor
  · intro h
    rw [← Number.readDigits_pointed places n]
    exact readDigits_of_isZeroText (Number.isDigit_of_mem_parts) h
  · rintro rfl
    have hlast : lastDigits places 0 = List.replicate places '0' := by
      rw [← Number.lastDigits_mul places 0, Nat.zero_mul]
    rw [Nat.zero_div, hlast]
    simp [isZeroText, digits]

theorem withoutZeroSign_of_not_mem {text : List Char} (h : '-' ∉ text) :
    withoutZeroSign text = text := by
  unfold withoutZeroSign
  split
  · exact absurd List.mem_cons_self h
  · rfl

theorem withoutZeroSign_signText (sign : Sign) (places : Nat) {n : Nat} (h : n ≠ 0) :
    withoutZeroSign (signText sign ++ pointed places (digits n)) =
      signText sign ++ pointed places (digits n) := by
  cases sign with
  | positive => exact withoutZeroSign_of_not_mem (Number.minus_not_mem_pointed places n)
  | negative => exact if_neg fun hzero => h ((isZeroText_pointed places n).mp hzero)

theorem withoutZeroSign_zero (sign : Sign) (places : Nat) :
    withoutZeroSign (signText sign ++ pointed places (digits 0)) = pointed places (digits 0) := by
  cases sign with
  | positive => exact withoutZeroSign_of_not_mem (Number.minus_not_mem_pointed places 0)
  | negative => exact if_pos ((isZeroText_pointed places 0).mpr rfl)

/-- The fixed form has a sign only before units of the last place that are not zero. -/
theorem fixed_of_worth (h : worth v = some q) (places : Nat) :
    ∃ (sign : Sign) (n : Nat), (n = 0 → sign = .positive) ∧
      (fixed v places).toList = signText sign ++ pointed places (digits n) ∧
      |((sign.apply n : Int) : ℚ) - q * 10 ^ places| ≤ 1 / 2 := by
  obtain ⟨sign, n, htext, hnear⟩ := Number.fixedChars_of_worth h places
  unfold fixed
  rw [String.toList_ofList, htext]
  by_cases hn : n = 0
  · subst hn
    refine ⟨.positive, 0, fun _ => rfl, withoutZeroSign_zero sign places, ?_⟩
    cases sign <;> exact hnear
  · exact ⟨sign, n, fun h => absurd h hn, withoutZeroSign_signText sign places hn, hnear⟩

theorem not_showsNegativeZero {sign : Sign} {n : Nat} (h : n = 0 → sign = .positive)
    (places : Nat) : ¬ShowsNegativeZero (signText sign ++ pointed places (digits n)) := by
  rintro ⟨hhead, hvalue⟩
  rw [Number.decimal?_pointed] at hvalue
  have hunits : ((sign.apply n : Int) : ℚ) = 0 :=
    (div_eq_zero_iff.mp (Option.some.inj hvalue)).resolve_right (pow_ne_zero _ (by norm_num))
  have hn : n = 0 := by
    rw [← Number.natAbs_apply sign n, Int.natAbs_eq_zero]
    exact_mod_cast hunits
  rw [h hn] at hhead
  exact Number.minus_not_mem_pointed places n (List.mem_of_mem_head? hhead)

end Fixed

/-! ## The brief form -/

section Brief

variable {v : Float} {q : ℚ}

theorem toList_toString_apply {sign : Sign} {k : Nat} (h : k = 0 → sign = .positive) :
    (toString (sign.apply k)).toList = signText sign ++ digits k := by
  cases sign with
  | positive => exact Nat.toList_repr
  | negative =>
      cases k with
      | zero => cases h rfl
      | succ k =>
          change ("-" ++ (k + 1).repr).toList = _
          rw [String.toList_append, Nat.toList_repr]
          rfl

/-- Numbers that are written as integers have 64 bits. -/
theorem truncate_of_moderate {z : Int} (h : worth v = some (z : ℚ))
    (hv : v.abs < 1000000000000000) : Number.truncate v = z := by
  have hlimit : worth 1000000000000000 = some (10 ^ 15) := by
    have hexact : Number.exact 1000000000000000 =
        .finite .positive 8000000000000000 (-3) (by decide) := rfl
    refine (Number.worth_of_exact hexact).trans (congrArg some ?_)
    norm_num [Sign.apply]
  have hbound : |(z : ℚ)| < 10 ^ 15 := (Number.lt_iff (Number.worth_abs h) hlimit).mp hv
  have hbound : |z| < 10 ^ 15 := by exact_mod_cast hbound
  rw [Number.truncate_of_worth h, Number.clamp_eq_self_iff]
  simp only [Number.span64]
  obtain ⟨hlow, hhigh⟩ := abs_lt.mp hbound
  omega

/-- An integer is the shortened form of itself with places. -/
theorem shortened_integer (sign : Sign) (places k : Nat) :
    Shortened (signText sign ++ pointed places (digits (k * 10 ^ places)))
      (signText sign ++ digits k) := by
  by_cases hplaces : places = 0
  · rw [hplaces, Nat.pow_zero, Nat.mul_one, Number.pointed_digits_zero]
    exact .plain (Number.point_not_mem_signed sign k)
  · rw [Number.pointed_digits hplaces, Nat.mul_div_cancel k (Nat.pow_pos (by decide)),
      Number.lastDigits_mul, ← List.append_assoc]
    exact .whole places (Number.point_not_mem_signed sign k)

theorem shortened_pointed {sign : Sign} {n : Nat} (h : n = 0 → sign = .positive) (places : Nat) :
    Shortened (signText sign ++ pointed places (digits n))
      (withoutTail (signText sign ++ pointed places (digits n))) := by
  have hzero := not_showsNegativeZero h places
  by_cases hplaces : places = 0
  · have hpoint := Number.point_not_mem_signed sign n
    rw [hplaces, Number.pointed_digits_zero, withoutTail_plain hpoint]
    exact .plain hpoint
  · have hfraction : '.' ∉ lastDigits places n :=
      Number.not_mem_of_isDigit (fun _ => Number.isDigit_of_mem_lastDigits) rfl
    rw [Number.pointed_digits hplaces, ← List.append_assoc] at hzero ⊢
    exact shortened_withoutTail (Number.point_not_mem_signed sign _) hfraction hzero

theorem brief_of_moderate (hwhole : Number.isWhole v = true) (hv : v.abs < 1000000000000000)
    (places : Nat) : brief v places = toString (Number.truncate v) :=
  if_pos (Bool.and_eq_true_iff.mpr ⟨hwhole, decide_eq_true hv⟩)

theorem brief_of_not_moderate (h : ¬(Number.isWhole v = true ∧ v.abs < 1000000000000000))
    (places : Nat) : (brief v places).toList = withoutTail (fixed v places).toList := by
  have hcut : brief v places = String.ofList (withoutTail (fixed v places).toList) := by
    refine if_neg fun htrue => h ?_
    obtain ⟨hwhole, hv⟩ := Bool.and_eq_true_iff.mp htrue
    exact ⟨hwhole, of_decide_eq_true hv⟩
  rw [hcut, String.toList_ofList]

/-- A finite number is shortened to its brief form, also where that is the text of an integer. -/
theorem shortened_of_worth (h : worth v = some q) (places : Nat) :
    Shortened (fixed v places).toList (brief v places).toList := by
  obtain ⟨sign, n, hsign, htext, hnear⟩ := fixed_of_worth h places
  by_cases hfast : Number.isWhole v = true ∧ v.abs < 1000000000000000
  · obtain ⟨hwhole, hv⟩ := hfast
    obtain ⟨z, hz⟩ := Number.isWhole_iff.mp hwhole
    rw [h] at hz
    cases hz
    obtain ⟨k, rfl, rfl⟩ := Number.units_of_whole hnear
    have hk : k = 0 → sign = .positive := fun hk => hsign (by rw [hk, Nat.zero_mul])
    rw [brief_of_moderate hwhole hv, truncate_of_moderate h hv, toList_toString_apply hk, htext]
    exact shortened_integer sign places k
  · rw [brief_of_not_moderate hfast, htext]
    exact shortened_pointed hsign places

/-- The texts of what is worth nothing. -/
def specialTexts : List (List Char) := [['i', 'n', 'f'], ['-', 'i', 'n', 'f'], ['N', 'a', 'N']]

theorem fixed_of_worth_none (h : worth v = none) (places : Nat) :
    (fixed v places).toList ∈ specialTexts := by
  unfold worth at h
  unfold fixed Number.fixedChars
  rw [String.toList_ofList]
  cases hv : Number.exact v with
  | finite sign m e hm =>
      rw [hv] at h
      cases h
  | zero sign =>
      rw [hv] at h
      cases h
  | infinity sign => cases sign <;> simp [signText, withoutZeroSign, isZeroText, specialTexts]
  | notANumber => simp [withoutZeroSign, specialTexts]

theorem shortened_of_worth_none (h : worth v = none) (places : Nat) :
    Shortened (fixed v places).toList (brief v places).toList := by
  have hslow : ¬(Number.isWhole v = true ∧ v.abs < 1000000000000000) := by
    rintro ⟨hwhole, -⟩
    obtain ⟨z, hz⟩ := Number.isWhole_iff.mp hwhole
    rw [h] at hz
    cases hz
  have hpoint : '.' ∉ (fixed v places).toList := by
    have hnone : ∀ text ∈ specialTexts, '.' ∉ text := by decide
    exact hnone _ (fixed_of_worth_none h places)
  rw [brief_of_not_moderate hslow, withoutTail_plain hpoint]
  exact .plain hpoint

end Brief

/-! ## Both forms -/

theorem fixed_not_showsNegativeZero (v : Float) (places : Nat) :
    ¬ShowsNegativeZero (fixed v places).toList := by
  cases h : worth v with
  | some q =>
      obtain ⟨sign, n, hsign, htext, -⟩ := fixed_of_worth h places
      rw [htext]
      exact not_showsNegativeZero hsign places
  | none =>
      have hnone : ∀ text ∈ specialTexts, decimal? text = none := by decide
      rintro ⟨-, hvalue⟩
      rw [hnone _ (fixed_of_worth_none h places)] at hvalue
      cases hvalue

/-- The fixed form denotes a decimal within half of the last place of the number. -/
theorem fixed_near {v : Float} {q : ℚ} (h : worth v = some q) (places : Nat) :
    ∃ d, decimal? (fixed v places).toList = some d ∧ |d - q| ≤ 1 / (2 * 10 ^ places) := by
  obtain ⟨sign, n, -, htext, hnear⟩ := fixed_of_worth h places
  refine ⟨(sign.apply n : Int) / 10 ^ places, by rw [htext, Number.decimal?_pointed], ?_⟩
  have hpos : (0 : ℚ) < 10 ^ places := pow_pos (by norm_num) places
  rw [div_sub' hpos.ne', abs_div, abs_of_pos hpos, mul_comm _ q, ← div_div]
  exact div_le_div_of_nonneg_right hnear hpos.le

/-- The brief form is the fixed one without the zeros at the end of the fraction and without a
point that is then last. So both denote the same decimal, which is within half of the last place
of the number, and neither shows a negative zero. -/
theorem brief_shortens_fixed (v : Float) (precision : Nat) :
    (∀ text, Shortened (fixed v precision).toList text ↔ text = (brief v precision).toList) ∧
      decimal? (brief v precision).toList = decimal? (fixed v precision).toList ∧
      (∀ q, worth v = some q → ∃ d, decimal? (fixed v precision).toList = some d ∧
        |d - q| ≤ 1 / (2 * 10 ^ precision)) ∧
      ¬ShowsNegativeZero (fixed v precision).toList ∧
      ¬ShowsNegativeZero (brief v precision).toList := by
  have hshort : Shortened (fixed v precision).toList (brief v precision).toList := by
    cases h : worth v with
    | some q => exact shortened_of_worth h precision
    | none => exact shortened_of_worth_none h precision
  have hzero := fixed_not_showsNegativeZero v precision
  refine ⟨fun text => ⟨hshort.unique, ?_⟩, hshort.decimal?, fun q h => fixed_near h precision,
    hzero, fun hbrief => hzero (hshort.showsNegativeZero hbrief)⟩
  rintro rfl
  exact hshort

/-- A negative number that no place shows. -/
theorem brief_shortens_fixed_half : worth (-0.5) = some (-1 / 2) ∧ fixed (-0.5) 0 = "0" ∧
    brief (-0.5) 0 = "0" ∧
    ∃ d, decimal? (fixed (-0.5) 0).toList = some d ∧ |d - -1 / 2| ≤ 1 / (2 * 10 ^ 0) := by
  have hworth : worth (-0.5) = some (-1 / 2) := by
    have hexact : Number.exact (-0.5) = .finite .negative 4503599627370496 (-53) (by decide) := rfl
    refine (Number.worth_of_exact hexact).trans (congrArg some ?_)
    norm_num [Sign.apply]
  exact ⟨hworth, by decide, by decide, (brief_shortens_fixed (-0.5) 0).2.2.1 _ hworth⟩

end Parkour.Report
