import Mathlib.Tactic.NormNum
import Parkour.Proofs.Binding.Default
import Parkour.Proofs.Number.Worth

/-!
# Integers that are bound

What is bound as an integer is worth an integer, and it is bound exactly if this integer has 64
bits. An integer beyond the range is not refused: the end of the range is bound in its place.
-/

namespace Parkour.Language.Binding

open Number (span64 worth)

variable {function text : String} {p : Parameter} {scope : Scope} {n : Int}

/-- The word `None` stands for the default of the parameter. -/
def Absent (p : Parameter) (text : String) : Prop := text = "None" ∧ p.fallback = some .none

/-- An integer is wanted for a count of ticks, whatever its type is. -/
theorem typeOf_eq_int (h : p.type = .int ∨ p.name = durationName) : typeOf p = .int := by
  unfold typeOf
  split
  · rfl
  · next hname => exact h.resolve_right hname

theorem not_absent (h : p.fallback = none) : ¬Absent p text := by
  rintro ⟨-, hfallback⟩
  rw [h] at hfallback
  cases hfallback

/-- Any word but `None` is read as an integer where one is wanted. -/
theorem coerce_of_int (htype : typeOf p = .int) (h : ¬Absent p text) :
    coerce function p text scope = coerceInteger function p text scope := by
  unfold coerce
  rw [htype]
  refine if_neg fun hnone => h ?_
  obtain ⟨htext, hfallback⟩ := Bool.and_eq_true_iff.mp hnone
  exact ⟨of_decide_eq_true htext, fallback_eq_none hfallback⟩

theorem coerce_absent (h : Absent p text) : coerce function p text scope = .ok .none := by
  obtain ⟨rfl, hfallback⟩ := h
  simp [coerce, hfallback, Value.isNone]

/-- What is bound is cut off at the ends of the range. -/
theorem coerceInteger_eq_int : coerceInteger function p text scope = .ok (.int n) ↔
    ∃ v z, Expression.evaluate text scope = .ok v ∧ worth v = some ((z : Int) : ℚ) ∧
      (p.name = durationName → 0 ≤ z) ∧ n = span64.clamp z := by
  rw [coerceInteger_eq_ok]
  have hsign : ∀ {v : Float} {z : Int}, worth v = some (z : ℚ) → (¬v < 0 ↔ 0 ≤ z) := by
    intro v z hz
    rw [Number.lt_zero_iff hz, not_lt, Int.cast_nonneg_iff]
  constructor
  · rintro ⟨v, hv, hwhole, hticks, hn⟩
    obtain ⟨z, hz⟩ := Number.isWhole_iff.mp hwhole
    rw [Number.truncate_of_worth hz] at hn
    cases hn
    exact ⟨v, z, hv, hz, fun hname => (hsign hz).mp (hticks hname), rfl⟩
  · rintro ⟨v, z, hv, hz, hticks, rfl⟩
    refine ⟨v, hv, Number.isWhole_iff.mpr ⟨z, hz⟩, fun hname => (hsign hz).mpr (hticks hname), ?_⟩
    rw [Number.truncate_of_worth hz]

/-- What is worth no integer is refused. -/
theorem coerceInteger_refused {v : Float} (hv : Expression.evaluate text scope = .ok v)
    (h : ∀ z : Int, worth v ≠ some (z : ℚ)) :
    coerceInteger function p text scope = .error (.misuse (.notInteger function p.name text)) := by
  have hwhole : Number.isWhole v = false := by
    refine Bool.eq_false_iff.mpr fun hwhole => ?_
    obtain ⟨z, hz⟩ := Number.isWhole_iff.mp hwhole
    exact h z hz
  rw [coerceInteger, hv, ok_bind, hwhole]
  rfl

/-! The text of an integer of more than 64 bits has an exact value. -/

theorem evaluate_beyond : Expression.evaluate "1e19" ∅ = .ok 1e19 := by
  with_unfolding_all rfl

theorem worth_beyond : worth 1e19 = some ((10 ^ 19 : Int) : ℚ) := by
  have hexact : Number.exact 1e19 = .finite .positive 4882812500000000 11 (by decide) := rfl
  refine (Number.worth_of_exact hexact).trans (congrArg some ?_)
  norm_num [Float.Model.UnpackedFloat.Sign.apply]

/-- Where an integer is wanted, the bound integer is what the text is worth, cut off at the ends of
the range: it is exact within the range, and not beyond. A text that is worth no integer is
refused. -/
theorem coerce_clamps (function : String) (p : Parameter) (text : String) (scope : Scope)
    (hp : p.type = .int ∨ p.name = durationName) :
    (∀ n, coerce function p text scope = .ok (.int n) ↔
      ¬Absent p text ∧ ∃ v z, Expression.evaluate text scope = .ok v ∧
        worth v = some ((z : Int) : ℚ) ∧ (p.name = durationName → 0 ≤ z) ∧
        n = span64.clamp z ∧ (n = z ↔ span64.low ≤ z ∧ z ≤ span64.high)) ∧
    ∀ v, Expression.evaluate text scope = .ok v → ¬Absent p text →
      (∀ z : Int, worth v ≠ some (z : ℚ)) →
      coerce function p text scope = .error (.misuse (.notInteger function p.name text)) := by
  have htype : typeOf p = .int := typeOf_eq_int hp
  constructor
  · intro n
    by_cases habsent : Absent p text
    · rw [coerce_absent habsent]
      exact iff_of_false nofun fun h => h.1 habsent
    · rw [coerce_of_int htype habsent, coerceInteger_eq_int]
      constructor
      · rintro ⟨v, z, hv, hz, hticks, rfl⟩
        exact ⟨habsent, v, z, hv, hz, hticks, rfl, Number.clamp_eq_self_iff⟩
      · rintro ⟨-, v, z, hv, hz, hticks, hn, -⟩
        exact ⟨v, z, hv, hz, hticks, hn⟩
  · intro v hv habsent hworth
    rw [coerce_of_int htype habsent]
    exact coerceInteger_refused hv hworth

/-- An integer beyond the range, and a fraction. -/
theorem coerce_clamps_beyond :
    let p : Parameter := ⟨"n", .positionalOrKeyword, .int, none⟩
    coerce "f" p "1e19" ∅ = .ok (.int 9223372036854775807) ∧
      coerce "f" p "0.5" ∅ = .error (.misuse (.notInteger "f" "n" "0.5")) := by
  intro p
  have habsent : ∀ text, ¬Absent p text := fun _ => not_absent rfl
  constructor
  · refine ((coerce_clamps "f" p "1e19" ∅ (.inl rfl)).1 _).mpr ⟨habsent _, 1e19, _, evaluate_beyond,
      worth_beyond, fun h => absurd h (by decide), rfl, by decide⟩
  · have hhalf : Expression.evaluate "0.5" ∅ = .ok 0.5 := by with_unfolding_all rfl
    refine (coerce_clamps "f" p "0.5" ∅ (.inl rfl)).2 0.5 hhalf (habsent _) fun z hz => ?_
    have hwhole : Number.isWhole 0.5 = true := Number.isWhole_iff.mpr ⟨z, hz⟩
    exact absurd hwhole (by decide +kernel)

/-- What is bound may be another integer than the one that was written. -/
theorem not_coerce_exact :
    ¬∀ (function : String) (p : Parameter) (text : String) (scope : Scope) (n : Int),
      p.type = .int ∨ p.name = durationName →
      coerce function p text scope = .ok (.int n) →
      ∃ v, Expression.evaluate text scope = .ok v ∧ worth v = some (n : ℚ) := by
  intro h
  have hbound : coerce "f" ⟨"n", .positionalOrKeyword, .int, none⟩ "1e19" ∅ =
      .ok (.int 9223372036854775807) := by
    rw [coerce_of_int rfl (not_absent rfl)]
    exact coerceInteger_eq_int.mpr
      ⟨1e19, _, evaluate_beyond, worth_beyond, fun h => absurd h (by decide), rfl⟩
  obtain ⟨v, hv, hworth⟩ := h _ _ _ _ _ (.inl rfl) hbound
  rw [evaluate_beyond] at hv
  cases hv
  rw [worth_beyond] at hworth
  exact absurd (Option.some.inj hworth) (by norm_num)

end Parkour.Language.Binding
