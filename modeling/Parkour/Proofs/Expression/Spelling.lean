import Mathlib.Data.List.Infix
import Parkour.Language.Expression.Token
import Parkour.Proofs.Command.Grammar

/-!
# How tokens are written

Which characters spell a token is said here without the scanner. The scanner takes the longest
beginning of a text that spells one, and fails exactly where no beginning does.
-/

namespace Parkour.Language.Expression

/-! ## Numerals -/

/-- A power of ten as it is written. -/
structure Exponent where
  /-- The letter that announces it. -/
  letter : Char
  /-- The sign, if there is one. -/
  sign : Option Char
  /-- The digits, of which there is at least one. -/
  digits : List Char
  letter_eq : letter = 'e' ∨ letter = 'E'
  sign_eq : ∀ c ∈ sign, c = '+' ∨ c = '-'
  digits_isDigit : ∀ c ∈ digits, Text.isDigit c = true
  digits_ne_nil : digits ≠ []

namespace Exponent

/-- The characters of an exponent. -/
def chars (exponent : Exponent) : List Char :=
  exponent.letter :: (exponent.sign.toList ++ exponent.digits)

/-- The power of ten that an exponent stands for. -/
def power (exponent : Exponent) : Int :=
  if exponent.sign = some '-' then -Number.readDigits 0 exponent.digits
  else Number.readDigits 0 exponent.digits

end Exponent

/-- The characters of an exponent, if there is one. -/
def exponentChars : Option Exponent → List Char
  | none => []
  | some exponent => exponent.chars

/-- A number as it is written: digits with at most one point among them, and perhaps an
exponent. -/
structure Literal where
  /-- The digits before the point. -/
  whole : List Char
  /-- The digits behind the point, if there is a point. -/
  fraction : Option (List Char)
  /-- The exponent, if there is one. -/
  exponent : Option Exponent
  whole_isDigit : ∀ c ∈ whole, Text.isDigit c = true
  fraction_isDigit : ∀ ds ∈ fraction, ∀ c ∈ ds, Text.isDigit c = true
  digits_ne_nil : whole ++ fraction.getD [] ≠ []

namespace Literal

/-- The characters before the exponent. -/
def mantissa (literal : Literal) : List Char := literal.whole ++ marked '.' [] literal.fraction

/-- The characters of a literal. -/
def chars (literal : Literal) : List Char := literal.mantissa ++ exponentChars literal.exponent

theorem chars_ne_nil (literal : Literal) : literal.chars ≠ [] := by
  obtain ⟨whole, fraction, exponent, -, -, hne⟩ := literal
  intro hnil
  simp only [chars, mantissa, List.append_eq_nil_iff] at hnil
  obtain ⟨⟨rfl, hfraction⟩, -⟩ := hnil
  cases fraction with
  | none => exact hne rfl
  | some ds => cases hfraction

/-- The number that a literal stands for. -/
def value (literal : Literal) : Float :=
  Number.Numeral.value
    ⟨literal.whole, literal.fraction.getD [], literal.exponent.elim 0 Exponent.power⟩

end Literal

/-! ## Tokens -/

/-- The characters spell the token. -/
inductive Spells : List Char → Token → Prop where
  | number (literal : Literal) : Spells literal.chars (.number literal.value)
  | name {name : String} (h : Text.isIdentifier name = true) : Spells name.toList (.name name)
  | plus : Spells ['+'] .plus
  | minus : Spells ['-'] .minus
  | star : Spells ['*'] .star
  | slash : Spells ['/'] .slash
  | power : Spells ['*', '*'] .power
  | opening : Spells ['('] .opening
  | closing : Spells [')'] .closing

theorem Spells.ne_nil {chars : List Char} {token : Token} (h : Spells chars token) :
    chars ≠ [] := by
  cases h with
  | number literal => exact literal.chars_ne_nil
  | name hname =>
      obtain ⟨c, cs, hcs, -⟩ := Text.exists_cons_of_isIdentifier hname
      rw [hcs]
      exact List.cons_ne_nil c cs
  | _ => exact List.cons_ne_nil _ _

/-! ## The parts that are read stand in the text -/

section Read

variable {c : Char} {cs more chars : List Char} {token : Token} {n : Nat}
  {fault : ExpressionFault}

theorem exists_sign (cs : List Char) : ∃ (sign : Option Char) (rest : List Char),
    cs = sign.toList ++ rest ∧ (∀ c ∈ sign, c = '+' ∨ c = '-') ∧
      signOf cs = (sign.toList.length, decide (sign = some '-')) := by
  unfold signOf
  split
  · exact ⟨some '+', _, rfl, by simp, rfl⟩
  · exact ⟨some '-', _, rfl, by simp, rfl⟩
  · exact ⟨none, _, rfl, by simp, rfl⟩

theorem exists_exponent (cs : List Char) : ∃ (exponent : Option Exponent) (rest : List Char),
    cs = exponentChars exponent ++ rest ∧
      powerOfTen cs = ((exponentChars exponent).length, exponent.elim 0 Exponent.power) := by
  cases cs with
  | nil => exact ⟨none, [], rfl, rfl⟩
  | cons c cs =>
      by_cases hc : c = 'e' ∨ c = 'E'
      · obtain ⟨sign, after, rfl, hsign, hread⟩ := exists_sign cs
        cases hds : after.takeWhile Text.isDigit with
        | nil =>
            refine ⟨none, _, rfl, ?_⟩
            simp [powerOfTen, hc, hread, hds, exponentChars]
        | cons d ds =>
            have hdigits : ∀ x ∈ d :: ds, Text.isDigit x = true := by
              rw [← hds]
              exact fun x hx => List.mem_takeWhile_imp hx
            have hafter : d :: ds ++ after.dropWhile Text.isDigit = after := by
              rw [← hds, List.takeWhile_append_dropWhile]
            refine ⟨some ⟨c, sign, d :: ds, hc, hsign, hdigits, List.cons_ne_nil d ds⟩,
              after.dropWhile Text.isDigit, ?_, ?_⟩
            · rw [exponentChars, Exponent.chars, List.cons_append, List.append_assoc, hafter]
            · simp only [powerOfTen, if_pos hc, hread, List.drop_left, hds, List.isEmpty_cons,
                Bool.false_eq_true, if_false, decide_eq_true_eq, exponentChars, Exponent.chars,
                Exponent.power, Option.elim_some, List.length_cons, List.length_append,
                Prod.mk.injEq, and_true]
              omega
      · refine ⟨none, _, rfl, ?_⟩
        simp [powerOfTen, hc, exponentChars]

theorem exists_fraction (cs : List Char) : ∃ (fraction : Option (List Char)) (rest : List Char),
    cs = marked '.' [] fraction ++ rest ∧
      (∀ ds ∈ fraction, ∀ c ∈ ds, Text.isDigit c = true) ∧
      fractionOf cs = ((marked '.' [] fraction).length, fraction.getD []) := by
  cases cs with
  | nil => exact ⟨none, [], rfl, by simp, rfl⟩
  | cons c cs =>
      by_cases hc : c = '.'
      · refine ⟨some (cs.takeWhile Text.isDigit), cs.dropWhile Text.isDigit, ?_, ?_, ?_⟩
        · simp [marked, hc]
        · intro ds hds c hc
          cases hds
          exact List.mem_takeWhile_imp hc
        · simp [fractionOf, hc, marked, Nat.add_comm]
      · refine ⟨none, _, rfl, by simp, ?_⟩
        simp [fractionOf, hc, marked]

/-- A numeral is read off the parts that a text starts with. -/
theorem exists_numeral (cs : List Char) : ∃ (whole : List Char) (fraction : Option (List Char))
    (exponent : Option Exponent) (rest : List Char),
    whole = cs.takeWhile Text.isDigit ∧
      (∀ ds ∈ fraction, ∀ c ∈ ds, Text.isDigit c = true) ∧
      cs = whole ++ marked '.' [] fraction ++ exponentChars exponent ++ rest ∧
      numeralOf cs = ((whole ++ marked '.' [] fraction ++ exponentChars exponent).length,
        ⟨whole, fraction.getD [], exponent.elim 0 Exponent.power⟩) := by
  obtain ⟨fraction, behind, hbehind, hdigits, hfraction⟩ :=
    exists_fraction (cs.drop (cs.takeWhile Text.isDigit).length)
  obtain ⟨exponent, rest, hrest, hexponent⟩ := exists_exponent behind
  refine ⟨cs.takeWhile Text.isDigit, fraction, exponent, rest, rfl, hdigits, ?_, ?_⟩
  · rw [List.append_assoc, List.append_assoc, ← hrest, ← hbehind]
    exact List.prefix_append_drop (List.takeWhile_prefix _)
  · have hdrop : (cs.drop (cs.takeWhile Text.isDigit).length).drop
        (marked '.' [] fraction).length = behind := by
      rw [hbehind, List.drop_left]
    simp only [numeralOf, hfraction, hdrop, hexponent, List.length_append]

/-- A numeral with a digit in it is a literal. -/
theorem spells_of_numeralOf {numeral : Number.Numeral} (hread : numeralOf (c :: cs) = (n, numeral))
    (hsome : numeral.whole ++ numeral.fraction ≠ []) :
    Spells (c :: cs.take (n - 1)) (.number numeral.value) := by
  obtain ⟨whole, fraction, exponent, rest, hwhole, hfraction, hcs, hnumeral⟩ :=
    exists_numeral (c :: cs)
  cases hread.symm.trans hnumeral
  have hdigits : ∀ d ∈ whole, Text.isDigit d = true := by
    rw [hwhole]
    exact fun d hd => List.mem_takeWhile_imp hd
  let literal : Literal := ⟨whole, fraction, exponent, hdigits, hfraction, hsome⟩
  have hall : c :: cs = literal.chars ++ rest := hcs
  obtain ⟨d, tail, hchars⟩ := List.exists_cons_of_ne_nil literal.chars_ne_nil
  have htake : c :: cs.take (literal.chars.length - 1) = literal.chars := by
    rw [hchars, List.cons_append, List.cons.injEq] at hall
    rw [hchars, hall.1, hall.2, List.length_cons, Nat.add_sub_cancel, List.take_left]
  have hspells := Spells.number literal
  rw [← htake] at hspells
  exact hspells

/-- A numeral spells a token, or is a point that has no digits. -/
theorem scan_numeral (hc : Text.isDigit c = true ∨ c = '.') (cs : List Char) :
    (∃ n token, scan c cs = .ok (n, token) ∧ Spells (c :: cs.take n) token) ∨
      c = '.' ∧ ∃ (exponent : Option Exponent) (rest : List Char),
        cs = exponentChars exponent ++ rest ∧
          scan c cs = .error (.numeral (String.ofList ('.' :: exponentChars exponent))) := by
  rw [scan, if_pos hc]
  dsimp only
  split
  · next hnone =>
    right
    simp only [Bool.and_eq_true, List.isEmpty_iff] at hnone
    obtain ⟨hwhole, hfraction⟩ := hnone
    have hdigit : Text.isDigit c = false := by
      simpa [numeralOf, List.takeWhile_cons] using hwhole
    rcases hc with hc | rfl
    · rw [hdigit] at hc
      cases hc
    · refine ⟨rfl, ?_⟩
      obtain ⟨exponent, rest, hcs, hread⟩ := exists_exponent cs
      have hdigits : cs.takeWhile Text.isDigit = [] := by
        simpa [numeralOf, fractionOf, hdigit] using hfraction
      have hlength : (numeralOf ('.' :: cs)).1 = (exponentChars exponent).length + 1 := by
        simp [numeralOf, fractionOf, hdigit, hdigits, hread, Nat.add_comm]
      refine ⟨exponent, rest, hcs, ?_⟩
      rw [hlength, hcs, List.take_succ_cons, List.take_left]
  · next hsome => exact .inl ⟨_, _, rfl, spells_of_numeralOf rfl (by simpa using hsome)⟩

theorem not_numeral_of_isNameStart (hc : Text.isNameStart c = true) :
    ¬(Text.isDigit c = true ∨ c = '.') := by
  rintro (hdigit | rfl)
  · rw [Text.not_isDigit_of_isNameStart hc] at hdigit
    cases hdigit
  · exact absurd hc (by decide)

theorem scan_name (hc : Text.isNameStart c = true) (cs : List Char) :
    scan c cs = .ok ((cs.takeWhile Text.isNamePart).length,
      .name (String.ofList (c :: cs.takeWhile Text.isNamePart))) := by
  rw [scan, if_neg (not_numeral_of_isNameStart hc), if_pos hc]

theorem spells_name (hc : Text.isNameStart c = true) (cs : List Char) :
    Spells (c :: cs.take (cs.takeWhile Text.isNamePart).length)
      (.name (String.ofList (c :: cs.takeWhile Text.isNamePart))) := by
  have hidentifier : Text.isIdentifier (String.ofList (c :: cs.takeWhile Text.isNamePart)) = true :=
    Text.isIdentifier_ofList hc fun d hd => List.mem_takeWhile_imp hd
  have hspells := Spells.name hidentifier
  rw [String.toList_ofList] at hspells
  rwa [← List.prefix_iff_eq_take.mp (List.takeWhile_prefix _)]

theorem scan_star (cs : List Char) :
    scan '*' cs = if cs.head? = some '*' then .ok (1, .power) else .ok (0, .star) := rfl

theorem spells_star (cs : List Char) :
    ∃ n token, scan '*' cs = .ok (n, token) ∧ Spells ('*' :: cs.take n) token := by
  by_cases hdouble : cs.head? = some '*'
  · obtain ⟨rest, rfl⟩ := List.head?_eq_some_iff.mp hdouble
    exact ⟨1, .power, rfl, .power⟩
  · exact ⟨0, .star, by rw [scan_star, if_neg hdouble], .star⟩

/-- What the scanner takes of a text spells the token that it gives. It fails at a point that has
no digits, and at a character that stands in no expression. -/
theorem scan_cases (hblank : Text.isBlank c = false) (cs : List Char) :
    (∃ n token, scan c cs = .ok (n, token) ∧ Spells (c :: cs.take n) token) ∨
      (c = '.' ∧ ∃ (exponent : Option Exponent) (rest : List Char),
        cs = exponentChars exponent ++ rest ∧
          scan c cs = .error (.numeral (String.ofList ('.' :: exponentChars exponent)))) ∨
      isExpressionChar c = false ∧ scan c cs =
        .error (.unexpected (String.ofList (c :: cs.takeWhile fun d => !isExpressionChar d))) := by
  by_cases hnumeral : Text.isDigit c = true ∨ c = '.'
  · exact (scan_numeral hnumeral cs).imp_right .inl
  by_cases hname : Text.isNameStart c = true
  · exact .inl ⟨_, _, scan_name hname cs, spells_name hname cs⟩
  by_cases hplus : c = '+'
  · subst hplus
    exact .inl ⟨0, .plus, rfl, .plus⟩
  by_cases hminus : c = '-'
  · subst hminus
    exact .inl ⟨0, .minus, rfl, .minus⟩
  by_cases hslash : c = '/'
  · subst hslash
    exact .inl ⟨0, .slash, rfl, .slash⟩
  by_cases hopening : c = '('
  · subst hopening
    exact .inl ⟨0, .opening, rfl, .opening⟩
  by_cases hclosing : c = ')'
  · subst hclosing
    exact .inl ⟨0, .closing, rfl, .closing⟩
  by_cases hstar : c = '*'
  · subst hstar
    exact .inl (spells_star cs)
  right
  right
  constructor
  · rw [not_or] at hnumeral
    rw [Text.isNameStart, Bool.or_eq_true, not_or, beq_iff_eq] at hname
    simp [isExpressionChar, Text.isAlphanumeric, hnumeral, hname, hplus, hminus, hslash,
      hopening, hclosing, hstar, hblank]
  · rw [scan, if_neg hnumeral, if_neg hname, if_neg hplus, if_neg hminus, if_neg hslash,
      if_neg hopening, if_neg hclosing, if_neg hstar]

theorem spells_of_scan (hblank : Text.isBlank c = false) (h : scan c cs = .ok (n, token)) :
    Spells (c :: cs.take n) token := by
  rcases scan_cases hblank cs with ⟨k, found, hscan, hspells⟩ | ⟨_, _, _, _, hscan⟩ |
      ⟨_, hscan⟩
  · cases h.symm.trans hscan
    exact hspells
  · cases h.symm.trans hscan
  · cases h.symm.trans hscan

/-! ## The scanner takes all that spells a token -/

/-- A literal starts with a digit or a point. -/
theorem Literal.head_chars {literal : Literal} (hchars : literal.chars = c :: cs) :
    Text.isDigit c = true ∨ c = '.' := by
  obtain ⟨whole, fraction, exponent, hwhole, hfraction, hne⟩ := literal
  cases whole with
  | cons d ds =>
      left
      cases hchars
      exact hwhole c List.mem_cons_self
  | nil =>
      right
      cases fraction with
      | none => exact absurd rfl hne
      | some ds =>
          cases hchars
          rfl

theorem Exponent.signOf_chars (exponent : Exponent) (more : List Char) :
    signOf (exponent.sign.toList ++ (exponent.digits ++ more)) =
      (exponent.sign.toList.length, decide (exponent.sign = some '-')) := by
  obtain ⟨letter, sign, digits, -, hsign, hdigits, hne⟩ := exponent
  cases sign with
  | some c =>
      rcases hsign c rfl with rfl | rfl
      · rfl
      · rfl
  | none =>
      cases digits with
      | nil => exact absurd rfl hne
      | cons d ds =>
          have hd := hdigits d List.mem_cons_self
          simp only [Option.toList_none, List.nil_append, List.cons_append]
          unfold signOf
          split
          · next heq =>
            rw [(List.cons.inj heq).1] at hd
            exact absurd hd (by decide)
          · next heq =>
            rw [(List.cons.inj heq).1] at hd
            exact absurd hd (by decide)
          · rfl

theorem Exponent.length_le_powerOfTen (exponent : Exponent) (more : List Char) :
    exponent.chars.length ≤ (powerOfTen (exponent.chars ++ more)).1 := by
  have hsign := exponent.signOf_chars more
  have hdigits : (exponent.digits ++ more).takeWhile Text.isDigit =
      exponent.digits ++ more.takeWhile Text.isDigit :=
    List.takeWhile_append_of_pos exponent.digits_isDigit
  have hne := exponent.digits_ne_nil
  simp only [Exponent.chars, List.cons_append, List.append_assoc, powerOfTen,
    if_pos exponent.letter_eq, hsign, List.drop_left, hdigits, List.isEmpty_iff,
    List.append_eq_nil_iff, hne, false_and, if_false, List.length_cons, List.length_append]
  omega

/-- An exponent stops digits and is no point. -/
theorem Exponent.isDigit_letter (exponent : Exponent) :
    Text.isDigit exponent.letter = false ∧ exponent.letter ≠ '.' := by
  rcases exponent.letter_eq with h | h <;> rw [h] <;> decide

/-- No less is read behind the first digits than a fraction and an exponent that stand there. -/
theorem length_le_fractionOf {fraction : Option (List Char)} {exponent : Option Exponent}
    (hfraction : ∀ ds ∈ fraction, ∀ c ∈ ds, Text.isDigit c = true)
    (hcs : cs = marked '.' [] fraction ++ (exponentChars exponent ++ more)) :
    (marked '.' [] fraction ++ exponentChars exponent).length ≤
        (fractionOf cs).1 + (powerOfTen (cs.drop (fractionOf cs).1)).1 ∧
      fraction.getD [] <+: (fractionOf cs).2 := by
  cases fraction with
  | none =>
      refine ⟨?_, List.nil_prefix⟩
      cases exponent with
      | none => exact Nat.zero_le _
      | some e =>
          have hread : fractionOf cs = (0, []) := by
            simp [hcs, marked, exponentChars, Exponent.chars, fractionOf, e.isDigit_letter.2]
          have hle := e.length_le_powerOfTen more
          rw [hread, hcs]
          simpa [marked, exponentChars] using hle
  | some ds =>
      have hdigits := hfraction ds rfl
      have hread : fractionOf cs =
          (1 + (ds ++ (exponentChars exponent ++ more).takeWhile Text.isDigit).length,
            ds ++ (exponentChars exponent ++ more).takeWhile Text.isDigit) := by
        rw [hcs, marked, List.append_nil, List.cons_append, fractionOf, if_pos rfl,
          List.takeWhile_append_of_pos hdigits]
      rw [hread]
      refine ⟨?_, List.prefix_append _ _⟩
      cases exponent with
      | none =>
          simp only [marked, exponentChars, List.append_nil, List.nil_append, List.length_cons,
            List.length_append]
          omega
      | some e =>
          have hstop : (e.chars ++ more).takeWhile Text.isDigit = [] := by
            simp [Exponent.chars, e.isDigit_letter.1]
          have hle := e.length_le_powerOfTen more
          simp only [hcs, marked, exponentChars, hstop, List.append_nil, List.cons_append,
            Nat.add_comm 1, List.drop_succ_cons, List.drop_left, List.length_cons,
            List.length_append]
          omega

/-- No less is read than a literal that a text starts with. -/
theorem Literal.length_le_numeralOf (literal : Literal) (more : List Char) :
    literal.chars.length ≤ (numeralOf (literal.chars ++ more)).1 ∧
      literal.whole <+: (numeralOf (literal.chars ++ more)).2.whole ∧
      literal.fraction.getD [] <+: (numeralOf (literal.chars ++ more)).2.fraction := by
  obtain ⟨whole, fraction, exponent, hwhole, hfraction, hne⟩ := literal
  have hchars : Literal.chars ⟨whole, fraction, exponent, hwhole, hfraction, hne⟩ ++ more =
      whole ++ (marked '.' [] fraction ++ (exponentChars exponent ++ more)) := by
    simp only [chars, mantissa, List.append_assoc]
  generalize hbehind : marked '.' [] fraction ++ (exponentChars exponent ++ more) = behind at hchars
  have htake : (whole ++ behind).takeWhile Text.isDigit =
      whole ++ behind.takeWhile Text.isDigit := List.takeWhile_append_of_pos hwhole
  rw [hchars]
  -- Digits with nothing behind them may go on into `more`; a point or a letter ends them.
  by_cases hall : fraction = none ∧ exponent = none
  · obtain ⟨rfl, rfl⟩ := hall
    refine ⟨?_, ?_, List.nil_prefix⟩
    · simp only [chars, mantissa, marked, exponentChars, List.append_nil, numeralOf, htake,
        List.length_append]
      omega
    · simp only [numeralOf, htake]
      exact List.prefix_append _ _
  · have hstop : behind.takeWhile Text.isDigit = [] := by
      rw [← hbehind]
      cases fraction with
      | some ds => simp [marked, show Text.isDigit '.' = false from rfl]
      | none =>
          cases exponent with
          | some e => simp [marked, exponentChars, Exponent.chars, e.isDigit_letter.1]
          | none => exact absurd ⟨rfl, rfl⟩ hall
    obtain ⟨hle, hbegins⟩ := length_le_fractionOf hfraction hbehind.symm
    rw [hstop, List.append_nil] at htake
    simp only [numeralOf, htake, List.drop_left]
    refine ⟨?_, List.prefix_refl _, hbegins⟩
    simp only [chars, mantissa, List.length_append] at hle ⊢
    omega

/-- The scanner takes at least what spells a token at the start of a text. -/
theorem scan_of_spells (h : Spells (c :: cs) token) (more : List Char) :
    ∃ n found, scan c (cs ++ more) = .ok (n, found) ∧ cs.length ≤ n := by
  generalize hchars : c :: cs = chars at h
  cases h with
  | number literal =>
      obtain ⟨hlength, hwhole, hfraction⟩ := literal.length_le_numeralOf more
      have hne := literal.digits_ne_nil
      rw [← hchars, List.cons_append] at hlength hwhole hfraction
      rw [scan, if_pos (literal.head_chars hchars.symm)]
      dsimp only
      rw [if_neg]
      · refine ⟨_, _, rfl, ?_⟩
        simp only [List.length_cons] at hlength
        omega
      · intro hnone
        simp only [Bool.and_eq_true, List.isEmpty_iff] at hnone
        rw [hnone.1, List.prefix_nil] at hwhole
        rw [hnone.2, List.prefix_nil] at hfraction
        exact hne (by rw [hwhole, hfraction]; rfl)
  | @name name hname =>
      obtain ⟨d, ds, hds, hstart, hparts⟩ := Text.exists_cons_of_isIdentifier hname
      cases hchars.trans hds
      refine ⟨_, _, scan_name hstart _, ?_⟩
      rw [List.takeWhile_append_of_pos hparts, List.length_append]
      exact Nat.le_add_right _ _
  | star =>
      cases hchars
      rw [List.nil_append, scan_star]
      split
      · exact ⟨1, .power, rfl, Nat.zero_le _⟩
      · exact ⟨0, .star, rfl, Nat.le_refl _⟩
  | _ =>
      cases hchars
      exact ⟨_, _, rfl, Nat.le_refl _⟩

/-- Where a text starts with a token, the scanner finds one that is as long. -/
theorem exists_scan_of_prefix (h : Spells chars token) (hbegins : chars <+: c :: cs) :
    ∃ n found, scan c cs = .ok (n, found) ∧ chars.length ≤ n + 1 := by
  obtain ⟨more, hmore⟩ := hbegins
  obtain ⟨d, tail, rfl⟩ := List.exists_cons_of_ne_nil h.ne_nil
  cases hmore
  obtain ⟨n, found, hscan, hle⟩ := scan_of_spells h more
  exact ⟨n, found, hscan, Nat.succ_le_succ hle⟩

/-! ## Where the scanner fails -/

theorem not_spells_of_scan (h : scan c cs = .error fault) (hspells : Spells chars token) :
    ¬chars <+: c :: cs := by
  intro hbegins
  obtain ⟨n, found, hscan, -⟩ := exists_scan_of_prefix hspells hbegins
  rw [h] at hscan
  cases hscan

theorem isExpressionChar_of_isDigit (h : Text.isDigit c = true) : isExpressionChar c = true := by
  simp [isExpressionChar, Text.isAlphanumeric, h]

theorem isExpressionChar_of_isNamePart (h : Text.isNamePart c = true) :
    isExpressionChar c = true := by
  rcases (Bool.or_eq_true _ _).mp h with h | h <;> simp [isExpressionChar, h]

theorem isExpressionChar_of_mem_exponent (exponent : Exponent) :
    ∀ c ∈ exponent.chars, isExpressionChar c = true := by
  obtain ⟨letter, sign, digits, hletter, hsign, hdigits, -⟩ := exponent
  intro c hc
  simp only [Exponent.chars, List.mem_cons, List.mem_append, Option.mem_toList] at hc
  rcases hc with rfl | hc | hc
  · rcases hletter with rfl | rfl <;> rfl
  · rcases hsign c hc with rfl | rfl <;> rfl
  · exact isExpressionChar_of_isDigit (hdigits c hc)

theorem isExpressionChar_of_mem_literal (literal : Literal) :
    ∀ c ∈ literal.chars, isExpressionChar c = true := by
  obtain ⟨whole, fraction, exponent, hwhole, hfraction, hne⟩ := literal
  intro c hc
  rcases List.mem_append.mp hc with hc | hc
  · rcases List.mem_append.mp hc with hc | hc
    · exact isExpressionChar_of_isDigit (hwhole c hc)
    · cases fraction with
      | none => cases hc
      | some ds =>
          rw [marked, List.append_nil, List.mem_cons] at hc
          rcases hc with rfl | hc
          · rfl
          · exact isExpressionChar_of_isDigit (hfraction ds rfl c hc)
  · cases exponent with
    | none => cases hc
    | some e => exact isExpressionChar_of_mem_exponent e c hc

theorem isExpressionChar_of_spells (h : Spells chars token) :
    ∀ c ∈ chars, isExpressionChar c = true := by
  cases h with
  | number literal => exact isExpressionChar_of_mem_literal literal
  | name hname =>
      exact fun c hc => isExpressionChar_of_isNamePart (Text.isNamePart_of_isIdentifier hname c hc)
  | _ => exact List.all_eq_true.mp rfl

/-- A character that is no blank and belongs to no token. -/
def Foreign (c : Char) : Prop :=
  Text.isBlank c = false ∧ ∀ chars token, Spells chars token → c ∉ chars

theorem not_foreign_of_isBlank (h : Text.isBlank c = true) : ¬Foreign c := by
  rintro ⟨hblank, -⟩
  rw [h] at hblank
  cases hblank

/-- A character that may stand in an expression is a blank or belongs to a token. -/
theorem spells_of_isExpressionChar (h : isExpressionChar c = true) :
    Text.isBlank c = true ∨ ∃ chars token, Spells chars token ∧ c ∈ chars := by
  have hname : Text.isNameStart c = true → ∃ chars token, Spells chars token ∧ c ∈ chars :=
    fun hstart => ⟨_, _, .name (Text.isIdentifier_ofList hstart (List.forall_mem_nil _)), by simp⟩
  simp only [isExpressionChar, Text.isAlphanumeric, Bool.or_eq_true, beq_iff_eq] at h
  rcases h with (((((((((h | h) | h) | h) | rfl) | rfl) | rfl) | rfl) | rfl) | rfl) | rfl
  · exact .inr (hname (by simp [Text.isNameStart, h]))
  · let literal : Literal := ⟨[c], none, none, by simpa using h, by simp, by simp⟩
    exact .inr ⟨_, _, .number literal, List.mem_cons_self⟩
  · exact .inl h
  · exact .inr (hname (by simp [Text.isNameStart, h]))
  · let literal : Literal := ⟨[], some ['0'], none, by simp, by simpa using by decide, by simp⟩
    exact .inr ⟨_, _, .number literal, List.mem_cons_self⟩
  · exact .inr ⟨_, _, .plus, List.mem_cons_self⟩
  · exact .inr ⟨_, _, .minus, List.mem_cons_self⟩
  · exact .inr ⟨_, _, .star, List.mem_cons_self⟩
  · exact .inr ⟨_, _, .slash, List.mem_cons_self⟩
  · exact .inr ⟨_, _, .opening, List.mem_cons_self⟩
  · exact .inr ⟨_, _, .closing, List.mem_cons_self⟩

theorem foreign_iff : Foreign c ↔ isExpressionChar c = false := by
  constructor
  · rintro ⟨hblank, hnone⟩
    refine Bool.eq_false_iff.mpr fun h => ?_
    rcases spells_of_isExpressionChar h with h | ⟨chars, token, hspells, hc⟩
    · rw [hblank] at h
      cases h
    · exact hnone chars token hspells hc
  · intro h
    constructor
    · refine Bool.eq_false_iff.mpr fun hblank => ?_
      simp [isExpressionChar, hblank] at h
    · intro chars token hspells hc
      rw [isExpressionChar_of_spells hspells c hc] at h
      cases h

end Read

end Parkour.Language.Expression
