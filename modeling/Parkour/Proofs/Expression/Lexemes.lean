import Mathlib.Algebra.BigOperators.Group.List.Basic
import Parkour.Proofs.Expression.Evaluation
import Parkour.Proofs.Expression.Spelling

/-!
# Lexemes of expressions

A text is cut into lexemes without a loss, and each of them takes all that it can of the text.
Where no token starts, the text has its first character that belongs to no expression, or a point
without digits.
-/

namespace Parkour.Language.Expression

/-! ## What a lexeme takes of a text -/

/-- The text does not go on with a character of the class. -/
def Stops (p : Char → Bool) (text : List Char) : Prop := ∀ c ∈ text.head?, p c = false

/-- The text goes on with the letter of an exponent and a digit, at once or behind a sign. -/
def AnnouncesExponent (text : List Char) : Prop :=
  ∃ (letter : Char) (sign : Option Char) (digit : Char) (behind : List Char),
    text = letter :: (sign.toList ++ digit :: behind) ∧ (letter = 'e' ∨ letter = 'E') ∧
      (∀ c ∈ sign, c = '+' ∨ c = '-') ∧ Text.isDigit digit = true

/-- The parts of a literal end where they have to, with `rest` behind it. -/
structure Literal.Ends (literal : Literal) (rest : List Char) : Prop where
  /-- The digits before the point are followed by no digit. -/
  whole : Stops Text.isDigit
    (marked '.' [] literal.fraction ++ exponentChars literal.exponent ++ rest)
  /-- The digits behind the point are followed by no digit. -/
  fraction : Stops Text.isDigit (exponentChars literal.exponent ++ rest)
  /-- The digits of the exponent are followed by no digit. -/
  exponentDigits : Stops Text.isDigit rest
  /-- There is an exponent exactly if one follows the mantissa. -/
  exponent_iff : literal.exponent.isSome = true ↔
    AnnouncesExponent (exponentChars literal.exponent ++ rest)
  /-- Otherwise nothing behind the mantissa is taken. -/
  mantissa : ¬AnnouncesExponent (exponentChars literal.exponent ++ rest) →
    literal.chars = literal.mantissa

/-- The lexeme takes all that it can of the text that its characters and `rest` make up. -/
structure Lexeme.Maximal (l : Lexeme) (rest : List Char) : Prop where
  spells : Spells l.chars l.token
  /-- No longer beginning of the text spells a token. -/
  longest : ∀ chars token, Spells chars token → chars <+: l.chars ++ rest →
    chars.length ≤ l.chars.length
  /-- A name goes as far as characters of names do. -/
  name : ∀ name, l.token = .name name → l.chars = name.toList ∧ Stops Text.isNamePart rest
  /-- The digits of a number go as far as digits do. -/
  number : ∀ v, l.token = .number v →
    ∃ literal : Literal, l.chars = literal.chars ∧ v = literal.value ∧ literal.Ends rest
  /-- Two stars are one token. -/
  power : ['*', '*'] <+: l.chars ++ rest → l.chars = ['*', '*'] ∧ l.token = .power

theorem Exponent.announces (exponent : Exponent) (rest : List Char) :
    AnnouncesExponent (exponent.chars ++ rest) := by
  obtain ⟨letter, sign, digits, hletter, hsign, hdigits, hne⟩ := exponent
  cases digits with
  | nil => exact absurd rfl hne
  | cons d ds =>
      refine ⟨letter, sign, d, ds ++ rest, ?_, hletter, hsign, hdigits d List.mem_cons_self⟩
      simp [Exponent.chars]

/-- A digit behind a literal makes a longer literal. -/
theorem Literal.exists_append_digit (literal : Literal) {d : Char}
    (hd : Text.isDigit d = true) : ∃ longer : Literal, longer.chars = literal.chars ++ [d] := by
  have hsnoc : ∀ {ds : List Char}, (∀ c ∈ ds, Text.isDigit c = true) →
      ∀ c ∈ ds ++ [d], Text.isDigit c = true :=
    fun hds => List.forall_mem_append.mpr ⟨hds, List.forall_mem_singleton.mpr hd⟩
  obtain ⟨whole, fraction, exponent, hwhole, hfraction, hne⟩ := literal
  cases exponent with
  | some e =>
      let exponent : Exponent := ⟨e.letter, e.sign, e.digits ++ [d], e.letter_eq, e.sign_eq,
        hsnoc e.digits_isDigit, by simp⟩
      refine ⟨⟨whole, fraction, some exponent, hwhole, hfraction, hne⟩, ?_⟩
      simp [chars, mantissa, exponentChars, exponent, Exponent.chars]
  | none =>
      cases fraction with
      | some ds =>
          refine ⟨⟨whole, some (ds ++ [d]), none, hwhole, ?_, by simp⟩, ?_⟩
          · rintro _ ⟨⟩
            exact hsnoc (hfraction ds rfl)
          · simp [chars, mantissa, exponentChars, marked]
      | none =>
          refine ⟨⟨whole ++ [d], none, none, hsnoc hwhole, hfraction, by simp⟩, ?_⟩
          simp [chars, mantissa, exponentChars, marked]

/-- An exponent behind a literal without one makes a longer literal. -/
theorem Literal.exists_append_exponent {literal : Literal} (hnone : literal.exponent = none)
    (exponent : Exponent) : ∃ longer : Literal, longer.chars = literal.chars ++ exponent.chars := by
  refine ⟨{ literal with exponent := some exponent }, ?_⟩
  simp [chars, mantissa, exponentChars, hnone]

/-- A literal that is the longest ends where its parts have to end. -/
theorem Literal.ends_of_longest {literal : Literal} {rest : List Char}
    (h : ∀ other : Literal, other.chars <+: literal.chars ++ rest →
      other.chars.length ≤ literal.chars.length) : literal.Ends rest := by
  have hnot : ∀ (other : Literal) (c : Char) (cs behind : List Char),
      other.chars = literal.chars ++ c :: cs → rest ≠ c :: cs ++ behind := by
    rintro other c cs behind hother rfl
    have hle := h other ⟨behind, by rw [hother, List.append_assoc]⟩
    rw [hother, List.length_append] at hle
    exact absurd hle (by simp)
  have hdigits : Stops Text.isDigit rest := by
    intro d hd
    refine Bool.eq_false_iff.mpr fun hdigit => ?_
    obtain ⟨behind, hrest⟩ := List.head?_eq_some_iff.mp hd
    obtain ⟨longer, hlonger⟩ := literal.exists_append_digit hdigit
    exact hnot longer d [] behind hlonger hrest
  have hfraction : Stops Text.isDigit (exponentChars literal.exponent ++ rest) := by
    cases literal.exponent with
    | none => exact hdigits
    | some e =>
        rintro _ ⟨⟩
        exact e.isDigit_letter.1
  have hexponent : literal.exponent.isSome = true ↔
      AnnouncesExponent (exponentChars literal.exponent ++ rest) := by
    cases hnone : literal.exponent with
    | some e => exact ⟨fun _ => e.announces rest, fun _ => rfl⟩
    | none =>
        refine ⟨nofun, ?_⟩
        rintro ⟨letter, sign, digit, behind, hrest, hletter, hsign, hdigit⟩
        let exponent : Exponent := ⟨letter, sign, [digit], hletter, hsign, by simpa using hdigit,
          List.cons_ne_nil _ _⟩
        obtain ⟨longer, hlonger⟩ := Literal.exists_append_exponent hnone exponent
        refine absurd ?_ (hnot longer letter (sign.toList ++ [digit]) behind hlonger)
        simpa [exponentChars] using hrest
  refine ⟨?_, hfraction, hdigits, hexponent, fun hnone => ?_⟩
  · cases literal.fraction with
    | none => exact hfraction
    | some ds =>
        rintro _ ⟨⟩
        rfl
  · rw [← hexponent, Option.not_isSome_iff_eq_none] at hnone
    rw [chars, hnone, exponentChars, List.append_nil]

/-- A name goes on as far as its characters do. -/
theorem stops_of_longest {name : String} (hname : Text.isIdentifier name = true)
    {rest : List Char} (h : ∀ other : String, Text.isIdentifier other = true →
      other.toList <+: name.toList ++ rest → other.toList.length ≤ name.toList.length) :
    Stops Text.isNamePart rest := by
  intro d hd
  refine Bool.eq_false_iff.mpr fun hpart => ?_
  obtain ⟨behind, rfl⟩ := List.head?_eq_some_iff.mp hd
  obtain ⟨c, cs, hcs, hstart, hparts⟩ := Text.exists_cons_of_isIdentifier hname
  have hlonger : Text.isIdentifier (String.ofList (c :: (cs ++ [d]))) = true :=
    Text.isIdentifier_ofList hstart
      (List.forall_mem_append.mpr ⟨hparts, List.forall_mem_singleton.mpr hpart⟩)
  have hle := h _ hlonger ⟨behind, by simp [hcs]⟩
  rw [hcs, String.toList_ofList] at hle
  exact absurd hle (by simp)

/-- No other token is spelled by two stars. -/
theorem Spells.eq_power {rest : List Char} {token : Token} (h : Spells ('*' :: '*' :: rest) token) :
    rest = [] ∧ token = .power := by
  generalize hchars : '*' :: '*' :: rest = chars at h
  cases h with
  | number literal => exact absurd (literal.head_chars hchars.symm) (by decide)
  | name hname =>
      obtain ⟨c, cs, hcs, hstart, -⟩ := Text.exists_cons_of_isIdentifier hname
      rw [hcs] at hchars
      cases hchars
      exact absurd hstart (by decide)
  | power =>
      cases hchars
      exact ⟨rfl, rfl⟩
  | _ => cases hchars

theorem Lexeme.maximal_of_longest {l : Lexeme} {rest : List Char} (hspells : Spells l.chars l.token)
    (h : ∀ chars token, Spells chars token → chars <+: l.chars ++ rest →
      chars.length ≤ l.chars.length) : l.Maximal rest := by
  obtain ⟨blanks, chars, token⟩ := l
  dsimp only at hspells h
  refine ⟨hspells, h, ?_, ?_, ?_⟩
  · rintro name ⟨⟩
    cases hspells with
    | name hname => exact ⟨rfl, stops_of_longest hname fun other hother => h _ _ (.name hother)⟩
  · rintro v ⟨⟩
    cases hspells with
    | number literal =>
        exact ⟨literal, rfl, rfl, Literal.ends_of_longest fun other => h _ _ (.number other)⟩
  · intro htwo
    obtain ⟨behind, hbehind⟩ :=
      List.prefix_of_prefix_length_le htwo (List.prefix_append _ _) (h _ _ .power htwo)
    dsimp only at hbehind
    rw [← hbehind] at hspells
    obtain ⟨rfl, rfl⟩ := hspells.eq_power
    exact ⟨hbehind.symm, rfl⟩

/-- What the scanner takes of a text is all that can be taken. -/
theorem maximal_of_scan {c : Char} {cs : List Char} {n : Nat} {token : Token}
    (hblank : Text.isBlank c = false) (h : scan c cs = .ok (n, token)) (blanks : List Char) :
    Lexeme.Maximal ⟨blanks, c :: cs.take n, token⟩ (cs.drop n) := by
  refine Lexeme.maximal_of_longest (spells_of_scan hblank h) fun chars other hother hbegins => ?_
  rw [List.cons_append, List.take_append_drop] at hbegins
  obtain ⟨k, found, hscan, hle⟩ := exists_scan_of_prefix hother hbegins
  cases h.symm.trans hscan
  have hlength := hbegins.length_le
  simp only [List.length_cons, List.length_take] at hlength ⊢
  omega

/-! ## Whole texts -/

/-- A lexeme as it stands in its text. -/
def Lexeme.written (l : Lexeme) : List Char := l.blanks ++ l.chars

/-- The lexemes are the beginning of the text, and `rest` is left over. -/
structure Lexed (text : List Char) (ls : List Lexeme) (rest : List Char) : Prop where
  lossless : ls.flatMap Lexeme.written ++ rest = text
  /-- What stands between the tokens are blanks. -/
  blanks : ∀ l ∈ ls, ∀ c ∈ l.blanks, Text.isBlank c = true
  /-- Each lexeme takes all that it can of what is still to come. -/
  maximal : ∀ before l after, ls = before ++ l :: after →
    l.Maximal (after.flatMap Lexeme.written ++ rest)

/-- The run holds the first foreign characters of a text, up to the next other one. -/
structure FirstForeign (before run behind : List Char) : Prop where
  clear : ∀ c ∈ before, ¬Foreign c
  ne_nil : run ≠ []
  foreign : ∀ c ∈ run, Foreign c
  ends : ∀ c ∈ behind.head?, ¬Foreign c

namespace Lexed

variable {text rest : List Char} {ls : List Lexeme} {l : Lexeme}

theorem nil (text : List Char) : Lexed text [] text :=
  ⟨rfl, List.forall_mem_nil _, fun before l after h => by simp at h⟩

theorem cons (hblanks : ∀ c ∈ l.blanks, Text.isBlank c = true) (hl : l.Maximal text)
    (h : Lexed text ls rest) : Lexed (l.written ++ text) (l :: ls) rest := by
  refine ⟨?_, List.forall_mem_cons.mpr ⟨hblanks, h.blanks⟩, ?_⟩
  · rw [List.flatMap_cons, List.append_assoc, h.lossless]
  · intro before other after heq
    cases before with
    | nil =>
        cases heq
        rw [h.lossless]
        exact hl
    | cons first before =>
        cases heq
        exact h.maximal before other after rfl

theorem spells (h : Lexed text ls rest) (hl : l ∈ ls) : Spells l.chars l.token := by
  obtain ⟨before, after, heq⟩ := List.append_of_mem hl
  exact (h.maximal before l after heq).spells

/-- No lexeme is empty, so there are no more of them than characters. -/
theorem length_le (h : Lexed text ls rest) : ls.length ≤ text.length := by
  have hwritten : ∀ l ∈ ls, 1 ≤ l.written.length := by
    intro l hl
    have hchars := List.length_pos_of_ne_nil (h.spells hl).ne_nil
    rw [Lexeme.written, List.length_append]
    omega
  have hsum := List.length_le_sum_of_one_le (ls.map fun l => l.written.length)
    (List.forall_mem_map.mpr hwritten)
  rw [List.length_map] at hsum
  rw [← h.lossless, List.length_append, List.length_flatMap]
  omega

theorem not_foreign (h : Lexed text ls rest) : ∀ c ∈ ls.flatMap Lexeme.written, ¬Foreign c := by
  intro c hc
  obtain ⟨l, hl, hc⟩ := List.mem_flatMap.mp hc
  rcases List.mem_append.mp hc with hc | hc
  · exact not_foreign_of_isBlank (h.blanks l hl c hc)
  · exact fun hforeign => hforeign.2 _ _ (h.spells hl) hc

end Lexed

theorem lexemesAfter_of_scan {c : Char} {cs : List Char} {n : Nat} {token : Token}
    (hblank : ¬Text.isBlank c = true) (h : scan c cs = .ok (n, token)) (blanks : List Char) :
    lexemesAfter blanks (c :: cs) =
      (lexemesAfter [] (cs.drop n)).map (⟨blanks, c :: cs.take n, token⟩ :: ·) := by
  rw [lexemesAfter, if_neg hblank, h, ok_bind]
  dsimp only
  cases lexemesAfter [] (cs.drop n) <;> rfl

/-- Lexemes are read until nothing but blanks is left, or the scanner fails behind them. -/
theorem exists_lexed (cs : List Char) {blanks : List Char}
    (hblanks : ∀ c ∈ blanks, Text.isBlank c = true) :
    ∃ ls rest, Lexed (blanks ++ cs) ls rest ∧
      ((lexemesAfter blanks cs = .ok ls ∧ ∀ c ∈ rest, Text.isBlank c = true) ∨
        ∃ between c behind fault, rest = between ++ c :: behind ∧
          (∀ d ∈ between, Text.isBlank d = true) ∧ Text.isBlank c = false ∧
          scan c behind = .error fault ∧ lexemesAfter blanks cs = .error fault) := by
  induction blanks, cs using lexemesAfter.induct with
  | case1 blanks =>
      refine ⟨[], blanks ++ [], .nil _, .inl ⟨by rw [lexemesAfter], ?_⟩⟩
      rwa [List.append_nil]
  | case2 blanks c cs hblank ih =>
      have hfound := ih (List.forall_mem_append.mpr ⟨hblanks, List.forall_mem_singleton.mpr hblank⟩)
      rw [List.append_assoc, List.singleton_append] at hfound
      rw [lexemesAfter, if_pos hblank]
      exact hfound
  | case3 blanks c cs hblank ih =>
      have hc : Text.isBlank c = false := Bool.eq_false_iff.mpr hblank
      cases hscan : scan c cs with
      | error fault =>
          have hread : lexemesAfter blanks (c :: cs) = .error fault := by
            rw [lexemesAfter, if_neg hblank, hscan]
            rfl
          exact ⟨[], blanks ++ c :: cs, .nil _,
            .inr ⟨blanks, c, cs, fault, rfl, hblanks, hc, hscan, hread⟩⟩
      | ok found =>
          obtain ⟨n, token⟩ := found
          obtain ⟨ls, rest, hlexed, hends⟩ := ih n (List.forall_mem_nil _)
          refine ⟨⟨blanks, c :: cs.take n, token⟩ :: ls, rest, ?_, ?_⟩
          · have hcons := hlexed.cons hblanks (maximal_of_scan hc hscan blanks)
            simpa [Lexeme.written] using hcons
          · rw [lexemesAfter_of_scan hblank hscan]
            rcases hends with ⟨hread, hrest⟩ | ⟨between, d, behind, fault, hrest, hbetween, hd,
              hfails, hread⟩
            · rw [hread]
              exact .inl ⟨rfl, hrest⟩
            · rw [hread]
              exact .inr ⟨between, d, behind, fault, hrest, hbetween, hd, hfails, rfl⟩

/-- A text that has no tokens for a fault is reported with that fault. -/
theorem evaluate_of_tokens_error {text : String} {fault : ExpressionFault}
    (h : tokens text = .error fault) (scope : Scope) :
    evaluate text scope = .error (reported text fault) := by
  have hblank : ¬Text.isBlankText text = true := fun hblank => by
    rw [tokens_of_blank hblank] at h
    cases h
  have hvalue : value text scope = .error fault := by
    rw [value, h]
    rfl
  rw [evaluate, if_neg hblank, hvalue]
  cases fault <;> rfl

theorem message_unexpected (text run : String) :
    (reported text (.unexpected run)).message =
      "invalid expression '" ++ Text.trim text ++ "': unexpected '" ++ run ++ "'" := by
  have hmark : "': " ++ "unexpected '" = "': unexpected '" := by decide
  calc
    (reported text (.unexpected run)).message =
        "invalid expression '" ++ Text.trim text ++ "': " ++ ("unexpected '" ++ run ++ "'") := rfl
    _ = "invalid expression '" ++ Text.trim text ++ "': unexpected '" ++ run ++ "'" := by
      rw [← hmark]
      simp only [String.append_assoc]

/-- The fault of a text names the foreign characters that stand where the scanner fails. -/
theorem firstForeign_of_scan {before : List Char} (hbefore : ∀ c ∈ before, ¬Foreign c) {c : Char}
    (hc : Foreign c) (cs : List Char) :
    FirstForeign before (c :: cs.takeWhile fun d => !isExpressionChar d)
      (cs.dropWhile fun d => !isExpressionChar d) := by
  refine ⟨hbefore, List.cons_ne_nil _ _, List.forall_mem_cons.mpr ⟨hc, fun d hd => ?_⟩, ?_⟩
  · rw [foreign_iff]
    simpa using List.mem_takeWhile_imp hd
  · intro d hd
    rw [foreign_iff]
    have hhead := List.head?_dropWhile_not (fun d => !isExpressionChar d) cs
    rw [Option.mem_def.mp hd] at hhead
    simpa using hhead

/-- Every text is cut into lexemes, of which each takes all that it can, or fails behind its
first lexemes: at the first characters that belong to no expression, which the fault names as far
as they go, or at a point without digits. -/
theorem lexemes_maximal (text : String) (scope : Scope) :
    ∃ ls rest, Lexed text.toList ls rest ∧ ls.length ≤ text.length ∧
      ((lexemes text = .ok ls ∧ tokens text = .ok (ls.map Lexeme.token) ∧
          ∀ c ∈ rest, Text.isBlank c = true) ∨
        (∃ blanks run behind fault, rest = blanks ++ run ++ behind ∧
          (∀ c ∈ blanks, Text.isBlank c = true) ∧
          FirstForeign (ls.flatMap Lexeme.written ++ blanks) run behind ∧
          tokens text = .error (.unexpected (String.ofList run)) ∧
          evaluate text scope = .error fault ∧
          fault.message = "invalid expression '" ++ Text.trim text ++ "': unexpected '" ++
            String.ofList run ++ "'") ∨
        ∃ blanks exponent behind, rest = blanks ++ '.' :: exponentChars exponent ++ behind ∧
          (∀ c ∈ blanks, Text.isBlank c = true) ∧
          (∀ chars token, Spells chars token → ¬chars <+: '.' :: exponentChars exponent ++ behind) ∧
          tokens text = .error (.numeral (String.ofList ('.' :: exponentChars exponent)))) := by
  obtain ⟨ls, rest, hlexed, hends⟩ := exists_lexed text.toList (List.forall_mem_nil _)
  have htokens : tokens text =
      (lexemesAfter [] text.toList).map fun found => found.map Lexeme.token := rfl
  refine ⟨ls, rest, hlexed, text.length_toList ▸ hlexed.length_le, ?_⟩
  rcases hends with ⟨hread, hrest⟩ | ⟨blanks, c, behind, fault, rfl, hblanks, hc, hfails, hread⟩
  · rw [hread] at htokens
    exact .inl ⟨hread, htokens, hrest⟩
  · rw [hread] at htokens
    rcases scan_cases hc behind with ⟨n, token, hscan, -⟩ | ⟨rfl, exponent, more, rfl, hscan⟩ |
      ⟨hforeign, hscan⟩
    · cases hfails.symm.trans hscan
    · cases hfails.symm.trans hscan
      refine .inr (.inr ⟨blanks, exponent, more, by simp, hblanks, fun chars token hspells => ?_,
        htokens⟩)
      exact not_spells_of_scan hfails hspells
    · cases hfails.symm.trans hscan
      have hbefore : ∀ d ∈ ls.flatMap Lexeme.written ++ blanks, ¬Foreign d :=
        List.forall_mem_append.mpr
          ⟨hlexed.not_foreign, fun d hd => not_foreign_of_isBlank (hblanks d hd)⟩
      refine .inr (.inl ⟨blanks, _, _, _, ?_, hblanks,
        firstForeign_of_scan hbefore (foreign_iff.mpr hforeign) behind, htokens,
        evaluate_of_tokens_error htokens scope, message_unexpected text _⟩)
      simp

/-- The letter of an exponent belongs to a number only if digits follow. -/
example : (lexemes "2e+x ** 3e-1").map (fun ls => ls.map fun l => String.ofList l.written) =
    .ok ["2", "e", "+", "x", " **", " 3e-1"] := by
  decide +kernel

end Parkour.Language.Expression
