/-!
# Classes of characters

Blanks are the characters with the Unicode property White_Space. Letters, digits
and letter case are those of ASCII: names, keys and numerals are written in them.
-/

namespace Parkour.Text

/-- The 25 code points with the property White_Space. -/
def isBlank (c : Char) : Bool :=
  let n := c.toNat
  (9 ≤ n && n ≤ 13) || n == 0x20 || n == 0x85 || n == 0xA0 || n == 0x1680 ||
    (0x2000 ≤ n && n ≤ 0x200A) || n == 0x2028 || n == 0x2029 || n == 0x202F ||
    n == 0x205F || n == 0x3000

/-- The letters `A` to `Z` and `a` to `z`. -/
def isLetter (c : Char) : Bool :=
  ('a' ≤ c && c ≤ 'z') || ('A' ≤ c && c ≤ 'Z')

/-- The digits `0` to `9`. -/
def isDigit (c : Char) : Bool :=
  '0' ≤ c && c ≤ '9'

/-- A letter or a digit. -/
def isAlphanumeric (c : Char) : Bool :=
  isLetter c || isDigit c

/-- What an identifier starts with. -/
def isNameStart (c : Char) : Bool :=
  isLetter c || c == '_'

/-- What an identifier goes on with. -/
def isNamePart (c : Char) : Bool :=
  isAlphanumeric c || c == '_'

/-- A letter or an underscore, then letters, digits and underscores. -/
def isIdentifier (text : String) : Bool :=
  match text.toList with
  | [] => false
  | c :: cs => isNameStart c && cs.all isNamePart

theorem isNamePart_of_isNameStart {c : Char} (h : isNameStart c = true) :
    isNamePart c = true := by
  simp only [isNameStart, Bool.or_eq_true] at h
  simp only [isNamePart, isAlphanumeric, Bool.or_eq_true]
  rcases h with h | h
  · exact .inl (.inl h)
  · exact .inr h

/-- An identifier has a first character, and the others go on with it. -/
theorem exists_cons_of_isIdentifier {text : String} (h : isIdentifier text = true) :
    ∃ c cs, text.toList = c :: cs ∧ isNameStart c = true ∧ ∀ d ∈ cs, isNamePart d = true := by
  unfold isIdentifier at h
  split at h
  · cases h
  · next c cs hcs =>
    rw [Bool.and_eq_true, List.all_eq_true] at h
    exact ⟨c, cs, hcs, h⟩

theorem isIdentifier_ofList {c : Char} {cs : List Char} (hstart : isNameStart c = true)
    (hrest : ∀ d ∈ cs, isNamePart d = true) : isIdentifier (String.ofList (c :: cs)) = true := by
  simp only [isIdentifier, String.toList_ofList, hstart, Bool.true_and, List.all_eq_true]
  exact hrest

theorem isNamePart_of_isIdentifier {text : String} (h : isIdentifier text = true) :
    ∀ c ∈ text.toList, isNamePart c = true := by
  obtain ⟨c, cs, hcs, hstart, hrest⟩ := exists_cons_of_isIdentifier h
  rw [hcs]
  exact List.forall_mem_cons.mpr ⟨isNamePart_of_isNameStart hstart, hrest⟩

theorem notMem_of_isIdentifier {text : String} {c : Char} (h : isIdentifier text = true)
    (hc : isNamePart c = false) : c ∉ text.toList := by
  intro hmem
  rw [isNamePart_of_isIdentifier h c hmem] at hc
  cases hc

theorem not_isBlank_of_isNamePart {c : Char} (h : isNamePart c = true) :
    isBlank c = false := by
  have bounds : (48 ≤ c.toNat ∧ c.toNat ≤ 57) ∨ (65 ≤ c.toNat ∧ c.toNat ≤ 90) ∨
      c.toNat = 95 ∨ (97 ≤ c.toNat ∧ c.toNat ≤ 122) := by
    simp only [isNamePart, isAlphanumeric, isLetter, isDigit, Bool.or_eq_true,
      Bool.and_eq_true, decide_eq_true_eq, beq_iff_eq, Char.le_def, UInt32.le_iff_toNat_le] at h
    rcases h with ((⟨low, high⟩ | ⟨low, high⟩) | ⟨low, high⟩) | rfl
    · exact .inr (.inr (.inr ⟨low, high⟩))
    · exact .inr (.inl ⟨low, high⟩)
    · exact .inl ⟨low, high⟩
    · exact .inr (.inr (.inl rfl))
  simp only [isBlank, Bool.or_eq_false_iff, Bool.and_eq_false_iff, decide_eq_false_iff_not,
    beq_eq_false_iff_ne]
  omega

theorem not_isDigit_of_isNameStart {c : Char} (h : isNameStart c = true) :
    isDigit c = false := by
  have bound : 57 < c.toNat := by
    simp only [isNameStart, isLetter, Bool.or_eq_true, Bool.and_eq_true, decide_eq_true_eq,
      beq_iff_eq, Char.le_def, UInt32.le_iff_toNat_le] at h
    rcases h with (⟨low, -⟩ | ⟨low, -⟩) | rfl
    · exact Nat.lt_of_lt_of_le (by decide) low
    · exact Nat.lt_of_lt_of_le (by decide) low
    · decide
  simp only [isDigit, Bool.and_eq_false_iff, decide_eq_false_iff_not, Char.le_def,
    UInt32.le_iff_toNat_le]
  exact .inr (Nat.not_le.mpr bound)

end Parkour.Text
