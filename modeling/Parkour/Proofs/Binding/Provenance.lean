import Parkour.Proofs.Binding.Default
import Parkour.Proofs.Sequence.Comments

/-!
# Where defaults come from

A default that is a text stands in the signature as it is, behind an equals sign that is not
escaped: what a declaration has before its default is a name and a type, in which there are no
backslashes.
-/

namespace Parkour.Text

open Language.Sequence (mem_trimmed)

/-- The mark stands between the two parts of a text that is cut at it. -/
theorem toList_of_cut? {mark : Char} {text first rest : String}
    (h : cut? mark text = some (first, rest)) :
    text.toList = first.toList ++ mark :: rest.toList := by
  unfold cut? at h
  dsimp only at h
  split at h
  · cases h
  · next c cs hdrop =>
    cases h
    have hc : c = mark := by
      have hhead := List.head?_dropWhile_not (fun d => d != mark) text.toList
      rw [hdrop] at hhead
      simpa using hhead
    subst hc
    rw [String.toList_ofList, String.toList_ofList, ← hdrop, List.takeWhile_append_dropWhile]

/-- There is no backslash in an identifier with blanks around it. -/
theorem notMem_of_isIdentifier_trim {name : String} (h : isIdentifier (trim name) = true) :
    '\\' ∉ name.toList := by
  intro hmem
  have htrimmed : '\\' ∈ (trim name).toList := by
    rw [toList_trim]
    exact mem_trimmed hmem rfl
  exact notMem_of_isIdentifier h rfl htrimmed

end Parkour.Text

namespace Parkour.Language

open Sequence (Stands mem_trimmed stands_of_split stands_trimmed)

/-- There is no backslash in the name of a type. -/
theorem ParameterType.notMem_of_ofName? {name : String} {type : ParameterType}
    (h : ParameterType.ofName? name = some type) : '\\' ∉ name.toList := by
  intro hmem
  have hlower : '\\' ∈ (Text.lower (Text.trim name)).toList := by
    rw [Text.toList_lower, Text.toList_trim]
    exact List.mem_map.mpr ⟨'\\', mem_trimmed hmem rfl, rfl⟩
  unfold ParameterType.ofName? at h
  split at h
  case h_8 => cases h
  all_goals
    next hname =>
    rw [hname] at hlower
    exact absurd hlower (by decide)

namespace Signature

variable {name text : String} {type : ParameterType} {scope : Scope}

/-- What is read as a name and a type has no backslash. -/
theorem notMem_of_headParts {head : String} (h : headParts head = .ok (name, type))
    (hname : Text.isIdentifier name = true) : '\\' ∉ head.toList := by
  unfold headParts at h
  split at h
  · cases h
    exact Text.notMem_of_isIdentifier_trim hname
  · next first typeName hcut =>
    split at h
    · next found htype =>
      cases h
      rw [Text.toList_of_cut? hcut, List.mem_append, List.mem_cons, not_or, not_or]
      exact ⟨Text.notMem_of_isIdentifier_trim hname, by decide,
        ParameterType.notMem_of_ofName? htype⟩
    · cases h

/-- The default of a declaration stands behind its equals sign. -/
theorem Declares.stands {declaration : String} (h : Declares declaration name type text) :
    Stands text.toList declaration.toList := by
  obtain ⟨head, hparts, hhead⟩ := h.parts
  unfold declarationParts at hparts
  split at hparts
  · next found value hkeyword =>
    cases hparts
    obtain ⟨hidentifier, blanks, value, hblanks, -, hpiece, rfl⟩ := keyword?_eq_some.mp hkeyword
    have hbefore : '\\' ∉ head.toList ++ (blanks ++ ['=']) := by
      simp only [List.mem_append, List.mem_singleton, not_or]
      exact ⟨Text.notMem_of_isIdentifier hidentifier rfl,
        fun hmem => absurd (hblanks _ hmem) (by decide), by decide⟩
    have hvalue : Stands value declaration.toList := by
      rw [show declaration.toList = (head.toList ++ (blanks ++ ['='])) ++ (value ++ []) by
        simp [hpiece]]
      exact .behind hbefore
    rw [Text.toList_trim, String.toList_ofList]
    exact (stands_trimmed value).trans hvalue
  · split at hparts
    · next first value hcut =>
      cases hparts
      have hfirst : '\\' ∉ first.toList := fun hmem =>
        notMem_of_headParts hhead h.identifier (by
          rw [Text.toList_trim]
          exact mem_trimmed hmem rfl)
      have hbefore : '\\' ∉ first.toList ++ ['='] := by
        simpa using hfirst
      have hvalue : Stands value.toList declaration.toList := by
        rw [show declaration.toList = (first.toList ++ ['=']) ++ (value.toList ++ []) by
          simp [Text.toList_of_cut? hcut]]
        exact .behind hbefore
      rw [Text.toList_trim]
      exact (stands_trimmed value.toList).trans hvalue
    · cases hparts

/-- The text between the parentheses stands in the signature. -/
theorem stands_of_outline {whole inner : String} (h : outline whole = .ok (name, inner))
    (hname : Text.isIdentifier name = true) : Stands inner.toList whole.toList := by
  unfold outline at h
  split at h
  · cases h
    exact .nil _
  · next first rest hcut =>
    split at h
    · next hlast =>
      cases h
      have hbefore : '\\' ∉ first.toList ++ ['('] := by
        simpa using Text.notMem_of_isIdentifier_trim hname
      have hrest : rest.toList = rest.toList.dropLast ++ [')'] :=
        (List.dropLast_append_getLast? _ hlast).symm
      rw [show whole.toList = (first.toList ++ ['(']) ++ (rest.toList.dropLast ++ [')']) by
        rw [← hrest, Text.toList_of_cut? hcut, List.append_assoc, List.singleton_append],
        String.toList_ofList]
      exact .behind hbefore
    · cases h

theorem IsPiece.stands {signature piece : String} (h : IsPiece signature piece) :
    Stands piece.toList signature.toList := by
  obtain ⟨name, inner, pieces, houtline, hname, hsplit, hpiece⟩ := h
  have hwhole := stands_of_outline houtline hname
  rw [Text.toList_trim] at hwhole
  exact (stands_of_split hsplit hpiece).trans (hwhole.trans (stands_trimmed _))

theorem withoutStar_eq_false {piece declaration : String}
    (h : withoutStar piece = (false, declaration)) : declaration = piece := by
  unfold withoutStar at h
  split at h
  · cases h
    rfl
  · split at h <;> cases h
    rfl

/-- Only texts are taken for texts. -/
theorem text_of_fallbackValue {default : String}
    (h : fallbackValue scope type text = .ok (.text default)) : default = text := by
  unfold fallbackValue at h
  split at h
  · cases h
  · cases type with
    | text =>
        cases h
        rfl
    | sequence =>
        cases h
        rfl
    | _ =>
        obtain ⟨number, -, hvalue⟩ := map_eq_ok h
        cases hvalue

/-- A default that is a text stands in the signature. -/
theorem stands_of_parse {signature : String} {s : Signature}
    (h : parse scope signature = .ok s) :
    ∀ p ∈ s.parameters, ∀ default, p.fallback = some (.text default) →
      Stands default.toList signature.toList := by
  refine forall_of_parse h (fun p hp => ?_) fun hpiece hstar hq default hdefault => ?_
  · rwa [fallback_slashed]
  · obtain ⟨rfl, text, hdeclares⟩ := declares_of_parseParameter hq (by rw [hdefault]; rfl)
    cases withoutStar_eq_false hstar
    rw [parseParameter_eq hdeclares] at hq
    obtain ⟨value, hvalue, hsame⟩ := map_eq_ok hq
    have hfallback : some value = some (.text default) := by
      rw [← hdefault, ← hsame]
    cases hfallback
    rw [text_of_fallbackValue hvalue]
    have hdeclaration := hdeclares.stands
    rw [Text.toList_trim] at hdeclaration
    exact hdeclaration.trans ((stands_trimmed _).trans hpiece.stands)

end Signature

end Parkour.Language
