import Mathlib.Data.List.Forall2
import Mathlib.Data.List.Induction
import Mathlib.Data.List.Nodup
import Mathlib.Data.List.TakeWhile
import Parkour.Language.Arguments
import Parkour.Proofs.Outcome
import Parkour.Proofs.Sequence.Printing

/-!
# Reading of arguments

Which texts a call gives as its arguments. The text between its parentheses is cut into
pieces; those in front are arguments without names, those behind them have names, and no
name comes twice.
-/

namespace Parkour.Language

/-! ## Pieces with names -/

/-- A piece gives a text by name: an identifier, blanks, and an equals sign that no other
one follows. -/
def Named (piece name text : String) : Prop :=
  Text.isIdentifier name = true ∧ ∃ blanks value : List Char,
    (∀ c ∈ blanks, Text.isBlank c = true) ∧ value.head? ≠ some '=' ∧
      piece.toList = name.toList ++ (blanks ++ '=' :: value) ∧
      text = Text.trim (String.ofList value)

theorem named_of_keyword? {piece name text : String} (h : keyword? piece = some (name, text)) :
    Named piece name text := by
  unfold keyword? at h
  split at h
  · cases h
  · next chars rest hname =>
    obtain ⟨hpiece, hidentifier⟩ := Command.eq_append_of_namePart hname
    split at h
    · cases h
    · next c value hdrop =>
      split at h
      · next hequals =>
        obtain ⟨rfl, hvalue⟩ := hequals
        cases h
        refine ⟨hidentifier, rest.takeWhile Text.isBlank, value, ?_, hvalue, ?_, rfl⟩
        · exact fun d hd => List.mem_takeWhile_imp hd
        · rw [hpiece, String.toList_ofList, ← hdrop, List.takeWhile_append_dropWhile]
      · cases h

/-- What follows the name of a piece does not go on with it. -/
theorem head_blanks_equals {blanks value : List Char}
    (h : ∀ c ∈ blanks, Text.isBlank c = true) :
    ∀ c ∈ (blanks ++ '=' :: value).head?, Text.isNamePart c = false := by
  intro c hc
  cases hname : Text.isNamePart c with
  | false => rfl
  | true =>
      have hblank := Text.not_isBlank_of_isNamePart hname
      cases blanks with
      | nil =>
          cases hc
          exact absurd hname (by decide)
      | cons d blanks =>
          cases hc
          rw [h _ List.mem_cons_self] at hblank
          cases hblank

theorem Named.keyword? {piece name text : String} (h : Named piece name text) :
    keyword? piece = some (name, text) := by
  obtain ⟨hname, blanks, value, hblanks, hvalue, hpiece, rfl⟩ := h
  have hdrop : (blanks ++ '=' :: value).dropWhile Text.isBlank = '=' :: value := by
    refine (takeWhile_append_of_head hblanks ?_).2
    rintro c ⟨⟩
    rfl
  simp only [Language.keyword?, hpiece, Command.namePart_append hname (head_blanks_equals hblanks),
    hdrop, String.ofList_toList]
  exact if_pos ⟨trivial, hvalue⟩

theorem keyword?_eq_some {piece name text : String} :
    keyword? piece = some (name, text) ↔ Named piece name text :=
  ⟨named_of_keyword?, Named.keyword?⟩

theorem keyword?_eq_none {piece : String} :
    keyword? piece = none ↔ ∀ name text, ¬Named piece name text := by
  simp only [← keyword?_eq_some, Option.eq_none_iff_forall_ne_some, Prod.forall]

/-! ## Lists of pieces -/

namespace Binding

/-- The arguments that the pieces of a call give. -/
structure Reads (pieces : List String) (given : Given) : Prop where
  nonempty : ∀ piece ∈ pieces, Text.trim piece ≠ ""
  order : ∃ named, pieces.map Text.trim = given.positionals ++ named ∧
    List.Forall₂ (fun piece argument => Named piece argument.1 argument.2) named given.keywords
  unnamed : ∀ piece ∈ given.positionals, ∀ name text, ¬Named piece name text
  distinct : (given.keywords.map Prod.fst).Nodup

/-- The arguments that the text between the parentheses of a call gives, if there is one. -/
inductive Gives (stack : List String) : Option String → Given → Prop where
  | absent : Gives stack none {}
  | blank {text : String} (h : Text.isBlankText text = true) : Gives stack (some text) {}
  | pieces {text : String} {pieces : List String} {given : Given}
      (htext : Text.isBlankText text = false)
      (hsplit : Sequence.split .arguments stack text = .ok pieces)
      (hreads : Reads pieces given) : Gives stack (some text) given

section

variable {function piece name text : String} {pieces : List String} {given : Given}

theorem nodup_names_concat {keywords : List (String × String)} {argument : String × String} :
    ((keywords ++ [argument]).map Prod.fst).Nodup ↔
      argument.1 ∉ keywords.map Prod.fst ∧ (keywords.map Prod.fst).Nodup := by
  rw [List.map_append, List.map_singleton, ← List.concat_eq_append, List.nodup_concat]

theorem Gives.distinct {stack : List String} {raw : Option String} (h : Gives stack raw given) :
    (given.keywords.map Prod.fst).Nodup := by
  cases h with
  | absent => exact List.nodup_nil
  | blank _ => exact List.nodup_nil
  | pieces _ _ hreads => exact hreads.distinct

theorem Reads.nil : Reads [] {} where
  nonempty := List.forall_mem_nil _
  order := ⟨[], rfl, .nil⟩
  unnamed := List.forall_mem_nil _
  distinct := List.nodup_nil

/-- As long as no piece has had a name, one without a name may follow. -/
theorem Reads.positional (h : Reads pieces given) (hkeywords : given.keywords = [])
    (hpiece : Text.trim piece ≠ "") (hname : ∀ name text, ¬Named (Text.trim piece) name text) :
    Reads (pieces ++ [piece])
      { given with positionals := given.positionals ++ [Text.trim piece] } where
  nonempty := List.forall_mem_append.mpr ⟨h.nonempty, by simpa using hpiece⟩
  order := by
    obtain ⟨named, hpieces, hnamed⟩ := h.order
    rw [hkeywords, List.forall₂_nil_right_iff] at hnamed
    refine ⟨[], ?_, hkeywords ▸ .nil⟩
    simp [hpieces, hnamed]
  unnamed := List.forall_mem_append.mpr ⟨h.unnamed, by simpa using hname⟩
  distinct := h.distinct

theorem Reads.keyword (h : Reads pieces given) (hpiece : Text.trim piece ≠ "")
    (hname : Named (Text.trim piece) name text) (hnew : name ∉ given.keywords.map Prod.fst) :
    Reads (pieces ++ [piece]) { given with keywords := given.keywords ++ [(name, text)] } where
  nonempty := List.forall_mem_append.mpr ⟨h.nonempty, by simpa using hpiece⟩
  order := by
    obtain ⟨named, hpieces, hnamed⟩ := h.order
    refine ⟨named ++ [Text.trim piece], by simp [hpieces], ?_⟩
    exact List.rel_append hnamed (.cons hname .nil)
  unnamed := h.unnamed
  distinct := nodup_names_concat.mpr ⟨hnew, h.distinct⟩

theorem Reads.take {next : Given} (h : Reads pieces given)
    (hnext : given.take function piece = .ok next) : Reads (pieces ++ [piece]) next := by
  unfold Given.take at hnext
  dsimp only at hnext
  split at hnext
  · cases hnext
  · next hempty =>
    have hpiece : Text.trim piece ≠ "" := by simpa using hempty
    split at hnext
    · next hname =>
      split at hnext
      · cases hnext
      · next hnew =>
        cases hnext
        refine h.keyword hpiece (keyword?_eq_some.mp hname) ?_
        simpa using hnew
    · next hname =>
      split at hnext
      · next hkeywords =>
        cases hnext
        exact h.positional (List.isEmpty_iff.mp hkeywords) hpiece (keyword?_eq_none.mp hname)
      · cases hnext

theorem reads_of_take
    (h : pieces.foldlM (fun (given : Given) piece => given.take function piece) {} = .ok given) :
    Reads pieces given := by
  induction pieces using List.reverseRecOn generalizing given with
  | nil =>
      cases h
      exact .nil
  | append_singleton pieces piece ih =>
      rw [List.foldlM_append] at h
      obtain ⟨before, hbefore, h⟩ := bind_eq_ok h
      rw [List.foldlM_cons] at h
      obtain ⟨next, hnext, h⟩ := bind_eq_ok h
      cases h
      exact (ih hbefore).take hnext

/-- Pieces without names are taken as they come while none with a name has been taken. -/
theorem take_positionals {texts : List String} (given : Given) (hgiven : given.keywords = [])
    (hnonempty : ∀ piece ∈ pieces, Text.trim piece ≠ "") (htexts : pieces.map Text.trim = texts)
    (hunnamed : ∀ piece ∈ texts, ∀ name text, ¬Named piece name text) :
    pieces.foldlM (fun given piece => given.take function piece) given =
      .ok { given with positionals := given.positionals ++ texts } := by
  subst htexts
  induction pieces generalizing given with
  | nil => simp [pure, Except.pure]
  | cons piece pieces ih =>
      obtain ⟨hpiece, hpieces⟩ := List.forall_mem_cons.mp hnonempty
      rw [List.map_cons] at hunnamed
      obtain ⟨hname, hnames⟩ := List.forall_mem_cons.mp hunnamed
      have htake : given.take function piece =
          .ok { given with positionals := given.positionals ++ [Text.trim piece] } := by
        simp [Given.take, hpiece, keyword?_eq_none.mpr hname, hgiven]
      rw [List.foldlM_cons, htake, ok_bind]
      refine (ih _ ?_ hpieces hnames).trans ?_
      · exact hgiven
      · simp

theorem take_keywords {named : List String} {keywords : List (String × String)} (given : Given)
    (hnonempty : ∀ piece ∈ pieces, Text.trim piece ≠ "") (hpieces : pieces.map Text.trim = named)
    (hnamed : List.Forall₂ (fun piece argument => Named piece argument.1 argument.2) named
      keywords)
    (hdistinct : ((given.keywords ++ keywords).map Prod.fst).Nodup) :
    pieces.foldlM (fun given piece => given.take function piece) given =
      .ok { given with keywords := given.keywords ++ keywords } := by
  induction hnamed generalizing given pieces with
  | nil =>
      cases List.map_eq_nil_iff.mp hpieces
      simp [pure, Except.pure]
  | @cons piece argument _ arguments hname _ ih =>
      obtain ⟨first, behind, rfl, rfl, hbehind⟩ := List.map_eq_cons_iff.mp hpieces
      obtain ⟨hpiece, hnonempty⟩ := List.forall_mem_cons.mp hnonempty
      have hnew : given.keywords.any (·.1 = argument.1) = false := by
        rw [List.map_append, List.nodup_append] at hdistinct
        refine List.any_eq_false.mpr fun other hmem => ?_
        simpa using hdistinct.2.2 _ (List.mem_map_of_mem hmem) _ List.mem_cons_self
      have htake : given.take function first =
          .ok { given with keywords := given.keywords ++ [argument] } := by
        simp only [Given.take, keyword?_eq_some.mpr hname]
        rw [if_neg (by simpa using hpiece), if_neg (Bool.eq_false_iff.mp hnew)]
      rw [← List.singleton_append, ← List.append_assoc] at hdistinct
      rw [List.foldlM_cons, htake, ok_bind, ih _ hnonempty hbehind hdistinct, List.append_assoc,
        List.singleton_append]

theorem Reads.take_eq_ok (h : Reads pieces given) :
    pieces.foldlM (fun (given : Given) piece => given.take function piece) {} = .ok given := by
  obtain ⟨named, hpieces, hnamed⟩ := h.order
  obtain ⟨first, behind, rfl, hfirst, hbehind⟩ := List.map_eq_append_iff.mp hpieces
  obtain ⟨hfirstNonempty, hbehindNonempty⟩ := List.forall_mem_append.mp h.nonempty
  rw [List.foldlM_append, take_positionals {} rfl hfirstNonempty hfirst h.unnamed, ok_bind]
  refine (take_keywords _ hbehindNonempty hbehind hnamed ?_).trans ?_
  · exact h.distinct
  · rfl

/-- The arguments of a call are read exactly as they are written. -/
theorem readGiven_eq_ok {raw : Option String} {stack : List String} :
    readGiven function raw stack = .ok given ↔ Gives stack raw given := by
  constructor
  · intro h
    unfold readGiven at h
    split at h
    · cases h
      exact .absent
    · split at h
      · next hblank =>
        cases h
        exact .blank hblank
      · next hblank =>
        obtain ⟨pieces, hsplit, h⟩ := bind_eq_ok h
        exact .pieces (Bool.eq_false_iff.mpr hblank) hsplit (reads_of_take h)
  · rintro (_ | hblank | ⟨htext, hsplit, hreads⟩)
    · rfl
    · rw [readGiven, if_pos hblank]
      rfl
    · rw [readGiven, if_neg (Bool.eq_false_iff.mp htext), hsplit, ok_bind, hreads.take_eq_ok]

theorem Gives.unique {raw : Option String} {stack : List String} {other : Given}
    (h : Gives stack raw given) (hother : Gives stack raw other) : given = other := by
  have hread : readGiven "" raw stack = .ok given := readGiven_eq_ok.mpr h
  exact Except.ok.inj (hread.symm.trans (readGiven_eq_ok.mpr hother))

end

end Binding

end Parkour.Language
