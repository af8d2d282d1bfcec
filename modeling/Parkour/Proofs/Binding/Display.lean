import Parkour.Proofs.Binding.Reading
import Parkour.Proofs.Binding.Shape
import Parkour.Proofs.Sequence.Printing

/-!
# Signatures as they are shown

A signature without defaults can be read back from the way in which it is shown. Slash and star
stand for kinds of parameters, so what has been read differs from what has been shown: as long
as the slash behind a row of positional parameters is still to come, they are read as
parameters that a name can fill.
-/

namespace Parkour

open Parkour.Language (takeWhile_append_of_head)

namespace Text

variable {mark : Char} {text first : String}

theorem trim_eq_self (hfirst : ∀ c ∈ text.toList.head?, isBlank c = false)
    (hlast : ∀ c ∈ text.toList.getLast?, isBlank c = false) : trim text = text := by
  have hkeep : ∀ cs : List Char, (∀ c ∈ cs.head?, isBlank c = false) →
      cs.dropWhile isBlank = cs := by
    intro cs hcs
    simpa using (takeWhile_append_of_head (List.forall_mem_nil _) hcs).2
  apply String.toList_inj.mp
  rw [toList_trim, trimmed, hkeep _ hfirst, hkeep, List.reverse_reverse]
  simpa using hlast

/-- What starts with an identifier does not start with a blank. -/
theorem not_isBlank_head (h : isIdentifier first = true) (rest : List Char) :
    ∀ c ∈ (first.toList ++ rest).head?, isBlank c = false := by
  obtain ⟨c, cs, hcs, hstart, -⟩ := exists_cons_of_isIdentifier h
  rw [hcs]
  rintro d ⟨⟩
  exact not_isBlank_of_isNamePart (isNamePart_of_isNameStart hstart)

theorem trim_identifier (h : isIdentifier text = true) : trim text = text := by
  have hblank : ∀ c ∈ text.toList, isBlank c = false := fun c hc =>
    not_isBlank_of_isNamePart (isNamePart_of_isIdentifier h c hc)
  apply trim_eq_self
  · exact fun c hc => hblank c (List.mem_of_head? hc)
  · exact fun c hc => hblank c (List.mem_of_getLast? hc)

theorem trim_blank (text : String) : trim (" " ++ text) = trim text := by
  have hblank : isBlank ' ' = true := by decide
  simp [trim, trimmed, hblank]

theorem cut?_append (h : mark ∉ first.toList) (rest : String) :
    cut? mark (first ++ String.singleton mark ++ rest) = some (first, rest) := by
  have hfirst : ∀ c ∈ first.toList, (c != mark) = true := by
    intro c hc
    exact bne_iff_ne.mpr fun heq => h (heq ▸ hc)
  have hrest : ∀ c ∈ (mark :: rest.toList).head?, (c != mark) = false := by simp
  obtain ⟨htake, hdrop⟩ := takeWhile_append_of_head hfirst hrest
  simp [cut?, htake, hdrop]

theorem cut?_eq_none (h : mark ∉ text.toList) : cut? mark text = none := by
  have hall : ∀ c ∈ text.toList, (c != mark) = true := by
    intro c hc
    exact bne_iff_ne.mpr fun heq => h (heq ▸ hc)
  have hdrop : text.toList.dropWhile (· != mark) = [] := List.dropWhile_eq_nil_iff.mpr hall
  simp [cut?, hdrop]

end Text

namespace Language

/-- A text without an equals sign gives nothing by name. -/
theorem keyword?_of_notMem {piece : String} (h : '=' ∉ piece.toList) : keyword? piece = none := by
  rw [keyword?_eq_none]
  rintro name text ⟨-, blanks, value, -, -, hpiece, -⟩
  apply h
  simp [hpiece]

/-! ## Pieces -/

namespace Parameter

/-- The parameter without its default. -/
def erased (p : Parameter) : Parameter := { p with fallback := none }

/-- The name and the type of a parameter as they are shown. -/
def declaration (p : Parameter) : String := p.name ++ ":" ++ (" " ++ p.type.name)

/-- A row of positional parameters goes on. -/
def pending (parameters : List Parameter) : Bool :=
  (parameters.head?.map fun next => decide (next.kind = .positionalOnly)).getD false

variable {p : Parameter} {parameters : List Parameter} {starred : Bool}

theorem display_eq (h : p.fallback = none) :
    p.display = (if p.kind = .variadic then "*" else "") ++ p.declaration := by
  apply String.toList_inj.mp
  simp [display, declaration, h]

theorem mem_parts {piece : String} (h : piece ∈ parts starred parameters) :
    piece = "*" ∨ piece = "/" ∨ ∃ p ∈ parameters, piece = p.display := by
  induction parameters generalizing starred with
  | nil => cases h
  | cons p rest ih =>
      simp only [parts, List.mem_append, List.mem_cons] at h
      rcases h with (hstar | hdisplay | hslash) | hrest
      · split at hstar
        · exact .inl (List.mem_singleton.mp hstar)
        · cases hstar
      · exact .inr (.inr ⟨p, List.mem_cons_self, hdisplay⟩)
      · split at hslash
        · exact .inr (.inl (List.mem_singleton.mp hslash))
        · cases hslash
      · rcases ih hrest with hstar | hslash | ⟨q, hq, hdisplay⟩
        · exact .inl hstar
        · exact .inr (.inl hslash)
        · exact .inr (.inr ⟨q, List.mem_cons_of_mem p hq, hdisplay⟩)

theorem isNamePart_typeName (type : ParameterType) :
    ∀ c ∈ type.name.toList, Text.isNamePart c = true := by
  cases type <;> exact List.all_eq_true.mp rfl

theorem mem_declaration (hname : Text.isIdentifier p.name = true) :
    ∀ c ∈ p.declaration.toList, Text.isNamePart c = true ∨ c ∈ [':', ' '] := by
  intro c hc
  simp only [declaration, String.toList_append, List.mem_append] at hc
  rcases hc with (hc | hc) | hc | hc
  · exact .inl (Text.isNamePart_of_isIdentifier hname c hc)
  · have hcolon : c = ':' := by simpa using hc
    exact .inr (by simp [hcolon])
  · have hblank : c = ' ' := by simpa using hc
    exact .inr (by simp [hblank])
  · exact .inl (isNamePart_typeName p.type c hc)

/-- Neither end of a declaration is a blank, with or without a star. -/
theorem trim_declaration (hname : Text.isIdentifier p.name = true) {star : String}
    (hstar : star = "" ∨ star = "*") :
    Text.trim (star ++ p.declaration) = star ++ p.declaration := by
  apply Text.trim_eq_self
  · rcases hstar with rfl | rfl
    · simpa [declaration] using Text.not_isBlank_head hname (':' :: ' ' :: p.type.name.toList)
    · simp
      decide
  · intro d hd
    have hne : p.type.name.toList ≠ [] := by cases p.type <;> decide
    have hlast : (star ++ p.declaration).toList.getLast? = p.type.name.toList.getLast? := by
      rw [declaration, ← String.append_assoc, ← String.append_assoc, String.toList_append,
        List.getLast?_append_of_ne_nil _ hne]
    rw [hlast] at hd
    exact Text.not_isBlank_of_isNamePart
      (isNamePart_typeName p.type d (List.mem_of_getLast? hd))

theorem trim_display (hname : Text.isIdentifier p.name = true) (hfallback : p.fallback = none) :
    Text.trim p.display = p.display := by
  rw [display_eq hfallback]
  apply trim_declaration hname
  split
  · exact .inr rfl
  · exact .inl rfl

theorem exists_not_isBlank (hfallback : ∀ p ∈ parameters, p.fallback = none) {piece : String}
    (h : piece ∈ parts starred parameters) : ∃ c ∈ piece.toList, Text.isBlank c = false := by
  rcases mem_parts h with rfl | rfl | ⟨p, hp, rfl⟩
  · exact ⟨'*', by decide, by decide⟩
  · exact ⟨'/', by decide, by decide⟩
  · refine ⟨':', ?_, by decide⟩
    rw [display_eq (hfallback p hp)]
    simp [declaration]

/-- What a shown signature has between its commas. -/
theorem mem_piece (hnames : ∀ p ∈ parameters, Text.isIdentifier p.name = true)
    (hfallback : ∀ p ∈ parameters, p.fallback = none) {piece : String}
    (h : piece ∈ parts starred parameters) :
    ∀ c ∈ piece.toList, Text.isNamePart c = true ∨ c ∈ [':', ' ', '*', '/'] := by
  intro c hc
  rcases mem_parts h with rfl | rfl | ⟨p, hp, rfl⟩
  · have hstar : c = '*' := by simpa using hc
    exact .inr (by simp [hstar])
  · have hslash : c = '/' := by simpa using hc
    exact .inr (by simp [hslash])
  · rw [display_eq (hfallback p hp), String.toList_append, List.mem_append] at hc
    rcases hc with hc | hc
    · split at hc
      · have hstar : c = '*' := by simpa using hc
        exact .inr (by simp [hstar])
      · cases hc
    · rcases mem_declaration (hnames p hp) c hc with hc | hc
      · exact .inl hc
      · exact .inr (List.mem_append_left ['*', '/'] hc)

/-- A shown piece can stand between commas, with a blank in front of it. -/
theorem isArgument_piece (hnames : ∀ p ∈ parameters, Text.isIdentifier p.name = true)
    (hfallback : ∀ p ∈ parameters, p.fallback = none) {piece : String}
    (h : piece ∈ parts starred parameters) :
    Sequence.IsArgument piece ∧ Sequence.IsArgument (" " ++ piece) := by
  have hplain : ∀ c ∈ piece.toList,
      Sequence.Plain c ∧ Sequence.Mode.isBoundary .arguments c = false := by
    intro c hc
    rcases mem_piece hnames hfallback h c hc with hpart | hmark
    · exact Written.plain_of_isNamePart hpart
    · simp only [List.mem_cons, List.not_mem_nil, or_false] at hmark
      rcases hmark with rfl | rfl | rfl | rfl <;> exact ⟨⟨rfl, rfl, by decide⟩, rfl⟩
  refine ⟨Sequence.isArgument_of_plain hplain, Sequence.isArgument_of_plain ?_⟩
  rw [String.toList_append]
  exact List.forall_mem_append.mpr ⟨by simpa using ⟨⟨rfl, rfl, by decide⟩, rfl⟩, hplain⟩

end Parameter

namespace Signature

variable {scope : Scope} {whole function : String} {p : Parameter} {shown rest : List Parameter}

/-! ## Declarations -/

/-- A positional parameter as it is read in front of the slash. -/
def loosened (p : Parameter) : Parameter :=
  if p.kind = .positionalOnly then { p with kind := .positionalOrKeyword } else p

@[simp] theorem name_loosened (p : Parameter) : (loosened p).name = p.name := by
  unfold loosened
  split <;> rfl

theorem loosened_of_ne (h : p.kind ≠ .positionalOnly) : loosened p = p := if_neg h

/-- The slash makes up for what it comes behind. -/
theorem slashed_loosened (h : p.kind = .positionalOnly) : slashed (loosened p) = p := by
  obtain ⟨name, kind, type, fallback⟩ := p
  cases h
  rfl

theorem ofName?_blank (type : ParameterType) :
    ParameterType.ofName? (" " ++ type.name) = some type := by
  cases type <;> rfl

theorem parseParameter_declaration (hname : Text.isIdentifier p.name = true)
    (hfallback : p.fallback = none) (variadic starred : Bool)
    (hkind : (loosened p).kind =
      if variadic then .variadic else if starred then .keywordOnly else .positionalOrKeyword) :
    parseParameter scope variadic starred p.declaration = .ok (loosened p) := by
  have hchars := Parameter.mem_declaration hname
  have hequals : '=' ∉ p.declaration.toList := fun h => absurd (hchars '=' h) (by decide)
  have hcolon : ':' ∉ p.name.toList := Text.notMem_of_isIdentifier hname rfl
  have hparts : declarationParts p.declaration = (p.declaration, none) := by
    rw [declarationParts, keyword?_of_notMem hequals, Text.cut?_eq_none hequals]
  have hhead : headParts p.declaration = .ok (p.name, p.type) := by
    have hcut : Text.cut? ':' p.declaration = some (p.name, " " ++ p.type.name) :=
      Text.cut?_append hcolon _
    rw [headParts, hcut]
    simp only [ofName?_blank, Text.trim_identifier hname]
  have hresult : loosened p = { p with kind := (loosened p).kind } := by
    unfold loosened
    split <;> rfl
  rw [hresult, hkind, hfallback, parseParameter, hparts]
  simp only [hhead, hname, ok_bind, Bool.not_true, Bool.false_eq_true, if_false,
    Option.isSome_none, Bool.and_false]
  rfl

theorem withoutStar_display (hname : Text.isIdentifier p.name = true)
    (hfallback : p.fallback = none) :
    withoutStar p.display = (decide (p.kind = .variadic), p.declaration) := by
  rw [Parameter.display_eq hfallback]
  by_cases hkind : p.kind = .variadic
  · have htrim : Text.trim p.declaration = p.declaration := by
      simpa using Parameter.trim_declaration hname (.inl rfl)
    simp [withoutStar, hkind, htrim]
  · obtain ⟨c, cs, hcs, hstart, -⟩ := Text.exists_cons_of_isIdentifier hname
    have hc : c ≠ '*' := by
      rintro rfl
      exact absurd hstart (by decide)
    simp [withoutStar, hkind, Parameter.declaration, hcs, hc]

/-! ## Marks and declarations, piece by piece -/

namespace Draft

variable {d : Draft}

theorem take_blank (d : Draft) (piece : String) :
    d.take scope whole function (" " ++ piece) = d.take scope whole function piece := by
  rw [take, take, Text.trim_blank]

theorem take_star (d : Draft) :
    d.take scope whole function "*" = .ok { d with starred := true } := rfl

theorem take_slash (d : Draft) :
    d.take scope whole function "/" = .ok { d with parameters := d.parameters.map slashed } := rfl

theorem take_display (hname : Text.isIdentifier p.name = true) (hfallback : p.fallback = none)
    (hnew : ∀ q ∈ d.parameters, q.name ≠ p.name)
    (hstarred : d.starred = true ↔ p.kind = .keywordOnly) :
    d.take scope whole function p.display = .ok {
      parameters := d.parameters ++ [loosened p]
      starred := d.starred || p.kind = .variadic } := by
  have hcolon : ':' ∈ p.display.toList := by
    rw [Parameter.display_eq hfallback]
    simp [Parameter.declaration]
  have htake : d.take scope whole function p.display = d.declare scope function p.display := by
    rw [take, Parameter.trim_display hname hfallback]
    split
    · next heq => simp [heq] at hcolon
    · next heq => simp [heq] at hcolon
    · next heq => simp [heq] at hcolon
    · rfl
  have hstar := withoutStar_display hname hfallback
  have hread : parseParameter scope (p.kind = .variadic) d.starred p.declaration =
      .ok (loosened p) := by
    apply parseParameter_declaration hname hfallback
    rw [loosened]
    cases hkind : p.kind <;> simp_all
  have hother : d.parameters.any (·.name = (loosened p).name) = false := by
    simpa using hnew
  have hsecond : (decide (p.kind = .variadic) && d.starred) = false := by
    cases hkind : p.kind <;> simp_all
  rw [htake, declare, hstar]
  simp only [hread, ok_bind, hother, hsecond]
  rfl

/-- Takes one piece after the other. -/
def takeAll (d : Draft) (scope : Scope) (whole function : String) (pieces : List String) :
    Except Fault Draft :=
  pieces.foldlM (fun d piece => d.take scope whole function piece) d

@[simp] theorem takeAll_nil (d : Draft) : d.takeAll scope whole function [] = .ok d := rfl

@[simp] theorem takeAll_cons (d : Draft) (piece : String) (pieces : List String) :
    d.takeAll scope whole function (piece :: pieces) =
      d.take scope whole function piece >>= fun e => e.takeAll scope whole function pieces :=
  List.foldlM_cons

theorem takeAll_append (d : Draft) (first second : List String) :
    d.takeAll scope whole function (first ++ second) =
      d.takeAll scope whole function first >>=
        fun e => e.takeAll scope whole function second :=
  List.foldlM_append

end Draft

/-! ## The marks of a row of parameters -/

/-- The parameters to come are keyword ones. -/
def closed (shown : List Parameter) : Bool := shown.any fun p => 2 ≤ p.kind.rank

/-- What has been read where `rest` is still to come. The slash behind a row of positional
parameters comes when the row ends. -/
def Draft.before (shown rest : List Parameter) : Draft where
  parameters := if Parameter.pending rest then shown.map loosened else shown
  starred := closed shown

section

variable (h : Shaped (shown ++ p :: rest))
include h

theorem rank_le_of_mem {q : Parameter} (hq : q ∈ shown) : q.kind.rank ≤ p.kind.rank :=
  (List.pairwise_append.mp h.ordered).2.2 q hq p List.mem_cons_self

theorem name_ne_of_mem {q : Parameter} (hq : q ∈ shown) : q.name ≠ p.name := by
  have hdistinct := h.distinct
  rw [List.map_append, List.nodup_append] at hdistinct
  exact hdistinct.2.2 q.name (List.mem_map_of_mem hq) p.name (by simp)

/-- Behind a variadic parameter or a keyword one there are only keyword ones. -/
theorem kind_of_closed (hclosed : closed shown = true) : p.kind = .keywordOnly := by
  obtain ⟨q, hq, hrank⟩ := List.any_eq_true.mp hclosed
  have hle := rank_le_of_mem h hq
  have hone : ¬(q.kind = .variadic ∧ p.kind = .variadic) := by
    rintro ⟨hqkind, hpkind⟩
    have hcount := h.variadic
    rw [List.countP_append, List.countP_cons_of_pos (by simpa using hpkind)] at hcount
    have hpos : 0 < shown.countP (·.kind = .variadic) :=
      List.countP_pos_iff.mpr ⟨q, hq, by simpa using hqkind⟩
    omega
  cases hpkind : p.kind <;> cases hqkind : q.kind <;> simp_all [ParameterKind.rank]

/-- A row of positional parameters goes on only behind positional ones. -/
theorem kind_of_pending (hpending : Parameter.pending rest = true) : p.kind = .positionalOnly := by
  cases rest with
  | nil => cases hpending
  | cons next rest =>
      have hnext : next.kind = .positionalOnly := by simpa [Parameter.pending] using hpending
      have hle : p.kind.rank ≤ next.kind.rank :=
        List.rel_of_pairwise_cons (List.pairwise_append.mp h.ordered).2.1 List.mem_cons_self
      cases hpkind : p.kind <;> simp_all [ParameterKind.rank]

theorem closed_append :
    closed (shown ++ [p]) = (decide (p.kind = .keywordOnly) || decide (p.kind = .variadic)) := by
  have hkind := kind_of_closed h
  cases hclosed : closed shown <;> cases hp : p.kind <;>
    simp_all [closed, ParameterKind.rank]

/-- The pieces of one parameter stand before those of the rest. -/
theorem parts_closed : Parameter.parts (closed shown) (p :: rest) =
    (if p.kind = .keywordOnly && !closed shown then ["*"] else []) ++ (p.display ::
      ((if p.kind = .positionalOnly && !Parameter.pending rest then ["/"] else []) ++
        Parameter.parts (closed (shown ++ [p])) rest)) := by
  have hflag : (closed shown || (p.kind = .keywordOnly && !closed shown) ||
      p.kind = .variadic) = closed (shown ++ [p]) := by
    have hkind := kind_of_closed h
    rw [closed_append h]
    cases hclosed : closed shown <;> simp_all
  rw [← hflag]
  simp [Parameter.parts, Parameter.pending]

/-- A star comes before the first keyword parameter, unless a variadic one did. -/
theorem takeAll_star :
    (Draft.before shown (p :: rest)).takeAll scope whole function
      (if p.kind = .keywordOnly && !closed shown then ["*"] else []) =
        .ok { parameters := (Draft.before shown (p :: rest)).parameters,
              starred := p.kind = .keywordOnly } := by
  by_cases hclosed : closed shown = true
  · have hkind := kind_of_closed h hclosed
    simp [hkind, hclosed, Draft.before]
  · by_cases hkind : p.kind = .keywordOnly
    · simp [hkind, hclosed, Draft.take_star, ok_bind]
    · simp [hkind, hclosed, Draft.before]

theorem take_before (hfallback : p.fallback = none) :
    Draft.take { parameters := (Draft.before shown (p :: rest)).parameters,
                 starred := p.kind = .keywordOnly } scope whole function p.display = .ok {
        parameters := (Draft.before shown (p :: rest)).parameters ++ [loosened p]
        starred := closed (shown ++ [p]) } := by
  have hnew : ∀ q ∈ (Draft.before shown (p :: rest)).parameters, q.name ≠ p.name := by
    intro q hq
    dsimp only [Draft.before] at hq
    split at hq
    · obtain ⟨other, hother, rfl⟩ := List.mem_map.mp hq
      rw [name_loosened]
      exact name_ne_of_mem h hother
    · exact name_ne_of_mem h hq
  have hstarred : decide (p.kind = .keywordOnly) = true ↔ p.kind = .keywordOnly :=
    decide_eq_true_iff
  rw [closed_append h]
  exact Draft.take_display (h.identifiers p (by simp)) hfallback hnew hstarred

/-- A slash comes behind the last positional parameter, and brings back the kinds of those
before it. -/
theorem takeAll_slash (starred : Bool) :
    Draft.takeAll
      { parameters := (Draft.before shown (p :: rest)).parameters ++ [loosened p], starred }
      scope whole function
      (if p.kind = .positionalOnly && !Parameter.pending rest then ["/"] else []) =
        .ok { parameters := (Draft.before (shown ++ [p]) rest).parameters, starred } := by
  by_cases hkind : p.kind = .positionalOnly
  · have hpending : Parameter.pending (p :: rest) = true := by simp [Parameter.pending, hkind]
    by_cases hrest : Parameter.pending rest = true
    · simp [hkind, hrest, hpending, Draft.before]
    · have hrow : ∀ q ∈ shown, slashed (loosened q) = q := by
        intro q hq
        have hle := rank_le_of_mem h hq
        apply slashed_loosened
        cases hq : q.kind <;> simp_all [ParameterKind.rank]
      have hback : shown.map (slashed ∘ loosened) = shown :=
        (List.map_congr_left hrow).trans (List.map_id' shown)
      simp [hkind, hrest, hpending, Draft.before, Draft.take_slash, ok_bind, hback,
        slashed_loosened hkind]
  · have hpending : Parameter.pending (p :: rest) = false := by simp [Parameter.pending, hkind]
    have hrest : Parameter.pending rest = false :=
      Bool.eq_false_iff.mpr fun hrest => hkind (kind_of_pending h hrest)
    simp [hkind, hrest, hpending, Draft.before, loosened_of_ne hkind]

end

/-- Shown parameters are read as they are. -/
theorem takeAll_parts (h : Shaped (shown ++ rest)) (hfallback : ∀ p ∈ rest, p.fallback = none) :
    (Draft.before shown rest).takeAll scope whole function (Parameter.parts (closed shown) rest) =
      .ok (Draft.before (shown ++ rest) []) := by
  induction rest generalizing shown with
  | nil => simp [Parameter.parts]
  | cons p rest ih =>
      obtain ⟨hp, hrest⟩ := List.forall_mem_cons.mp hfallback
      have hnext : Shaped (shown ++ [p] ++ rest) := by simpa using h
      rw [parts_closed h, Draft.takeAll_append, takeAll_star h, ok_bind, Draft.takeAll_cons,
        take_before h hp, ok_bind, Draft.takeAll_append, takeAll_slash h, ok_bind,
        List.append_cons shown p rest]
      exact ih hnext hrest

/-! ## Signatures -/

theorem shaped_erased {parameters : List Parameter} (h : Shaped parameters) :
    Shaped (parameters.map Parameter.erased) where
  identifiers := by simpa [Parameter.erased] using h.identifiers
  distinct := by simpa [Parameter.erased, Function.comp_def] using h.distinct
  ordered := List.pairwise_map.mpr h.ordered
  variadic := by
    rw [List.countP_map]
    exact h.variadic

/-- The pieces of a shown signature stand between commas, all but the first with a blank. -/
theorem intercalate_pieces (first : String) (pieces : List String) :
    ", ".intercalate (first :: pieces) =
      Sequence.Mode.join .arguments (first :: pieces.map (" " ++ ·)) := by
  induction pieces generalizing first with
  | nil => simp [Sequence.Mode.join]
  | cons next pieces ih =>
      have hjoin :
          Sequence.Mode.join .arguments (first :: (" " ++ next) :: pieces.map (" " ++ ·)) =
            first ++ "," ++
              (" " ++ Sequence.Mode.join .arguments (next :: pieces.map (" " ++ ·))) := by
        simp [Sequence.Mode.join, Sequence.Mode.separator]
      have hcomma : ", " = "," ++ " " := rfl
      rw [String.intercalate_cons_cons, ih, List.map_cons, hjoin, hcomma]
      simp only [String.append_assoc]

theorem takeAll_blanks (d : Draft) (pieces : List String) :
    d.takeAll scope whole function (pieces.map (" " ++ ·)) =
      d.takeAll scope whole function pieces := by
  induction pieces generalizing d with
  | nil => rfl
  | cons piece pieces ih => simp only [List.map_cons, Draft.takeAll_cons, Draft.take_blank, ih]

theorem outline_display (hname : Text.isIdentifier function = true) (inner : String) :
    Text.trim (function ++ "(" ++ inner ++ ")") = function ++ "(" ++ inner ++ ")" ∧
      outline (function ++ "(" ++ inner ++ ")") = .ok (function, inner) := by
  have hlast : (function ++ "(" ++ inner ++ ")").toList.getLast? = some ')' := by
    rw [String.toList_append, List.getLast?_append_of_ne_nil _ (by simp)]
    rfl
  constructor
  · apply Text.trim_eq_self
    · simpa using Text.not_isBlank_head hname ('(' :: (inner.toList ++ [')']))
    · rw [hlast]
      rintro c ⟨⟩
      decide
  · have hparen : '(' ∉ function.toList := Text.notMem_of_isIdentifier hname rfl
    have hcut : Text.cut? '(' (function ++ "(" ++ inner ++ ")") =
        some (function, inner ++ ")") := by
      rw [String.append_assoc]
      exact Text.cut?_append hparen _
    rw [outline, hcut]
    simp [Text.trim_identifier hname]

/-- The parameters between the parentheses of a shown signature. -/
theorem parseParameters_parts {parameters : List Parameter} (hshaped : Shaped parameters)
    (hfallback : ∀ p ∈ parameters, p.fallback = none) :
    parseParameters scope whole function (", ".intercalate (Parameter.parts false parameters)) =
      .ok parameters := by
  cases hparts : Parameter.parts false parameters with
  | nil =>
      have hnone : parameters = [] := by
        cases parameters with
        | nil => rfl
        | cons p rest => simp [Parameter.parts] at hparts
      rw [hnone]
      rfl
  | cons first pieces =>
      have hmem : ∀ piece ∈ first :: pieces, piece ∈ Parameter.parts false parameters :=
        hparts ▸ fun _ h => h
      have hargument : ∀ piece ∈ first :: pieces,
          Sequence.IsArgument piece ∧ Sequence.IsArgument (" " ++ piece) := fun piece hpiece =>
        Parameter.isArgument_piece hshaped.identifiers hfallback (hmem piece hpiece)
      have hblank : Text.isBlankText (", ".intercalate (first :: pieces)) = false := by
        obtain ⟨c, hc, hblank⟩ :=
          Parameter.exists_not_isBlank hfallback (hmem first List.mem_cons_self)
        refine List.all_eq_false.mpr ⟨c, ?_, by simp [hblank]⟩
        cases pieces <;> simp [hc]
      have hsplit : Sequence.split .arguments [function] (", ".intercalate (first :: pieces)) =
          .ok (first :: pieces.map (" " ++ ·)) := by
        rw [intercalate_pieces]
        apply Sequence.split_join_arguments (List.cons_ne_nil _ _)
        obtain ⟨hfirst, hpieces⟩ := List.forall_mem_cons.mp hargument
        exact List.forall_mem_cons.mpr
          ⟨hfirst.1, List.forall_mem_map.mpr fun piece hpiece => (hpieces piece hpiece).2⟩
      have htake : Draft.takeAll {} scope whole function (first :: pieces.map (" " ++ ·)) =
          .ok (Draft.before parameters []) := by
        have hall : Draft.takeAll {} scope whole function (first :: pieces) =
            .ok (Draft.before parameters []) := by
          have hstart : Draft.before [] parameters = {} := by simp [Draft.before, closed]
          rw [← hparts, ← hstart]
          exact takeAll_parts hshaped hfallback
        simpa only [Draft.takeAll_cons, takeAll_blanks] using hall
      rw [parseParameters, if_neg (by simp [hblank]), hsplit, ok_bind]
      change Draft.takeAll {} scope whole function _ >>= _ = _
      rw [htake]
      rfl

/-- A signature without defaults is read back, in any scope, from the way in which it is
shown. -/
theorem parse_display {s : Signature} (hname : Text.isIdentifier s.name = true)
    (hshaped : Shaped s.parameters) (hfallback : ∀ p ∈ s.parameters, p.fallback = none)
    (scope : Scope) : parse scope s.display = .ok s := by
  obtain ⟨htrim, houtline⟩ :=
    outline_display hname (", ".intercalate (Parameter.parts false s.parameters))
  unfold parse display formatSignature
  simp only [htrim, houtline, ok_bind, hname, parseParameters_parts hshaped hfallback]
  rfl

/-- Whatever scope a signature was read in, without its defaults it is read back in any other
from the way in which it is shown: the same name, and the same parameters in their order with
their kinds and types. -/
theorem parse_display_erased {scope : Scope} {text : String} {s : Signature}
    (h : parse scope text = .ok s) (other : Scope) :
    parse other (formatSignature s.name (s.parameters.map Parameter.erased)) =
      .ok { s with parameters := s.parameters.map Parameter.erased } := by
  obtain ⟨hname, hshaped⟩ := shaped_of_parse h
  have hfallback : ∀ p ∈ s.parameters.map Parameter.erased, p.fallback = none := by
    simp [Parameter.erased]
  exact parse_display (s := ⟨s.name, s.parameters.map Parameter.erased⟩) hname
    (shaped_erased hshaped) hfallback other

theorem parse_display_erased_kinds :
    parse ∅ "f(a, /, b: text, *c, d: text = no)" = .ok ⟨"f", [
      ⟨"a", .positionalOnly, .float, none⟩, ⟨"b", .positionalOrKeyword, .text, none⟩,
      ⟨"c", .variadic, .float, none⟩, ⟨"d", .keywordOnly, .text, some (.text "no")⟩]⟩ ∧
    parse ∅ "f(a: float, /, b: text, *c: float, d: text)" = .ok ⟨"f", [
      ⟨"a", .positionalOnly, .float, none⟩, ⟨"b", .positionalOrKeyword, .text, none⟩,
      ⟨"c", .variadic, .float, none⟩, ⟨"d", .keywordOnly, .text, none⟩]⟩ := by
  have hparse : parse ∅ "f(a, /, b: text, *c, d: text = no)" = .ok ⟨"f", [
      ⟨"a", .positionalOnly, .float, none⟩, ⟨"b", .positionalOrKeyword, .text, none⟩,
      ⟨"c", .variadic, .float, none⟩, ⟨"d", .keywordOnly, .text, some (.text "no")⟩]⟩ := rfl
  exact ⟨hparse, parse_display_erased hparse ∅⟩

end Signature

end Language

end Parkour
