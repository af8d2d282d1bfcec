import Parkour.Proofs.Sequence.Nested

/-!
# Splitting and joining

Splitting loses nothing of a text but the boundaries between its pieces, and the joined
pieces split into the same pieces again.
-/

namespace Parkour.Language.Sequence

variable {mode : Mode}

/-- Nothing but blanks. -/
def Blank (text : List Char) : Prop := ∀ c ∈ text, Text.isBlank c = true

/-- The tokens stand in a text in their order, with blanks between them and perhaps
around them. -/
inductive Spaced : List String → List Char → Prop where
  | none {gap : List Char} (hgap : Blank gap) : Spaced [] gap
  | one {lead trail : List Char} (token : String) (hlead : Blank lead) (htrail : Blank trail) :
      Spaced [token] (lead ++ token.toList ++ trail)
  | more {lead gap text : List Char} (token : String) {next : String} {tokens : List String}
      (hlead : Blank lead) (hgap : Blank gap) (hne : gap ≠ [])
      (h : Spaced (next :: tokens) text) :
      Spaced (token :: next :: tokens) (lead ++ token.toList ++ gap ++ text)

/-- What joins the pieces of a text. -/
def Mode.separator : Mode → Char
  | .calls => ' '
  | .arguments => ','

/-- The pieces with a separator between each two of them. -/
def Mode.join (mode : Mode) (pieces : List String) : String :=
  (String.singleton mode.separator).intercalate pieces

/-- How the pieces of a text stand in it. -/
def Mode.Covers (mode : Mode) (pieces : List String) (text : String) : Prop :=
  match mode with
  | .calls => (∀ piece ∈ pieces, piece ≠ "") ∧ Spaced pieces text.toList
  | .arguments => mode.join pieces = text

theorem isBoundary_separator (mode : Mode) : mode.isBoundary mode.separator = true := by
  cases mode <;> rfl

theorem blank_cons {c : Char} {text : List Char} (hc : Text.isBlank c = true)
    (h : Blank text) : Blank (c :: text) :=
  List.forall_mem_cons.mpr ⟨hc, h⟩

/-- A blank more in front. -/
theorem Spaced.cons {tokens : List String} {text : List Char} {c : Char}
    (hc : Text.isBlank c = true) (h : Spaced tokens text) : Spaced tokens (c :: text) := by
  cases h with
  | none hgap => exact .none (blank_cons hc hgap)
  | one token hlead htrail => exact .one token (blank_cons hc hlead) htrail
  | more token hlead hgap hne h => exact .more token (blank_cons hc hlead) hgap hne h

/-- A token more in front, and a blank behind it. -/
theorem Spaced.behind {tokens : List String} {text : List Char} {c : Char} (token : String)
    (hc : Text.isBlank c = true) (h : Spaced tokens text) :
    Spaced (token :: tokens) (token.toList ++ c :: text) := by
  have hnone : Blank [] := by simp [Blank]
  cases tokens with
  | nil =>
      cases h with
      | none hgap => exact .one token hnone (blank_cons hc hgap)
  | cons next tokens =>
      have hgap : Blank [c] := by simpa [Blank] using hc
      simpa using Spaced.more token hnone hgap (List.cons_ne_nil c []) h

@[simp] theorem kept_nil (mode : Mode) : mode.kept [] = [] := rfl

/-- An empty text is left out of a sequence; any other text is kept. -/
theorem kept_cons_cases (mode : Mode) (text : List Char) (raw : List (List Char)) :
    (mode = .calls ∧ text = [] ∧ mode.kept (text :: raw) = mode.kept raw) ∨
      ((mode = .calls → text ≠ []) ∧
        mode.kept (text :: raw) = String.ofList text :: mode.kept raw) := by
  cases mode with
  | calls =>
      cases text with
      | nil => exact .inl ⟨rfl, rfl, rfl⟩
      | cons c text => exact .inr ⟨fun _ => List.cons_ne_nil c text, rfl⟩
  | arguments => exact .inr ⟨nofun, rfl⟩

theorem mem_kept {raw : List (List Char)} {piece : String} (h : piece ∈ mode.kept raw) :
    piece.toList ∈ raw ∧ (mode = .calls → piece ≠ "") := by
  obtain ⟨part, hpart, rfl⟩ := List.mem_map.mp h
  obtain ⟨hraw, hkept⟩ := List.mem_filter.mp hpart
  refine ⟨by simpa using hraw, ?_⟩
  rintro rfl
  simpa using hkept

/-- A piece that is read whole splits into itself alone. -/
theorem splitFrom_piece {piece : String} (h : Whole mode piece.toList)
    (hne : mode = .calls → piece ≠ "") :
    splitFrom mode 0 [] false [] piece.toList = .ok [piece] := by
  rw [(Cuts.last h).splitFrom_eq]
  rcases kept_cons_cases mode piece.toList [] with ⟨hmode, hempty, -⟩ | ⟨-, hkept⟩
  · exact absurd (String.toList_eq_nil_iff.mp hempty) (hne hmode)
  · rw [hkept, kept_nil, String.ofList_toList]

theorem join_singleton (mode : Mode) (piece : String) : mode.join [piece] = piece :=
  String.intercalate_singleton

theorem toList_join_cons (mode : Mode) (piece : String) {pieces : List String}
    (h : pieces ≠ []) :
    (mode.join (piece :: pieces)).toList =
      piece.toList ++ mode.separator :: (mode.join pieces).toList := by
  simp [Mode.join, List.intercalate_cons_of_ne_nil, h]

namespace Cuts

variable {text : List Char} {raw : List (List Char)}

theorem whole (h : Cuts mode text raw) : ∀ part ∈ raw, Whole mode part := by
  induction h with
  | last h => simpa using h
  | cut h _ _ _ ih => exact List.forall_mem_cons.mpr ⟨h, ih⟩

/-- The tokens of a sequence stand between blanks. -/
theorem spaced (h : Cuts .calls text raw) : Spaced (Mode.kept .calls raw) text := by
  have hnone : Blank [] := by simp [Blank]
  induction h with
  | @last text h =>
      rcases kept_cons_cases .calls text [] with ⟨-, rfl, hkept⟩ | ⟨-, hkept⟩
      · rw [hkept]
        exact .none hnone
      · rw [hkept]
        simpa using Spaced.one (String.ofList text) hnone hnone
  | @cut text rest sep raw _ _ hsep _ ih =>
      rcases kept_cons_cases .calls text raw with ⟨-, rfl, hkept⟩ | ⟨-, hkept⟩
      · rw [hkept]
        exact ih.cons hsep
      · rw [hkept]
        simpa using ih.behind (String.ofList text) hsep

theorem ne_nil (h : Cuts mode text raw) : raw ≠ [] := by
  cases h <;> exact List.cons_ne_nil _ _

/-- The arguments with commas between them are the text. -/
theorem join_arguments (h : Cuts .arguments text raw) :
    (Mode.join .arguments (Mode.kept .arguments raw)).toList = text := by
  induction h with
  | @last text h => simp [Mode.kept, join_singleton]
  | @cut text rest sep raw _ _ hsep hrest ih =>
      have hcomma : sep = ',' := by simpa [Mode.isBoundary] using hsep
      have hne : Mode.kept .arguments raw ≠ [] := by
        obtain ⟨part, others, rfl⟩ := List.exists_cons_of_ne_nil hrest.ne_nil
        exact List.cons_ne_nil _ _
      rcases kept_cons_cases .arguments text raw with ⟨hmode, -⟩ | ⟨-, hkept⟩
      · cases hmode
      · rw [hkept, toList_join_cons _ _ hne, ih, String.toList_ofList, hcomma]
        rfl

/-- The joined pieces are cut into the same pieces. -/
theorem join (h : Cuts mode text raw) :
    ∃ raw', Cuts mode (mode.join (mode.kept raw)).toList raw' ∧
      mode.kept raw' = mode.kept raw := by
  induction h with
  | @last text h =>
      rcases kept_cons_cases mode text [] with ⟨rfl, rfl, hkept⟩ | ⟨-, hkept⟩
      · exact ⟨[[]], .last rfl, rfl⟩
      · refine ⟨[text], ?_, rfl⟩
        rw [hkept, kept_nil, join_singleton, String.toList_ofList]
        exact .last h
  | @cut text rest sep raw h hescaped _ _ ih =>
      obtain ⟨raw', hcuts, hsame⟩ := ih
      rcases kept_cons_cases mode text raw with ⟨rfl, rfl, hkept⟩ | ⟨hne, hkept⟩
      · rw [hkept]
        exact ⟨raw', hcuts, hsame⟩
      · rw [hkept]
        by_cases hlast : mode.kept raw = []
        · refine ⟨[text], ?_, ?_⟩
          · rw [hlast, join_singleton, String.toList_ofList]
            exact .last h
          · rw [← hkept, kept_cons, kept_cons, hlast, kept_nil]
        · refine ⟨text :: raw', ?_, ?_⟩
          · rw [toList_join_cons mode _ hlast, String.toList_ofList]
            exact .cut h hescaped (isBoundary_separator mode) hcuts
          · rw [kept_cons, hsame, ← kept_cons, hkept]

end Cuts

/-! ## Texts that are put together -/

/-- Brackets match in the joined arguments if they do in each of them. -/
theorem nested_join {pieces : List String} (h : ∀ piece ∈ pieces, Nested piece.toList) :
    Nested (Mode.join .arguments pieces).toList := by
  induction pieces with
  | nil => exact .nil
  | cons piece pieces ih =>
      obtain ⟨hpiece, hpieces⟩ := List.forall_mem_cons.mp h
      by_cases hlast : pieces = []
      · rwa [hlast, join_singleton]
      · rw [toList_join_cons _ _ hlast]
        have hseparator := plain_of_isBoundary (isBoundary_separator .arguments)
        exact hpiece.append (.plain hseparator (ih hpieces))

/-- Every argument is kept. -/
theorem kept_arguments (pieces : List String) :
    Mode.kept .arguments (pieces.map String.toList) = pieces := by
  have hall : (pieces.map String.toList).filter
      (fun text => Mode.arguments = .arguments || !text.isEmpty) =
        pieces.map String.toList := List.filter_eq_self.mpr fun _ _ => rfl
  rw [Mode.kept, hall, List.map_map]
  simp [Function.comp_def]

/-- A text that can stand between commas: its brackets match, no backslash stands at its
end, and no comma stands unescaped and outside brackets. -/
structure IsArgument (piece : String) : Prop where
  nested : Nested piece.toList
  uncut : Uncut .arguments [] false piece.toList

theorem isArgument_of_plain {piece : String}
    (h : ∀ c ∈ piece.toList, Plain c ∧ Mode.isBoundary .arguments c = false) :
    IsArgument piece := by
  constructor
  · exact nested_of_plain fun c hc => (h c hc).1
  · intro before c after heq _ _
    exact (h c (by simp [heq])).2

/-- Arguments are found again between the commas. -/
theorem split_join_arguments {pieces : List String} (hne : pieces ≠ [])
    (h : ∀ piece ∈ pieces, IsArgument piece) (stack : List String) :
    split .arguments stack (Mode.join .arguments pieces) = .ok pieces := by
  have hcuts : Cuts .arguments (Mode.join .arguments pieces).toList
      (pieces.map String.toList) := by
    induction pieces with
    | nil => exact absurd rfl hne
    | cons piece pieces ih =>
        obtain ⟨hpiece, hpieces⟩ := List.forall_mem_cons.mp h
        have hwhole : Whole .arguments piece.toList :=
          whole_of_taken (hpiece.nested.taken_argument hpiece.uncut [])
        by_cases hlast : pieces = []
        · rw [hlast, join_singleton]
          exact .last hwhole
        · rw [toList_join_cons _ _ hlast]
          exact .cut hwhole (hpiece.nested.closed []).2 rfl (ih hlast hpieces)
  rw [split_eq_ok_iff, hcuts.splitFrom_eq, kept_arguments]

theorem uncut_of_splitFrom {text : List Char} {pieces : List String}
    (h : splitFrom mode 0 [] false [] text = .ok pieces) :
    ∀ piece ∈ pieces, Uncut mode [] false piece.toList := by
  obtain ⟨raw, -, huncut, rfl⟩ := exists_cuts h
  exact fun piece hpiece => huncut _ (mem_kept hpiece).1

/-- The arguments are the texts that split into themselves alone and leave no backslash
open. -/
theorem isArgument_iff_split (stack : List String) (piece : String) :
    IsArgument piece ↔
      split .arguments stack piece = .ok [piece] ∧ escapedAfter false piece.toList = false := by
  constructor
  · intro h
    have hsplit := split_join_arguments (List.cons_ne_nil piece []) (by simpa using h) stack
    rw [join_singleton] at hsplit
    exact ⟨hsplit, (h.nested.closed []).2⟩
  · rintro ⟨hsplit, hescaped⟩
    rw [split_eq_ok_iff] at hsplit
    exact ⟨nested_of_splitFrom hsplit hescaped, uncut_of_splitFrom hsplit piece (by simp)⟩

/-- Blanks in front change nothing. -/
theorem Cuts.lead {lead text : List Char} {raw : List (List Char)} (hlead : Blank lead)
    (h : Cuts .calls text raw) :
    ∃ raw', Cuts .calls (lead ++ text) raw' ∧
      Mode.kept .calls raw' = Mode.kept .calls raw := by
  induction lead with
  | nil => exact ⟨raw, h, rfl⟩
  | cons c lead ih =>
      obtain ⟨hc, hlead⟩ := List.forall_mem_cons.mp hlead
      obtain ⟨raw', hraw', hsame⟩ := ih hlead
      have hempty : Whole .calls [] := rfl
      exact ⟨[] :: raw', .cut hempty rfl hc hraw', hsame⟩

/-- Nothing but blanks has no tokens. -/
theorem Blank.cuts {gap : List Char} (h : Blank gap) :
    ∃ raw, Cuts .calls gap raw ∧ Mode.kept .calls raw = [] := by
  have hempty : Whole .calls [] := rfl
  obtain ⟨raw, hraw, hsame⟩ := (Cuts.last hempty).lead h
  rw [List.append_nil] at hraw
  exact ⟨raw, hraw, hsame⟩

theorem kept_token {token : String} (hne : token ≠ "") (raw : List (List Char)) :
    Mode.kept .calls (token.toList :: raw) = token :: Mode.kept .calls raw := by
  rcases kept_cons_cases .calls token.toList raw with ⟨-, hempty, -⟩ | ⟨-, hkept⟩
  · exact absurd (String.toList_eq_nil_iff.mp hempty) hne
  · rw [hkept, String.ofList_toList]

/-- Tokens with blanks between them are found again. -/
theorem Spaced.cuts {tokens : List String} {text : List Char} (h : Spaced tokens text)
    (htokens : ∀ token ∈ tokens, Whole .calls token.toList ∧
      escapedAfter false token.toList = false ∧ token ≠ "") :
    ∃ raw, Cuts .calls text raw ∧ Mode.kept .calls raw = tokens := by
  induction h with
  | none hgap => exact hgap.cuts
  | @one lead trail token hlead htrail =>
      obtain ⟨⟨hwhole, hescaped, hne⟩, -⟩ := List.forall_mem_cons.mp htokens
      rw [List.append_assoc]
      cases trail with
      | nil =>
          rw [List.append_nil]
          obtain ⟨raw, hraw, hsame⟩ := (Cuts.last hwhole).lead hlead
          exact ⟨raw, hraw, hsame.trans (kept_token hne [])⟩
      | cons c trail =>
          obtain ⟨hc, htrail⟩ := List.forall_mem_cons.mp htrail
          obtain ⟨raw, hraw, hnone⟩ := Blank.cuts htrail
          obtain ⟨raw', hraw', hsame⟩ := (Cuts.cut hwhole hescaped hc hraw).lead hlead
          exact ⟨raw', hraw', by rw [hsame, kept_token hne, hnone]⟩
  | @more lead gap text token next tokens hlead hgap hgapNe _ ih =>
      obtain ⟨⟨hwhole, hescaped, hne⟩, hothers⟩ := List.forall_mem_cons.mp htokens
      obtain ⟨c, gap, rfl⟩ := List.exists_cons_of_ne_nil hgapNe
      obtain ⟨hc, hgap⟩ := List.forall_mem_cons.mp hgap
      obtain ⟨raw, hraw, htail⟩ := ih hothers
      obtain ⟨rest, hrest, hsame⟩ := hraw.lead hgap
      obtain ⟨raw', hraw', hsame'⟩ := (Cuts.cut hwhole hescaped hc hrest).lead hlead
      refine ⟨raw', ?_, ?_⟩
      · simpa using hraw'
      · rw [hsame', kept_token hne, hsame, htail]

theorem split_spaced {stack tokens : List String} {text : String}
    (h : Spaced tokens text.toList)
    (htokens : ∀ token ∈ tokens, Whole .calls token.toList ∧
      escapedAfter false token.toList = false ∧ token ≠ "") :
    split .calls stack text = .ok tokens := by
  obtain ⟨raw, hcuts, rfl⟩ := h.cuts htokens
  exact split_eq_ok_iff.mpr hcuts.splitFrom_eq

/-! ## Splitting loses nothing -/

/-- The pieces of a text are the text but for the boundaries between them, and no
boundary is left in a piece outside its brackets. Joined, they split into the same pieces
again, and each one splits into itself alone. -/
theorem split_lossless (mode : Mode) (stack : List String) (text : String)
    (pieces : List String) (h : split mode stack text = .ok pieces) :
    mode.Covers pieces text ∧ (∀ piece ∈ pieces, Uncut mode [] false piece.toList) ∧
      split mode stack (mode.join pieces) = .ok pieces ∧
      ∀ piece ∈ pieces, split mode stack piece = .ok [piece] := by
  simp only [split_eq_ok_iff] at h ⊢
  have huncut := uncut_of_splitFrom h
  obtain ⟨raw, hcuts, -, rfl⟩ := exists_cuts h
  obtain ⟨raw', hjoined, hsame⟩ := hcuts.join
  refine ⟨?_, huncut, ?_, ?_⟩
  · cases mode with
    | calls => exact ⟨fun piece hpiece => (mem_kept hpiece).2 rfl, hcuts.spaced⟩
    | arguments => exact String.toList_inj.mp hcuts.join_arguments
  · rw [hjoined.splitFrom_eq, hsame]
  · intro piece hpiece
    obtain ⟨hmem, hne⟩ := mem_kept hpiece
    exact splitFrom_piece (hcuts.whole _ hmem) hne

theorem split_lossless_escapes :
    split .calls [] " \n f(g[1 2], \\) a)\ts\\ (3)  x\\" =
        .ok ["f(g[1 2], \\) a)", "s\\ (3)", "x\\"] ∧
      split .calls [] (Mode.join .calls ["f(g[1 2], \\) a)", "s\\ (3)", "x\\"]) =
        .ok ["f(g[1 2], \\) a)", "s\\ (3)", "x\\"] := by
  have h : split .calls [] " \n f(g[1 2], \\) a)\ts\\ (3)  x\\" =
      .ok ["f(g[1 2], \\) a)", "s\\ (3)", "x\\"] := rfl
  exact ⟨h, (split_lossless .calls [] _ _ h).2.2.1⟩

end Parkour.Language.Sequence
