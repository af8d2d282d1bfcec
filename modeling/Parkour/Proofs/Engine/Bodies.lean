import Parkour.Engine.Session
import Parkour.Proofs.Binding.Provenance
import Parkour.Proofs.Binding.Reading
import Parkour.Proofs.Binding.Typing
import Parkour.Proofs.Engine.Bound
import Parkour.Proofs.Engine.Deed
import Parkour.Proofs.Engine.Invariant
import Parkour.Proofs.Sequence.Comments

/-!
# Texts that are prepared twice

A sequence that a call opens is prepared again, though it is part of a prepared text. There it
stands in the brackets of the call, with every hash in it escaped. So no character of it is
lost, and only the bars that stand outside its own brackets are written out. The body of a
function and the texts that its parameters have by default are parts of a prepared text as well,
the one with its definition.
-/

namespace Parkour.Language

open Sequence (Nested Stands escapedAfter nested_of_plain openAfter)

/-! ## Texts in brackets -/

/-- A text stands in brackets of another one, and its first character is not escaped there. -/
def Enclosed (body whole : List Char) : Prop :=
  ∃ before after, whole = before ++ (body ++ after) ∧ escapedAfter false before = false ∧
    openAfter [] false before ≠ []

section

variable {body text whole first rest : List Char}

/-- What stands behind nested characters of an enclosed text is enclosed. -/
theorem Enclosed.inner (h : Enclosed text whole) (htext : text = first ++ (body ++ rest))
    (hfirst : Nested first) : Enclosed body whole := by
  obtain ⟨before, after, rfl, hescaped, hopen⟩ := h
  obtain ⟨hopen', hescaped'⟩ := hfirst.closed (openAfter [] false before)
  refine ⟨before ++ first, rest ++ after, ?_, ?_, ?_⟩
  · simp [htext]
  · rw [Sequence.escapedAfter_append, hescaped, hescaped']
  · rwa [Sequence.openAfter_append, hescaped, hopen']

/-- Without the blanks around it, an enclosed text is enclosed. -/
theorem Enclosed.trim {text : String} (h : Enclosed text.toList whole) :
    Enclosed (Text.trim text).toList whole := by
  obtain ⟨lead, trail, hlead, -, htext⟩ := Sequence.exists_trimmed text.toList
  rw [Text.toList_trim]
  exact h.inner htext hlead.nested

theorem Enclosed.stands (h : Enclosed body whole) : Stands body whole := by
  obtain ⟨before, after, hwhole, hescaped, -⟩ := h
  exact ⟨before, after, hwhole, hescaped⟩

end

/-! ## Arguments of a call -/

/-- What stands before the arguments of a command does not escape them. -/
theorem Command.escapedAfter_front {command : Command} (h : command.WellFormed) :
    escapedAfter false command.front.toList = false := by
  let head : Written := ⟨command.reverse, command.name, command.keys, none, none⟩
  have hhead : head.WellFormed := ⟨h.name, h.keys, nofun, nofun, nofun⟩
  have hplain : Nested head.head :=
    nested_of_plain fun c hc => (Written.plain_head hhead c hc).1
  have hfront : command.front.toList =
      head.head ++ marked '[' [']'] (command.modifiers.map String.toList) := by
    simp only [toList_front, Written.head, head, List.append_assoc]
  rw [hfront]
  cases command.modifiers with
  | none => simpa [marked] using (hplain.closed []).2
  | some text => simp [marked, Sequence.escapedAfter_append, escapedAfter]

variable {stack tokens : List String} {token : String} {whole inner : String}

/-- The arguments of a call stand in its parentheses. -/
theorem enclosed_arguments {command : Command}
    (hsplit : Sequence.split .calls stack whole = .ok tokens) (htoken : token ∈ tokens)
    (hcommand : Command.parse stack token = .ok command)
    (harguments : command.arguments = some inner) : Enclosed inner.toList whole.toList := by
  obtain ⟨before, after, hwhole, hbefore⟩ := Sequence.exists_place_of_split hsplit htoken
  obtain ⟨hwell, rfl, -⟩ := Command.parse_eq_ok.mp hcommand
  obtain ⟨hopen, hescaped⟩ := hbefore.closed []
  have hfront := Command.escapedAfter_front hwell
  refine ⟨before ++ (command.front.toList ++ ['(']), ')' :: after, ?_, ?_, ?_⟩
  · rw [hwhole, Command.toList_print_front, harguments]
    simp [marked]
  · simp [Sequence.escapedAfter_append, hescaped, hfront, escapedAfter]
  · rw [Sequence.openAfter_append, hopen, hescaped, Sequence.openAfter_append, hfront]
    exact List.cons_ne_nil _ _

theorem exists_of_forall₂ {α β : Type} {R : α → β → Prop} {as : List α} {bs : List β}
    (h : List.Forall₂ R as bs) : ∀ b ∈ bs, ∃ a ∈ as, R a b := by
  induction h with
  | nil => exact List.forall_mem_nil _
  | @cons a b as bs hab _ ih =>
      refine List.forall_mem_cons.mpr ⟨⟨a, List.mem_cons_self, hab⟩, fun c hc => ?_⟩
      obtain ⟨d, hd, hdc⟩ := ih c hc
      exact ⟨d, List.mem_cons_of_mem a hd, hdc⟩

/-- What an argument has behind its name is enclosed where the argument is. -/
theorem Enclosed.named {piece name text : String} {whole : List Char}
    (h : Enclosed piece.toList whole) (hname : Named piece name text) :
    Enclosed text.toList whole := by
  obtain ⟨hidentifier, blanks, value, hblanks, -, hpiece, rfl⟩ := hname
  have hplain : Nested name.toList := nested_of_plain fun c hc =>
    (@Written.plain_of_isNamePart .calls c (Text.isNamePart_of_isIdentifier hidentifier c hc)).1
  have hequals : Nested ['='] := nested_of_plain fun c hc => by
    rw [List.mem_singleton.mp hc]
    exact ⟨rfl, rfl, by decide⟩
  have hbefore := hplain.append ((Sequence.Blank.nested hblanks).append hequals)
  have htext : piece.toList =
      (name.toList ++ (blanks ++ ['='])) ++ ((String.ofList value).toList ++ []) := by
    simp [hpiece]
  exact Enclosed.trim (h.inner htext hbefore)

/-- All the texts that a call is given are enclosed where its arguments are. -/
theorem enclosed_of_gives {given : Binding.Given} {whole : List Char}
    (h : Enclosed inner.toList whole) (hgives : Binding.Gives stack (some inner) given) :
    (∀ text ∈ given.positionals, Enclosed text.toList whole) ∧
      ∀ pair ∈ given.keywords, Enclosed pair.2.toList whole := by
  cases hgives with
  | blank _ => exact ⟨List.forall_mem_nil _, List.forall_mem_nil _⟩
  | @pieces _ pieces _ _ hsplit hreads =>
      obtain ⟨named, horder, hnamed⟩ := hreads.order
      have hpieces : ∀ text ∈ given.positionals ++ named, Enclosed text.toList whole := by
        rw [← horder]
        intro text htext
        obtain ⟨piece, hpiece, rfl⟩ := List.mem_map.mp htext
        obtain ⟨before, after, hinner, hbefore⟩ := Sequence.exists_place_of_split hsplit hpiece
        exact (h.inner hinner hbefore).trim
      obtain ⟨hfirst, hbehind⟩ := List.forall_mem_append.mp hpieces
      refine ⟨hfirst, fun pair hpair => ?_⟩
      obtain ⟨piece, hpiece, hname⟩ := exists_of_forall₂ hnamed pair hpair
      exact (hbehind piece hpiece).named hname

/-- A call has a text among its arguments. -/
def Call.Carries (call : Call) (body : String) : Prop :=
  (∃ name, (name, .text body) ∈ call.arguments.values) ∨ .text body ∈ call.arguments.rest

/-- The sequence that a call opens is among its arguments. -/
theorem Call.carries_of_requireText {call : Call} {name body : String}
    (h : call.arguments.requireText name = .ok body) : call.Carries body := by
  unfold Arguments.requireText Arguments.text? at h
  cases hvalue : call.arguments.get? name with
  | none =>
      rw [hvalue] at h
      cases h
  | some v =>
      rw [hvalue] at h
      cases v with
      | text content =>
          cases h
          exact .inl ⟨name, Binding.mem_values_of_get? hvalue⟩
      | _ => cases h

/-- A parameter of what is called has a text by default. -/
def Call.Presumes (call : Call) (body : String) : Prop :=
  ∃ p ∈ call.target.parameters, Binding.fallback? call.target.name p = some (.text body)

/-! ## Functions -/

/-- The texts of the catalogue are names, so there are no comments in them. -/
theorem Catalogue.commentFree : ∀ b ∈ Catalogue.all, ∀ p ∈ b.parameters, ∀ text,
    Binding.fallback? b.name p = some (.text text) → Sequence.CommentFree text := by
  have hall : ∀ b ∈ Catalogue.all, ∀ p ∈ b.parameters,
      ((Binding.fallback? b.name p).bind Value.text?).all (fun text => !text.toList.contains '#') =
        true := by
    decide +kernel
  intro b hb p hp text hdefault
  have htext := hall b hb p hp
  rw [hdefault] at htext
  exact Sequence.commentFree_of_notMem (by simpa [Value.text?] using htext)

/-- There are no comments in what a function brings along. -/
structure UserFunction.CommentFree (f : UserFunction) : Prop where
  body : Sequence.CommentFree f.body
  /-- The texts that parameters have by default. -/
  presumed : ∀ p ∈ f.parameters, ∀ text,
    Binding.fallback? f.name p = some (.text text) → Sequence.CommentFree text

end Parkour.Language

namespace Parkour.Engine

open Parkour.Language
open Parkour.Language.Sequence (CommentFree Lossless commentAfter escapedAfter)
open Player (Axis)

/-- A text among the arguments of a call is enclosed in the text with the call, or no argument
gave it. -/
theorem enclosed_of_carries {σ : Type} {w : World σ} {stack tokens : List String}
    {token whole body : String} {call : Call}
    (hsplit : Sequence.split .calls stack whole = .ok tokens) (htoken : token ∈ tokens)
    (hbind : w.bindToken stack token = .ok call) (hbody : call.Carries body) :
    call.Presumes body ∨ Enclosed body.toList whole.toList := by
  obtain ⟨command, hcommand, -, hbound⟩ := arguments_of_bindToken hbind
  have hread : ∀ text : String, Enclosed text.toList whole.toList →
      Binding.Wanted (fun _ v => ∀ body, v = .text body →
        call.Presumes body ∨ Enclosed body.toList whole.toList)
        call.target.name w.scope text := by
    rintro text henclosed p _ hvalue body rfl
    rw [Binding.text_of_coerce hvalue]
    exact .inr henclosed
  have hgiven : ∀ given,
      Binding.readGiven call.target.name command.arguments stack = .ok given →
        (∀ text ∈ given.positionals, Enclosed text.toList whole.toList) ∧
          ∀ pair ∈ given.keywords, Enclosed pair.2.toList whole.toList := by
    intro given hgiven
    have hgives := Binding.readGiven_eq_ok.mp hgiven
    cases harguments : command.arguments with
    | none =>
        rw [harguments] at hgives
        cases hgives
        exact ⟨List.forall_mem_nil _, List.forall_mem_nil _⟩
    | some inner =>
        rw [harguments] at hgives
        exact enclosed_of_gives (enclosed_arguments hsplit htoken hcommand harguments) hgives
  have hholds := Binding.bound_of_bind
    (fun given h => ⟨fun text htext => hread text ((hgiven given h).1 text htext),
      fun pair hpair => hread pair.2 ((hgiven given h).2 pair hpair)⟩)
    (fun p hp v hdefault body hv => .inl ⟨p, hp, hv ▸ hdefault⟩) hbound
  rcases hbody with ⟨name, hmem⟩ | hmem
  · obtain ⟨p, -, -, henclosed⟩ := hholds.holds name _ hmem
    exact henclosed body rfl
  · obtain ⟨p, -, -, henclosed⟩ := hholds.rest _ hmem
    exact henclosed body rfl

/-! ## Runs -/

/-- There are no comments in what the functions of a world bring along. -/
def World.CommentFree {σ : Type} (w : World σ) : Prop :=
  ∀ name f, w.functions.get? name = some f → f.CommentFree

section

variable {σ : Type} {w v : World σ}

theorem World.commentFree_of_empty (h : w.functions = ∅) : w.CommentFree := by
  rw [World.CommentFree, h]
  exact nofun

/-- No comment gets into the texts that a call carries. -/
theorem commentFree_of_carries {stack : List String} {token body : String} {call : Call}
    (h : w.CommentFree) (htoken : IsToken stack token)
    (hbind : w.bindToken stack token = .ok call) (hbody : call.Carries body) :
    CommentFree body := by
  obtain ⟨axis, text, tokens, hsplit, hmem⟩ := htoken
  rcases enclosed_of_carries hsplit hmem hbind hbody with ⟨p, hp, hdefault⟩ | henclosed
  · obtain ⟨command, -, hresolve, -⟩ := arguments_of_bindToken hbind
    cases htarget : call.target with
    | builtin b =>
        rw [htarget] at hp hdefault
        exact Catalogue.commentFree b (mem_catalogue_of_bindToken hbind htarget) p hp body hdefault
    | user f =>
        rw [htarget] at hp hdefault hresolve
        exact (h _ f (resolve_eq_user hresolve)).presumed p hp body hdefault
    | sequence name text =>
        rw [htarget] at hp
        cases hp
  · exact henclosed.stands.commentFree (Sequence.clear_prepare axis text).hashes

/-- What a definition takes over from a text without comments has none. -/
theorem commentFree_of_define {call : Call} (h : w.CommentFree)
    (hcall : ∀ body, call.Carries body → CommentFree body)
    (hv : define call.arguments w = .ok v) : v.CommentFree := by
  obtain ⟨text, body, signature, htext, hbody, hparse, -, rfl⟩ := define_eq_ok hv
  refine Dictionary.forall_insert h ⟨hcall body (Call.carries_of_requireText hbody), ?_⟩
  intro p hp default hdefault
  have hsignature := hcall text (Call.carries_of_requireText htext)
  unfold Binding.fallback? at hdefault
  split at hdefault
  · next value hvalue =>
    cases hdefault
    exact (Signature.stands_of_parse hparse p hp default hvalue).commentFree hsignature
  · split at hdefault
    · cases hdefault
    · split at hdefault
      · cases hdefault
        have hname := (Signature.shaped_of_parse hparse).1
        exact Sequence.commentFree_of_notMem (Text.notMem_of_isIdentifier hname rfl)
      · cases hdefault

/-- Functions are defined by calls of prepared texts, so they bring no comments along. -/
theorem invariant_commentFree [Audience σ] :
    Invariant (fun call => ∀ body, call.Carries body → CommentFree body)
      (World.CommentFree (σ := σ)) where
  bound h htoken hbind _ hbody := commentFree_of_carries h htoken hbind hbody
  call _ _ h := h
  arm _ h := h
  disarm _ h := h
  enter _ _ h := h
  leave _ h := h
  trial _ _ h := h
  absorb h _ := h
  steer _ _ h := h
  report _ h := h
  act {w v stack call b action} hmade _ _ h hv := by
    by_cases hdefine : action = .define
    · subst hdefine
      exact commentFree_of_define h hmade hv
    · unfold World.CommentFree
      rw [(perform_deed hv).functions hdefine]
      exact h

/-- No run lets functions with comments in. -/
theorem commentFree_run [Audience σ] (rules : Rules) (depth : Nat) (stack : List String)
    (text : String) (h : w.CommentFree) : ((frame rules depth).run stack text w).2.CommentFree := by
  have hframes := (invariant_commentFree (σ := σ)).frames (faults_any _ _) rules depth
  exact (hframes.run stack text w h).1

end

/-- Preparing a prepared text changes nothing: it has no hash outside escapes and no bar outside
escapes and brackets, and what is escaped outside comments is in it as it was. When a text that
a call of it has as an argument is prepared in turn, no character of that text is lost, and bars
that are outside brackets in it are written out: it stood in brackets before. This is also so if
the text is a default, as long as no function has comments in what it brings along, and no run
lets in one that has. -/
theorem prepare_nested (axis : Axis) (text : String) :
    (∀ other, Sequence.prepare other (Sequence.prepare axis text) = Sequence.prepare axis text) ∧
      Sequence.Clear (Sequence.prepare axis text).toList ∧
      (∀ before c after, text.toList = before ++ '\\' :: c :: after →
        commentAfter false false before = false → escapedAfter false before = false →
        escapedAfter false (Sequence.prepare axis (String.ofList before)).toList = false ∧
          ∃ rest, (Sequence.prepare axis text).toList =
            (Sequence.prepare axis (String.ofList before)).toList ++ '\\' :: c :: rest) ∧
      (∀ {σ : Type} (w : World σ) (stack tokens : List String) (token : String) (call : Call)
        (body : String),
        Sequence.split .calls stack (Sequence.prepare axis text) = .ok tokens →
        token ∈ tokens → w.bindToken stack token = .ok call → call.Carries body →
        (call.Presumes body ∨
          Enclosed body.toList (Sequence.prepare axis text).toList ∧ Lossless body) ∧
          (w.CommentFree → Lossless body)) ∧
      ∀ {σ : Type} [Audience σ] (w : World σ), (w.functions = ∅ → w.CommentFree) ∧
        (w.CommentFree → ∀ rules depth stack,
          ((frame rules depth).run stack text w).2.CommentFree) := by
  have hclear := Sequence.clear_prepare axis text
  refine ⟨fun other => hclear.prepare_eq_self other, hclear, ?_, ?_, ?_⟩
  · intro before c after htext hcomment hescaped
    exact Sequence.prepare_escape axis htext hcomment hescaped
  · intro σ w stack tokens token call body hsplit htoken hbind hbody
    constructor
    · refine (enclosed_of_carries hsplit htoken hbind hbody).imp_right fun henclosed => ?_
      have hfree : CommentFree body := henclosed.stands.commentFree hclear.hashes
      exact ⟨henclosed, hfree.lossless⟩
    · intro hw
      have hmade : IsToken stack token := ⟨axis, text, tokens, hsplit, htoken⟩
      exact (commentFree_of_carries hw hmade hbind hbody).lossless
  · intro σ _ w
    exact ⟨World.commentFree_of_empty, fun hw rules depth stack =>
      commentFree_run rules depth stack text hw⟩

/-- The body of a definition, with a comment and an escaped hash. Its bar is written out when it
runs. The default of the function is carried by a call that gives no argument. -/
theorem prepare_nested_def :
    let text := "def(glide(b: text = a | \\#), w | w #| gone# \\#) |"
    let token := "def(glide(b: text = a | \\#), w | w  \\#)"
    let body := "w | w  \\#"
    let start := (new .horizontal).world ∅
    let defined := ((frame ⟨64, false⟩ 1).run [] text start).2
    let prepared := "def(glide(b: text = a | \\#), w | w  \\#)  x(0) z(0) "
    Sequence.prepare .horizontal text = prepared ∧
      (∃ rest, (Sequence.prepare .horizontal text).toList =
        (Sequence.prepare .horizontal
          "def(glide(b: text = a | \\#), w | w #| gone# ").toList ++ '\\' :: '#' :: rest) ∧
      (∃ call, start.bindToken [] token = .ok call ∧ call.Carries body ∧
        Enclosed body.toList (Sequence.prepare .horizontal text).toList ∧
        ∃ rest, (Sequence.prepare .vertical body).toList =
          (Sequence.prepare .vertical "w ").toList ++ (" y(0) ".toList ++ rest)) ∧
      ∃ call, defined.bindToken [] "glide" = .ok call ∧ call.Carries "a | \\#" ∧
        Lossless "a | \\#" := by
  intro text token body start defined prepared
  obtain ⟨-, -, hescapes, hbodies, hruns⟩ := prepare_nested .horizontal text
  have hprepared : Sequence.prepare .horizontal text = prepared := by
    decide +kernel
  have htokens : (Sequence.split .calls [] (Sequence.prepare .horizontal text)).toOption.any
      (·.contains token) = true := by
    decide +kernel
  obtain ⟨tokens, hsplit, hcontains⟩ := exists_ok_of_any htokens
  have htoken : token ∈ tokens := List.contains_iff_mem.mp hcontains
  have htext : text.toList =
      "def(glide(b: text = a | \\#), w | w #| gone# ".toList ++ '\\' :: '#' :: ") |".toList := by
    decide +kernel
  refine ⟨hprepared, (hescapes _ _ _ htext (by decide +kernel) (by decide +kernel)).2, ?_, ?_⟩
  · have hfound : (start.bindToken [] token).toOption.any (fun call =>
        (call.arguments.requireText "body").toOption.any (· == body) &&
          call.target.parameters.all fun p => (Binding.fallback? call.target.name p).isNone) =
          true := by
      decide +kernel
    obtain ⟨call, hbind, hfound⟩ := exists_ok_of_any hfound
    rw [Bool.and_eq_true, List.all_eq_true] at hfound
    obtain ⟨hrequired, hnone⟩ := hfound
    obtain ⟨found, hrequire, hequal⟩ := exists_ok_of_any hrequired
    obtain rfl : found = body := eq_of_beq hequal
    have hcarries : call.Carries body := Call.carries_of_requireText hrequire
    refine ⟨call, hbind, hcarries, ?_⟩
    obtain ⟨p, hp, hdefault⟩ | ⟨henclosed, hlossless⟩ :=
      (hbodies start [] tokens token call body hsplit htoken hbind hcarries).1
    · have hnone := hnone p hp
      rw [hdefault] at hnone
      cases hnone
    · have hplace : body.toList = "w ".toList ++ '|' :: " w  \\#".toList := by decide +kernel
      exact ⟨henclosed, hlossless .vertical "w ".toList '|' _ hplace⟩
  · have hfound : (defined.bindToken [] "glide").toOption.any (fun call =>
        (call.arguments.requireText "b").toOption.any (· == "a | \\#")) = true := by
      decide +kernel
    obtain ⟨call, hbind, hrequired⟩ := exists_ok_of_any hfound
    obtain ⟨found, hrequire, hequal⟩ := exists_ok_of_any hrequired
    obtain rfl : found = "a | \\#" := eq_of_beq hequal
    have hcarries : call.Carries "a | \\#" := Call.carries_of_requireText hrequire
    have hfree : defined.CommentFree := (hruns start).2 ((hruns start).1 rfl) _ _ _
    have hsplit : Sequence.split .calls [] (Sequence.prepare .horizontal "glide") =
        .ok ["glide"] := by
      rfl
    obtain ⟨-, -, -, hcalls, -⟩ := prepare_nested .horizontal "glide"
    exact ⟨call, hbind, hcarries,
      (hcalls defined [] _ "glide" call _ hsplit List.mem_cons_self hbind hcarries).2 hfree⟩

end Parkour.Engine
