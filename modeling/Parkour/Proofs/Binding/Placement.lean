import Parkour.Proofs.Binding.Reading
import Parkour.Proofs.Binding.Typing

/-!
# Places of arguments

Binding is described without its passes. A signature says which parameter each argument
fills, and a call is bound exactly if every argument has a parameter that accepts it and
every parameter without an argument has a default.
-/

namespace Parkour.Language.Binding

/-! ## The rule -/

/-- The arguments without names, each with the parameter whose place it has. -/
def placed (parameters : List Parameter) (given : Given) : List (Parameter × String) :=
  (parameters.filter Parameter.isPositional).zip given.positionals

/-- The arguments without names for which there is no place. -/
def surplus (parameters : List Parameter) (given : Given) : List String :=
  given.positionals.drop (parameters.countP Parameter.isPositional)

/-- The parameter that takes the surplus. -/
def variadic? (parameters : List Parameter) : Option Parameter :=
  parameters.find? (·.kind = .variadic)

/-- An argument can name the parameter. -/
def Nameable (p : Parameter) : Prop :=
  p.kind = .positionalOrKeyword ∨ p.kind = .keywordOnly

/-- The text that a parameter is given, by its place or by its name. -/
inductive Assigned (parameters : List Parameter) (given : Given) (p : Parameter) :
    String → Prop where
  | place {text : String} (h : (p, text) ∈ placed parameters given) :
      Assigned parameters given p text
  | name {text : String} (hp : Nameable p) (h : (p.name, text) ∈ given.keywords) :
      Assigned parameters given p text

/-- The value that a parameter has without an argument. -/
inductive Implied (function : String) (p : Parameter) : Value → Prop where
  | fallback {v : Value} (h : p.fallback = some v) : Implied function p v
  | duration (h : p.fallback = none) (hname : p.name = durationName) :
      Implied function p (.int 1)
  | label (h : p.fallback = none) (hname : p.name = labelName) :
      Implied function p (.text function)

/-- The arguments that parameters accept. -/
structure Accepted (function : String) (parameters : List Parameter) (scope : Scope)
    (given : Given) : Prop where
  room : given.positionals.length ≤ parameters.countP Parameter.isPositional ∨
    ∃ p ∈ parameters, p.kind = .variadic
  named : ∀ argument ∈ given.keywords, ∃ p ∈ parameters, p.name = argument.1 ∧ Nameable p ∧
    ∀ text, (p, text) ∉ placed parameters given
  assigned : ∀ p ∈ parameters, ∀ text, Assigned parameters given p text →
    ∃ v, coerce function p text scope = .ok v
  surplus : ∀ p ∈ variadic? parameters, ∀ text ∈ surplus parameters given,
    ∃ v, coerce function p text scope = .ok v
  others : ∀ p ∈ parameters, p.kind ≠ .variadic →
    (∀ text, ¬Assigned parameters given p text) →
      p.fallback.isSome = true ∨ p.name = durationName ∨ p.name = labelName

/-- Where the arguments of a call come to stand. -/
structure Placed (function : String) (parameters : List Parameter) (scope : Scope)
    (given : Given) (arguments : Arguments) : Prop where
  names : arguments.values.map Prod.fst =
    (parameters.filter (·.kind ≠ .variadic)).map Parameter.name
  assigned : ∀ p ∈ parameters, ∀ text, Assigned parameters given p text →
    ∃ v, coerce function p text scope = .ok v ∧ arguments.get? p.name = some v
  surplus : List.Forall₂
    (fun text v => ∃ p ∈ variadic? parameters, coerce function p text scope = .ok v)
    (surplus parameters given) arguments.rest
  others : ∀ p ∈ parameters, p.kind ≠ .variadic →
    (∀ text, ¬Assigned parameters given p text) →
      ∃ v, Implied function p v ∧ arguments.get? p.name = some v

section

variable {function name text : String} {scope : Scope} {parameters : List Parameter}
  {given : Given} {p : Parameter} {slots filled : List Slot} {v : Value}

theorem Assigned.kind_ne_variadic (h : Assigned parameters given p text) :
    p.kind ≠ .variadic := by
  intro hkind
  cases h with
  | place h =>
      have hplace := List.of_mem_filter (List.of_mem_zip h).1
      simp [Parameter.isPositional, hkind] at hplace
  | name hp h => simp [Nameable, hkind] at hp

theorem assigned_concat {argument : String × String} :
    Assigned parameters { given with keywords := given.keywords ++ [argument] } p text ↔
      Assigned parameters given p text ∨ (Nameable p ∧ (p.name, text) = argument) := by
  constructor
  · rintro (h | ⟨hp, h⟩)
    · exact .inl (.place h)
    · rcases List.mem_append.mp h with h | h
      · exact .inl (.name hp h)
      · exact .inr ⟨hp, List.mem_singleton.mp h⟩
  · rintro ((h | ⟨hp, h⟩) | ⟨hp, rfl⟩)
    · exact .place h
    · exact .name hp (List.mem_append_left _ h)
    · exact .name hp (List.mem_append_right _ List.mem_cons_self)

theorem fallback?_eq_some : fallback? function p = some v ↔ Implied function p v := by
  unfold fallback?
  constructor
  · intro h
    split at h
    · next hp => exact .fallback (h ▸ hp)
    · next hp =>
      split at h
      · next hname =>
        cases h
        exact .duration hp hname
      · split at h
        · next hname =>
          cases h
          exact .label hp hname
        · cases h
  · rintro (h | ⟨h, hname⟩ | ⟨h, hname⟩)
    · rw [h]
    · simp [h, hname]
    · simp [h, hname, labelName, durationName]

theorem isSome_fallback? : (fallback? function p).isSome = true ↔
    p.fallback.isSome = true ∨ p.name = durationName ∨ p.name = labelName := by
  unfold fallback?
  cases hp : p.fallback with
  | some v => simp
  | none =>
      by_cases hduration : p.name = durationName
      · simp [hduration]
      · by_cases hlabel : p.name = labelName
        · simp [hlabel, labelName, durationName]
        · simp [hduration, hlabel]

/-! ## Slots -/

/-- A slot has what it is given, and nothing if it is given nothing. -/
structure Slot.Takes (function : String) (scope : Scope)
    (assigned : Parameter → String → Prop) (slot : Slot) : Prop where
  filled : ∀ text, assigned slot.parameter text →
    ∃ v, coerce function slot.parameter text scope = .ok v ∧ slot.value = some v
  empty : (∀ text, ¬assigned slot.parameter text) → slot.value = none

theorem Slot.Takes.congr {R S : Parameter → String → Prop} {slot : Slot}
    (h : slot.Takes function scope R)
    (hiff : ∀ text, R slot.parameter text ↔ S slot.parameter text) :
    slot.Takes function scope S where
  filled text hs := h.filled text ((hiff text).mpr hs)
  empty hs := h.empty fun text hr => hs text ((hiff text).mp hr)

/-- Where nothing is given, nothing is taken. -/
theorem Slot.Takes.ofEmpty {R : Parameter → String → Prop} (h : ∀ text, ¬R p text) :
    Slot.Takes function scope R { parameter := p } where
  filled text hr := absurd hr (h text)
  empty _ := rfl

/-- The first of several arguments is taken, if no other one is for the same parameter. -/
theorem Slot.Takes.ofFirst {pairs : List (Parameter × String)}
    (hv : coerce function p text scope = .ok v) (hpairs : ∀ other, (p, other) ∉ pairs) :
    Slot.Takes function scope (fun q t => (q, t) ∈ (p, text) :: pairs)
      { parameter := p, value := some v } where
  filled other hother := by
    rcases List.mem_cons.mp hother with hother | hother
    · cases hother
      exact ⟨v, hv, rfl⟩
    · exact absurd hother (hpairs other)
  empty hnone := absurd List.mem_cons_self (hnone text)

/-! ## Places -/

/-- The parameters take the arguments that have their places. The names of the parameters
are different, so no parameter is among those that come behind it. -/
theorem takes_of_fillPositionals {texts left : List String}
    (hnames : (parameters.map Parameter.name).Nodup)
    (h : fillPositionals function scope parameters texts = .ok (slots, left)) :
    (∀ slot ∈ slots, slot.Takes function scope fun p text =>
      (p, text) ∈ (parameters.filter Parameter.isPositional).zip texts) ∧
    left = texts.drop (parameters.countP Parameter.isPositional) := by
  induction parameters generalizing texts slots left with
  | nil =>
      cases h
      exact ⟨List.forall_mem_nil _, rfl⟩
  | cons p rest ih =>
      rw [List.map_cons, List.nodup_cons] at hnames
      have hbehind : p ∉ rest := fun hmem => hnames.1 (List.mem_map_of_mem hmem)
      cases texts with
      | nil =>
          cases h
          refine ⟨fun slot hslot => ?_, List.drop_nil.symm⟩
          obtain ⟨q, -, rfl⟩ := List.mem_map.mp hslot
          exact .ofEmpty fun text => by simp
      | cons text texts =>
          unfold fillPositionals at h
          split at h
          · next hp =>
            obtain ⟨value, hvalue, h⟩ := bind_eq_ok h
            obtain ⟨⟨others, leftOver⟩, hothers, h⟩ := bind_eq_ok h
            cases h
            obtain ⟨hslots, hleft⟩ := ih hnames.2 hothers
            have hparameters := parameters_of_fillPositionals hothers
            rw [List.filter_cons_of_pos hp, List.zip_cons_cons, List.countP_cons_of_pos hp]
            refine ⟨List.forall_mem_cons.mpr ⟨.ofFirst hvalue ?_, fun slot hslot => ?_⟩, hleft⟩
            · exact fun other hother =>
                hbehind (List.mem_of_mem_filter (List.of_mem_zip hother).1)
            · refine (hslots slot hslot).congr fun other => ?_
              have hne : slot.parameter ≠ p := by
                rintro rfl
                exact hbehind (hparameters ▸ List.mem_map_of_mem hslot)
              simp [hne]
          · next hp =>
            obtain ⟨⟨others, leftOver⟩, hothers, h⟩ := bind_eq_ok h
            cases h
            obtain ⟨hslots, hleft⟩ := ih hnames.2 hothers
            rw [List.filter_cons_of_neg hp, List.countP_cons_of_neg hp]
            refine ⟨List.forall_mem_cons.mpr ⟨.ofEmpty fun other hother => ?_, hslots⟩, hleft⟩
            exact hbehind (List.mem_of_mem_filter (List.of_mem_zip hother).1)

theorem fillPositionals_eq_ok {texts : List String}
    (h : ∀ pair ∈ (parameters.filter Parameter.isPositional).zip texts,
      ∃ v, coerce function pair.1 pair.2 scope = .ok v) :
    ∃ filled, fillPositionals function scope parameters texts = .ok filled := by
  induction parameters generalizing texts with
  | nil => exact ⟨([], texts), rfl⟩
  | cons p rest ih =>
      cases texts with
      | nil => exact ⟨_, rfl⟩
      | cons text texts =>
          by_cases hp : p.isPositional
          · rw [List.filter_cons_of_pos hp, List.zip_cons_cons] at h
            obtain ⟨⟨value, hvalue⟩, hrest⟩ := List.forall_mem_cons.mp h
            obtain ⟨filled, hfilled⟩ := ih hrest
            refine ⟨({ parameter := p, value := some value } :: filled.1, filled.2), ?_⟩
            rw [fillPositionals, if_pos hp, hvalue, ok_bind, hfilled]
            rfl
          · rw [List.filter_cons_of_neg hp] at h
            obtain ⟨filled, hfilled⟩ := ih h
            refine ⟨({ parameter := p } :: filled.1, filled.2), ?_⟩
            rw [fillPositionals, if_neg hp, hfilled]
            rfl

/-- The surplus goes to the variadic parameter, text by text. -/
theorem fillRest_eq_ok {count : Nat} {texts : List String} {values : List Value} :
    fillRest function scope parameters count texts = .ok values ↔
      List.Forall₂
        (fun text v => ∃ p ∈ variadic? parameters, coerce function p text scope = .ok v)
        texts values := by
  unfold fillRest
  split
  · next hempty =>
    cases List.isEmpty_iff.mp hempty
    rw [List.forall₂_nil_left_iff]
    simp [eq_comm]
  · next hempty =>
    split
    · next p hp =>
      rw [mapM_eq_ok_iff]
      simp [variadic?, hp]
    · next hnone =>
      refine iff_of_false nofun fun h => ?_
      cases h with
      | nil => exact hempty rfl
      | cons h _ =>
          obtain ⟨p, hp, -⟩ := h
          rw [variadic?, hnone] at hp
          cases hp

/-! ## Names -/

/-- An argument with a name fills the empty slot of a parameter that can be named so. -/
theorem fillKeyword_eq_ok (hnames : (slots.map fun slot => slot.parameter.name).Nodup) :
    fillKeyword function scope name text slots = .ok filled ↔
      ∃ before slot behind v, slots = before ++ slot :: behind ∧
        filled = before ++ { slot with value := some v } :: behind ∧
        slot.parameter.name = name ∧ Nameable slot.parameter ∧ slot.value = none ∧
        coerce function slot.parameter text scope = .ok v := by
  constructor
  · intro h
    clear hnames
    induction slots generalizing filled with
    | nil => cases h
    | cons slot rest ih =>
        unfold fillKeyword at h
        split at h
        · next hslot =>
          split at h
          · cases h
          · next hkind =>
            split at h
            · cases h
            · next hvalue =>
              obtain ⟨v, hv, rfl⟩ := map_eq_ok h
              simp only [Bool.and_eq_true, decide_eq_true_eq] at hslot
              refine ⟨[], slot, rest, v, rfl, rfl, hslot.1, ?_, by simpa using hvalue, hv⟩
              cases hp : slot.parameter.kind <;> simp_all [Nameable]
        · obtain ⟨others, hothers, rfl⟩ := map_eq_ok h
          obtain ⟨before, found, behind, v, rfl, rfl, hfound⟩ := ih hothers
          exact ⟨slot :: before, found, behind, v, rfl, rfl, hfound⟩
  · rintro ⟨before, slot, behind, v, rfl, rfl, rfl, hkind, hvalue, hv⟩
    induction before with
    | nil =>
        have hvariadic : slot.parameter.kind ≠ .variadic := by
          rintro h
          simp [Nameable, h] at hkind
        have hplaced : slot.parameter.kind ≠ .positionalOnly := by
          rintro h
          simp [Nameable, h] at hkind
        simp [fillKeyword, hvariadic, hplaced, hvalue, hv, Except.map]
    | cons first before ih =>
        rw [List.cons_append, List.map_cons, List.nodup_cons] at hnames
        have hfirst : first.parameter.name ≠ slot.parameter.name := by
          intro h
          exact hnames.1 (h ▸ List.mem_map_of_mem (List.mem_append_right _ List.mem_cons_self))
        rw [List.cons_append, fillKeyword, if_neg (by simp [hfirst]), ih hnames.2]
        rfl

/-- The slots of the parameters as the arguments fill them. -/
structure Settled (function : String) (scope : Scope) (parameters : List Parameter)
    (given : Given) (slots : List Slot) : Prop where
  order : slots.map Slot.parameter = parameters
  takes : ∀ slot ∈ slots, slot.Takes function scope (Assigned parameters given)

namespace Settled

variable {argument : String × String}

theorem mem (h : Settled function scope parameters given slots) {slot : Slot}
    (hslot : slot ∈ slots) : slot.parameter ∈ parameters :=
  h.order ▸ List.mem_map_of_mem hslot

theorem names (h : Settled function scope parameters given slots)
    (hnames : (parameters.map Parameter.name).Nodup) :
    (slots.map fun slot => slot.parameter.name).Nodup := by
  rw [← h.order, List.map_map] at hnames
  exact hnames

/-- The parameters have taken the arguments that have places. -/
theorem ofPlaces {left : List String} (hnames : (parameters.map Parameter.name).Nodup)
    (h : fillPositionals function scope parameters given.positionals = .ok (slots, left)) :
    Settled function scope parameters { given with keywords := [] } slots where
  order := parameters_of_fillPositionals h
  takes slot hslot := by
    refine ((takes_of_fillPositionals hnames h).1 slot hslot).congr fun text => ?_
    refine ⟨fun hplace => .place hplace, ?_⟩
    rintro (hplace | ⟨-, hmem⟩)
    · exact hplace
    · cases hmem

/-- One more argument with a name goes to its parameter. The slots of the others stay, as
their names are different. -/
theorem keyword (h : Settled function scope parameters given slots)
    (hnames : (parameters.map Parameter.name).Nodup)
    (hfilled : fillKeyword function scope argument.1 argument.2 slots = .ok filled) :
    Settled function scope parameters
      { given with keywords := given.keywords ++ [argument] } filled := by
  obtain ⟨before, slot, behind, v, rfl, rfl, hname, hkind, hvalue, hv⟩ :=
    (fillKeyword_eq_ok (h.names hnames)).mp hfilled
  have hothers : ∀ other ∈ before ++ behind, other.parameter.name ≠ argument.1 := by
    have hslots := h.names hnames
    rw [List.map_append, List.map_cons, List.nodup_middle, List.nodup_cons,
      ← List.map_append] at hslots
    rintro other hmem hsame
    exact hslots.1 (List.mem_map.mpr ⟨other, hmem, hsame.trans hname.symm⟩)
  have htakes : ∀ other ∈ before ++ behind, other.Takes function scope (Assigned parameters
      { given with keywords := given.keywords ++ [argument] }) := by
    intro other hmem
    refine (h.takes other ?_).congr fun text => ?_
    · simp only [List.mem_append, List.mem_cons] at hmem ⊢
      exact hmem.imp_right .inr
    · rw [assigned_concat]
      refine ⟨.inl, fun hassigned => hassigned.resolve_right ?_⟩
      rintro ⟨-, rfl⟩
      exact hothers other hmem rfl
  obtain ⟨hbefore, hbehind⟩ := List.forall_mem_append.mp htakes
  refine ⟨by simpa using h.order, List.forall_mem_append.mpr ⟨hbefore, ?_⟩⟩
  refine List.forall_mem_cons.mpr ⟨⟨fun text htext => ?_, fun hnone => ?_⟩, hbehind⟩
  · rcases assigned_concat.mp htext with hassigned | ⟨-, rfl⟩
    · -- The slot was empty, so nothing had been assigned to it before.
      obtain ⟨w, -, hw⟩ := (h.takes slot (by simp)).filled text hassigned
      rw [hvalue] at hw
      cases hw
    · exact ⟨v, hv, rfl⟩
  · exact absurd (assigned_concat.mpr (.inr ⟨hkind, Prod.ext hname rfl⟩)) (hnone argument.2)

/-- All arguments with names go to their parameters, and no place had been taken. -/
theorem keywords (hnames : (parameters.map Parameter.name).Nodup)
    (h : Settled function scope parameters { given with keywords := [] } slots)
    (hfilled : given.keywords.foldlM
      (fun slots pair => fillKeyword function scope pair.1 pair.2 slots) slots = .ok filled) :
    Settled function scope parameters given filled ∧
      ∀ argument ∈ given.keywords, ∃ p ∈ parameters, p.name = argument.1 ∧ Nameable p ∧
        ∀ text, (p, text) ∉ placed parameters given := by
  obtain ⟨positionals, keywords⟩ := given
  dsimp only at h hfilled ⊢
  induction keywords using List.reverseRecOn generalizing filled with
  | nil =>
      cases hfilled
      exact ⟨h, List.forall_mem_nil _⟩
  | append_singleton keywords argument ih =>
      rw [List.foldlM_append] at hfilled
      obtain ⟨middle, hmiddle, hfilled⟩ := bind_eq_ok hfilled
      rw [List.foldlM_cons] at hfilled
      obtain ⟨last, hlast, hfilled⟩ := bind_eq_ok hfilled
      cases hfilled
      obtain ⟨hsettled, hnamed⟩ := ih hmiddle
      refine ⟨hsettled.keyword hnames hlast, List.forall_mem_append.mpr ⟨hnamed, ?_⟩⟩
      obtain ⟨before, slot, behind, v, rfl, rfl, hname, hkind, hvalue, hv⟩ :=
        (fillKeyword_eq_ok (hsettled.names hnames)).mp hlast
      have hmem : slot ∈ before ++ slot :: behind := by simp
      refine List.forall_mem_singleton.mpr ⟨_, hsettled.mem hmem, hname, hkind, ?_⟩
      intro text hplace
      obtain ⟨w, -, hw⟩ := (hsettled.takes slot hmem).filled text (.place hplace)
      rw [hvalue] at hw
      cases hw

/-- Where each name is that of a parameter of its own, all of them are filled. -/
theorem keywords_eq_ok (hnames : (parameters.map Parameter.name).Nodup)
    (h : Settled function scope parameters { given with keywords := [] } slots)
    (hdistinct : (given.keywords.map Prod.fst).Nodup)
    (hnamed : ∀ argument ∈ given.keywords, ∃ p ∈ parameters, p.name = argument.1 ∧
      Nameable p ∧ (∀ text, (p, text) ∉ placed parameters given) ∧
      ∃ v, coerce function p argument.2 scope = .ok v) :
    ∃ filled, given.keywords.foldlM
      (fun slots pair => fillKeyword function scope pair.1 pair.2 slots) slots = .ok filled := by
  obtain ⟨positionals, keywords⟩ := given
  dsimp only at h hdistinct hnamed ⊢
  induction keywords using List.reverseRecOn with
  | nil => exact ⟨slots, rfl⟩
  | append_singleton keywords argument ih =>
      rw [nodup_names_concat] at hdistinct
      obtain ⟨hothers, hlast⟩ := List.forall_mem_append.mp hnamed
      obtain ⟨middle, hmiddle⟩ := ih hdistinct.2 hothers
      obtain ⟨p, hp, hname, hkind, hfree, v, hv⟩ := List.forall_mem_singleton.mp hlast
      have hsettled : Settled function scope parameters ⟨positionals, keywords⟩ middle :=
        (h.keywords hnames hmiddle).1
      obtain ⟨slot, hslot, rfl⟩ := List.mem_map.mp (hsettled.order ▸ hp)
      have hvalue : slot.value = none := by
        refine (hsettled.takes slot hslot).empty fun text hassigned => ?_
        cases hassigned with
        | place hplace => exact hfree text hplace
        | name _ hmem => exact hdistinct.1 (hname ▸ List.mem_map_of_mem hmem)
      obtain ⟨before, behind, rfl⟩ := List.append_of_mem hslot
      refine ⟨before ++ { slot with value := some v } :: behind, ?_⟩
      have hfill := (fillKeyword_eq_ok (hsettled.names hnames)).mpr
        ⟨before, slot, behind, v, rfl, rfl, hname, hkind, hvalue, hv⟩
      rw [List.foldlM_append, hmiddle, ok_bind, List.foldlM_cons, hfill]
      rfl

end Settled

/-! ## Defaults -/

theorem checkMissing_eq_ok :
    checkMissing function slots = .ok () ↔ ∀ slot ∈ slots, slot.isMissing = false := by
  refine ⟨not_isMissing_of_checkMissing, fun h => ?_⟩
  have hnone : slots.filter Slot.isMissing = [] := by
    simpa [List.filter_eq_nil_iff] using h
  simp [checkMissing, hnone]

theorem names_valuesOf
    (h : ∀ slot ∈ slots, slot.value.isSome = true ↔ slot.parameter.kind ≠ .variadic) :
    (valuesOf slots).map Prod.fst =
      ((slots.map Slot.parameter).filter (·.kind ≠ .variadic)).map Parameter.name := by
  induction slots with
  | nil => rfl
  | cons slot rest ih =>
      obtain ⟨hslot, hrest⟩ := List.forall_mem_cons.mp h
      rw [List.map_cons]
      cases hvalue : slot.value with
      | none =>
          have hkind : slot.parameter.kind = .variadic := by simpa [hvalue] using hslot
          rw [List.filter_cons_of_neg (by simp [hkind]), ← ih hrest]
          simp [valuesOf, hvalue]
      | some v =>
          have hkind : slot.parameter.kind ≠ .variadic := by simpa [hvalue] using hslot
          rw [List.filter_cons_of_pos (by simpa using hkind), List.map_cons, ← ih hrest]
          simp [valuesOf, hvalue]

theorem lookup_valuesOf (hnames : (slots.map fun slot => slot.parameter.name).Nodup)
    {slot : Slot} (hslot : slot ∈ slots) (hvalue : slot.value = some v) :
    (valuesOf slots).lookup slot.parameter.name = some v := by
  obtain ⟨before, behind, rfl⟩ := List.append_of_mem hslot
  rw [List.map_append, List.map_cons, List.nodup_append] at hnames
  have hbefore : (valuesOf before).lookup slot.parameter.name = none := by
    rw [List.lookup_eq_none_iff]
    rintro ⟨other, w⟩ hmem
    obtain ⟨first, hfirst, -, rfl⟩ := mem_valuesOf.mp hmem
    have hne := hnames.2.2 _ (List.mem_map_of_mem hfirst) _ List.mem_cons_self
    simpa using hne.symm
  have hsplit : valuesOf (before ++ slot :: behind) =
      valuesOf before ++ (slot.parameter.name, v) :: valuesOf behind := by
    simp [valuesOf, hvalue]
  rw [hsplit, List.lookup_append, hbefore, Option.none_or, List.lookup_cons_self]

namespace Settled

variable {slot : Slot}

theorem complete_assigned (h : Settled function scope parameters given slots)
    (hslot : slot ∈ slots) (hassigned : Assigned parameters given slot.parameter text) :
    ∃ v, coerce function slot.parameter text scope = .ok v ∧
      (slot.complete function).value = some v := by
  obtain ⟨v, hv, hvalue⟩ := (h.takes slot hslot).filled text hassigned
  exact ⟨v, hv, by simp [Slot.complete, hvalue]⟩

theorem complete_unassigned (h : Settled function scope parameters given slots)
    (hslot : slot ∈ slots) (hkind : slot.parameter.kind ≠ .variadic)
    (hnone : ∀ text, ¬Assigned parameters given slot.parameter text) :
    (slot.complete function).value = fallback? function slot.parameter := by
  have hvalue := (h.takes slot hslot).empty hnone
  simp [Slot.complete, hvalue, hkind]

theorem complete_variadic (h : Settled function scope parameters given slots)
    (hslot : slot ∈ slots) (hkind : slot.parameter.kind = .variadic) :
    (slot.complete function).value = none := by
  have hvalue : slot.value = none :=
    (h.takes slot hslot).empty fun text hassigned => hassigned.kind_ne_variadic hkind
  simp [Slot.complete, hvalue, hkind]

/-- Where nothing is missing, every argument stands where it belongs. -/
theorem bound (h : Settled function scope parameters given slots)
    (hnames : (parameters.map Parameter.name).Nodup)
    (hmissing : checkMissing function (slots.map (Slot.complete function)) = .ok ())
    {rest : List Value}
    (hrest : List.Forall₂
      (fun text v => ∃ p ∈ variadic? parameters, coerce function p text scope = .ok v)
      (surplus parameters given) rest) :
    Placed function parameters scope given
      { values := valuesOf (slots.map (Slot.complete function)), rest } := by
  have hfull : ∀ slot ∈ slots, (slot.complete function).isMissing = false :=
    List.forall_mem_map.mp (checkMissing_eq_ok.mp hmissing)
  have hvalue : ∀ slot ∈ slots, ∀ v, (slot.complete function).value = some v →
      (valuesOf (slots.map (Slot.complete function))).lookup slot.parameter.name = some v := by
    intro slot hslot v hv
    have hlookup := lookup_valuesOf (by simpa [Function.comp_def] using h.names hnames)
      (List.mem_map_of_mem hslot) hv
    rwa [parameter_complete] at hlookup
  refine ⟨?_, fun p hp text hassigned => ?_, hrest, fun p hp hkind hnone => ?_⟩
  · have hparameters : (slots.map (Slot.complete function)).map Slot.parameter = parameters := by
      simpa [Function.comp_def] using h.order
    rw [← hparameters]
    refine names_valuesOf (List.forall_mem_map.mpr fun slot hslot => ?_)
    rw [parameter_complete]
    refine ⟨fun hsome hkind => ?_, fun hkind => ?_⟩
    · rw [h.complete_variadic hslot hkind] at hsome
      cases hsome
    · simpa [Slot.isMissing, hkind] using hfull slot hslot
  · obtain ⟨slot, hslot, rfl⟩ := List.mem_map.mp (h.order ▸ hp)
    obtain ⟨v, hv, hcomplete⟩ := h.complete_assigned hslot hassigned
    exact ⟨v, hv, hvalue slot hslot v hcomplete⟩
  · obtain ⟨slot, hslot, rfl⟩ := List.mem_map.mp (h.order ▸ hp)
    have hcomplete := h.complete_unassigned hslot hkind hnone
    have hsome := hfull slot hslot
    simp only [Slot.isMissing, parameter_complete, hkind, ne_eq, not_false_eq_true,
      decide_true, Bool.and_true, Option.isNone_eq_false_iff, Option.isSome_iff_exists] at hsome
    obtain ⟨v, hv⟩ := hsome
    exact ⟨v, fallback?_eq_some.mp (hcomplete ▸ hv), hvalue slot hslot v hv⟩

/-- Nothing is missing where all the others have defaults. -/
theorem checkMissing_complete (h : Settled function scope parameters given slots)
    (haccepted : Accepted function parameters scope given) :
    checkMissing function (slots.map (Slot.complete function)) = .ok () := by
  refine checkMissing_eq_ok.mpr (List.forall_mem_map.mpr fun slot hslot => ?_)
  rw [Slot.isMissing, parameter_complete]
  by_cases hkind : slot.parameter.kind = .variadic
  · simp [hkind]
  · by_cases hassigned : ∃ text, Assigned parameters given slot.parameter text
    · obtain ⟨text, hassigned⟩ := hassigned
      obtain ⟨v, -, hv⟩ := h.complete_assigned hslot hassigned
      simp [hv]
    · rw [not_exists] at hassigned
      rw [h.complete_unassigned hslot hkind hassigned]
      have hdefault := haccepted.others slot.parameter (h.mem hslot) hkind hassigned
      rw [Bool.and_eq_false_iff, Option.isNone_eq_false_iff]
      exact .inl (isSome_fallback?.mpr hdefault)

end Settled

/-! ## The result -/

/-- What is placed has been accepted. -/
theorem Placed.accepted {arguments : Arguments}
    (h : Placed function parameters scope given arguments)
    (hnamed : ∀ argument ∈ given.keywords, ∃ p ∈ parameters, p.name = argument.1 ∧ Nameable p ∧
      ∀ text, (p, text) ∉ placed parameters given) :
    Accepted function parameters scope given where
  room := by
    cases hsurplus : Binding.surplus parameters given with
    | nil => exact .inl (List.drop_eq_nil_iff.mp hsurplus)
    | cons text texts =>
        have hfirst := h.surplus
        rw [hsurplus, List.forall₂_cons_left_iff] at hfirst
        obtain ⟨v, -, ⟨p, hp, -⟩, -⟩ := hfirst
        exact .inr ⟨p, List.mem_of_find?_eq_some hp, by simpa using List.find?_some hp⟩
  named := hnamed
  assigned p hp text hassigned := by
    obtain ⟨v, hv, -⟩ := h.assigned p hp text hassigned
    exact ⟨v, hv⟩
  surplus p hp text htext := by
    obtain ⟨i, hi, rfl⟩ := List.mem_iff_getElem.mp htext
    obtain ⟨q, hq, hv⟩ := h.surplus.get hi (h.surplus.length_eq ▸ hi)
    cases hp.symm.trans hq
    exact ⟨_, hv⟩
  others p hp hkind hnone := by
    obtain ⟨v, hv, -⟩ := h.others p hp hkind hnone
    rw [← isSome_fallback?, fallback?_eq_some.mpr hv, Option.isSome_some]

theorem Accepted.fillRest_eq_ok (h : Accepted function parameters scope given) (count : Nat) :
    ∃ rest, fillRest function scope parameters count (Binding.surplus parameters given) =
      .ok rest := by
  cases hvariadic : variadic? parameters with
  | none =>
      have hroom : given.positionals.length ≤ parameters.countP Parameter.isPositional := by
        refine h.room.resolve_right ?_
        rintro ⟨p, hp, hkind⟩
        exact List.find?_eq_none.mp hvariadic p hp (decide_eq_true hkind)
      refine ⟨[], Binding.fillRest_eq_ok.mpr ?_⟩
      rw [Binding.surplus, List.drop_eq_nil_of_le hroom]
      exact .nil
  | some p =>
      obtain ⟨rest, hrest⟩ := mapM_eq_ok (h.surplus p hvariadic)
      refine ⟨rest, Binding.fillRest_eq_ok.mpr ?_⟩
      exact (mapM_eq_ok_iff.mp hrest).imp fun _ _ hv => ⟨p, hvariadic, hv⟩

theorem accepted_of_bind {raw : Option String} {stack : List String} {arguments : Arguments}
    (hnames : (parameters.map Parameter.name).Nodup)
    (h : bind function parameters raw scope stack = .ok arguments) :
    ∃ given, Gives stack raw given ∧ Accepted function parameters scope given ∧
      Placed function parameters scope given arguments := by
  obtain ⟨given, hgiven, h⟩ := bind_eq_ok h
  obtain ⟨⟨slots, left⟩, hslots, h⟩ := bind_eq_ok h
  obtain ⟨rest, hrest, h⟩ := bind_eq_ok h
  obtain ⟨filled, hfilled, h⟩ := bind_eq_ok h
  obtain ⟨_, hmissing, h⟩ := bind_eq_ok h
  cases h
  obtain ⟨hsettled, hnamed⟩ := (Settled.ofPlaces hnames hslots).keywords hnames hfilled
  have hleft : left = surplus parameters given := (takes_of_fillPositionals hnames hslots).2
  subst hleft
  have hplaced := hsettled.bound hnames hmissing (fillRest_eq_ok.mp hrest)
  exact ⟨given, readGiven_eq_ok.mp hgiven, hplaced.accepted hnamed, hplaced⟩

theorem bind_eq_ok_of_accepted {raw : Option String} {stack : List String}
    (hnames : (parameters.map Parameter.name).Nodup) (hgives : Gives stack raw given)
    (h : Accepted function parameters scope given) :
    ∃ arguments, bind function parameters raw scope stack = .ok arguments := by
  obtain ⟨⟨slots, left⟩, hslots⟩ : ∃ filled,
      fillPositionals function scope parameters given.positionals = .ok filled := by
    refine fillPositionals_eq_ok fun pair hpair => ?_
    have hmem := List.mem_of_mem_filter (List.of_mem_zip hpair).1
    exact h.assigned pair.1 hmem pair.2 (.place hpair)
  have hplaces := Settled.ofPlaces hnames hslots
  have hleft : left = surplus parameters given := (takes_of_fillPositionals hnames hslots).2
  obtain ⟨rest, hrest⟩ : ∃ rest, fillRest function scope parameters given.positionals.length
      (surplus parameters given) = .ok rest := h.fillRest_eq_ok _
  obtain ⟨filled, hfilled⟩ : ∃ filled, given.keywords.foldlM
      (fun slots pair => fillKeyword function scope pair.1 pair.2 slots) slots = .ok filled := by
    refine hplaces.keywords_eq_ok hnames hgives.distinct fun argument hargument => ?_
    obtain ⟨p, hp, hname, hkind, hfree⟩ := h.named argument hargument
    exact ⟨p, hp, hname, hkind, hfree, h.assigned p hp _ (.name hkind (hname ▸ hargument))⟩
  have hmissing := (hplaces.keywords hnames hfilled).1.checkMissing_complete h
  refine ⟨{ values := valuesOf (filled.map (Slot.complete function)), rest }, ?_⟩
  subst hleft
  simp only [bind, readGiven_eq_ok.mpr hgives, ok_bind, hslots, hrest, hfilled, hmissing]
  rfl

variable (function scope) in
/-- A call is bound exactly if it is written as arguments that the parameters accept, and
then every argument and every default stands where the signature puts it. -/
theorem bind_exact (hnames : (parameters.map Parameter.name).Nodup) (raw : Option String)
    (stack : List String) :
    ((∃ arguments, bind function parameters raw scope stack = .ok arguments) ↔
      ∃ given, Gives stack raw given ∧ Accepted function parameters scope given) ∧
    ∀ arguments, bind function parameters raw scope stack = .ok arguments →
      ∃ given, Gives stack raw given ∧ Placed function parameters scope given arguments := by
  refine ⟨⟨?_, ?_⟩, fun arguments h => ?_⟩
  · rintro ⟨arguments, h⟩
    obtain ⟨given, hgives, haccepted, -⟩ := accepted_of_bind hnames h
    exact ⟨given, hgives, haccepted⟩
  · rintro ⟨given, hgives, haccepted⟩
    exact bind_eq_ok_of_accepted hnames hgives haccepted
  · obtain ⟨given, hgives, -, hplaced⟩ := accepted_of_bind hnames h
    exact ⟨given, hgives, hplaced⟩

/-- One parameter of each kind, and two that have values without arguments. -/
def oneOfEach : List Parameter :=
  [{ name := "first", kind := .positionalOnly, type := .text },
    { name := "second", kind := .positionalOrKeyword, type := .bool },
    { name := "more", kind := .variadic, type := .text },
    { name := "label", kind := .keywordOnly, type := .text },
    { name := "third", kind := .keywordOnly, type := .text },
    { name := "duration", kind := .keywordOnly, type := .float }]

theorem bind_exact_oneOfEach : (oneOfEach.map Parameter.name).Nodup ∧
    (∃ given, Gives [] (some "a, yes, b, c, third = d") given ∧
      Accepted "f" oneOfEach ∅ given) ∧
    ∃ given, Gives [] (some "a, yes, b, c, third = d") given ∧
      Placed "f" oneOfEach ∅ given {
        values := [("first", .text "a"), ("second", .bool true), ("label", .text "f"),
          ("third", .text "d"), ("duration", .int 1)]
        rest := [.text "b", .text "c"] } := by
  have hnames : (oneOfEach.map Parameter.name).Nodup := by decide
  have hexact := bind_exact "f" ∅ hnames (some "a, yes, b, c, third = d") []
  exact ⟨hnames, hexact.1.mp ⟨_, rfl⟩, hexact.2 _ rfl⟩

end

end Parkour.Language.Binding
