import Parkour.Language.Arguments
import Parkour.Proofs.Outcome

/-!
# Types of bound arguments

Binding fills the slots of the parameters in three passes: by place, by name, and with
defaults. Each pass keeps the slots of the same parameters. What holds of all values that the
texts are read as, and of the defaults, holds of the values in the slots: their types among
that. So a call that is bound finds every value under the name that its parameter has.
-/

namespace Parkour.Language

/-- The values that arguments of a type are read as. -/
inductive ParameterType.Fits : ParameterType → Value → Prop where
  | int (n : Int) : Fits .int (.int n)
  | float (v : Float) : Fits .float (.float v)
  | bool (b : Bool) : Fits .bool (.bool b)
  | text (content : String) : Fits .text (.text content)
  | sequence (content : String) : Fits .sequence (.text content)

/-- The values that a text is read as. -/
inductive ParameterType.Reads (text : String) (scope : Scope) : ParameterType → Value → Prop where
  | int (n : Int) : Reads text scope .int (.int n)
  | float {v : Float} (h : Expression.evaluate text scope = .ok v) :
      Reads text scope .float (.float v)
  | bool (b : Bool) : Reads text scope .bool (.bool b)
  | text : Reads text scope .text (.text text)
  | sequence : Reads text scope .sequence (.text text)

theorem ParameterType.Reads.fits {text : String} {scope : Scope} {type : ParameterType}
    {v : Value} (h : type.Reads text scope v) : type.Fits v := by
  cases h with
  | int n => exact .int n
  | float _ => exact .float _
  | bool b => exact .bool b
  | text => exact .text text
  | sequence => exact .sequence text

namespace Binding

/-- A value has the type of its parameter, or it is what the parameter has by default. -/
def Holds (function : String) (p : Parameter) (v : Value) : Prop :=
  (typeOf p).Fits v ∨ fallback? function p = some v

/-- The arguments of a call are values of the parameters, each as wanted. -/
structure Bound (H : Parameter → Value → Prop) (parameters : List Parameter)
    (arguments : Arguments) : Prop where
  holds : ∀ name v, (name, v) ∈ arguments.values → ∃ p ∈ parameters, p.name = name ∧ H p v
  filled : ∀ p ∈ parameters, p.kind ≠ .variadic → (arguments.get? p.name).isSome = true
  rest : ∀ v ∈ arguments.rest, ∃ p ∈ parameters, p.kind = .variadic ∧ H p v

/-- The arguments of a call agree with the parameters. -/
abbrev Typed (function : String) (parameters : List Parameter) (arguments : Arguments) : Prop :=
  Bound (Holds function) parameters arguments

section

variable {function text : String} {p : Parameter} {scope : Scope} {v : Value}
  {parameters : List Parameter}

/-- Only the absent value is a default that the word `None` names. -/
theorem fallback_eq_none (h : p.fallback.any Value.isNone = true) : p.fallback = some .none := by
  cases hp : p.fallback with
  | none => simp [hp] at h
  | some value =>
      cases value with
      | none => rfl
      | _ => simp [hp, Value.isNone] at h

/-- The word `None` is read as the default that it names. Any other text is read as its type
says. -/
theorem read_of_coerce (h : coerce function p text scope = .ok v) :
    (v = .none ∧ p.fallback = some .none) ∨ (typeOf p).Reads text scope v := by
  unfold coerce at h
  split at h
  · next hnone =>
    cases h
    exact .inl ⟨rfl, fallback_eq_none (Bool.and_eq_true_iff.mp hnone).2⟩
  · right
    split at h
    · next htype =>
      rw [htype]
      obtain ⟨number, -, h⟩ := bind_eq_ok h
      dsimp only at h
      split at h
      · cases h
      · split at h
        · cases h
        · cases h
          exact .int _
    · next htype =>
      rw [htype]
      obtain ⟨number, hnumber, rfl⟩ := map_eq_ok h
      exact .float hnumber
    · next htype =>
      rw [htype]
      unfold coerceFlag at h
      split at h
      · cases h
        exact .bool true
      · cases h
        exact .bool true
      · cases h
        exact .bool true
      · cases h
        exact .bool false
      · cases h
        exact .bool false
      · cases h
        exact .bool false
      · obtain ⟨number, -, rfl⟩ := map_eq_ok h
        exact .bool _
    · next htype =>
      rw [htype]
      cases h
      exact .text
    · next htype =>
      rw [htype]
      cases h
      exact .sequence

theorem holds_of_coerce (h : coerce function p text scope = .ok v) : Holds function p v := by
  rcases read_of_coerce h with ⟨rfl, hfallback⟩ | hread
  · right
    rw [fallback?, hfallback]
  · exact .inl hread.fits

/-- Only a text is read as a text, and as it is. -/
theorem text_of_coerce {body : String} (h : coerce function p text scope = .ok (.text body)) :
    body = text := by
  rcases read_of_coerce h with ⟨hnone, -⟩ | hread
  · cases hnone
  · generalize typeOf p = type at hread
    cases hread <;> rfl

/-- These are the slots of the parameters, and their values are as wanted. -/
structure Fitted (H : Parameter → Value → Prop) (parameters : List Parameter)
    (slots : List Slot) : Prop where
  parameters : slots.map Slot.parameter = parameters
  holds : ∀ slot ∈ slots, ∀ v ∈ slot.value, H slot.parameter v

/-- The values that a text is read as are as wanted. -/
def Wanted (H : Parameter → Value → Prop) (function : String) (scope : Scope) (text : String) :
    Prop :=
  ∀ p v, coerce function p text scope = .ok v → H p v

variable {H : Parameter → Value → Prop}

theorem Fitted.cons {slots : List Slot} (h : Fitted H parameters slots) (slot : Slot)
    (hslot : ∀ v ∈ slot.value, H slot.parameter v) :
    Fitted H (slot.parameter :: parameters) (slot :: slots) where
  parameters := by rw [List.map_cons, h.parameters]
  holds := List.forall_mem_cons.mpr ⟨hslot, h.holds⟩

theorem fitted_empty (H : Parameter → Value → Prop) (parameters : List Parameter) :
    Fitted H parameters (parameters.map fun p => { parameter := p }) where
  parameters := by simp [Function.comp_def]
  holds slot hmem v hv := by
    obtain ⟨p, -, rfl⟩ := List.mem_map.mp hmem
    cases hv

/-- The texts that are left over are among those that were given. -/
theorem fitted_of_fillPositionals {texts left : List String} {slots : List Slot}
    (htexts : ∀ text ∈ texts, Wanted H function scope text)
    (h : fillPositionals function scope parameters texts = .ok (slots, left)) :
    Fitted H parameters slots ∧ ∀ text ∈ left, Wanted H function scope text := by
  induction parameters generalizing texts slots with
  | nil =>
      cases h
      exact ⟨⟨rfl, List.forall_mem_nil _⟩, htexts⟩
  | cons p rest ih =>
      cases texts with
      | nil =>
          cases h
          exact ⟨fitted_empty H (p :: rest), List.forall_mem_nil _⟩
      | cons text texts =>
          unfold fillPositionals at h
          split at h
          · obtain ⟨value, hvalue, h⟩ := bind_eq_ok h
            obtain ⟨⟨others, leftOver⟩, hothers, h⟩ := bind_eq_ok h
            cases h
            obtain ⟨htext, hbehind⟩ := List.forall_mem_cons.mp htexts
            obtain ⟨hfitted, hleft⟩ := ih hbehind hothers
            refine ⟨hfitted.cons { parameter := p, value := some value } ?_, hleft⟩
            rintro _ ⟨⟩
            exact htext p value hvalue
          · obtain ⟨⟨others, leftOver⟩, hothers, h⟩ := bind_eq_ok h
            cases h
            obtain ⟨hfitted, hleft⟩ := ih htexts hothers
            exact ⟨hfitted.cons { parameter := p } nofun, hleft⟩

/-- Filling by place keeps the parameters. -/
theorem parameters_of_fillPositionals {texts left : List String} {slots : List Slot}
    (h : fillPositionals function scope parameters texts = .ok (slots, left)) :
    slots.map Slot.parameter = parameters := by
  have htexts : ∀ text ∈ texts, Wanted (fun _ _ => True) function scope text :=
    fun _ _ _ _ _ => trivial
  exact (fitted_of_fillPositionals htexts h).1.parameters

theorem Fitted.fillKeyword {name : String} {slots filled : List Slot}
    (h : Fitted H parameters slots) (htext : Wanted H function scope text)
    (hfilled : fillKeyword function scope name text slots = .ok filled) :
    Fitted H parameters filled := by
  induction slots generalizing parameters filled with
  | nil => cases hfilled
  | cons slot rest ih =>
      obtain ⟨hslot, hrest⟩ := List.forall_mem_cons.mp h.holds
      have hbehind : Fitted H (rest.map Slot.parameter) rest := ⟨rfl, hrest⟩
      rw [← h.parameters, List.map_cons]
      unfold Binding.fillKeyword at hfilled
      split at hfilled
      · split at hfilled
        · cases hfilled
        · split at hfilled
          · cases hfilled
          · obtain ⟨value, hvalue, rfl⟩ := map_eq_ok hfilled
            refine hbehind.cons { slot with value := some value } ?_
            rintro _ ⟨⟩
            exact htext slot.parameter value hvalue
      · obtain ⟨others, hothers, rfl⟩ := map_eq_ok hfilled
        exact (ih hbehind hothers).cons slot hslot

@[simp] theorem parameter_complete (slot : Slot) :
    (slot.complete function).parameter = slot.parameter := by
  unfold Slot.complete
  split <;> rfl

theorem Fitted.complete {slots : List Slot} (h : Fitted H parameters slots)
    (hfallback : ∀ p ∈ parameters, ∀ v, fallback? function p = some v → H p v) :
    Fitted H parameters (slots.map (Slot.complete function)) where
  parameters := by simpa [Function.comp_def] using h.parameters
  holds filled hmem v hv := by
    obtain ⟨slot, hslot, rfl⟩ := List.mem_map.mp hmem
    rw [parameter_complete]
    unfold Slot.complete at hv
    split at hv
    · exact h.holds slot hslot v hv
    · refine hfallback slot.parameter ?_ v hv
      rw [← h.parameters]
      exact List.mem_map_of_mem hslot

/-- Where nothing is missing, every slot has a value, that of the variadic parameter apart. -/
theorem not_isMissing_of_checkMissing {slots : List Slot}
    (h : checkMissing function slots = .ok ⟨⟩) : ∀ slot ∈ slots, slot.isMissing = false := by
  unfold checkMissing at h
  dsimp only at h
  split at h
  · cases h
  · next hpositionals =>
    split at h
    · cases h
    · next hkeywords =>
      simp only [Bool.not_eq_true', Bool.not_eq_false, List.isEmpty_iff,
        List.filter_eq_nil_iff] at hpositionals hkeywords
      intro slot hmem
      cases hmissing : slot.isMissing with
      | false => rfl
      | true =>
          have hfound : slot.parameter ∈ (slots.filter Slot.isMissing).map Slot.parameter :=
            List.mem_map_of_mem (List.mem_filter.mpr ⟨hmem, hmissing⟩)
          by_cases hkind : slot.parameter.kind = .keywordOnly
          · exact absurd (decide_eq_true hkind) (hkeywords slot.parameter hfound)
          · exact absurd (decide_eq_true hkind) (hpositionals slot.parameter hfound)

theorem rest_of_fillRest {given : Nat} {left : List String} {values : List Value}
    (hleft : ∀ text ∈ left, Wanted H function scope text)
    (h : fillRest function scope parameters given left = .ok values) :
    ∀ v ∈ values, ∃ p ∈ parameters, p.kind = .variadic ∧ H p v := by
  unfold fillRest at h
  split at h
  · cases h
    exact List.forall_mem_nil _
  · split at h
    · next p hp =>
      have hkind : p.kind = .variadic := by simpa using List.find?_some hp
      have hmem : p ∈ parameters := List.mem_of_find?_eq_some hp
      intro v hv
      obtain ⟨text, htext, hvalue⟩ := exists_of_mapM h v hv
      exact ⟨p, hmem, hkind, hleft text htext p v hvalue⟩
    · cases h

/-- The values of fitted slots, each under the name of its parameter. -/
def valuesOf (slots : List Slot) : List (String × Value) :=
  slots.filterMap fun slot => slot.value.map (slot.parameter.name, ·)

theorem mem_valuesOf {slots : List Slot} {name : String} :
    (name, v) ∈ valuesOf slots ↔
      ∃ slot ∈ slots, slot.value = some v ∧ slot.parameter.name = name := by
  simp [valuesOf, List.mem_filterMap]

theorem Fitted.bound {slots : List Slot} (h : Fitted H parameters slots)
    (hfilled : ∀ slot ∈ slots, slot.isMissing = false) {rest : List Value}
    (hrest : ∀ v ∈ rest, ∃ p ∈ parameters, p.kind = .variadic ∧ H p v) :
    Bound H parameters { values := valuesOf slots, rest } where
  holds name v hmem := by
    obtain ⟨slot, hslot, hv, hname⟩ := mem_valuesOf.mp hmem
    refine ⟨slot.parameter, ?_, hname, h.holds slot hslot v hv⟩
    rw [← h.parameters]
    exact List.mem_map_of_mem hslot
  filled p hp hkind := by
    rw [← h.parameters] at hp
    obtain ⟨slot, hslot, rfl⟩ := List.mem_map.mp hp
    have hmissing := hfilled slot hslot
    unfold Slot.isMissing at hmissing
    rw [decide_eq_true hkind, Bool.and_true, Option.isNone_eq_false_iff] at hmissing
    obtain ⟨v, hv⟩ := Option.isSome_iff_exists.mp hmissing
    refine List.lookup_isSome_iff.mpr ⟨(slot.parameter.name, v), ?_, by simp⟩
    exact mem_valuesOf.mpr ⟨slot, hslot, hv, rfl⟩
  rest := hrest

/-- A value that is found is among the values. -/
theorem mem_values_of_get? {arguments : Arguments} {name : String}
    (h : arguments.get? name = some v) : (name, v) ∈ arguments.values := by
  obtain ⟨before, behind, hvalues, -⟩ := List.lookup_eq_some_iff.mp h
  simp [hvalues]

/-- What holds of all that the texts of a call are read as, and of the defaults, holds of what
is bound. -/
theorem bound_of_bind {raw : Option String} {stack : List String} {arguments : Arguments}
    (hgiven : ∀ given, readGiven function raw stack = .ok given →
      (∀ text ∈ given.positionals, Wanted H function scope text) ∧
        ∀ pair ∈ given.keywords, Wanted H function scope pair.2)
    (hfallback : ∀ p ∈ parameters, ∀ v, fallback? function p = some v → H p v)
    (h : bind function parameters raw scope stack = .ok arguments) :
    Bound H parameters arguments := by
  obtain ⟨given, hread, h⟩ := bind_eq_ok h
  obtain ⟨⟨slots, left⟩, hslots, h⟩ := bind_eq_ok h
  obtain ⟨rest, hrest, h⟩ := bind_eq_ok h
  obtain ⟨filled, hfilled, h⟩ := bind_eq_ok h
  obtain ⟨_, hmissing, h⟩ := bind_eq_ok h
  cases h
  obtain ⟨hpositionals, hkeywords⟩ := hgiven given hread
  obtain ⟨hplaced, hleft⟩ := fitted_of_fillPositionals hpositionals hslots
  have hnamed : Fitted H parameters filled :=
    foldlM_keeps (fun pair hpair _ _ hkeyword hfitted =>
      hfitted.fillKeyword (hkeywords pair hpair) hkeyword) hfilled hplaced
  exact (hnamed.complete hfallback).bound (not_isMissing_of_checkMissing hmissing)
    (rest_of_fillRest hleft hrest)

/-- Whatever the texts of its arguments are, a call that is bound agrees with the
parameters. -/
theorem typed_of_bind {raw : Option String} {stack : List String} {arguments : Arguments}
    (h : bind function parameters raw scope stack = .ok arguments) :
    Typed function parameters arguments := by
  have hread : ∀ text, Wanted (Holds function) function scope text :=
    fun _ _ _ hvalue => holds_of_coerce hvalue
  exact bound_of_bind (fun _ _ => ⟨fun text _ => hread text, fun pair _ => hread pair.2⟩)
    (fun _ _ _ hdefault => .inr hdefault) h

end

end Binding

end Parkour.Language
