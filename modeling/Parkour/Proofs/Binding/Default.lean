import Parkour.Language.Signature
import Parkour.Proofs.Binding.Placement
import Parkour.Proofs.Binding.Shape
import Parkour.Proofs.Number.Whole

/-!
# Defaults

A default is read where its parameter is declared, and an argument where the function is
called. Both readings of a text give the same value except where the text is a word for a
truth value, a number with a part behind the point for an integer, or stands for a count of
ticks.
-/

namespace Parkour.Language

namespace Binding

/-- The truth value that a word stands for. -/
def flagWord? (text : String) : Option Bool :=
  match Text.lower text with
  | "true" | "yes" | "on" => some true
  | "false" | "no" | "off" => some false
  | _ => none

section

variable {function text : String} {scope : Scope} {p : Parameter} {v : Value}

theorem coerceFlag_eq : coerceFlag text scope = match flagWord? text with
    | some b => .ok (.bool b)
    | none => (Expression.evaluate text scope).map fun v => .bool (v != 0) := by
  unfold coerceFlag
  split <;> simp only [flagWord?, *]

/-- An integer is a whole number, and a count of ticks is not negative. -/
theorem coerceInteger_eq_ok : coerceInteger function p text scope = .ok v ↔
    ∃ number, Expression.evaluate text scope = .ok number ∧ Number.isWhole number = true ∧
      (p.name = durationName → ¬number < 0) ∧ v = .int (Number.truncate number) := by
  unfold coerceInteger
  constructor
  · intro h
    obtain ⟨number, hnumber, h⟩ := bind_eq_ok h
    dsimp only at h
    split at h
    · cases h
    · next hwhole =>
      split at h
      · cases h
      · next hticks =>
        cases h
        refine ⟨number, hnumber, by simpa using hwhole, fun hname hneg => hticks ?_, rfl⟩
        simp [hname, hneg]
  · rintro ⟨number, hnumber, hwhole, hticks, rfl⟩
    rw [hnumber, ok_bind]
    by_cases hname : p.name = durationName
    · simp [hwhole, hname, hticks hname]
      rfl
    · simp [hwhole, hname]
      rfl

end

/-! ## Calls with defaults -/

/-- What calls bind a parameter to that has a default. -/
structure FallsBack (function : String) (p : Parameter) : Prop where
  omitted : ∀ {parameters : List Parameter} {raw : Option String} {scope : Scope}
    {stack : List String} {given : Given} {arguments : Arguments},
    (parameters.map Parameter.name).Nodup → p ∈ parameters → Gives stack raw given →
    bind function parameters raw scope stack = .ok arguments →
    (∀ text, ¬Assigned parameters given p text) → arguments.get? p.name = p.fallback
  ticks : ∀ {parameters : List Parameter} {raw : Option String} {scope : Scope}
    {stack : List String} {arguments : Arguments},
    (parameters.map Parameter.name).Nodup → p ∈ parameters → p.name = durationName →
    bind function parameters raw scope stack = .ok arguments →
    ∃ v, arguments.get? p.name = some v ∧ ((∃ n : Int, 0 ≤ n ∧ v = .int n) ∨ p.fallback = some v)

section

variable {function : String} {p : Parameter}

/-- A count of ticks that is read from an argument is not negative. -/
theorem ticks_of_coerce {text : String} {scope : Scope} {v : Value}
    (hname : p.name = durationName) (h : coerce function p text scope = .ok v) :
    (∃ n : Int, 0 ≤ n ∧ v = .int n) ∨ p.fallback = some v := by
  unfold coerce at h
  split at h
  · next hnone =>
    cases h
    exact .inr (fallback_eq_none (Bool.and_eq_true_iff.mp hnone).2)
  · left
    rw [typeOf, if_pos hname] at h
    obtain ⟨number, -, hwhole, hticks, rfl⟩ := coerceInteger_eq_ok.mp h
    exact ⟨_, Number.truncate_nonneg hwhole (hticks hname), rfl⟩

theorem fallsBack {v : Value} (hp : p.fallback = some v) (hkind : p.kind ≠ .variadic) :
    FallsBack function p where
  omitted := by
    intro parameters raw scope stack given arguments hnames hmem hgives h hnone
    obtain ⟨other, hother, -, hplaced⟩ := accepted_of_bind hnames h
    cases hgives.unique hother
    obtain ⟨w, hw, hget⟩ := hplaced.others p hmem hkind hnone
    rw [hget, ← fallback?_eq_some.mpr hw, fallback?, hp]
  ticks := by
    intro parameters raw scope stack arguments hnames hmem hname h
    obtain ⟨given, -, -, hplaced⟩ := accepted_of_bind hnames h
    by_cases hassigned : ∃ text, Assigned parameters given p text
    · obtain ⟨text, hassigned⟩ := hassigned
      obtain ⟨w, hw, hget⟩ := hplaced.assigned p hmem text hassigned
      exact ⟨w, hget, ticks_of_coerce hname hw⟩
    · rw [not_exists] at hassigned
      obtain ⟨w, hw, hget⟩ := hplaced.others p hmem hkind hassigned
      refine ⟨w, hget, .inr ?_⟩
      rw [← fallback?_eq_some.mpr hw, fallback?, hp]

end

end Binding

namespace Signature

/-- The parts of the declaration of a parameter with a default. -/
structure Declares (declaration name : String) (type : ParameterType) (text : String) :
    Prop where
  parts : ∃ head, declarationParts declaration = (head, some text) ∧
    headParts head = .ok (name, type)
  identifier : Text.isIdentifier name = true

/-- A default means what its text means as an argument: it is accepted where the argument
is, and its value is that of the argument. -/
def MeansArgument (function : String) (scope : Scope) (starred : Bool)
    (declaration name : String) (type : ParameterType) (text : String) : Prop :=
  match parseParameter scope false starred declaration with
  | .ok p => ∃ v, p.fallback = some v ∧ Binding.coerce function p text scope = .ok v
  | .error _ => ∀ p : Parameter, p.name = name → p.type = type → p.fallback = none →
      ∀ v, Binding.coerce function p text scope ≠ .ok v

/-- The texts that mean the same as defaults and as arguments. -/
inductive Faithful (scope : Scope) (name text : String) : ParameterType → Prop where
  | none {type : ParameterType} (h : text = "None") : Faithful scope name text type
  | float (hname : name ≠ Binding.durationName) : Faithful scope name text .float
  | bool (hname : name ≠ Binding.durationName)
      (hword : ∀ b, Binding.flagWord? text = some b →
        ∃ v, Expression.evaluate text scope = .ok v ∧ (v != 0) = b) :
      Faithful scope name text .bool
  | text (hname : name ≠ Binding.durationName) : Faithful scope name text .text
  | sequence (hname : name ≠ Binding.durationName) : Faithful scope name text .sequence
  | int (hwhole : ∀ v, Expression.evaluate text scope = .ok v →
        Number.isWhole v = true ∧ (name = Binding.durationName → ¬v < 0)) :
      Faithful scope name text .int
  | refused {type : ParameterType} (hname : name = Binding.durationName)
      (htype : type = .float ∨ type = .bool)
      (h : ∀ v, Expression.evaluate text scope ≠ .ok v) : Faithful scope name text type

section

variable {function text : String} {scope : Scope} {p : Parameter}

/-- A whole number that can count what it has to count is read alike in both places. -/
theorem alike_int :
    (∀ v, (Expression.evaluate text scope).map (fun n => .int (Number.nearestWhole n)) = .ok v ↔
      Binding.coerceInteger function p text scope = .ok v) ↔
    ∀ number, Expression.evaluate text scope = .ok number →
      Number.isWhole number = true ∧ (p.name = Binding.durationName → ¬number < 0) := by
  constructor
  · intro h number hnumber
    have hdefault := (h (.int (Number.nearestWhole number))).mp (by rw [hnumber]; rfl)
    obtain ⟨other, hother, hwhole, hticks, -⟩ := Binding.coerceInteger_eq_ok.mp hdefault
    cases hnumber.symm.trans hother
    exact ⟨hwhole, hticks⟩
  · intro h v
    rw [Binding.coerceInteger_eq_ok]
    constructor
    · intro hv
      obtain ⟨number, hnumber, rfl⟩ := map_eq_ok hv
      obtain ⟨hwhole, hticks⟩ := h number hnumber
      exact ⟨number, hnumber, hwhole, hticks, by rw [Number.nearestWhole_eq hwhole]⟩
    · rintro ⟨number, hnumber, hwhole, -, rfl⟩
      rw [hnumber, ← Number.nearestWhole_eq hwhole]
      rfl

/-- What is read as another kind of value is never read alike, unless neither is read. -/
theorem alike_other {f : Float → Value} (hf : ∀ number n, f number ≠ .int n) :
    (∀ v, (Expression.evaluate text scope).map f = .ok v ↔
      Binding.coerceInteger function p text scope = .ok v) ↔
    ∀ number, Expression.evaluate text scope ≠ .ok number := by
  constructor
  · intro h number hnumber
    have hdefault := (h (f number)).mp (by rw [hnumber]; rfl)
    obtain ⟨other, -, -, -, hother⟩ := Binding.coerceInteger_eq_ok.mp hdefault
    exact hf _ _ hother
  · intro h v
    rw [Binding.coerceInteger_eq_ok]
    constructor
    · intro hv
      obtain ⟨number, hnumber, -⟩ := map_eq_ok hv
      exact absurd hnumber (h number)
    · rintro ⟨number, hnumber, -⟩
      exact absurd hnumber (h number)

theorem not_alike_text :
    ¬∀ v, (.ok (.text text) : Except Fault Value) = .ok v ↔
      Binding.coerceInteger function p text scope = .ok v := by
  intro h
  obtain ⟨number, -, -, -, hother⟩ := Binding.coerceInteger_eq_ok.mp ((h (.text text)).mp rfl)
  cases hother

theorem alike_bool :
    (∀ v, (Expression.evaluate text scope).map (fun n => .bool (n != 0)) = .ok v ↔
      Binding.coerceFlag text scope = .ok v) ↔
    ∀ b, Binding.flagWord? text = some b →
      ∃ number, Expression.evaluate text scope = .ok number ∧ (number != 0) = b := by
  rw [Binding.coerceFlag_eq]
  cases hword : Binding.flagWord? text with
  | none => simp
  | some b =>
      constructor
      · rintro h _ ⟨⟩
        obtain ⟨number, hnumber, hb⟩ := map_eq_ok ((h (.bool b)).mpr rfl)
        exact ⟨number, hnumber, by simpa using hb⟩
      · intro h v
        obtain ⟨number, hnumber, rfl⟩ := h b rfl
        rw [hnumber]
        rfl

/-- A count of ticks is read as an integer whatever its type is, but only as an argument. -/
theorem alike_ticks (htext : text ≠ "None") (hname : p.name = Binding.durationName) :
    (∀ v, fallbackValue scope p.type text = .ok v ↔
      Binding.coerce function p text scope = .ok v) ↔ Faithful scope p.name text p.type := by
  unfold fallbackValue Binding.coerce Binding.typeOf
  rw [if_neg htext, if_neg (by simp [htext]), if_pos hname]
  cases p.type with
  | int =>
      refine alike_int.trans ⟨.int, fun hfaithful => ?_⟩
      cases hfaithful with
      | none h => exact absurd h htext
      | int hwhole => exact hwhole
      | refused _ htype _ => simp at htype
  | float =>
      refine (alike_other (by rintro _ _ ⟨⟩)).trans ⟨.refused hname (.inl rfl), fun hfaithful => ?_⟩
      cases hfaithful with
      | none h => exact absurd h htext
      | float h => exact absurd hname h
      | refused _ _ hrefused => exact hrefused
  | bool =>
      refine (alike_other (by rintro _ _ ⟨⟩)).trans ⟨.refused hname (.inr rfl), fun hfaithful => ?_⟩
      cases hfaithful with
      | none h => exact absurd h htext
      | bool h _ => exact absurd hname h
      | refused _ _ hrefused => exact hrefused
  | text =>
      refine iff_of_false not_alike_text fun hfaithful => ?_
      cases hfaithful with
      | none h => exact htext h
      | text h => exact h hname
      | refused _ htype _ => simp at htype
  | sequence =>
      refine iff_of_false not_alike_text fun hfaithful => ?_
      cases hfaithful with
      | none h => exact htext h
      | sequence h => exact h hname
      | refused _ htype _ => simp at htype

/-- Any other parameter is read by its type in both places. -/
theorem alike_plain (htext : text ≠ "None") (hname : p.name ≠ Binding.durationName) :
    (∀ v, fallbackValue scope p.type text = .ok v ↔
      Binding.coerce function p text scope = .ok v) ↔ Faithful scope p.name text p.type := by
  unfold fallbackValue Binding.coerce Binding.typeOf
  rw [if_neg htext, if_neg (by simp [htext]), if_neg hname]
  cases p.type with
  | int =>
      refine alike_int.trans ⟨.int, fun hfaithful => ?_⟩
      cases hfaithful with
      | none h => exact absurd h htext
      | int hwhole => exact hwhole
      | refused h _ _ => exact absurd h hname
  | float => exact iff_of_true (fun v => Iff.rfl) (.float hname)
  | bool =>
      refine alike_bool.trans ⟨.bool hname, fun hfaithful => ?_⟩
      cases hfaithful with
      | none h => exact absurd h htext
      | bool _ hword => exact hword
      | refused h _ _ => exact absurd h hname
  | text => exact iff_of_true (fun v => Iff.rfl) (.text hname)
  | sequence => exact iff_of_true (fun v => Iff.rfl) (.sequence hname)

theorem alike_iff (htext : text ≠ "None") :
    (∀ v, fallbackValue scope p.type text = .ok v ↔
      Binding.coerce function p text scope = .ok v) ↔ Faithful scope p.name text p.type := by
  by_cases hname : p.name = Binding.durationName
  · exact alike_ticks htext hname
  · exact alike_plain htext hname

end

variable {declaration name text : String} {type : ParameterType}

/-- A declaration is accepted if its default is. -/
theorem parseParameter_eq (h : Declares declaration name type text) (scope : Scope)
    (starred : Bool) :
    parseParameter scope false starred declaration = (fallbackValue scope type text).map fun v =>
      { name, kind := if starred then .keywordOnly else .positionalOrKeyword, type,
        fallback := some v } := by
  obtain ⟨head, hparts, hhead⟩ := h.parts
  unfold parseParameter
  simp only [hparts, hhead, h.identifier, ok_bind, Bool.not_true, Bool.false_eq_true, if_false,
    Bool.false_and]
  rw [Option.mapM_some]
  cases fallbackValue scope type text <;> rfl

variable (function : String) (scope : Scope) (starred : Bool)

theorem meansArgument_iff (h : Declares declaration name type text) :
    MeansArgument function scope starred declaration name type text ↔
      Faithful scope name text type := by
  unfold MeansArgument
  rw [parseParameter_eq h scope starred]
  by_cases htext : text = "None"
  · subst htext
    exact iff_of_true ⟨.none, rfl, rfl⟩ (.none rfl)
  · -- Without the word `None` the default of the parameter does not matter.
    have halike : ∀ p : Parameter, p.name = name → p.type = type →
        ((∀ v, fallbackValue scope type text = .ok v ↔
          Binding.coerce function p text scope = .ok v) ↔ Faithful scope name text type) := by
      rintro p rfl rfl
      exact alike_iff htext
    cases hdefault : fallbackValue scope type text with
    | ok v =>
        rw [hdefault] at halike
        constructor
        · rintro ⟨w, ⟨⟩, hw⟩
          exact (halike _ rfl rfl).mp fun u => by rw [hw]
        · intro hfaithful
          exact ⟨v, rfl, ((halike _ rfl rfl).mpr hfaithful v).mp rfl⟩
    | error fault =>
        rw [hdefault] at halike
        constructor
        · intro h
          have hrefused := h { name, kind := .positionalOrKeyword, type } rfl rfl rfl
          exact (halike _ rfl rfl).mp fun v => iff_of_false nofun (hrefused v)
        · intro hfaithful p hname htype _ v hv
          cases ((halike p hname htype).mpr hfaithful v).mpr hv

/-! ## Signatures with defaults -/

/-- The default of a parameter has been read from a declaration. A slash may have come
behind it. -/
def Declared (scope : Scope) (p : Parameter) : Prop :=
  ∃ starred declaration text q, Declares declaration q.name q.type text ∧
    parseParameter scope false starred declaration = .ok q ∧ (p = q ∨ p = slashed q)

section

variable {function : String} {scope : Scope} {p : Parameter}

theorem slashed_slashed (p : Parameter) : slashed (slashed p) = slashed p := by
  cases hp : p.kind <;> simp [slashed, hp]

theorem fallback_slashed (p : Parameter) : (slashed p).fallback = p.fallback := by
  unfold slashed
  split <;> rfl

theorem Declared.slash (h : Declared scope p) : Declared scope (slashed p) := by
  obtain ⟨starred, declaration, text, q, hdeclares, hq, hp⟩ := h
  refine ⟨starred, declaration, text, q, hdeclares, hq, .inr ?_⟩
  rcases hp with rfl | rfl
  · rfl
  · exact slashed_slashed q

theorem Declared.kind_ne_variadic (h : Declared scope p) : p.kind ≠ .variadic := by
  obtain ⟨starred, declaration, text, q, -, hq, hp⟩ := h
  have hkind : q.kind ≠ .variadic := by
    rw [(parseParameter_eq_ok hq).2]
    cases starred <;> decide
  rcases hp with rfl | rfl
  · exact hkind
  · exact fun hslashed => hkind ((kind_slashed_eq_variadic q).mp hslashed)

/-- A default is declared, and not for what is left over. -/
theorem declares_of_parseParameter {variadic starred : Bool} {declaration : String}
    (h : parseParameter scope variadic starred declaration = .ok p)
    (hp : p.fallback.isSome = true) :
    variadic = false ∧ ∃ text, Declares declaration p.name p.type text := by
  unfold parseParameter at h
  generalize hparts : declarationParts declaration = parts at h
  obtain ⟨head, default⟩ := parts
  obtain ⟨⟨name, type⟩, hhead, h⟩ := bind_eq_ok h
  dsimp only at h
  split at h
  · cases h
  · next hname =>
    split at h
    · cases h
    · next hplain =>
      obtain ⟨fallback, hfallback, h⟩ := bind_eq_ok h
      cases h
      cases default with
      | none =>
          cases hfallback
          cases hp
      | some text =>
          refine ⟨by simpa using hplain, text, ⟨head, hparts, hhead⟩, ?_⟩
          simpa using hname

/-- The piece is one of those between the parentheses of a signature. -/
def IsPiece (signature piece : String) : Prop :=
  ∃ name inner pieces, outline (Text.trim signature) = .ok (name, inner) ∧
    Text.isIdentifier name = true ∧ Sequence.split .arguments [name] inner = .ok pieces ∧
      piece ∈ pieces

section

variable {P : Parameter → Prop}

/-- Marks bring no parameters, and a declaration brings the one that it is read as. -/
theorem forall_of_take {d e : Draft} {whole name piece : String}
    (h : d.take scope whole name piece = .ok e) (hslash : ∀ p, P p → P (slashed p))
    (hdeclare : ∀ {variadic starred declaration q},
      withoutStar (Text.trim piece) = (variadic, declaration) →
      parseParameter scope variadic starred declaration = .ok q → P q)
    (hd : ∀ p ∈ d.parameters, P p) : ∀ p ∈ e.parameters, P p := by
  unfold Draft.take at h
  split at h
  · cases h
  · cases h
    intro p hp
    obtain ⟨q, hq, rfl⟩ := List.mem_map.mp hp
    exact hslash q (hd q hq)
  · cases h
    exact hd
  · unfold Draft.declare at h
    rcases hdeclared : withoutStar (Text.trim piece) with ⟨variadic, declaration⟩
    rw [hdeclared] at h
    obtain ⟨q, hq, h⟩ := bind_eq_ok h
    dsimp only at h
    split at h
    · cases h
    · split at h
      · cases h
      · cases h
        exact List.forall_mem_append.mpr ⟨hd, List.forall_mem_singleton.mpr (hdeclare hdeclared hq)⟩

/-- What holds of all that the pieces of a signature declare, whatever slashes make of it, holds
of its parameters. -/
theorem forall_of_parse {signature : String} {s : Signature}
    (h : parse scope signature = .ok s) (hslash : ∀ p, P p → P (slashed p))
    (hdeclare : ∀ {piece variadic starred declaration q}, IsPiece signature piece →
      withoutStar (Text.trim piece) = (variadic, declaration) →
      parseParameter scope variadic starred declaration = .ok q → P q) :
    ∀ p ∈ s.parameters, P p := by
  obtain ⟨⟨name, inner⟩, houtline, h⟩ := bind_eq_ok h
  dsimp only at h
  split at h
  · cases h
  · next hname =>
    obtain ⟨parameters, hparameters, h⟩ := bind_eq_ok h
    cases h
    unfold parseParameters at hparameters
    split at hparameters
    · cases hparameters
      exact List.forall_mem_nil _
    · obtain ⟨pieces, hsplit, hparameters⟩ := bind_eq_ok hparameters
      obtain ⟨draft, hdraft, hparameters⟩ := bind_eq_ok hparameters
      cases hparameters
      have htake : ∀ piece ∈ pieces, ∀ d e : Draft,
          d.take scope (Text.trim signature) name piece = .ok e →
            (∀ p ∈ d.parameters, P p) → ∀ p ∈ e.parameters, P p := by
        intro piece hpiece d e htake hd
        have hmem : IsPiece signature piece :=
          ⟨name, inner, pieces, houtline, by simpa using hname, hsplit, hpiece⟩
        exact forall_of_take htake hslash (hdeclare hmem) hd
      exact foldlM_keeps htake hdraft (List.forall_mem_nil _)

end

/-- Every default of a signature has been read from a declaration. -/
theorem declared_of_parse {signature : String} {s : Signature}
    (h : parse scope signature = .ok s) :
    ∀ p ∈ s.parameters, p.fallback.isSome = true → Declared scope p := by
  refine forall_of_parse h (fun p hp hslashed => ?_) fun _ _ hq hsome => ?_
  · rw [fallback_slashed] at hslashed
    exact (hp hslashed).slash
  · obtain ⟨rfl, text, hdeclares⟩ := declares_of_parseParameter hq hsome
    exact ⟨_, _, text, _, hdeclares, hq, .inl rfl⟩

end

/-- Where a default and an argument mean the same. A signature takes its defaults from
declarations, and in calls they stand in for arguments as they were read, also where they
count ticks. -/
theorem default_faithful (function : String) (scope : Scope) :
    (∀ {starred : Bool} {declaration name text : String} {type : ParameterType},
      Declares declaration name type text →
        (MeansArgument function scope starred declaration name type text ↔
          Faithful scope name text type)) ∧
    ∀ {signature : String} {s : Signature}, parse scope signature = .ok s →
      ∀ p ∈ s.parameters, p.fallback.isSome = true →
        Declared scope p ∧ Binding.FallsBack function p := by
  refine ⟨fun h => meansArgument_iff function scope _ h, fun h p hp hfallback => ?_⟩
  have hdeclared := declared_of_parse h p hp hfallback
  obtain ⟨v, hv⟩ := Option.isSome_iff_exists.mp hfallback
  exact ⟨hdeclared, Binding.fallsBack hv hdeclared.kind_ne_variadic⟩

/-- A text that is `no` by default. -/
def answer : Parameter :=
  { name := "text", kind := .positionalOrKeyword, type := .text, fallback := some (.text "no") }

theorem default_faithful_answer :
    Declares "duration: int = 2 + 1" "duration" .int "2 + 1" ∧
    MeansArgument "f" ∅ false "duration: int = 2 + 1" "duration" .int "2 + 1" ∧
    parse ∅ "f(text: text = no)" = .ok ⟨"f", [answer]⟩ ∧
    Declared ∅ answer ∧ Binding.FallsBack "f" answer := by
  have hdeclares : Declares "duration: int = 2 + 1" "duration" .int "2 + 1" :=
    ⟨⟨"duration: int", rfl, rfl⟩, rfl⟩
  have hparse : parse ∅ "f(text: text = no)" = .ok ⟨"f", [answer]⟩ := rfl
  obtain ⟨hiff, hcalls⟩ := default_faithful "f" ∅
  refine ⟨hdeclares, (hiff hdeclares).mpr (.int (by decide +kernel)), hparse, ?_⟩
  exact hcalls hparse answer List.mem_cons_self rfl

/-- A word for a truth value is refused as a default, a number with a part behind the point
is rounded, and a count of ticks may be no integer. -/
theorem not_default_faithful_each :
    (parse ∅ "f(flag: bool = true)").toOption.isNone = true ∧
    (Declares "flag: bool = true" "flag" .bool "true" ∧
      ¬MeansArgument "f" ∅ false "flag: bool = true" "flag" .bool "true") ∧
    (Declares "n: int = 1.5" "n" .int "1.5" ∧
      ¬MeansArgument "f" ∅ false "n: int = 1.5" "n" .int "1.5") ∧
    (Declares "duration: float = 3" "duration" .float "3" ∧
      ¬MeansArgument "f" ∅ false "duration: float = 3" "duration" .float "3") := by
  have hflag : Declares "flag: bool = true" "flag" .bool "true" :=
    ⟨⟨"flag: bool", rfl, rfl⟩, rfl⟩
  have hint : Declares "n: int = 1.5" "n" .int "1.5" := ⟨⟨"n: int", rfl, rfl⟩, rfl⟩
  have hticks : Declares "duration: float = 3" "duration" .float "3" :=
    ⟨⟨"duration: float", rfl, rfl⟩, rfl⟩
  refine ⟨by decide +kernel, ⟨hflag, ?_⟩, ⟨hint, ?_⟩, ⟨hticks, ?_⟩⟩
  · rw [meansArgument_iff "f" ∅ false hflag]
    have hundefined : ∀ v, Expression.evaluate "true" ∅ = .ok v → False := by decide +kernel
    intro hfaithful
    cases hfaithful with
    | none h => exact absurd h (by decide)
    | bool _ hword =>
        obtain ⟨v, hv, -⟩ := hword true rfl
        exact hundefined v hv
    | refused h _ _ => exact absurd h (by decide)
  · rw [meansArgument_iff "f" ∅ false hint]
    intro hfaithful
    cases hfaithful with
    | none h => exact absurd h (by decide)
    | int hwhole =>
        revert hwhole
        decide +kernel
    | refused h _ _ => exact absurd h (by decide)
  · rw [meansArgument_iff "f" ∅ false hticks]
    have hnumber : ¬∀ v, Expression.evaluate "3" ∅ = .ok v → False := by decide +kernel
    intro hfaithful
    cases hfaithful with
    | none h => exact absurd h (by decide)
    | float h => exact h rfl
    | refused _ _ hrefused => exact hnumber hrefused

end Signature

end Parkour.Language
