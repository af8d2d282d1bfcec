import Parkour.Language.Signature
import Parkour.Proofs.Outcome

/-!
# The shape of parameter lists

Whatever marks and declarations a signature is made of, its parameters have different
names, and they come in the order in which a call can fill them: by place alone, by place
or name, the one that takes what is left, by name alone.
-/

namespace Parkour.Language

/-- The place of a kind in the order of a signature. -/
def ParameterKind.rank : ParameterKind → Nat
  | .positionalOnly => 0
  | .positionalOrKeyword => 1
  | .variadic => 2
  | .keywordOnly => 3

/-- A list of parameters that calls can fill. -/
structure Shaped (parameters : List Parameter) : Prop where
  identifiers : ∀ p ∈ parameters, Text.isIdentifier p.name = true
  distinct : (parameters.map Parameter.name).Nodup
  ordered : parameters.Pairwise fun p q => p.kind.rank ≤ q.kind.rank
  variadic : parameters.countP (·.kind = .variadic) ≤ 1

namespace Shaped

variable {parameters : List Parameter}

theorem nil : Shaped [] where
  identifiers := List.forall_mem_nil _
  distinct := List.nodup_nil
  ordered := .nil
  variadic := Nat.zero_le 1

/-- A parameter with a new name fits behind the others if its kind does. -/
theorem append (h : Shaped parameters) {p : Parameter} (hname : Text.isIdentifier p.name = true)
    (hnew : ∀ q ∈ parameters, q.name ≠ p.name)
    (hkind : ∀ q ∈ parameters, q.kind.rank ≤ p.kind.rank)
    (hvariadic : p.kind = .variadic → ∀ q ∈ parameters, q.kind ≠ .variadic) :
    Shaped (parameters ++ [p]) := by
  constructor
  · exact List.forall_mem_append.mpr ⟨h.identifiers, by simpa using hname⟩
  · rw [List.map_append, List.nodup_append]
    refine ⟨h.distinct, List.pairwise_singleton _ _, ?_⟩
    intro name hmem other hother
    obtain ⟨q, hq, rfl⟩ := List.mem_map.mp hmem
    rw [List.mem_singleton.mp hother]
    exact hnew q hq
  · rw [List.pairwise_append]
    refine ⟨h.ordered, List.pairwise_singleton _ _, ?_⟩
    intro q hq other hother
    rw [List.mem_singleton.mp hother]
    exact hkind q hq
  · rw [List.countP_append]
    by_cases hp : p.kind = .variadic
    · have hnone : parameters.countP (·.kind = .variadic) = 0 := by
        simpa [List.countP_eq_zero] using hvariadic hp
      simp [hnone, hp]
    · simpa [hp] using h.variadic

end Shaped

namespace Signature

@[simp] theorem name_slashed (p : Parameter) : (slashed p).name = p.name := by
  unfold slashed
  split <;> rfl

@[simp] theorem kind_slashed_eq_variadic (p : Parameter) :
    (slashed p).kind = .variadic ↔ p.kind = .variadic := by
  unfold slashed
  split
  · next h => simp [h]
  · rfl

/-- A slash takes the place of one kind alone, so the order stays. -/
theorem rank_slashed_le {p q : Parameter} (h : p.kind.rank ≤ q.kind.rank) :
    (slashed p).kind.rank ≤ (slashed q).kind.rank := by
  unfold slashed
  cases hp : p.kind <;> cases hq : q.kind <;> simp_all [ParameterKind.rank]

theorem rank_slashed_le_self (p : Parameter) : (slashed p).kind.rank ≤ p.kind.rank := by
  unfold slashed
  split
  · next h => simp [h, ParameterKind.rank]
  · exact Nat.le_refl _

/-- Before a star there are only parameters that are filled by place. -/
structure Draft.Shaped (d : Draft) : Prop where
  parameters : Language.Shaped d.parameters
  unstarred : d.starred = false → ∀ p ∈ d.parameters, p.kind.rank ≤ 1

/-- What a declaration gives. The kind follows from the marks before it. -/
theorem parseParameter_eq_ok {scope : Scope} {variadic starred : Bool} {declaration : String}
    {p : Parameter} (h : parseParameter scope variadic starred declaration = .ok p) :
    Text.isIdentifier p.name = true ∧
      p.kind = if variadic then .variadic
        else if starred then .keywordOnly else .positionalOrKeyword := by
  unfold parseParameter at h
  generalize declarationParts declaration = parts at h
  obtain ⟨⟨name, type⟩, -, h⟩ := bind_eq_ok h
  dsimp only at h
  split at h
  · cases h
  · next hname =>
    split at h
    · cases h
    · obtain ⟨fallback, -, h⟩ := bind_eq_ok h
      cases h
      exact ⟨by simpa using hname, rfl⟩

namespace Draft

variable {d e : Draft} {scope : Scope}

theorem Shaped.slash (h : d.Shaped) :
    Draft.Shaped { d with parameters := d.parameters.map slashed } where
  parameters :=
    { identifiers := by simpa using h.parameters.identifiers
      distinct := by simpa [Function.comp_def] using h.parameters.distinct
      ordered := List.pairwise_map.mpr (h.parameters.ordered.imp rank_slashed_le)
      variadic := by simpa [List.countP_map, Function.comp_def] using h.parameters.variadic }
  unstarred hstar p hmem := by
    obtain ⟨q, hq, rfl⟩ := List.mem_map.mp hmem
    exact Nat.le_trans (rank_slashed_le_self q) (h.unstarred hstar q hq)

theorem Shaped.star (h : d.Shaped) : Draft.Shaped { d with starred := true } where
  parameters := h.parameters
  unstarred := nofun

/-- A declaration keeps the shape: its name is new, and its kind comes last. -/
theorem Shaped.declare (h : d.Shaped) {name piece : String}
    (he : d.declare scope name piece = .ok e) : e.Shaped := by
  unfold Draft.declare at he
  generalize withoutStar piece = declared at he
  obtain ⟨variadic, declaration⟩ := declared
  obtain ⟨p, hp, he⟩ := bind_eq_ok he
  obtain ⟨hname, hkind⟩ := parseParameter_eq_ok hp
  dsimp only at he
  split at he
  · cases he
  · next hnew =>
    split at he
    · cases he
    · next hstar =>
      cases he
      have hothers : ∀ q ∈ d.parameters, q.name ≠ p.name := by simpa using hnew
      cases hstarred : d.starred with
      | false =>
          -- The parameters so far are filled by place, so every kind may follow.
          have hlow := h.unstarred hstarred
          have hrank : 1 ≤ p.kind.rank := by
            rw [hkind, hstarred]
            cases variadic <;> decide
          refine ⟨h.parameters.append hname hothers ?_ ?_, ?_⟩
          · exact fun q hq => Nat.le_trans (hlow q hq) hrank
          · intro _ q hq hvariadic
            have hle := hlow q hq
            rw [hvariadic] at hle
            exact absurd hle (by decide)
          · intro hend
            have hplain : variadic = false := by simpa [hstarred] using hend
            refine List.forall_mem_append.mpr ⟨hlow, ?_⟩
            simp [hkind, hplain, hstarred, ParameterKind.rank]
      | true =>
          -- After a star only parameters that are given by name are left.
          have hplain : variadic = false := by simpa [hstarred] using hstar
          have hkeyword : p.kind = .keywordOnly := by simp [hkind, hplain, hstarred]
          refine ⟨h.parameters.append hname hothers ?_ ?_, ?_⟩
          · intro q _
            rw [hkeyword]
            cases q.kind <;> decide
          · rw [hkeyword]
            exact nofun
          · intro hend
            simp at hend

theorem Shaped.take (h : d.Shaped) {whole name piece : String}
    (he : d.take scope whole name piece = .ok e) : e.Shaped := by
  unfold Draft.take at he
  split at he
  · cases he
  · cases he
    exact h.slash
  · cases he
    exact h.star
  · exact h.declare he

end Draft

theorem shaped_of_parseParameters {scope : Scope} {whole name inner : String}
    {parameters : List Parameter}
    (h : parseParameters scope whole name inner = .ok parameters) : Shaped parameters := by
  unfold parseParameters at h
  split at h
  · cases h
    exact .nil
  · obtain ⟨pieces, -, h⟩ := bind_eq_ok h
    obtain ⟨draft, hdraft, h⟩ := bind_eq_ok h
    cases h
    have hstart : Draft.Shaped {} := ⟨.nil, fun _ => List.forall_mem_nil _⟩
    exact (foldlM_keeps (fun _ _ _ _ htake hshaped => hshaped.take htake) hdraft hstart).parameters

/-- A signature that can be read has an identifier as its name and parameters that calls
can fill. -/
theorem shaped_of_parse {scope : Scope} {text : String} {s : Signature}
    (h : parse scope text = .ok s) :
    Text.isIdentifier s.name = true ∧ Shaped s.parameters := by
  obtain ⟨⟨name, inner⟩, -, h⟩ := bind_eq_ok h
  dsimp only at h
  split at h
  · cases h
  · next hname =>
    obtain ⟨parameters, hparameters, h⟩ := bind_eq_ok h
    cases h
    exact ⟨by simpa using hname, shaped_of_parseParameters hparameters⟩

end Signature

end Parkour.Language
