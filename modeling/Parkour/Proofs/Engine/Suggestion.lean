import Mathlib.Algebra.BigOperators.Group.Finset.Basic
import Mathlib.Algebra.Order.BigOperators.Group.Multiset
import Mathlib.Data.Multiset.Count
import Mathlib.Data.Prod.Lex
import Mathlib.Data.String.Basic
import Parkour.Proofs.Engine.Registry

/-!
# Which names are suggested

The candidates that are close to a name stand in one order: those that go on from it, those
that contain it, and those that share most of their characters with it. The suggestions are the
first four of them, however often and in whatever order the candidates were given.
-/

namespace Parkour.Language.Suggestion

/-- How many characters two texts do not share, each counted as often as it occurs. -/
def apart (a b : List Char) : Nat :=
  ((a : Multiset Char) - (b : Multiset Char)).card +
    ((b : Multiset Char) - (a : Multiset Char)).card

/-- The candidates that are close to a name, with their ranks. The name itself is not one of
them, in whatever case. -/
inductive Close (name : String) : Rank → Prop where
  /-- It goes on from the name. -/
  | starts {candidate : String} (hne : Text.lower candidate ≠ Text.lower name)
      (h : (Text.lower name).toList <+: (Text.lower candidate).toList) :
      Close name ⟨0, candidate.utf8ByteSize, candidate⟩
  /-- It contains the name behind other characters. -/
  | contains {candidate : String}
      (hstart : ¬(Text.lower name).toList <+: (Text.lower candidate).toList)
      (h : (Text.lower name).toList <:+: (Text.lower candidate).toList) :
      Close name ⟨1, candidate.utf8ByteSize, candidate⟩
  /-- It does not contain the name, and differs from it in fewer characters than it has. -/
  | similar {candidate : String}
      (hcontains : ¬(Text.lower name).toList <:+: (Text.lower candidate).toList)
      (h : apart (Text.lower name).toList (Text.lower candidate).toList < candidate.length) :
      Close name ⟨2, apart (Text.lower name).toList (Text.lower candidate).toList, candidate⟩

/-- One rank comes before another: by the tier, then by the measure, then by the text. -/
def Rank.Precedes (a b : Rank) : Prop :=
  a.tier < b.tier ∨ a.tier = b.tier ∧
    (a.measure < b.measure ∨ a.measure = b.measure ∧ a.text < b.text)

/-! ## What a candidate is worth -/

theorem nodup_eraseDups {α : Type} [BEq α] [LawfulBEq α] (as : List α) : as.eraseDups.Nodup := by
  cases as with
  | nil => simp
  | cons a rest =>
      rw [List.eraseDups_cons, List.nodup_cons]
      exact ⟨by simp, nodup_eraseDups (rest.filter fun b => !b == a)⟩
termination_by as.length
decreasing_by exact Nat.lt_succ_of_le (List.length_filter_le _ _)

theorem occursIn_iff {part cs : List Char} : occursIn part cs = true ↔ part <:+: cs := by
  induction cs with
  | nil => simp [occursIn]
  | cons c cs ih =>
      rw [occursIn, Bool.or_eq_true, ih, List.isPrefixOf_iff_prefix, List.infix_cons_iff]

/-- Counting character by character gives all that is not shared. -/
theorem distance_eq_apart (a b : List Char) : distance a b = apart a b := by
  have hfold : ∀ (cs : List Char) (n : Nat),
      cs.foldl (fun n c => n + (a.count c - b.count c) + (b.count c - a.count c)) n =
        n + (cs.map fun c => (a.count c - b.count c) + (b.count c - a.count c)).sum := by
    intro cs
    induction cs with
    | nil => simp
    | cons c cs ih =>
        intro n
        rw [List.foldl_cons, ih, List.map_cons, List.sum_cons]
        omega
  have hcard : ∀ s t : List Char, s ⊆ a ++ b →
      ∑ c ∈ (a ++ b).eraseDups.toFinset, (s.count c - t.count c) =
        ((s : Multiset Char) - (t : Multiset Char)).card := by
    intro s t hsubset
    rw [← Multiset.sum_count_eq_card (s := (a ++ b).eraseDups.toFinset)]
    · simp only [Multiset.count_sub, Multiset.coe_count]
    · intro c hc
      rw [List.mem_toFinset, List.mem_eraseDups]
      exact hsubset (Multiset.mem_coe.mp (Multiset.mem_of_le (Multiset.sub_le_self _ _) hc))
  rw [distance, hfold, Nat.zero_add, ← List.sum_toFinset _ (nodup_eraseDups _),
    Finset.sum_add_distrib, hcard a b (List.subset_append_left a b),
    hcard b a (List.subset_append_right a b), apart]

theorem rank?_eq_some {name candidate : String} {r : Rank} :
    rank? name candidate = some r ↔ r.text = candidate ∧ Close name r := by
  have hlength : (Text.lower candidate).toList.length = candidate.length := by
    rw [Text.toList_lower, List.length_map, String.length_toList]
  constructor
  · intro h
    simp only [rank?, hlength, distance_eq_apart, List.isPrefixOf_iff_prefix, occursIn_iff] at h
    split_ifs at h with hsame hprefix hwithin hnear
    · cases h
      exact ⟨rfl, .starts (fun heq => hsame (by rw [heq])) hprefix⟩
    · cases h
      exact ⟨rfl, .contains hprefix hwithin⟩
    · cases h
      exact ⟨rfl, .similar hwithin hnear⟩
  · rintro ⟨rfl, h⟩
    cases h with
    | starts hne h =>
        have hsame : (Text.lower _).toList ≠ (Text.lower name).toList :=
          fun heq => hne (String.toList_inj.mp heq)
        simp only [rank?, List.isPrefixOf_iff_prefix, if_neg hsame, if_pos h]
    | contains hstart h =>
        have hsame : (Text.lower _).toList ≠ (Text.lower name).toList :=
          fun heq => hstart (heq ▸ List.prefix_rfl)
        simp only [rank?, List.isPrefixOf_iff_prefix, occursIn_iff, if_neg hsame, if_neg hstart,
          if_pos h]
    | similar hcontains h =>
        have hsame : (Text.lower _).toList ≠ (Text.lower name).toList :=
          fun heq => hcontains (heq ▸ List.infix_rfl)
        have hstart := fun hprefix => hcontains (List.IsPrefix.isInfix hprefix)
        simp only [rank?, hlength, distance_eq_apart, List.isPrefixOf_iff_prefix, occursIn_iff,
          if_neg hsame, if_neg hstart, if_neg hcontains, if_pos h]

/-! ## The order of the candidates -/

namespace Rank

variable {a b : Rank}

/-- Ranks are compared as words: by the first part in which they differ. -/
def key (r : Rank) : ℕ ×ₗ ℕ ×ₗ String := toLex (r.tier, toLex (r.measure, r.text))

theorem key_injective : Function.Injective key := by
  rintro ⟨tier, measure, text⟩ ⟨tier', measure', text'⟩ h
  simpa [key] using h

theorem precedes_iff : a.Precedes b ↔ a.key < b.key := by
  simp only [Precedes, key, Prod.Lex.toLex_lt_toLex]

theorem le_iff : a.le b = true ↔ a.key ≤ b.key := by
  simp only [le, key, Prod.Lex.toLex_le_toLex, Bool.or_eq_true, Bool.and_eq_true,
    decide_eq_true_eq]

end Rank

/-- All close candidates in their order. -/
def ranking (name : String) (candidates : List String) : List Rank :=
  (candidates.eraseDups.filterMap (rank? name)).mergeSort Rank.le

section

variable (name : String) (candidates : List String)

theorem suggest_eq : suggest name candidates = ((ranking name candidates).map Rank.text).take 4 :=
  rfl

theorem mem_ranking {r : Rank} :
    r ∈ ranking name candidates ↔ r.text ∈ candidates ∧ Close name r := by
  rw [ranking, (List.mergeSort_perm _ _).mem_iff, List.mem_filterMap]
  simp only [List.mem_eraseDups, rank?_eq_some]
  constructor
  · rintro ⟨candidate, hmem, rfl, hclose⟩
    exact ⟨hmem, hclose⟩
  · rintro ⟨hmem, hclose⟩
    exact ⟨r.text, hmem, rfl, hclose⟩

/-- Nothing stands in the order twice. -/
theorem nodup_ranking : (ranking name candidates).Nodup := by
  rw [ranking, (List.mergeSort_perm _ _).nodup_iff]
  refine (nodup_eraseDups candidates).filterMap ?_
  intro first second r hfirst hsecond
  rw [← (rank?_eq_some.mp hfirst).1, ← (rank?_eq_some.mp hsecond).1]

theorem pairwise_ranking : (ranking name candidates).Pairwise Rank.Precedes := by
  have hsorted : (ranking name candidates).Pairwise fun a b => a.le b = true := by
    apply List.pairwise_mergeSort
    · intro a b c hab hbc
      rw [Rank.le_iff] at hab hbc ⊢
      exact hab.trans hbc
    · intro a b
      rw [Bool.or_eq_true, Rank.le_iff, Rank.le_iff]
      exact le_total _ _
  refine (hsorted.and (nodup_ranking name candidates)).imp ?_
  rintro a b ⟨hle, hne⟩
  rw [Rank.precedes_iff]
  exact lt_of_le_of_ne (Rank.le_iff.mp hle) fun heq => hne (Rank.key_injective heq)

end

/-- The order depends on nothing but which candidates there are. -/
theorem ranking_eq {name : String} {candidates others : List String}
    (h : ∀ candidate, candidate ∈ candidates ↔ candidate ∈ others) :
    ranking name candidates = ranking name others := by
  have hperm : (ranking name candidates).Perm (ranking name others) := by
    rw [List.perm_ext_iff_of_nodup (nodup_ranking _ _) (nodup_ranking _ _)]
    intro r
    rw [mem_ranking, mem_ranking, h]
  refine hperm.eq_of_pairwise ?_ (pairwise_ranking _ _) (pairwise_ranking _ _)
  intro a b _ _ hab hba
  rw [Rank.precedes_iff] at hab hba
  exact absurd hab hba.asymm

/-- A rank tells which candidate it belongs to, and is the only one of it. -/
theorem Close.eq {name : String} {a b : Rank} (ha : Close name a) (hb : Close name b)
    (h : a.text = b.text) : a = b := by
  have hsame : rank? name b.text = some a := rank?_eq_some.mpr ⟨h, ha⟩
  rw [rank?_eq_some.mpr ⟨rfl, hb⟩] at hsame
  exact (Option.some.inj hsame).symm

/-- The name itself is not close, in whatever case. -/
theorem Close.lower_ne {name : String} {r : Rank} (h : Close name r) :
    Text.lower r.text ≠ Text.lower name := by
  intro heq
  cases h with
  | starts hne _ => exact hne heq
  | contains hstart _ => exact hstart (heq ▸ List.prefix_rfl)
  | similar hcontains _ => exact hcontains (heq ▸ List.infix_rfl)

theorem nodup_texts (name : String) (candidates : List String) :
    ((ranking name candidates).map Rank.text).Nodup := by
  refine (nodup_ranking name candidates).map_on ?_
  intro a ha b hb h
  exact ((mem_ranking _ _).mp ha).2.eq ((mem_ranking _ _).mp hb).2 h

theorem mem_suggest {name : String} {candidates : List String} {candidate : String}
    (h : candidate ∈ suggest name candidates) :
    candidate ∈ candidates ∧ ∃ r, r.text = candidate ∧ Close name r := by
  obtain ⟨r, hr, rfl⟩ := List.mem_map.mp (List.mem_of_mem_take h)
  obtain ⟨hmem, hclose⟩ := (mem_ranking _ _).mp hr
  exact ⟨hmem, r, rfl, hclose⟩

end Parkour.Language.Suggestion

namespace Parkour.Engine

open Parkour.Language
open Suggestion (Rank Close suggest)

/-- Every name of a model finds one of its functions. -/
theorem exists_find?_of_mem_names {axis : Player.Axis} {name : String}
    (h : name ∈ Catalogue.names axis) : ∃ b, Catalogue.find? axis name = some b := by
  obtain ⟨b, hb, hname⟩ := List.mem_flatMap.mp h
  obtain ⟨hall, hbelongs⟩ := List.mem_filter.mp hb
  apply Option.isSome_iff_exists.mp
  rw [Catalogue.find?, Catalogue.lower_names b hall name hname, List.find?_isSome]
  exact ⟨b, hall, Bool.and_eq_true_iff.mpr ⟨hbelongs, List.contains_iff_mem.mpr hname⟩⟩

/-- What is suggested in a world stands for something in it. -/
theorem resolve_of_mem_suggestions {σ : Type} {w : World σ} {name found : String}
    (h : found ∈ suggestions w.player.axis w.functions name) :
    (∃ b ∈ Catalogue.all, b.belongsTo w.player.axis = true ∧
      w.resolve found = .ok (.builtin b)) ∨
    ∃ f, w.functions.get? found = some f ∧ w.resolve found = .ok (.user f) := by
  cases hfind : Catalogue.find? w.player.axis found with
  | some b =>
      obtain ⟨hall, hbelongs⟩ := Catalogue.find?_eq_some hfind
      exact .inl ⟨b, hall, hbelongs, by rw [World.resolve, hfind]⟩
  | none =>
      rcases List.mem_append.mp (Suggestion.mem_suggest h).1 with hname | hkey
      · obtain ⟨b, hb⟩ := exists_find?_of_mem_names hname
        rw [hfind] at hb
        cases hb
      · obtain ⟨f, hf⟩ := Dictionary.exists_of_mem_keys hkey
        exact .inr ⟨f, hf, by rw [World.resolve, hfind, hf]⟩

/-- The suggestions for a name are the first four of the close candidates in their order, each
of which stands in it once. They depend on nothing but which candidates there are, and
what a world suggests stands for a builtin of its model or for a function that it has. -/
theorem suggest_best (name : String) :
    (∀ candidates : List String, ∃ ranked : List Rank,
      (∀ r, r ∈ ranked ↔ r.text ∈ candidates ∧ Close name r) ∧
      ranked.Pairwise Rank.Precedes ∧ (ranked.map Rank.text).Nodup ∧
      suggest name candidates = (ranked.map Rank.text).take 4 ∧
      ∀ found ∈ suggest name candidates, Text.lower found ≠ Text.lower name) ∧
    (∀ candidates others : List String,
      (∀ candidate, candidate ∈ candidates ↔ candidate ∈ others) →
      suggest name candidates = suggest name others) ∧
    ∀ {σ : Type} (w : World σ), ∀ found ∈ suggestions w.player.axis w.functions name,
      (∃ b ∈ Catalogue.all, b.belongsTo w.player.axis = true ∧
        w.resolve found = .ok (.builtin b)) ∨
      ∃ f, w.functions.get? found = some f ∧ w.resolve found = .ok (.user f) := by
  refine ⟨?_, ?_, fun w found h => resolve_of_mem_suggestions h⟩
  · intro candidates
    refine ⟨Suggestion.ranking name candidates, ?_, ?_, ?_, ?_, ?_⟩
    · exact fun r => Suggestion.mem_ranking name candidates
    · exact Suggestion.pairwise_ranking name candidates
    · exact Suggestion.nodup_texts name candidates
    · exact Suggestion.suggest_eq name candidates
    · intro found hfound
      obtain ⟨-, r, rfl, hclose⟩ := Suggestion.mem_suggest hfound
      exact hclose.lower_ne
  · intro candidates others h
    rw [Suggestion.suggest_eq, Suggestion.suggest_eq, Suggestion.ranking_eq h]

theorem suggest_best_reordered :
    suggest "out" ["walkout", "about", "outz", "OUT", "outx", "about"] =
      ["outx", "outz", "about", "walkout"] := by
  have hsame : ∀ candidate,
      candidate ∈ ["walkout", "about", "outz", "OUT", "outx", "about"] ↔
        candidate ∈ ["outx", "outz", "about", "walkout", "OUT"] := by
    intro candidate
    simp only [List.mem_cons, List.not_mem_nil, or_false]
    tauto
  have hranks : ["outx", "outz", "about", "walkout", "OUT"].eraseDups.filterMap
      (Suggestion.rank? "out") =
        [⟨0, 4, "outx"⟩, ⟨0, 4, "outz"⟩, ⟨1, 5, "about"⟩, ⟨1, 7, "walkout"⟩] := rfl
  calc
    suggest "out" ["walkout", "about", "outz", "OUT", "outx", "about"] =
        suggest "out" ["outx", "outz", "about", "walkout", "OUT"] :=
      (suggest_best "out").2.1 _ _ hsame
    _ = ["outx", "outz", "about", "walkout"] := by
      rw [suggest, hranks, List.mergeSort_of_pairwise (by decide +kernel)]
      rfl

end Parkour.Engine
