import Parkour.Text.Trim
/-!
# Suggestions

The names that are closest to a misspelled one. Candidates that start with it come
first, then those that contain it, then those with similar counts of characters.
Letter case does not matter, and the name itself in another case is no suggestion.
-/

namespace Parkour.Language.Suggestion

/-- Whether one text occurs within another. -/
def occursIn (part : List Char) : List Char → Bool
  | [] => part.isEmpty
  | c :: cs => part.isPrefixOf (c :: cs) || occursIn part cs

/-- How far the counts of each character are apart, in sum. -/
def distance (a b : List Char) : Nat :=
  (a ++ b).eraseDups.foldl (fun n c => n + (a.count c - b.count c) + (b.count c - a.count c)) 0

/-- The place of a candidate in the list; the least comes first. -/
structure Rank where
  /-- How the candidate relates to the name. -/
  tier : Nat
  /-- Its length or its distance. -/
  measure : Nat
  /-- The candidate. -/
  text : String
deriving DecidableEq, Repr

/-- Compares the tier, then the measure, then the text. -/
def Rank.le (a b : Rank) : Bool :=
  a.tier < b.tier || (a.tier = b.tier &&
    (a.measure < b.measure || (a.measure = b.measure && a.text ≤ b.text)))

/-- The rank of a candidate for a name, if it is close enough. -/
def rank? (name candidate : String) : Option Rank :=
  let wanted := (Text.lower name).toList
  let lowered := (Text.lower candidate).toList
  if lowered = wanted then none
  else if wanted.isPrefixOf lowered then some ⟨0, candidate.utf8ByteSize, candidate⟩
  else if occursIn wanted lowered then some ⟨1, candidate.utf8ByteSize, candidate⟩
  else if distance wanted lowered < lowered.length then
    some ⟨2, distance wanted lowered, candidate⟩
  else none

/-- The most suggestions that are made. -/
def limit : Nat := 4

/-- The closest candidates, the best one first. -/
def suggest (name : String) (candidates : List String) : List String :=
  (((candidates.eraseDups.filterMap (rank? name)).mergeSort Rank.le).map Rank.text).take limit

end Parkour.Language.Suggestion
