import Parkour.Text.Trim
/-!
# Terrain

The fluids and blocks that act on a player during one tick, as a set of features.
-/

namespace Parkour.Player

/-- One feature of the terrain. -/
inductive Feature where
  | water
  | lava
  | web
  | ladder
  | block
  | soulsand
deriving DecidableEq, Repr

namespace Feature

/-- All features in the order in which they are listed. -/
def all : List Feature := [.water, .lava, .web, .ladder, .block, .soulsand]

/-- The full name of a feature. -/
def name : Feature → String
  | .water => "water"
  | .lava => "lava"
  | .web => "web"
  | .ladder => "ladder"
  | .block => "block"
  | .soulsand => "soulsand"

/-- The feature of a full or short name in any case. -/
def ofName? (name : String) : Option Feature :=
  match Text.lower name with
  | "water" | "wt" => some .water
  | "lava" | "lv" => some .lava
  | "web" | "wb" => some .web
  | "ladder" | "ld" | "vine" => some .ladder
  | "block" | "bl" => some .block
  | "soulsand" | "ss" => some .soulsand
  | _ => none

end Feature

/-- The features at one place. -/
structure Terrain where
  /-- In water. -/
  water : Bool := false
  /-- In lava. -/
  lava : Bool := false
  /-- In a web. -/
  web : Bool := false
  /-- On a ladder or a vine. -/
  ladder : Bool := false
  /-- Blocking with the item in hand. -/
  block : Bool := false
  /-- On soul sand. -/
  soulsand : Bool := false
deriving DecidableEq, Repr

namespace Terrain

/-- No feature. -/
def plain : Terrain := {}

/-- Every feature. -/
def every : Terrain := ⟨true, true, true, true, true, true⟩

/-- The two fluids. -/
def fluids : Terrain := { water := true, lava := true }

/-- Whether a feature is there. -/
def has (t : Terrain) : Feature → Bool
  | .water => t.water
  | .lava => t.lava
  | .web => t.web
  | .ladder => t.ladder
  | .block => t.block
  | .soulsand => t.soulsand

/-- Adds a feature. -/
def add (t : Terrain) : Feature → Terrain
  | .water => { t with water := true }
  | .lava => { t with lava := true }
  | .web => { t with web := true }
  | .ladder => { t with ladder := true }
  | .block => { t with block := true }
  | .soulsand => { t with soulsand := true }

/-- In water or in lava. -/
def inFluid (t : Terrain) : Bool := t.water || t.lava

/-- The features that `allowed` does not have. -/
def outside (t allowed : Terrain) : Terrain :=
  ⟨t.water && !allowed.water, t.lava && !allowed.lava, t.web && !allowed.web,
    t.ladder && !allowed.ladder, t.block && !allowed.block, t.soulsand && !allowed.soulsand⟩

/-- The names of the features in their order. -/
def names (t : Terrain) : List String :=
  (Feature.all.filter t.has).map Feature.name

/-- The names of the features, separated by commas. -/
def display (t : Terrain) : String :=
  ", ".intercalate t.names

/-- No feature is there. -/
def isEmpty (t : Terrain) : Bool := t == plain

/-- The features as a mask, water in the lowest bit. -/
def mask (t : Terrain) : UInt8 :=
  (if t.water then 1 else 0) + (if t.lava then 2 else 0) + (if t.web then 4 else 0) +
    (if t.ladder then 8 else 0) + (if t.block then 16 else 0) + (if t.soulsand then 32 else 0)

/-- The features of a mask; higher bits are left out. -/
def ofMask (n : Nat) : Terrain :=
  ⟨n.testBit 0, n.testBit 1, n.testBit 2, n.testBit 3, n.testBit 4, n.testBit 5⟩

end Terrain

end Parkour.Player
