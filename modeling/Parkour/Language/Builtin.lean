import Parkour.Language.Parameter
import Parkour.Player.Basic
/-!
# Builtin functions

What the language knows of each function that comes with it. An effect is either
an action, which is done at once, or a wrapper around a sequence of the caller.
-/

namespace Parkour.Language

open Player (Axis Coordinate Keys Phase Potion Terrain)

/-- The groups of functions. -/
inductive Family where
  | fastMover
  | slowMover
  | stopper
  | returner
  | calculator
deriving DecidableEq, Repr

namespace Family

/-- All groups in the order in which they are listed. -/
def all : List Family := [.fastMover, .slowMover, .stopper, .returner, .calculator]

/-- The name of a group. -/
def name : Family → String
  | .fastMover => "fast-movers"
  | .slowMover => "slow-movers"
  | .stopper => "stoppers"
  | .returner => "returners"
  | .calculator => "calculators"

/-- The group of a full or short name in any case. Underscores count as hyphens. -/
def ofName? (name : String) : Option Family :=
  match (Text.lower name).map fun c => if c = '_' then '-' else c with
  | "fast" | "fast-movers" | "fastmover" | "fast-mover" => some .fastMover
  | "slow" | "slow-movers" | "slowmover" | "slow-mover" => some .slowMover
  | "stop" | "stoppers" | "stopper" => some .stopper
  | "out" | "returners" | "returner" => some .returner
  | "calc" | "calculators" | "calculator" | "setters" => some .calculator
  | _ => none

end Family

/-- The keys that may follow a function's name. -/
inductive KeyRule where
  /-- Any keys; `w` when none are given. -/
  | free
  /-- Keys with `w` and without `s`; `w` when none are given. -/
  | sprint
  /-- No keys can be given; these are held. -/
  | fixed (keys : Keys)
deriving DecidableEq, Repr

/-- The name of a rule. -/
def KeyRule.name : KeyRule → String
  | .free => "free"
  | .sprint => "sprint"
  | .fixed _ => "none"

/-- How a player moves in the plane. -/
structure Gait where
  /-- The first tick. -/
  phase : Phase
  /-- Sprinting. -/
  sprint : Bool := false
  /-- Sneaking. -/
  sneak : Bool := false
  /-- Facing half of a right angle off the way, with two keys held. -/
  strafe : Bool := false
deriving DecidableEq, Repr

/-- A number of the player that can be read out. -/
inductive Readout where
  | position (coordinate : Coordinate)
  | velocity (coordinate : Coordinate)
  | facing
deriving DecidableEq, Repr

/-- What a call does at once. -/
inductive Action where
  /-- Ticks in the plane. -/
  | move (gait : Gait)
  /-- Ticks up and down. -/
  | rise (phase : Phase)
  | readOut (readout : Readout)
  /-- Reads a distance out, less the overhang at both edges. -/
  | readMomentum (coordinate : Coordinate)
  /-- Reads a distance out, with the overhang at both edges. -/
  | readBlocks (coordinate : Coordinate)
  /-- Reads the speed and its direction out. -/
  | readVector
  | print
  | help
  | face
  | turn
  | queueAngles
  | queueTurns
  | setPosition (coordinate : Coordinate)
  | setVelocity (coordinate : Coordinate)
  | setSlip
  | setPotion (potion : Potion)
  | setCeiling
  | setInertia
  | setPrecision
  | assign
  | define
deriving DecidableEq, Repr

/-- What a solver aims at. -/
inductive Aim where
  /-- A distance. -/
  | distance
  /-- A distance given without the overhang at the edges. -/
  | momentum
deriving DecidableEq, Repr

/-- What a call watches. -/
inductive Watch where
  /-- Landings along one coordinate, or along both of the plane. -/
  | landing (coordinate : Option Coordinate)
  /-- Stops by inertia. -/
  | stop
deriving DecidableEq, Repr

/-- What a call does with a sequence. -/
inductive Wrapper where
  /-- Finds the starting velocity for an aim. -/
  | solve (aim : Aim) (coordinate : Coordinate)
  /-- Watches the ticks of a sequence. -/
  | watch (watch : Watch)
  /-- Runs a sequence again and again. -/
  | again
deriving DecidableEq, Repr

/-- What a call does. -/
inductive Effect where
  | action (action : Action)
  | wrapper (wrapper : Wrapper)
deriving DecidableEq, Repr

/-- A function that comes with the language. -/
structure Builtin where
  /-- What a call does. -/
  effect : Effect
  /-- The name. -/
  name : String
  /-- Other names. -/
  aliases : List String
  /-- The group. -/
  family : Family
  /-- The model of motion it belongs to; none if it belongs to both. -/
  axis : Option Axis
  /-- The parameters. -/
  parameters : List Parameter
  /-- The keys that may be given. -/
  keys : KeyRule := .fixed .none
  /-- The modifiers that may be given. -/
  modifiers : Terrain := .plain
  /-- A minus may stand in front. -/
  reversible : Bool := false
  /-- A call is left out when a repeated sequence runs again. -/
  once : Bool := false
  /-- A line of explanation. -/
  doc : String

namespace Builtin

/-- Whether a function belongs to a model. -/
def belongsTo (b : Builtin) (axis : Axis) : Bool :=
  b.axis.all (· = axis)

/-- The name and the other names. -/
def names (b : Builtin) : List String := b.name :: b.aliases

/-- The signature as it is written. -/
def signature (b : Builtin) : String :=
  formatSignature b.name b.parameters

/-- The signature, the other names and the explanation. -/
def describe (b : Builtin) : String :=
  b.signature ++
    (if b.aliases.isEmpty then "" else "\n  aliases: " ++ ", ".intercalate b.aliases) ++
    (if b.doc.isEmpty then "" else "\n  " ++ b.doc)

end Builtin

end Parkour.Language
