import Parkour.Language.Builtin
/-!
# The catalogue

Every function that comes with the language. Names are written in small letters
and are found in any case. The order of the catalogue is the order of all lists
that are made from it.
-/

namespace Parkour.Language

open Player (Axis Coordinate Keys Phase Terrain)

namespace Parameter

/-- A parameter that has to be given. -/
def required (name : String) (type : ParameterType) : Parameter :=
  { name, kind := .positionalOrKeyword, type }

/-- A parameter with a default. -/
def optional (name : String) (type : ParameterType) (fallback : Value) : Parameter :=
  { name, kind := .positionalOrKeyword, type, fallback := some fallback }

/-- A parameter with a default that is given by its name. -/
def keyword (name : String) (type : ParameterType) (fallback : Value) : Parameter :=
  { name, kind := .keywordOnly, type, fallback := some fallback }

/-- A parameter that is given by its place. -/
def positional (name : String) (type : ParameterType) : Parameter :=
  { name, kind := .positionalOnly, type }

/-- A parameter that takes what is left. -/
def variadic (name : String) (type : ParameterType) : Parameter :=
  { name, kind := .variadic, type }

end Parameter

namespace Catalogue

open Parameter

/-- The keys of the strafe at half of a right angle. -/
def strafeKeys : Keys := { forward := true, left := true }

/-- A function that moves a player in the plane. -/
def mover (name : String) (aliases : List String) (family : Family) (gait : Gait)
    (keys : KeyRule) (doc : String) : Builtin where
  effect := .action (.move gait)
  name
  aliases
  family
  axis := some .horizontal
  parameters :=
    [optional "duration" .int (.int 1), optional "rotation" .float .none,
      keyword "slip" .float .none]
  keys
  modifiers := .every
  reversible := true
  doc

/-- A function that moves a player up and down. -/
def riser (name : String) (aliases : List String) (family : Family) (phase : Phase)
    (doc : String) : Builtin where
  effect := .action (.rise phase)
  name
  aliases
  family
  axis := some .vertical
  parameters := [optional "duration" .int (.int 1)]
  modifiers := .fluids
  reversible := true
  doc

/-- A function that reads a number out. -/
def reader (action : Action) (name : String) (aliases : List String) (axis : Axis)
    (doc : String) : Builtin where
  effect := .action action
  name
  aliases
  family := .returner
  axis := some axis
  parameters := [optional "center" .float .none, optional "label" .text (.text name)]
  doc

/-- A function that changes a setting. -/
def setter (action : Action) (name : String) (aliases : List String) (axis : Option Axis)
    (parameters : List Parameter) (doc : String) : Builtin where
  effect := .action action
  name
  aliases
  family := .calculator
  axis
  parameters
  doc

/-- A function that looks for a starting velocity. -/
def solver (aim : Aim) (coordinate : Coordinate) (name : String) (aliases : List String)
    (goal doc : String) : Builtin where
  effect := .wrapper (.solve aim coordinate)
  name
  aliases
  family := .calculator
  axis := some .horizontal
  parameters := [required goal .float, required "sequence" .sequence]
  doc

/-- A function that watches for landings. -/
def landing (coordinate : Option Coordinate) (name : String) (aliases : List String) :
    Builtin where
  effect := .wrapper (.watch (.landing coordinate))
  name
  aliases
  family := .calculator
  axis := some .horizontal
  parameters :=
    [required "sequence" .sequence, optional "mindistance" .float (.float 0.01),
      optional "offset" .float (.float 0), optional "increment" .float (.float 0.0625),
      optional "miss" .float (.float 0), optional "label" .text (.text name)]
  doc :=
    "Report ticks whose position lands within mindistance past a multiple of increment."

/-- Moves with sprinting. -/
def fastMovers : List Builtin := [
  mover "sprint" ["s"] .fastMover { phase := .ground, sprint := true } .sprint
    "Sprint on the ground.",
  mover "sprintjump" ["sj"] .fastMover { phase := .jump, sprint := true } .sprint
    "Sprint jump, then sprint in the air.",
  mover "sprintair" ["sa"] .fastMover { phase := .air, sprint := true } .sprint
    "Sprint in the air.",
  mover "sprint45" ["s45"] .fastMover { phase := .ground, sprint := true, strafe := true }
    (.fixed strafeKeys) "Sprint with the 45 degree strafe.",
  mover "sprintjump45" ["sj45"] .fastMover { phase := .jump, sprint := true, strafe := true }
    (.fixed strafeKeys) "Sprint jump with the 45 degree strafe.",
  mover "sprintair45" ["sa45"] .fastMover { phase := .air, sprint := true, strafe := true }
    (.fixed strafeKeys) "Sprint in the air with the 45 degree strafe.",
  mover "sneaksprint" ["sns"] .fastMover { phase := .ground, sprint := true, sneak := true }
    .sprint "Sneak while sprinting on the ground.",
  mover "sneaksprintjump" ["snsj"] .fastMover { phase := .jump, sprint := true, sneak := true }
    .sprint "Sneak sprint jump.",
  mover "sneaksprintair" ["snsa"] .fastMover { phase := .air, sprint := true, sneak := true }
    .sprint "Sneak sprint in the air.",
  riser "jump" ["j"] .fastMover .jump "Jump, then fall through the air."]

/-- Moves without sprinting. -/
def slowMovers : List Builtin := [
  mover "walk" ["w"] .slowMover { phase := .ground } .free "Walk on the ground.",
  mover "walkjump" ["wj"] .slowMover { phase := .jump } .free
    "Walk jump, then walk in the air.",
  mover "walkair" ["wa"] .slowMover { phase := .air } .free "Walk in the air.",
  mover "walk45" ["w45"] .slowMover { phase := .ground, strafe := true } (.fixed strafeKeys)
    "Walk with the 45 degree strafe.",
  mover "walkjump45" ["wj45"] .slowMover { phase := .jump, strafe := true }
    (.fixed strafeKeys) "Walk jump with the 45 degree strafe.",
  mover "walkair45" ["wa45"] .slowMover { phase := .air, strafe := true } (.fixed strafeKeys)
    "Walk in the air with the 45 degree strafe.",
  mover "sneak" ["sn"] .slowMover { phase := .ground, sneak := true } .free
    "Sneak on the ground.",
  mover "sneakjump" ["snj"] .slowMover { phase := .jump, sneak := true } .free "Sneak jump.",
  mover "sneakair" ["sna"] .slowMover { phase := .air, sneak := true } .free
    "Sneak in the air.",
  mover "sneak45" ["sn45"] .slowMover { phase := .ground, sneak := true, strafe := true }
    (.fixed strafeKeys) "Sneak with the 45 degree strafe.",
  riser "air" ["a"] .slowMover .air "Fall through the air.",
  riser "slime" ["bounce"] .slowMover .slime "Bounce off slime, then fall through the air."]

/-- Ticks without input. -/
def stoppers : List Builtin := [
  mover "stop" ["st"] .stopper { phase := .ground } (.fixed .none) "Stand still on the ground.",
  mover "stopjump" ["stj"] .stopper { phase := .jump } (.fixed .none) "Jump without input.",
  mover "stopair" ["sta"] .stopper { phase := .air } (.fixed .none)
    "Drift through the air without input.",
  riser "ground" ["g"] .stopper .ground "Stand on the ground."]

/-- What prints. -/
def returners : List Builtin := [
  reader (.readOut (.position .x)) "outx" [] .horizontal "Print the x position.",
  reader (.readOut (.position .z)) "outz" [] .horizontal "Print the z position.",
  reader (.readOut (.velocity .x)) "outvx" [] .horizontal "Print the x velocity.",
  reader (.readOut (.velocity .z)) "outvz" [] .horizontal "Print the z velocity.",
  reader (.readOut .facing) "outangle" ["outa", "outfacing"] .horizontal
    "Print the default facing.",
  reader (.readMomentum .x) "outxmm" ["xmm"] .horizontal
    "Print the x distance in momentum terms (0.6 removed).",
  reader (.readMomentum .z) "outzmm" ["zmm"] .horizontal
    "Print the z distance in momentum terms (0.6 removed).",
  reader (.readBlocks .x) "outxb" ["xb"] .horizontal
    "Print the x distance in blocks (0.6 added).",
  reader (.readBlocks .z) "outzb" ["zb"] .horizontal
    "Print the z distance in blocks (0.6 added).",
  reader .readVector "outvec" ["vec"] .horizontal
    "Print the speed and direction of the velocity.",
  reader (.readOut (.position .y)) "outy" [] .vertical "Print the y position.",
  reader (.readOut (.velocity .y)) "outvy" [] .vertical "Print the y velocity.",
  { effect := .action .print, name := "print", aliases := [], family := .returner
    axis := none, parameters := [variadic "text" .text]
    doc := "Print text; \x7bexpr\x7d is replaced by its value." },
  { effect := .action .help, name := "help", aliases := [], family := .returner
    axis := none, parameters := [optional "name" .text .none]
    doc := "Describe a function, or list every function." }]

/-- Settings, definitions and what wraps a sequence. -/
def calculators : List Builtin := [
  setter .face "facing" ["face", "f"] (some .horizontal) [required "angle" .float]
    "Set the default facing.",
  setter .turn "turn" ["t"] (some .horizontal) [required "angle" .float]
    "Rotate the default facing.",
  setter .queueAngles "angles" ["rotations"] (some .horizontal) [variadic "angles" .float]
    "Queue one absolute facing per upcoming tick.",
  setter .queueTurns "turns" [] (some .horizontal) [variadic "deltas" .float]
    "Queue one facing change per upcoming tick.",
  setter (.setPosition .x) "setposx" ["x", "posx"] (some .horizontal) [required "x" .float]
    "Set the x position.",
  setter (.setPosition .z) "setposz" ["z", "posz"] (some .horizontal) [required "z" .float]
    "Set the z position.",
  setter (.setVelocity .x) "setvx" ["vx"] (some .horizontal) [required "vx" .float]
    "Set the x velocity.",
  setter (.setVelocity .z) "setvz" ["vz"] (some .horizontal) [required "vz" .float]
    "Set the z velocity.",
  setter .setSlip "slip" [] (some .horizontal) [required "slip" .float]
    "Set the ground slipperiness.",
  setter (.setPotion .speed) "speed" [] (some .horizontal) [required "level" .int]
    "Set the speed potion level.",
  setter (.setPotion .slowness) "slowness" ["slow"] (some .horizontal)
    [required "level" .int] "Set the slowness potion level.",
  solver .distance .z "zinv" ["inv"] "goal"
    "Solve the initial z velocity that travels exactly goal.",
  solver .distance .x "xinv" [] "goal"
    "Solve the initial x velocity that travels exactly goal.",
  solver .momentum .z "zbwmm" ["bwmm"] "mm"
    "Solve the initial z velocity for a backwards momentum of mm.",
  solver .momentum .x "xbwmm" [] "mm"
    "Solve the initial x velocity for a backwards momentum of mm.",
  landing none "possibility" ["poss"],
  landing (some .x) "xpossibility" ["xposs"],
  landing (some .z) "zpossibility" ["zposs"],
  setter (.setPosition .y) "setposy" ["y", "posy"] (some .vertical) [required "y" .float]
    "Set the y position.",
  setter (.setVelocity .y) "setvy" ["vy"] (some .vertical) [required "vy" .float]
    "Set the y velocity.",
  setter .setCeiling "ceiling" ["ceil"] (some .vertical) [optional "height" .float .none]
    "Set or clear the ceiling height.",
  setter (.setPotion .jumpBoost) "jumpboost" [] (some .vertical) [required "level" .int]
    "Set the jump boost level.",
  setter .setInertia "inertia" [] none
    [required "threshold" .float, optional "single_axis" .bool (.bool true)]
    "Set the inertia threshold; single_axis = false checks the combined speed.",
  setter .setPrecision "precision" ["pre"] none [required "digits" .int]
    "Set the number of printed decimals.",
  { setter .assign "var" ["v"] none [positional "name" .text, positional "value" .text]
      "Assign the value of an expression to a variable." with once := true },
  { setter .define "def" ["function"] none
      [positional "signature" .text, positional "body" .sequence]
      "Define a function: def(name(a, b: int = 1), body)." with once := true },
  { effect := .wrapper .again, name := "repeat", aliases := ["r"], family := .calculator
    axis := none
    parameters := [positional "sequence" .sequence, optional "count" .int (.int 1)]
    doc := "Run a sequence count times." },
  { effect := .wrapper (.watch .stop), name := "inertialistener", aliases := ["il"]
    family := .calculator, axis := none
    parameters :=
      [required "sequence" .sequence, optional "miss" .float (.float 0),
        optional "label" .text (.text "inertialistener")]
    doc := "Report ticks where inertia zeroes the velocity, or misses by at most miss." }]

/-- All functions. -/
def all : List Builtin :=
  fastMovers ++ slowMovers ++ stoppers ++ returners ++ calculators

/-- The function of a model with a name, in any case. -/
def find? (axis : Axis) (name : String) : Option Builtin :=
  let name := Text.lower name
  all.find? fun b => b.belongsTo axis && b.names.contains name

/-- The first function of either model with a name, in any case. -/
def findAny? (name : String) : Option Builtin :=
  let name := Text.lower name
  all.find? fun b => b.names.contains name

/-- The functions of a group under a model. -/
def members (family : Family) (axis : Axis) : List Builtin :=
  all.filter fun b => b.family = family && b.belongsTo axis

/-- All names under a model. -/
def names (axis : Axis) : List String :=
  (all.filter (·.belongsTo axis)).flatMap Builtin.names

end Catalogue

end Parkour.Language
