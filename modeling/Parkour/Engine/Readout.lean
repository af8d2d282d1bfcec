import Parkour.Engine.World
import Parkour.Number.Angle
/-!
# Readouts

What a run prints: numbers of the player, texts with computed parts, and help on
functions. Nothing but the events changes.
-/

namespace Parkour.Engine

open Parkour.Language
open Report (Event)

variable {σ : Type}

/-- The width of a player on the blocks at both ends of a jump. -/
def overhang : Float := 0.6

/-- The overhang in the direction of a distance. A distance of zero has none. -/
def overhangOf (distance : Float) : Float :=
  overhang * (if distance > 0 then 1 else if distance < 0 then -1 else 0)

/-- The number that a readout shows. -/
def readoutValue (p : Player) : Readout → Float
  | .position coordinate => p.position coordinate
  | .velocity coordinate => p.velocity coordinate
  | .facing => Number.widen p.facing

/-- The label of a call to a builtin. -/
def labelOf (b : Builtin) (arguments : Arguments) : String :=
  (arguments.text? Binding.labelName).getD b.name

/-- Reads a number out around the centre that the call gives. -/
def readNumber [Audience σ] (b : Builtin) (arguments : Arguments) (value : Float)
    (w : World σ) : World σ :=
  w.emit (.readout (labelOf b arguments) value (arguments.number? "center") w.precision)

/-- Reads the speed out and the direction of the velocity as a facing in degrees. -/
def readVelocity [Audience σ] (b : Builtin) (arguments : Arguments) (w : World σ) : World σ :=
  let label := labelOf b arguments
  let speed := Number.hypot w.player.vx w.player.vz
  let angle := Number.degrees (Number.angle (-w.player.vx) w.player.vz)
  (w.emit (.readout (label ++ " speed") speed (arguments.number? "center") w.precision)).emit
    (.readout (label ++ " angle") angle none w.precision)

/-- The text in place of a field in braces: the text of a variable, or the value of
an expression. -/
def fieldText (scope : Scope) (precision : Nat) (field : String) : Except Fault String :=
  let key := Text.trim field
  match scope.get? key with
  | some (.text held) => .ok held
  | _ => (Expression.evaluate key scope).map fun v => Report.brief v precision

/-- Fills the fields in braces of a text. `field` is what has been read of an open
one, backwards. A backslash protects the character after it outside fields. -/
def fillFields (scope : Scope) (precision : Nat) (whole : String) :
    Option (List Char) → List Char → Except Fault (List Char)
  | none, [] => .ok []
  | some _, [] => .error (.unplaced (.unclosedBrace whole))
  | some field, c :: cs => do
      if c = '\x7d' then
        let shown ← fieldText scope precision (String.ofList field.reverse)
        return shown.toList ++ (← fillFields scope precision whole none cs)
      else fillFields scope precision whole (some (c :: field)) cs
  | none, ['\\'] => .ok []
  | none, '\\' :: c :: cs => (fillFields scope precision whole none cs).map (c :: ·)
  | none, c :: cs =>
      if c = '\x7b' then fillFields scope precision whole (some []) cs
      else (fillFields scope precision whole none cs).map (c :: ·)

/-- A text with its fields filled. -/
def interpolate (scope : Scope) (precision : Nat) (text : String) : Except Fault String :=
  (fillFields scope precision text none text.toList).map String.ofList

/-- Prints the surplus arguments as one text. -/
def print [Audience σ] (arguments : Arguments) (w : World σ) : Except Fault (World σ) := do
  let pieces ← arguments.rest.mapM fun value =>
    interpolate w.scope w.precision value.display
  return w.emit (.text (", ".intercalate pieces))

/-- The functions of a family in one line, if there are any. -/
def familyLine? (axis : Player.Axis) (family : Family) : Option Event :=
  match (Catalogue.members family axis).map Builtin.name with
  | [] => none
  | names => some (.text (family.name ++ ": " ++ ", ".intercalate names))

/-- The list of all functions, a line for each family and one for those that were
defined. -/
def overview (w : World σ) : List Event :=
  Family.all.filterMap (familyLine? w.player.axis) ++
    if w.functions.isEmpty then []
    else [.text ("user functions: " ++ ", ".intercalate w.functions.keys)]

/-- Explains one function, or lists all of them. -/
def help [Audience σ] (arguments : Arguments) (w : World σ) : Except Fault (World σ) :=
  match arguments.text? "name" with
  | none => .ok ((overview w).foldl World.emit w)
  | some text =>
      let name := Text.trim text
      match Catalogue.findAny? name with
      | some b => .ok (w.emit (.text b.describe))
      | none =>
          match w.functions.get? name with
          | some f => .ok (w.emit (.text f.display))
          | none => .error (w.unknown name)

end Parkour.Engine
