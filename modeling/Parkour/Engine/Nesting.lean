import Parkour.Engine.Action
import Parkour.Language.Sequence.Preparation
/-!
# Nesting

How sequences run and how calls open sequences inside one another. A run keeps what
was done before a fault. The depth of nesting is limited, so every run ends.
-/

namespace Parkour.Engine

open Parkour.Language
open Player (Coordinate)
open Report (Event LandingListener Listener StopListener)

variable {σ : Type}

/-- A computation on a world that may end early with a fault. -/
abbrev Run (σ α : Type) := ExceptT Fault (StateM (World σ)) α

/-- What stays fixed during a run. -/
structure Rules where
  /-- The deepest nesting of calls that is allowed. -/
  maxDepth : Nat
  /-- The run has been cancelled. -/
  cancelled : Bool

/-- Fails in a cancelled run. -/
def Rules.check (rules : Rules) : Except Fault Unit :=
  if rules.cancelled then .error .interrupted else .ok ()

/-- Changes the world as a whole or not at all. -/
def atomically (change : World σ → Except Fault (World σ)) : Run σ Unit := do
  set (← change (← get))

/-- The ways into a frame, whose enclosing calls are given. -/
structure Frame (σ : Type) where
  /-- Runs a sequence and gives the calls that it made. -/
  run : List String → String → Run σ (List Call)
  /-- Makes a call. -/
  dispatch : List String → Call → Run σ Unit

/-- Runs tokens one after the other. -/
def runTokens (rules : Rules) (dispatch : List String → Call → Run σ Unit)
    (stack : List String) : List String → Run σ (List Call)
  | [] => return []
  | token :: rest => do
      rules.check
      let call ← (← get).bindToken stack token
      dispatch stack call
      return call :: (← runTokens rules dispatch stack rest)

/-- Runs a sequence. -/
def runText (rules : Rules) (dispatch : List String → Call → Run σ Unit)
    (stack : List String) (text : String) : Run σ (List Call) := do
  let prepared := Sequence.prepare (← get).player.axis text
  let tokens ← Sequence.split .calls stack prepared
  runTokens rules dispatch stack tokens

/-- Makes the calls of a finished pass again, as often as told. -/
def replay (rules : Rules) (again : Call → Run σ Unit) (calls : List Call) : Nat → Run σ Unit
  | 0 => return ()
  | passes + 1 => do
      rules.check
      (calls.filter fun call => !call.isOnce).forM again
      replay rules again calls passes

/-- How often a sequence is repeated. -/
def countOf (arguments : Arguments) : Except Fault Nat := do
  let count ← arguments.requireInteger "count"
  if count < 0 then throw (.badValue (.negativeCount count))
  return count.toNat

/-- Runs a sequence a number of times. The later passes make the calls that the
first one made, without those that are made once. -/
def runAgain (rules : Rules) (inner : Frame σ) (stack : List String) (b : Builtin)
    (arguments : Arguments) : Run σ Unit := do
  match ← countOf arguments with
  | 0 => return ()
  | more + 1 => do
      let body ← arguments.requireText "sequence"
      let child := stack ++ [b.name]
      let calls ← inner.run child body
      replay rules (inner.dispatch child) calls more

/-- Runs `body` and puts a part of the world back afterwards, whatever happened. -/
def restoring (body : Run σ Unit) (restore : World σ → World σ) : Run σ Unit :=
  fun w => let (outcome, after) := body w; (outcome, restore after)

/-- The scope in which a function runs: that of the caller with the arguments, the
surplus ones as one text. -/
def callScope (f : UserFunction) (arguments : Arguments) (scope : Scope) : Scope :=
  let bound := arguments.values.foldl (fun s pair => s.insert pair.1 pair.2) scope
  match f.parameters.find? (·.kind = .variadic) with
  | none => bound
  | some p =>
      bound.insert p.name (.text (" ".intercalate (arguments.rest.map Value.display)))

/-- Runs a function that was defined. The scope of the caller comes back after it. -/
def runUser (inner : Frame σ) (stack : List String) (f : UserFunction)
    (arguments : Arguments) : Run σ Unit := do
  let before := (← get).scope
  let body : Run σ Unit := do
    modify fun w => { w with scope := callScope f arguments w.scope }
    discard (inner.run (stack ++ [f.name]) f.body)
  restoring body fun w => { w with scope := before }

/-- The world in which a solver tries out a starting velocity. -/
def World.trial [Audience σ] (w : World σ) (coordinate : Coordinate) (velocity : Float) :
    World σ :=
  { w.fork with player := w.player.setVelocity coordinate velocity }

/-- The distance that a sequence travels from a starting velocity, found in a trial. -/
def probe [Audience σ] (inner : Frame σ) (child : List String) (coordinate : Coordinate)
    (velocity : Float) (body : String) : Run σ Float := do
  let w ← get
  let start := w.trial coordinate velocity
  let (outcome, after) := inner.run child body start
  set (w.absorb after)
  match outcome with
  | .ok _ => return after.player.position coordinate - start.player.position coordinate
  | .error fault => throw fault

/-- The greatest miss of a goal that goes without a warning. -/
def tolerance : Float := 0.000001

/-- The distance that a solver aims at. -/
def goalOf (aim : Aim) (arguments : Arguments) : Except Fault Float :=
  match aim with
  | .distance => arguments.requireNumber "goal"
  | .momentum => (arguments.requireNumber "mm").map fun mm => mm + overhangOf mm

/-- The starting velocity from which a sequence travels the distance `goal`. The
distance is a linear function of the velocity until inertia steps in, so two trials
determine it. -/
def findVelocity [Audience σ] (inner : Frame σ) (child : List String)
    (coordinate : Coordinate) (b : Builtin) (goal : Float) (body : String) :
    Run σ Float := do
  let atRest ← probe inner child coordinate 0 body
  let atOne ← probe inner child coordinate 1 body
  if atOne == atRest then throw (.unsteerable b.name)
  return (goal - atRest) / (atOne - atRest)

/-- The world in which a solved sequence starts. The velocity is read out. -/
def World.steered [Audience σ] (w : World σ) (b : Builtin) (coordinate : Coordinate)
    (velocity : Float) : World σ :=
  { w.emit (.readout (b.name ++ " v" ++ coordinate.name) velocity none w.precision) with
    player := w.player.setVelocity coordinate velocity }

/-- The world after a solved sequence. A miss that is too great is warned of. -/
def World.compared [Audience σ] (w : World σ) (b : Builtin) (precision : Nat)
    (miss : Float) : World σ :=
  if miss.abs > tolerance then
    w.emit (.warning (b.name ++ "() missed the goal by " ++ Report.fixed miss precision ++
      "; inertia was triggered"))
  else w

/-- Finds the starting velocity for an aim and runs the sequence from it. -/
def runSolver [Audience σ] (inner : Frame σ) (stack : List String) (aim : Aim)
    (coordinate : Coordinate) (b : Builtin) (arguments : Arguments) : Run σ Unit := do
  let goal ← goalOf aim arguments
  let body ← arguments.requireText "sequence"
  let child := stack ++ [b.name]
  let velocity ← findVelocity inner child coordinate b goal body
  let precision := (← get).precision
  modify fun w => w.steered b coordinate velocity
  let start := (← get).player.position coordinate
  discard (inner.run child body)
  modify fun w => w.compared b precision (w.player.position coordinate - start - goal)

/-- Checks the distances of a landing listener. -/
def checkLanding (b : Builtin) (reach increment miss : Float) : Except Fault Unit :=
  if !(increment > 0) || !increment.isFinite then
    .error (.badValue (.increment b.name increment))
  else if reach < 0 || miss < 0 then .error (.badValue (.negativeReach b.name))
  else .ok ()

/-- The landing listener that a call sets up. -/
def landingListener (w : World σ) (coordinate : Option Coordinate) (b : Builtin)
    (arguments : Arguments) : Except Fault LandingListener := do
  if w.recording.has .landing then throw (.misuse (.nestedLanding b.name))
  let reach ← arguments.requireNumber "mindistance"
  let increment ← arguments.requireNumber "increment"
  let miss ← arguments.requireNumber "miss"
  checkLanding b reach increment miss
  return {
    coordinates := coordinate.elim [.x, .z] fun c => [c]
    reach
    offset := ← arguments.requireNumber "offset"
    increment
    miss
    label := labelOf b arguments
    start := w.player.ticks }

/-- The stop listener that a call sets up. -/
def stopListener (w : World σ) (b : Builtin) (arguments : Arguments) :
    Except Fault StopListener := do
  if w.recording.has .stop then throw (.misuse (.nestedStop b.name))
  let miss ← arguments.requireNumber "miss"
  if miss < 0 then throw (.badValue (.negativeMiss b.name miss))
  return { miss, label := labelOf b arguments, start := w.player.ticks }

/-- The listener that a call sets up. -/
def listenerOf (w : World σ) (watch : Watch) (b : Builtin) (arguments : Arguments) :
    Except Fault Listener :=
  match watch with
  | .landing coordinate => (landingListener w coordinate b arguments).map .landing
  | .stop => (stopListener w b arguments).map .stop

/-- Runs a sequence while a listener watches. -/
def runWatched (inner : Frame σ) (stack : List String) (watch : Watch) (b : Builtin)
    (arguments : Arguments) : Run σ Unit := do
  let listener ← listenerOf (← get) watch b arguments
  let text ← arguments.requireText "sequence"
  let body : Run σ Unit := do
    modify fun w => w.armed listener
    discard (inner.run (stack ++ [b.name]) text)
  restoring body fun w => w.disarmed listener.kind

/-- Does what a builtin does with a sequence. -/
def wrap [Audience σ] (rules : Rules) (inner : Frame σ) (stack : List String)
    (wrapper : Wrapper) (b : Builtin) (arguments : Arguments) : Run σ Unit :=
  match wrapper with
  | .solve aim coordinate => runSolver inner stack aim coordinate b arguments
  | .watch watch => runWatched inner stack watch b arguments
  | .again => runAgain rules inner stack b arguments

/-- Makes a call. `inner` are the ways into the frame that the call may open. -/
def dispatch [Audience σ] (rules : Rules) (inner : Frame σ) (stack : List String)
    (call : Call) : Run σ Unit := do
  rules.check
  modify fun w => w.tell (.call stack call)
  match call.target with
  | .builtin b =>
      match b.effect with
      | .action action => atomically (perform action b call)
      | .wrapper wrapper => wrap rules inner stack wrapper b call.arguments
  | .user f => runUser inner stack f call.arguments
  | .sequence name body => discard (inner.run (stack ++ [name]) body)

/-- The ways into a frame when so many frames may still be opened, itself among them. -/
def frame [Audience σ] (rules : Rules) : Nat → Frame σ
  | 0 =>
      { run := fun _ _ => throw (.tooDeep rules.maxDepth)
        dispatch := fun _ _ => throw (.tooDeep rules.maxDepth) }
  | more + 1 =>
      { run := fun stack text => runText rules (dispatch rules (frame rules more)) stack text
        dispatch := fun stack call => dispatch rules (frame rules more) stack call }

/-- Runs a sequence that no call encloses. -/
def runSequence [Audience σ] (rules : Rules) (text : String) : Run σ (List Call) :=
  (frame rules (rules.maxDepth + 1)).run [] text

end Parkour.Engine
