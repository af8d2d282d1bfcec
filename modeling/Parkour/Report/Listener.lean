import Parkour.Number.Remainder
import Parkour.Number.Root
import Parkour.Player.PlaneMotion
import Parkour.Report.Event
/-!
# Listeners

What is watched while a sequence runs. A landing listener reports ticks whose
position lies just past a multiple of a distance, or just short of it. A stop
listener reports ticks after which inertia is about to take a velocity away.
-/

namespace Parkour.Report

open Player (Coordinate)

/-- Watches positions for multiples of `increment`, counted from `offset`. -/
structure LandingListener where
  /-- The coordinates to watch. -/
  coordinates : List Coordinate
  /-- How far past a multiple is close enough. -/
  reach : Float
  /-- Where the multiples are counted from. -/
  offset : Float
  /-- The distance of two multiples. -/
  increment : Float
  /-- How far short of a multiple is a near miss. -/
  miss : Float
  /-- The label of the readouts. -/
  label : String
  /-- The tick at which the listener was set up. -/
  start : UInt64

/-- Watches velocities for the stop by inertia. -/
structure StopListener where
  /-- How far above the threshold is a near miss. -/
  miss : Float
  /-- The label of the readouts. -/
  label : String
  /-- The tick at which the listener was set up. -/
  start : UInt64

/-- The ticks since a start; none if the start is still to come. -/
def elapsed (start now : UInt64) : Nat :=
  now.toNat - start.toNat

/-- The label of a readout in one tick. -/
def tickLabel (label : String) (tick : Nat) (name : String) : String :=
  label ++ s!" t{tick} " ++ name

namespace LandingListener

/-- The multiple that a distance from zero is close to. -/
def center? (l : LandingListener) (position : Float) : Option Float :=
  let distance := position - l.offset
  let past := Number.leastRemainder distance l.increment
  let multiple := l.offset + distance - past
  if past < l.reach then some multiple
  else if l.increment - past < l.miss then some (multiple + l.increment)
  else none

/-- What is reported after a tick. -/
def observe (l : LandingListener) (p : Player) : List Event :=
  l.coordinates.filterMap fun coordinate =>
    let position := (p.position coordinate).abs
    (l.center? position).map fun center =>
      .readout (tickLabel l.label (elapsed l.start p.ticks) coordinate.name) position
        (some center) p.precision.toNat

end LandingListener

/-- The drag that a stop listener expects of water. -/
def waterDrag : Float32 := 0.8

/-- The drag that a stop listener expects of lava. -/
def lavaDrag : Float32 := 0.5

/-- The drag that the next tick in the plane applies before inertia, as a stop listener works it
out. It has the drags of the fluids from numbers of its own. -/
def nextDrag (p : Player) : Float32 :=
  if p.prevTerrain.water then waterDrag
  else if p.prevTerrain.lava then lavaDrag
  else p.prevSlip

namespace StopListener

/-- Reports one speed, if it is about to be stopped. -/
def watch (l : StopListener) (p : Player) (name : String) (speed : Float) : List Event :=
  if speed == 0 || speed ≥ p.inertia + l.miss then []
  else [.readout (tickLabel l.label (elapsed l.start p.ticks) name) speed (some p.inertia)
    p.precision.toNat]

/-- What is reported after a tick. -/
def observe (l : StopListener) (p : Player) : List Event :=
  match p.axis with
  | .vertical => l.watch p "vy" p.vy.abs
  | .horizontal =>
      let drag := Number.widen (nextDrag p)
      match p.inertiaMode with
      | .perAxis => l.watch p "vx" (p.vx.abs * drag) ++ l.watch p "vz" (p.vz.abs * drag)
      | .combined => l.watch p "v" (Number.hypot p.vx p.vz * drag)

end StopListener

/-- The kinds of listeners. -/
inductive ListenerKind where
  /-- Watches positions. -/
  | landing
  /-- Watches velocities. -/
  | stop
deriving DecidableEq, Repr

/-- A listener of either kind. -/
inductive Listener where
  | landing (listener : LandingListener)
  | stop (listener : StopListener)

namespace Listener

/-- The kind of a listener. -/
def kind : Listener → ListenerKind
  | .landing _ => .landing
  | .stop _ => .stop

/-- What is reported after a tick. -/
def observe : Listener → Player → List Event
  | .landing listener => listener.observe
  | .stop listener => listener.observe

end Listener

/-- The listeners that are set up, at most one of each kind. -/
structure Recording where
  /-- Watches positions. -/
  landing : Option LandingListener := none
  /-- Watches velocities. -/
  stop : Option StopListener := none

namespace Recording

/-- No listener at all. -/
def idle : Recording := {}

/-- Whether nothing is watched. -/
def isIdle (r : Recording) : Bool :=
  r.landing.isNone && r.stop.isNone

/-- Whether a listener of this kind is set up. -/
def has (r : Recording) : ListenerKind → Bool
  | .landing => r.landing.isSome
  | .stop => r.stop.isSome

/-- The listeners with one more, in place of an older one of its kind. -/
def arm (r : Recording) : Listener → Recording
  | .landing listener => { r with landing := some listener }
  | .stop listener => { r with stop := some listener }

/-- The listeners without those of a kind. -/
def disarm (r : Recording) : ListenerKind → Recording
  | .landing => { r with landing := none }
  | .stop => { r with stop := none }

/-- What the listeners report after a tick. -/
def observe (r : Recording) (p : Player) : List Event :=
  r.landing.elim [] (·.observe p) ++ r.stop.elim [] (·.observe p)

end Recording

end Parkour.Report
