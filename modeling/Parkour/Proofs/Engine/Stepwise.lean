import Parkour.Proofs.Engine.Run

/-!
# Actions step by step

An action gives a world or a fault, so a failed action cannot leave anything behind. The
steps of an action show what there is to lose: ticks one by one, writes one field at a time,
reports one after the other. Each check comes before the first of them, so the steps lead
to the same world as the action, or stop with the same fault before anything has happened.
-/

namespace Parkour.Engine

open Parkour.Language
open Player (Controls Coordinate Phase Potion)

variable {σ : Type}

/-! ## Steps -/

/-- Writes to the player. -/
def write (change : Player → Player) : Run σ Unit :=
  modify fun w => { w with player := change w.player }

/-- Reports an event. -/
def say [Audience σ] (event : Report.Event) : Run σ Unit :=
  modify fun w => w.emit event

/-- Plays ticks one by one. A run can be cancelled before each. -/
def stepTicks [Audience σ] (rules : Rules) : Nat → Controls → Run σ Unit
  | 0, _ => return ()
  | n + 1, c => do
      rules.check
      modify fun w => w.play 1 c
      stepTicks rules n c.settled

/-- Ticks in the plane, after a check of the slipperiness that the call gives. -/
def stepMove [Audience σ] (rules : Rules) (gait : Gait) (call : Call) : Run σ Unit := do
  let duration ← call.arguments.requireInteger Binding.durationName
  let slip ← (call.arguments.number? "slip").mapM fun v =>
    ofRefusal (Player.checkSlip (Number.narrow v))
  stepTicks rules duration.toNat {
    phase := gait.phase
    keys := call.keys
    sprint := gait.sprint
    sneak := gait.sneak
    terrain := call.modifiers
    rotation := (call.arguments.number? "rotation").map Number.narrow
    facingOffset := if gait.strafe then strafeOffset else 0
    reverse := call.reverse
    slip }

/-- Ticks up and down. -/
def stepRise [Audience σ] (rules : Rules) (phase : Phase) (call : Call) : Run σ Unit := do
  let duration ← call.arguments.requireInteger Binding.durationName
  stepTicks rules duration.toNat { phase, terrain := call.modifiers, reverse := call.reverse }

/-- Fills the pieces one by one, and then reports them as one text. -/
def stepPrint [Audience σ] (arguments : Arguments) : Run σ Unit := do
  let pieces ← arguments.rest.mapM fun value => do
    let w ← get
    liftM (interpolate w.scope w.precision value.display)
  say (.text (", ".intercalate pieces))

/-- Explains one function, or lists all of them line by line. -/
def stepHelp [Audience σ] (arguments : Arguments) : Run σ Unit := do
  let w ← get
  match arguments.text? "name" with
  | none => (overview w).forM say
  | some text =>
      let name := Text.trim text
      match Catalogue.findAny? name with
      | some b => say (.text b.describe)
      | none =>
          match w.functions.get? name with
          | some f => say (.text f.display)
          | none => throw (w.unknown name)

/-- Reads all angles, and then queues them one by one. -/
def stepQueue (arguments : Arguments) (queue : Player → List Float32 → Player) :
    Run σ Unit := do
  let degrees ← arguments.rest.mapM fun value =>
    match value.number? with
    | some v => pure (Number.narrow v)
    | none => throw (.misuse (.angle value))
  degrees.forM fun d => write fun p => queue p [d]

/-- Reads a number, and then writes what it sets. -/
def stepNumber (arguments : Arguments) (parameter : String) (put : Float → Run σ Unit) :
    Run σ Unit := do
  let v ← arguments.requireNumber parameter
  put v

/-- Writes a coordinate. A new height also drops a pending snap. -/
def stepPosition (coordinate : Coordinate) (value : Float) : Run σ Unit :=
  match coordinate with
  | .x => write fun p => { p with x := value }
  | .z => write fun p => { p with z := value }
  | .y => do
      write fun p => { p with y := value }
      write fun p => { p with pendingSnap := none }

/-- Writes a velocity. A new upward velocity also drops a pending snap. -/
def stepVelocity (coordinate : Coordinate) (value : Float) : Run σ Unit :=
  match coordinate with
  | .x => write fun p => { p with vx := value }
  | .z => write fun p => { p with vz := value }
  | .y => do
      write fun p => { p with vy := value }
      write fun p => { p with pendingSnap := none }

/-- Writes the slipperiness of the ground, after a check of it. -/
def stepSlip (arguments : Arguments) : Run σ Unit := do
  let v ← arguments.requireNumber "slip"
  let checked ← ofRefusal (Player.checkSlip (Number.narrow v))
  write fun p => { p with groundSlip := checked }

/-- Writes the level of an effect that is in range. -/
def stepPotion (potion : Potion) (arguments : Arguments) : Run σ Unit := do
  let level ← arguments.requireInteger "level"
  let checked ← ofRefusal (Player.checkLevel potion level)
  match potion with
  | .speed => write fun p => { p with speed := checked }
  | .slowness => write fun p => { p with slowness := checked }
  | .jumpBoost => write fun p => { p with jumpBoost := checked }

/-- A player fits under a ceiling, if there is one. -/
def checkCeiling : Option Float → Except Player.Refusal Unit
  | some value =>
      if !value.isFinite || value < Player.height then .error (.ceiling value) else .ok ()
  | none => .ok ()

/-- Writes a ceiling, after a check of it, and drops a pending snap. -/
def stepCeiling (arguments : Arguments) : Run σ Unit := do
  let ceiling := arguments.number? "height"
  ofRefusal (checkCeiling ceiling)
  write fun p => { p with ceiling }
  write fun p => { p with pendingSnap := none }

/-- Writes the threshold and the mode of the inertia. -/
def stepInertia (arguments : Arguments) : Run σ Unit := do
  let threshold ← arguments.requireNumber "threshold"
  let mode : Player.InertiaMode :=
    if arguments.flag? "single_axis" = some false then .combined else .perAxis
  if !threshold.isFinite || threshold < 0 then
    throw (.badValue (.refused (.inertia threshold)))
  write fun p => { p with inertia := threshold }
  write fun p => { p with inertiaMode := mode }

/-- Writes the decimals that readouts show. -/
def stepPrecision (arguments : Arguments) : Run σ Unit := do
  let digits ← arguments.requireInteger "digits"
  if 0 ≤ digits ∧ digits ≤ Player.maxPrecision then
    write fun p => { p with precision := digits.toNat.toUInt64 }
  else throw (.badValue (.refused (.precision digits)))

/-- Gives a variable its value, after all that can fail. -/
def stepAssign (arguments : Arguments) : Run σ Unit := do
  let name := Text.trim (← arguments.requireText "name")
  if !Text.isIdentifier name then throw (.badValue (.variableName name))
  let value ← arguments.requireText "value"
  let v ← Expression.evaluate value (← get).scope
  modify fun w => { w with scope := w.scope.insert name (.float v) }

/-- Gives a function its body, after all that can fail. -/
def stepDefine (arguments : Arguments) : Run σ Unit := do
  let text ← arguments.requireText "signature"
  let signature ← Signature.parse (← get).scope text
  if (Catalogue.findAny? signature.name).isSome then throw (.overwrite signature.name)
  let body ← arguments.requireText "body"
  modify fun w => { w with functions := w.functions.insert signature.name { signature with body } }

/-- The steps of an action. -/
def steps [Audience σ] (rules : Rules) (action : Action) (b : Builtin) (call : Call) :
    Run σ Unit :=
  let arguments := call.arguments
  match action with
  | .move gait => stepMove rules gait call
  | .rise phase => stepRise rules phase call
  | .readOut readout => do
      let w ← get
      say (.readout (labelOf b arguments) (readoutValue w.player readout)
        (arguments.number? "center") w.precision)
  | .readMomentum coordinate => do
      let w ← get
      let distance := w.player.position coordinate
      say (.readout (labelOf b arguments) (distance - overhangOf distance)
        (arguments.number? "center") w.precision)
  | .readBlocks coordinate => do
      let w ← get
      let distance := w.player.position coordinate
      say (.readout (labelOf b arguments) (distance + overhangOf distance)
        (arguments.number? "center") w.precision)
  | .readVector => do
      let w ← get
      let label := labelOf b arguments
      say (.readout (label ++ " speed") (Number.hypot w.player.vx w.player.vz)
        (arguments.number? "center") w.precision)
      say (.readout (label ++ " angle")
        (Number.degrees (Number.angle (-w.player.vx) w.player.vz)) none w.precision)
  | .print => stepPrint arguments
  | .help => stepHelp arguments
  | .face =>
      stepNumber arguments "angle" fun v => write fun p => { p with facing := Number.narrow v }
  | .turn =>
      stepNumber arguments "angle" fun v =>
        write fun p => { p with facing := p.facing + Number.narrow v }
  | .queueAngles => stepQueue arguments Player.queueAngles
  | .queueTurns => stepQueue arguments Player.queueTurns
  | .setPosition coordinate => stepNumber arguments coordinate.name (stepPosition coordinate)
  | .setVelocity coordinate =>
      stepNumber arguments ("v" ++ coordinate.name) (stepVelocity coordinate)
  | .setSlip => stepSlip arguments
  | .setPotion potion => stepPotion potion arguments
  | .setCeiling => stepCeiling arguments
  | .setInertia => stepInertia arguments
  | .setPrecision => stepPrecision arguments
  | .assign => stepAssign arguments
  | .define => stepDefine arguments

/-! ## Checks come first -/

section

variable {α β : Type} {w : World σ}

/-- How a change ends: in the world that it puts its result into, or in the world that it
began in. -/
def concluded (put : α → World σ) (w : World σ) : Except Fault α → Except Fault Unit × World σ
  | .ok a => (.ok ⟨⟩, put a)
  | .error fault => (.error fault, w)

theorem atomically_eq_concluded (change : World σ → Except Fault (World σ)) (w : World σ) :
    atomically change w = concluded id w (change w) := by
  rw [Run.atomically_apply]
  cases change w <;> rfl

/-- An action on the player alone. -/
theorem adjust_eq_concluded (change : Player → Except Fault Player) (w : World σ) :
    atomically (World.adjust · change) w =
      concluded (fun p => { w with player := p }) w (change w.player) := by
  rw [atomically_eq_concluded, World.adjust]
  cases change w.player <;> rfl

/-- A check in front leaves the world alone. -/
theorem concluded_bind {put : β → World σ} (e : Except Fault α) {x : α → Run σ Unit}
    {f : α → Except Fault β} (h : ∀ a, x a w = concluded put w (f a)) :
    (liftM e >>= x : Run σ Unit) w = concluded put w (e >>= f) := by
  cases e with
  | ok a => exact h a
  | error fault => rfl

theorem concluded_ite {put : α → World σ} {c : Prop} [Decidable c] {x y : Run σ Unit}
    {e f : Except Fault α} (hx : x w = concluded put w e) (hy : y w = concluded put w f) :
    (if c then x else y) w = concluded put w (if c then e else f) := by
  split
  · exact hx
  · exact hy

/-- A pass of checks leaves the world alone, whether it succeeds or fails. -/
theorem mapM_apply {x : α → Run σ β} {f : α → Except Fault β}
    (h : ∀ a, x a w = (f a, w)) (as : List α) : as.mapM x w = (as.mapM f, w) := by
  induction as with
  | nil => rfl
  | cons a rest ih =>
      rw [List.mapM_cons, List.mapM_cons]
      cases ha : f a with
      | error fault => rw [Run.bind_apply_error (by rw [h, ha])]; rfl
      | ok b =>
          rw [Run.bind_apply_ok (by rw [h, ha])]
          cases hrest : rest.mapM f with
          | error fault => rw [Run.bind_apply_error (by rw [ih, hrest])]; rfl
          | ok bs => rw [Run.bind_apply_ok (by rw [ih, hrest])]; rfl

theorem concluded_mapM {put : β → World σ} {γ : Type} {x : α → Run σ γ} {f : α → Except Fault γ}
    (h : ∀ a, x a w = (f a, w)) (as : List α) {y : List γ → Run σ Unit}
    {g : List γ → Except Fault β} (hy : ∀ cs, y cs w = concluded put w (g cs)) :
    (as.mapM x >>= y) w = concluded put w (as.mapM f >>= g) := by
  have hpass := mapM_apply h as
  cases hall : as.mapM f with
  | error fault =>
      rw [hall] at hpass
      exact Run.bind_apply_error hpass
  | ok cs =>
      rw [hall] at hpass
      rw [Run.bind_apply_ok hpass]
      exact hy cs

theorem ofRefusal_bind (x : Except Player.Refusal α) (f : α → Except Player.Refusal β) :
    ofRefusal (x >>= f) = ofRefusal x >>= fun a => ofRefusal (f a) := by
  cases x <;> rfl

end

/-! ## The steps of each action -/

section

variable [Audience σ] {rules : Rules}

/-- Ticks that are played one by one are played as a whole, unless the run is cancelled. -/
theorem stepTicks_apply (hrules : rules.check = .ok ⟨⟩) (n : Nat) (c : Controls)
    (w : World σ) : stepTicks rules n c w = (.ok ⟨⟩, w.play n c) := by
  induction n generalizing c w with
  | zero => rfl
  | succ n ih =>
      rw [stepTicks, hrules]
      exact ih c.settled (w.play 1 c)

theorem stepMove_apply (hrules : rules.check = .ok ⟨⟩) (gait : Gait) (call : Call)
    (w : World σ) : stepMove rules gait call w = atomically (moveTicks gait call) w := by
  rw [atomically_eq_concluded]
  refine concluded_bind _ fun duration => ?_
  cases call.arguments.number? "slip" with
  | none => exact stepTicks_apply hrules _ _ w
  | some v =>
      rw [Option.mapM_some, Option.mapM_some]
      cases ofRefusal (Player.checkSlip (Number.narrow v)) with
      | error fault => rfl
      | ok slip => exact stepTicks_apply hrules _ _ w

theorem stepRise_apply (hrules : rules.check = .ok ⟨⟩) (phase : Phase) (call : Call)
    (w : World σ) : stepRise rules phase call w = atomically (riseTicks phase call) w := by
  rw [atomically_eq_concluded]
  exact concluded_bind _ fun duration => stepTicks_apply hrules _ _ w

theorem stepPrint_apply (arguments : Arguments) (w : World σ) :
    stepPrint arguments w = atomically (print arguments) w := by
  rw [atomically_eq_concluded]
  refine concluded_mapM (fun value => ?_) arguments.rest fun pieces => rfl
  exact Run.liftM_apply (interpolate w.scope w.precision value.display) w

theorem forM_say (events : List Report.Event) (w : World σ) :
    events.forM say w = (.ok ⟨⟩, events.foldl World.emit w) := by
  induction events generalizing w with
  | nil => rfl
  | cons event rest ih => exact ih (w.emit event)

theorem stepHelp_apply (arguments : Arguments) (w : World σ) :
    stepHelp arguments w = atomically (help arguments) w := by
  rw [atomically_eq_concluded, stepHelp, Run.get_bind_apply, help]
  cases arguments.text? "name" with
  | none => exact forM_say (overview w) w
  | some text =>
      dsimp only
      cases Catalogue.findAny? (Text.trim text) with
      | some b => rfl
      | none =>
          dsimp only
          cases w.functions.get? (Text.trim text) <;> rfl

end

section

/-- Entries that are queued one by one are queued as a whole. -/
theorem forM_queue {queue : Player → List Float32 → Player} (hnil : ∀ p, queue p [] = p)
    (hcons : ∀ p d rest, queue (queue p [d]) rest = queue p (d :: rest)) (degrees : List Float32)
    (w : World σ) :
    (degrees.forM fun d => write fun p => queue p [d]) w =
      (.ok ⟨⟩, { w with player := queue w.player degrees }) := by
  induction degrees generalizing w with
  | nil =>
      rw [hnil]
      rfl
  | cons d rest ih =>
      rw [← hcons]
      exact ih { w with player := queue w.player [d] }

theorem stepQueue_apply {queue : Player → List Float32 → Player} (hnil : ∀ p, queue p [] = p)
    (hcons : ∀ p d rest, queue (queue p [d]) rest = queue p (d :: rest))
    (arguments : Arguments) (w : World σ) :
    stepQueue arguments queue w = atomically (World.adjust · (queueUp arguments queue)) w := by
  rw [adjust_eq_concluded]
  refine concluded_mapM (fun value => ?_) arguments.rest fun degrees => ?_
  · cases value.number? <;> rfl
  · exact forM_queue hnil hcons degrees w

theorem stepNumber_apply {put : Float → Run σ Unit} {set : Player → Float → Player}
    (h : ∀ v (w : World σ), put v w = (.ok ⟨⟩, { w with player := set w.player v }))
    (arguments : Arguments) (parameter : String) (w : World σ) :
    stepNumber arguments parameter put w =
      atomically (World.adjust · (setNumber arguments parameter set)) w := by
  rw [adjust_eq_concluded]
  exact concluded_bind _ fun v => h v w

theorem stepPosition_apply (coordinate : Coordinate) (value : Float) (w : World σ) :
    stepPosition coordinate value w =
      (.ok ⟨⟩, { w with player := w.player.setPosition coordinate value }) := by
  cases coordinate <;> rfl

theorem stepVelocity_apply (coordinate : Coordinate) (value : Float) (w : World σ) :
    stepVelocity coordinate value w =
      (.ok ⟨⟩, { w with player := w.player.setVelocity coordinate value }) := by
  cases coordinate <;> rfl

theorem stepSlip_apply (arguments : Arguments) (w : World σ) :
    stepSlip arguments w = atomically (World.adjust · (setSlip arguments)) w := by
  rw [adjust_eq_concluded]
  refine concluded_bind _ fun v => ?_
  unfold Player.setGroundSlip
  rw [ofRefusal_bind]
  exact concluded_bind _ fun checked => rfl

theorem stepPotion_apply (potion : Potion) (arguments : Arguments) (w : World σ) :
    stepPotion potion arguments w =
      atomically (World.adjust · (setChecked arguments "level" fun p n => p.setPotion potion n))
        w := by
  rw [adjust_eq_concluded]
  refine concluded_bind _ fun level => ?_
  unfold Player.setPotion
  rw [ofRefusal_bind]
  refine concluded_bind _ fun checked => ?_
  cases potion <;> rfl

theorem stepCeiling_apply (arguments : Arguments) (w : World σ) :
    stepCeiling arguments w =
      atomically (World.adjust · fun p => ofRefusal (p.setCeiling (arguments.number? "height")))
        w := by
  rw [adjust_eq_concluded, stepCeiling]
  cases arguments.number? "height" with
  | none => rfl
  | some value =>
      dsimp only [Player.setCeiling, checkCeiling]
      split <;> rfl

theorem stepInertia_apply (arguments : Arguments) (w : World σ) :
    stepInertia arguments w = atomically (World.adjust · (setInertia arguments)) w := by
  rw [adjust_eq_concluded]
  refine concluded_bind _ fun threshold => ?_
  dsimp only [Player.setInertia]
  split <;> rfl

theorem stepPrecision_apply (arguments : Arguments) (w : World σ) :
    stepPrecision arguments w =
      atomically (World.adjust · (setChecked arguments "digits" Player.setPrecision)) w := by
  rw [adjust_eq_concluded]
  refine concluded_bind _ fun digits => ?_
  unfold Player.setPrecision
  split <;> rfl

theorem stepAssign_apply (arguments : Arguments) (w : World σ) :
    stepAssign arguments w = atomically (assign arguments) w := by
  rw [atomically_eq_concluded]
  refine concluded_bind _ fun text => concluded_ite rfl ?_
  refine concluded_bind _ fun value => ?_
  rw [Run.get_bind_apply]
  exact concluded_bind _ fun v => rfl

theorem stepDefine_apply (arguments : Arguments) (w : World σ) :
    stepDefine arguments w = atomically (define arguments) w := by
  rw [atomically_eq_concluded]
  refine concluded_bind _ fun text => ?_
  rw [Run.get_bind_apply]
  refine concluded_bind _ fun signature => concluded_ite rfl ?_
  exact concluded_bind _ fun body => rfl

end

/-- The steps of an action do what the action does as a whole, in a run that goes on. -/
theorem steps_apply [Audience σ] {rules : Rules} (hrules : rules.check = .ok ⟨⟩)
    (action : Action) (b : Builtin) (call : Call) (w : World σ) :
    steps rules action b call w = atomically (perform action b call) w := by
  cases action with
  | move gait => exact stepMove_apply hrules gait call w
  | rise phase => exact stepRise_apply hrules phase call w
  | readOut readout => rfl
  | readMomentum coordinate => rfl
  | readBlocks coordinate => rfl
  | readVector => rfl
  | print => exact stepPrint_apply call.arguments w
  | help => exact stepHelp_apply call.arguments w
  | face =>
      refine stepNumber_apply ?_ call.arguments "angle" w
      exact fun _ _ => rfl
  | turn =>
      refine stepNumber_apply ?_ call.arguments "angle" w
      exact fun _ _ => rfl
  | queueAngles =>
      refine stepQueue_apply (fun p => ?_) (fun p d rest => ?_) call.arguments w
      · simp [Player.queueAngles]
      · simp [Player.queueAngles]
  | queueTurns =>
      refine stepQueue_apply (fun p => ?_) (fun p d rest => ?_) call.arguments w
      · simp [Player.queueTurns]
      · simp [Player.queueTurns]
  | setPosition coordinate =>
      exact stepNumber_apply (stepPosition_apply coordinate) call.arguments _ w
  | setVelocity coordinate =>
      exact stepNumber_apply (stepVelocity_apply coordinate) call.arguments _ w
  | setSlip => exact stepSlip_apply call.arguments w
  | setPotion potion => exact stepPotion_apply potion call.arguments w
  | setCeiling => exact stepCeiling_apply call.arguments w
  | setInertia => exact stepInertia_apply call.arguments w
  | setPrecision => exact stepPrecision_apply call.arguments w
  | assign => exact stepAssign_apply call.arguments w
  | define => exact stepDefine_apply call.arguments w

end Parkour.Engine
