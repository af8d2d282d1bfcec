import Parkour.Engine.Session
import Parkour.Proofs.Engine.Listening
import Parkour.Proofs.Engine.Opening

/-!
# The depth of nesting

A frame knows how deep it is and which calls enclose it, and a call that would nest
too deeply is refused before it does anything. So the recursion of a run through its
frames ends, and it ends with what the frames of the engine give.

## Implementation notes

The frames of the engine are counted from the innermost one outwards. Here they are
entered from the outermost one inwards, each with its depth, and what runs in a frame
that has been entered is left open. After as many unfoldings as frames may still be
entered, nothing is left of what was left open.

-/

namespace Parkour.Engine

open Parkour.Language
open Report (Recording Sink)

variable {σ α : Type}

/-- Where a run is in the nesting of calls. -/
structure Place where
  /-- How deep it is. -/
  depth : Nat
  /-- The names of the calls around it, the outermost first. -/
  stack : List String

/-- A place is as deep as calls enclose it, and no deeper than is allowed. -/
structure Place.Fits (place : Place) (maxDepth : Nat) : Prop where
  length : place.stack.length = place.depth
  bounded : place.depth ≤ maxDepth

/-- Goes one level deeper, if that is allowed. -/
def Place.enter (rules : Rules) (place : Place) (child : List String) : Except Fault Place :=
  if rules.maxDepth < place.depth + 1 then .error (.tooDeep rules.maxDepth)
  else .ok { depth := place.depth + 1, stack := child }

/-- What an audience has heard, and the frames that were entered. -/
structure Trail (σ : Type) where
  heard : σ
  entered : List Place

theorem foldl_heard [Audience σ] (t : Trail σ) (moments : List Moment) :
    moments.foldl (fun t moment => (⟨Audience.tell t.heard moment, t.entered⟩ : Trail σ)) t =
      ⟨moments.foldl Audience.tell t.heard, t.entered⟩ := by
  induction moments generalizing t with
  | nil => rfl
  | cons moment rest ih => exact ih _

/-- The frames that a trial enters are entered like all others. -/
instance [Audience σ] : Audience (Trail σ) where
  tell t moment := ⟨Audience.tell t.heard moment, t.entered⟩
  trial t := ⟨Audience.trial t.heard, []⟩
  absorb t trial := ⟨Audience.absorb t.heard trial.heard, t.entered ++ trial.entered⟩
  absorb_trial t moments := by
    rw [foldl_heard, foldl_heard, Audience.absorb_trial, List.append_nil]

/-- The world with one more frame entered. -/
def World.entering (w : World (Trail σ)) (place : Place) : World (Trail σ) :=
  { w with audience := { w.audience with entered := w.audience.entered ++ [place] } }

/-- The world before any frame is entered. -/
def World.outside (w : World σ) : World (Trail σ) where
  player := w.player
  scope := w.scope
  functions := w.functions
  recording := w.recording
  audience := { heard := w.audience, entered := [] }

/-- What runs and what calls do at each place. -/
structure Interpreter (σ : Type) where
  run : Place → String → Run (Trail σ) (List Call)
  dispatch : Place → Call → Run (Trail σ) Unit

namespace Interpreter

/-- The frames that calls at a place open. -/
def below (rules : Rules) (X : Interpreter σ) (place : Place) : Frame (Trail σ) where
  run child text := do
    let entered ← place.enter rules child
    modify fun w => w.entering entered
    X.run entered text
  dispatch child call := do
    let entered ← place.enter rules child
    modify fun w => w.entering entered
    X.dispatch entered call

/-- Unfolds the recursion through the frames so many times. What runs in the frames that
are entered after that is left to `X`. -/
def unfolded [Audience σ] (rules : Rules) (X : Interpreter σ) : Nat → Interpreter σ
  | 0 => X
  | n + 1 =>
      let opened := (unfolded rules X n).below rules
      { run := fun place text =>
          runText rules (Engine.dispatch rules (opened place)) place.stack text
        dispatch := fun place call => Engine.dispatch rules (opened place) place.stack call }

theorem below_refused {rules : Rules} {X : Interpreter σ} {place : Place}
    (h : rules.maxDepth < place.depth + 1) :
    X.below rules place =
      { run := fun _ _ => throw (.tooDeep rules.maxDepth)
        dispatch := fun _ _ => throw (.tooDeep rules.maxDepth) } := by
  unfold below Place.enter
  simp only [if_pos h]
  rfl

theorem below_entered {rules : Rules} {X : Interpreter σ} {place : Place}
    (h : ¬rules.maxDepth < place.depth + 1) :
    X.below rules place =
      { run := fun child text => do
          modify fun w => w.entering ⟨place.depth + 1, child⟩
          X.run ⟨place.depth + 1, child⟩ text
        dispatch := fun child call => do
          modify fun w => w.entering ⟨place.depth + 1, child⟩
          X.dispatch ⟨place.depth + 1, child⟩ call } := by
  unfold below Place.enter
  simp only [if_neg h]
  rfl

end Interpreter

/-! ## The frames of the engine -/

section

variable [Audience σ]

/-- A run without the frames that it entered. -/
def trailing : Recast (Trail σ) σ where
  recording := id
  audience := Trail.heard
  clean _ := True
  clean_of_tell _ := trivial
  clean_of_absorb _ := trivial
  call _ _ _ := rfl
  tick _ _ _ _ := rfl
  event _ _ := rfl
  watch _ _ _ := ⟨fun _ => rfl, fun _ _ _ => rfl, fun _ => rfl⟩

theorem commutes_entering {x : Run σ α} {y : Run (Trail σ) α} (h : Commutes trailing x y)
    (place : Place) :
    Commutes trailing x (do
      modify fun w => w.entering place
      y) where
  clean _ _ := trivial
  image v _ := h.image (v.entering place) trivial

theorem rehearsed_trailing {inner : Frame σ} {inner' : Frame (Trail σ)}
    (h : Twins trailing inner inner') : Rehearsed trailing inner inner' := by
  intro child coordinate velocity body
  refine ⟨fun _ _ => trivial, fun v _ => ?_⟩
  have htrial : (trailing.world v).trial coordinate velocity =
      trailing.world (v.trial coordinate velocity) := rfl
  rw [Run.probe_apply, Run.probe_apply, htrial, (h.run child body).image _ trivial]
  rfl

theorem twins_unfolded {rules : Rules} {X : Interpreter σ} {n m : Nat}
    (h : ∀ place : Place, place.depth + m = rules.maxDepth →
      Twins trailing (frame rules m) ((X.unfolded rules n).below rules place))
    (place : Place) (hplace : place.depth + m = rules.maxDepth) :
    (∀ text, Commutes trailing ((frame rules (m + 1)).run place.stack text)
      ((X.unfolded rules (n + 1)).run place text)) ∧
      ∀ call, Commutes trailing ((frame rules (m + 1)).dispatch place.stack call)
        ((X.unfolded rules (n + 1)).dispatch place call) := by
  have hbelow := h place hplace
  have hmade := commutes_dispatch rules hbelow (rehearsed_trailing hbelow)
  constructor
  · intro text
    exact commutes_runText rules hmade place.stack text
  · intro call
    exact hmade place.stack call

/-- After as many unfoldings as frames may still be entered, the frames that calls at a
place open are those of the engine. -/
theorem twins_below (rules : Rules) (X : Interpreter σ) {n m : Nat} (hn : m ≤ n)
    {place : Place} (hplace : place.depth + m = rules.maxDepth) :
    Twins trailing (frame rules m) ((X.unfolded rules n).below rules place) := by
  induction m generalizing n place with
  | zero =>
      rw [Interpreter.below_refused (by omega)]
      exact ⟨fun _ _ => .ofThrow _, fun _ _ => .ofThrow _⟩
  | succ m ih =>
      obtain ⟨n, rfl⟩ : ∃ k, n = k + 1 := ⟨n - 1, by omega⟩
      rw [Interpreter.below_entered (by omega)]
      have hinner : ∀ inside : Place, inside.depth + m = rules.maxDepth →
          Twins trailing (frame rules m) ((X.unfolded rules n).below rules inside) :=
        fun inside hinside => ih (by omega) hinside
      have hinside : place.depth + 1 + m = rules.maxDepth := by omega
      constructor
      · intro child text
        exact commutes_entering
          ((twins_unfolded hinner ⟨place.depth + 1, child⟩ hinside).1 text) _
      · intro child call
        exact commutes_entering
          ((twins_unfolded hinner ⟨place.depth + 1, child⟩ hinside).2 call) _

end

/-! ## The frames that are entered -/

/-- All frames that were entered fit. -/
def Fitting (maxDepth : Nat) (w : World (Trail σ)) : Prop :=
  ∀ place ∈ w.audience.entered, place.Fits maxDepth

/-- Something enters only frames that fit. -/
def EntersFitting (maxDepth : Nat) (w v : World (Trail σ)) : Prop :=
  Fitting maxDepth w → Fitting maxDepth v

theorem Fitting.entering {maxDepth : Nat} {w : World (Trail σ)} {place : Place}
    (h : Fitting maxDepth w) (hplace : place.Fits maxDepth) :
    Fitting maxDepth (w.entering place) :=
  List.forall_mem_append.mpr ⟨h, by simpa using hplace⟩

section

variable [Audience σ] {maxDepth : Nat}

/-- An action enters no frame. -/
theorem fitting_of_deed {action : Action} {w v : World (Trail σ)} (h : Deed w action v)
    (hw : Fitting maxDepth w) : Fitting maxDepth v := by
  obtain ⟨moments, htold, -⟩ := h.told
  have hheard := congrArg Trail.entered (foldl_heard w.audience moments)
  have hentered : v.audience.entered = w.audience.entered := by
    rw [htold]
    exact hheard
  intro place hmem
  rw [hentered] at hmem
  exact hw place hmem

theorem upkeep_entersFitting :
    Upkeep (EntersFitting maxDepth : World (Trail σ) → World (Trail σ) → Prop) where
  refl _ h := h
  trans huv hvw h := hvw (huv h)
  call _ _ _ h := h
  act _ _ hdeed h := fitting_of_deed hdeed h
  watch _ _ _ _ h := h
  scope _ h := h
  trial _ _ h hw :=
    List.forall_mem_append.mpr ⟨hw, h fun _ hmem => absurd hmem List.not_mem_nil⟩
  steer _ _ _ h := h
  report _ _ h := h

/-- What is unfolded at a place enters only frames that fit, if what it opens does. -/
theorem keeps_unfolded {rules : Rules} {X : Interpreter σ} {n : Nat} {place : Place}
    (h : Upkeep.Frames (EntersFitting maxDepth)
      (((X.unfolded rules n).below rules place).only (place.stack.length + 1))) :
    (∀ text, Keeps (EntersFitting maxDepth) ((X.unfolded rules (n + 1)).run place text)) ∧
      ∀ call, Keeps (EntersFitting maxDepth) ((X.unfolded rules (n + 1)).dispatch place call) := by
  have hmade : ∀ call, Keeps (EntersFitting maxDepth)
      (dispatch rules ((X.unfolded rules n).below rules place) place.stack call) := by
    intro call
    rw [← dispatch_only]
    exact upkeep_entersFitting.keeps_dispatch rules h place.stack call
  constructor
  · intro text
    exact upkeep_entersFitting.keeps_runText rules hmade text
  · exact hmade

/-- After as many unfoldings as frames may still be entered, calls at a place that fits
enter only frames that fit. -/
theorem frames_below (rules : Rules) (X : Interpreter σ) {n m : Nat} (hn : m ≤ n)
    {place : Place} (hlength : place.stack.length = place.depth)
    (hplace : place.depth + m = rules.maxDepth) :
    Upkeep.Frames (EntersFitting rules.maxDepth)
      (((X.unfolded rules n).below rules place).only (place.stack.length + 1)) := by
  induction m generalizing n place with
  | zero =>
      rw [Interpreter.below_refused (by omega)]
      refine frames_only upkeep_entersFitting.toGroundwork ?_ ?_
      · intro child text _
        exact upkeep_entersFitting.keeps_throw _
      · intro child call _
        exact upkeep_entersFitting.keeps_throw _
  | succ m ih =>
      obtain ⟨n, rfl⟩ : ∃ k, n = k + 1 := ⟨n - 1, by omega⟩
      rw [Interpreter.below_entered (by omega)]
      have hentering : ∀ child : List String, child.length = place.stack.length + 1 →
          Keeps (EntersFitting rules.maxDepth) (modify fun w : World (Trail σ) =>
            w.entering ⟨place.depth + 1, child⟩ : Run (Trail σ) PUnit) := by
        intro child hchild
        refine keeps_modify fun w hw => hw.entering ⟨?_, ?_⟩
        · dsimp only
          omega
        · dsimp only
          omega
      have hinside : ∀ child : List String, child.length = place.stack.length + 1 →
          Upkeep.Frames (EntersFitting rules.maxDepth)
            (((X.unfolded rules n).below rules ⟨place.depth + 1, child⟩).only
              (child.length + 1)) := by
        intro child hchild
        have hdepth : child.length = place.depth + 1 := by omega
        exact ih (by omega) hdepth (by dsimp only; omega)
      refine frames_only upkeep_entersFitting.toGroundwork ?_ ?_
      · intro child text hchild
        exact upkeep_entersFitting.keeps_bind (hentering child hchild) fun _ =>
          (keeps_unfolded (hinside child hchild)).1 text
      · intro child call hchild
        exact upkeep_entersFitting.keeps_bind (hentering child hchild) fun _ =>
          (keeps_unfolded (hinside child hchild)).2 call

end

/-! ## Calls in the deepest frames -/

section

variable [Audience σ] {rules : Rules} {stack : List String} {call : Call} {w : World σ}

/-- The calls that open a frame, once their own arguments have been checked. -/
inductive Opens (w : World σ) (call : Call) : Prop where
  | user {f : UserFunction} (htarget : call.target = .user f)
  | sequence {name body : String} (htarget : call.target = .sequence name body)
  | again {b : Builtin} {n : Nat} {body : String} (htarget : call.target = .builtin b)
      (heffect : b.effect = .wrapper .again) (hcount : countOf call.arguments = .ok (n + 1))
      (hbody : call.arguments.requireText "sequence" = .ok body)
  | solve {b : Builtin} {aim : Aim} {coordinate : Player.Coordinate} {goal : Float}
      {body : String} (htarget : call.target = .builtin b)
      (heffect : b.effect = .wrapper (.solve aim coordinate))
      (hgoal : goalOf aim call.arguments = .ok goal)
      (hbody : call.arguments.requireText "sequence" = .ok body)
  | watch {b : Builtin} {watch : Watch} {listener : Report.Listener} {body : String}
      (htarget : call.target = .builtin b) (heffect : b.effect = .wrapper (.watch watch))
      (hlistener : listenerOf w watch b call.arguments = .ok listener)
      (hbody : call.arguments.requireText "sequence" = .ok body)

/-- Nothing is heard of a trial in which nothing happens. -/
theorem absorb_trial_self (w : World σ) (coordinate : Player.Coordinate) (velocity : Float) :
    w.absorb (w.trial coordinate velocity) = w := by
  have h := Audience.absorb_trial w.audience []
  exact congrArg (fun audience => { w with audience }) h

theorem runSolver_refused {aim : Aim} {coordinate : Player.Coordinate} {b : Builtin}
    {goal : Float} {body : String} (hgoal : goalOf aim call.arguments = .ok goal)
    (hbody : call.arguments.requireText "sequence" = .ok body) :
    runSolver (frame rules 0) stack aim coordinate b call.arguments w =
      (.error (.tooDeep rules.maxDepth), w) := by
  have hprobe : probe (frame rules 0) (stack ++ [b.name]) coordinate 0 body w =
      (.error (.tooDeep rules.maxDepth), w) := by
    rw [Run.probe_apply]
    exact congrArg (Prod.mk _) (absorb_trial_self w coordinate 0)
  unfold runSolver findVelocity
  rw [hgoal, Run.bind_apply_ok (Run.liftM_apply _ w), hbody,
    Run.bind_apply_ok (Run.liftM_apply _ w)]
  exact Run.bind_apply_error (Run.bind_apply_error hprobe)

theorem runWatched_refused {watch : Watch} {b : Builtin} {listener : Report.Listener}
    {body : String} (hlistener : listenerOf w watch b call.arguments = .ok listener)
    (hbody : call.arguments.requireText "sequence" = .ok body) :
    runWatched (frame rules 0) stack watch b call.arguments w =
      (.error (.tooDeep rules.maxDepth), w) := by
  obtain ⟨hfree, hkind⟩ := listenerOf_eq_ok hlistener
  rw [← hkind] at hfree
  have hdisarmed : (w.armed listener).disarmed listener.kind = w :=
    congrArg (fun recording => { w with recording }) (Recording.disarm_arm hfree)
  rw [Run.runWatched_apply hlistener hbody]
  exact congrArg (Prod.mk _) hdisarmed

/-- Where no frame may be entered any more, a call that would open one fails before it
does anything. -/
theorem dispatch_refused (hrules : rules.check = .ok ()) (h : Opens w call) :
    dispatch rules (frame rules 0) stack call w =
      (.error (.tooDeep rules.maxDepth), w.tell (.call stack call)) := by
  unfold dispatch
  rw [hrules, Run.bind_apply_ok (Run.liftM_apply _ w), Run.modify_bind_apply]
  cases h with
  | user htarget =>
      rw [htarget]
      rfl
  | sequence htarget =>
      rw [htarget]
      rfl
  | again htarget heffect hcount hbody =>
      rw [htarget]
      dsimp only
      rw [heffect]
      dsimp only [wrap, runAgain]
      rw [hcount, hbody]
      rfl
  | solve htarget heffect hgoal hbody =>
      rw [htarget]
      dsimp only
      rw [heffect]
      exact runSolver_refused hgoal hbody
  | watch htarget heffect hlistener hbody =>
      rw [htarget]
      dsimp only
      rw [heffect]
      have htold : listenerOf (w.tell (.call stack call)) _ _ call.arguments = _ :=
        hlistener
      exact runWatched_refused htold hbody

end

/-- The frame of the engine at a place. -/
def Place.frame [Audience σ] (rules : Rules) (place : Place) : Frame σ :=
  Engine.frame rules (rules.maxDepth + 1 - place.depth)

/-- Nesting is bounded. The recursion of a run through its frames ends, whatever `X` would
do in frames that are never entered, and gives what the frame of the engine gives. All
frames that are entered are as deep as calls enclose them, and no deeper than is allowed.
In the deepest ones, calls that would open a frame fail and change nothing. -/
theorem nesting_bounded (rules : Rules) (place : Place) (text : String) (w : World Sink)
    (X : Interpreter Sink) (n : Nat) (hplace : place.Fits rules.maxDepth)
    (hn : rules.maxDepth < place.depth + n) :
    let ran := (X.unfolded rules n).run place text w.outside
    (place.frame rules).run place.stack text w = (ran.1, trailing.world ran.2) ∧
      (∀ entered ∈ ran.2.audience.entered, entered.Fits rules.maxDepth) ∧
      ∀ (deep : Place) (call : Call) (u : World Sink), deep.Fits rules.maxDepth →
        deep.depth = rules.maxDepth → rules.cancelled = false → Opens u call →
          (deep.frame rules).dispatch deep.stack call u =
            (.error (.tooDeep rules.maxDepth), u) := by
  intro ran
  obtain ⟨m, hm⟩ : ∃ m, place.depth + m = rules.maxDepth :=
    ⟨rules.maxDepth - place.depth, by have := hplace.bounded; omega⟩
  obtain ⟨n, rfl⟩ : ∃ k, n = k + 1 := ⟨n - 1, by have := hplace.bounded; omega⟩
  have hframe : place.frame rules = (Engine.frame rules (m + 1) : Frame Sink) := by
    have hcount : rules.maxDepth + 1 - place.depth = m + 1 := by omega
    rw [Place.frame, hcount]
  have hmn : m ≤ n := by omega
  refine ⟨?_, ?_, ?_⟩
  · have hsame := (twins_unfolded (fun _ => twins_below rules X hmn) place hm).1 text
    have himage := hsame.image w.outside trivial
    have houtside : trailing.world w.outside = w := rfl
    rw [hframe, ← himage, houtside]
  · have hkept := (keeps_unfolded (frames_below rules X hmn hplace.length hm)).1 text
    have hstart : Fitting rules.maxDepth w.outside := by
      intro entered hmem
      cases hmem
    have hentered : EntersFitting rules.maxDepth w.outside ran.2 := hkept w.outside
    exact hentered hstart
  · intro deep call u _ hdeep hcancelled hopens
    have hrules : rules.check = .ok () := by
      rw [Rules.check, hcancelled]
      rfl
    have hcount : rules.maxDepth + 1 - deep.depth = 0 + 1 := by omega
    rw [Place.frame, hcount]
    exact dispatch_refused hrules hopens

/-- A function that calls itself. -/
def loop : UserFunction where
  name := "loop"
  parameters := []
  body := "jump loop"

theorem nesting_bounded_loop :
    let rules : Rules := ⟨1, false⟩
    let w := { (new .vertical).world ∅ with functions := Dictionary.ofList [("loop", loop)] }
    let X : Interpreter Sink := ⟨fun _ _ => pure [], fun _ _ => pure ()⟩
    let ran := (X.unfolded rules 2).run ⟨0, []⟩ "loop" w.outside
    (Place.frame rules ⟨0, []⟩).run [] "loop" w = (ran.1, trailing.world ran.2) ∧
      (∀ entered ∈ ran.2.audience.entered, entered.Fits 1) ∧
      (Place.frame rules ⟨1, ["loop"]⟩).dispatch ["loop"] { target := .user loop } w =
        (.error (.tooDeep 1), w) := by
  intro rules w X ran
  have hbounded := nesting_bounded rules ⟨0, []⟩ "loop" w X 2 ⟨rfl, Nat.zero_le 1⟩
    (Nat.lt_succ_self 1)
  refine ⟨hbounded.1, hbounded.2.1, ?_⟩
  exact hbounded.2.2 ⟨1, ["loop"]⟩ _ w ⟨rfl, Nat.le_refl 1⟩ rfl rfl (.user rfl)

end Parkour.Engine
