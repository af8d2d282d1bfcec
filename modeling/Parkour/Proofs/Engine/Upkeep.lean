import Parkour.Proofs.Engine.Deed
import Parkour.Proofs.Engine.Run

/-!
# What every run keeps

A relation between the worlds before and after a run holds of every run as soon as
it is reflexive and transitive and holds of each single thing that a run can do. The
calls, the sequences and the frames are gone through here once.
-/

namespace Parkour.Engine

open Parkour.Language
open Player (Coordinate)
open Report (Listener ListenerKind)

variable {σ α β : Type}

/-- The kind of the listeners that a call sets up. -/
def kindOf : Watch → ListenerKind
  | .landing _ => .landing
  | .stop => .stop

theorem listenerOf_eq_ok {w : World σ} {watch : Watch} {b : Builtin} {arguments : Arguments}
    {listener : Listener} (h : listenerOf w watch b arguments = .ok listener) :
    w.recording.has (kindOf watch) = false ∧ listener.kind = kindOf watch := by
  cases watch with
  | landing coordinate =>
      obtain ⟨landing, hl, rfl⟩ := map_eq_ok h
      unfold landingListener at hl
      split at hl
      · cases hl
      · next hfree => exact ⟨by simpa [kindOf] using hfree, rfl⟩
  | stop =>
      obtain ⟨stop, hl, rfl⟩ := map_eq_ok h
      unfold stopListener at hl
      split at hl
      · cases hl
      · next hfree => exact ⟨by simpa [kindOf] using hfree, rfl⟩

/-- The worlds before and after `x` stand in the relation, whatever the outcome is. -/
def Keeps (T : World σ → World σ → Prop) (x : Run σ α) : Prop :=
  ∀ w, T w (x w).2

/-- What a relation has to allow so that it holds along any run, calls apart. -/
structure Groundwork [Audience σ] (T : World σ → World σ → Prop) : Prop where
  refl : ∀ w, T w w
  trans : ∀ {u v w}, T u v → T v w → T u w
  /-- A solver makes a trial. -/
  trial : ∀ {w v} coordinate velocity,
    T (w.trial coordinate velocity) v → T w (w.absorb v)
  /-- A solver sets the velocity that it has found. -/
  steer : ∀ (w : World σ) coordinate velocity,
    T w { w with player := w.player.setVelocity coordinate velocity }
  /-- Something is reported. -/
  report : ∀ w event, T w (w.emit event)

/-- What makes a relation hold of every run. -/
structure Upkeep [Audience σ] (T : World σ → World σ → Prop) : Prop extends Groundwork T where
  /-- A call is made. -/
  call : ∀ w stack call, T w (w.tell (.call stack call))
  /-- A call that was made performs its action. -/
  act : ∀ {w v : World σ} {stack} {call : Call} {b : Builtin} {action},
    call.target = .builtin b → b.effect = .action action →
    Deed (w.tell (.call stack call)) action v → T (w.tell (.call stack call)) v
  /-- A call that was made runs a sequence while a listener watches. -/
  watch : ∀ {w v : World σ} {stack} {call : Call} {b : Builtin} {watch} {listener : Listener},
    call.target = .builtin b → b.effect = .wrapper (.watch watch) →
    w.recording.has (kindOf watch) = false → listener.kind = kindOf watch →
    T ((w.tell (.call stack call)).armed listener) v →
    T (w.tell (.call stack call)) (v.disarmed (kindOf watch))
  /-- A function runs in a scope of its own. -/
  scope : ∀ {w v} s, T { w with scope := s } v → T w { v with scope := w.scope }

/-- Both ways into a frame keep a relation. -/
structure Upkeep.Frames (T : World σ → World σ → Prop) (inner : Frame σ) : Prop where
  run : ∀ stack text, Keeps T (inner.run stack text)
  dispatch : ∀ stack call, Keeps T (inner.dispatch stack call)

section

variable {T : World σ → World σ → Prop}

theorem keeps_get_bind {f : World σ → Run σ β} (hf : ∀ u, Keeps T (f u)) :
    Keeps T (get >>= f) :=
  fun w => hf w w

theorem keeps_modify {change : World σ → World σ} (h : ∀ w, T w (change w)) :
    Keeps T (modify change : Run σ PUnit) :=
  h

theorem keeps_discard {x : Run σ α} (hx : Keeps T x) : Keeps T (discard x) := by
  intro w
  rw [Run.discard_apply]
  exact hx w

end

namespace Groundwork

variable [Audience σ] {T : World σ → World σ → Prop}

theorem keeps_pure (hT : Groundwork T) (a : α) : Keeps T (pure a : Run σ α) :=
  hT.refl

theorem keeps_throw (hT : Groundwork T) (fault : Fault) : Keeps T (throw fault : Run σ α) :=
  hT.refl

theorem keeps_liftM (hT : Groundwork T) (e : Except Fault α) : Keeps T (liftM e : Run σ α) := by
  intro w
  rw [Run.liftM_apply]
  exact hT.refl w

theorem keeps_bind (hT : Groundwork T) {x : Run σ α} {f : α → Run σ β} (hx : Keeps T x)
    (hf : ∀ a, Keeps T (f a)) : Keeps T (x >>= f) := by
  intro w
  have hw := hx w
  rcases h : x w with ⟨_ | a, v⟩
  · rw [Run.bind_apply_error h]
    rwa [h] at hw
  · rw [Run.bind_apply_ok h]
    rw [h] at hw
    exact hT.trans hw (hf a v)

theorem keeps_runTokens (hT : Groundwork T) (rules : Rules)
    {dispatch : List String → Call → Run σ Unit} {stack : List String}
    (hd : ∀ call, Keeps T (dispatch stack call)) (tokens : List String) :
    Keeps T (runTokens rules dispatch stack tokens) := by
  induction tokens with
  | nil => exact hT.keeps_pure []
  | cons token rest ih =>
      refine hT.keeps_bind (hT.keeps_liftM _) fun _ => keeps_get_bind fun u => ?_
      refine hT.keeps_bind (hT.keeps_liftM _) fun call => ?_
      refine hT.keeps_bind (hd call) fun _ => ?_
      exact hT.keeps_bind ih fun calls => hT.keeps_pure _

theorem keeps_runText (hT : Groundwork T) (rules : Rules)
    {dispatch : List String → Call → Run σ Unit} {stack : List String}
    (hd : ∀ call, Keeps T (dispatch stack call)) (text : String) :
    Keeps T (runText rules dispatch stack text) := by
  refine keeps_get_bind fun u => hT.keeps_bind (hT.keeps_liftM _) fun tokens => ?_
  exact hT.keeps_runTokens rules hd tokens

theorem keeps_forM (hT : Groundwork T) {again : Call → Run σ Unit} (calls : List Call)
    (h : ∀ call ∈ calls, Keeps T (again call)) : Keeps T (calls.forM again) := by
  induction calls with
  | nil => exact hT.keeps_pure ()
  | cons call rest ih =>
      refine hT.keeps_bind (h call List.mem_cons_self) fun _ => ih fun later hmem => ?_
      exact h later (List.mem_cons_of_mem _ hmem)

/-- Only the calls that are not made once have to keep the relation. -/
theorem keeps_replay (hT : Groundwork T) (rules : Rules) {again : Call → Run σ Unit}
    {calls : List Call} (h : ∀ call ∈ calls, call.isOnce = false → Keeps T (again call))
    (passes : Nat) : Keeps T (replay rules again calls passes) := by
  induction passes with
  | zero => exact hT.keeps_pure ()
  | succ passes ih =>
      refine hT.keeps_bind (hT.keeps_liftM _) fun _ => ?_
      refine hT.keeps_bind (hT.keeps_forM _ fun call hmem => ?_) fun _ => ih
      obtain ⟨hmem, hagain⟩ := List.mem_filter.mp hmem
      exact h call hmem (by simpa using hagain)

variable {inner : Frame σ}

theorem keeps_runAgain (hT : Groundwork T) (rules : Rules) (h : Upkeep.Frames T inner)
    (stack : List String) (b : Builtin) (arguments : Arguments) :
    Keeps T (runAgain rules inner stack b arguments) := by
  refine hT.keeps_bind (hT.keeps_liftM _) fun count => ?_
  cases count with
  | zero => exact hT.keeps_pure ()
  | succ more =>
      refine hT.keeps_bind (hT.keeps_liftM _) fun body => ?_
      refine hT.keeps_bind (h.run _ _) fun calls => ?_
      exact hT.keeps_replay rules (fun call _ _ => h.dispatch _ call) more

theorem keeps_probe (hT : Groundwork T) (h : Upkeep.Frames T inner) (child : List String)
    (coordinate : Coordinate) (velocity : Float) (body : String) :
    Keeps T (probe inner child coordinate velocity body) := by
  intro w
  rw [Run.probe_apply]
  exact hT.trial coordinate velocity (h.run child body _)

theorem keeps_findVelocity (hT : Groundwork T) (h : Upkeep.Frames T inner) (child : List String)
    (coordinate : Coordinate) (b : Builtin) (goal : Float) (body : String) :
    Keeps T (findVelocity inner child coordinate b goal body) := by
  refine hT.keeps_bind (hT.keeps_probe h _ _ _ _) fun atRest => ?_
  refine hT.keeps_bind (hT.keeps_probe h _ _ _ _) fun atOne => ?_
  dsimp only
  split
  · exact hT.keeps_bind (hT.keeps_throw _) fun _ => hT.keeps_pure _
  · exact hT.keeps_pure _

theorem keeps_runSolver (hT : Groundwork T) (h : Upkeep.Frames T inner) (stack : List String)
    (aim : Aim) (coordinate : Coordinate) (b : Builtin) (arguments : Arguments) :
    Keeps T (runSolver inner stack aim coordinate b arguments) := by
  refine hT.keeps_bind (hT.keeps_liftM _) fun goal => ?_
  refine hT.keeps_bind (hT.keeps_liftM _) fun body => ?_
  refine hT.keeps_bind (hT.keeps_findVelocity h _ _ _ _ _) fun velocity => ?_
  refine keeps_get_bind fun before => hT.keeps_bind (keeps_modify ?_) fun _ => ?_
  · intro w
    exact hT.trans (hT.report w _) (hT.steer (w.emit _) coordinate velocity)
  refine keeps_get_bind fun start => ?_
  refine hT.keeps_bind (keeps_discard (h.run _ _)) fun _ => keeps_modify fun w => ?_
  unfold World.compared
  split
  · exact hT.report w _
  · exact hT.refl w

/-- Setting a listener up, running the sequence and taking the listener away keeps the
relation if it holds from the armed world to the disarmed one. -/
theorem runWatched (hT : Groundwork T) (h : Upkeep.Frames T inner) {w : World σ}
    {stack : List String} {watch : Watch} {b : Builtin} {arguments : Arguments}
    (hwatch : ∀ {listener : Listener} {v}, w.recording.has (kindOf watch) = false →
      listener.kind = kindOf watch → T (w.armed listener) v →
        T w (v.disarmed (kindOf watch))) :
    T w (Engine.runWatched inner stack watch b arguments w).2 := by
  cases hl : listenerOf w watch b arguments with
  | error fault =>
      rw [Run.runWatched_apply_unset hl]
      exact hT.refl w
  | ok listener =>
      obtain ⟨hfree, hkind⟩ := listenerOf_eq_ok hl
      cases hb : arguments.requireText "sequence" with
      | error fault =>
          rw [Run.runWatched_apply_unread hl hb]
          exact hT.refl w
      | ok body =>
          rw [Run.runWatched_apply hl hb, hkind]
          exact hwatch hfree hkind (keeps_discard (h.run _ body) _)

end Groundwork

namespace Upkeep

variable [Audience σ] {T : World σ → World σ → Prop} {inner : Frame σ}

theorem keeps_runUser (hT : Upkeep T) (h : Frames T inner) (stack : List String)
    (f : UserFunction) (arguments : Arguments) :
    Keeps T (runUser inner stack f arguments) := by
  intro w
  exact hT.scope _ (keeps_discard (h.run (stack ++ [f.name]) f.body) _)

theorem keeps_runWatched (hT : Upkeep T) (h : Frames T inner) {w : World σ}
    {stack : List String} {call : Call} {b : Builtin} {watch : Watch}
    (htarget : call.target = .builtin b) (heffect : b.effect = .wrapper (.watch watch)) :
    T (w.tell (.call stack call))
      (runWatched inner stack watch b call.arguments (w.tell (.call stack call))).2 :=
  hT.runWatched h fun hfree hkind hv => hT.watch htarget heffect hfree hkind hv

/-- What a call does, from the moment in which it is made. -/
theorem keeps_made (hT : Upkeep T) (rules : Rules) (hrules : rules.check = .ok ())
    (h : Frames T inner) (stack : List String) (call : Call) (w : World σ) :
    T (w.tell (.call stack call)) (dispatch rules inner stack call w).2 := by
  unfold dispatch
  rw [hrules, Run.bind_apply_ok (Run.liftM_apply _ w), Run.modify_bind_apply]
  cases htarget : call.target with
  | user f => exact hT.keeps_runUser h stack f _ _
  | sequence name body => exact keeps_discard (h.run _ _) _
  | builtin b =>
      dsimp only
      cases heffect : b.effect with
      | action action =>
          dsimp only
          rw [Run.atomically_apply]
          split
          · next v hv => exact hT.act htarget heffect (perform_deed hv)
          · exact hT.refl _
      | wrapper wrapper =>
          cases wrapper with
          | solve aim coordinate => exact hT.keeps_runSolver h stack aim coordinate b _ _
          | watch watch => exact hT.keeps_runWatched h htarget heffect
          | again => exact hT.keeps_runAgain rules h stack b _ _

theorem keeps_dispatch (hT : Upkeep T) (rules : Rules) (h : Frames T inner)
    (stack : List String) (call : Call) : Keeps T (dispatch rules inner stack call) := by
  intro w
  cases hrules : rules.check with
  | ok _ => exact hT.trans (hT.call w stack call) (hT.keeps_made rules hrules h stack call w)
  | error fault =>
      unfold dispatch
      rw [hrules, Run.bind_apply_error (Run.liftM_apply _ w)]
      exact hT.refl w

/-- Frames of every depth keep what each single thing keeps. -/
theorem frames (hT : Upkeep T) (rules : Rules) (n : Nat) : Frames T (frame rules n) := by
  induction n with
  | zero =>
      constructor
      · intro stack text
        exact hT.keeps_throw _
      · intro stack call
        exact hT.keeps_throw _
  | succ n ih =>
      constructor
      · intro stack text
        exact hT.keeps_runText rules (hT.keeps_dispatch rules ih stack) text
      · intro stack call
        exact hT.keeps_dispatch rules ih stack call

end Upkeep

end Parkour.Engine
