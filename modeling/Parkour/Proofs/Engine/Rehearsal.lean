import Parkour.Proofs.Engine.Impartial
import Parkour.Proofs.Engine.Listening

/-!
# What a trial foretells

A trial runs a sequence with another player and without listeners. It makes the calls
that the run itself will make, so when the trial succeeds, the run does. There are two
exceptions: the run can meet a listener of its own that the trial was spared, and a
solver inside the sequence looks at distances, which depend on the player.

## Implementation notes

Both runs take down their history. The one of the trial shows which calls are made in
the sequence, and only such a call can be the exception.
-/

namespace Parkour.Engine

open Parkour.Language
open Player (Coordinate)
open Report (Listener ListenerKind Recording)

variable {α β γ δ : Type}

/-! ## The calls of a run and of its trials -/

/-- The call that is made in a moment, in the run or in a trial. -/
def Moment.attempt : Moment → Option Call
  | .call _ made => some made
  | .tried moment => moment.attempt
  | .tick _ _ _ => none
  | .event _ => none

/-- The calls in a history, those in trials among them. -/
def attempts (history : History) : List Call :=
  history.filterMap Moment.attempt

theorem attempts_append (first second : History) :
    attempts (first ++ second) = attempts first ++ attempts second :=
  List.filterMap_append

theorem attempts_tried (history : History) :
    attempts (history.map .tried) = attempts history :=
  List.filterMap_map

/-- The calls that were made stay in the history. -/
def Hears (w v : World History) : Prop :=
  attempts w.audience ⊆ attempts v.audience

theorem hears_of_prefix {w v : World History} (h : w.audience <+: v.audience) : Hears w v := by
  obtain ⟨more, hmore⟩ := h
  unfold Hears
  rw [← hmore, attempts_append]
  exact List.subset_append_left _ _

/-- The fault of a listener that is set up while one of its kind is. -/
def nestedFault (kind : ListenerKind) (name : String) : Fault :=
  match kind with
  | .landing => .misuse (.nestedLanding name)
  | .stop => .misuse (.nestedStop name)

/-- The faults that a trial cannot foretell. `armed` are the listeners that it runs
without, and `made` are the calls that it makes. -/
inductive Unforeseen (armed : Recording) (made : List Call) : Fault → Prop where
  /-- A listener is set up while one of its kind is. -/
  | watch {call : Call} {b : Builtin} {watch : Watch} (hmade : call ∈ made)
      (htarget : call.target = .builtin b) (heffect : b.effect = .wrapper (.watch watch))
      (harmed : armed.has (kindOf watch) = true) :
      Unforeseen armed made (nestedFault (kindOf watch) b.name)
  /-- A solver finds the same distance for both velocities that it tries. -/
  | solve {call : Call} {b : Builtin} {aim : Aim} {coordinate : Coordinate}
      (hmade : call ∈ made) (htarget : call.target = .builtin b)
      (heffect : b.effect = .wrapper (.solve aim coordinate)) :
      Unforeseen armed made (.unsteerable b.name)

theorem Unforeseen.mono {armed : Recording} {made made' : List Call} {fault : Fault}
    (h : Unforeseen armed made fault) (hmade : made ⊆ made') : Unforeseen armed made' fault := by
  cases h with
  | watch hcall htarget heffect harmed => exact .watch (hmade hcall) htarget heffect harmed
  | solve hcall htarget heffect => exact .solve (hmade hcall) htarget heffect

theorem Unforeseen.later {armed : Recording} {extra made made' : List Call} {fault : Fault}
    (h : Unforeseen armed (extra ++ made) fault) (hmade : made ⊆ made') :
    Unforeseen armed (extra ++ made') fault := by
  refine h.mono (List.append_subset.mpr ⟨List.subset_append_left .., ?_⟩)
  exact List.Subset.trans hmade (List.subset_append_right ..)

/-! ## Rehearsing worlds -/

/-- A world of a trial and the world of the run. The names are the same, and of the
listeners that the run has the trial lacks only those that are `armed`. -/
structure Rehearses (armed : Recording) (w v : World History) : Prop where
  names : SameNames w v
  listeners : ∀ kind, v.recording.has kind = true →
    w.recording.has kind = true ∨ armed.has kind = true

namespace Rehearses

variable {armed : Recording} {w v : World History}

theorem refl (armed : Recording) (w : World History) : Rehearses armed w w :=
  ⟨.refl w, fun _ => .inl⟩

theorem scope (h : Rehearses armed w v) (s : Scope) :
    Rehearses armed { w with scope := s } { v with scope := s } where
  names := ⟨rfl, h.names.functions, h.names.axis⟩
  listeners := h.listeners

theorem disarm (h : Rehearses armed w v) (kind : ListenerKind) :
    Rehearses armed (w.disarmed kind) (v.disarmed kind) where
  names := ⟨h.names.scope, h.names.functions, h.names.axis⟩
  listeners other hother := by
    dsimp only [World.disarmed] at hother ⊢
    rw [Recording.has_disarm, Bool.and_eq_true] at hother ⊢
    rcases h.listeners other hother.1 with hw | harmed
    · exact .inl ⟨hw, hother.2⟩
    · exact .inr harmed

theorem arm (h : Rehearses armed w v) {listener listener' : Listener}
    (hkind : listener.kind = listener'.kind) :
    Rehearses armed (w.armed listener) (v.armed listener') where
  names := ⟨h.names.scope, h.names.functions, h.names.axis⟩
  listeners other hother := by
    dsimp only [World.armed] at hother ⊢
    by_cases hsame : listener.kind = other
    · subst hsame
      exact .inl (Recording.has_arm_self w.recording listener)
    · rw [Recording.has_arm (hkind ▸ hsame)] at hother
      rw [Recording.has_arm hsame]
      exact h.listeners other hother

theorem axis_setVelocity (h : Rehearses armed w v) (coordinate : Coordinate)
    (velocity velocity' : Float) :
    (v.player.setVelocity coordinate velocity').axis =
      (w.player.setVelocity coordinate velocity).axis := by
  have hw : Player.Setting w.player (w.player.setVelocity coordinate velocity) :=
    .velocity coordinate velocity
  have hv : Player.Setting v.player (v.player.setVelocity coordinate velocity') :=
    .velocity coordinate velocity'
  exact hv.steady.axis.trans (h.names.axis.trans hw.steady.axis.symm)

theorem tell (h : Rehearses armed w v) (moment moment' : Moment) :
    Rehearses armed (w.tell moment) (v.tell moment') where
  names := ⟨h.names.scope, h.names.functions, h.names.axis⟩
  listeners := h.listeners

theorem perform (h : Rehearses armed w v) {action : Action} {b : Builtin} {call : Call}
    {w' : World History} (hw : Engine.perform action b call w = .ok w') :
    ∃ v', Engine.perform action b call v = .ok v' ∧ Rehearses armed w' v' := by
  obtain ⟨v', hv, hnames⟩ := perform_of_sameNames h.names hw
  refine ⟨v', hv, hnames, fun kind hkind => ?_⟩
  rw [(perform_deed hv).recording] at hkind
  rw [(perform_deed hw).recording]
  exact h.listeners kind hkind

/-- Trials of the trial and of the run are alike: nothing listens in either. -/
theorem trial (h : Rehearses armed w v) (coordinate : Coordinate) (velocity : Float) :
    Rehearses armed (w.trial coordinate velocity) (v.trial coordinate velocity) where
  names := ⟨h.names.scope, h.names.functions, h.axis_setVelocity coordinate _ _⟩
  listeners kind hkind := by
    cases kind <;> cases hkind

theorem absorb (h : Rehearses armed w v) (after after' : World History) :
    Rehearses armed (w.absorb after) (v.absorb after') where
  names := ⟨h.names.scope, h.names.functions, h.names.axis⟩
  listeners := h.listeners

theorem steered (h : Rehearses armed w v) (b : Builtin) (coordinate : Coordinate)
    (velocity velocity' : Float) :
    Rehearses armed (w.steered b coordinate velocity) (v.steered b coordinate velocity') where
  names := ⟨h.names.scope, h.names.functions, h.axis_setVelocity coordinate _ _⟩
  listeners := h.listeners

theorem compared (h : Rehearses armed w v) (b : Builtin) (precision precision' : Nat)
    (miss miss' : Float) :
    Rehearses armed (w.compared b precision miss) (v.compared b precision' miss') := by
  unfold World.compared
  split <;> split
  · exact h.tell _ _
  · exact ⟨⟨h.names.scope, h.names.functions, h.names.axis⟩, h.listeners⟩
  · exact ⟨⟨h.names.scope, h.names.functions, h.names.axis⟩, h.listeners⟩
  · exact h

end Rehearses

/-! ## Steps -/

/-- If `x` succeeds in a trial, then `y` succeeds in the run, with a result that is
related to the one of `x`, or it fails unforeseen, by `extra` or by a call that is made in
the trial. -/
structure Foretells (armed : Recording) (extra : List Call) (Q : α → β → Prop)
    (x : Run History α) (y : Run History β) : Prop where
  hears : Keeps Hears x
  foretold : ∀ {w v a w'}, Rehearses armed w v → x w = (.ok a, w') →
    (∃ b v', y v = (.ok b, v') ∧ Q a b ∧ Rehearses armed w' v') ∨
      ∃ fault v', y v = (.error fault, v') ∧
        Unforeseen armed (extra ++ attempts w'.audience) fault

namespace Foretells

variable {armed : Recording} {extra : List Call} {Q : α → β → Prop} {R : γ → δ → Prop}

theorem ofPure {a : α} {b : β} (h : Q a b) :
    Foretells armed extra Q (pure a : Run History α) (pure b) where
  hears _ := List.Subset.refl _
  foretold hw hx := by
    cases hx
    exact .inl ⟨b, _, rfl, h, hw⟩

/-- A trial that fails foretells nothing. -/
theorem ofThrow (fault : Fault) (y : Run History β) :
    Foretells armed extra Q (throw fault : Run History α) y where
  hears _ := List.Subset.refl _
  foretold _ hx := by cases hx

/-- The run has to fail like the trial, to succeed like it or to fail unforeseen. -/
theorem ofExcept {e : Except Fault α} {e' : Except Fault β}
    (h : ∀ a, e = .ok a → (∃ b, e' = .ok b ∧ Q a b) ∨
      ∃ fault, e' = .error fault ∧ Unforeseen armed extra fault) :
    Foretells armed extra Q (liftM e : Run History α) (liftM e') where
  hears w := by
    rw [Run.liftM_apply]
    exact List.Subset.refl _
  foretold {w v a w'} hw hx := by
    rw [Run.liftM_apply] at hx
    obtain ⟨he, rfl⟩ := Prod.mk.inj hx
    rw [Run.liftM_apply]
    rcases h a he with ⟨b, hb, hQ⟩ | ⟨fault, hfault, hunforeseen⟩
    · exact .inl ⟨b, v, by rw [hb], hQ, hw⟩
    · exact .inr ⟨fault, v, by rw [hfault], hunforeseen.mono (List.subset_append_left _ _)⟩

theorem ofSame (e : Except Fault α) :
    Foretells armed extra Eq (liftM e : Run History α) (liftM e) :=
  ofExcept fun a he => .inl ⟨a, he, rfl⟩

theorem bind {x : Run History α} {y : Run History β} {f : α → Run History γ}
    {g : β → Run History δ} (hxy : Foretells armed extra Q x y) (htotal : ∀ a, ∃ b, Q a b)
    (hfg : ∀ a b, Q a b → Foretells armed extra R (f a) (g b)) :
    Foretells armed extra R (x >>= f) (y >>= g) where
  hears w := by
    have hx := hxy.hears w
    rcases hfirst : x w with ⟨fault | a, u⟩
    · rw [Run.bind_apply_error hfirst]
      rwa [hfirst] at hx
    · rw [Run.bind_apply_ok hfirst]
      rw [hfirst] at hx
      obtain ⟨b, hQ⟩ := htotal a
      exact List.Subset.trans hx ((hfg a b hQ).hears u)
  foretold {w v c w'} hw hx := by
    obtain ⟨a, u, hfirst, hx⟩ := Run.bind_eq_ok hx
    rcases hxy.foretold hw hfirst with ⟨b, t, hy, hQ, hu⟩ | ⟨fault, t, hy, hfault⟩
    · rw [Run.bind_apply_ok hy]
      exact (hfg a b hQ).foretold hu hx
    · -- The run ends here. The trial goes on and keeps what it has heard.
      obtain ⟨b, hQ⟩ := htotal a
      have hlater := (hfg a b hQ).hears u
      rw [hx] at hlater
      exact .inr ⟨fault, t, Run.bind_apply_error hy, hfault.later hlater⟩

/-- What follows the same step in both may rely on one result. -/
theorem bindSame {x y : Run History α} {f : α → Run History γ} {g : α → Run History δ}
    (hxy : Foretells armed extra Eq x y)
    (hfg : ∀ a, Foretells armed extra R (f a) (g a)) :
    Foretells armed extra R (x >>= f) (y >>= g) := by
  refine hxy.bind (fun a => ⟨a, rfl⟩) ?_
  rintro a _ rfl
  exact hfg a

theorem bindGet {f g : World History → Run History γ}
    (h : ∀ w v, Rehearses armed w v → Foretells armed extra Eq (f w) (g v)) :
    Foretells armed extra Eq (get >>= f) (get >>= g) where
  hears w := (h w w (.refl armed w)).hears w
  foretold {w v _ _} hw hx := (h w v hw).foretold hw hx

theorem ofModify {change change' : World History → World History}
    (hhears : ∀ w, w.audience <+: (change w).audience)
    (h : ∀ w v, Rehearses armed w v → Rehearses armed (change w) (change' v)) :
    Foretells armed extra Eq (modify change : Run History PUnit) (modify change') where
  hears w := hears_of_prefix (hhears w)
  foretold {w v _ _} hw hx := by
    cases hx
    exact .inl ⟨⟨⟩, _, rfl, rfl, h w v hw⟩

theorem ofDiscard {x : Run History α} {y : Run History α}
    (h : Foretells armed extra Eq x y) :
    Foretells armed extra Eq (discard x) (discard y) :=
  h.bindSame fun _ => ofPure rfl

theorem ofRestoring {x y : Run History Unit} {restore restore' : World History → World History}
    (hhears : ∀ w, (restore w).audience = w.audience) (hxy : Foretells armed extra Eq x y)
    (h : ∀ w v, Rehearses armed w v → Rehearses armed (restore w) (restore' v)) :
    Foretells armed extra Eq (restoring x restore) (restoring y restore') where
  hears w := by
    have hx := hxy.hears w
    rw [Run.restoring_apply]
    unfold Hears at hx ⊢
    rwa [hhears]
  foretold {w v _ _} hw hx := by
    rw [Run.restoring_apply] at hx
    rcases hfirst : x w with ⟨fault | b, u⟩
    · rw [hfirst] at hx
      cases hx
    · rw [hfirst] at hx
      cases hx
      rw [Run.restoring_apply]
      rcases hxy.foretold hw hfirst with ⟨c, t, hy, hbc, hu⟩ | ⟨fault, t, hy, hfault⟩
      · rw [hy]
        exact .inl ⟨c, _, rfl, hbc, h u t hu⟩
      · rw [hy]
        refine .inr ⟨fault, _, rfl, ?_⟩
        rwa [hhears]

end Foretells

/-! ## Frames -/

/-- Both ways into a frame foretell themselves. -/
structure Foreseen (armed : Recording) (inner : Frame History) : Prop where
  run : ∀ {extra} stack text,
    Foretells armed extra Eq (inner.run stack text) (inner.run stack text)
  dispatch : ∀ {extra} stack call,
    Foretells armed extra Eq (inner.dispatch stack call) (inner.dispatch stack call)

section

variable {armed : Recording} {extra : List Call} {inner : Frame History} (rules : Rules)

theorem foretells_runTokens {dispatch : List String → Call → Run History Unit}
    {stack : List String}
    (hd : ∀ call, Foretells armed extra Eq (dispatch stack call) (dispatch stack call))
    (tokens : List String) :
    Foretells armed extra Eq (runTokens rules dispatch stack tokens)
      (runTokens rules dispatch stack tokens) := by
  induction tokens with
  | nil => exact .ofPure rfl
  | cons token rest ih =>
      refine (Foretells.ofSame _).bindSame fun _ => .bindGet fun w v h => ?_
      rw [h.names.bindToken_eq]
      refine (Foretells.ofSame _).bindSame fun call => ?_
      exact (hd call).bindSame fun _ => ih.bindSame fun calls => .ofPure rfl

theorem foretells_runText {dispatch : List String → Call → Run History Unit}
    {stack : List String}
    (hd : ∀ call, Foretells armed extra Eq (dispatch stack call) (dispatch stack call))
    (text : String) :
    Foretells armed extra Eq (runText rules dispatch stack text)
      (runText rules dispatch stack text) := by
  refine .bindGet fun w v h => ?_
  rw [h.names.axis]
  exact (Foretells.ofSame _).bindSame fun tokens => foretells_runTokens rules hd tokens

theorem foretells_forM {again : Call → Run History Unit}
    (h : ∀ call, Foretells armed extra Eq (again call) (again call)) (calls : List Call) :
    Foretells armed extra Eq (calls.forM again) (calls.forM again) := by
  induction calls with
  | nil => exact .ofPure rfl
  | cons call rest ih => exact (h call).bindSame fun _ => ih

theorem foretells_replay {again : Call → Run History Unit}
    (h : ∀ call, Foretells armed extra Eq (again call) (again call)) (calls : List Call)
    (passes : Nat) :
    Foretells armed extra Eq (replay rules again calls passes)
      (replay rules again calls passes) := by
  induction passes with
  | zero => exact .ofPure rfl
  | succ passes ih =>
      refine (Foretells.ofSame _).bindSame fun _ => ?_
      exact (foretells_forM h _).bindSame fun _ => ih

theorem foretells_runAgain (h : Foreseen armed inner) (stack : List String) (b : Builtin)
    (arguments : Arguments) :
    Foretells armed extra Eq (runAgain rules inner stack b arguments)
      (runAgain rules inner stack b arguments) := by
  refine (Foretells.ofSame _).bindSame fun count => ?_
  cases count with
  | zero => exact .ofPure rfl
  | succ more =>
      refine (Foretells.ofSame _).bindSame fun body => ?_
      refine (h.run _ _).bindSame fun calls => ?_
      exact foretells_replay rules (h.dispatch _) calls more

omit rules

theorem foretells_runUser (h : Foreseen armed inner) (stack : List String) (f : UserFunction)
    (arguments : Arguments) :
    Foretells armed extra Eq (runUser inner stack f arguments)
      (runUser inner stack f arguments) := by
  refine .bindGet fun w v hw => ?_
  rw [hw.names.scope]
  refine .ofRestoring (fun _ => rfl) ?_ fun _ _ hu => hu.scope _
  refine (Foretells.ofModify ?_ ?_).bindSame fun _ => (h.run _ _).ofDiscard
  · exact fun _ => List.prefix_rfl
  · intro w v hw
    rw [hw.names.scope]
    exact hw.scope _

/-! ## Solvers and listeners -/

/-- Distances differ between a trial and the run, but trials inside both succeed alike. -/
theorem foretells_probe (h : Foreseen armed inner) (child : List String)
    (coordinate : Coordinate) (velocity : Float) (body : String) :
    Foretells armed extra (fun _ _ => True) (probe inner child coordinate velocity body)
      (probe inner child coordinate velocity body) where
  hears w := by
    rw [Run.probe_apply]
    exact hears_of_prefix (List.prefix_append ..)
  foretold {w v _ _} hw hx := by
    rw [Run.probe_apply] at hx
    rcases hrun : inner.run child body (w.trial coordinate velocity) with ⟨fault | calls, u⟩
    · rw [hrun] at hx
      cases hx
    · rw [hrun] at hx
      cases hx
      rw [Run.probe_apply]
      rcases (h.run child body).foretold (hw.trial coordinate velocity) hrun with
        ⟨b, t, hy, -, -⟩ | ⟨fault, t, hy, hfault⟩
      · rw [hy]
        exact .inl ⟨_, _, rfl, trivial, hw.absorb u t⟩
      · rw [hy]
        refine .inr ⟨fault, _, rfl, hfault.later ?_⟩
        rw [World.absorb, absorb_history, attempts_append, attempts_tried]
        exact List.subset_append_right ..

/-- The call of a solver is the exception if the solver finds no velocity. -/
theorem foretells_findVelocity (h : Foreseen armed inner) (child : List String)
    {call : Call} {b : Builtin} {aim : Aim} {coordinate : Coordinate}
    (htarget : call.target = .builtin b) (heffect : b.effect = .wrapper (.solve aim coordinate))
    (goal : Float) (body : String) :
    Foretells armed [call] (fun _ _ => True)
      (findVelocity inner child coordinate b goal body)
      (findVelocity inner child coordinate b goal body) := by
  refine (foretells_probe h _ _ _ _).bind (fun a => ⟨a, trivial⟩) fun atRest atRest' _ => ?_
  refine (foretells_probe h _ _ _ _).bind (fun a => ⟨a, trivial⟩) fun atOne atOne' _ => ?_
  dsimp only
  split
  · exact .ofThrow _ _
  · split
    · refine ⟨fun _ => List.Subset.refl _, fun {_ v _ _} _ _ => .inr ⟨_, v, rfl, ?_⟩⟩
      exact .solve List.mem_cons_self htarget heffect
    · exact .ofPure trivial

theorem foretells_runSolver (h : Foreseen armed inner) (stack : List String) {call : Call}
    {b : Builtin} {aim : Aim} {coordinate : Coordinate} (htarget : call.target = .builtin b)
    (heffect : b.effect = .wrapper (.solve aim coordinate)) (arguments : Arguments) :
    Foretells armed [call] Eq (runSolver inner stack aim coordinate b arguments)
      (runSolver inner stack aim coordinate b arguments) := by
  refine (Foretells.ofSame _).bindSame fun goal => ?_
  refine (Foretells.ofSame _).bindSame fun body => ?_
  refine (foretells_findVelocity h _ htarget heffect goal body).bind (fun a => ⟨a, trivial⟩)
    fun velocity velocity' _ => .bindGet fun before before' _ => ?_
  refine (Foretells.ofModify ?_ fun w v hw => hw.steered b coordinate _ _).bindSame fun _ => ?_
  · exact fun w => List.prefix_append ..
  refine .bindGet fun start start' _ => (h.run _ _).ofDiscard.bindSame fun _ => ?_
  refine .ofModify (fun w => ?_) fun w v hw => hw.compared b _ _ _ _
  unfold World.compared
  split
  · exact List.prefix_append ..
  · exact List.prefix_rfl

section

variable {w v : World History} {watch : Watch} {b : Builtin} {arguments : Arguments}
  {listener : Listener}

/-- Whether a listener can be set up depends on the others of its kind. -/
theorem verdict_listenerOf
    (h : v.recording.has (kindOf watch) = w.recording.has (kindOf watch)) :
    verdict (listenerOf w watch b arguments) = verdict (listenerOf v watch b arguments) := by
  cases watch with
  | landing coordinate =>
      unfold listenerOf landingListener
      rw [show v.recording.has .landing = w.recording.has .landing from h]
      rw [verdict_map, verdict_map]
      split
      · rfl
      · refine verdict_bind_same _ fun reach => verdict_bind_same _ fun increment => ?_
        refine verdict_bind_same _ fun miss => verdict_bind_same _ fun _ => ?_
        exact verdict_bind_same _ fun offset => verdict_ok _ _
  | stop =>
      unfold listenerOf stopListener
      rw [show v.recording.has .stop = w.recording.has .stop from h]
      rw [verdict_map, verdict_map]
      split
      · rfl
      · refine verdict_bind_same _ fun miss => ?_
        split
        · rfl
        · exact verdict_ok _ _

/-- There is one listener of each kind at most. -/
theorem listenerOf_nested (h : w.recording.has (kindOf watch) = true) :
    listenerOf w watch b arguments = .error (nestedFault (kindOf watch) b.name) := by
  cases watch with
  | landing coordinate =>
      have hlanding : w.recording.has .landing = true := h
      unfold listenerOf landingListener
      dsimp only
      rw [if_pos hlanding]
      rfl
  | stop =>
      have hstop : w.recording.has .stop = true := h
      unfold listenerOf stopListener
      dsimp only
      rw [if_pos hstop]
      rfl

/-- A listener that is set up in a trial is set up in the run, unless one of its kind is
there already. Then the call is the exception. -/
theorem foretells_listenerOf (h : Rehearses armed w v) {call : Call}
    (htarget : call.target = .builtin b) (heffect : b.effect = .wrapper (.watch watch)) :
    Foretells armed [call] (fun l l' : Listener => l.kind = l'.kind)
      (liftM (listenerOf w watch b arguments)) (liftM (listenerOf v watch b arguments)) := by
  refine .ofExcept fun listener hw => ?_
  obtain ⟨hfree, hkind⟩ := listenerOf_eq_ok hw
  cases hv : v.recording.has (kindOf watch) with
  | false =>
      obtain ⟨listener', hl⟩ :=
        exists_ok_of_verdict (verdict_listenerOf (hv.trans hfree.symm)) hw
      exact .inl ⟨listener', hl, hkind.trans (listenerOf_eq_ok hl).2.symm⟩
  | true =>
      refine .inr ⟨_, listenerOf_nested hv, ?_⟩
      rcases h.listeners _ hv with hw | harmed
      · rw [hfree] at hw
        cases hw
      · exact .watch List.mem_cons_self htarget heffect harmed

theorem foretells_runWatched (h : Foreseen armed inner) (stack : List String) {call : Call}
    (htarget : call.target = .builtin b) (heffect : b.effect = .wrapper (.watch watch)) :
    Foretells armed [call] Eq (runWatched inner stack watch b arguments)
      (runWatched inner stack watch b arguments) := by
  refine .bindGet fun w v hw => ?_
  refine (foretells_listenerOf hw htarget heffect).bind (fun l => ⟨l, rfl⟩) fun l l' hsame => ?_
  refine (Foretells.ofSame _).bindSame fun text => ?_
  refine .ofRestoring (fun _ => rfl) ?_ fun _ _ hu => by rw [hsame]; exact hu.disarm _
  refine (Foretells.ofModify ?_ fun w v hw => hw.arm hsame).bindSame fun _ => ?_
  · exact fun _ => List.prefix_rfl
  · exact (h.run _ _).ofDiscard

end

/-! ## Calls -/

theorem foretells_action (action : Action) (b : Builtin) (call : Call) :
    Foretells armed extra Eq (atomically (perform action b call))
      (atomically (perform action b call)) where
  hears w := by
    rw [Run.atomically_apply]
    split
    · next v hv => exact hears_of_prefix (grows_of_deed (perform_deed hv))
    · exact List.Subset.refl _
  foretold {w v _ _} hw hx := by
    rw [Run.atomically_apply] at hx
    split at hx
    · next u hu =>
      obtain ⟨t, ht, hrehearses⟩ := hw.perform hu
      cases hx
      rw [Run.atomically_apply, ht]
      exact .inl ⟨⟨⟩, t, rfl, rfl, hrehearses⟩
    · cases hx

/-- What a call does that has been told of. -/
theorem foretells_told {stack : List String} {call : Call} {x : Run History Unit}
    (h : Foretells armed [call] Eq x x) :
    Foretells armed extra Eq
      (do
        modify fun w : World History => w.tell (.call stack call)
        x)
      (do
        modify fun w : World History => w.tell (.call stack call)
        x) where
  hears w := by
    have htold : Hears w (w.tell (.call stack call)) := hears_of_prefix (List.prefix_append ..)
    exact List.Subset.trans htold (h.hears _)
  foretold {w v _ w'} hw hx := by
    rcases h.foretold (hw.tell (.call stack call) (.call stack call)) hx with
      hok | ⟨fault, v', hy, hfault⟩
    · exact .inl hok
    · -- The call has been told of, so it is among those that the trial makes.
      refine .inr ⟨fault, v', hy, hfault.mono ?_⟩
      have hlater := h.hears (w.tell (.call stack call))
      rw [show x (w.tell (.call stack call)) = _ from hx] at hlater
      refine List.append_subset.mpr ⟨?_, List.subset_append_right ..⟩
      rintro made hmade
      cases List.mem_singleton.mp hmade
      refine List.mem_append_right _ (hlater ?_)
      rw [World.tell, tell_history, attempts_append]
      exact List.mem_append_right _ List.mem_cons_self

theorem foretells_dispatch (rules : Rules) (h : Foreseen armed inner) (stack : List String)
    (call : Call) :
    Foretells armed extra Eq (dispatch rules inner stack call)
      (dispatch rules inner stack call) := by
  refine (Foretells.ofSame _).bindSame fun _ => foretells_told ?_
  cases htarget : call.target with
  | user f => exact foretells_runUser h stack f _
  | sequence name body => exact (h.run _ _).ofDiscard
  | builtin b =>
      dsimp only
      cases heffect : b.effect with
      | action action => exact foretells_action action b call
      | wrapper wrapper =>
          cases wrapper with
          | solve aim coordinate => exact foretells_runSolver h stack htarget heffect _
          | watch watch => exact foretells_runWatched h stack htarget heffect
          | again => exact foretells_runAgain rules h stack b _

end

/-- In frames of every depth, a trial that succeeds foretells the run. -/
theorem foreseen_frame (armed : Recording) (rules : Rules) (n : Nat) :
    Foreseen armed (frame rules n) := by
  induction n with
  | zero =>
      constructor
      · intro extra stack text
        exact .ofThrow _ _
      · intro extra stack call
        exact .ofThrow _ _
  | succ n ih =>
      constructor
      · intro extra stack text
        exact foretells_runText rules (foretells_dispatch rules ih stack) text
      · intro extra stack call
        exact foretells_dispatch rules ih stack call

end Parkour.Engine
