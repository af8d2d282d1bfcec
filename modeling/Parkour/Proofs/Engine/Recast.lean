import Parkour.Proofs.Engine.Upkeep

/-!
# One run seen as another

Two runs of the same sequence can differ in who listens and who is told. A recast maps
the worlds of the one to the worlds of the other. When each single thing that a run
can do goes along with the map, whole runs do.
-/

namespace Parkour.Engine

open Parkour.Language
open Player (Controls Coordinate)
open Report (Event Listener ListenerKind Recording)

/-- A map of recordings that does not touch the listeners of a kind. -/
structure Respects (change : Recording → Recording) (kind : ListenerKind) : Prop where
  has : ∀ r, (change r).has kind = r.has kind
  arm : ∀ r (listener : Listener), listener.kind = kind →
    change (r.arm listener) = (change r).arm listener
  disarm : ∀ r, change (r.disarm kind) = (change r).disarm kind

/-- A map of the worlds of one audience to the worlds of another. It has to go along
with a run only as long as what the first audience hears is clean. -/
structure Recast (τ σ : Type) [Audience τ] [Audience σ] where
  /-- The listeners of the image. -/
  recording : Recording → Recording
  /-- The audience of the image. -/
  audience : τ → σ
  /-- What may be heard. -/
  clean : τ → Prop
  clean_of_tell : ∀ {t moment}, clean (Audience.tell t moment) → clean t
  clean_of_absorb : ∀ {t trial}, clean (Audience.absorb t trial) → clean t
  call : ∀ t stack made,
    audience (Audience.tell t (.call stack made)) =
      Audience.tell (audience t) (.call stack made)
  tick : ∀ t r c p,
    audience (Audience.tell t (.tick r c p)) =
      Audience.tell (audience t) (.tick (recording r) c p)
  event : ∀ t e,
    audience (Audience.tell t (.event e)) = Audience.tell (audience t) (.event e)
  /-- Calls that would tell the listeners apart are not clean. -/
  watch : ∀ {t stack made b watch}, made.target = .builtin b →
    b.effect = .wrapper (.watch watch) → clean (Audience.tell t (.call stack made)) →
    Respects recording (kindOf watch)

variable {τ σ α β : Type} [Audience τ] [Audience σ]

namespace Recast

variable (K : Recast τ σ)

/-- The image of a world. -/
def world (v : World τ) : World σ where
  player := v.player
  scope := v.scope
  functions := v.functions
  recording := K.recording v.recording
  audience := K.audience v.audience

theorem world_call (v : World τ) (stack : List String) (made : Call) :
    K.world (v.tell (.call stack made)) = (K.world v).tell (.call stack made) := by
  simp only [world, World.tell, K.call]

theorem world_emit (v : World τ) (event : Event) :
    K.world (v.emit event) = (K.world v).emit event := by
  simp only [world, World.emit, World.tell, K.event]

theorem world_emits (v : World τ) (events : List Event) :
    K.world (events.foldl World.emit v) = events.foldl World.emit (K.world v) := by
  induction events generalizing v with
  | nil => rfl
  | cons event rest ih =>
      rw [List.foldl_cons, List.foldl_cons, ih, K.world_emit]

theorem world_steered (v : World τ) (b : Builtin) (coordinate : Coordinate)
    (velocity : Float) :
    K.world (v.steered b coordinate velocity) =
      (K.world v).steered b coordinate velocity := by
  simp only [world, World.steered, World.emit, World.tell, K.event]
  rfl

theorem world_compared (v : World τ) (b : Builtin) (precision : Nat) (miss : Float) :
    K.world (v.compared b precision miss) = (K.world v).compared b precision miss := by
  unfold World.compared
  split
  · exact K.world_emit v _
  · rfl

theorem playTicks_recast (r : Recording) (n : Nat) (c : Controls) (p : Player) (t : τ) :
    playTicks (K.recording r) n c p (K.audience t) =
      ((playTicks r n c p t).1, K.audience (playTicks r n c p t).2) := by
  induction n generalizing c p t with
  | zero => rfl
  | succ n ih =>
      rw [playTicks, playTicks, ← K.tick]
      exact ih _ _ _

theorem world_play (v : World τ) (n : Nat) (c : Controls) :
    K.world (v.play n c) = (K.world v).play n c := by
  simp only [world, World.play, K.playTicks_recast]

/-! ## Actions -/

theorem adjust_recast (change : Player → Except Fault Player) (v : World τ) :
    (K.world v).adjust change = (v.adjust change).map K.world :=
  bind_eq_map_bind (change v.player) fun _ => rfl

theorem moveTicks_recast (gait : Gait) (made : Call) (v : World τ) :
    moveTicks gait made (K.world v) = (moveTicks gait made v).map K.world := by
  refine bind_eq_map_bind _ fun duration => bind_eq_map_bind _ fun slip => ?_
  exact congrArg Except.ok (K.world_play v _ _).symm

theorem riseTicks_recast (phase : Player.Phase) (made : Call) (v : World τ) :
    riseTicks phase made (K.world v) = (riseTicks phase made v).map K.world := by
  refine bind_eq_map_bind _ fun duration => ?_
  exact congrArg Except.ok (K.world_play v _ _).symm

theorem print_recast (arguments : Arguments) (v : World τ) :
    print arguments (K.world v) = (print arguments v).map K.world := by
  refine bind_eq_map_bind _ fun pieces => ?_
  exact congrArg Except.ok (K.world_emit v _).symm

theorem help_recast (arguments : Arguments) (v : World τ) :
    help arguments (K.world v) = (help arguments v).map K.world := by
  unfold help
  split
  · exact congrArg Except.ok (K.world_emits v (overview v)).symm
  · dsimp only
    split
    · exact congrArg Except.ok (K.world_emit v _).symm
    · dsimp only [world]
      split
      · exact congrArg Except.ok (K.world_emit v _).symm
      · rfl

theorem assign_recast (arguments : Arguments) (v : World τ) :
    assign arguments (K.world v) = (assign arguments v).map K.world := by
  refine bind_eq_map_bind _ fun name => ?_
  dsimp only
  split
  · rfl
  · refine bind_eq_map_bind _ fun text => bind_eq_map_bind _ fun number => ?_
    rfl

theorem define_recast (arguments : Arguments) (v : World τ) :
    define arguments (K.world v) = (define arguments v).map K.world := by
  refine bind_eq_map_bind _ fun text => bind_eq_map_bind _ fun signature => ?_
  split
  · rfl
  · exact bind_eq_map_bind _ fun body => rfl

theorem perform_recast (action : Action) (b : Builtin) (made : Call) (v : World τ) :
    perform action b made (K.world v) = (perform action b made v).map K.world := by
  cases action with
  | move gait => exact K.moveTicks_recast gait made v
  | rise phase => exact K.riseTicks_recast phase made v
  | readOut readout => exact congrArg Except.ok (K.world_emit v _).symm
  | readMomentum coordinate => exact congrArg Except.ok (K.world_emit v _).symm
  | readBlocks coordinate => exact congrArg Except.ok (K.world_emit v _).symm
  | readVector => exact congrArg Except.ok (K.world_emits v [_, _]).symm
  | print => exact K.print_recast made.arguments v
  | help => exact K.help_recast made.arguments v
  | setCeiling =>
      exact K.adjust_recast
        (fun p => ofRefusal (p.setCeiling (made.arguments.number? "height"))) v
  | assign => exact K.assign_recast made.arguments v
  | define => exact K.define_recast made.arguments v
  | _ => exact K.adjust_recast _ v

theorem clean_of_playTicks {r : Recording} {n : Nat} {c : Controls} {p : Player} {t : τ}
    (h : K.clean (playTicks r n c p t).2) : K.clean t := by
  induction n generalizing c p t with
  | zero => exact h
  | succ n ih => exact K.clean_of_tell (ih h)

theorem clean_of_emits {v : World τ} {events : List Event}
    (h : K.clean (events.foldl World.emit v).audience) : K.clean v.audience := by
  induction events generalizing v with
  | nil => exact h
  | cons event rest ih => exact K.clean_of_tell (ih h)

theorem clean_of_deed {action : Action} {w v : World τ} (h : Deed w action v)
    (hv : K.clean v.audience) : K.clean w.audience := by
  cases h with
  | play n c => exact K.clean_of_playTicks hv
  | adjust p _ => exact hv
  | report events => exact K.clean_of_emits hv
  | assign name v _ => exact hv
  | define f => exact hv

end Recast

/-! ## Computations -/

/-- The computation `x` does to the image of a world what `y` does to the world, as
long as what is heard stays clean. -/
structure Commutes (K : Recast τ σ) (x : Run σ α) (y : Run τ α) : Prop where
  clean : ∀ v, K.clean (y v).2.audience → K.clean v.audience
  image : ∀ v, K.clean (y v).2.audience → x (K.world v) = ((y v).1, K.world (y v).2)

namespace Commutes

variable {K : Recast τ σ}

theorem ofPure (a : α) : Commutes K (pure a : Run σ α) (pure a) where
  clean _ h := h
  image _ _ := rfl

theorem ofThrow (fault : Fault) : Commutes K (throw fault : Run σ α) (throw fault) where
  clean _ h := h
  image _ _ := rfl

theorem ofExcept (e : Except Fault α) : Commutes K (liftM e : Run σ α) (liftM e) := by
  cases e with
  | ok a => exact ofPure a
  | error fault => exact ofThrow fault

theorem bind {x : Run σ α} {y : Run τ α} {f : α → Run σ β} {g : α → Run τ β}
    (hxy : Commutes K x y) (hfg : ∀ a, Commutes K (f a) (g a)) :
    Commutes K (x >>= f) (y >>= g) := by
  have hstep : ∀ v, K.clean ((y >>= g) v).2.audience → K.clean (y v).2.audience ∧
      (x >>= f) (K.world v) = (((y >>= g) v).1, K.world ((y >>= g) v).2) := by
    intro v hv
    rcases h : y v with ⟨fault | a, u⟩
    · rw [Run.bind_apply_error h] at hv ⊢
      have hx := hxy.image v (by rwa [h])
      rw [h] at hx
      exact ⟨hv, Run.bind_apply_error hx⟩
    · rw [Run.bind_apply_ok h] at hv ⊢
      have hu := (hfg a).clean u hv
      have hx := hxy.image v (by rwa [h])
      rw [h] at hx
      rw [Run.bind_apply_ok hx]
      exact ⟨hu, (hfg a).image u hv⟩
  constructor
  · intro v hv
    exact hxy.clean v (hstep v hv).1
  · intro v hv
    exact (hstep v hv).2

/-- What follows a check may rely on its outcome. -/
theorem bindExcept (e : Except Fault α) {f : α → Run σ β} {g : α → Run τ β}
    (h : ∀ a, e = .ok a → Commutes K (f a) (g a)) :
    Commutes K (liftM e >>= f) (liftM e >>= g) := by
  cases e with
  | ok a => exact h a rfl
  | error fault => exact ofThrow fault

theorem bindGet {f : World σ → Run σ β} {g : World τ → Run τ β}
    (h : ∀ u, Commutes K (f (K.world u)) (g u)) : Commutes K (get >>= f) (get >>= g) where
  clean v hv := (h v).clean v hv
  image v hv := (h v).image v hv

theorem ofModify {change : World σ → World σ} {change' : World τ → World τ}
    (hclean : ∀ v, K.clean (change' v).audience → K.clean v.audience)
    (himage : ∀ v, change (K.world v) = K.world (change' v)) :
    Commutes K (modify change : Run σ PUnit) (modify change') where
  clean := hclean
  image v _ := congrArg (Prod.mk _) (himage v)

theorem ofDiscard {x : Run σ α} {y : Run τ α} (h : Commutes K x y) :
    Commutes K (discard x) (discard y) :=
  h.bind fun _ => ofPure _

theorem ofRestoring {x : Run σ Unit} {y : Run τ Unit} {restore : World σ → World σ}
    {restore' : World τ → World τ} (h : Commutes K x y)
    (haudience : ∀ v, (restore' v).audience = v.audience)
    (himage : ∀ v, restore (K.world v) = K.world (restore' v)) :
    Commutes K (restoring x restore) (restoring y restore') := by
  constructor
  · intro v hv
    exact h.clean v (by rwa [← haudience])
  · intro v hv
    have hx := h.image v (by rwa [← haudience])
    rw [Run.restoring_apply, Run.restoring_apply, hx, himage]

theorem ofAction (action : Action) (b : Builtin) (made : Call) :
    Commutes K (atomically (perform action b made)) (atomically (perform action b made)) := by
  constructor
  · intro v hv
    rw [Run.atomically_apply] at hv
    split at hv
    · next u hu => exact K.clean_of_deed (perform_deed hu) hv
    · exact hv
  · intro v hv
    rw [Run.atomically_apply, Run.atomically_apply, K.perform_recast]
    cases perform action b made v with
    | ok u => rfl
    | error fault => rfl

end Commutes

/-! ## Frames -/

/-- The ways into two frames commute. -/
structure Twins (K : Recast τ σ) (inner : Frame σ) (inner' : Frame τ) : Prop where
  run : ∀ stack text, Commutes K (inner.run stack text) (inner'.run stack text)
  dispatch : ∀ stack made, Commutes K (inner.dispatch stack made) (inner'.dispatch stack made)

/-- The trials in two frames commute. -/
def Rehearsed (K : Recast τ σ) (inner : Frame σ) (inner' : Frame τ) : Prop :=
  ∀ child coordinate velocity body,
    Commutes K (probe inner child coordinate velocity body)
      (probe inner' child coordinate velocity body)

section

variable {K : Recast τ σ} {inner : Frame σ} {inner' : Frame τ}

theorem commutes_runTokens (rules : Rules) {dispatch : List String → Call → Run σ Unit}
    {dispatch' : List String → Call → Run τ Unit}
    (hd : ∀ stack made, Commutes K (dispatch stack made) (dispatch' stack made))
    (stack tokens : List String) :
    Commutes K (runTokens rules dispatch stack tokens)
      (runTokens rules dispatch' stack tokens) := by
  induction tokens with
  | nil => exact .ofPure []
  | cons token rest ih =>
      refine (Commutes.ofExcept _).bind fun _ => .bindGet fun u => ?_
      refine (Commutes.ofExcept (u.bindToken stack token)).bind fun made => ?_
      exact (hd stack made).bind fun _ => ih.bind fun calls => .ofPure _

theorem commutes_runText (rules : Rules) {dispatch : List String → Call → Run σ Unit}
    {dispatch' : List String → Call → Run τ Unit}
    (hd : ∀ stack made, Commutes K (dispatch stack made) (dispatch' stack made))
    (stack : List String) (text : String) :
    Commutes K (runText rules dispatch stack text) (runText rules dispatch' stack text) := by
  refine .bindGet fun u => (Commutes.ofExcept _).bind fun tokens => ?_
  exact commutes_runTokens rules hd stack tokens

theorem commutes_forM {again : Call → Run σ Unit} {again' : Call → Run τ Unit}
    (h : ∀ made, Commutes K (again made) (again' made)) (calls : List Call) :
    Commutes K (calls.forM again) (calls.forM again') := by
  induction calls with
  | nil => exact .ofPure ()
  | cons made rest ih => exact (h made).bind fun _ => ih

theorem commutes_replay (rules : Rules) {again : Call → Run σ Unit}
    {again' : Call → Run τ Unit} (h : ∀ made, Commutes K (again made) (again' made))
    (calls : List Call) (passes : Nat) :
    Commutes K (replay rules again calls passes) (replay rules again' calls passes) := by
  induction passes with
  | zero => exact .ofPure ()
  | succ passes ih =>
      refine (Commutes.ofExcept _).bind fun _ => ?_
      exact (commutes_forM h _).bind fun _ => ih

theorem commutes_runAgain (rules : Rules) (h : Twins K inner inner') (stack : List String)
    (b : Builtin) (arguments : Arguments) :
    Commutes K (runAgain rules inner stack b arguments)
      (runAgain rules inner' stack b arguments) := by
  refine (Commutes.ofExcept _).bind fun count => ?_
  cases count with
  | zero => exact .ofPure ()
  | succ more =>
      refine (Commutes.ofExcept _).bind fun body => ?_
      refine (h.run _ _).bind fun calls => ?_
      exact commutes_replay rules (h.dispatch _) calls more

theorem commutes_runUser (h : Twins K inner inner') (stack : List String)
    (f : UserFunction) (arguments : Arguments) :
    Commutes K (runUser inner stack f arguments) (runUser inner' stack f arguments) := by
  refine .bindGet fun u => .ofRestoring ?_ (fun _ => rfl) (fun _ => rfl)
  refine .bind ?_ fun _ => (h.run _ _).ofDiscard
  exact .ofModify (fun _ hv => hv) fun _ => rfl

theorem commutes_findVelocity (h : Rehearsed K inner inner') (child : List String)
    (coordinate : Coordinate) (b : Builtin) (goal : Float) (body : String) :
    Commutes K (findVelocity inner child coordinate b goal body)
      (findVelocity inner' child coordinate b goal body) := by
  refine (h _ _ _ _).bind fun atRest => (h _ _ _ _).bind fun atOne => ?_
  dsimp only
  split
  · exact (Commutes.ofThrow _).bind fun _ => .ofPure _
  · exact .ofPure _

theorem commutes_runSolver (h : Twins K inner inner') (htrial : Rehearsed K inner inner')
    (stack : List String) (aim : Aim) (coordinate : Coordinate) (b : Builtin)
    (arguments : Arguments) :
    Commutes K (runSolver inner stack aim coordinate b arguments)
      (runSolver inner' stack aim coordinate b arguments) := by
  refine (Commutes.ofExcept _).bind fun goal => (Commutes.ofExcept _).bind fun body => ?_
  refine (commutes_findVelocity htrial _ _ _ _ _).bind fun velocity => ?_
  refine .bindGet fun before => (Commutes.ofModify ?_ ?_).bind fun _ => ?_
  · exact fun v hv => K.clean_of_tell hv
  · exact fun v => (K.world_steered v _ _ _).symm
  refine .bindGet fun start => (h.run _ _).ofDiscard.bind fun _ => .ofModify ?_ ?_
  · intro v hv
    unfold World.compared at hv
    split at hv
    · exact K.clean_of_tell hv
    · exact hv
  · exact fun v => (K.world_compared v _ _ _).symm

variable {stack : List String} {watch : Watch} {b : Builtin} {arguments : Arguments}

theorem listenerOf_recast (hr : Respects K.recording (kindOf watch)) (u : World τ) :
    listenerOf (K.world u) watch b arguments = listenerOf u watch b arguments := by
  cases watch with
  | landing coordinate =>
      unfold listenerOf landingListener
      rw [show (K.world u).recording.has .landing = u.recording.has .landing from hr.has _]
      rfl
  | stop =>
      unfold listenerOf stopListener
      rw [show (K.world u).recording.has .stop = u.recording.has .stop from hr.has _]
      rfl

theorem clean_of_runWatched (h : Twins K inner inner') {v : World τ}
    (hv : K.clean (runWatched inner' stack watch b arguments v).2.audience) :
    K.clean v.audience := by
  cases hl : listenerOf v watch b arguments with
  | error fault => rwa [Run.runWatched_apply_unset hl] at hv
  | ok listener =>
      cases hb : arguments.requireText "sequence" with
      | error fault => rwa [Run.runWatched_apply_unread hl hb] at hv
      | ok body =>
          rw [Run.runWatched_apply hl hb] at hv
          exact (h.run _ body).ofDiscard.clean (v.armed listener) hv

theorem commutes_runWatched (h : Twins K inner inner')
    (hr : Respects K.recording (kindOf watch)) :
    Commutes K (runWatched inner stack watch b arguments)
      (runWatched inner' stack watch b arguments) := by
  refine .bindGet fun u => ?_
  rw [listenerOf_recast hr]
  refine .bindExcept _ fun listener hl => (Commutes.ofExcept _).bind fun text => ?_
  obtain ⟨-, hkind⟩ := listenerOf_eq_ok hl
  refine .ofRestoring ?_ (fun _ => rfl) fun v => ?_
  · refine .bind (.ofModify (fun _ hv => hv) fun v => ?_) fun _ => (h.run _ _).ofDiscard
    simp only [Recast.world, World.armed, hr.arm _ _ hkind]
  · simp only [Recast.world, World.disarmed, hkind, hr.disarm]

theorem commutes_dispatch (rules : Rules) (h : Twins K inner inner')
    (htrial : Rehearsed K inner inner') (stack : List String) (made : Call) :
    Commutes K (dispatch rules inner stack made) (dispatch rules inner' stack made) := by
  have htell : Commutes K (modify fun w => w.tell (.call stack made) : Run σ PUnit)
      (modify fun w => w.tell (.call stack made)) :=
    .ofModify (fun v hv => K.clean_of_tell hv) fun v => (K.world_call v stack made).symm
  unfold dispatch
  refine (Commutes.ofExcept _).bind fun _ => ?_
  cases htarget : made.target with
  | user f => exact htell.bind fun _ => commutes_runUser h stack f _
  | sequence name body => exact htell.bind fun _ => (h.run _ _).ofDiscard
  | builtin b =>
      dsimp only
      cases heffect : b.effect with
      | action action => exact htell.bind fun _ => .ofAction action b made
      | wrapper wrapper =>
          cases wrapper with
          | solve aim coordinate =>
              exact htell.bind fun _ => commutes_runSolver h htrial stack aim coordinate b _
          | again => exact htell.bind fun _ => commutes_runAgain rules h stack b _
          | watch watch =>
              constructor
              · intro v hv
                exact K.clean_of_tell (clean_of_runWatched h hv)
              · intro v hv
                have hr := K.watch htarget heffect (clean_of_runWatched h hv)
                have himage := (commutes_runWatched h hr).image _ hv
                rwa [K.world_call] at himage

/-- Frames commute when the frames that they open do. -/
theorem Twins.succ (rules : Rules) {n : Nat} (h : Twins K (frame rules n) (frame rules n))
    (htrial : Rehearsed K (frame rules n) (frame rules n)) :
    Twins K (frame rules (n + 1)) (frame rules (n + 1)) where
  run stack text := commutes_runText rules (commutes_dispatch rules h htrial) stack text
  dispatch stack made := commutes_dispatch rules h htrial stack made

theorem Twins.zero (rules : Rules) : Twins K (frame rules 0) (frame rules 0) where
  run _ _ := .ofThrow _
  dispatch _ _ := .ofThrow _

end

end Parkour.Engine
