import Parkour.Proofs.Engine.Bound
import Parkour.Proofs.Engine.Invariant
import Parkour.Proofs.Engine.Validity
import Parkour.Proofs.Player.Parts

/-!
# Isolation of the models

One player serves both models, but an engine resolves a name only to builtins of the model
of its player or of both models. So no run changes what belongs to the other model, however
its calls are nested, and whether it succeeds or fails.
-/

namespace Parkour.Language

open Player (Axis)

/-- The model to whose part of the player an action leads, if it makes a setting of one. -/
def Action.model? : Action → Option Axis
  | .face => some .horizontal
  | .turn => some .horizontal
  | .queueAngles => some .horizontal
  | .queueTurns => some .horizontal
  | .setSlip => some .horizontal
  | .setPosition coordinate => some coordinate.model
  | .setVelocity coordinate => some coordinate.model
  | .setPotion potion => some potion.model
  | .setCeiling => some .vertical
  | _ => none

/-- The same of all that a builtin does itself. -/
def Effect.model? : Effect → Option Axis
  | .action a => a.model?
  | .wrapper (.solve _ coordinate) => some coordinate.model
  | .wrapper _ => none

/-- A builtin that leads to the part of a model belongs to that model alone. -/
theorem Catalogue.model : ∀ b ∈ Catalogue.all, ∀ axis ∈ b.effect.model?, b.axis = some axis := by
  decide

end Parkour.Language

namespace Parkour.Engine

open Parkour.Language
open Player (Axis Controls Coordinate Isolated)

/-! ## Actions -/

section

variable {σ : Type} {w v : World σ} {call : Call} {b : Builtin} {arguments : Arguments}

theorem player_assign (h : assign arguments w = .ok v) : v.player = w.player := by
  obtain ⟨text, -, h⟩ := bind_eq_ok h
  dsimp only at h
  split at h
  · cases h
  · obtain ⟨value, -, h⟩ := bind_eq_ok h
    obtain ⟨number, -, h⟩ := bind_eq_ok h
    cases h
    rfl

theorem player_define (h : define arguments w = .ok v) : v.player = w.player := by
  obtain ⟨text, -, h⟩ := bind_eq_ok h
  obtain ⟨signature, -, h⟩ := bind_eq_ok h
  split at h
  · cases h
  · obtain ⟨body, -, h⟩ := bind_eq_ok h
    cases h
    rfl

theorem isolated_of_eq (h : v.player = w.player) : Isolated w.player v.player := by
  rw [h]
  exact .refl _

theorem isolated_adjust {change : Player → Except Fault Player}
    (hchange : ∀ q, change w.player = .ok q → Isolated w.player q)
    (h : w.adjust change = .ok v) : Isolated w.player v.player := by
  obtain ⟨q, hq, h⟩ := bind_eq_ok h
  cases h
  exact hchange q hq

variable [Audience σ]

theorem isolated_playTicks (r : Report.Recording) (n : Nat) (c : Controls) (p : Player) (s : σ) :
    Isolated p (playTicks r n c p s).1 := by
  induction n generalizing c p s with
  | zero => exact .refl p
  | succ n ih => exact (Player.isolated_tick p c).trans (ih c.settled (p.tick c) _)

theorem isolated_moveTicks {gait : Gait} (h : moveTicks gait call w = .ok v) :
    Isolated w.player v.player := by
  obtain ⟨duration, -, h⟩ := bind_eq_ok h
  obtain ⟨slip, -, h⟩ := bind_eq_ok h
  cases h
  exact isolated_playTicks _ _ _ _ _

theorem isolated_riseTicks {phase : Player.Phase} (h : riseTicks phase call w = .ok v) :
    Isolated w.player v.player := by
  obtain ⟨duration, -, h⟩ := bind_eq_ok h
  cases h
  exact isolated_playTicks _ _ _ _ _

theorem player_print (h : print arguments w = .ok v) : v.player = w.player := by
  obtain ⟨pieces, -, h⟩ := bind_eq_ok h
  cases h
  rfl

theorem player_help (h : help arguments w = .ok v) : v.player = w.player := by
  unfold help at h
  split at h
  · cases h
    obtain ⟨audience, hemitted⟩ := foldl_emit (overview w) w
    rw [hemitted]
  · dsimp only at h
    split at h
    · cases h
      rfl
    · split at h
      · cases h
        rfl
      · cases h

/-- An action that leads to no part but that of the model of the player leaves the other part
alone. -/
theorem isolated_perform {action : Action} (hmodel : ∀ axis ∈ action.model?, axis = w.player.axis)
    (h : perform action b call w = .ok v) : Isolated w.player v.player := by
  unfold perform at h
  cases action with
  | move gait => exact isolated_moveTicks h
  | rise phase => exact isolated_riseTicks h
  | readOut readout =>
      cases h
      exact .refl _
  | readMomentum coordinate =>
      cases h
      exact .refl _
  | readBlocks coordinate =>
      cases h
      exact .refl _
  | readVector =>
      cases h
      exact .refl _
  | print => exact isolated_of_eq (player_print h)
  | help => exact isolated_of_eq (player_help h)
  | face =>
      refine isolated_adjust (fun q hq => ?_) h
      obtain ⟨degrees, rfl⟩ := setNumber_eq_ok hq
      exact Player.isolated_of_heightPart (hmodel _ rfl).symm rfl rfl
  | turn =>
      refine isolated_adjust (fun q hq => ?_) h
      obtain ⟨degrees, rfl⟩ := setNumber_eq_ok hq
      exact Player.isolated_of_heightPart (hmodel _ rfl).symm rfl rfl
  | queueAngles =>
      refine isolated_adjust (fun q hq => ?_) h
      obtain ⟨degrees, rfl⟩ := queueUp_eq_ok hq
      exact Player.isolated_of_heightPart (hmodel _ rfl).symm rfl rfl
  | queueTurns =>
      refine isolated_adjust (fun q hq => ?_) h
      obtain ⟨degrees, rfl⟩ := queueUp_eq_ok hq
      exact Player.isolated_of_heightPart (hmodel _ rfl).symm rfl rfl
  | setPosition coordinate =>
      refine isolated_adjust (fun q hq => ?_) h
      obtain ⟨value, rfl⟩ := setNumber_eq_ok hq
      exact Player.isolated_setPosition coordinate value (hmodel _ rfl)
  | setVelocity coordinate =>
      refine isolated_adjust (fun q hq => ?_) h
      obtain ⟨value, rfl⟩ := setNumber_eq_ok hq
      exact Player.isolated_setVelocity coordinate value (hmodel _ rfl)
  | setSlip =>
      refine isolated_adjust (fun q hq => ?_) h
      obtain ⟨slip, hslip⟩ := setSlip_eq_ok hq
      obtain ⟨-, -, rfl⟩ := Player.setGroundSlip_eq_ok hslip
      exact Player.isolated_of_heightPart (hmodel _ rfl).symm rfl rfl
  | setPotion potion =>
      refine isolated_adjust (fun q hq => ?_) h
      obtain ⟨level, hlevel⟩ := setChecked_eq_ok hq
      exact Player.isolated_setPotion (hmodel _ rfl) hlevel
  | setCeiling =>
      refine isolated_adjust (fun q hq => ?_) h
      obtain ⟨-, rfl⟩ := Player.setCeiling_eq_ok (ofRefusal_eq_ok hq)
      exact Player.isolated_of_planePart (hmodel _ rfl).symm rfl rfl
  | setInertia =>
      refine isolated_adjust (fun q hq => ?_) h
      obtain ⟨threshold, mode, hinertia⟩ := setInertia_eq_ok hq
      obtain ⟨-, -, rfl⟩ := Player.setInertia_eq_ok hinertia
      exact Player.isolated_of_parts rfl rfl rfl
  | setPrecision =>
      refine isolated_adjust (fun q hq => ?_) h
      obtain ⟨digits, hdigits⟩ := setChecked_eq_ok hq
      obtain ⟨checked, -, rfl⟩ := Player.setPrecision_eq_ok hdigits
      exact Player.isolated_of_parts rfl rfl rfl
  | assign => exact isolated_of_eq (player_assign h)
  | define => exact isolated_of_eq (player_define h)

end

/-! ## Runs with a journal -/

section

variable {σ : Type} {Made : Call → Prop} {F : Fault → Prop} {I : World (Journal σ) → Prop}

theorem Ensures.noting {α : Type} {P : α → Prop} {x : Run (Journal σ) α}
    (hnote : ∀ w, I w → I w.noted) (hx : Ensures I F P x) : Ensures I F P (noting x) := by
  intro w hw
  obtain ⟨hafter, hresult⟩ := hx w.noted (hnote w hw)
  exact ⟨hnote _ hafter, hresult⟩

variable [Audience σ]

/-- Frames with a journal keep an invariant that a note keeps. -/
theorem Invariant.journaled (hI : Invariant Made I) (hF : Faults Made I F)
    (hnote : ∀ w, I w → I w.noted) (rules : Rules) (n : Nat) :
    Ensures.Frames Made I F (journaled rules n : Frame (Journal σ)) := by
  induction n with
  | zero =>
      constructor
      · intro stack text
        exact .noting hnote (.ofThrow (hF.tooDeep rules.maxDepth))
      · intro stack call _
        exact .noting hnote (.ofThrow (hF.tooDeep rules.maxDepth))
  | succ n ih =>
      have hmade := fun stack call (hcall : Made call) =>
        Ensures.noting hnote (hI.dispatch hF rules ih stack hcall)
      constructor
      · intro stack text
        exact .noting hnote (hI.runText hF rules (hmade stack) text)
      · exact hmade

end

/-! ## What is isolated along a run -/

/-- A call to a builtin leads to no part of the player but that of the model. -/
def Minds (axis : Axis) (call : Call) : Prop :=
  ∀ b, call.target = .builtin b → ∀ model ∈ b.effect.model?, model = axis

theorem minds_of_bindToken {σ : Type} {w : World σ} {stack : List String} {token : String}
    {call : Call} (h : w.bindToken stack token = .ok call) : Minds w.player.axis call := by
  intro b htarget model hmodel
  obtain ⟨⟨hmem, hbelongs⟩, -⟩ := bindToken_eq_builtin h htarget
  unfold Builtin.belongsTo at hbelongs
  rw [Catalogue.model b hmem model hmodel] at hbelongs
  exact of_decide_eq_true hbelongs

/-- The player of a world is isolated from a given one, and so are those that were noted. -/
structure Separate {σ : Type} (start : Player) (w : World (Journal σ)) : Prop where
  player : Isolated start w.player
  noted : ∀ p ∈ w.audience.players, Isolated start p

namespace Separate

variable {σ : Type} {start : Player} {w v : World (Journal σ)}

theorem note (h : Separate start w) : Separate start w.noted where
  player := h.player
  noted := List.forall_mem_append.mpr ⟨h.noted, List.forall_mem_singleton.mpr h.player⟩

theorem steer (h : Separate start w) {coordinate : Coordinate} (velocity : Float)
    (hmodel : coordinate.model = start.axis) :
    Isolated start (w.player.setVelocity coordinate velocity) :=
  h.player.trans (Player.isolated_setVelocity coordinate velocity (hmodel.trans h.player.1.symm))

variable [Audience σ]

/-- A moment that shows no player changes nothing about the journal. -/
theorem tell (h : Separate start w) {moment : Moment} (hmoment : moment.players = []) :
    Separate start (w.tell moment) where
  player := h.player
  noted := by
    change ∀ p ∈ w.audience.players ++ moment.players, Isolated start p
    rw [hmoment, List.append_nil]
    exact h.noted

/-- Of the players that an action notes, those after its ticks, each is isolated. -/
theorem deed (h : Separate start w) {action : Action} (hdeed : Deed w action v)
    (hplayer : Isolated w.player v.player) : Separate start v := by
  refine ⟨h.player.trans hplayer, ?_⟩
  cases hdeed with
  | play n c =>
      change ∀ p ∈ (playTicks w.recording n c w.player w.audience).2.players, Isolated start p
      rw [players_playTicks]
      refine List.forall_mem_append.mpr ⟨h.noted, fun p hp => ?_⟩
      exact h.player.trans (Player.isolated_ticked w.player n c p hp)
  | adjust p hset => exact h.noted
  | assign name v _ => exact h.noted
  | define f => exact h.noted
  | report events =>
      clear hplayer
      induction events generalizing w with
      | nil => exact h.noted
      | cons event rest ih => exact ih (h.tell rfl)

theorem absorb (h : Separate start w) (hv : Separate start v) : Separate start (w.absorb v) where
  player := h.player
  noted := List.forall_mem_append.mpr ⟨h.noted, hv.noted⟩

end Separate

theorem model_of_solves {axis : Axis} {coordinate : Coordinate}
    (h : Solves (Minds axis) coordinate) : coordinate.model = axis := by
  obtain ⟨call, b, aim, hminds, htarget, heffect⟩ := h
  exact hminds b htarget coordinate.model (by rw [heffect]; rfl)

/-- No single thing that a run does leads to the part of the other model. -/
theorem invariant_separate {σ : Type} [Audience σ] (start : Player) :
    Invariant (Minds start.axis) (Separate start : World (Journal σ) → Prop) where
  bound h _ hbound := h.player.1 ▸ minds_of_bindToken hbound
  call _ _ h := h.tell rfl
  act {w v stack call b action} hmade htarget heffect h hv := by
    refine h.deed (perform_deed hv) (isolated_perform (fun axis haxis => ?_) hv)
    have hmodel : axis = start.axis := hmade b htarget axis (by rw [heffect]; exact haxis)
    exact hmodel.trans h.player.1.symm
  arm _ h := ⟨h.player, h.noted⟩
  disarm _ h := ⟨h.player, h.noted⟩
  enter _ _ h := ⟨h.player, h.noted⟩
  leave _ h := ⟨h.player, h.noted⟩
  trial velocity hsolves h :=
    ⟨h.steer velocity (model_of_solves hsolves), List.forall_mem_nil _⟩
  absorb h hv := h.absorb hv
  steer velocity hsolves h := ⟨h.steer velocity (model_of_solves hsolves), h.noted⟩
  report _ h := h.tell rfl

/-! ## Sessions -/

theorem isolated_serveNoting (e : Engine) (r : Request) :
    Isolated e.player (e.serveNoting r).1.engine.player ∧
      ∀ p ∈ (e.serveNoting r).2, Isolated e.player p := by
  have hstart : Separate e.player (e.journalWorld r) := ⟨.refl _, List.forall_mem_nil _⟩
  have hinvariant : Invariant (Minds e.player.axis)
      (Separate e.player : World (Journal Report.Sink) → Prop) := invariant_separate e.player
  have hframes := hinvariant.journaled (faults_any _ _) (fun _ h => h.note)
    ⟨e.maxDepth, r.cancelled⟩ (e.maxDepth + 1)
  have hafter : Separate e.player (e.journal r).2 := (hframes.run [] r.text _ hstart).1
  dsimp only [serveNoting, answer, Recast.world]
  exact ⟨hafter.player, hafter.noted⟩

/-- Whatever an engine is asked, and whether it succeeds or fails, the part of the other model
stays what it was: after each request, after each tick, call and fault, and in each trial. -/
theorem session_isolated (e : Engine) (requests : List Request) :
    (e.sessionNoting requests).map Prod.fst = e.session requests ∧
      ∀ turn ∈ e.sessionNoting requests,
        Isolated e.player turn.1.engine.player ∧ ∀ p ∈ turn.2, Isolated e.player p := by
  refine ⟨e.sessionNoting_fst requests, ?_⟩
  induction requests generalizing e with
  | nil => exact List.forall_mem_nil _
  | cons r rest ih =>
      obtain ⟨hserved, hnoted⟩ := isolated_serveNoting e r
      refine List.forall_mem_cons.mpr ⟨⟨hserved, hnoted⟩, fun turn hturn => ?_⟩
      obtain ⟨hafter, hlater⟩ := ih (e.serveNoting r).1.engine turn hturn
      exact ⟨hserved.trans hafter, fun p hp => hserved.trans (hlater p hp)⟩

end Parkour.Engine
