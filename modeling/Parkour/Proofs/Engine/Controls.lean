import Mathlib.Data.List.Chain
import Parkour.Engine.Session
import Parkour.Proofs.Engine.Bound
import Parkour.Proofs.Engine.History
import Parkour.Proofs.Engine.Invariant
import Parkour.Proofs.Engine.Listening

/-!
# The controls of ticks

A mover turns its keys, modifiers and arguments into the controls of its ticks. The
catalogue, the binding of calls and the checks of the mover each rule something out, and
together they leave only controls that its model of motion knows.
-/

namespace Parkour.Player

/-- The controls that a tick under the model may have. -/
structure Controls.Legal (axis : Axis) (c : Controls) : Prop where
  sprint : c.sprint = true → c.keys.forward = true ∧ c.keys.back = false
  slip : ∀ s ∈ c.slip, s.isFinite = true ∧ 0 < s
  plane : axis = .horizontal → c.phase ≠ .slime
  height : axis = .vertical →
    c.keys = .none ∧ c.sprint = false ∧ c.sneak = false ∧
      ∀ feature, c.terrain.has feature = true → feature = .water ∨ feature = .lava

/-- A phase that is not just the start of a move. -/
def Phase.IsSettled (phase : Phase) : Prop :=
  phase ≠ .jump ∧ phase ≠ .slime

theorem isSettled_settled (phase : Phase) : phase.settled.IsSettled := by
  cases phase <;> exact ⟨nofun, nofun⟩

theorem Controls.Legal.settled {axis : Axis} {c : Controls} (h : c.Legal axis) :
    c.settled.Legal axis where
  sprint := h.sprint
  slip := h.slip
  plane _ := (isSettled_settled c.phase).2
  height := h.height

/-- A terrain with nothing outside of the allowed features has only those. -/
theorem Terrain.has_of_outside {t allowed : Terrain} (h : (t.outside allowed).isEmpty = true)
    {feature : Feature} (hfeature : t.has feature = true) : allowed.has feature = true := by
  have hplain : t.outside allowed = .plain := eq_of_beq h
  simp only [outside, plain, mk.injEq, Bool.and_eq_false_iff, Bool.not_eq_false'] at hplain
  cases feature <;> simp_all [has]

end Parkour.Player

namespace Parkour.Language

open Player (Axis Controls Terrain)

/-- The keys under this rule hold `w` and not `s`. -/
def KeyRule.sprints : KeyRule → Bool
  | .free => false
  | .sprint => true
  | .fixed keys => keys.forward && !keys.back

/-- A mover in the plane does not bounce and sprints with keys for it only. A mover in
height knows no terrain but fluids. -/
def Builtin.movesLegally (b : Builtin) : Bool :=
  match b.effect with
  | .action (.move gait) =>
      b.axis = some .horizontal && gait.phase ≠ .slime && (!gait.sprint || b.keys.sprints)
  | .action (.rise _) => b.axis = some .vertical && b.modifiers = .fluids
  | _ => true

theorem Catalogue.movesLegally : ∀ b ∈ Catalogue.all, b.movesLegally = true := by
  decide

theorem Binding.sprints_of_bindKeys {b : Builtin} {text : Option String} {keys : Player.Keys}
    (h : bindKeys b text = .ok keys) (hsprints : b.keys.sprints = true) :
    keys.forward = true ∧ keys.back = false := by
  obtain ⟨given, -, h⟩ := bind_eq_ok h
  split at h
  · next fixed hrule =>
    split at h
    · cases h
    · cases h
      rw [hrule] at hsprints
      simpa [KeyRule.sprints] using hsprints
  · next hrule =>
    rw [hrule] at hsprints
    cases hsprints
  · dsimp only at h
    split at h
    · cases h
    · next hgood =>
      cases h
      simpa using hgood

theorem Binding.has_of_bindModifiers {function : String} {allowed terrain : Terrain}
    {text : Option String} (h : bindModifiers function allowed text = .ok terrain)
    {feature : Player.Feature} (hfeature : terrain.has feature = true) :
    allowed.has feature = true := by
  unfold bindModifiers at h
  split at h
  · cases h
    cases feature <;> cases hfeature
  · obtain ⟨parsed, -, h⟩ := bind_eq_ok h
    dsimp only at h
    split at h
    · cases h
    · next hinside =>
      cases h
      exact Terrain.has_of_outside (by simpa using hinside) hfeature

/-- An action plays ticks. -/
def Action.plays : Action → Bool
  | .move _ | .rise _ => true
  | _ => false

/-- A call plays ticks. -/
def Call.Plays (call : Call) : Prop :=
  ∃ b action, call.target = .builtin b ∧ b.effect = .action action ∧ action.plays = true

end Parkour.Language

namespace Parkour.Engine

open Parkour.Language
open Player (Axis Controls)
open Report (Event Recording)

/-! ## Ticks in a history -/

/-- The controls of a tick, also of one in a trial. -/
def Moment.controls? : Moment → Option Controls
  | .tick _ controls _ => some controls
  | .tried moment => moment.controls?
  | _ => none

/-- What may come right before a moment. A tick comes behind the call that plays it, or
behind another tick of this call, and then its phase is settled. -/
def Moment.Leads : Moment → Moment → Prop
  | .tried before, .tried after => Leads before after
  | .call _ made, .tick _ _ _ => made.Plays
  | .tick _ _ _, .tick _ c _ => c.phase.IsSettled
  | _, after => after.controls? = none

/-- Ticks have legal controls, and each stands where a tick may stand. -/
structure Orderly (axis : Axis) (history : History) : Prop where
  legal : ∀ moment ∈ history, ∀ c ∈ moment.controls?, c.Legal axis
  led : history.IsChain Moment.Leads
  first : ∀ moment ∈ history.head?, moment.controls? = none

theorem leads_of_controls?_eq_none {before after : Moment} (h : after.controls? = none) :
    before.Leads after := by
  induction after generalizing before with
  | call stack made => cases before <;> rfl
  | tick r c p => cases h
  | event e => cases before <;> rfl
  | tried moment ih =>
      cases before with
      | tried other => exact ih h
      | call stack made => exact h
      | tick r c p => exact h
      | event e => exact h

namespace Orderly

variable {axis : Axis} {history more : History}

theorem nil : Orderly axis [] where
  legal := List.forall_mem_nil _
  led := .nil
  first := nofun

theorem append (h : Orderly axis history)
    (hlegal : ∀ moment ∈ more, ∀ c ∈ moment.controls?, c.Legal axis)
    (hled : more.IsChain Moment.Leads)
    (hseam : ∀ last ∈ history.getLast?, ∀ next ∈ more.head?, last.Leads next)
    (hfirst : history = [] → ∀ moment ∈ more.head?, moment.controls? = none) :
    Orderly axis (history ++ more) where
  legal := List.forall_mem_append.mpr ⟨h.legal, hlegal⟩
  led := h.led.append hled hseam
  first := by
    cases history with
    | nil => exact hfirst rfl
    | cons moment rest => exact h.first

/-- One more moment fits behind one that leads to it. -/
theorem snoc (h : Orderly axis history) {moment : Moment}
    (hlegal : ∀ c ∈ moment.controls?, c.Legal axis)
    (hlast : ∃ last ∈ history.getLast?, last.Leads moment) :
    Orderly axis (history ++ [moment]) := by
  obtain ⟨last, hlast, hleads⟩ := hlast
  refine h.append (by simpa using hlegal) (.singleton moment) ?_ ?_
  · intro other hother next hnext
    cases hlast.symm.trans hother
    cases hnext
    exact hleads
  · rintro rfl
    cases hlast

/-- A moment without a tick fits anywhere. -/
theorem quiet (h : Orderly axis history) {moment : Moment} (hmoment : moment.controls? = none) :
    Orderly axis (history ++ [moment]) := by
  refine h.append ?_ (.singleton moment) ?_ ?_
  · simp [hmoment]
  · rintro last - _ ⟨⟩
    exact leads_of_controls?_eq_none hmoment
  · rintro - _ ⟨⟩
    exact hmoment

/-- What was told in a trial. -/
theorem tried (h : Orderly axis history) : Orderly axis (history.map .tried) where
  legal moment hmem c hc := by
    obtain ⟨other, hother, rfl⟩ := List.mem_map.mp hmem
    exact h.legal other hother c hc
  led := (List.isChain_map _).mpr h.led
  first moment hmoment := by
    rw [List.head?_map] at hmoment
    obtain ⟨other, hother, rfl⟩ := Option.map_eq_some_iff.mp hmoment
    exact h.first other hother

theorem absorb (h : Orderly axis history) (hmore : Orderly axis more) :
    Orderly axis (history ++ more.map .tried) := by
  have htried := hmore.tried
  refine h.append htried.legal htried.led ?_ fun _ => htried.first
  intro last _ next hnext
  exact leads_of_controls?_eq_none (htried.first next hnext)

/-- Ticks fit behind what leads to the first one. -/
theorem playTicks (r : Recording) (n : Nat) {c : Controls} (p : Player)
    (h : Orderly axis history) (hlegal : c.Legal axis)
    (hlast : ∃ last ∈ history.getLast?, ∀ after, last.Leads (.tick r c after)) :
    Orderly axis (playTicks r n c p history).2 := by
  induction n generalizing c p history with
  | zero => exact h
  | succ n ih =>
      obtain ⟨last, hlast, hleads⟩ := hlast
      rw [Engine.playTicks, tell_history]
      refine ih (p.tick c) (h.snoc ?_ ⟨last, hlast, hleads (p.tick c)⟩) hlegal.settled ?_
      · rintro _ ⟨⟩
        exact hlegal
      · refine ⟨.tick r c (p.tick c), by simp, fun after => ?_⟩
        exact Player.isSettled_settled c.phase

end Orderly

/-! ## What actions tell -/

section

variable {axis : Axis} {call : Call} {b : Builtin} {arguments : Arguments} {w v : World History}

/-- Ticks in the plane have legal controls if the keys go with the gait. -/
theorem moveTicks_eq_play {gait : Gait} (hphase : gait.phase ≠ .slime)
    (hkeys : gait.sprint = true → call.keys.forward = true ∧ call.keys.back = false)
    (h : moveTicks gait call w = .ok v) :
    ∃ n c, v = w.play n c ∧ c.Legal .horizontal := by
  obtain ⟨duration, -, h⟩ := bind_eq_ok h
  obtain ⟨slip, hslip, h⟩ := bind_eq_ok h
  cases h
  refine ⟨_, _, rfl, hkeys, ?_, fun _ => hphase, nofun⟩
  intro s hs
  cases hgiven : call.arguments.number? "slip" with
  | none =>
      rw [hgiven] at hslip
      cases hslip
      cases hs
  | some given =>
      rw [hgiven] at hslip
      obtain ⟨checked, hchecked, hslip⟩ := map_eq_ok hslip
      subst hslip
      cases hs
      obtain ⟨rfl, hfinite, hpositive⟩ := Player.checkSlip_eq_ok (ofRefusal_eq_ok hchecked)
      exact ⟨hfinite, hpositive⟩

/-- Ticks in height have legal controls if the modifiers are fluids. -/
theorem riseTicks_eq_play {phase : Player.Phase}
    (hterrain : ∀ feature, call.modifiers.has feature = true →
      feature = .water ∨ feature = .lava)
    (h : riseTicks phase call w = .ok v) : ∃ n c, v = w.play n c ∧ c.Legal .vertical := by
  obtain ⟨duration, -, h⟩ := bind_eq_ok h
  cases h
  exact ⟨_, _, rfl, nofun, nofun, nofun, fun _ => ⟨rfl, rfl, rfl, hterrain⟩⟩

/-- Nothing is told but reports. -/
def Reports (w v : World History) : Prop :=
  ∃ events : List Event, v.audience = (events.foldl World.emit w).audience

theorem Reports.orderly (h : Reports w v) (hw : Orderly axis w.audience) :
    Orderly axis v.audience := by
  obtain ⟨events, hv⟩ := h
  rw [hv]
  clear hv
  induction events generalizing w with
  | nil => exact hw
  | cons event rest ih => exact @ih (w.emit event) (hw.quiet rfl)

theorem reports_of_adjust {change : Player → Except Fault Player}
    (h : w.adjust change = .ok v) : Reports w v := by
  obtain ⟨p, -, h⟩ := bind_eq_ok h
  cases h
  exact ⟨[], rfl⟩

theorem reports_of_help (h : help arguments w = .ok v) : Reports w v := by
  unfold help at h
  split at h
  · cases h
    exact ⟨overview w, rfl⟩
  · dsimp only at h
    split at h
    · cases h
      exact ⟨[_], rfl⟩
    · split at h
      · cases h
        exact ⟨[_], rfl⟩
      · cases h

theorem reports_of_print (h : print arguments w = .ok v) : Reports w v := by
  obtain ⟨pieces, -, h⟩ := bind_eq_ok h
  cases h
  exact ⟨[_], rfl⟩

theorem reports_of_assign (h : assign arguments w = .ok v) : Reports w v := by
  obtain ⟨name, text, number, -, -, rfl⟩ := assign_eq_ok h
  exact ⟨[], rfl⟩

theorem reports_of_define (h : define arguments w = .ok v) : Reports w v := by
  obtain ⟨text, body, signature, -, -, -, -, rfl⟩ := define_eq_ok h
  exact ⟨[], rfl⟩

/-- Only movers play ticks. -/
theorem reports_of_perform {action : Action} (h : perform action b call w = .ok v)
    (hplays : action.plays = false) : Reports w v := by
  cases action with
  | move gait => cases hplays
  | rise phase => cases hplays
  | readOut readout =>
      cases h
      exact ⟨[_], rfl⟩
  | readMomentum coordinate =>
      cases h
      exact ⟨[_], rfl⟩
  | readBlocks coordinate =>
      cases h
      exact ⟨[_], rfl⟩
  | readVector =>
      cases h
      exact ⟨[_, _], rfl⟩
  | print => exact reports_of_print h
  | help => exact reports_of_help h
  | face => exact reports_of_adjust h
  | turn => exact reports_of_adjust h
  | queueAngles => exact reports_of_adjust h
  | queueTurns => exact reports_of_adjust h
  | setPosition coordinate => exact reports_of_adjust h
  | setVelocity coordinate => exact reports_of_adjust h
  | setSlip => exact reports_of_adjust h
  | setPotion potion => exact reports_of_adjust h
  | setCeiling =>
      have hset : w.adjust (fun p => ofRefusal (p.setCeiling (call.arguments.number? "height"))) =
          .ok v := h
      exact reports_of_adjust hset
  | setInertia => exact reports_of_adjust h
  | setPrecision => exact reports_of_adjust h
  | assign => exact reports_of_assign h
  | define => exact reports_of_define h

end

/-! ## Runs -/

/-- A call to a builtin is bound to one of the model. -/
def BoundUnder (axis : Axis) (call : Call) : Prop :=
  ∀ b, call.target = .builtin b → (b ∈ Catalogue.all ∧ b.belongsTo axis = true) ∧
    ∃ command scope stack, Binding.Parts command b scope stack call

section

variable {axis : Axis} {call : Call} {b : Builtin} {w v : World History}

/-- A mover that was bound plays ticks with legal controls. -/
theorem legal_of_mover (hcall : BoundUnder axis call) (htarget : call.target = .builtin b)
    {action : Action} (heffect : b.effect = .action action) (hplays : action.plays = true)
    (h : perform action b call w = .ok v) : ∃ n c, v = w.play n c ∧ c.Legal axis := by
  obtain ⟨⟨hmem, hbelongs⟩, command, scope, stack, hparts⟩ := hcall b htarget
  have hlegally := Catalogue.movesLegally b hmem
  unfold Builtin.movesLegally at hlegally
  rw [heffect] at hlegally
  cases action with
  | move gait =>
      simp only [Bool.and_eq_true, decide_eq_true_eq, Bool.or_eq_true,
        Bool.not_eq_true'] at hlegally
      obtain ⟨⟨haxis, hphase⟩, hsprint⟩ := hlegally
      have hplane : axis = .horizontal := by
        simpa [Builtin.belongsTo, haxis, eq_comm] using hbelongs
      subst hplane
      refine moveTicks_eq_play hphase (fun hsprints => ?_) h
      refine Binding.sprints_of_bindKeys hparts.keys (hsprint.resolve_left ?_)
      simp [hsprints]
  | rise phase =>
      simp only [Bool.and_eq_true, decide_eq_true_eq] at hlegally
      obtain ⟨haxis, hmodifiers⟩ := hlegally
      have hheight : axis = .vertical := by
        simpa [Builtin.belongsTo, haxis, eq_comm] using hbelongs
      subst hheight
      refine riseTicks_eq_play (fun feature hfeature => ?_) h
      have hfluid := Binding.has_of_bindModifiers hparts.modifiers hfeature
      rw [hmodifiers] at hfluid
      cases feature <;> simp_all [Player.Terrain.fluids, Player.Terrain.has]
  | _ => cases hplays

theorem orderly_act {stack : List String} (hcall : BoundUnder axis call)
    (htarget : call.target = .builtin b) {action : Action}
    (heffect : b.effect = .action action)
    (hw : Orderly axis (w.tell (.call stack call)).audience)
    (h : perform action b call (w.tell (.call stack call)) = .ok v) :
    Orderly axis v.audience := by
  cases hplays : action.plays with
  | false => exact (reports_of_perform h hplays).orderly hw
  | true =>
      obtain ⟨n, c, rfl, hlegal⟩ := legal_of_mover hcall htarget heffect hplays h
      refine hw.playTicks _ n _ hlegal ⟨.call stack call, List.getLast?_concat, fun _ => ?_⟩
      exact ⟨b, action, htarget, heffect, hplays⟩

theorem invariant_orderly (axis : Axis) :
    Invariant (BoundUnder axis)
      fun w : World History => w.player.axis = axis ∧ Orderly axis w.audience where
  bound {w stack token call} h _ hbound b htarget := by
    obtain ⟨⟨hmem, hbelongs⟩, command, hparts⟩ := bindToken_eq_builtin hbound htarget
    rw [h.1] at hbelongs
    exact ⟨⟨hmem, hbelongs⟩, command, w.scope, stack, hparts⟩
  call stack _ h := ⟨h.1, h.2.quiet rfl⟩
  act hmade htarget heffect h hv :=
    ⟨(perform_deed hv).axis.trans h.1, orderly_act hmade htarget heffect h.2 hv⟩
  arm _ h := h
  disarm _ h := h
  enter _ _ h := h
  leave _ h := h
  trial {_ coordinate} velocity _ h :=
    ⟨(Player.Setting.velocity coordinate velocity).steady.axis.trans h.1, .nil⟩
  absorb hw hv := ⟨hw.1, hw.2.absorb hv.2⟩
  steer {_ coordinate} velocity _ h :=
    ⟨(Player.Setting.velocity coordinate velocity).steady.axis.trans h.1, h.2⟩
  report _ h := ⟨h.1, h.2.quiet rfl⟩

end

/-- Whatever a sequence is, and whoever listens, each tick of its run and of its trials
has controls that are legal under the model of the player, and only the first tick of a
call starts a jump or a bounce. The history shows every tick. -/
theorem run_legal_controls {σ : Type} [Audience σ] (rules : Rules) (n : Nat)
    (stack : List String) (text : String) (w : World σ) :
    (∀ moment ∈ historyOf ((frame rules n).run stack text) w,
      ∀ c ∈ moment.controls?, c.Legal w.player.axis) ∧
    (historyOf ((frame rules n).run stack text) w).IsChain Moment.Leads ∧
    (∀ moment ∈ (historyOf ((frame rules n).run stack text) w).head?,
      moment.controls? = none) ∧
    ((frame rules n).run stack text w).2.player.ticks =
      w.player.ticks +
        UInt64.ofNat (ticksOf (historyOf ((frame rules n).run stack text) w)).length := by
  have hframes := (invariant_orderly w.player.axis).frames (faults_any _ _) rules n
  obtain ⟨⟨-, horderly⟩, -, -⟩ := hframes.run stack text w.hushed ⟨rfl, .nil⟩
  refine ⟨horderly.legal, horderly.led, horderly.first, ?_⟩
  have hclock := (upkeep_clock.frames rules n).run stack text w.hushed
  rw [run_eq_retold (fun s => (twins_retelling rules n s).run stack text) w]
  change _ - UInt64.ofNat _ = w.player.ticks - 0 at hclock
  rw [UInt64.sub_zero] at hclock
  rw [← hclock]
  exact (UInt64.sub_add_cancel _ _).symm

example :
    ((historyOf ((frame ⟨64, false⟩ 65).run [] "slime(2) repeat(jump, 2)")
      ((new .vertical).world ∅)).filterMap Moment.controls?).map (·.phase) =
        [.slime, .air, .jump, .jump] := by
  decide +kernel

end Parkour.Engine
