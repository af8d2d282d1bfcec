import Parkour.Proofs.Engine.Controls
import Parkour.Proofs.Engine.Failure

/-!
# Durations

A call that plays ticks can be cut in two. Only its first tick can be a jump or a bounce; all
others are played in the air or on the ground as the gait goes on. So the part behind the cut
is a call to the function that begins as the first one goes on, and nothing tells the two
halves from the whole: neither the player nor what the listeners report.
-/

namespace Parkour.Player

theorem Controls.settled_settled (c : Controls) : c.settled.settled = c.settled := by
  have hphase : c.phase.settled.settled = c.phase.settled := by cases c.phase <;> rfl
  exact congrArg (fun phase => { c with phase }) hphase

end Parkour.Player

namespace Parkour.Language

open Player (Controls Phase)

/-! ## Calls that last -/

/-- What a call that plays ticks is given besides its duration. -/
structure Manner where
  keys : Player.Keys
  modifiers : Player.Terrain
  reverse : Bool
  rotation : Option Float
  slip : Option Float

def Call.manner (call : Call) : Manner where
  keys := call.keys
  modifiers := call.modifiers
  reverse := call.reverse
  rotation := call.arguments.number? "rotation"
  slip := call.arguments.number? "slip"

/-- The call goes to `b` for `n` ticks, in this manner. -/
structure Call.Lasts (call : Call) (b : Builtin) (manner : Manner) (n : Int) : Prop where
  target : call.target = .builtin b
  manner : call.manner = manner
  duration : call.arguments.requireInteger Binding.durationName = .ok n

/-- The action that begins as an action that plays ticks goes on. On the ground and in the
air it is the same one. -/
def Action.settled : Action → Action
  | .move gait => .move { gait with phase := gait.phase.settled }
  | .rise phase => .rise phase.settled
  | other => other

/-- `next` goes on with the ticks that `b` has begun. -/
def Builtin.GoesOn (b next : Builtin) : Prop :=
  ∃ action : Action, b.effect = .action action ∧ action.plays = true ∧
    next.effect = .action action.settled

/-- A builtin of the same model and with the same keys begins as `b` goes on. -/
def Builtin.hasNext (b : Builtin) : Bool :=
  match b.effect with
  | .action action => Catalogue.all.any fun next =>
      next.axis = b.axis && next.keys = b.keys && next.effect = .action action.settled
  | .wrapper _ => true

theorem Catalogue.hasNext : ∀ b ∈ Catalogue.all, b.hasNext = true := by
  decide +kernel

/-- Every mover of the catalogue has one that goes on with it. -/
theorem Catalogue.exists_goesOn {b : Builtin} (hb : b ∈ Catalogue.all) {action : Action}
    (heffect : b.effect = .action action) (hplays : action.plays = true) :
    ∃ next ∈ Catalogue.all, b.GoesOn next ∧ next.axis = b.axis ∧ next.keys = b.keys := by
  have hnext := Catalogue.hasNext b hb
  unfold Builtin.hasNext at hnext
  rw [heffect] at hnext
  obtain ⟨next, hmem, hfound⟩ := List.any_eq_true.mp hnext
  simp only [Bool.and_eq_true, decide_eq_true_eq] at hfound
  obtain ⟨⟨haxis, hkeys⟩, hsettled⟩ := hfound
  exact ⟨next, hmem, ⟨action, heffect, hplays, hsettled⟩, haxis, hkeys⟩

end Parkour.Language

namespace Parkour.Engine

open Parkour.Language
open Player (Controls Phase)
open Report (Recording Sink)

/-! ## Ticks in a row -/

section

variable {σ : Type} [Audience σ]

/-- Ticks in a row can be cut anywhere behind the first one. -/
theorem playTicks_append (r : Recording) (m n : Nat) (c : Controls) (p : Player) (s : σ) :
    playTicks r (m + 1 + n) c p s =
      playTicks r n c.settled (playTicks r (m + 1) c p s).1 (playTicks r (m + 1) c p s).2 := by
  induction m generalizing c p s with
  | zero => rw [Nat.zero_add, Nat.add_comm 1 n]; rfl
  | succ m ih =>
      rw [Nat.add_right_comm, playTicks, ih, c.settled_settled]
      rfl

theorem ticks_playTicks (r : Recording) (n : Nat) (c : Controls) (p : Player) (s : σ) :
    (playTicks r n c p s).1.ticks = p.ticks + .ofNat n := by
  induction n generalizing c p s with
  | zero => exact (UInt64.add_zero p.ticks).symm
  | succ n ih =>
      rw [playTicks, ih, Player.ticks_tick, UInt64.add_assoc, UInt64.add_comm 1]
      exact congrArg (p.ticks + ·) (UInt64.ofNat_add n 1).symm

theorem play_append (w : World σ) {m : Nat} (hm : 1 ≤ m) (n : Nat) (c : Controls) :
    w.play (m + n) c = (w.play m c).play n c.settled := by
  obtain ⟨k, rfl⟩ := Nat.exists_eq_add_of_le' hm
  unfold World.play
  dsimp only
  rw [playTicks_append]

end

/-! ## What a manner comes to -/

/-- The controls of the first tick in the plane, if the slipperiness can be had. -/
def moveControls (gait : Gait) (manner : Manner) : Except Fault Controls := do
  let slip ← manner.slip.mapM fun v => ofRefusal (Player.checkSlip (Number.narrow v))
  return {
    phase := gait.phase
    keys := manner.keys
    sprint := gait.sprint
    sneak := gait.sneak
    terrain := manner.modifiers
    rotation := manner.rotation.map Number.narrow
    facingOffset := if gait.strafe then strafeOffset else 0
    reverse := manner.reverse
    slip }

/-- The controls of the first tick up or down. -/
def riseControls (phase : Phase) (manner : Manner) : Controls :=
  { phase, terrain := manner.modifiers, reverse := manner.reverse }

/-- The slipperiness that was given is refused. -/
def Refuses (manner : Manner) (fault : Fault) : Prop :=
  ∃ v refusal, manner.slip = some v ∧
    Player.checkSlip (Number.narrow v) = .error refusal ∧ fault = .badValue (.refused refusal)

theorem moveControls_settled (gait : Gait) (manner : Manner) :
    moveControls { gait with phase := gait.phase.settled } manner =
      (moveControls gait manner).map Controls.settled := by
  unfold moveControls
  exact bind_eq_map_bind _ fun _ => rfl

theorem refuses_of_moveControls {gait : Gait} {manner : Manner} {fault : Fault}
    (h : moveControls gait manner = .error fault) : Refuses manner fault := by
  unfold moveControls at h
  cases hgiven : manner.slip with
  | none =>
      rw [hgiven] at h
      cases h
  | some v =>
      rw [hgiven] at h
      cases hslip : Player.checkSlip (Number.narrow v) with
      | ok slip =>
          rw [Option.mapM_some, hslip] at h
          cases h
      | error refusal =>
          rw [Option.mapM_some, hslip] at h
          cases h
          exact ⟨v, refusal, hgiven, hslip, rfl⟩

section

variable {σ : Type} [Audience σ] {b : Builtin} {call : Call} {manner : Manner} {n : Int}

theorem moveTicks_lasts (h : call.Lasts b manner n) (gait : Gait) (w : World σ) :
    moveTicks gait call w = (moveControls gait manner).map fun c => w.play n.toNat c := by
  obtain ⟨-, rfl, hduration⟩ := h
  unfold moveTicks moveControls
  rw [hduration, ok_bind]
  exact bind_eq_map_bind _ fun _ => rfl

theorem riseTicks_lasts (h : call.Lasts b manner n) (phase : Phase) (w : World σ) :
    riseTicks phase call w = .ok (w.play n.toNat (riseControls phase manner)) := by
  obtain ⟨-, rfl, hduration⟩ := h
  unfold riseTicks
  rw [hduration, ok_bind]
  rfl

end

/-- A manner comes to the controls of a first tick or to the refusal of its slipperiness. The
action plays ticks from these controls, and the one that goes on from the settled ones. -/
theorem perform_lasts (σ : Type) [Audience σ] {action : Action} (hplays : action.plays = true)
    (manner : Manner) :
    ∃ start : Except Fault Controls,
      (∀ b call n, call.Lasts b manner n → ∀ w : World σ,
        perform action b call w = start.map fun c => w.play n.toNat c) ∧
      (∀ b call n, call.Lasts b manner n → ∀ w : World σ,
        perform action.settled b call w = start.map fun c => w.play n.toNat c.settled) ∧
      ∀ fault, start = .error fault → Refuses manner fault := by
  cases action with
  | move gait =>
      refine ⟨moveControls gait manner, ?_, ?_, fun _ => refuses_of_moveControls⟩
      · intro b call n h w
        exact moveTicks_lasts h gait w
      · intro b call n h w
        refine (moveTicks_lasts h _ w).trans ?_
        rw [moveControls_settled]
        cases moveControls gait manner <;> rfl
  | rise phase =>
      refine ⟨.ok (riseControls phase manner), ?_, ?_, nofun⟩
      · intro b call n h w
        exact riseTicks_lasts h phase w
      · intro b call n h w
        exact riseTicks_lasts h phase.settled w
  | _ => cases hplays

/-! ## Calls -/

/-- Durations add up. Every mover has one that goes on with it, a mover on the ground or in the
air itself. Whatever it is given, a call for `m + n` ticks does the same as one for `m` ticks
and then one for `n` ticks to the mover that goes on: it plays all of the ticks, or it refuses
the slipperiness that it is given before the first of them. -/
theorem dispatch_durations_add (rules : Rules) (hrules : rules.cancelled = false)
    (inner : Frame Sink) (stack : List String) :
    (∀ b ∈ Catalogue.all, ∀ action, b.effect = .action action → action.plays = true →
        ∃ next ∈ Catalogue.all, b.GoesOn next ∧ next.axis = b.axis ∧ next.keys = b.keys) ∧
      ∀ (b next : Builtin) (manner : Manner) (m n : Int) (whole first second : Call),
        b.GoesOn next → 1 ≤ m → 0 ≤ n →
        whole.Lasts b manner (m + n) → first.Lasts b manner m → second.Lasts next manner n →
        ∀ w : World Sink,
          dispatch rules inner stack whole w =
              (do dispatch rules inner stack first
                  dispatch rules inner stack second : Run Sink Unit) w ∧
            ((∃ v, dispatch rules inner stack whole w = (.ok ⟨⟩, v) ∧
                v.player.ticks = w.player.ticks + .ofNat (m + n).toNat) ∨
              ∃ fault, Refuses manner fault ∧
                dispatch rules inner stack whole w = (.error fault, w)) := by
  have hcheck : rules.check = .ok ⟨⟩ := by
    unfold Rules.check
    rw [hrules]
    rfl
  refine ⟨fun b hb action => Catalogue.exists_goesOn hb, ?_⟩
  intro b next manner m n whole first second hnext hm hn hwhole hfirst hsecond w
  obtain ⟨action, heffect, hplays, hsettled⟩ := hnext
  obtain ⟨start, hbegun, hgone, hrefused⟩ := perform_lasts Sink hplays manner
  have hwholeRun : dispatch rules inner stack whole w = atomically (perform action b whole) w :=
    dispatch_action hcheck hwhole.target heffect w
  have hfirstRun : dispatch rules inner stack first w = atomically (perform action b first) w :=
    dispatch_action hcheck hfirst.target heffect w
  rw [Run.atomically_apply, hbegun b whole _ hwhole] at hwholeRun
  rw [Run.atomically_apply, hbegun b first _ hfirst] at hfirstRun
  cases start with
  | error fault =>
      refine ⟨?_, .inr ⟨fault, hrefused fault rfl, hwholeRun⟩⟩
      rw [hwholeRun, Run.bind_apply_error hfirstRun]
      rfl
  | ok c =>
      have hcut : w.play (m + n).toNat c = (w.play m.toNat c).play n.toNat c.settled := by
        rw [Int.toNat_add (by omega) hn]
        exact play_append w (by omega) n.toNat c
      have hsecondRun : dispatch rules inner stack second (w.play m.toNat c) =
          atomically (perform action.settled next second) (w.play m.toNat c) :=
        dispatch_action hcheck hsecond.target hsettled _
      rw [Run.atomically_apply, hgone next second _ hsecond] at hsecondRun
      refine ⟨?_, .inl ⟨_, hwholeRun, ticks_playTicks _ _ c _ _⟩⟩
      rw [hwholeRun, Run.bind_apply_ok hfirstRun, hsecondRun]
      exact congrArg (Prod.mk _) hcut

/-- A sprinted jump of five ticks is one of two ticks and a sprint of three in the air, also
while a listener watches. -/
theorem dispatch_durations_add_jump :
    let b := Catalogue.fastMovers[1]
    let next := Catalogue.fastMovers[2]
    let call (target : Builtin) (n : Int) : Call := {
      target := .builtin target
      keys := { forward := true, left := true }
      arguments := { values := [("duration", .int n), ("rotation", .float 30), ("slip", .none)] } }
    let w : World Sink := {
      player := { axis := .horizontal, turns := [1, 2, 3] }
      recording := { stop := some ⟨1, "il", 0⟩ }
      audience := .empty }
    let made (c : Call) : Run Sink Unit := dispatch ⟨4, false⟩ (frame ⟨4, false⟩ 4) [] c
    b ∈ Catalogue.all ∧ b.GoesOn next ∧
      made (call b (2 + 3)) w = (do made (call b 2); made (call next 3) : Run Sink Unit) w ∧
      ∃ v, made (call b (2 + 3)) w = (.ok ⟨⟩, v) ∧ v.player.ticks = 5 := by
  intro b next call w made
  have hmem : b ∈ Catalogue.all := by
    refine List.mem_append_left _ (List.mem_append_left _ ?_)
    exact List.mem_append_left _ (List.mem_append_left _ (List.getElem_mem _))
  have hnext : b.GoesOn next := ⟨_, rfl, rfl, rfl⟩
  let manner : Manner := ⟨{ forward := true, left := true }, .plain, false, some 30, none⟩
  have hlasts : ∀ target n, (call target n).Lasts target manner n := fun _ _ => ⟨rfl, rfl, rfl⟩
  obtain ⟨heq, hticks⟩ :=
    (dispatch_durations_add ⟨4, false⟩ rfl (frame ⟨4, false⟩ 4) []).2 b next manner 2 3
      (call b (2 + 3)) (call b 2) (call next 3) hnext (by decide) (by decide) (hlasts b _)
      (hlasts b _) (hlasts next _) w
  refine ⟨hmem, hnext, heq, ?_⟩
  rcases hticks with hplayed | ⟨fault, ⟨v, refusal, hslip, -⟩, -⟩
  · exact hplayed
  · cases hslip

end Parkour.Engine
