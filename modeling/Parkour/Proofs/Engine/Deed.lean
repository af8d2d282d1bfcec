import Parkour.Engine.Nesting
import Parkour.Proofs.Player.Setting

/-!
# What actions do

An action plays ticks, changes the player, reports something, gives a variable a
value or defines a function. Nothing else in the world ever changes by an action.
-/

namespace Parkour.Engine

open Parkour.Language
open Player (Controls Setting)
open Report (Event)

variable {σ : Type}

/-- The worlds to which an action can lead. -/
inductive Deed [Audience σ] (w : World σ) : Action → World σ → Prop where
  /-- Ticks are played. -/
  | play {action : Action} (n : Nat) (c : Controls) : Deed w action (w.play n c)
  /-- A setting of the player is made. -/
  | adjust {action : Action} (p : Player) (h : Setting w.player p) :
      Deed w action { w with player := p }
  /-- Events are reported. -/
  | report {action : Action} (events : List Event) :
      Deed w action (events.foldl World.emit w)
  /-- A variable takes a number. -/
  | assign (name : String) (v : Float) (h : Text.isIdentifier name = true) :
      Deed w .assign { w with scope := w.scope.insert name (.float v) }
  /-- A function is defined. -/
  | define (f : UserFunction) :
      Deed w .define { w with functions := w.functions.insert f.name f }

/-- A change of the player that makes a setting. -/
def Sets (change : Player → Except Fault Player) : Prop :=
  ∀ p q, change p = .ok q → Setting p q

theorem ofRefusal_eq_ok {α : Type} {x : Except Player.Refusal α} {a : α}
    (h : ofRefusal x = .ok a) : x = .ok a := by
  cases x with
  | ok b => cases h; rfl
  | error refusal => cases h

theorem setNumber_eq_ok {arguments : Arguments} {parameter : String}
    {set : Player → Float → Player} {p q : Player}
    (h : setNumber arguments parameter set p = .ok q) : ∃ v, q = set p v := by
  obtain ⟨v, -, hv⟩ := bind_eq_ok h
  cases hv
  exact ⟨v, rfl⟩

theorem setChecked_eq_ok {arguments : Arguments} {parameter : String}
    {set : Player → Int → Except Player.Refusal Player} {p q : Player}
    (h : setChecked arguments parameter set p = .ok q) : ∃ n, set p n = .ok q := by
  obtain ⟨n, -, hn⟩ := bind_eq_ok h
  exact ⟨n, ofRefusal_eq_ok hn⟩

theorem queueUp_eq_ok {arguments : Arguments} {queue : Player → List Float32 → Player}
    {p q : Player} (h : queueUp arguments queue p = .ok q) :
    ∃ degrees, q = queue p degrees := by
  obtain ⟨degrees, -, hd⟩ := bind_eq_ok h
  cases hd
  exact ⟨degrees, rfl⟩

theorem setSlip_eq_ok {arguments : Arguments} {p q : Player}
    (h : setSlip arguments p = .ok q) : ∃ slip, p.setGroundSlip slip = .ok q := by
  obtain ⟨v, -, hv⟩ := bind_eq_ok h
  exact ⟨_, ofRefusal_eq_ok hv⟩

theorem setInertia_eq_ok {arguments : Arguments} {p q : Player}
    (h : setInertia arguments p = .ok q) :
    ∃ threshold mode, p.setInertia threshold mode = .ok q := by
  obtain ⟨v, -, hv⟩ := bind_eq_ok h
  exact ⟨_, _, ofRefusal_eq_ok hv⟩

theorem setNumber_sets (arguments : Arguments) (parameter : String)
    {set : Player → Float → Player} (h : ∀ p v, Setting p (set p v)) :
    Sets (setNumber arguments parameter set) := by
  intro p q hq
  obtain ⟨v, rfl⟩ := setNumber_eq_ok hq
  exact h p v

theorem setChecked_sets (arguments : Arguments) (parameter : String)
    {set : Player → Int → Except Player.Refusal Player}
    (h : ∀ p n q, set p n = .ok q → Setting p q) :
    Sets (setChecked arguments parameter set) := by
  intro p q hq
  obtain ⟨n, hn⟩ := setChecked_eq_ok hq
  exact h p n q hn

theorem queueUp_sets (arguments : Arguments) {queue : Player → List Float32 → Player}
    (h : ∀ p degrees, Setting p (queue p degrees)) :
    Sets (queueUp arguments queue) := by
  intro p q hq
  obtain ⟨degrees, rfl⟩ := queueUp_eq_ok hq
  exact h p degrees

theorem adjust_deed [Audience σ] {change : Player → Except Fault Player}
    (h : Sets change) {action : Action} {w v : World σ}
    (hv : w.adjust change = .ok v) : Deed w action v := by
  obtain ⟨p, hp, hv⟩ := bind_eq_ok hv
  cases hv
  exact .adjust p (h _ p hp)

theorem setSlip_sets (arguments : Arguments) : Sets (setSlip arguments) := by
  intro p q hq
  obtain ⟨slip, hset⟩ := setSlip_eq_ok hq
  exact .slip hset

theorem setInertia_sets (arguments : Arguments) : Sets (setInertia arguments) := by
  intro p q hq
  obtain ⟨threshold, mode, hset⟩ := setInertia_eq_ok hq
  exact .inertia hset

theorem moveTicks_deed [Audience σ] {gait : Gait} {call : Call} {w v : World σ}
    (h : moveTicks gait call w = .ok v) (action : Action) : Deed w action v := by
  obtain ⟨duration, -, h⟩ := bind_eq_ok h
  obtain ⟨slip, -, h⟩ := bind_eq_ok h
  cases h
  exact .play _ _

theorem riseTicks_deed [Audience σ] {phase : Player.Phase} {call : Call} {w v : World σ}
    (h : riseTicks phase call w = .ok v) (action : Action) : Deed w action v := by
  obtain ⟨duration, -, h⟩ := bind_eq_ok h
  cases h
  exact .play _ _

theorem readNumber_deed [Audience σ] {b : Builtin} {arguments : Arguments} {value : Float}
    {w v : World σ} (h : readNumber b arguments value w = v) (action : Action) :
    Deed w action v := by
  subst h
  exact .report [_]

theorem readVelocity_deed [Audience σ] {b : Builtin} {arguments : Arguments}
    {w v : World σ} (h : readVelocity b arguments w = v) (action : Action) :
    Deed w action v := by
  subst h
  exact .report [_, _]

theorem print_deed [Audience σ] {arguments : Arguments} {w v : World σ}
    (h : print arguments w = .ok v) (action : Action) : Deed w action v := by
  obtain ⟨pieces, -, h⟩ := bind_eq_ok h
  cases h
  exact .report [_]

theorem help_deed [Audience σ] {arguments : Arguments} {w v : World σ}
    (h : help arguments w = .ok v) (action : Action) : Deed w action v := by
  unfold help at h
  split at h
  · cases h
    exact .report _
  · dsimp only at h
    split at h
    · cases h
      exact .report [_]
    · split at h
      · cases h
        exact .report [_]
      · cases h

/-- A variable takes the value of an expression. -/
theorem assign_eq_ok {arguments : Arguments} {w v : World σ} (h : assign arguments w = .ok v) :
    ∃ name text number, Text.isIdentifier name = true ∧
      Expression.evaluate text w.scope = .ok number ∧
      v = { w with scope := w.scope.insert name (.float number) } := by
  obtain ⟨text, -, h⟩ := bind_eq_ok h
  dsimp only at h
  split at h
  · cases h
  · next hname =>
    obtain ⟨value, -, h⟩ := bind_eq_ok h
    obtain ⟨number, hnumber, h⟩ := bind_eq_ok h
    cases h
    exact ⟨_, value, number, by simpa using hname, hnumber, rfl⟩

/-- A function is read off a signature and a body. -/
theorem define_eq_ok {arguments : Arguments} {w v : World σ} (h : define arguments w = .ok v) :
    ∃ text body signature, arguments.requireText "signature" = .ok text ∧
      arguments.requireText "body" = .ok body ∧ Signature.parse w.scope text = .ok signature ∧
      Catalogue.findAny? signature.name = none ∧
      v = { w with functions := w.functions.insert signature.name { signature with body } } := by
  obtain ⟨text, htext, h⟩ := bind_eq_ok h
  obtain ⟨signature, hsignature, h⟩ := bind_eq_ok h
  split at h
  · cases h
  · next hfree =>
    obtain ⟨body, hbody, h⟩ := bind_eq_ok h
    cases h
    exact ⟨text, body, signature, htext, hbody, hsignature, by simpa using hfree, rfl⟩

theorem assign_deed [Audience σ] {arguments : Arguments} {w v : World σ}
    (h : assign arguments w = .ok v) : Deed w .assign v := by
  obtain ⟨name, text, number, hname, -, rfl⟩ := assign_eq_ok h
  exact .assign name number hname

theorem define_deed [Audience σ] {arguments : Arguments} {w v : World σ}
    (h : define arguments w = .ok v) : Deed w .define v := by
  obtain ⟨text, body, signature, -, -, -, -, rfl⟩ := define_eq_ok h
  exact .define { signature with body }

/-- An action that succeeds does one of the deeds. -/
theorem perform_deed [Audience σ] {action : Action} {b : Builtin} {call : Call}
    {w v : World σ} (h : perform action b call w = .ok v) : Deed w action v := by
  cases action with
  | move gait => exact moveTicks_deed h _
  | rise phase => exact riseTicks_deed h _
  | readOut readout => exact readNumber_deed (Except.ok.inj h) _
  | readMomentum coordinate => exact readNumber_deed (Except.ok.inj h) _
  | readBlocks coordinate => exact readNumber_deed (Except.ok.inj h) _
  | readVector => exact readVelocity_deed (Except.ok.inj h) _
  | print =>
      change print call.arguments w = .ok v at h
      exact print_deed h _
  | help =>
      change help call.arguments w = .ok v at h
      exact help_deed h _
  | face =>
      refine adjust_deed ?_ h
      exact setNumber_sets _ _ fun _ _ => .facing _
  | turn =>
      refine adjust_deed ?_ h
      exact setNumber_sets _ _ fun _ _ => .turn _
  | queueAngles =>
      refine adjust_deed ?_ h
      exact queueUp_sets _ fun _ => .angles
  | queueTurns =>
      refine adjust_deed ?_ h
      exact queueUp_sets _ fun _ => .turns
  | setPosition coordinate =>
      exact adjust_deed (setNumber_sets _ _ fun _ => .position coordinate) h
  | setVelocity coordinate =>
      exact adjust_deed (setNumber_sets _ _ fun _ => .velocity coordinate) h
  | setSlip => exact adjust_deed (setSlip_sets _) h
  | setPotion potion => exact adjust_deed (setChecked_sets _ _ fun _ _ _ => .potion) h
  | setCeiling => exact adjust_deed (fun _ _ hq => .ceiling (ofRefusal_eq_ok hq)) h
  | setInertia => exact adjust_deed (setInertia_sets _) h
  | setPrecision => exact adjust_deed (setChecked_sets _ _ fun _ _ _ => .precision) h
  | assign => exact assign_deed h
  | define => exact define_deed h

/-! ## What deeds leave as it was -/

/-- Reports reach the audience and nothing else. -/
theorem foldl_emit [Audience σ] (events : List Event) (w : World σ) :
    ∃ audience, events.foldl World.emit w = { w with audience } := by
  induction events generalizing w with
  | nil => exact ⟨w.audience, rfl⟩
  | cons event rest ih =>
      obtain ⟨audience, h⟩ := ih (w.emit event)
      exact ⟨audience, h⟩

theorem axis_playTicks [Audience σ] (r : Report.Recording) (n : Nat) (c : Controls)
    (p : Player) (t : σ) : (playTicks r n c p t).1.axis = p.axis := by
  induction n generalizing c p t with
  | zero => rfl
  | succ n ih => rw [playTicks, ih, Player.axis_tick]

/-- What an action tells of: ticks and reports. -/
def Moment.Direct : Moment → Prop
  | .tick _ _ _ => True
  | .event _ => True
  | .call _ _ => False
  | .tried _ => False

theorem told_playTicks [Audience σ] (r : Report.Recording) (n : Nat) (c : Controls)
    (p : Player) (s : σ) :
    ∃ moments : List Moment, (playTicks r n c p s).2 = moments.foldl Audience.tell s ∧
      ∀ moment ∈ moments, moment.Direct := by
  induction n generalizing c p s with
  | zero => exact ⟨[], rfl, fun _ hmem => absurd hmem List.not_mem_nil⟩
  | succ n ih =>
      obtain ⟨moments, htold, hdirect⟩ := ih c.settled (p.tick c)
        (Audience.tell s (.tick r c (p.tick c)))
      exact ⟨_ :: moments, htold, List.forall_mem_cons.mpr ⟨trivial, hdirect⟩⟩

namespace Deed

variable [Audience σ] {action : Action} {w v : World σ}

theorem told (h : Deed w action v) :
    ∃ moments : List Moment, v.audience = moments.foldl Audience.tell w.audience ∧
      ∀ moment ∈ moments, moment.Direct := by
  cases h with
  | play n c => exact told_playTicks w.recording n c w.player w.audience
  | adjust p _ => exact ⟨[], rfl, fun _ hmem => absurd hmem List.not_mem_nil⟩
  | assign name v _ => exact ⟨[], rfl, fun _ hmem => absurd hmem List.not_mem_nil⟩
  | define f => exact ⟨[], rfl, fun _ hmem => absurd hmem List.not_mem_nil⟩
  | report events =>
      induction events generalizing w with
      | nil => exact ⟨[], rfl, fun _ hmem => absurd hmem List.not_mem_nil⟩
      | cons event rest ih =>
          obtain ⟨moments, htold, hdirect⟩ := @ih (w.emit event)
          exact ⟨.event event :: moments, htold, List.forall_mem_cons.mpr ⟨trivial, hdirect⟩⟩

theorem axis (h : Deed w action v) : v.player.axis = w.player.axis := by
  cases h with
  | play n c => exact axis_playTicks _ n c _ _
  | adjust p hp => exact hp.steady.axis
  | assign name v _ => rfl
  | define f => rfl
  | report events =>
      obtain ⟨audience, hevents⟩ := foldl_emit events w
      rw [hevents]

theorem recording (h : Deed w action v) : v.recording = w.recording := by
  cases h with
  | play n c => rfl
  | adjust p _ => rfl
  | assign name v _ => rfl
  | define f => rfl
  | report events =>
      obtain ⟨audience, hevents⟩ := foldl_emit events w
      rw [hevents]

theorem scope (h : Deed w action v) (hassign : action ≠ .assign) : v.scope = w.scope := by
  cases h with
  | play n c => rfl
  | adjust p _ => rfl
  | assign name v _ => exact absurd rfl hassign
  | define f => rfl
  | report events =>
      obtain ⟨audience, hevents⟩ := foldl_emit events w
      rw [hevents]

theorem functions (h : Deed w action v) (hdefine : action ≠ .define) :
    v.functions = w.functions := by
  cases h with
  | play n c => rfl
  | adjust p _ => rfl
  | assign name v _ => rfl
  | define f => exact absurd rfl hdefine
  | report events =>
      obtain ⟨audience, hevents⟩ := foldl_emit events w
      rw [hevents]

end Deed

end Parkour.Engine
