import Mathlib.Data.List.Basic
import Parkour.Proofs.Engine.History

/-!
# Ticks and listeners in histories

A history shows which ticks were played and which listeners watched them. A run leaves
the listeners that are set up as they were, and a listener watches nothing but what
runs inside a call that sets up its kind.
-/

namespace Parkour.Report

namespace Recording

variable {r : Recording} {listener : Listener} {kind : ListenerKind}

/-- What the listeners report after a tick, each event with the kind that reports it. -/
def sightings (r : Recording) (p : Player) : List (ListenerKind × Event) :=
  (r.landing.elim [] (·.observe p)).map (Prod.mk .landing) ++
    (r.stop.elim [] (·.observe p)).map (Prod.mk .stop)

theorem map_snd_sightings (r : Recording) (p : Player) :
    (r.sightings p).map Prod.snd = r.observe p := by
  simp [sightings, observe, Function.comp_def]

theorem has_arm (h : listener.kind ≠ kind) : (r.arm listener).has kind = r.has kind := by
  cases listener <;> cases kind <;> simp_all [Listener.kind, arm, has]

theorem has_arm_self (r : Recording) (listener : Listener) :
    (r.arm listener).has listener.kind = true := by
  cases listener <;> rfl

theorem has_disarm (r : Recording) (gone kind : ListenerKind) :
    (r.disarm gone).has kind = (r.has kind && gone ≠ kind) := by
  cases gone <;> cases kind <;> simp [disarm, has]

/-- A listener that leaves takes nothing else with it. -/
theorem disarm_arm (h : r.has listener.kind = false) :
    (r.arm listener).disarm listener.kind = r := by
  obtain ⟨landing, stop⟩ := r
  cases listener <;> simp_all [Listener.kind, arm, disarm, has]

/-- A new listener reports what it observes. -/
theorem own_sightings (h : r.has listener.kind = false) (p : Player) :
    (((r.arm listener).sightings p).filter (·.1 = listener.kind)).map Prod.snd =
      listener.observe p := by
  obtain ⟨landing, stop⟩ := r
  cases listener <;>
    simp_all [Listener.kind, Listener.observe, arm, has, sightings, List.filter_map,
      Function.comp_def]

/-- Besides a new listener, the others report what they did. -/
theorem other_sightings (h : r.has listener.kind = false) (p : Player) :
    (((r.arm listener).sightings p).filter (·.1 ≠ listener.kind)).map Prod.snd =
      r.observe p := by
  obtain ⟨landing, stop⟩ := r
  cases listener <;>
    simp_all [Listener.kind, arm, has, sightings, observe, List.filter_map,
      Function.comp_def]

end Recording

end Parkour.Report

namespace Parkour.Engine

open Parkour.Language
open Player (Controls)
open Report (Event Listener ListenerKind Recording)

namespace Moment

/-- The player after a tick. The ticks of a trial are not played. -/
def after? : Moment → Option Player
  | .tick _ _ after => some after
  | _ => none

/-- What is reported in a moment, each event with the kind of the listener that
reports it. -/
def reports : Moment → List (Option ListenerKind × Event)
  | .call _ _ => []
  | .tick recording _ after => (recording.sightings after).map fun s => (some s.1, s.2)
  | .event reported => [(none, reported)]
  | .tried _ => []

theorem map_snd_reports (moment : Moment) : moment.reports.map Prod.snd = moment.events := by
  cases moment with
  | call stack made => rfl
  | tick r c p =>
      rw [reports, List.map_map]
      exact r.map_snd_sightings p
  | event reported => rfl
  | tried moment => rfl

/-- Whether a call that sets up a listener of a kind is made in a moment. -/
def watches (kind : ListenerKind) : Moment → Bool
  | .call _ made =>
      match made.target with
      | .builtin b =>
          match b.effect with
          | .wrapper (.watch watch) => kindOf watch = kind
          | _ => false
      | _ => false
  | _ => false

/-- Whether a tick is watched by a listener of a kind. -/
def seenBy (kind : ListenerKind) : Moment → Bool
  | .tick recording _ _ => recording.has kind
  | _ => false

end Moment

/-- The players after the ticks of a history, in their order. -/
def ticksOf (history : History) : List Player :=
  history.filterMap Moment.after?

/-- No call in a history sets up a listener of a kind. -/
def NoneWatches (kind : ListenerKind) (history : History) : Prop :=
  ∀ moment ∈ history, moment.watches kind = false

/-- No tick in a history is watched by a listener of a kind. -/
def Unseen (kind : ListenerKind) (history : History) : Prop :=
  ∀ moment ∈ history, moment.seenBy kind = false

theorem NoneWatches.before {kind : ListenerKind} {first second : History}
    (h : NoneWatches kind second) (hgrows : first <+: second) : NoneWatches kind first :=
  fun moment hmem => h moment (hgrows.subset hmem)

theorem Unseen.snoc {kind : ListenerKind} {history : History} {moment : Moment}
    (h : Unseen kind history) (hmoment : moment.seenBy kind = false) :
    Unseen kind (history ++ [moment]) := by
  intro other hmem
  rcases List.mem_append.mp hmem with hmem | hmem
  · exact h other hmem
  · rwa [List.mem_singleton.mp hmem]

/-! ## What a run keeps -/

/-- A run leaves the listeners as they were. Without a call that sets up a listener of
a kind, and without one in place, no tick is watched by one. -/
structure Unwatched (kind : ListenerKind) (w v : World History) : Prop where
  recording : v.recording = w.recording
  calls : NoneWatches kind v.audience → NoneWatches kind w.audience
  ticks : NoneWatches kind v.audience → w.recording.has kind = false →
    Unseen kind w.audience → Unseen kind v.audience

variable {kind : ListenerKind} {u v w : World History}

theorem Unwatched.trans (huv : Unwatched kind u v) (hvw : Unwatched kind v w) :
    Unwatched kind u w where
  recording := hvw.recording.trans huv.recording
  calls hw := huv.calls (hvw.calls hw)
  ticks hw hfree hu := by
    refine hvw.ticks hw ?_ (huv.ticks (hvw.calls hw) hfree hu)
    rwa [huv.recording]

/-- A moment in which no tick is watched. -/
theorem unwatched_tell (w : World History) {moment : Moment}
    (h : moment.seenBy kind = false) : Unwatched kind w (w.tell moment) where
  recording := rfl
  calls hv := hv.before (List.prefix_append ..)
  ticks _ _ hw := hw.snoc h

theorem unseen_playTicks {r : Recording} (hr : r.has kind = false) (n : Nat) (c : Controls)
    (p : Player) {history : History} (h : Unseen kind history) :
    Unseen kind (playTicks r n c p history).2 := by
  induction n generalizing c p history with
  | zero => exact h
  | succ n ih => exact ih _ _ (h.snoc hr)

theorem unwatched_of_deed {action : Action} (h : Deed w action v) : Unwatched kind w v := by
  have hgrows := grows_of_deed h
  cases h with
  | play n c => exact ⟨rfl, fun hv => hv.before hgrows, fun _ hr hw => unseen_playTicks hr n c _ hw⟩
  | adjust p _ => exact ⟨rfl, id, fun _ _ hw => hw⟩
  | assign name v _ => exact ⟨rfl, id, fun _ _ hw => hw⟩
  | define f => exact ⟨rfl, id, fun _ _ hw => hw⟩
  | report events =>
      clear hgrows
      induction events generalizing w with
      | nil => exact ⟨rfl, id, fun _ _ hw => hw⟩
      | cons event rest ih => exact (unwatched_tell w rfl).trans (@ih (w.emit event))

theorem unwatched_of_watch {stack : List String} {call : Call} {b : Builtin} {watch : Watch}
    {listener : Listener} (htarget : call.target = .builtin b)
    (heffect : b.effect = .wrapper (.watch watch))
    (hfree : w.recording.has (kindOf watch) = false) (hkind : listener.kind = kindOf watch)
    (h : Unwatched kind ((w.tell (.call stack call)).armed listener) v) :
    Unwatched kind (w.tell (.call stack call)) (v.disarmed (kindOf watch)) where
  recording := by
    dsimp only [World.disarmed]
    rw [h.recording, ← hkind]
    exact Recording.disarm_arm (by rwa [hkind])
  calls hv := h.calls hv
  ticks hv hr hw := by
    have hcall := h.calls hv (.call stack call) (List.mem_concat_self ..)
    have hne : listener.kind ≠ kind := by
      rw [hkind]
      simpa [Moment.watches, htarget, heffect] using hcall
    exact h.ticks hv ((Recording.has_arm hne).trans hr) hw

theorem upkeep_unwatched (kind : ListenerKind) : Upkeep (Unwatched kind) where
  refl _ := ⟨rfl, id, fun _ _ hw => hw⟩
  trans := Unwatched.trans
  call w stack call := unwatched_tell w rfl
  act _ _ h := unwatched_of_deed h
  watch := unwatched_of_watch
  scope s h := ⟨h.recording, h.calls, h.ticks⟩
  trial _ _ _ := by
    refine ⟨rfl, fun hv => hv.before (List.prefix_append ..), fun _ _ hw => ?_⟩
    intro moment hmem
    rcases List.mem_append.mp hmem with hmem | hmem
    · exact hw moment hmem
    · obtain ⟨tried, -, rfl⟩ := List.mem_map.mp hmem
      rfl
  steer w _ _ := ⟨rfl, id, fun _ _ hw => hw⟩
  report w event := unwatched_tell w rfl

/-- The ticks that have passed besides those in the history. -/
def clock (w : World History) : UInt64 :=
  w.player.ticks - UInt64.ofNat (ticksOf w.audience).length

theorem ticksOf_append (first second : History) :
    ticksOf (first ++ second) = ticksOf first ++ ticksOf second :=
  List.filterMap_append

theorem clock_tell (w : World History) {moment : Moment} (h : moment.after? = none) :
    clock (w.tell moment) = clock w := by
  simp [clock, World.tell, tell_history, ticksOf, h]

theorem clock_playTicks (r : Recording) (n : Nat) (c : Controls) (p : Player)
    (history : History) :
    (playTicks r n c p history).1.ticks -
        UInt64.ofNat (ticksOf (playTicks r n c p history).2).length =
      p.ticks - UInt64.ofNat (ticksOf history).length := by
  induction n generalizing c p history with
  | zero => rfl
  | succ n ih =>
      rw [playTicks, ih, Player.ticks_tick, tell_history, ticksOf_append, List.length_append,
        UInt64.ofNat_add]
      change p.ticks + 1 - (_ + 1) = _
      grind

theorem clock_of_deed {action : Action} (h : Deed w action v) : clock v = clock w := by
  cases h with
  | play n c => exact clock_playTicks w.recording n c w.player w.audience
  | adjust p hp => exact congrArg (· - _) hp.steady.ticks
  | assign name v _ => rfl
  | define f => rfl
  | report events =>
      induction events generalizing w with
      | nil => rfl
      | cons event rest ih =>
          refine (@ih (w.emit event)).trans ?_
          exact clock_tell w rfl

/-- A history shows every tick that the player went through. -/
theorem upkeep_clock : Upkeep fun w v => clock v = clock w where
  refl _ := rfl
  trans huv hvw := hvw.trans huv
  call w _ _ := clock_tell w rfl
  act _ _ h := clock_of_deed h
  watch _ _ _ _ h := h
  scope _ h := h
  trial {w v} _ _ _ := by
    have htried : ticksOf (v.audience.map .tried) = [] := by
      simp [ticksOf, List.filterMap_eq_nil_iff, Moment.after?]
    simp [clock, World.absorb, absorb_history, ticksOf_append, htried]
  steer w coordinate velocity := congrArg (· - _) (Player.Setting.velocity ..).steady.ticks
  report w _ := clock_tell w rfl

end Parkour.Engine
