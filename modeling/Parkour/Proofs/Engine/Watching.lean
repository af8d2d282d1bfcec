import Parkour.Engine.Session
import Parkour.Proofs.Engine.Listening

/-!
# Watching

A sequence that a listener watches runs as it does without the listener. All that is
added is what the listener reports, which is what it observes after each tick that is
played, in order.
-/

namespace Parkour.Engine

open Parkour.Language
open Report (Event Listener ListenerKind Recording Sink)

/-- A moment with one more listener. -/
def Moment.armed (listener : Listener) : Moment → Moment
  | .tick recording controls after => .tick (recording.arm listener) controls after
  | moment => moment

theorem respects_arm {listener : Listener} {kind : ListenerKind} (h : kind ≠ listener.kind) :
    Respects (·.arm listener) kind where
  has r := Recording.has_arm h.symm
  arm r other hother := by
    subst hother
    cases listener <;> cases other <;> simp_all [Listener.kind, Recording.arm]
  disarm r := by
    cases listener <;> cases kind <;> simp_all [Listener.kind, Recording.arm, Recording.disarm]

/-- Runs in which one more listener watches. -/
def arming (listener : Listener) : Recast History History where
  recording := (·.arm listener)
  audience := List.map (Moment.armed listener)
  clean := NoneWatches listener.kind
  clean_of_tell h := h.before (List.prefix_append ..)
  clean_of_absorb h := h.before (List.prefix_append ..)
  call _ _ _ := List.map_append
  tick _ _ _ _ := List.map_append
  event _ _ := List.map_append
  watch {t stack made b watch} htarget heffect h := by
    have hcall := h (.call stack made) (List.mem_concat_self ..)
    refine respects_arm ?_
    simpa [Moment.watches, htarget, heffect] using hcall

theorem rehearsed_arming (listener : Listener) (inner : Frame History) :
    Rehearsed (arming listener) inner inner := by
  intro child coordinate velocity body
  have htrial : ∀ v : World History, ((arming listener).world v).trial coordinate velocity =
      v.trial coordinate velocity := fun _ => rfl
  have habsorb : ∀ v u : World History, ((arming listener).world v).absorb u =
      (arming listener).world (v.absorb u) := by
    intro v u
    simp [World.absorb, Recast.world, arming, absorb_history, Moment.armed]
  constructor
  · intro v hv
    rw [Run.probe_apply] at hv
    exact (arming listener).clean_of_absorb hv
  · intro v _
    rw [Run.probe_apply, Run.probe_apply, htrial, habsorb]

theorem twins_arming (listener : Listener) (rules : Rules) (n : Nat) :
    Twins (arming listener) (frame rules n) (frame rules n) := by
  induction n with
  | zero => exact .zero rules
  | succ n ih => exact .succ rules ih (rehearsed_arming listener (frame rules n))

/-! ## Reports -/

section

variable {listener : Listener}

theorem own_reports_armed {moment : Moment} (h : moment.seenBy listener.kind = false) :
    ((moment.armed listener).reports.filter (·.1 = some listener.kind)).map Prod.snd =
      moment.after?.toList.flatMap listener.observe := by
  cases moment with
  | tick r c p =>
      have hown := Recording.own_sightings h p
      simpa [Moment.armed, Moment.reports, Moment.after?, List.filter_map, Function.comp_def]
        using hown
  | call stack made => rfl
  | event reported => rfl
  | tried moment => rfl

theorem other_reports_armed {moment : Moment} (h : moment.seenBy listener.kind = false) :
    ((moment.armed listener).reports.filter (·.1 ≠ some listener.kind)).map Prod.snd =
      moment.events := by
  cases moment with
  | tick r c p =>
      have hother := Recording.other_sightings h p
      simpa [Moment.armed, Moment.reports, Moment.events, List.filter_map, Function.comp_def]
        using hother
  | call stack made => rfl
  | event reported => rfl
  | tried moment => rfl

/-- The listener reports what it observes after each tick. -/
theorem own_reports {history : History} (h : Unseen listener.kind history) :
    (((history.map (Moment.armed listener)).flatMap Moment.reports).filter
        (·.1 = some listener.kind)).map Prod.snd =
      (ticksOf history).flatMap listener.observe := by
  induction history with
  | nil => rfl
  | cons moment rest ih =>
      have hmoment := own_reports_armed (h moment List.mem_cons_self)
      have hrest := ih fun other hmem => h other (List.mem_cons_of_mem moment hmem)
      have hticks : ticksOf (moment :: rest) = moment.after?.toList ++ ticksOf rest := by
        cases moment <;> rfl
      rw [List.map_cons, List.flatMap_cons, List.filter_append, List.map_append, hmoment,
        hrest, hticks, List.flatMap_append]

/-- All other reports are those of the run without the listener. -/
theorem other_reports {history : History} (h : Unseen listener.kind history) :
    (((history.map (Moment.armed listener)).flatMap Moment.reports).filter
        (·.1 ≠ some listener.kind)).map Prod.snd =
      history.flatMap Moment.events := by
  induction history with
  | nil => rfl
  | cons moment rest ih =>
      have hmoment := other_reports_armed (h moment List.mem_cons_self)
      have hrest := ih fun other hmem => h other (List.mem_cons_of_mem moment hmem)
      rw [List.map_cons, List.flatMap_cons, List.filter_append, List.map_append, hmoment,
        hrest, List.flatMap_cons]

end

/-! ## Watched runs -/

/-- Runs the sequence of a call without what the call does around it. -/
def plainly {σ : Type} [Audience σ] (rules : Rules) (more : Nat) (stack : List String)
    (b : Builtin) (body : String) : Run σ Unit := do
  rules.check
  discard ((frame rules more).run (stack ++ [b.name]) body)

theorem listenerOf_hushed {σ : Type} (w : World σ) (watch : Watch) (b : Builtin)
    (arguments : Arguments) :
    listenerOf w.hushed watch b arguments = listenerOf w watch b arguments := by
  cases watch <;> rfl

section

variable {σ : Type} {rules : Rules} {more : Nat} {stack : List String} {call : Call}
  {b : Builtin} {watch : Watch} {listener : Listener} {body : String} {w : World σ}

/-- Before a history, a watched run is the plain one with the listener in every tick. -/
theorem watched_hushed (htarget : call.target = .builtin b)
    (heffect : b.effect = .wrapper (.watch watch))
    (hlistener : listenerOf w watch b call.arguments = .ok listener)
    (hbody : call.arguments.requireText "sequence" = .ok body)
    (hnone : NoneWatches listener.kind (historyOf (plainly rules more stack b body) w)) :
    ∃ before : History, before.flatMap Moment.reports = [] ∧
      dispatch rules (frame rules more) stack call w.hushed =
        ((plainly rules more stack b body w.hushed).1,
          { (plainly rules more stack b body w.hushed).2 with
            audience := before ++
              (historyOf (plainly rules more stack b body) w).map (.armed listener) }) := by
  unfold historyOf at hnone ⊢
  cases hrules : rules.check with
  | error fault =>
      have hplain : plainly rules more stack b body w.hushed = (.error fault, w.hushed) := by
        rw [plainly, hrules, Run.bind_apply_error (Run.liftM_apply _ _)]
      refine ⟨[], rfl, ?_⟩
      rw [hplain, dispatch, hrules, Run.bind_apply_error (Run.liftM_apply _ _)]
      rfl
  | ok _ =>
      have hplain : plainly rules more stack b body w.hushed =
          discard ((frame rules more).run (stack ++ [b.name]) body) w.hushed := by
        rw [plainly, hrules, Run.bind_apply_ok (Run.liftM_apply _ _)]
      rw [hplain] at hnone ⊢
      refine ⟨[.call stack call], rfl, ?_⟩
      obtain ⟨hfree, hkind⟩ := listenerOf_eq_ok hlistener
      have harmed := ((twins_arming listener rules more).run (stack ++ [b.name]) body).ofDiscard
      have hkept := keeps_discard
        (((upkeep_unwatched listener.kind).frames rules more).run (stack ++ [b.name]) body)
        w.hushed
      have hdisarm := Recording.disarm_arm (show
        (discard ((frame rules more).run (stack ++ [b.name]) body) w.hushed).2.recording.has
          listener.kind = false by
        rw [hkept.recording, hkind]
        exact hfree)
      have htold := run_eq_retold
        (fun s => ((twins_retelling rules more s).run (stack ++ [b.name]) body).ofDiscard)
        ((w.hushed.tell (.call stack call)).armed listener)
      have hstart : ((w.hushed.tell (.call stack call)).armed listener).hushed =
          (arming listener).world w.hushed := rfl
      rw [hstart, harmed.image _ hnone] at htold
      have hset : listenerOf (w.hushed.tell (.call stack call)) watch b call.arguments =
          .ok listener := (listenerOf_hushed w watch b call.arguments).trans hlistener
      unfold dispatch
      rw [hrules, Run.bind_apply_ok (Run.liftM_apply _ _), Run.modify_bind_apply, htarget]
      dsimp only
      rw [heffect]
      refine (Run.runWatched_apply hset hbody).trans ?_
      rw [htold]
      simp only [Recast.world, World.disarmed, retelling, arming, id_eq, foldl_tell, hdisarm]
      rfl

end

theorem commutes_plainly {σ : Type} [Audience σ] (rules : Rules) (more : Nat)
    (stack : List String) (b : Builtin) (body : String) (s : σ) :
    Commutes (retelling s) (plainly rules more stack b body : Run σ Unit)
      (plainly rules more stack b body) := by
  refine (Commutes.ofExcept _).bind fun _ => ?_
  exact ((twins_retelling rules more s).run _ body).ofDiscard

theorem keeps_plainly {T : World History → World History → Prop} (hT : Upkeep T)
    (rules : Rules) (more : Nat) (stack : List String) (b : Builtin) (body : String) :
    Keeps T (plainly rules more stack b body) := by
  refine hT.keeps_bind (hT.keeps_liftM _) fun _ => ?_
  exact keeps_discard ((hT.frames rules more).run _ body)

theorem map_snd_flatMap_reports (history : History) :
    (history.flatMap Moment.reports).map Prod.snd = history.flatMap Moment.events := by
  rw [List.map_flatMap]
  exact List.flatMap_congr fun moment _ => moment.map_snd_reports

/-- What a listener adds to a run that starts in `start`. The ticks are those that the
run plays; the reports are those of the watched run. -/
structure Overheard (listener : Listener) (start : World Sink)
    (plain watched : Except Fault Unit × World Sink) (ticks : List Player)
    (reports : List (Option ListenerKind × Event)) : Prop where
  /-- The outcome is that of the plain run. -/
  outcome : watched.1 = plain.1
  player : watched.2.player = plain.2.player
  scope : watched.2.scope = plain.2.scope
  functions : watched.2.functions = plain.2.functions
  /-- The listeners are again those from before. -/
  recording : watched.2.recording = start.recording
  /-- The reports are what is emitted. -/
  emitted : watched.2.audience = start.audience.emitAll (reports.map Prod.snd)
  /-- The reports that are not the listener's are those of the plain run. -/
  others : plain.2.audience = start.audience.emitAll
    ((reports.filter (·.1 ≠ some listener.kind)).map Prod.snd)
  /-- The listener reports what it observes after each tick. -/
  own : (reports.filter (·.1 = some listener.kind)).map Prod.snd =
    ticks.flatMap listener.observe
  /-- Those are all the ticks that the player went through. -/
  passed : plain.2.player.ticks = start.player.ticks + UInt64.ofNat ticks.length

/-- A call that watches a sequence does what the sequence does, and the listener sees
every tick once, unless the sequence sets up a listener of the same kind. -/
theorem dispatch_watch_overheard (rules : Rules) (more : Nat) (stack : List String)
    (call : Call) (b : Builtin) (watch : Watch) (listener : Listener) (body : String)
    (w : World Sink) (htarget : call.target = .builtin b)
    (heffect : b.effect = .wrapper (.watch watch))
    (hlistener : listenerOf w watch b call.arguments = .ok listener)
    (hbody : call.arguments.requireText "sequence" = .ok body)
    (hnone : NoneWatches listener.kind (historyOf (plainly rules more stack b body) w)) :
    Overheard listener w (plainly rules more stack b body w)
      (dispatch rules (frame rules more) stack call w)
      (ticksOf (historyOf (plainly rules more stack b body) w))
      ((historyOf (dispatch rules (frame rules more) stack call) w).flatMap
        Moment.reports) := by
  obtain ⟨before, hbefore, hwatched⟩ :=
    watched_hushed htarget heffect hlistener hbody hnone
  have hdispatch := run_eq_retold (commutes_retelling_dispatch rules more stack call) w
  have hplain := run_eq_retold (commutes_plainly rules more stack b body) w
  have hreports : (historyOf (dispatch rules (frame rules more) stack call) w).flatMap
      Moment.reports =
        ((historyOf (plainly rules more stack b body) w).map (.armed listener)).flatMap
          Moment.reports := by
    rw [historyOf, hwatched, List.flatMap_append, hbefore, List.nil_append]
  obtain ⟨hfree, hkind⟩ := listenerOf_eq_ok hlistener
  rw [← hkind] at hfree
  have hkept := keeps_plainly (upkeep_unwatched listener.kind) rules more stack b body w.hushed
  have hunseen : Unseen listener.kind (historyOf (plainly rules more stack b body) w) :=
    hkept.ticks hnone hfree fun _ hmem => absurd hmem List.not_mem_nil
  have hclock := keeps_plainly upkeep_clock rules more stack b body w.hushed
  constructor
  · rw [hdispatch, hwatched, hplain]
  · rw [hdispatch, hwatched, hplain]
    rfl
  · rw [hdispatch, hwatched, hplain]
    rfl
  · rw [hdispatch, hwatched, hplain]
    rfl
  · rw [hdispatch, hwatched]
    exact hkept.recording
  · rw [map_snd_flatMap_reports, ← tell_sink, hdispatch]
    rfl
  · rw [hreports, other_reports hunseen, ← tell_sink, hplain]
    rfl
  · rw [hreports, own_reports hunseen]
  · rw [hplain]
    have hstart : clock w.hushed = w.player.ticks := UInt64.sub_zero _
    rw [hstart, clock, UInt64.sub_eq_iff_eq_add] at hclock
    exact hclock

/-- The call `inertialistener(jump(3), miss = 0.1)`. -/
def jumpListenerCall (b : Builtin) : Call where
  target := .builtin b
  arguments := { values :=
    [("sequence", .text "jump(3)"), ("miss", .float 0.1), ("label", .text "slow")] }

theorem dispatch_watch_overheard_jump :
    ∃ b ∈ Catalogue.find? .vertical "inertialistener",
      Overheard (.stop { miss := 0.1, label := "slow", start := 0 })
        ((new .vertical).world ∅) (plainly ⟨1, false⟩ 1 [] b "jump(3)" ((new .vertical).world ∅))
        (dispatch ⟨1, false⟩ (frame ⟨1, false⟩ 1) [] (jumpListenerCall b)
          ((new .vertical).world ∅))
        (ticksOf (historyOf (plainly ⟨1, false⟩ 1 [] b "jump(3)") ((new .vertical).world ∅)))
        ((historyOf (dispatch ⟨1, false⟩ (frame ⟨1, false⟩ 1) [] (jumpListenerCall b))
          ((new .vertical).world ∅)).flatMap Moment.reports) := by
  refine ⟨(Catalogue.find? .vertical "inertialistener").get (by decide +kernel), by simp, ?_⟩
  refine dispatch_watch_overheard ⟨1, false⟩ 1 [] _ _ .stop _ "jump(3)" _ rfl ?_ ?_ rfl ?_
  · decide +kernel
  · rfl
  · unfold NoneWatches
    decide +kernel

end Parkour.Engine
