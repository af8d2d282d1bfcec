import Parkour.Proofs.Engine.Recast

/-!
# Histories

A history takes down all that a run tells. What any other audience hears of the run
is the history told again, so a run can be studied once, before its history.
-/

namespace Parkour.Engine

open Parkour.Language
open Report (Sink)

/-- All that was told, in its order. -/
abbrev History := List Moment

theorem foldl_snoc {α : Type} (first second : List α) :
    second.foldl (fun s a => s ++ [a]) first = first ++ second := by
  rw [List.foldl_append_eq_append, ← List.flatMap_def, List.flatMap_singleton']

/-- A history takes all moments down. -/
instance : Audience History where
  tell history moment := history ++ [moment]
  trial _ := []
  absorb history trial := history ++ trial.map .tried
  absorb_trial history moments := by
    rw [foldl_snoc, foldl_snoc, List.nil_append]

theorem tell_history (history : History) (moment : Moment) :
    Audience.tell history moment = history ++ [moment] := rfl

theorem absorb_history (history trial : History) :
    Audience.absorb history trial = history ++ trial.map .tried := rfl

theorem foldl_tell (history more : History) :
    more.foldl Audience.tell history = history ++ more :=
  foldl_snoc history more

/-- A sink is told the events of a history. -/
theorem tell_sink (sink : Sink) (history : History) :
    history.foldl Audience.tell sink = sink.emitAll (history.flatMap Moment.events) := by
  induction history generalizing sink with
  | nil => rfl
  | cons moment rest ih =>
      rw [List.foldl_cons, ih, List.flatMap_cons, Sink.emitAll_append]
      rfl

/-- A history only grows by what an action does. -/
theorem grows_of_deed {action : Action} {w v : World History} (h : Deed w action v) :
    w.audience <+: v.audience := by
  obtain ⟨moments, htold, -⟩ := h.told
  rw [htold, foldl_tell]
  exact List.prefix_append ..

variable {σ α : Type} [Audience σ]

/-- A history told again to an audience that has heard other things before. -/
def retelling (s : σ) : Recast History σ where
  recording := id
  audience history := history.foldl Audience.tell s
  clean _ := True
  clean_of_tell _ := trivial
  clean_of_absorb _ := trivial
  call _ _ _ := List.foldl_append
  tick _ _ _ _ := List.foldl_append
  event _ _ := List.foldl_append
  watch _ _ _ := ⟨fun _ => rfl, fun _ _ _ => rfl, fun _ => rfl⟩

theorem rehearsed_retelling {inner : Frame σ} {inner' : Frame History}
    (h : ∀ s, Twins (retelling s) inner inner') (s : σ) :
    Rehearsed (retelling s) inner inner' := by
  intro child coordinate velocity body
  refine ⟨fun _ _ => trivial, fun v _ => ?_⟩
  have htrial : ((retelling s).world v).trial coordinate velocity =
      (retelling (Audience.trial ((retelling s).audience v.audience))).world
        (v.trial coordinate velocity) := rfl
  have habsorb : ∀ u : World History,
      ((retelling s).world v).absorb
          ((retelling (Audience.trial ((retelling s).audience v.audience))).world u) =
        (retelling s).world (v.absorb u) := by
    intro u
    simp only [World.absorb, Recast.world, retelling, Audience.absorb_trial, absorb_history,
      List.foldl_append]
  rw [Run.probe_apply, Run.probe_apply, htrial, ((h _).run child body).image _ trivial, habsorb]
  rfl

/-- What any audience hears of a run is the history of the run. -/
theorem twins_retelling (rules : Rules) (n : Nat) (s : σ) :
    Twins (retelling s) (frame rules n) (frame rules n) := by
  induction n generalizing s with
  | zero => exact .zero rules
  | succ n ih => exact .succ rules (ih s) (rehearsed_retelling ih s)

theorem commutes_retelling_dispatch (rules : Rules) (more : Nat) (stack : List String)
    (call : Call) (s : σ) :
    Commutes (retelling s) (dispatch rules (frame rules more) stack call : Run σ Unit)
      (dispatch rules (frame rules more) stack call) := by
  have htwins : ∀ s : σ, Twins (retelling s) (frame rules more) (frame rules more) :=
    twins_retelling rules more
  exact commutes_dispatch rules (htwins s) (rehearsed_retelling htwins s) stack call

/-- A world before an empty history. -/
def World.hushed (w : World σ) : World History where
  player := w.player
  scope := w.scope
  functions := w.functions
  recording := w.recording
  audience := []

/-- What a computation tells. -/
def historyOf (x : Run History α) (w : World σ) : History :=
  (x w.hushed).2.audience

/-- A computation does with any audience what it does before its history. -/
theorem run_eq_retold {x : Run σ α} {y : Run History α}
    (h : ∀ s, Commutes (retelling s) x y) (w : World σ) :
    x w = ((y w.hushed).1, (retelling w.audience).world (y w.hushed).2) :=
  (h w.audience).image w.hushed trivial

end Parkour.Engine
