import Parkour.Proofs.Engine.Recast
import Parkour.Proofs.Player.Validity

/-!
# Journals

A journal notes every player that a run goes through, those of its trials among them.
With the journal forgotten the run is the plain one, and all players that it notes are
valid if the first one is.
-/

namespace Parkour.Engine

open Parkour.Language
open Player (Controls Coordinate)
open Report (Recording)

variable {σ α : Type}

/-- The player that a moment shows. -/
def Moment.players : Moment → List Player
  | .tick _ _ after => [after]
  | .tried moment => moment.players
  | .call _ _ => []
  | .event _ => []

/-- What an audience has heard, and the players that were noted. -/
structure Journal (σ : Type) where
  heard : σ
  players : List Player

theorem foldl_note [Audience σ] (j : Journal σ) (moments : List Moment) :
    moments.foldl (fun j moment =>
        (⟨Audience.tell j.heard moment, j.players ++ moment.players⟩ : Journal σ)) j =
      ⟨moments.foldl Audience.tell j.heard, j.players ++ moments.flatMap Moment.players⟩ := by
  induction moments generalizing j with
  | nil => simp
  | cons moment rest ih =>
      rw [List.foldl_cons, ih, List.foldl_cons, List.flatMap_cons, List.append_assoc]

/-- A journal notes the player after each tick, also in a trial. -/
instance [Audience σ] : Audience (Journal σ) where
  tell j moment := ⟨Audience.tell j.heard moment, j.players ++ moment.players⟩
  trial j := ⟨Audience.trial j.heard, []⟩
  absorb j trial := ⟨Audience.absorb j.heard trial.heard, j.players ++ trial.players⟩
  absorb_trial j moments := by
    rw [foldl_note, foldl_note, Audience.absorb_trial, List.nil_append, List.flatMap_map]
    rfl

/-- The world with its player noted. -/
def World.noted (w : World (Journal σ)) : World (Journal σ) :=
  { w with audience := { w.audience with players := w.audience.players ++ [w.player] } }

/-- Notes the player before and after a computation, whatever its outcome is. -/
def noting (x : Run (Journal σ) α) : Run (Journal σ) α :=
  fun w => ((x w.noted).1, (x w.noted).2.noted)

/-- The ways into a frame of a run with a journal: the player is noted before and after
every sequence and every call. -/
def journaled [Audience σ] (rules : Rules) : Nat → Frame (Journal σ)
  | 0 =>
      { run := fun _ _ => noting (throw (.tooDeep rules.maxDepth))
        dispatch := fun _ _ => noting (throw (.tooDeep rules.maxDepth)) }
  | more + 1 =>
      let made (stack : List String) (call : Call) :=
        noting (dispatch rules (journaled rules more) stack call)
      { run := fun stack text => noting (runText rules made stack text)
        dispatch := made }

/-! ## The plain run -/

section

variable [Audience σ]

/-- A run without its journal. -/
def forgetting : Recast (Journal σ) σ where
  recording := id
  audience := Journal.heard
  clean _ := True
  clean_of_tell _ := trivial
  clean_of_absorb _ := trivial
  call _ _ _ := rfl
  tick _ _ _ _ := rfl
  event _ _ := rfl
  watch _ _ _ := ⟨fun _ => rfl, fun _ _ _ => rfl, fun _ => rfl⟩

theorem commutes_noting {x : Run σ α} {y : Run (Journal σ) α}
    (h : Commutes forgetting x y) : Commutes forgetting x (noting y) where
  clean _ _ := trivial
  image v _ := h.image v.noted trivial

theorem rehearsed_forgetting {inner : Frame σ} {inner' : Frame (Journal σ)}
    (h : Twins forgetting inner inner') : Rehearsed forgetting inner inner' := by
  intro child coordinate velocity body
  refine ⟨fun _ _ => trivial, fun v _ => ?_⟩
  have htrial : (forgetting.world v).trial coordinate velocity =
      forgetting.world (v.trial coordinate velocity) := rfl
  rw [Run.probe_apply, Run.probe_apply, htrial, (h.run child body).image _ trivial]
  rfl

/-- With the journal forgotten, the frames are the plain ones. -/
theorem twins_journaled (rules : Rules) (n : Nat) :
    Twins (forgetting : Recast (Journal σ) σ) (frame rules n) (journaled rules n) := by
  induction n with
  | zero => exact ⟨fun _ _ => commutes_noting (.ofThrow _), fun _ _ => commutes_noting (.ofThrow _)⟩
  | succ n ih =>
      have hmade := fun stack call =>
        commutes_noting (commutes_dispatch rules ih (rehearsed_forgetting ih) stack call)
      exact ⟨fun stack text => commutes_noting (commutes_runText rules hmade stack text), hmade⟩

end

/-! ## What a run with a journal keeps -/

section

variable [Audience σ] {T : World (Journal σ) → World (Journal σ) → Prop}

theorem Upkeep.keeps_noting (hT : Upkeep T) (hnote : ∀ w, T w w.noted)
    {x : Run (Journal σ) α} (hx : Keeps T x) : Keeps T (noting x) :=
  fun w => hT.trans (hnote w) (hT.trans (hx w.noted) (hnote _))

/-- Frames with a journal keep what each single thing keeps, a note among them. -/
theorem Upkeep.journaled (hT : Upkeep T) (hnote : ∀ w, T w w.noted) (rules : Rules) (n : Nat) :
    Frames T (journaled rules n) := by
  induction n with
  | zero =>
      constructor
      · intro stack text
        exact hT.keeps_noting hnote (hT.keeps_throw _)
      · intro stack call
        exact hT.keeps_noting hnote (hT.keeps_throw _)
  | succ n ih =>
      have hmade := fun stack call =>
        hT.keeps_noting hnote (hT.keeps_dispatch rules ih stack call)
      constructor
      · intro stack text
        exact hT.keeps_noting hnote (hT.keeps_runText rules (hmade stack) text)
      · exact hmade

end

/-! ## What is noted -/

/-- What was noted stays in the journal. -/
def Grows (w v : World (Journal σ)) : Prop :=
  w.audience.players <+: v.audience.players

theorem grows_noted (w : World (Journal σ)) : Grows w w.noted :=
  List.prefix_append _ _

/-- The players before and after something are in the journal. -/
def Notes (w v : World (Journal σ)) : Prop :=
  w.player ∈ v.audience.players ∧ v.player ∈ v.audience.players

theorem notes_noting {x : Run (Journal σ) α} (hx : Keeps Grows x) (w : World (Journal σ)) :
    Notes w (noting x w).2 := by
  have hbefore : w.player ∈ w.noted.audience.players := List.mem_concat_self
  have hgrows : Grows w.noted (noting x w).2 := (hx w.noted).trans (grows_noted _)
  exact ⟨hgrows.subset hbefore, List.mem_concat_self⟩

section

variable [Audience σ] {w v : World (Journal σ)}

/-- The journal has the player after each tick that is played. -/
theorem players_playTicks (r : Recording) (n : Nat) (c : Controls) (p : Player)
    (j : Journal σ) : (playTicks r n c p j).2.players = j.players ++ p.ticked n c := by
  induction n generalizing c p j with
  | zero => exact (List.append_nil _).symm
  | succ n ih =>
      rw [playTicks, ih, Player.ticked]
      exact List.append_assoc j.players [p.tick c] _

theorem Grows.of_deed {action : Action} (h : Deed w action v) : Grows w v := by
  obtain ⟨moments, htold, -⟩ := h.told
  have hplayers := congrArg Journal.players (foldl_note w.audience moments)
  unfold Grows
  rw [htold]
  exact ⟨_, hplayers.symm⟩

theorem upkeep_grows : Upkeep (Grows : World (Journal σ) → World (Journal σ) → Prop) where
  refl _ := List.prefix_rfl
  trans := List.IsPrefix.trans
  call _ _ _ := List.prefix_append _ _
  act _ _ h := .of_deed h
  watch _ _ _ _ h := h
  scope _ h := h
  trial _ _ _ := List.prefix_append _ _
  steer _ _ _ := List.prefix_rfl
  report _ _ := List.prefix_append _ _

/-- The players before and after every sequence and every call are in the journal, and
stay in it. -/
theorem notes_journaled (rules : Rules) (n : Nat) (stack : List String)
    (w : World (Journal σ)) :
    (∀ text, Notes w ((journaled rules n).run stack text w).2) ∧
      ∀ call, Notes w ((journaled rules n).dispatch stack call w).2 := by
  cases n with
  | zero =>
      constructor
      · intro text
        exact notes_noting (upkeep_grows.keeps_throw _) w
      · intro call
        exact notes_noting (upkeep_grows.keeps_throw _) w
  | succ more =>
      have hinner : Upkeep.Frames Grows (journaled rules more : Frame (Journal σ)) :=
        upkeep_grows.journaled grows_noted rules more
      have hmade := upkeep_grows.keeps_dispatch rules hinner
      constructor
      · intro text
        refine notes_noting (upkeep_grows.keeps_runText rules ?_ text) w
        exact fun call => upkeep_grows.keeps_noting grows_noted (hmade stack call)
      · intro call
        exact notes_noting (hmade stack call) w

end

/-! ## Valid players -/

/-- The player of a world is valid, and so are those that were noted. -/
structure Sound (w : World (Journal σ)) : Prop where
  player : w.player.Valid
  noted : ∀ p ∈ w.audience.players, p.Valid

theorem valid_playTicks [Audience σ] (r : Recording) (n : Nat) (c : Controls) {p : Player}
    (h : p.Valid) (s : σ) : (playTicks r n c p s).1.Valid := by
  induction n generalizing c p s with
  | zero => exact h
  | succ n ih => exact ih _ (h.tick c) _

namespace Sound

variable {w v : World (Journal σ)}

theorem note (h : Sound w) : Sound w.noted where
  player := h.player
  noted := List.forall_mem_append.mpr ⟨h.noted, by simpa using h.player⟩

variable [Audience σ]

/-- A moment that shows no player changes nothing about the journal. -/
theorem tell (h : Sound w) {moment : Moment} (hmoment : moment.players = []) :
    Sound (w.tell moment) where
  player := h.player
  noted := by
    change ∀ p ∈ w.audience.players ++ moment.players, p.Valid
    rw [hmoment, List.append_nil]
    exact h.noted

theorem deed (h : Sound w) {action : Action} (hdeed : Deed w action v) : Sound v := by
  cases hdeed with
  | play n c =>
      refine ⟨valid_playTicks _ n c h.player _, ?_⟩
      change ∀ p ∈ (playTicks w.recording n c w.player w.audience).2.players, p.Valid
      rw [players_playTicks]
      exact List.forall_mem_append.mpr ⟨h.noted, h.player.ticked n c⟩
  | adjust p hset => exact ⟨hset.valid h.player, h.noted⟩
  | assign name v _ => exact ⟨h.player, h.noted⟩
  | define f => exact ⟨h.player, h.noted⟩
  | report events =>
      induction events generalizing w with
      | nil => exact h
      | cons event rest ih => exact ih (h.tell rfl)

/-- The player of a trial is noted with the others when the trial is over. -/
theorem absorb (h : Sound w) {coordinate : Coordinate} {velocity : Float}
    (hafter : Sound (w.trial coordinate velocity) → Sound v) : Sound (w.absorb v) where
  player := h.player
  noted := by
    have htrial : Sound (w.trial coordinate velocity) :=
      ⟨h.player.setVelocity coordinate velocity, fun _ hp => absurd hp List.not_mem_nil⟩
    exact List.forall_mem_append.mpr ⟨h.noted, (hafter htrial).noted⟩

end Sound

variable [Audience σ]

/-- No single thing that a run does makes a player that is not valid. -/
theorem upkeep_sound : Upkeep fun w v : World (Journal σ) => Sound w → Sound v where
  refl _ h := h
  trans huv hvw h := hvw (huv h)
  call _ _ _ h := h.tell rfl
  act _ _ hdeed h := h.deed hdeed
  watch _ _ _ _ hbody h := by
    have hafter := hbody ⟨h.player, h.noted⟩
    exact ⟨hafter.player, hafter.noted⟩
  scope _ hbody h := by
    have hafter := hbody ⟨h.player, h.noted⟩
    exact ⟨hafter.player, hafter.noted⟩
  trial _ _ hafter h := h.absorb hafter
  steer _ coordinate velocity h := ⟨h.player.setVelocity coordinate velocity, h.noted⟩
  report _ _ h := h.tell rfl

/-- All players that a run with a journal goes through are valid if the first one is. -/
theorem sound_journaled (rules : Rules) (n : Nat) :
    Upkeep.Frames (fun w v : World (Journal σ) => Sound w → Sound v) (journaled rules n) :=
  upkeep_sound.journaled (fun _ h => h.note) rules n

end Parkour.Engine
