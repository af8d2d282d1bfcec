import Parkour.Engine.Session
import Parkour.Proofs.Engine.Names
import Parkour.Proofs.Sequence.Seam

/-!
# One sequence after another

A sequence that is written behind another one runs as it would run on its own in the
world that the first one leaves.
-/

namespace Parkour.Engine

open Parkour.Language
open Report (Sink)

variable {σ : Type}

/-- No run puts the player under another model. -/
theorem upkeep_axis [Audience σ] :
    Upkeep fun w v : World σ => v.player.axis = w.player.axis where
  refl _ := rfl
  trans huv hvw := hvw.trans huv
  call _ _ _ := rfl
  act _ _ h := h.axis
  watch _ _ _ _ h := h
  scope _ h := h
  trial _ _ _ := rfl
  steer _ _ _ := (Player.Setting.velocity ..).steady.axis
  report _ _ := rfl

section

variable {rules : Rules} {made : List String → Call → Run σ Unit} {stack : List String}

/-- The calls of two lists of tokens are made one after the other. -/
theorem runTokens_append (first second : List String) :
    runTokens rules made stack (first ++ second) = (do
      let calls ← runTokens rules made stack first
      let later ← runTokens rules made stack second
      return calls ++ later : Run σ (List Call)) := by
  induction first with
  | nil => simp [runTokens]
  | cons token first ih => simp [runTokens, ih]

theorem runText_append [Audience σ]
    (hkeep : ∀ stack call, Keeps (fun u v => v.player.axis = u.player.axis) (made stack call))
    {first second : String} {tokens tokens' : List String} {w : World σ}
    (hfirst : Sequence.Settled first)
    (h : Sequence.split .calls stack (Sequence.prepare w.player.axis first) = .ok tokens)
    (h' : Sequence.split .calls stack (Sequence.prepare w.player.axis second) = .ok tokens') :
    runText rules made stack (first ++ " " ++ second) w = (do
      let calls ← runText rules made stack first
      let later ← runText rules made stack second
      return calls ++ later : Run σ (List Call)) w := by
  have hboth : runText rules made stack (first ++ " " ++ second) w =
      runTokens rules made stack (tokens ++ tokens') w :=
    Run.runText_apply (Sequence.split_append hfirst h h')
  have hrun : runText rules made stack first w = runTokens rules made stack tokens w :=
    Run.runText_apply h
  have haxis := upkeep_axis.keeps_runTokens rules (hkeep stack) tokens w
  rw [hboth, runTokens_append]
  rcases hcalls : runTokens rules made stack tokens w with ⟨fault | calls, v⟩
  · rw [Run.bind_apply_error hcalls, Run.bind_apply_error (hrun.trans hcalls)]
  · rw [hcalls] at haxis
    rw [← haxis] at h'
    have hlater : runText rules made stack second v = runTokens rules made stack tokens' v :=
      Run.runText_apply h'
    rw [Run.bind_apply_ok hcalls, Run.bind_apply_ok (hrun.trans hcalls)]
    exact Run.bind_apply_congr hlater.symm

end

/-- Two sequences with a blank between them run one after the other, with the same
outcome and the same world behind them, if the first one leaves no comment and no
backslash open and both can be split. -/
theorem run_append [Audience σ] (rules : Rules) (n : Nat) (stack : List String)
    (first second : String) (w : World σ) (hfirst : Sequence.Settled first)
    (h : ∃ tokens, Sequence.split .calls stack (Sequence.prepare w.player.axis first) =
      .ok tokens)
    (h' : ∃ tokens, Sequence.split .calls stack (Sequence.prepare w.player.axis second) =
      .ok tokens) :
    (frame rules n).run stack (first ++ " " ++ second) w = (do
      let calls ← (frame rules n).run stack first
      let later ← (frame rules n).run stack second
      return calls ++ later : Run σ (List Call)) w := by
  obtain ⟨tokens, hsplit⟩ := h
  obtain ⟨tokens', hsplit'⟩ := h'
  cases n with
  | zero => rfl
  | succ more =>
      exact runText_append (upkeep_axis.keeps_dispatch rules (upkeep_axis.frames rules more))
        hfirst hsplit hsplit'

theorem run_append_jumps :
    (frame ⟨3, false⟩ 4).run ["run"] ("var(n, 2) # a # repeat(jump(n), 2)" ++ " " ++ "| outy(\\#)")
        ((new .vertical).world ∅) = (do
      let calls ← (frame ⟨3, false⟩ 4).run ["run"] "var(n, 2) # a # repeat(jump(n), 2)"
      let later ← (frame ⟨3, false⟩ 4).run ["run"] "| outy(\\#)"
      return calls ++ later : Run Sink (List Call)) ((new .vertical).world ∅) :=
  run_append ⟨3, false⟩ 4 ["run"] _ _ _ ⟨rfl, rfl⟩ ⟨_, rfl⟩ ⟨_, rfl⟩

end Parkour.Engine
