import Parkour.Engine.Session
import Parkour.Proofs.Engine.Enclosure
import Parkour.Proofs.Engine.Stepwise
import Parkour.Proofs.Engine.Succession

/-!
# What a failed run leaves behind

A run that fails has made the calls before the one that it fails at. Where that one runs
no sequence of its own, nothing has happened since: a token that cannot be bound is not
called, and an action that fails changes nothing.
-/

namespace Parkour.Engine

open Parkour.Language
open Report (Sink)

variable {σ : Type}

/-- A token stands for a call that performs an action, if it can be bound. -/
def World.IsPlain (w : World σ) (stack : List String) (token : String) : Prop :=
  ∀ call, w.bindToken stack token = .ok call → ∃ action, call.Performs action

instance (w : World σ) (stack : List String) (token : String) :
    Decidable (w.IsPlain stack token) :=
  decidableOfOk (w.bindToken stack token)

section

variable {rules : Rules} {made : List String → Call → Run σ Unit} {stack : List String}
  {w v : World σ} {fault : Fault}

/-- A pass that fails has run some tokens and fails at the next one. -/
theorem runTokens_eq_error {tokens : List String}
    (h : runTokens rules made stack tokens w = (.error fault, v)) :
    ∃ before token after calls u, tokens = before ++ token :: after ∧
      runTokens rules made stack before w = (.ok calls, u) ∧
      runTokens rules made stack [token] u = (.error fault, v) := by
  induction tokens generalizing w with
  | nil => cases h
  | cons token rest ih =>
      -- The first token is a pass of its own, so the whole fails in it or behind it.
      rw [← List.singleton_append, runTokens_append] at h
      rcases Run.bind_eq_error h with hfirst | ⟨calls, t, hfirst, hrest⟩
      · exact ⟨[], token, rest, [], w, rfl, rfl, hfirst⟩
      · rcases Run.bind_eq_error hrest with hlater | ⟨_, _, -, hend⟩
        · obtain ⟨before, next, after, later, u, rfl, hbefore, hnext⟩ := ih hlater
          refine ⟨token :: before, next, after, calls ++ later, u, rfl, ?_, hnext⟩
          rw [← List.singleton_append, runTokens_append, Run.bind_apply_ok hfirst,
            Run.bind_apply_ok hbefore]
          rfl
        · cases hend

/-- A token that cannot be bound changes nothing. -/
theorem runTokens_singleton_unbound {token : String} {refused : Fault}
    (hcall : w.bindToken stack token = .error refused)
    (h : runTokens rules made stack [token] w = (.error fault, v)) : v = w := by
  rcases Run.liftM_bind_eq_error h with hkept | ⟨_, -, h⟩
  · exact hkept
  rw [Run.get_bind_apply, hcall] at h
  rcases Run.liftM_bind_eq_error h with hkept | ⟨call, hcall, -⟩
  · exact hkept
  · cases hcall

/-- A token that is bound fails as its call does. -/
theorem runTokens_singleton_bound {token : String} {call : Call}
    (hcall : w.bindToken stack token = .ok call)
    (h : runTokens rules made stack [token] w = (.error fault, v)) :
    (do rules.check; made stack call : Run σ Unit) w = (.error fault, v) := by
  rcases Run.bind_eq_error h with hcheck | ⟨_, u, hcheck, hrest⟩
  · exact Run.bind_apply_error hcheck
  rw [Run.bind_apply_ok hcheck]
  have hkept : u = w := (Prod.mk.inj ((Run.liftM_apply _ w).symm.trans hcheck)).2.symm
  subst hkept
  rw [Run.get_bind_apply, hcall, Run.bind_apply_ok (Run.liftM_apply _ _)] at hrest
  rcases Run.bind_eq_error hrest with hmade | ⟨_, t, -, hend⟩
  · exact hmade
  · cases hend

end

section

variable {rules : Rules} {inner : Frame Sink} {stack : List String} {token : String}
  {call : Call} {w v : World Sink} {fault : Fault}

/-- A sink hears nothing of a call. -/
theorem tell_call (w : World Sink) (stack : List String) (call : Call) :
    w.tell (.call stack call) = w := by
  rfl

/-- A call to a builtin with an action does the action, unless the run is cancelled. -/
theorem dispatch_action {b : Builtin} {action : Action} (hrules : rules.check = .ok ⟨⟩)
    (htarget : call.target = .builtin b) (heffect : b.effect = .action action)
    (w : World Sink) :
    dispatch rules inner stack call w = atomically (perform action b call) w := by
  rw [dispatch, hrules, Run.bind_apply_ok (Run.liftM_apply _ w), Run.modify_bind_apply,
    tell_call, htarget]
  dsimp only
  rw [heffect]

/-- An action that is called does what its steps do. -/
theorem dispatch_steps {b : Builtin} {action : Action} (htarget : call.target = .builtin b)
    (heffect : b.effect = .action action) (w : World Sink) :
    (do rules.check; dispatch rules inner stack call : Run Sink Unit) w =
      (do rules.check; steps rules action b call : Run Sink Unit) w := by
  cases hrules : rules.check with
  | error fault => rfl
  | ok _ =>
      rw [Run.bind_apply_ok (Run.liftM_apply _ w), Run.bind_apply_ok (Run.liftM_apply _ w),
        dispatch_action hrules htarget heffect, steps_apply hrules]

/-- The steps of an action fail before the first of them has changed anything. -/
theorem steps_eq_error {b : Builtin} {action : Action}
    (h : (do rules.check; steps rules action b call : Run Sink Unit) w = (.error fault, v)) :
    v = w := by
  rcases Run.liftM_bind_eq_error h with hkept | ⟨_, hrules, h⟩
  · exact hkept
  rw [steps_apply hrules, Run.atomically_apply] at h
  split at h
  · cases h
  · cases h
    rfl

/-- A token that fails changes nothing if it runs no sequence of its own. -/
theorem eq_of_plain_failed (hplain : w.IsPlain stack token)
    (h : runTokens rules (dispatch rules inner) stack [token] w = (.error fault, v)) : v = w := by
  cases hcall : w.bindToken stack token with
  | error refused => exact runTokens_singleton_unbound hcall h
  | ok call =>
      obtain ⟨action, b, htarget, heffect⟩ := hplain call hcall
      have hsteps := runTokens_singleton_bound hcall h
      rw [dispatch_steps htarget heffect] at hsteps
      exact steps_eq_error hsteps

end

/-- A run that fails cannot split its text, or it fails at a token behind others that it has
run. Where this token runs no sequence of its own, the world is the one that the tokens
before it left: no step of an action came before its fault. -/
theorem run_failed {rules : Rules} {more : Nat} {stack : List String} {text : String}
    {w v : World Sink} {fault : Fault}
    (h : (frame rules (more + 1)).run stack text w = (.error fault, v)) :
    (Sequence.split .calls stack (Sequence.prepare w.player.axis text) = .error fault ∧ v = w) ∨
      ∃ before token after calls u,
        Sequence.split .calls stack (Sequence.prepare w.player.axis text) =
            .ok (before ++ token :: after) ∧
          runTokens rules (dispatch rules (frame rules more)) stack before w = (.ok calls, u) ∧
          runTokens rules (dispatch rules (frame rules more)) stack [token] u =
            (.error fault, v) ∧
          (u.IsPlain stack token → v = u ∧
            ∀ call b action, u.bindToken stack token = .ok call → call.target = .builtin b →
              b.effect = .action action →
                (do rules.check; steps rules action b call : Run Sink Unit) u =
                  (.error fault, u)) := by
  rw [Run.frame_run, runText, Run.get_bind_apply] at h
  cases hsplit : Sequence.split .calls stack (Sequence.prepare w.player.axis text) with
  | error refused =>
      rw [hsplit] at h
      cases h
      exact .inl ⟨rfl, rfl⟩
  | ok tokens =>
      rw [hsplit, Run.bind_apply_ok (Run.liftM_apply _ w)] at h
      obtain ⟨before, token, after, calls, u, rfl, hbefore, htoken⟩ := runTokens_eq_error h
      refine .inr ⟨before, token, after, calls, u, rfl, hbefore, htoken, fun hplain => ?_⟩
      have hkept : v = u := eq_of_plain_failed hplain htoken
      subst hkept
      refine ⟨rfl, fun call b action hcall htarget heffect => ?_⟩
      have hsteps := runTokens_singleton_bound hcall htoken
      rwa [dispatch_steps htarget heffect] at hsteps

theorem run_failed_ceiling :
    ∃ fault v, (frame ⟨3, false⟩ 4).run [] "jump(2) ceil(1)" ((new .vertical).world ∅) =
        (.error fault, v) ∧
      v = (runTokens ⟨3, false⟩ (dispatch ⟨3, false⟩ (frame ⟨3, false⟩ 3)) [] ["jump(2)"]
        ((new .vertical).world ∅)).2 := by
  have hends : ((frame ⟨3, false⟩ 4).run [] "jump(2) ceil(1)"
      ((new .vertical).world ∅)).1.isOk = false := by
    decide +kernel
  have hjump : (runTokens ⟨3, false⟩ (dispatch ⟨3, false⟩ (frame ⟨3, false⟩ 3)) [] ["jump(2)"]
      ((new .vertical).world ∅)).1.isOk = true := by
    decide +kernel
  have hplain : (runTokens ⟨3, false⟩ (dispatch ⟨3, false⟩ (frame ⟨3, false⟩ 3)) [] ["jump(2)"]
      ((new .vertical).world ∅)).2.IsPlain [] "ceil(1)" := by
    decide +kernel
  have htokens : Sequence.split .calls [] (Sequence.prepare ((new .vertical).world ∅).player.axis
      "jump(2) ceil(1)") = .ok ["jump(2)", "ceil(1)"] := by
    rfl
  rcases hrun : (frame ⟨3, false⟩ 4).run [] "jump(2) ceil(1)" ((new .vertical).world ∅)
    with ⟨fault | calls, v⟩
  · refine ⟨fault, v, rfl, ?_⟩
    rcases run_failed hrun with ⟨hsplit, -⟩ |
      ⟨before, token, after, calls, u, hsplit, hbefore, htoken, hkept⟩
    · cases htokens.symm.trans hsplit
    · have heq := Except.ok.inj (htokens.symm.trans hsplit)
      rcases before with _ | ⟨first, _ | ⟨second, others⟩⟩
      · cases heq
        cases hbefore
        rw [htoken] at hjump
        cases hjump
      · cases heq
        rw [hbefore] at hplain ⊢
        exact (hkept hplain).1
      · simp at heq
  · rw [hrun] at hends
    cases hends

end Parkour.Engine
