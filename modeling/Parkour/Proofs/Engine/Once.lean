import Parkour.Proofs.Engine.Enclosure
import Parkour.Proofs.Engine.Repetition

/-!
# What is done once

The first pass of a repeated sequence reads it, and the later ones make its calls again,
but not those to `var` and `def`. A call that opens a sequence of its own runs it anew
each time. So the later passes leave the names alone unless such a call declares one.
-/

namespace Parkour.Engine

open Parkour.Language
open Report (Sink)

section

variable {rules : Rules} {more n : Nat} {child stack : List String} {body : String}
  {calls : List Call} {call : Call} {b : Builtin} {w v : World History}

/-- The calls of a finished pass are made once if they declare a name. -/
theorem isOnce_of_runTokens {made : List String → Call → Run History Unit}
    {tokens : List String} (h : runTokens rules made child tokens w = (.ok calls, v)) :
    ∀ call ∈ calls, call.isOnce = call.declares := by
  induction tokens generalizing w calls with
  | nil =>
      cases h
      exact fun call hmem => absurd hmem List.not_mem_nil
  | cons token rest ih =>
      obtain ⟨call, u, others, hcall, -, hrest, rfl⟩ := Run.runTokens_eq_ok h
      exact List.forall_mem_cons.mpr ⟨isOnce_of_bindToken hcall, ih hrest⟩

theorem isOnce_of_run (h : (frame rules more).run child body w = (.ok calls, v)) :
    ∀ call ∈ calls, call.isOnce = call.declares := by
  cases more with
  | zero => cases h
  | succ more =>
      rw [Run.frame_run] at h
      obtain ⟨tokens, -, h⟩ := Run.runText_eq_ok h
      exact isOnce_of_runTokens h

/-- The later passes make no call that declares a name, unless inside of their calls. -/
theorem inside_of_replay (rules : Rules) (more : Nat) (child : List String)
    (hcalls : ∀ call ∈ calls, call.isOnce = call.declares) (n : Nat) (w : World History) :
    Inside child.length (fun made => made.declares = false) w
      (replay rules ((frame rules more).dispatch child) calls n w).2 := by
  refine groundwork_inside.keeps_replay rules (fun call hmem honce => ?_) n w
  rw [hcalls call hmem] at honce
  exact (keeps_inside_frame rules more).2 _ child call honce

/-- A repeated sequence runs once, and its calls are made again in the later passes. -/
theorem repeat_eq_ok (htarget : call.target = .builtin b) (heffect : b.effect = .wrapper .again)
    (hcount : countOf call.arguments = .ok (n + 1))
    (hbody : call.arguments.requireText "sequence" = .ok body)
    (h : dispatch rules (frame rules more) stack call w = (.ok ⟨⟩, v)) :
    ∃ calls u,
      (frame rules more).run (stack ++ [b.name]) body (w.tell (.call stack call)) =
        (.ok calls, u) ∧
      replay rules ((frame rules more).dispatch (stack ++ [b.name])) calls n u =
        (.ok ⟨⟩, v) := by
  obtain ⟨_, -, h⟩ := Run.liftM_bind_eq_ok h
  rw [Run.modify_bind_apply, htarget] at h
  dsimp only at h
  rw [heffect] at h
  obtain ⟨count, hn, h⟩ := Run.liftM_bind_eq_ok h
  cases hcount.symm.trans hn
  obtain ⟨text, htext, h⟩ := Run.liftM_bind_eq_ok h
  cases hbody.symm.trans htext
  obtain ⟨calls, u, hrun, h⟩ := Run.bind_eq_ok h
  exact ⟨calls, u, hrun, h⟩

end

/-- A sequence runs after a call was told of as it runs before its history. -/
theorem run_after_call (rules : Rules) (more : Nat) (stack child : List String) (call : Call)
    (body : String) (w : World Sink) :
    (frame rules more).run child body (w.hushed.tell (.call stack call)) =
      (((frame rules more).run child body w.hushed).1,
        { ((frame rules more).run child body w.hushed).2 with
          audience :=
            .call stack call :: historyOf ((frame rules more).run child body) w }) := by
  rw [run_eq_retold fun s => (twins_retelling rules more s).run child body]
  refine congrArg (Prod.mk _) ?_
  dsimp only [Recast.world, retelling]
  rw [foldl_tell]
  rfl

/-- Repeating a sequence `n` times does what repeating it once does, and then makes the
calls of the later passes. The sequence's own calls to `var` and `def` are not among
them. So a function is the one from the first pass if no later call defines its name, and
a variable has its value from the first pass if no later call assigns it, apart from those
that a function encloses. -/
theorem dispatch_repeat_once (rules : Rules) (more n : Nat) (stack : List String)
    (b : Builtin) (many once : Call) (body : String) (w v u : World Sink)
    (heffect : b.effect = .wrapper .again) (hmany : many.target = .builtin b)
    (honce : once.target = .builtin b)
    (hbody : many.arguments.requireText "sequence" = .ok body)
    (hbody' : once.arguments.requireText "sequence" = .ok body) (hn : 0 < n)
    (hcount : countOf many.arguments = .ok n) (hcount' : countOf once.arguments = .ok 1)
    (hv : dispatch rules (frame rules more) stack many w = (.ok ⟨⟩, v))
    (hu : dispatch rules (frame rules more) stack once w = (.ok ⟨⟩, u)) :
    ∃ first later : History,
      historyOf (dispatch rules (frame rules more) stack once) w =
        .call stack once :: first ∧
      historyOf (dispatch rules (frame rules more) stack many) w =
        .call stack many :: (first ++ later) ∧
      (∀ entry ∈ callsOf later, entry.stack.length = stack.length + 1 →
        entry.made.declares = false) ∧
      (∀ name, (∀ entry ∈ callsOf later, ¬entry.made.Defines name) →
        v.functions.get? name = u.functions.get? name) ∧
      ∀ name, (∀ made ∈ unenclosed none (callsOf later), ¬made.Assigns name) →
        v.scope.get? name = u.scope.get? name := by
  obtain ⟨n, rfl⟩ : ∃ k, n = k + 1 := ⟨n - 1, by omega⟩
  rw [run_eq_retold (commutes_retelling_dispatch rules more stack many)] at hv
  rw [run_eq_retold (commutes_retelling_dispatch rules more stack once)] at hu
  unfold historyOf
  rcases hmade : dispatch rules (frame rules more) stack many w.hushed with ⟨outcome, v'⟩
  rcases hmade' : dispatch rules (frame rules more) stack once w.hushed with ⟨outcome', u'⟩
  rw [hmade] at hv
  rw [hmade'] at hu
  cases hv
  cases hu
  obtain ⟨calls, t, hrun, hreplay⟩ := repeat_eq_ok hmany heffect hcount hbody hmade
  obtain ⟨calls', t', hrun', hreplay'⟩ := repeat_eq_ok honce heffect hcount' hbody' hmade'
  -- A single pass has no later ones: it ends in the world after the first pass.
  cases hreplay'
  have hlater := inside_of_replay rules more (stack ++ [b.name]) (isOnce_of_run hrun) n t
  rw [hreplay, List.length_append, List.length_singleton] at hlater
  obtain ⟨later, hlater⟩ := hlater
  -- Both first passes are the run of the sequence before its history.
  rw [run_after_call] at hrun hrun'
  obtain ⟨-, rfl⟩ := Prod.mk.inj hrun
  obtain ⟨-, rfl⟩ := Prod.mk.inj hrun'
  refine ⟨historyOf ((frame rules more).run (stack ++ [b.name]) body) w, later, rfl, ?_,
    hlater.own, hlater.functions, hlater.scope⟩
  exact hlater.audience

/-- The call `repeat(body, count)`. -/
def repeatCall (b : Builtin) (body : String) (count : Int) : Call where
  target := .builtin b
  arguments := { values := [("sequence", .text body), ("count", .int count)] }

/-- Makes the call `repeat(body, count)`, which no other call encloses. -/
def repeated {σ : Type} [Audience σ] (b : Builtin) (body : String) (count : Int) :
    Run σ Unit :=
  dispatch ⟨64, false⟩ (frame ⟨64, false⟩ 64) [] (repeatCall b body count)

theorem dispatch_repeat_once_own :
    ∃ b ∈ Catalogue.find? .vertical "repeat",
      let w := (new .vertical).world (Dictionary.ofList [("p", .float 0)])
      ∃ v u, repeated b "var(p, p + 1) outy" 2 w = (.ok ⟨⟩, v) ∧
        repeated b "var(p, p + 1) outy" 1 w = (.ok ⟨⟩, u) ∧
        ∃ first later : History,
          historyOf (repeated b "var(p, p + 1) outy" 1) w =
            .call [] (repeatCall b "var(p, p + 1) outy" 1) :: first ∧
          historyOf (repeated b "var(p, p + 1) outy" 2) w =
            .call [] (repeatCall b "var(p, p + 1) outy" 2) :: (first ++ later) ∧
          (∀ entry ∈ callsOf later, entry.stack.length = 1 → entry.made.declares = false) ∧
          (∀ name, (∀ entry ∈ callsOf later, ¬entry.made.Defines name) →
            v.functions.get? name = u.functions.get? name) ∧
          ∀ name, (∀ made ∈ unenclosed none (callsOf later), ¬made.Assigns name) →
            v.scope.get? name = u.scope.get? name := by
  refine ⟨(Catalogue.find? .vertical "repeat").get (by decide +kernel), by simp, ?_⟩
  generalize hb : (Catalogue.find? .vertical "repeat").get _ = b
  intro w
  have heffect : b.effect = .wrapper .again := by
    rw [← hb]
    decide +kernel
  have hruns : (repeated b "var(p, p + 1) outy" 2 w).1.isOk = true ∧
      (repeated b "var(p, p + 1) outy" 1 w).1.isOk = true := by
    rw [← hb]
    decide +kernel
  rcases hv : repeated b "var(p, p + 1) outy" 2 w with ⟨_ | _, v⟩
  · rw [hv] at hruns
    cases hruns.1
  · rcases hu : repeated b "var(p, p + 1) outy" 1 w with ⟨_ | _, u⟩
    · rw [hu] at hruns
      cases hruns.2
    · refine ⟨v, u, rfl, rfl, ?_⟩
      exact dispatch_repeat_once ⟨64, false⟩ 64 2 [] b _ _ "var(p, p + 1) outy" w v u heffect
        rfl rfl rfl rfl (by decide) rfl rfl hv hu

/-- A repeated sequence that repeats another one can assign in every pass. -/
theorem dispatch_repeat_nested_assigns :
    ∃ b ∈ Catalogue.find? .vertical "repeat", ∀ count ∈ [(1 : Int), 2],
      let w := (new .vertical).world (Dictionary.ofList [("p", .float 0)])
      let made := repeated b "repeat(var(p, p + 1), 1)" count w
      made.1.isOk = true ∧
        (made.2.scope.get? "p").bind Value.number? = some (Number.ofWhole count) := by
  refine ⟨(Catalogue.find? .vertical "repeat").get (by decide +kernel), by simp, ?_⟩
  decide +kernel

end Parkour.Engine
