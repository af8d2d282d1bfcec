import Parkour.Engine.Session
import Parkour.Proofs.Engine.Upkeep

/-!
# What a run leaves in the scope

The variables belong to the caller. A run keeps all their names, and those that it
adds or changes are identifiers that hold numbers. A call of a function leaves the
variables as they were.
-/

namespace Parkour.Language

/-- How a run may change the variables. -/
structure Footprint (before after : Scope) : Prop where
  /-- No name goes away. -/
  kept : ∀ name, (before.get? name).isSome → (after.get? name).isSome
  /-- What is new or has changed is an identifier with a number. -/
  changed : ∀ name, after.get? name ≠ before.get? name →
    Text.isIdentifier name = true ∧ ∃ v, after.get? name = some (.float v)

namespace Footprint

variable {first second third scope : Scope}

theorem refl (scope : Scope) : Footprint scope scope where
  kept _ h := h
  changed _ h := absurd rfl h

theorem trans (h : Footprint first second) (h' : Footprint second third) :
    Footprint first third where
  kept name held := h'.kept name (h.kept name held)
  changed name hne := by
    by_cases hlast : third.get? name = second.get? name
    · -- The later run left this name alone, so the earlier one changed it.
      rw [hlast] at hne ⊢
      exact h.changed name hne
    · exact h'.changed name hlast

theorem insert (scope : Scope) {name : String} (h : Text.isIdentifier name = true) (v : Float) :
    Footprint scope (scope.insert name (.float v)) where
  kept asked held := by
    by_cases heq : asked = name
    · subst heq
      rw [Dictionary.get?_insert_self]
      rfl
    · rwa [Dictionary.get?_insert_of_ne _ _ heq]
  changed asked hne := by
    by_cases heq : asked = name
    · subst heq
      exact ⟨h, v, Dictionary.get?_insert_self ..⟩
    · exact absurd (Dictionary.get?_insert_of_ne _ _ heq) hne

end Footprint

end Parkour.Language

namespace Parkour.Engine

open Parkour.Language

variable {σ : Type} [Audience σ]

theorem footprint_of_deed {action : Action} {w v : World σ} (h : Deed w action v) :
    Footprint w.scope v.scope := by
  cases h with
  | play n c => exact .refl _
  | adjust p _ => exact .refl _
  | define f => exact .refl _
  | assign name v hname => exact .insert _ hname v
  | report events =>
      obtain ⟨audience, hevents⟩ := foldl_emit events w
      rw [hevents]
      exact .refl _

/-- Only calls to `var` reach the variables, and those of a function are put back. -/
theorem upkeep_footprint : Upkeep fun w v : World σ => Footprint w.scope v.scope where
  refl _ := .refl _
  trans := .trans
  call _ _ _ := .refl _
  act _ _ hdeed := footprint_of_deed hdeed
  watch _ _ _ _ h := h
  scope _ _ := .refl _
  trial _ _ _ := .refl _
  steer _ _ _ := .refl _
  report _ _ := .refl _

/-- A call of a function leaves the variables as they were, whatever its outcome is. -/
theorem scope_dispatch_user (rules : Rules) (inner : Frame σ) (stack : List String)
    {call : Call} {f : UserFunction} (htarget : call.target = .user f) (w : World σ) :
    (dispatch rules inner stack call w).2.scope = w.scope := by
  unfold dispatch
  cases rules.check with
  | error fault => rfl
  | ok _ =>
      rw [Run.bind_apply_ok (Run.liftM_apply _ w), Run.modify_bind_apply, htarget]
      rfl

/-- A run keeps all variables, and those that it adds or changes are identifiers with
numbers. The calls of functions in it change no variable. -/
theorem run_footprint (rules : Rules) (more : Nat) (stack : List String) (text : String)
    (w : World σ) :
    Footprint w.scope ((frame rules more).run stack text w).2.scope ∧
      ∀ (depth : Nat) (inside : List String) (call : Call) (f : UserFunction) (u : World σ),
        call.target = .user f →
          ((frame rules depth).dispatch inside call u).2.scope = u.scope := by
  constructor
  · exact (upkeep_footprint.frames rules more).run stack text w
  · intro depth inside call f u htarget
    cases depth with
    | zero => rfl
    | succ depth => exact scope_dispatch_user rules (frame rules depth) inside htarget u

/-- A call of a function that gives its parameter another value and then fails. -/
def strayCall : Call where
  target := .user
    { name := "stray"
      parameters := [{ name := "n", kind := .positionalOrKeyword, type := .int }]
      body := "var(n, 9) var(m, n) boo" }
  arguments := { values := [("n", .int 2)] }

theorem run_footprint_stray :
    let w := (new .vertical).world (Dictionary.ofList [("n", .float 7)])
    Footprint w.scope ((frame ⟨1, false⟩ 1).run [] "var(m, n + 1) boo" w).2.scope ∧
      ((frame ⟨1, false⟩ 2).dispatch [] strayCall w).2.scope = w.scope := by
  intro w
  have hrun := run_footprint ⟨1, false⟩ 1 [] "var(m, n + 1) boo" w
  exact ⟨hrun.1, hrun.2 2 [] strayCall _ w rfl⟩

end Parkour.Engine
