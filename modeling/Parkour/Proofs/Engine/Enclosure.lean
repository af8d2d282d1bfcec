import Parkour.Proofs.Engine.Names
import Parkour.Proofs.Engine.Opening

/-!
# Calls and what encloses them

A history tells each call together with the calls around it. So it shows which names may
have changed: a function changes by a call to `def`, wherever it is made, and a variable
by a call to `var` that no function encloses, because the variables of its caller come
back after a function.
-/

namespace Parkour.Language

/-- A call performs this action. -/
def Call.Performs (call : Call) (action : Action) : Prop :=
  ∃ b, call.target = .builtin b ∧ b.effect = .action action

/-- The action that a call performs. -/
def Call.action? (call : Call) : Option Action :=
  match call.target with
  | .builtin b =>
      match b.effect with
      | .action action => some action
      | .wrapper _ => none
  | _ => none

theorem Call.action?_eq_some {call : Call} {action : Action} :
    call.action? = some action ↔ call.Performs action := by
  unfold action? Performs
  cases call.target with
  | builtin b =>
      cases heffect : b.effect with
      | action performed => simp [heffect]
      | wrapper wrapper => simp [heffect]
  | user f => simp
  | sequence name body => simp

instance (call : Call) (action : Action) : Decidable (call.Performs action) :=
  decidable_of_iff _ Call.action?_eq_some

instance (call : Call) : Decidable (∃ action, call.Performs action) :=
  decidable_of_iff (call.action?.isSome = true) <| by
    simp [Option.isSome_iff_exists, Call.action?_eq_some]

/-- A call gives this name a value. -/
def Call.Assigns (call : Call) (name : String) : Prop :=
  call.Performs .assign ∧
    ∃ text, call.arguments.requireText "name" = .ok text ∧ Text.trim text = name

/-- A call gives this name a function. -/
def Call.Defines (call : Call) (name : String) : Prop :=
  call.Performs .define ∧
    ∃ text scope f, call.arguments.requireText "signature" = .ok text ∧
      Signature.parse scope text = .ok f ∧ f.name = name

end Parkour.Language

namespace Parkour.Engine

open Parkour.Language
open Report (Listener ListenerKind)

/-! ## Names that an action changes -/

section

variable {σ : Type} [Audience σ] {w v : World σ} {action : Action} {b : Builtin} {call : Call}
  {name : String}

theorem scope_of_perform (hperforms : call.Performs action) (h : perform action b call w = .ok v)
    (hname : ¬call.Assigns name) : v.scope.get? name = w.scope.get? name := by
  by_cases hassign : action = .assign
  · subst hassign
    obtain ⟨text, htext, h⟩ := bind_eq_ok h
    dsimp only at h
    split at h
    · cases h
    · obtain ⟨value, -, h⟩ := bind_eq_ok h
      obtain ⟨number, -, h⟩ := bind_eq_ok h
      cases h
      refine Dictionary.get?_insert_of_ne _ _ ?_
      rintro rfl
      exact hname ⟨hperforms, text, htext, rfl⟩
  · rw [(perform_deed h).scope hassign]

theorem functions_of_perform (hperforms : call.Performs action)
    (h : perform action b call w = .ok v) (hname : ¬call.Defines name) :
    v.functions.get? name = w.functions.get? name := by
  by_cases hdefine : action = .define
  · subst hdefine
    obtain ⟨text, htext, h⟩ := bind_eq_ok h
    obtain ⟨f, hf, h⟩ := bind_eq_ok h
    split at h
    · cases h
    · obtain ⟨body, -, h⟩ := bind_eq_ok h
      cases h
      refine Dictionary.get?_insert_of_ne _ _ ?_
      rintro rfl
      exact hname ⟨hperforms, text, w.scope, f, htext, hf, rfl⟩
  · rw [(perform_deed h).functions hdefine]

end

/-! ## Calls in a history -/

/-- A call that was made, and the names of the calls around it. -/
structure Entry where
  stack : List String
  made : Call

/-- The call that is made in a moment. Calls in trials do not count. -/
def Moment.entry : Moment → Option Entry
  | .call stack made => some ⟨stack, made⟩
  | _ => none

/-- The calls in a history. -/
def callsOf (history : History) : List Entry :=
  history.filterMap Moment.entry

theorem callsOf_append (first second : History) :
    callsOf (first ++ second) = callsOf first ++ callsOf second :=
  List.filterMap_append

theorem callsOf_tried (history : History) : callsOf (history.map .tried) = [] := by
  simp [callsOf, List.filterMap_eq_nil_iff, Moment.entry]

/-- How many calls are around the function that a call runs. -/
def Entry.encloses (entry : Entry) : Option Nat :=
  match entry.made.target with
  | .user _ => some entry.stack.length
  | _ => none

/-- The calls that no function encloses. The first ones are made in a function that so
many calls are around, if in any. -/
def unenclosed : Option Nat → List Entry → List Call
  | _, [] => []
  | function, entry :: rest =>
      if function.any (· < entry.stack.length) then unenclosed function rest
      else entry.made :: unenclosed entry.encloses rest

/-- A function has ended when a call with no more calls around it is made. -/
theorem unenclosed_ended {function : Option Nat} {entries : List Entry} {length : Nat}
    (hfunction : ∀ n ∈ function, length ≤ n)
    (hfirst : ∀ entry ∈ entries.head?, entry.stack.length = length) :
    unenclosed function entries = unenclosed none entries := by
  cases entries with
  | nil => rfl
  | cons entry rest =>
      have hlength : entry.stack.length = length := hfirst entry rfl
      cases function with
      | none => rfl
      | some n =>
          have hended : ¬n < length := Nat.not_lt.mpr (hfunction n rfl)
          simp [unenclosed, hlength, hended]

theorem unenclosed_append {function : Option Nat} {first second : List Entry} {length : Nat}
    (hfunction : ∀ n ∈ function, length ≤ n)
    (hdeep : ∀ entry ∈ first, length ≤ entry.stack.length)
    (hsecond : ∀ entry ∈ second.head?, entry.stack.length = length) :
    unenclosed function (first ++ second) =
      unenclosed function first ++ unenclosed none second := by
  induction first generalizing function with
  | nil => exact unenclosed_ended hfunction hsecond
  | cons entry rest ih =>
      obtain ⟨hentry, hrest⟩ := List.forall_mem_cons.mp hdeep
      have hencloses : ∀ n ∈ entry.encloses, length ≤ n := by
        intro n hn
        unfold Entry.encloses at hn
        split at hn
        · cases hn
          exact hentry
        · cases hn
      rw [List.cons_append, unenclosed, unenclosed]
      split
      · exact ih hfunction hrest
      · rw [ih hencloses hrest, List.cons_append]

/-! ## What happens between the same calls -/

/-- What was told from `w` to `v`, inside of `length` calls. `Own` holds of the calls that
are made inside of no others than these. -/
structure Within (length : Nat) (Own : Call → Prop) (told : History) (w v : World History) :
    Prop where
  audience : v.audience = w.audience ++ told
  deep : ∀ entry ∈ callsOf told, length ≤ entry.stack.length
  first : ∀ entry ∈ (callsOf told).head?, entry.stack.length = length
  own : ∀ entry ∈ callsOf told, entry.stack.length = length → Own entry.made
  functions : ∀ name, (∀ entry ∈ callsOf told, ¬entry.made.Defines name) →
    v.functions.get? name = w.functions.get? name
  scope : ∀ name, (∀ made ∈ unenclosed none (callsOf told), ¬made.Assigns name) →
    v.scope.get? name = w.scope.get? name

/-- Something happens inside of `length` calls. -/
def Inside (length : Nat) (Own : Call → Prop) (w v : World History) : Prop :=
  ∃ told, Within length Own told w v

section

variable {length : Nat} {Own : Call → Prop} {u v w : World History}

/-- Where no call is made, the names stay as they are. -/
theorem inside_of_callsOf {told : History} (haudience : v.audience = w.audience ++ told)
    (hcalls : callsOf told = []) (hfunctions : v.functions = w.functions)
    (hscope : v.scope = w.scope) : Inside length Own w v := by
  refine ⟨told, haudience, ?_, ?_, ?_, fun _ _ => by rw [hfunctions], fun _ _ => by rw [hscope]⟩
  · rw [hcalls]
    exact fun _ hmem => absurd hmem List.not_mem_nil
  · rw [hcalls]
    exact fun _ hmem => absurd hmem (by simp)
  · rw [hcalls]
    exact fun _ hmem => absurd hmem List.not_mem_nil

theorem Inside.trans (huv : Inside length Own u v) (hvw : Inside length Own v w) :
    Inside length Own u w := by
  obtain ⟨told, h⟩ := huv
  obtain ⟨told', h'⟩ := hvw
  refine ⟨told ++ told', ?_, ?_, ?_, ?_, ?_, ?_⟩
  · rw [h'.audience, h.audience, List.append_assoc]
  · rw [callsOf_append]
    exact List.forall_mem_append.mpr ⟨h.deep, h'.deep⟩
  · rw [callsOf_append]
    cases hcalls : callsOf told with
    | nil => exact h'.first
    | cons entry rest =>
        have hfirst := h.first
        rwa [hcalls] at hfirst
  · rw [callsOf_append]
    exact List.forall_mem_append.mpr ⟨h.own, h'.own⟩
  · rw [callsOf_append]
    intro name hnone
    obtain ⟨hfirst, hsecond⟩ := List.forall_mem_append.mp hnone
    exact (h'.functions name hsecond).trans (h.functions name hfirst)
  · -- The second part starts outside of all functions that the first part ran.
    rw [callsOf_append, unenclosed_append (by simp) h.deep h'.first]
    intro name hnone
    obtain ⟨hfirst, hsecond⟩ := List.forall_mem_append.mp hnone
    exact (h'.scope name hsecond).trans (h.scope name hfirst)

theorem groundwork_inside : Groundwork (Inside length Own) where
  refl _ := inside_of_callsOf (List.append_nil _).symm rfl rfl rfl
  trans := Inside.trans
  trial _ _ _ := inside_of_callsOf rfl (callsOf_tried _) rfl rfl
  steer _ _ _ := inside_of_callsOf (List.append_nil _).symm rfl rfl rfl
  report _ event := inside_of_callsOf (tell_history _ (.event event)) rfl rfl rfl

/-- No call is made by an action. -/
theorem callsOf_deed {action : Action} (h : Deed w action v) :
    ∃ told, v.audience = w.audience ++ told ∧ callsOf told = [] := by
  obtain ⟨moments, htold, hdirect⟩ := h.told
  refine ⟨moments, by rw [htold, foldl_tell], ?_⟩
  refine List.filterMap_eq_nil_iff.mpr fun moment hmem => ?_
  cases moment with
  | tick r c p => rfl
  | event e => rfl
  | call stack made => exact (hdirect _ hmem).elim
  | tried moment => exact (hdirect _ hmem).elim

end

/-! ## What a call does -/

section

variable {Own : Call → Prop} {stack : List String} {call : Call} {u v w : World History}

/-- A call and what was told inside of it. -/
theorem inside_of_call (hown : Own call) (told : History)
    (haudience : v.audience = w.audience ++ .call stack call :: told)
    (hdeep : ∀ entry ∈ callsOf told, stack.length < entry.stack.length)
    (hfunctions : ∀ name, ¬call.Defines name →
      (∀ entry ∈ callsOf told, ¬entry.made.Defines name) →
        v.functions.get? name = w.functions.get? name)
    (hscope : ∀ name, ¬call.Assigns name →
      (∀ made ∈ unenclosed (Entry.encloses ⟨stack, call⟩) (callsOf told),
        ¬made.Assigns name) → v.scope.get? name = w.scope.get? name) :
    Inside stack.length Own w v := by
  have hcalls : callsOf (.call stack call :: told) = ⟨stack, call⟩ :: callsOf told := rfl
  refine ⟨.call stack call :: told, haudience, ?_, ?_, ?_, ?_, ?_⟩
  · rw [hcalls]
    refine List.forall_mem_cons.mpr ⟨Nat.le_refl _, ?_⟩
    exact fun entry hmem => Nat.le_of_lt (hdeep entry hmem)
  · rintro entry ⟨⟩
    rfl
  · rw [hcalls]
    refine List.forall_mem_cons.mpr ⟨fun _ => hown, fun entry hmem hlength => ?_⟩
    exact absurd hlength (Nat.ne_of_gt (hdeep entry hmem))
  · rw [hcalls]
    intro name hnone
    obtain ⟨hcall, htold⟩ := List.forall_mem_cons.mp hnone
    exact hfunctions name hcall htold
  · rw [hcalls]
    intro name hnone
    obtain ⟨hcall, htold⟩ := List.forall_mem_cons.mp hnone
    exact hscope name hcall htold

/-- What a call does that runs no function. -/
theorem inside_of_nested (hown : Own call) (hcall : Entry.encloses ⟨stack, call⟩ = none)
    (h : Inside (stack.length + 1) (fun _ => True) (w.tell (.call stack call)) v) :
    Inside stack.length Own w v := by
  obtain ⟨told, h⟩ := h
  refine inside_of_call hown told ?_ h.deep (fun name _ => h.functions name) ?_
  · rw [h.audience, World.tell, tell_history, List.append_assoc]
    rfl
  · rw [hcall]
    exact fun name _ => h.scope name

/-- What a call of a function does. -/
theorem inside_of_function (hown : Own call) {s : Scope}
    (h : Inside (stack.length + 1) (fun _ => True)
      { w.tell (.call stack call) with scope := s } v) :
    Inside stack.length Own w { v with scope := w.scope } := by
  obtain ⟨told, h⟩ := h
  refine inside_of_call hown told ?_ h.deep (fun name _ => h.functions name) fun _ _ _ => rfl
  change v.audience = _
  rw [h.audience]
  exact List.append_assoc ..

/-- What a call does that performs an action. -/
theorem inside_of_action {b : Builtin} {action : Action} (hown : Own call)
    (hperforms : call.target = .builtin b ∧ b.effect = .action action)
    (h : perform action b call (w.tell (.call stack call)) = .ok v) :
    Inside stack.length Own w v := by
  obtain ⟨told, haudience, hcalls⟩ := callsOf_deed (perform_deed h)
  have hcall : call.Performs action := ⟨b, hperforms⟩
  refine inside_of_call hown told ?_ ?_ ?_ ?_
  · rw [haudience, World.tell, tell_history, List.append_assoc]
    rfl
  · rw [hcalls]
    exact fun _ hmem => absurd hmem List.not_mem_nil
  · intro name hname _
    have hkept := functions_of_perform hcall h hname
    exact hkept
  · intro name hname _
    have hkept := scope_of_perform hcall h hname
    exact hkept

end

/-! ## Frames -/

section

variable {inner : Frame History} {stack : List String}

/-- A listener that comes and goes changes no name and makes no call. -/
theorem inside_of_watched {length : Nat} {Own : Call → Prop} {w v : World History}
    {listener : Listener} {kind : ListenerKind} (h : Inside length Own (w.armed listener) v) :
    Inside length Own w (v.disarmed kind) := by
  obtain ⟨told, h⟩ := h
  exact ⟨told, h.audience, h.deep, h.first, h.own, h.functions, h.scope⟩

theorem keeps_inside_dispatch {Own : Call → Prop} (rules : Rules)
    (h : Upkeep.Frames (Inside (stack.length + 1) fun _ => True) inner) {call : Call}
    (hown : Own call) : Keeps (Inside stack.length Own) (dispatch rules inner stack call) := by
  intro w
  unfold dispatch
  cases hrules : rules.check with
  | error fault =>
      rw [Run.bind_apply_error (Run.liftM_apply _ w)]
      exact groundwork_inside.refl w
  | ok _ =>
      rw [Run.bind_apply_ok (Run.liftM_apply _ w), Run.modify_bind_apply]
      cases htarget : call.target with
      | user f =>
          exact inside_of_function hown (keeps_discard (h.run (stack ++ [f.name]) f.body) _)
      | sequence name body =>
          refine inside_of_nested hown ?_ (keeps_discard (h.run (stack ++ [name]) body) _)
          simp [Entry.encloses, htarget]
      | builtin b =>
          have hcall : Entry.encloses ⟨stack, call⟩ = none := by
            simp [Entry.encloses, htarget]
          dsimp only
          cases heffect : b.effect with
          | action action =>
              dsimp only
              rw [Run.atomically_apply]
              split
              · next v hv => exact inside_of_action hown ⟨htarget, heffect⟩ hv
              · exact inside_of_nested hown hcall (groundwork_inside.refl _)
          | wrapper wrapper =>
              refine inside_of_nested hown hcall ?_
              cases wrapper with
              | solve aim coordinate => exact groundwork_inside.keeps_runSolver h stack aim _ b _ _
              | watch watch => exact groundwork_inside.runWatched h fun _ _ => inside_of_watched
              | again => exact groundwork_inside.keeps_runAgain rules h stack b _ _

end

/-- In frames of every depth, a run and a call stay inside of the calls around them. -/
theorem keeps_inside_frame (rules : Rules) (n : Nat) :
    (∀ (stack : List String) text,
      Keeps (Inside stack.length fun _ => True) ((frame rules n).run stack text)) ∧
      ∀ (Own : Call → Prop) (stack : List String) call, Own call →
        Keeps (Inside stack.length Own) ((frame rules n).dispatch stack call) := by
  induction n with
  | zero =>
      constructor
      · intro stack text
        exact groundwork_inside.keeps_throw _
      · intro Own stack call _
        exact groundwork_inside.keeps_throw _
  | succ n ih =>
      have hmade : ∀ (Own : Call → Prop) (stack : List String) call, Own call →
          Keeps (Inside stack.length Own) (dispatch rules (frame rules n) stack call) := by
        intro Own stack call hown
        -- The call opens frames right inside its own only, so the lengths fit.
        rw [← dispatch_only]
        refine keeps_inside_dispatch rules (frames_only groundwork_inside ?_ ?_) hown
        · intro child text hchild
          rw [← hchild]
          exact ih.1 child text
        · intro child call hchild
          rw [← hchild]
          exact ih.2 _ child call trivial
      constructor
      · intro stack text
        exact groundwork_inside.keeps_runText rules (fun call => hmade _ stack call trivial) text
      · exact hmade

end Parkour.Engine
