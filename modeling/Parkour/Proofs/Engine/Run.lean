import Parkour.Engine.Nesting

/-!
# Computations on a world

How the steps of a run act on the world that they start in. A fault ends the steps
that follow it, and the world stays as it is then.
-/

namespace Parkour.Engine.Run

open Parkour.Language

variable {σ α β : Type} {w v : World σ} {x : Run σ α} {f : α → Run σ β}

theorem get_bind_apply (f : World σ → Run σ β) (w : World σ) : (get >>= f) w = f w w := rfl

theorem modify_bind_apply (change : World σ → World σ) (f : PUnit → Run σ β) (w : World σ) :
    (modify change >>= f) w = f ⟨⟩ (change w) := rfl

theorem bind_apply_ok {a : α} (h : x w = (.ok a, v)) : (x >>= f) w = f a v := by
  simp only [bind, ExceptT.bind, ExceptT.mk, StateT.bind, h]
  rfl

theorem bind_apply_error {fault : Fault} (h : x w = (.error fault, v)) :
    (x >>= f) w = (.error fault, v) := by
  simp only [bind, ExceptT.bind, ExceptT.mk, StateT.bind, h]
  rfl

/-- A chain succeeds only if its first step does. -/
theorem bind_eq_ok {b : β} (h : (x >>= f) w = (.ok b, v)) :
    ∃ a u, x w = (.ok a, u) ∧ f a u = (.ok b, v) := by
  rcases hx : x w with ⟨fault | a, u⟩
  · rw [bind_apply_error hx] at h
    cases h
  · rw [bind_apply_ok hx] at h
    exact ⟨a, u, rfl, h⟩

/-- A chain fails in its first step or in what follows it. -/
theorem bind_eq_error {fault : Fault} (h : (x >>= f) w = (.error fault, v)) :
    x w = (.error fault, v) ∨ ∃ a u, x w = (.ok a, u) ∧ f a u = (.error fault, v) := by
  rcases hx : x w with ⟨refused | a, u⟩
  · rw [bind_apply_error hx] at h
    cases h
    exact .inl rfl
  · rw [bind_apply_ok hx] at h
    exact .inr ⟨a, u, rfl, h⟩

/-- What follows a step depends on what the step does in its world. -/
theorem bind_apply_congr {y : Run σ α} (h : x w = y w) : (x >>= f) w = (y >>= f) w := by
  rcases hy : y w with ⟨fault | a, v⟩
  · rw [bind_apply_error hy, bind_apply_error (h.trans hy)]
  · rw [bind_apply_ok hy, bind_apply_ok (h.trans hy)]

theorem discard_apply (x : Run σ α) (w : World σ) :
    discard x w = ((x w).1.map fun _ => ⟨⟩, (x w).2) := by
  change (x >>= fun _ => (pure ⟨⟩ : Run σ PUnit)) w = _
  rcases h : x w with ⟨_ | a, v⟩
  · rw [bind_apply_error h]
    rfl
  · rw [bind_apply_ok h]
    rfl

theorem discard_eq_error {fault : Fault} (h : discard x w = (.error fault, v)) :
    x w = (.error fault, v) := by
  rcases bind_eq_error h with hx | ⟨a, u, -, h⟩
  · exact hx
  · cases h

theorem restoring_apply (body : Run σ Unit) (restore : World σ → World σ) (w : World σ) :
    restoring body restore w = ((body w).1, restore (body w).2) := rfl

theorem liftM_apply (e : Except Fault α) (w : World σ) :
    (liftM e : Run σ α) w = (e, w) := by
  cases e <;> rfl

theorem liftM_bind_eq_ok {e : Except Fault α} {b : β}
    (h : ((liftM e : Run σ α) >>= f) w = (.ok b, v)) :
    ∃ a, e = .ok a ∧ f a w = (.ok b, v) := by
  obtain ⟨a, u, he, h⟩ := bind_eq_ok h
  rw [liftM_apply] at he
  cases he
  exact ⟨a, rfl, h⟩

theorem liftM_bind_eq_error {e : Except Fault α} {fault : Fault}
    (h : ((liftM e : Run σ α) >>= f) w = (.error fault, v)) :
    v = w ∨ ∃ a, e = .ok a ∧ f a w = (.error fault, v) := by
  rcases bind_eq_error h with he | ⟨a, u, he, h⟩
  · rw [liftM_apply] at he
    exact .inl (Prod.mk.inj he).2.symm
  · rw [liftM_apply] at he
    cases he
    exact .inr ⟨a, rfl, h⟩

theorem atomically_apply (change : World σ → Except Fault (World σ)) (w : World σ) :
    atomically change w = match change w with
      | .ok v => (.ok ⟨⟩, v)
      | .error fault => (.error fault, w) := by
  unfold atomically
  rw [get_bind_apply]
  cases h : change w with
  | ok v => rw [bind_apply_ok (liftM_apply _ w)]; rfl
  | error fault => rw [bind_apply_error (liftM_apply _ w)]

theorem probe_apply [Audience σ] (inner : Frame σ) (child : List String)
    (coordinate : Player.Coordinate) (velocity : Float) (body : String) (w : World σ) :
    probe inner child coordinate velocity body w =
      ((inner.run child body (w.trial coordinate velocity)).1.map fun _ =>
          (inner.run child body (w.trial coordinate velocity)).2.player.position coordinate -
            (w.trial coordinate velocity).player.position coordinate,
        w.absorb (inner.run child body (w.trial coordinate velocity)).2) := by
  unfold probe
  rw [get_bind_apply]
  rcases inner.run child body (w.trial coordinate velocity) with ⟨_ | calls, after⟩
  · rfl
  · rfl

/-- A text that can be split runs as its tokens do. -/
theorem runText_apply {rules : Rules} {made : List String → Call → Run σ Unit}
    {stack : List String} {text : String} {tokens : List String}
    (h : Sequence.split .calls stack (Sequence.prepare w.player.axis text) = .ok tokens) :
    runText rules made stack text w = runTokens rules made stack tokens w := by
  rw [runText, get_bind_apply, h, bind_apply_ok (liftM_apply _ w)]

theorem runText_eq_ok {rules : Rules} {made : List String → Call → Run σ Unit}
    {stack : List String} {text : String} {calls : List Call}
    (h : runText rules made stack text w = (.ok calls, v)) :
    ∃ tokens, Sequence.split .calls stack (Sequence.prepare w.player.axis text) = .ok tokens ∧
      runTokens rules made stack tokens w = (.ok calls, v) := by
  rw [runText, get_bind_apply] at h
  exact liftM_bind_eq_ok h

/-- A pass over tokens succeeds only if the first one makes a call that succeeds. -/
theorem runTokens_eq_ok {rules : Rules} {made : List String → Call → Run σ Unit}
    {stack : List String} {token : String} {rest : List String} {calls : List Call}
    (h : runTokens rules made stack (token :: rest) w = (.ok calls, v)) :
    ∃ call u others, w.bindToken stack token = .ok call ∧ made stack call w = (.ok ⟨⟩, u) ∧
      runTokens rules made stack rest u = (.ok others, v) ∧ calls = call :: others := by
  obtain ⟨_, -, h⟩ := liftM_bind_eq_ok h
  rw [get_bind_apply] at h
  obtain ⟨call, hcall, h⟩ := liftM_bind_eq_ok h
  obtain ⟨_, u, hmade, h⟩ := bind_eq_ok h
  obtain ⟨others, t, hrest, h⟩ := bind_eq_ok h
  cases h
  exact ⟨call, u, others, hcall, hmade, hrest, rfl⟩

theorem frame_run [Audience σ] (rules : Rules) (more : Nat) (stack : List String)
    (text : String) :
    (frame rules (more + 1)).run stack text =
      (runText rules (dispatch rules (frame rules more)) stack text : Run σ (List Call)) := rfl

section Watched

variable {inner : Frame σ} {stack : List String} {watch : Watch} {b : Builtin}
  {arguments : Arguments} {listener : Report.Listener} {body : String} {fault : Fault}

/-- A watched sequence runs with the listener and leaves without it. -/
theorem runWatched_apply (hl : listenerOf w watch b arguments = .ok listener)
    (hb : arguments.requireText "sequence" = .ok body) :
    runWatched inner stack watch b arguments w =
      ((discard (inner.run (stack ++ [b.name]) body) (w.armed listener)).1,
        (discard (inner.run (stack ++ [b.name]) body) (w.armed listener)).2.disarmed
          listener.kind) := by
  unfold runWatched
  rw [get_bind_apply, hl, bind_apply_ok (liftM_apply _ w), hb, bind_apply_ok (liftM_apply _ w)]
  rfl

theorem runWatched_apply_unset (hl : listenerOf w watch b arguments = .error fault) :
    runWatched inner stack watch b arguments w = (.error fault, w) := by
  unfold runWatched
  rw [get_bind_apply, hl, bind_apply_error (liftM_apply _ w)]

theorem runWatched_apply_unread (hl : listenerOf w watch b arguments = .ok listener)
    (hb : arguments.requireText "sequence" = .error fault) :
    runWatched inner stack watch b arguments w = (.error fault, w) := by
  unfold runWatched
  rw [get_bind_apply, hl, bind_apply_ok (liftM_apply _ w), hb,
    bind_apply_error (liftM_apply _ w)]

end Watched

end Parkour.Engine.Run
