import Parkour.Proofs.Engine.Upkeep

/-!
# Invariants of runs

A run makes only calls that it has bound itself. So what binding secures may be relied on
when a call is made: an invariant holds along every run if each single thing that such
calls do keeps it, and a run fails only with the faults of such things.
-/

namespace Parkour.Engine

open Parkour.Language
open Player (Coordinate)
open Report (Listener ListenerKind)

variable {σ α β : Type}

/-- From a world with `I` a computation leads to a world with `I`, and either to a result
with `P` or to a fault with `F`. -/
def Ensures (I : World σ → Prop) (F : Fault → Prop) (P : α → Prop) (x : Run σ α) : Prop :=
  ∀ w, I w →
    I (x w).2 ∧ (∀ a, (x w).1 = .ok a → P a) ∧ ∀ fault, (x w).1 = .error fault → F fault

/-- A call that satisfies `Made` solves for a velocity along the coordinate. -/
def Solves (Made : Call → Prop) (coordinate : Coordinate) : Prop :=
  ∃ call b aim, Made call ∧ call.target = .builtin b ∧
    b.effect = .wrapper (.solve aim coordinate)

/-- The token is one of those that a sequence is cut into before it runs. -/
def IsToken (stack : List String) (token : String) : Prop :=
  ∃ axis text tokens,
    Sequence.split .calls stack (Sequence.prepare axis text) = .ok tokens ∧ token ∈ tokens

/-- What a run does to an invariant when its calls satisfy `Made`. -/
structure Invariant [Audience σ] (Made : Call → Prop) (I : World σ → Prop) : Prop where
  /-- A token makes a call. -/
  bound : ∀ {w : World σ} {stack token call}, I w → IsToken stack token →
    w.bindToken stack token = .ok call → Made call
  /-- A call is made. -/
  call : ∀ {w : World σ} {call} stack, Made call → I w → I (w.tell (.call stack call))
  /-- A call that was made performs its action. -/
  act : ∀ {w v : World σ} {stack call b action}, Made call → call.target = .builtin b →
    b.effect = .action action → I (w.tell (.call stack call)) →
    perform action b call (w.tell (.call stack call)) = .ok v → I v
  /-- A listener comes. -/
  arm : ∀ {w : World σ} listener, I w → I (w.armed listener)
  /-- A listener goes. -/
  disarm : ∀ {w : World σ} kind, I w → I (w.disarmed kind)
  /-- A function that was called starts in a scope of its own. -/
  enter : ∀ {w : World σ} {call f}, Made call → call.target = .user f → I w →
    I { w with scope := callScope f call.arguments w.scope }
  /-- The scope from before the function comes back. -/
  leave : ∀ {w v : World σ}, I w → I v → I { v with scope := w.scope }
  /-- A solver makes a trial. -/
  trial : ∀ {w : World σ} {coordinate} velocity, Solves Made coordinate → I w →
    I (w.trial coordinate velocity)
  /-- A trial is over. -/
  absorb : ∀ {w v : World σ}, I w → I v → I (w.absorb v)
  /-- A solver sets the velocity that it has found. -/
  steer : ∀ {w : World σ} {coordinate} velocity, Solves Made coordinate → I w →
    I { w with player := w.player.setVelocity coordinate velocity }
  /-- Something is reported. -/
  report : ∀ {w : World σ} event, I w → I (w.emit event)

/-- The faults of a run when its calls satisfy `Made`. -/
structure Faults [Audience σ] (Made : Call → Prop) (I : World σ → Prop) (F : Fault → Prop) :
    Prop where
  interrupted : F .interrupted
  tooDeep : ∀ limit, F (.tooDeep limit)
  unsteerable : ∀ function, F (.unsteerable function)
  /-- A sequence cannot be cut into tokens. -/
  split : ∀ stack text, Blames F (Sequence.split .calls stack text)
  /-- A token makes no call. -/
  bind : ∀ {w : World σ} stack token, I w → Blames F (w.bindToken stack token)
  /-- A call cannot perform its action. -/
  act : ∀ {call b action} (w : World σ), Made call → call.target = .builtin b →
    b.effect = .action action → Blames F (perform action b call w)
  /-- A call cannot read the sequence that it runs. -/
  body : ∀ {call b wrapper}, Made call → call.target = .builtin b →
    b.effect = .wrapper wrapper → Blames F (call.arguments.requireText "sequence")
  /-- A call cannot read how often it repeats a sequence. -/
  count : ∀ {call b}, Made call → call.target = .builtin b → b.effect = .wrapper .again →
    Blames F (countOf call.arguments)
  /-- A call cannot read what it aims at. -/
  goal : ∀ {call b aim coordinate}, Made call → call.target = .builtin b →
    b.effect = .wrapper (.solve aim coordinate) → Blames F (goalOf aim call.arguments)
  /-- A call cannot set its listener up. -/
  listener : ∀ {call b watch} (w : World σ), Made call → call.target = .builtin b →
    b.effect = .wrapper (.watch watch) → Blames F (listenerOf w watch b call.arguments)

/-- Where all faults are allowed, there is nothing to show. -/
theorem faults_any [Audience σ] (Made : Call → Prop) (I : World σ → Prop) :
    Faults Made I fun _ => True where
  interrupted := trivial
  tooDeep _ := trivial
  unsteerable _ := trivial
  split _ _ _ _ := trivial
  bind _ _ _ _ _ := trivial
  act _ _ _ _ _ _ := trivial
  body _ _ _ _ _ := trivial
  count _ _ _ _ _ := trivial
  goal _ _ _ _ _ := trivial
  listener _ _ _ _ _ _ := trivial

/-! ## Computations -/

namespace Ensures

variable {I : World σ → Prop} {F : Fault → Prop} {P : α → Prop} {Q : β → Prop}

theorem ofPure {a : α} (h : P a) : Ensures I F P (pure a) := by
  intro w hw
  refine ⟨hw, ?_, nofun⟩
  rintro _ ⟨⟩
  exact h

theorem ofThrow {fault : Fault} (h : F fault) : Ensures I F P (throw fault : Run σ α) := by
  intro w hw
  refine ⟨hw, nofun, ?_⟩
  rintro _ ⟨⟩
  exact h

theorem bind {x : Run σ α} {f : α → Run σ β} (hx : Ensures I F P x)
    (hf : ∀ a, P a → Ensures I F Q (f a)) : Ensures I F Q (x >>= f) := by
  intro w hw
  obtain ⟨hafter, hresult, hfault⟩ := hx w hw
  rcases h : x w with ⟨fault | a, v⟩
  · rw [Run.bind_apply_error h]
    rw [h] at hafter hfault
    refine ⟨hafter, nofun, ?_⟩
    rintro _ ⟨⟩
    exact hfault fault rfl
  · rw [Run.bind_apply_ok h]
    rw [h] at hafter hresult
    exact hf a (hresult a rfl) v hafter

/-- What follows a check may rely on its outcome. -/
theorem bindExcept {e : Except Fault α} {f : α → Run σ β} (he : Blames F e)
    (hf : ∀ a, e = .ok a → Ensures I F Q (f a)) : Ensures I F Q (liftM e >>= f) := by
  cases e with
  | ok a => exact hf a rfl
  | error fault => exact ofThrow (he fault rfl)

/-- What follows a look at the world may rely on the invariant. -/
theorem bindGet {f : World σ → Run σ β} (hf : ∀ u, I u → Ensures I F Q (f u)) :
    Ensures I F Q (get >>= f) :=
  fun w hw => hf w hw w hw

theorem ofModify {change : World σ → World σ} (h : ∀ w, I w → I (change w)) :
    Ensures I F (fun _ => True) (modify change : Run σ PUnit) :=
  fun w hw => ⟨h w hw, fun _ _ => trivial, nofun⟩

theorem ofDiscard {x : Run σ α} (hx : Ensures I F P x) :
    Ensures I F (fun _ => True) (discard x) :=
  hx.bind fun _ _ => ofPure trivial

theorem ofRestoring {body : Run σ Unit} {restore : World σ → World σ}
    (hbody : Ensures I F (fun _ => True) body) (h : ∀ w, I w → I (restore w)) :
    Ensures I F (fun _ => True) (restoring body restore) := by
  intro w hw
  obtain ⟨hafter, hresult, hfault⟩ := hbody w hw
  rw [Run.restoring_apply]
  exact ⟨h _ hafter, hresult, hfault⟩

theorem ofForM {Made : Call → Prop} {again : Call → Run σ Unit}
    (h : ∀ call, Made call → Ensures I F (fun _ => True) (again call)) {calls : List Call}
    (hcalls : ∀ call ∈ calls, Made call) : Ensures I F (fun _ => True) (calls.forM again) := by
  induction calls with
  | nil => exact .ofPure trivial
  | cons call rest ih =>
      obtain ⟨hcall, hrest⟩ := List.forall_mem_cons.mp hcalls
      exact (h call hcall).bind fun _ _ => ih hrest

end Ensures

/-! ## Runs -/

/-- What both ways into a frame ensure. A sequence makes calls that satisfy `Made`. -/
structure Ensures.Frames (Made : Call → Prop) (I : World σ → Prop) (F : Fault → Prop)
    (inner : Frame σ) : Prop where
  run : ∀ stack text, Ensures I F (fun calls => ∀ call ∈ calls, Made call) (inner.run stack text)
  dispatch : ∀ stack call, Made call → Ensures I F (fun _ => True) (inner.dispatch stack call)

namespace Invariant

variable [Audience σ] {Made : Call → Prop} {I : World σ → Prop} {F : Fault → Prop}

theorem check (hF : Faults Made I F) (rules : Rules) : Blames F rules.check := by
  intro fault h
  unfold Rules.check at h
  split at h
  · cases h
    exact hF.interrupted
  · cases h

theorem runTokens (hI : Invariant Made I) (hF : Faults Made I F) (rules : Rules)
    {dispatch : List String → Call → Run σ Unit} {stack : List String}
    (hd : ∀ call, Made call → Ensures I F (fun _ => True) (dispatch stack call))
    {tokens : List String} (htokens : ∀ token ∈ tokens, IsToken stack token) :
    Ensures I F (fun calls => ∀ call ∈ calls, Made call)
      (runTokens rules dispatch stack tokens) := by
  induction tokens with
  | nil => exact .ofPure fun _ hmem => absurd hmem List.not_mem_nil
  | cons token rest ih =>
      obtain ⟨htoken, hrest⟩ := List.forall_mem_cons.mp htokens
      refine .bindExcept (check hF rules) fun _ _ => .bindGet fun u hu => ?_
      refine .bindExcept (hF.bind stack token hu) fun call hcall => ?_
      have hmade : Made call := hI.bound hu htoken hcall
      refine (hd call hmade).bind fun _ _ => (ih hrest).bind fun calls hcalls => .ofPure ?_
      exact List.forall_mem_cons.mpr ⟨hmade, hcalls⟩

theorem runText (hI : Invariant Made I) (hF : Faults Made I F) (rules : Rules)
    {dispatch : List String → Call → Run σ Unit} {stack : List String}
    (hd : ∀ call, Made call → Ensures I F (fun _ => True) (dispatch stack call))
    (text : String) :
    Ensures I F (fun calls => ∀ call ∈ calls, Made call)
      (runText rules dispatch stack text) := by
  refine .bindGet fun u _ => .bindExcept (hF.split stack _) fun tokens hsplit => ?_
  exact hI.runTokens hF rules hd fun token hmem => ⟨_, text, tokens, hsplit, hmem⟩

theorem replay (hF : Faults Made I F) (rules : Rules) {again : Call → Run σ Unit}
    (h : ∀ call, Made call → Ensures I F (fun _ => True) (again call)) {calls : List Call}
    (hcalls : ∀ call ∈ calls, Made call) (passes : Nat) :
    Ensures I F (fun _ => True) (replay rules again calls passes) := by
  induction passes with
  | zero => exact .ofPure trivial
  | succ passes ih =>
      refine .bindExcept (check hF rules) fun _ _ => (Ensures.ofForM h ?_).bind fun _ _ => ih
      exact fun call hmem => hcalls call (List.mem_filter.mp hmem).1

variable {inner : Frame σ} {stack : List String} {call : Call} {b : Builtin}

theorem runAgain (hF : Faults Made I F) (rules : Rules) (h : Ensures.Frames Made I F inner)
    (hmade : Made call) (htarget : call.target = .builtin b)
    (heffect : b.effect = .wrapper .again) :
    Ensures I F (fun _ => True) (runAgain rules inner stack b call.arguments) := by
  refine .bindExcept (hF.count hmade htarget heffect) fun count _ => ?_
  cases count with
  | zero => exact .ofPure trivial
  | succ more =>
      refine .bindExcept (hF.body hmade htarget heffect) fun body _ => ?_
      refine (h.run _ body).bind fun calls hcalls => ?_
      exact replay hF rules (h.dispatch _) hcalls more

theorem runUser (hI : Invariant Made I) (h : Ensures.Frames Made I F inner)
    {f : UserFunction} (hmade : Made call) (htarget : call.target = .user f) :
    Ensures I F (fun _ => True) (runUser inner stack f call.arguments) := by
  refine .bindGet fun u hu => .ofRestoring (.bind (P := fun _ => True) ?_ fun _ _ => ?_) ?_
  · exact .ofModify fun w hw => hI.enter hmade htarget hw
  · exact (h.run _ f.body).ofDiscard
  · exact fun w hw => hI.leave hu hw

theorem probe (hI : Invariant Made I) (h : Ensures.Frames Made I F inner)
    (child : List String) {coordinate : Coordinate} (hsolves : Solves Made coordinate)
    (velocity : Float) (body : String) :
    Ensures I F (fun _ => True) (probe inner child coordinate velocity body) := by
  intro w hw
  obtain ⟨hafter, -, hfault⟩ := h.run child body _ (hI.trial velocity hsolves hw)
  rw [Run.probe_apply]
  refine ⟨hI.absorb hw hafter, fun _ _ => trivial, fun fault houtcome => hfault fault ?_⟩
  cases hrun : (inner.run child body (w.trial coordinate velocity)).1 with
  | ok calls =>
      rw [hrun] at houtcome
      cases houtcome
  | error other =>
      rw [hrun] at houtcome
      cases houtcome
      rfl

theorem findVelocity (hI : Invariant Made I) (hF : Faults Made I F)
    (h : Ensures.Frames Made I F inner) (child : List String) {coordinate : Coordinate}
    (hsolves : Solves Made coordinate) (b : Builtin) (goal : Float) (body : String) :
    Ensures I F (fun _ => True) (findVelocity inner child coordinate b goal body) := by
  refine (hI.probe h _ hsolves _ _).bind fun atRest _ => ?_
  refine (hI.probe h _ hsolves _ _).bind fun atOne _ => ?_
  dsimp only
  split
  · exact Ensures.bind (.ofThrow (hF.unsteerable b.name)) fun _ (_ : True) => .ofPure trivial
  · exact .ofPure trivial

theorem runSolver (hI : Invariant Made I) (hF : Faults Made I F)
    (h : Ensures.Frames Made I F inner) {aim : Aim} {coordinate : Coordinate}
    (hmade : Made call) (htarget : call.target = .builtin b)
    (heffect : b.effect = .wrapper (.solve aim coordinate)) :
    Ensures I F (fun _ => True) (runSolver inner stack aim coordinate b call.arguments) := by
  have hsolves : Solves Made coordinate := ⟨call, b, aim, hmade, htarget, heffect⟩
  refine .bindExcept (hF.goal hmade htarget heffect) fun goal _ => ?_
  refine .bindExcept (hF.body hmade htarget heffect) fun body _ => ?_
  refine (hI.findVelocity hF h _ hsolves b goal body).bind fun velocity _ => ?_
  refine .bindGet fun before _ => .bind (P := fun _ => True) (.ofModify ?_) fun _ _ => ?_
  · exact fun w hw => hI.steer velocity hsolves (hI.report _ hw)
  refine .bindGet fun start _ => (h.run _ body).ofDiscard.bind fun _ _ => .ofModify ?_
  intro w hw
  unfold World.compared
  split
  · exact hI.report _ hw
  · exact hw

theorem runWatched (hI : Invariant Made I) (hF : Faults Made I F)
    (h : Ensures.Frames Made I F inner) {watch : Watch} (hmade : Made call)
    (htarget : call.target = .builtin b) (heffect : b.effect = .wrapper (.watch watch)) :
    Ensures I F (fun _ => True) (runWatched inner stack watch b call.arguments) := by
  refine .bindGet fun u _ => .bindExcept (hF.listener u hmade htarget heffect) fun listener _ => ?_
  refine .bindExcept (hF.body hmade htarget heffect) fun text _ => ?_
  refine .ofRestoring (.bind (P := fun _ => True) ?_ fun _ _ => (h.run _ text).ofDiscard) ?_
  · exact .ofModify fun w hw => hI.arm listener hw
  · exact fun w hw => hI.disarm listener.kind hw

/-- An action leads to a world with the invariant, or fails and leaves the world alone. -/
theorem action (hI : Invariant Made I) (hF : Faults Made I F) {action : Action} {w : World σ}
    (hmade : Made call) (htarget : call.target = .builtin b)
    (heffect : b.effect = .action action) (hw : I (w.tell (.call stack call))) :
    I (atomically (perform action b call) (w.tell (.call stack call))).2 ∧
      ∀ fault, (atomically (perform action b call) (w.tell (.call stack call))).1 =
        .error fault → F fault := by
  rw [Run.atomically_apply]
  cases h : perform action b call (w.tell (.call stack call)) with
  | ok v => exact ⟨hI.act hmade htarget heffect hw h, nofun⟩
  | error fault =>
      refine ⟨hw, ?_⟩
      rintro _ ⟨⟩
      exact hF.act _ hmade htarget heffect fault h

theorem dispatch (hI : Invariant Made I) (hF : Faults Made I F) (rules : Rules)
    (h : Ensures.Frames Made I F inner) (stack : List String) (hmade : Made call) :
    Ensures I F (fun _ => True) (dispatch rules inner stack call) := by
  unfold Engine.dispatch
  refine .bindExcept (check hF rules) fun _ _ w hw => ?_
  have htold : I (w.tell (.call stack call)) := hI.call stack hmade hw
  rw [Run.modify_bind_apply]
  cases htarget : call.target with
  | user f => exact hI.runUser h hmade htarget _ htold
  | sequence name body => exact (h.run _ body).ofDiscard _ htold
  | builtin b =>
      dsimp only
      cases heffect : b.effect with
      | action action =>
          obtain ⟨hafter, hfault⟩ := hI.action hF hmade htarget heffect htold
          exact ⟨hafter, fun _ _ => trivial, hfault⟩
      | wrapper wrapper =>
          cases wrapper with
          | solve aim coordinate => exact hI.runSolver hF h hmade htarget heffect _ htold
          | watch watch => exact hI.runWatched hF h hmade htarget heffect _ htold
          | again => exact runAgain hF rules h hmade htarget heffect _ htold

/-- Frames of every depth keep the invariant and have no other faults. -/
theorem frames (hI : Invariant Made I) (hF : Faults Made I F) (rules : Rules) (n : Nat) :
    Ensures.Frames Made I F (frame rules n) := by
  induction n with
  | zero =>
      constructor
      · intro stack text
        exact .ofThrow (hF.tooDeep rules.maxDepth)
      · intro stack call _
        exact .ofThrow (hF.tooDeep rules.maxDepth)
  | succ n ih =>
      constructor
      · intro stack text
        exact hI.runText hF rules (fun call => hI.dispatch hF rules ih stack) text
      · intro stack call
        exact hI.dispatch hF rules ih stack

end Invariant

end Parkour.Engine
