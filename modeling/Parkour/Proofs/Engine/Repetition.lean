import Mathlib.Data.List.Forall2
import Parkour.Engine.Session
import Parkour.Proofs.Engine.Names

/-!
# Repetition

A repeated sequence is read once, and its calls are made again in the later passes. As
long as no name is declared, that is the same as reading the sequence anew in every
pass.
-/

namespace Parkour.Engine

open Parkour.Language
open Report (Sink)

/-- Reads and runs a sequence as often as told. -/
def passes {σ : Type} (inner : Frame σ) (child : List String) (body : String) :
    Nat → Run σ Unit
  | 0 => return ()
  | n + 1 => do
      discard (inner.run child body)
      passes inner child body n

theorem keeps_passes {T : World History → World History → Prop} (hT : Upkeep T)
    {inner : Frame History} (h : Upkeep.Frames T inner) (child : List String)
    (body : String) (n : Nat) : Keeps T (passes inner child body n) := by
  induction n with
  | zero => exact hT.keeps_pure ()
  | succ n ih => exact hT.keeps_bind (keeps_discard (h.run child body)) fun _ => ih

section Replay

variable {rules : Rules} {w : World History} {child : List String}
  {made : List String → Call → Run History Unit}

/-- The calls are those that the tokens make in a world. -/
def Bound (w : World History) (child : List String) : List String → List Call → Prop :=
  List.Forall₂ fun token call => w.bindToken child token = .ok call

theorem runTokens_cons (hrules : rules.check = .ok ()) {v : World History} {token : String}
    {call : Call} (rest : List String) (h : v.bindToken child token = .ok call) :
    runTokens rules made child (token :: rest) v =
      (do
        made child call
        return call :: (← runTokens rules made child rest) : Run History (List Call)) v := by
  rw [runTokens, hrules, Run.bind_apply_ok (Run.liftM_apply _ v), Run.get_bind_apply, h,
    Run.bind_apply_ok (Run.liftM_apply _ v)]

theorem Bound.same {v : World History} {tokens : List String} {calls : List Call}
    (h : Bound v child tokens calls) (hnames : SameNames w v) : Bound w child tokens calls :=
  h.imp fun token call hcall => by rwa [← hnames.bindToken_eq]

/-- What is made of a call in a world in which it has been told of. -/
def MadeKeeping (made : List String → Call → Run History Unit) : Prop :=
  ∀ stack call w, KeepsNames (w.tell (.call stack call)) (made stack call w).2

theorem MadeKeeping.keeps (hmade : MadeKeeping made) (stack : List String) (call : Call) :
    Keeps KeepsNames (made stack call) :=
  fun w => upkeep_keepsNames.trans (upkeep_keepsNames.call w stack call) (hmade stack call w)

theorem MadeKeeping.declares (hmade : MadeKeeping made) {call : Call} {v : World History}
    (h : NoneDeclares (made child call v).2.audience) : call.declares = false :=
  (hmade child call v h).1 (.call child call) (List.mem_concat_self ..)

/-- The calls of a finished pass are bound in the world in which it started, and none
of them is made only once. -/
theorem bound_of_runTokens (hmade : MadeKeeping made) {tokens : List String}
    {calls : List Call} {v : World History}
    (h : runTokens rules made child tokens w = (.ok calls, v)) (hv : NoneDeclares v.audience) :
    Bound w child tokens calls ∧ ∀ call ∈ calls, call.isOnce = false := by
  induction tokens generalizing w calls with
  | nil =>
      cases h
      exact ⟨.nil, fun call hmem => absurd hmem List.not_mem_nil⟩
  | cons token rest ih =>
      obtain ⟨call, u, others, hcall, hu, hrest, rfl⟩ := Run.runTokens_eq_ok h
      obtain ⟨hbound, hothers⟩ := ih hrest
      have hkeep := upkeep_keepsNames.keeps_runTokens rules (hmade.keeps child) rest u
      rw [hrest] at hkeep
      have hu' : NoneDeclares (made child call w).2.audience := by
        rw [hu]
        exact (hkeep hv).1
      have hnames : SameNames w u := by
        have hstep := (hmade.keeps child call w hu').2
        rwa [hu] at hstep
      refine ⟨.cons hcall (hbound.same hnames), List.forall_mem_cons.mpr ⟨?_, hothers⟩⟩
      rw [isOnce_of_bindToken hcall]
      exact hmade.declares hu'

theorem discard_runTokens_cons (hrules : rules.check = .ok ()) {v : World History}
    {token : String} {call : Call} (rest : List String)
    (h : v.bindToken child token = .ok call) :
    discard (runTokens rules made child (token :: rest)) v =
      (made child call >>= fun _ => discard (runTokens rules made child rest)) v := by
  rw [Run.discard_apply, runTokens_cons hrules rest h]
  rcases hu : made child call v with ⟨fault | _, u⟩
  · rw [Run.bind_apply_error hu, Run.bind_apply_error hu, Except.map]
  · rw [Run.bind_apply_ok hu, Run.bind_apply_ok hu, Run.discard_apply]
    rcases hrest : runTokens rules made child rest u with ⟨fault | others, t⟩
    · rw [Run.bind_apply_error hrest, Except.map]
    · rw [Run.bind_apply_ok hrest]
      rfl

/-- Reading the tokens again makes the calls again. -/
theorem runTokens_eq_forM (hrules : rules.check = .ok ()) (hmade : MadeKeeping made)
    {tokens : List String} {calls : List Call} (hbound : Bound w child tokens calls)
    {v : World History} (hnames : SameNames w v)
    (hv : NoneDeclares (discard (runTokens rules made child tokens) v).2.audience) :
    discard (runTokens rules made child tokens) v = calls.forM (made child) v := by
  induction hbound generalizing v with
  | nil => rfl
  | @cons token call rest others hcall hrest ih =>
      rw [← hnames.bindToken_eq] at hcall
      rw [discard_runTokens_cons hrules rest hcall] at hv ⊢
      change _ = (made child call >>= fun _ => others.forM (made child)) v
      rcases hu : made child call v with ⟨fault | _, u⟩
      · rw [Run.bind_apply_error hu, Run.bind_apply_error hu]
      · rw [Run.bind_apply_ok hu] at hv
        rw [Run.bind_apply_ok hu, Run.bind_apply_ok hu]
        have hrun := upkeep_keepsNames.keeps_runTokens rules (hmade.keeps child) rest
        have hstep := hmade.keeps child call v
        rw [hu] at hstep
        exact ih (hnames.trans (hstep (keeps_discard hrun u hv).1).2) hv

end Replay

section Frames

variable {rules : Rules} {w : World History} {child : List String}

theorem madeKeeping_dispatch (hrules : rules.check = .ok ()) (more : Nat) :
    MadeKeeping (dispatch rules (frame rules more)) := by
  intro stack call w
  have hframes := upkeep_keepsNames.frames rules more
  exact upkeep_keepsNames.keeps_made rules hrules hframes stack call w

/-- In a world with the same names, the calls do what reading the sequence does. -/
def Recalled (inner : Frame History) (child : List String) (body : String)
    (calls : List Call) (w : World History) : Prop :=
  ∀ v, SameNames w v → NoneDeclares (discard (inner.run child body) v).2.audience →
    discard (inner.run child body) v = calls.forM (inner.dispatch child) v

/-- The calls of a finished pass are recalled. -/
theorem recalled_of_run (hrules : rules.check = .ok ()) {more : Nat} {body : String}
    {calls : List Call} {v : World History}
    (h : (frame rules more).run child body w = (.ok calls, v))
    (hv : NoneDeclares v.audience) :
    Recalled (frame rules more) child body calls w ∧
      ∀ call ∈ calls, call.isOnce = false := by
  cases more with
  | zero => cases h
  | succ more =>
      rw [Run.frame_run] at h
      have hmade := madeKeeping_dispatch hrules more
      obtain ⟨tokens, hsplit, h⟩ := Run.runText_eq_ok h
      obtain ⟨hbound, honce⟩ := bound_of_runTokens hmade h hv
      refine ⟨?_, honce⟩
      intro u hnames hu
      rw [← hnames.axis] at hsplit
      have hread : discard ((frame rules (more + 1)).run child body) u =
          discard (runTokens rules (dispatch rules (frame rules more)) child tokens) u := by
        rw [Run.discard_apply, Run.discard_apply, Run.frame_run, Run.runText_apply hsplit]
      rw [hread] at hu ⊢
      exact runTokens_eq_forM hrules hmade hbound hnames hu

end Frames

section Passes

variable {rules : Rules} {inner : Frame History} {child : List String} {body : String}
  {w : World History}

theorem passes_succ (n : Nat) :
    passes inner child body (n + 1) =
      discard (inner.run child body) >>= fun _ => passes inner child body n := rfl

/-- The later passes make the calls that reading the sequence again would make. -/
theorem replay_eq_passes (hrules : rules.check = .ok ()) {calls : List Call}
    (hframes : Upkeep.Frames KeepsNames inner) (hrecall : Recalled inner child body calls w)
    (honce : ∀ call ∈ calls, call.isOnce = false) (n : Nat) {v : World History}
    (hnames : SameNames w v) (hv : NoneDeclares (passes inner child body n v).2.audience) :
    replay rules (inner.dispatch child) calls n v = passes inner child body n v := by
  induction n generalizing v with
  | zero => rfl
  | succ n ih =>
      have hall : (calls.filter fun call => !call.isOnce) = calls := by
        rw [List.filter_eq_self]
        intro call hmem
        rw [honce call hmem, Bool.not_false]
      have hlater := keeps_passes upkeep_keepsNames hframes child body n
      have hread := keeps_discard (hframes.run child body) v
      rw [replay, hrules, Run.bind_apply_ok (Run.liftM_apply _ v), hall]
      rw [passes_succ] at hv ⊢
      rcases hu : discard (inner.run child body) v with ⟨fault | _, u⟩
      · rw [Run.bind_apply_error hu] at hv ⊢
        rw [hrecall v hnames (by rwa [hu])] at hu
        rw [Run.bind_apply_error hu]
      · rw [Run.bind_apply_ok hu] at hv ⊢
        rw [hu] at hread
        have hclean := (hlater u hv).1
        rw [hrecall v hnames (by rwa [hu])] at hu
        rw [Run.bind_apply_ok hu]
        exact ih (hnames.trans (hread hclean).2) hv

end Passes

/-- A repeated sequence is read anew in every pass, before its history. -/
theorem runAgain_eq_passes {rules : Rules} (hrules : rules.check = .ok ()) {more n : Nat}
    {stack : List String} {b : Builtin} {arguments : Arguments} {body : String}
    (hcount : countOf arguments = .ok n) (hbody : arguments.requireText "sequence" = .ok body)
    {w : World History}
    (hw : NoneDeclares (passes (frame rules more) (stack ++ [b.name]) body n w).2.audience) :
    runAgain rules (frame rules more) stack b arguments w =
      passes (frame rules more) (stack ++ [b.name]) body n w := by
  unfold runAgain
  rw [hcount, Run.bind_apply_ok (Run.liftM_apply _ w)]
  cases n with
  | zero => rfl
  | succ n =>
      dsimp only
      rw [hbody, Run.bind_apply_ok (Run.liftM_apply _ w)]
      have hframes := upkeep_keepsNames.frames rules more
      have hlater := keeps_passes upkeep_keepsNames hframes (stack ++ [b.name]) body n
      rw [passes_succ] at hw ⊢
      rcases hrun : (frame rules more).run (stack ++ [b.name]) body w with ⟨fault | calls, v⟩
      · have hread : discard ((frame rules more).run (stack ++ [b.name]) body) w =
            (.error fault, v) := by
          rw [Run.discard_apply, hrun, Except.map]
        rw [Run.bind_apply_error hrun, Run.bind_apply_error hread]
      · have hread : discard ((frame rules more).run (stack ++ [b.name]) body) w =
            (.ok ⟨⟩, v) := by
          rw [Run.discard_apply, hrun, Except.map]
        rw [Run.bind_apply_ok hread] at hw ⊢
        rw [Run.bind_apply_ok hrun]
        have hclean := (hlater v hw).1
        obtain ⟨hrecall, honce⟩ := recalled_of_run hrules hrun hclean
        have hnames := hframes.run (stack ++ [b.name]) body w
        rw [hrun] at hnames
        exact replay_eq_passes hrules hframes hrecall honce n (hnames hclean).2 hw

/-! ## Any audience -/

section

variable {σ : Type} [Audience σ]

theorem commutes_passes {K : Recast History σ} {inner : Frame σ} {inner' : Frame History}
    (h : Twins K inner inner') (child : List String) (body : String) (n : Nat) :
    Commutes K (passes inner child body n) (passes inner' child body n) := by
  induction n with
  | zero => exact .ofPure ()
  | succ n ih => exact (h.run child body).ofDiscard.bind fun _ => ih

/-- The passes in a world whose history has begun. -/
theorem audience_passes (rules : Rules) (more : Nat) (child : List String) (body : String)
    (n : Nat) (w : World History) :
    (passes (frame rules more) child body n w).2.audience =
      w.audience ++ historyOf (passes (frame rules more) child body n) w := by
  rw [run_eq_retold fun s => commutes_passes (twins_retelling rules more s) child body n]
  exact foldl_tell w.audience _

variable {rules : Rules} {more n : Nat} {stack : List String} {call : Call} {b : Builtin}
  {body : String}

/-- A call is made, and then a sequence is read and run as often as told. -/
def toldPasses (rules : Rules) (more n : Nat) (stack : List String) (b : Builtin)
    (call : Call) (body : String) : Run σ Unit := do
  rules.check
  modify fun u => u.tell (.call stack call)
  passes (frame rules more) (stack ++ [b.name]) body n

omit [Audience σ] in
/-- Before a history, a call that repeats a sequence reads it anew in every pass. -/
theorem history_repeat_eq_passes (htarget : call.target = .builtin b)
    (heffect : b.effect = .wrapper .again) (hcount : countOf call.arguments = .ok n)
    (hbody : call.arguments.requireText "sequence" = .ok body) {w : World History}
    (hw : NoneDeclares w.audience)
    (hnone : NoneDeclares
      (historyOf (passes (frame rules more) (stack ++ [b.name]) body n) w)) :
    dispatch rules (frame rules more) stack call w =
      toldPasses rules more n stack b call body w := by
  unfold toldPasses dispatch
  cases hrules : rules.check with
  | error fault => rfl
  | ok _ =>
      rw [Run.bind_apply_ok (Run.liftM_apply _ _), Run.bind_apply_ok (Run.liftM_apply _ _),
        Run.modify_bind_apply, Run.modify_bind_apply, htarget]
      dsimp only
      rw [heffect]
      refine runAgain_eq_passes hrules hcount hbody ?_
      rw [audience_passes]
      intro moment hmem
      rcases List.mem_append.mp hmem with hmem | hmem
      · rcases List.mem_append.mp hmem with hmem | hmem
        · exact hw moment hmem
        · cases List.mem_singleton.mp hmem
          simp [Moment.declares, Call.declares, htarget, heffect]
      · exact hnone moment hmem

/-- With any audience, a call that repeats a sequence reads it anew in every pass. -/
theorem repeat_eq_told_passes (htarget : call.target = .builtin b)
    (heffect : b.effect = .wrapper .again) (hcount : countOf call.arguments = .ok n)
    (hbody : call.arguments.requireText "sequence" = .ok body) {w : World σ}
    (hnone : NoneDeclares
      (historyOf (passes (frame rules more) (stack ++ [b.name]) body n) w)) :
    dispatch rules (frame rules more) stack call w =
      toldPasses rules more n stack b call body w := by
  have htold : ∀ s : σ, Commutes (retelling s)
      (toldPasses rules more n stack b call body : Run σ Unit)
      (toldPasses rules more n stack b call body) := by
    intro s
    refine (Commutes.ofExcept _).bind fun _ => (Commutes.ofModify ?_ ?_).bind fun _ => ?_
    · exact fun _ _ => trivial
    · exact fun v => ((retelling s).world_call v stack call).symm
    · exact commutes_passes (twins_retelling rules more s) _ body n
  rw [run_eq_retold (commutes_retelling_dispatch rules more stack call), run_eq_retold htold,
    history_repeat_eq_passes htarget heffect hcount hbody
      (fun _ hmem => absurd hmem List.not_mem_nil) hnone]

end

/-- A call that repeats a sequence does what reading and running the sequence in every
pass does, unless a pass declares a name. -/
theorem dispatch_repeat_eq_passes (rules : Rules) (more n : Nat) (stack : List String)
    (call : Call) (b : Builtin) (body : String) (w : World Sink)
    (htarget : call.target = .builtin b) (heffect : b.effect = .wrapper .again)
    (hcount : call.arguments.requireInteger "count" = .ok n)
    (hbody : call.arguments.requireText "sequence" = .ok body)
    (hnone : NoneDeclares
      (historyOf (passes (frame rules more) (stack ++ [b.name]) body n) w)) :
    dispatch rules (frame rules more) stack call w =
      (do
        rules.check
        passes (frame rules more) (stack ++ [b.name]) body n : Run Sink Unit) w := by
  have hcount : countOf call.arguments = .ok n := by
    have hpos : ¬(n : Int) < 0 := by omega
    rw [countOf, hcount]
    dsimp only [bind, Except.bind]
    rw [if_neg hpos]
    rfl
  rw [repeat_eq_told_passes htarget heffect hcount hbody hnone]
  unfold toldPasses
  cases rules.check with
  | error fault => rfl
  | ok _ => rfl

/-- The call `repeat(jump(2) outy, 3)`. -/
def jumpsCall (b : Builtin) : Call where
  target := .builtin b
  arguments := { values := [("sequence", .text "jump(2) outy"), ("count", .int 3)] }

theorem dispatch_repeat_eq_passes_jumps :
    ∃ b ∈ Catalogue.find? .vertical "repeat",
      dispatch ⟨1, false⟩ (frame ⟨1, false⟩ 1) [] (jumpsCall b) ((new .vertical).world ∅) =
        (do
          Rules.check ⟨1, false⟩
          passes (frame ⟨1, false⟩ 1) ([] ++ [b.name]) "jump(2) outy" 3 : Run Sink Unit)
            ((new .vertical).world ∅) := by
  refine ⟨(Catalogue.find? .vertical "repeat").get (by decide +kernel), by simp, ?_⟩
  refine dispatch_repeat_eq_passes ⟨1, false⟩ 1 3 [] _ _ _ _ rfl ?_ rfl rfl ?_
  · decide +kernel
  · unfold NoneDeclares
    decide +kernel

end Parkour.Engine
