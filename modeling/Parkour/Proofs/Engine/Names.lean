import Parkour.Proofs.Engine.Bound
import Parkour.Proofs.Engine.History

/-!
# What names stand for

Only a call to `var` or `def` changes what a name stands for. A run without such calls
leaves the meaning of all names as it was, so a token read after it makes the same
call as a token read before it.
-/

namespace Parkour.Language

/-- Whether a call gives a name something to stand for. -/
def Call.declares (call : Call) : Bool :=
  match call.target with
  | .builtin b => b.effect = .action .assign || b.effect = .action .define
  | _ => false

/-- What is done once is to declare a name. -/
theorem Catalogue.once_iff :
    ∀ b ∈ Catalogue.all, b.once = true ↔
      b.effect = .action .assign ∨ b.effect = .action .define := by
  decide

end Parkour.Language

namespace Parkour.Engine

open Parkour.Language

/-- Whether a call that declares a name is made in a moment. Trials declare nothing. -/
def Moment.declares : Moment → Bool
  | .call _ made => made.declares
  | _ => false

/-- No name is declared in a history. -/
def NoneDeclares (history : History) : Prop :=
  ∀ moment ∈ history, moment.declares = false

/-- All names stand for the same in both worlds. -/
structure SameNames {σ : Type} (w v : World σ) : Prop where
  scope : v.scope = w.scope
  functions : v.functions = w.functions
  axis : v.player.axis = w.player.axis

namespace SameNames

variable {σ : Type} {u v w : World σ}

theorem refl (w : World σ) : SameNames w w := ⟨rfl, rfl, rfl⟩

theorem trans (huv : SameNames u v) (hvw : SameNames v w) : SameNames u w :=
  ⟨hvw.scope.trans huv.scope, hvw.functions.trans huv.functions, hvw.axis.trans huv.axis⟩

/-- A token makes the same call in both worlds. -/
theorem bindToken_eq (h : SameNames w v) (stack : List String) (token : String) :
    v.bindToken stack token = w.bindToken stack token := by
  unfold World.bindToken World.resolve World.unknown
  rw [h.scope, h.functions, h.axis]

end SameNames

/-- Of the calls that tokens make, those that declare a name are made once. -/
theorem isOnce_of_bindToken {σ : Type} {w : World σ} {stack : List String} {token : String}
    {call : Call} (h : w.bindToken stack token = .ok call) : call.isOnce = call.declares := by
  unfold Call.isOnce Call.declares
  cases htarget : call.target with
  | user f => rfl
  | sequence name body => rfl
  | builtin b =>
      have hmem := mem_catalogue_of_bindToken h htarget
      rw [Bool.eq_iff_iff, Catalogue.once_iff b hmem]
      simp

/-! ## Runs that declare nothing -/

theorem NoneDeclares.before {first second : History} (h : NoneDeclares second)
    (hgrows : first <+: second) : NoneDeclares first :=
  fun moment hmem => h moment (hgrows.subset hmem)

/-- A run keeps the meaning of all names unless it declares one. -/
def KeepsNames (w v : World History) : Prop :=
  NoneDeclares v.audience → NoneDeclares w.audience ∧ SameNames w v

theorem sameNames_of_deed {σ : Type} [Audience σ] {w v : World σ} {action : Action}
    (h : Deed w action v) (hassign : action ≠ .assign) (hdefine : action ≠ .define) :
    SameNames w v :=
  ⟨h.scope hassign, h.functions hdefine, h.axis⟩

theorem keepsNames_of_made {w v : World History} {stack : List String} {call : Call}
    {b : Builtin} {action : Action} (htarget : call.target = .builtin b)
    (heffect : b.effect = .action action)
    (h : Deed (w.tell (.call stack call)) action v) :
    KeepsNames (w.tell (.call stack call)) v := by
  intro hv
  have hw := hv.before (grows_of_deed h)
  have hcall : call.declares = false := hw (.call stack call) (List.mem_concat_self ..)
  unfold Call.declares at hcall
  rw [htarget] at hcall
  refine ⟨hw, sameNames_of_deed h ?_ ?_⟩
  · rintro rfl
    simp [heffect] at hcall
  · rintro rfl
    simp [heffect] at hcall

theorem upkeep_keepsNames : Upkeep KeepsNames where
  refl w hw := ⟨hw, .refl w⟩
  trans huv hvw hw := by
    obtain ⟨hv, hvw⟩ := hvw hw
    obtain ⟨hu, huv⟩ := huv hv
    exact ⟨hu, huv.trans hvw⟩
  call w stack call h := ⟨h.before (List.prefix_append ..), rfl, rfl, rfl⟩
  act htarget heffect h := keepsNames_of_made htarget heffect h
  watch _ _ _ _ h hv := by
    obtain ⟨hw, hnames⟩ := h hv
    exact ⟨hw, hnames.scope, hnames.functions, hnames.axis⟩
  scope s h hv := by
    obtain ⟨hw, hnames⟩ := h hv
    exact ⟨hw, rfl, hnames.functions, hnames.axis⟩
  trial _ _ _ hv := ⟨hv.before (List.prefix_append ..), rfl, rfl, rfl⟩
  steer w coordinate velocity hv := ⟨hv, rfl, rfl, (Player.Setting.velocity ..).steady.axis⟩
  report w event hv := ⟨hv.before (List.prefix_append ..), rfl, rfl, rfl⟩

end Parkour.Engine
