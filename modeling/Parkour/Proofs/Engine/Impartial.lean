import Parkour.Proofs.Engine.Names

/-!
# What decides whether an action succeeds

An action reads numbers of the player, but whether it succeeds is decided by the call
and by what names stand for. So it succeeds in all worlds with the same names, or in
none of them, and leaves the names alike.
-/

namespace Parkour

variable {ε α β γ δ : Type}

/-- What comes of a step, apart from its result. -/
def verdict (x : Except ε α) : Except ε Unit :=
  x.map fun _ => ()

theorem verdict_ok (a : α) (b : β) :
    verdict (.ok a : Except ε α) = verdict (.ok b : Except ε β) := rfl

theorem verdict_map (x : Except ε α) (k : α → β) : verdict (x.map k) = verdict x := by
  cases x <;> rfl

theorem verdict_bind {x : Except ε α} {y : Except ε β} {f : α → Except ε γ}
    {g : β → Except ε δ} (h : verdict x = verdict y)
    (hfg : ∀ a b, verdict (f a) = verdict (g b)) : verdict (x >>= f) = verdict (y >>= g) := by
  cases x with
  | ok a =>
      cases y with
      | ok b => exact hfg a b
      | error fault => cases h
  | error fault =>
      cases y with
      | ok b => cases h
      | error other =>
          cases h
          rfl

/-- Steps that follow the same one come to the same if they do after each result. -/
theorem verdict_bind_same (x : Except ε α) {f : α → Except ε β} {g : α → Except ε γ}
    (h : ∀ a, verdict (f a) = verdict (g a)) : verdict (x >>= f) = verdict (x >>= g) := by
  cases x with
  | ok a => exact h a
  | error fault => rfl

theorem verdict_mapM {f : α → Except ε β} {g : α → Except ε γ}
    (h : ∀ a, verdict (f a) = verdict (g a)) (as : List α) :
    verdict (as.mapM f) = verdict (as.mapM g) := by
  induction as with
  | nil => rfl
  | cons a as ih =>
      rw [List.mapM_cons, List.mapM_cons]
      refine verdict_bind (h a) fun _ _ => ?_
      exact verdict_bind ih fun _ _ => rfl

theorem exists_ok_of_verdict {x : Except ε α} {y : Except ε β} {a : α}
    (h : verdict x = verdict y) (hx : x = .ok a) : ∃ b, y = .ok b := by
  subst hx
  cases y with
  | ok b => exact ⟨b, rfl⟩
  | error fault => cases h

end Parkour

namespace Parkour.Engine

open Parkour.Language
open Player (Potion)

variable {σ : Type}

/-! ## Texts with fields -/

theorem verdict_fieldText (scope : Scope) (p q : Nat) (field : String) :
    verdict (fieldText scope p field) = verdict (fieldText scope q field) := by
  unfold fieldText
  dsimp only
  split
  · rfl
  · rw [verdict_map, verdict_map]

/-- Whether fields can be filled does not depend on the decimals that are shown. -/
theorem verdict_fillFields (scope : Scope) (p q : Nat) (whole : String)
    (field : Option (List Char)) (text : List Char) :
    verdict (fillFields scope p whole field text) =
      verdict (fillFields scope q whole field text) := by
  fun_induction fillFields scope p whole field text with
  | case1 => rfl
  | case2 => rfl
  | case3 field cs ih =>
      rw [fillFields, if_pos rfl]
      refine verdict_bind (verdict_fieldText scope p q _) fun _ _ => ?_
      exact verdict_bind ih fun _ _ => rfl
  | case4 field c cs hopen ih => rwa [fillFields, if_neg hopen]
  | case5 => rfl
  | case6 c cs ih => rwa [fillFields, verdict_map, verdict_map]
  | case7 cs hlast hescape ih =>
      rw [fillFields, if_pos rfl, ih]
      · exact hlast
      · exact hescape
  | case8 c cs hlast hescape hplain ih =>
      rw [fillFields, if_neg hplain, verdict_map, verdict_map, ih]
      · exact hlast
      · exact hescape

theorem verdict_interpolate (scope : Scope) (p q : Nat) (text : String) :
    verdict (interpolate scope p text) = verdict (interpolate scope q text) := by
  unfold interpolate
  rw [verdict_map, verdict_map]
  exact verdict_fillFields scope p q text none text.toList

/-! ## Changes of the player -/

/-- Whether the change succeeds does not depend on the player. -/
def Impartial (change : Player → Except Fault Player) : Prop :=
  ∀ p q, verdict (change p) = verdict (change q)

theorem verdict_ofRefusal {α β : Type} {x : Except Player.Refusal α}
    {y : Except Player.Refusal β} (h : verdict x = verdict y) :
    verdict (ofRefusal x) = verdict (ofRefusal y) := by
  cases x with
  | ok a =>
      cases y with
      | ok b => rfl
      | error refusal => cases h
  | error refusal =>
      cases y with
      | ok b => cases h
      | error other =>
          cases h
          rfl

theorem impartial_setNumber (arguments : Arguments) (parameter : String)
    (set : Player → Float → Player) : Impartial (setNumber arguments parameter set) :=
  fun _ _ => verdict_bind_same _ fun _ => rfl

theorem impartial_queueUp (arguments : Arguments) (queue : Player → List Float32 → Player) :
    Impartial (queueUp arguments queue) :=
  fun _ _ => verdict_bind_same _ fun _ => rfl

theorem impartial_setChecked (arguments : Arguments) (parameter : String)
    {set : Player → Int → Except Player.Refusal Player}
    (h : ∀ p q n, verdict (set p n) = verdict (set q n)) :
    Impartial (setChecked arguments parameter set) :=
  fun p q => verdict_bind_same _ fun n => verdict_ofRefusal (h p q n)

theorem verdict_setPotion (potion : Potion) (p q : Player) (level : Int) :
    verdict (p.setPotion potion level) = verdict (q.setPotion potion level) := by
  refine verdict_bind_same _ fun checked => ?_
  cases potion <;> rfl

theorem verdict_setPrecision (p q : Player) (digits : Int) :
    verdict (p.setPrecision digits) = verdict (q.setPrecision digits) := by
  unfold Player.setPrecision
  split <;> rfl

theorem impartial_setSlip (arguments : Arguments) : Impartial (setSlip arguments) :=
  fun _ _ => verdict_bind_same _ fun _ => verdict_ofRefusal (verdict_bind_same _ fun _ => rfl)

theorem impartial_setInertia (arguments : Arguments) : Impartial (setInertia arguments) := by
  intro p q
  refine verdict_bind_same _ fun threshold => verdict_ofRefusal ?_
  unfold Player.setInertia
  split <;> rfl

theorem impartial_setCeiling (ceiling : Option Float) :
    Impartial fun p => ofRefusal (p.setCeiling ceiling) := by
  intro p q
  refine verdict_ofRefusal ?_
  unfold Player.setCeiling
  split
  · split <;> rfl
  · rfl

/-! ## Actions -/

theorem verdict_adjust {change : Player → Except Fault Player} (h : Impartial change)
    (w v : World σ) : verdict (w.adjust change) = verdict (v.adjust change) :=
  verdict_bind (h w.player v.player) fun _ _ => rfl

section

variable {w v : World σ}

/-- In worlds with the same names a variable takes the same value. -/
theorem assign_of_sameNames (h : SameNames w v) (arguments : Arguments) :
    assign arguments v = (assign arguments w).map fun u => { v with scope := u.scope } := by
  unfold assign
  rw [h.scope]
  refine bind_eq_map_bind _ fun name => ?_
  dsimp only
  split
  · rfl
  · exact bind_eq_map_bind _ fun text => bind_eq_map_bind _ fun number => rfl

/-- In worlds with the same names the same function is defined. -/
theorem define_of_sameNames (h : SameNames w v) (arguments : Arguments) :
    define arguments v =
      (define arguments w).map fun u => { v with functions := u.functions } := by
  unfold define
  rw [h.scope, h.functions]
  refine bind_eq_map_bind _ fun text => bind_eq_map_bind _ fun signature => ?_
  split
  · rfl
  · exact bind_eq_map_bind _ fun body => rfl

variable [Audience σ]

theorem verdict_help (h : SameNames w v) (arguments : Arguments) :
    verdict (help arguments w) = verdict (help arguments v) := by
  unfold help World.unknown
  rw [h.functions, h.axis]
  split
  · rfl
  · dsimp only
    split
    · rfl
    · split <;> rfl

theorem verdict_print (h : SameNames w v) (arguments : Arguments) :
    verdict (print arguments w) = verdict (print arguments v) := by
  unfold print
  rw [h.scope]
  refine verdict_bind (verdict_mapM (fun value => ?_) _) fun _ _ => rfl
  exact verdict_interpolate w.scope _ _ value.display

/-- Whether an action succeeds is decided by its call and by what names stand for. -/
theorem verdict_perform (h : SameNames w v) (action : Action) (b : Builtin) (call : Call) :
    verdict (perform action b call w) = verdict (perform action b call v) := by
  cases action with
  | move gait =>
      exact verdict_bind_same _ fun _ => verdict_bind_same _ fun _ => verdict_ok _ _
  | rise phase => exact verdict_bind_same _ fun _ => verdict_ok _ _
  | readOut readout => exact verdict_ok _ _
  | readMomentum coordinate => exact verdict_ok _ _
  | readBlocks coordinate => exact verdict_ok _ _
  | readVector => exact verdict_ok _ _
  | print => exact verdict_print h call.arguments
  | help => exact verdict_help h call.arguments
  | face => exact verdict_adjust (impartial_setNumber _ _ _) w v
  | turn => exact verdict_adjust (impartial_setNumber _ _ _) w v
  | queueAngles => exact verdict_adjust (impartial_queueUp _ _) w v
  | queueTurns => exact verdict_adjust (impartial_queueUp _ _) w v
  | setPosition coordinate => exact verdict_adjust (impartial_setNumber _ _ _) w v
  | setVelocity coordinate => exact verdict_adjust (impartial_setNumber _ _ _) w v
  | setSlip => exact verdict_adjust (impartial_setSlip _) w v
  | setPotion potion =>
      exact verdict_adjust (impartial_setChecked _ _ (verdict_setPotion potion)) w v
  | setCeiling => exact verdict_adjust (impartial_setCeiling _) w v
  | setInertia => exact verdict_adjust (impartial_setInertia _) w v
  | setPrecision =>
      exact verdict_adjust (impartial_setChecked _ _ verdict_setPrecision) w v
  | assign =>
      have hassign := assign_of_sameNames h call.arguments
      exact ((congrArg verdict hassign).trans (verdict_map _ _)).symm
  | define =>
      have hdefine := define_of_sameNames h call.arguments
      exact ((congrArg verdict hdefine).trans (verdict_map _ _)).symm

/-- An action that succeeds in one of two worlds with the same names succeeds in the
other, and leaves the same names in both. -/
theorem perform_of_sameNames (h : SameNames w v) {action : Action} {b : Builtin} {call : Call}
    {w' : World σ} (hw : perform action b call w = .ok w') :
    ∃ v', perform action b call v = .ok v' ∧ SameNames w' v' := by
  obtain ⟨v', hv⟩ := exists_ok_of_verdict (verdict_perform h action b call) hw
  have hdeed := perform_deed hw
  have hdeed' := perform_deed hv
  have haxis : v'.player.axis = w'.player.axis :=
    hdeed'.axis.trans (h.axis.trans hdeed.axis.symm)
  refine ⟨v', hv, ?_⟩
  by_cases hassign : action = .assign
  · subst hassign
    have hv : (assign call.arguments w).map _ = .ok v' :=
      (assign_of_sameNames h call.arguments).symm.trans hv
    obtain ⟨u, hu, rfl⟩ := map_eq_ok hv
    cases hu.symm.trans hw
    exact ⟨rfl, h.functions.trans (hdeed.functions nofun).symm, haxis⟩
  · by_cases hdefine : action = .define
    · subst hdefine
      have hv : (define call.arguments w).map _ = .ok v' :=
        (define_of_sameNames h call.arguments).symm.trans hv
      obtain ⟨u, hu, rfl⟩ := map_eq_ok hv
      cases hu.symm.trans hw
      exact ⟨h.scope.trans (hdeed.scope nofun).symm, rfl, haxis⟩
    · constructor
      · rw [hdeed'.scope hassign, hdeed.scope hassign, h.scope]
      · rw [hdeed'.functions hdefine, hdeed.functions hdefine, h.functions]
      · exact haxis

end

end Parkour.Engine
