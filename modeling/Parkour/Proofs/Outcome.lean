import Mathlib.Data.List.Forall2

/-!
# Outcomes

A chain of steps succeeds if each of its steps succeeds, and fails as one of them does.
-/

namespace Parkour

variable {ε α β γ : Type}

theorem bind_eq_ok {x : Except ε α} {f : α → Except ε β} {b : β} (h : x >>= f = .ok b) :
    ∃ a, x = .ok a ∧ f a = .ok b := by
  cases x with
  | ok a => exact ⟨a, rfl, h⟩
  | error fault => cases h

theorem ok_bind (a : α) (f : α → Except ε β) : (.ok a : Except ε α) >>= f = f a := rfl

theorem map_eq_ok {x : Except ε α} {f : α → β} {b : β} (h : x.map f = .ok b) :
    ∃ a, x = .ok a ∧ f a = b := by
  cases x with
  | ok a => cases h; exact ⟨a, rfl, rfl⟩
  | error fault => cases h

/-- What a check finds of the result shows that there is one. -/
theorem exists_ok_of_any {x : Except ε α} {check : α → Bool}
    (h : x.toOption.any check = true) : ∃ a, x = .ok a ∧ check a = true := by
  cases x with
  | ok a => exact ⟨a, rfl, h⟩
  | error fault => cases h

/-- Two chains differ by a map of their results if what follows their first step does. -/
theorem bind_eq_map_bind (x : Except ε α) {f : α → Except ε γ} {g : α → Except ε β}
    {k : β → γ} (h : ∀ a, f a = (g a).map k) : x >>= f = (x >>= g).map k := by
  cases x with
  | ok a => exact h a
  | error fault => rfl

/-- What each step of a pass keeps, a pass that succeeds keeps. -/
theorem foldlM_keeps {I : β → Prop} {step : β → α → Except ε β} {as : List α} {b c : β}
    (h : ∀ a ∈ as, ∀ b c, step b a = .ok c → I b → I c)
    (hpass : as.foldlM step b = .ok c) (hb : I b) : I c := by
  induction as generalizing b with
  | nil =>
      cases hpass
      exact hb
  | cons a rest ih =>
      obtain ⟨ha, hbehind⟩ := List.forall_mem_cons.mp h
      rw [List.foldlM_cons] at hpass
      obtain ⟨next, hstep, hrest⟩ := bind_eq_ok hpass
      exact ih hbehind hrest (ha b next hstep hb)

/-- What a pass gives, it gives for one of the elements. -/
theorem exists_of_mapM {f : α → Except ε β} {as : List α} {bs : List β}
    (h : as.mapM f = .ok bs) : ∀ b ∈ bs, ∃ a ∈ as, f a = .ok b := by
  induction as generalizing bs with
  | nil =>
      cases h
      exact List.forall_mem_nil _
  | cons a rest ih =>
      rw [List.mapM_cons] at h
      obtain ⟨b, hb, h⟩ := bind_eq_ok h
      obtain ⟨others, hothers, h⟩ := bind_eq_ok h
      cases h
      refine List.forall_mem_cons.mpr ⟨⟨a, List.mem_cons_self, hb⟩, fun other hother => ?_⟩
      obtain ⟨source, hsource, hgives⟩ := ih hothers other hother
      exact ⟨source, List.mem_cons_of_mem a hsource, hgives⟩

theorem mapM_eq_ok {f : α → Except ε β} {as : List α} (h : ∀ a ∈ as, ∃ b, f a = .ok b) :
    ∃ bs, as.mapM f = .ok bs := by
  induction as with
  | nil => exact ⟨[], rfl⟩
  | cons a rest ih =>
      obtain ⟨⟨b, hb⟩, hrest⟩ := List.forall_mem_cons.mp h
      obtain ⟨bs, hbs⟩ := ih hrest
      refine ⟨b :: bs, ?_⟩
      rw [List.mapM_cons, hb, hbs]
      rfl

/-- A pass gives its results element by element. -/
theorem mapM_eq_ok_iff {f : α → Except ε β} {as : List α} {bs : List β} :
    as.mapM f = .ok bs ↔ List.Forall₂ (fun a b => f a = .ok b) as bs := by
  induction as generalizing bs with
  | nil => simp [pure, Except.pure, eq_comm]
  | cons a rest ih =>
      rw [List.mapM_cons]
      constructor
      · intro h
        obtain ⟨b, hb, h⟩ := bind_eq_ok h
        obtain ⟨others, hothers, h⟩ := bind_eq_ok h
        cases h
        exact .cons hb (ih.mp hothers)
      · rintro (_ | ⟨hb, hothers⟩)
        rw [hb, ok_bind, ih.mpr hothers]
        rfl

/-- What holds of a result can be decided of an outcome. -/
instance decidableOfOk {P : α → Prop} [DecidablePred P] (x : Except ε α) :
    Decidable (∀ a, x = .ok a → P a) :=
  match x with
  | .ok a => decidable_of_iff (P a) (by simp)
  | .error _ => isTrue nofun

/-- The faults that an outcome can be. -/
def Blames (F : ε → Prop) (x : Except ε α) : Prop :=
  ∀ fault, x = .error fault → F fault

namespace Blames

variable {F : ε → Prop}

theorem ofOk (a : α) : Blames F (.ok a : Except ε α) := nofun

theorem ofError {fault : ε} (h : F fault) : Blames F (.error fault : Except ε α) := by
  rintro _ ⟨⟩
  exact h

theorem imp {G : ε → Prop} {x : Except ε α} (hx : Blames F x) (h : ∀ fault, F fault → G fault) :
    Blames G x :=
  fun fault hfault => h fault (hx fault hfault)

theorem bind {x : Except ε α} {f : α → Except ε β} (hx : Blames F x)
    (hf : ∀ a, x = .ok a → Blames F (f a)) : Blames F (x >>= f) := by
  cases x with
  | ok a => exact hf a rfl
  | error fault => exact ofError (hx fault rfl)

theorem map {x : Except ε α} (hx : Blames F x) (f : α → β) : Blames F (x.map f) := by
  cases x with
  | ok a => exact ofOk (f a)
  | error fault => exact ofError (hx fault rfl)

theorem ite {c : Prop} [Decidable c] {x y : Except ε α} (hx : Blames F x) (hy : Blames F y) :
    Blames F (if c then x else y) := by
  split
  · exact hx
  · exact hy

theorem mapM {f : α → Except ε β} {as : List α} (h : ∀ a ∈ as, Blames F (f a)) :
    Blames F (as.mapM f) := by
  induction as with
  | nil => exact ofOk []
  | cons a rest ih =>
      obtain ⟨ha, hrest⟩ := List.forall_mem_cons.mp h
      rw [List.mapM_cons]
      exact ha.bind fun b _ => (ih hrest).bind fun bs _ => ofOk (b :: bs)

theorem foldlM {step : β → α → Except ε β} (h : ∀ b a, Blames F (step b a)) (as : List α)
    (b : β) : Blames F (as.foldlM step b) := by
  induction as generalizing b with
  | nil => exact ofOk b
  | cons a rest ih =>
      rw [List.foldlM_cons]
      exact (h b a).bind fun c _ => ih c

end Blames

end Parkour
