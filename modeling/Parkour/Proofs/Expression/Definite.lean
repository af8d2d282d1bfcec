import Parkour.Proofs.Expression.Acceptance
import Parkour.Proofs.Number.Numerals

/-!
# Expressions have numbers as their values

The value of an expression is a number as long as the variables are. An operation whose result
is no number fails. Numerals and signs, whose results nothing checks, lead to numbers.
-/

namespace Parkour.Language

/-- If the value is a float, it is a number. -/
def Value.Definite (value : Value) : Prop := ∀ v, value = .float v → v.isNaN = false

/-- All the variables are definite. -/
def Scope.Definite (scope : Scope) : Prop :=
  ∀ name value, scope.get? name = some value → value.Definite

theorem Value.definite_float {v : Float} (h : v.isNaN = false) : (Value.float v).Definite := by
  rintro _ ⟨⟩
  exact h

theorem Value.definite_text (content : String) : (Value.text content).Definite := by
  rintro _ ⟨⟩

theorem Value.Definite.isNaN_number {value : Value} {v : Float} (h : value.Definite)
    (hv : value.number? = some v) : v.isNaN = false := by
  cases value with
  | none => cases hv
  | int n =>
      cases hv
      exact Number.isNaN_ofWhole n
  | float number =>
      cases hv
      exact h v rfl
  | bool b =>
      cases hv
      cases b <;> decide +kernel
  | text content => cases hv

theorem Scope.definite_empty : Scope.Definite ∅ := nofun

theorem Scope.Definite.insert {scope : Scope} (h : Scope.Definite scope) {value : Value}
    (hvalue : value.Definite) (name : String) : Scope.Definite (scope.insert name value) :=
  Dictionary.forall_insert h hvalue

namespace Expression

/-- All the numbers that wait are numbers. -/
def Numbers (xs : List Float) : Prop := ∀ v ∈ xs, v.isNaN = false

variable {scope : Scope} {s t : Stacks} {token : Token} {v : Float}

theorem numbers_cons {xs : List Float} (hv : v.isNaN = false) (h : Numbers xs) :
    Numbers (v :: xs) :=
  List.forall_mem_cons.mpr ⟨hv, h⟩

/-! ## Operators -/

theorem isNaN_combine {op : Operator} {a b : Float} (h : op.combine a b = .ok v) :
    v.isNaN = false := by
  unfold Operator.combine at h
  extract_lets result at h
  clear_value result
  split at h
  · split at h
    · cases h
    · next hnumber =>
      cases h
      exact Bool.eq_false_iff.mpr hnumber
  · cases h

/-- A sign is not checked, so it relies on its operand. -/
theorem numbers_of_apply {op : Operator} {xs ys : List Float} (h : op.apply xs = .ok ys)
    (hxs : Numbers xs) : Numbers ys := by
  unfold Operator.apply at h
  split at h
  · next v rest =>
    cases h
    obtain ⟨hv, hrest⟩ := List.forall_mem_cons.mp hxs
    exact numbers_cons (Number.isNaN_neg v hv) hrest
  · cases h
  · next right left rest _ =>
    obtain ⟨v, hv, rfl⟩ := map_eq_ok h
    exact numbers_cons (isNaN_combine hv) fun u hu =>
      hxs u (List.mem_cons_of_mem right (List.mem_cons_of_mem left hu))
  · cases h

theorem Applied.numbers (h : Applied s t) (hs : Numbers s.operands) : Numbers t.operands := by
  induction h with
  | refl s => exact hs
  | step happly _ ih => exact ih (numbers_of_apply happly hs)

/-! ## Tokens -/

/-- A numeral is a number. -/
def Token.Definite (token : Token) : Prop := ∀ v, token = .number v → v.isNaN = false

theorem definite_of_scan {c : Char} {cs : List Char} {more : Nat}
    (h : scan c cs = .ok (more, token)) : token.Definite := by
  rintro v rfl
  unfold scan at h
  split at h
  · dsimp only at h
    split at h
    · cases h
    · cases h
      exact Number.Numeral.isNaN_value _
  · split_ifs at h <;> cases h

theorem definite_of_lexemesAfter {blanks cs : List Char} {found : List Lexeme}
    (h : lexemesAfter blanks cs = .ok found) : ∀ l ∈ found, l.token.Definite := by
  induction blanks, cs using lexemesAfter.induct generalizing found with
  | case1 blanks =>
      rw [lexemesAfter] at h
      cases h
      exact List.forall_mem_nil _
  | case2 blanks c cs hblank ih =>
      rw [lexemesAfter, if_pos hblank] at h
      exact ih h
  | case3 blanks c cs hblank ih =>
      rw [lexemesAfter, if_neg hblank] at h
      obtain ⟨⟨more, token⟩, hscan, h⟩ := bind_eq_ok h
      obtain ⟨rest, hrest, h⟩ := bind_eq_ok h
      cases h
      exact List.forall_mem_cons.mpr ⟨definite_of_scan hscan, ih more hrest⟩

theorem definite_of_tokens {text : String} {ts : List Token} (h : tokens text = .ok ts) :
    ∀ token ∈ ts, token.Definite := by
  obtain ⟨found, hfound, rfl⟩ := map_eq_ok h
  intro token htoken
  obtain ⟨l, hl, rfl⟩ := List.mem_map.mp htoken
  exact definite_of_lexemesAfter hfound l hl

/-! ## The machine -/

theorem numbers_of_await {op : Operator} (h : s.await op = .ok t) (hs : Numbers s.operands) :
    Numbers t.operands := by
  obtain ⟨settled, hsettled, h⟩ := bind_eq_ok h
  cases h
  exact (applied_of_settle hsettled).numbers hs

/-- What a token leaves on the stack are numbers, if what it finds there are. -/
theorem numbers_of_take (hscope : Scope.Definite scope) {previous : Option Token}
    (htoken : token.Definite) (hs : Numbers s.operands)
    (h : s.take scope previous token = .ok t) : Numbers t.operands := by
  cases token with
  | number v =>
      cases h
      exact numbers_cons (htoken v rfl) hs
  | name name =>
      obtain ⟨v, hv, rfl⟩ := map_eq_ok h
      refine numbers_cons ?_ hs
      unfold valueOf at hv
      split at hv
      · next number hnumber =>
        cases hv
        obtain ⟨value, hvalue, hnumber⟩ := Option.bind_eq_some_iff.mp hnumber
        exact (hscope name value hvalue).isNaN_number hnumber
      · cases hv
  | opening =>
      cases h
      exact hs
  | closing => exact (applied_of_close h).numbers hs
  | minus =>
      unfold Stacks.take at h
      dsimp only at h
      split at h
      · cases h
        exact hs
      · exact numbers_of_await h hs
  | plus => exact numbers_of_await h hs
  | star => exact numbers_of_await h hs
  | slash => exact numbers_of_await h hs
  | power => exact numbers_of_await h hs

theorem isNaN_of_run (hscope : Scope.Definite scope) {ts : List Token}
    (hts : ∀ token ∈ ts, token.Definite) {previous : Option Token} (hs : Numbers s.operands)
    (h : run scope previous s ts = .ok v) : v.isNaN = false := by
  induction ts generalizing s previous with
  | nil => exact (applied_of_finish h).numbers hs v (List.mem_singleton.mpr rfl)
  | cons token rest ih =>
      obtain ⟨htoken, hrest⟩ := List.forall_mem_cons.mp hts
      obtain ⟨_, -, h⟩ := bind_eq_ok h
      obtain ⟨next, hnext, h⟩ := bind_eq_ok h
      exact ih hrest (numbers_of_take hscope htoken hs hnext) h

/-- An expression that has a value has a number as its value. -/
theorem isNaN_of_evaluate (hscope : Scope.Definite scope) {text : String}
    (h : evaluate text scope = .ok v) : v.isNaN = false := by
  unfold evaluate at h
  split at h
  · cases h
    decide +kernel
  · split at h
    · next number hnumber =>
      cases h
      obtain ⟨ts, hts, hrun⟩ := bind_eq_ok hnumber
      exact isNaN_of_run hscope (definite_of_tokens hts) (fun _ hmem => absurd hmem (by simp)) hrun
    · cases h
    · cases h

end Expression

end Parkour.Language
