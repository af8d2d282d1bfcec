import Parkour.Proofs.Expression.Grammar
import Parkour.Proofs.Outcome

/-!
# The value of an expression

The two stacks compute the value of the tree of a sentence. What has been read of an
expression waits on the stacks as a debt: whoever applies the waiting operators gets
the value of the tree, or the first fault on the way to it.
-/

namespace Parkour.Language.Expression

/-- The result of an operation. -/
def Binary.result (op : Binary) (a b : Float) : Float :=
  match op with
  | add => a + b
  | subtract => a - b
  | multiply => a * b
  | divide => a / b
  | power => Number.power a b

/-- Whether an operation divides by zero. A negative power of zero does. -/
def Binary.dividesByZero (op : Binary) (a b : Float) : Bool :=
  match op with
  | divide => b == 0
  | power => a == 0 && b < 0
  | _ => false

/-- The result of an operation, or why there is none. -/
def Binary.value (op : Binary) (a b : Float) : Except ExpressionFault Float :=
  if op.dividesByZero a b then .error .divisionByZero
  else if (op.result a b).isNaN then .error .domain
  else .ok (op.result a b)

/-- The value of a tree, from left to right, the operands before their operator. -/
def Expr.value (scope : Scope) : Expr → Except ExpressionFault Float
  | .number v => .ok v
  | .name held => valueOf scope held
  | .negate e => do return -(← e.value scope)
  | .binary op l r => do
      let a ← l.value scope
      let b ← r.value scope
      op.value a b

theorem combine_operator (op : Binary) (a b : Float) :
    op.operator.combine a b = op.value a b := by
  cases op with
  | add => rfl
  | subtract => rfl
  | multiply => rfl
  | divide =>
      by_cases h : (b == 0) = true
      · simp only [Binary.operator, Operator.combine, Binary.value, Binary.dividesByZero, h]
        rfl
      · simp only [Binary.operator, Operator.combine, Binary.value, Binary.dividesByZero, h]
        rfl
  | power =>
      by_cases h : (a == 0 && decide (b < 0)) = true
      · simp only [Binary.operator, Operator.combine, Binary.value, Binary.dividesByZero, h]
        rfl
      · simp only [Binary.operator, Operator.combine, Binary.value, Binary.dividesByZero, h]
        rfl

theorem apply_operator (op : Binary) (a b : Float) (xs : List Float) :
    op.operator.apply (b :: a :: xs) = (op.value a b).map (· :: xs) := by
  rw [← combine_operator]
  cases op <;> rfl

theorem operator_ne_opening (op : Binary) : op.operator ≠ .opening := by
  cases op <;> decide

/-! ## Runs over a part of the tokens -/

/-- Takes tokens in order. -/
def Stacks.takeAll (scope : Scope) (previous : Option Token) (s : Stacks) :
    List Token → Except ExpressionFault Stacks
  | [] => .ok s
  | token :: rest => do
      checkNeighbours previous token
      let s ← s.take scope previous token
      s.takeAll scope (some token) rest

/-- The token before what follows a part. -/
def lastOf (previous : Option Token) : List Token → Option Token
  | [] => previous
  | token :: rest => lastOf (some token) rest

variable {scope : Scope} {previous : Option Token} {s : Stacks}

theorem takeAll_append (ts us : List Token) :
    s.takeAll scope previous (ts ++ us) =
      s.takeAll scope previous ts >>= fun s => s.takeAll scope (lastOf previous ts) us := by
  induction ts generalizing previous s with
  | nil => rfl
  | cons token rest ih =>
      simp only [List.cons_append, Stacks.takeAll, ih, bind_assoc, lastOf]

/-- A run takes all tokens and then applies what is left. -/
theorem run_eq (ts : List Token) :
    run scope previous s ts =
      s.takeAll scope previous ts >>= fun s => finish s.operators s.operands := by
  induction ts generalizing previous s with
  | nil => rfl
  | cons token rest ih => simp only [run, Stacks.takeAll, ih, bind_assoc]

/-- An operand is still to come. -/
def Expecting (previous : Option Token) : Prop :=
  ∀ token ∈ previous, token.endsOperand = false

theorem checkNeighbours_of_expecting (h : Expecting previous) (token : Token) :
    checkNeighbours previous token = .ok () := by
  cases previous with
  | none => rfl
  | some before => simp [checkNeighbours, h before rfl]

theorem checkNeighbours_of_not_starts {token : Token} (h : token.startsOperand = false) :
    checkNeighbours previous token = .ok () := by
  cases previous with
  | none => rfl
  | some before => simp [checkNeighbours, h]

theorem startsOperand_token (op : Binary) : op.token.startsOperand = false := by
  cases op <;> rfl

theorem endsOperand_token (op : Binary) : op.token.endsOperand = false := by
  cases op <;> rfl

/-- Behind an operand the token of an operator is that operator, a minus too. -/
theorem take_token (op : Binary) {token : Token} (htoken : token.endsOperand = true)
    (hs : s.operands ≠ []) :
    s.take scope (some token) op.token = s.await op.operator := by
  cases op with
  | subtract => simp [Binary.token, Binary.operator, Stacks.take, isSign, htoken, hs]
  | _ => rfl

theorem take_sign (h : Expecting previous) :
    s.take scope previous .minus = .ok { s with operators := .negate :: s.operators } := by
  cases previous with
  | none => rfl
  | some token => simp [Stacks.take, isSign, h token rfl]

theorem lastOf_append (ts us : List Token) (previous : Option Token) :
    lastOf previous (ts ++ us) = lastOf (lastOf previous ts) us := by
  induction ts generalizing previous with
  | nil => rfl
  | cons token rest ih => exact ih (some token)

theorem last_of_reads {tier : Tier} {e : Expr} {ts : List Token} (h : Reads tier e ts)
    (previous : Option Token) :
    ∃ token, lastOf previous ts = some token ∧ token.endsOperand = true := by
  induction h generalizing previous with
  | number v => exact ⟨_, rfl, rfl⟩
  | name held => exact ⟨_, rfl, rfl⟩
  | group _ _ => exact ⟨.closing, lastOf_append .., rfl⟩
  | ofPrimary _ ih => exact ih previous
  | power _ _ _ ih =>
      rw [lastOf_append]
      exact ih _
  | ofPowers _ ih => exact ih previous
  | negate _ ih => exact ih _
  | powerNegate _ _ _ ih =>
      rw [lastOf_append]
      exact ih _
  | ofSigned _ ih => exact ih previous
  | product _ _ _ _ ih =>
      rw [lastOf_append]
      exact ih _
  | ofProduct _ ih => exact ih previous
  | sum _ _ _ _ ih =>
      rw [lastOf_append]
      exact ih _

/-! ## Debts -/

/-- The operator on top, if any, binds less close than `rank`. -/
def Below (rank : Nat) : List Operator → Prop
  | [] => True
  | op :: _ => op = .opening ∨ op.rank < rank

theorem Below.mono {low high : Nat} (hle : low ≤ high) {ops : List Operator}
    (h : Below low ops) : Below high ops := by
  cases ops with
  | nil => trivial
  | cons op rest => exact h.imp id fun hlt => Nat.lt_of_lt_of_le hlt hle

theorem below_cons {rank : Nat} {op : Operator} (h : op.rank < rank) (ops : List Operator) :
    Below rank (op :: ops) :=
  Or.inr h

theorem settle_of_below {rank : Nat} {ops : List Operator} (h : Below rank ops)
    (xs : List Float) : settle rank ops xs = .ok ⟨ops, xs⟩ := by
  cases ops with
  | nil => rfl
  | cons op rest => exact if_pos h

/-- A way to empty the stacks that applies every operator binding at least as close as
`rank`. -/
def Applies {β : Type} (rank : Nat)
    (exit : List Operator → List Float → Except ExpressionFault β) : Prop :=
  ∀ op ops xs, op ≠ .opening → rank ≤ op.rank → exit (op :: ops) xs = op.apply xs >>= exit ops

theorem Applies.mono {β : Type} {low high : Nat} (hle : low ≤ high)
    {exit : List Operator → List Float → Except ExpressionFault β} (h : Applies low exit) :
    Applies high exit :=
  fun op ops xs hop hrank => h op ops xs hop (Nat.le_trans hle hrank)

theorem applies_settle {rank bound : Nat} (hle : bound ≤ rank) :
    Applies rank (settle bound) := by
  intro op ops xs hop hrank
  have hwaits : ¬(op = .opening ∨ op.rank < bound) := by
    rintro (hopening | hlt)
    · exact hop hopening
    · omega
  rw [settle, if_neg hwaits]

theorem applies_close (rank : Nat) : Applies rank close := by
  intro op ops xs hop _
  rw [close, if_neg hop]

theorem applies_finish (rank : Nat) : Applies rank finish := by
  intro op ops xs hop _
  rw [finish, if_neg hop]

/-- What was taken since `base` is worth `outcome` to everyone who applies the waiting
operators down to `rank`. -/
def Owes (rank : Nat) (base : Stacks) (outcome : Except ExpressionFault Float)
    (taken : Except ExpressionFault Stacks) : Prop :=
  ∀ {β : Type} (exit : List Operator → List Float → Except ExpressionFault β),
    Applies rank exit →
      (taken >>= fun s => exit s.operators s.operands) =
        outcome >>= fun v => exit base.operators (v :: base.operands)

/-- There are operands. -/
def Filled (taken : Except ExpressionFault Stacks) : Prop :=
  ∀ s, taken = .ok s → s.operands ≠ []

/-- What was taken is owed, and an operand is on the stack. -/
structure Carries (rank : Nat) (base : Stacks) (outcome : Except ExpressionFault Float)
    (taken : Except ExpressionFault Stacks) : Prop where
  owes : Owes rank base outcome taken
  filled : Filled taken

/-- The least rank among the operators that a tier leaves waiting. -/
def Tier.rank : Tier → Nat
  | primary => 5
  | powers => 4
  | signed => 3
  | product => 2
  | sum => 1

/-- The rank of the first operator that may be applied while a tier is read. -/
def Tier.bound : Tier → Nat
  | signed => 4
  | tier => tier.rank

variable {base : Stacks} {rank : Nat}

/-- A value on the stack is owed, and nothing waits. -/
theorem carries_pushed {outcome : Except ExpressionFault Float}
    {taken : Except ExpressionFault Stacks}
    (h : taken = outcome >>= fun v => .ok { base with operands := v :: base.operands }) :
    Carries rank base outcome taken := by
  subst h
  cases outcome with
  | error fault => exact ⟨fun _ _ => rfl, fun s hs => by cases hs⟩
  | ok v =>
      refine ⟨fun _ _ => rfl, fun s hs => ?_⟩
      cases hs
      exact List.cons_ne_nil v _

theorem Carries.mono {low high : Nat} {outcome : Except ExpressionFault Float}
    {taken : Except ExpressionFault Stacks} (h : Carries high base outcome taken)
    (hle : low ≤ high) : Carries low base outcome taken where
  owes exit hexit := h.owes exit (hexit.mono hle)
  filled := h.filled

/-- What an operator finds when it has read its left operand. -/
theorem take_operator (op : Binary) {l : Expr} {ts : List Token} {previous : Option Token}
    (h : Carries op.operator.rank base (l.value scope) (base.takeAll scope previous ts))
    (hlast : ∃ token, lastOf previous ts = some token ∧ token.endsOperand = true)
    (hbelow : Below op.operator.rank base.operators) (us : List Token) :
    base.takeAll scope previous (ts ++ op.token :: us) =
      l.value scope >>= fun v =>
        Stacks.takeAll scope (some op.token)
          ⟨op.operator :: base.operators, v :: base.operands⟩ us := by
  obtain ⟨token, hlast, htoken⟩ := hlast
  have hawait : (base.takeAll scope previous ts >>= fun s =>
      s.take scope (some token) op.token) =
      (base.takeAll scope previous ts >>= fun s =>
        settle op.operator.rank s.operators s.operands) >>= fun s =>
          .ok { s with operators := op.operator :: s.operators } := by
    rw [bind_assoc]
    cases htaken : base.takeAll scope previous ts with
    | error fault => rfl
    | ok s => exact take_token op htoken (h.filled s htaken)
  -- Down to its rank, the operator applies all that its left operand left waiting.
  have hsettled := h.owes (settle op.operator.rank) (applies_settle (Nat.le_refl _))
  simp only [settle_of_below hbelow] at hsettled
  rw [takeAll_append, hlast]
  simp only [Stacks.takeAll, checkNeighbours_of_not_starts (startsOperand_token op)]
  change (base.takeAll scope previous ts >>= fun s =>
    s.take scope (some token) op.token >>= _) = _
  rw [← bind_assoc, hawait, hsettled, bind_assoc, bind_assoc]
  rfl

/-- An operator adds to the debt of its left operand that of the right one. -/
theorem owes_operator (op : Binary) (hrank : rank ≤ op.operator.rank) {l r : Expr}
    {taken : Float → Except ExpressionFault Stacks}
    (h : ∀ v, Owes rank ⟨op.operator :: base.operators, v :: base.operands⟩ (r.value scope)
      (taken v)) :
    Owes rank base ((Expr.binary op l r).value scope) (l.value scope >>= taken) := by
  intro β exit hexit
  simp only [Expr.value, bind_assoc]
  refine bind_congr fun v => ?_
  rw [h v exit hexit]
  refine bind_congr fun w => ?_
  rw [hexit _ _ _ (operator_ne_opening op) hrank, apply_operator]
  cases op.value v w <;> rfl

/-- A sign adds to the debt of its operand. -/
theorem carries_negate (hrank : rank ≤ 3) {e : Expr} {taken : Except ExpressionFault Stacks}
    (h : Carries rank { base with operators := .negate :: base.operators } (e.value scope)
      taken) :
    Carries rank base ((Expr.negate e).value scope) taken := by
  refine ⟨?_, h.filled⟩
  intro β exit hexit
  rw [h.owes exit hexit]
  simp only [Expr.value, bind_assoc]
  refine bind_congr fun v => ?_
  rw [hexit .negate _ _ (by decide) hrank]
  rfl

theorem takeAll_cons {token : Token} {rest : List Token} {s t : Stacks}
    (hcheck : checkNeighbours previous token = .ok ())
    (htake : s.take scope previous token = .ok t) :
    s.takeAll scope previous (token :: rest) = t.takeAll scope (some token) rest := by
  rw [Stacks.takeAll, hcheck, htake]
  rfl

theorem takeAll_closing :
    s.takeAll scope previous [.closing] = close s.operators s.operands := by
  rw [Stacks.takeAll, checkNeighbours_of_not_starts rfl]
  exact bind_pure (close s.operators s.operands)

theorem takeAll_group {e : Expr} {ts : List Token} (hprevious : Expecting previous)
    (howes : Owes 1 { base with operators := .opening :: base.operators } (e.value scope)
      (Stacks.takeAll scope (some .opening)
        { base with operators := .opening :: base.operators } ts)) :
    base.takeAll scope previous (.opening :: ts ++ [.closing]) =
      e.value scope >>= fun v => .ok { base with operands := v :: base.operands } := by
  rw [List.cons_append, takeAll_cons (checkNeighbours_of_expecting hprevious _) rfl,
    takeAll_append]
  simp only [takeAll_closing]
  exact howes close (applies_close 1)

theorem expecting_some {token : Token} (h : token.endsOperand = false) :
    Expecting (some token) := by
  intro other hother
  cases hother
  exact h

/-- An operator between two operands that were read. -/
theorem carries_binary (op : Binary) {tier : Tier} {l r : Expr} {ts us : List Token}
    (hl : Reads tier l ts) (hrank : rank ≤ op.operator.rank)
    (hleft : Carries op.operator.rank base (l.value scope) (base.takeAll scope previous ts))
    (hbelow : Below op.operator.rank base.operators)
    (hright : ∀ v, Carries rank ⟨op.operator :: base.operators, v :: base.operands⟩
      (r.value scope)
      (Stacks.takeAll scope (some op.token)
        ⟨op.operator :: base.operators, v :: base.operands⟩ us)) :
    Carries rank base ((Expr.binary op l r).value scope)
      (base.takeAll scope previous (ts ++ op.token :: us)) := by
  rw [take_operator op hleft (last_of_reads hl previous) hbelow]
  refine ⟨owes_operator op hrank fun v => (hright v).owes, ?_⟩
  intro s hs
  obtain ⟨v, -, hs⟩ := bind_eq_ok hs
  exact (hright v).filled s hs

theorem rank_of_tier {op : Binary} {tier : Tier} (h : op.tier = tier) :
    op.operator.rank = tier.rank := by
  subst h
  cases op <;> rfl

/-- An operator of a tier with its operands, the right one of a closer tier. -/
theorem carries_tier {op : Binary} {tier right : Tier} (hop : op.tier = tier) {l r : Expr}
    {ts us : List Token} (hl : Reads tier l ts)
    (hleft : Carries tier.rank base (l.value scope) (base.takeAll scope previous ts))
    (hbelow : Below tier.rank base.operators) (hbound : tier.rank < right.bound)
    (hrank : tier.rank ≤ right.rank)
    (hright : ∀ {previous : Option Token} {base : Stacks}, Expecting previous →
      Below right.bound base.operators →
        Carries right.rank base (r.value scope) (base.takeAll scope previous us)) :
    Carries tier.rank base ((Expr.binary op l r).value scope)
      (base.takeAll scope previous (ts ++ op.token :: us)) := by
  have hoperator := rank_of_tier hop
  rw [← hoperator] at hleft hbelow
  refine carries_binary op hl (Nat.le_of_eq hoperator.symm) hleft hbelow fun v => ?_
  refine (hright ?_ ?_).mono hrank
  · exact expecting_some (endsOperand_token op)
  · exact below_cons (by rwa [hoperator]) _

/-- The stacks owe the value of the tree that was read. -/
theorem carries_of_reads {tier : Tier} {e : Expr} {ts : List Token} (h : Reads tier e ts)
    {previous : Option Token} {base : Stacks} (hprevious : Expecting previous)
    (hbelow : Below tier.bound base.operators) :
    Carries tier.rank base (e.value scope) (base.takeAll scope previous ts) := by
  induction h generalizing previous base with
  | number v =>
      refine carries_pushed ?_
      rw [takeAll_cons (checkNeighbours_of_expecting hprevious _) rfl]
      rfl
  | name held =>
      refine carries_pushed ?_
      rw [Stacks.takeAll, checkNeighbours_of_expecting hprevious]
      change (Except.map _ (valueOf scope held) >>= _) = _
      simp only [Expr.value]
      cases valueOf scope held <;> rfl
  | group _ ih =>
      refine carries_pushed (takeAll_group hprevious ?_)
      refine (ih ?_ ?_).owes
      · exact expecting_some rfl
      · exact Or.inl rfl
  | ofPrimary _ ih => exact (ih hprevious (hbelow.mono (by decide))).mono (by decide)
  | power hl _ ihl ihr =>
      refine carries_binary .power hl (Nat.le_refl _) (ihl hprevious hbelow) hbelow fun v => ?_
      refine (ihr ?_ ?_).mono (by decide)
      · exact expecting_some rfl
      · exact below_cons (by decide) _
  | ofPowers _ ih => exact (ih hprevious hbelow).mono (by decide)
  | negate _ ih =>
      rw [takeAll_cons (checkNeighbours_of_expecting hprevious _) (take_sign hprevious)]
      refine carries_negate (Nat.le_refl _) (ih ?_ ?_)
      · exact expecting_some rfl
      · exact below_cons (by decide) _
  | powerNegate hl _ ihl ihr =>
      refine carries_binary .power hl (by decide) (ihl hprevious hbelow) hbelow fun v => ?_
      rw [takeAll_cons (checkNeighbours_of_expecting (expecting_some rfl) _)
        (take_sign (expecting_some rfl))]
      refine carries_negate (Nat.le_refl _) (ihr ?_ ?_)
      · exact expecting_some rfl
      · exact below_cons (by decide) _
  | ofSigned _ ih => exact (ih hprevious (hbelow.mono (by decide))).mono (by decide)
  | product hop hl _ ihl ihr =>
      exact carries_tier hop hl (ihl hprevious hbelow) hbelow (by decide) (by decide) ihr
  | ofProduct _ ih => exact (ih hprevious (hbelow.mono (by decide))).mono (by decide)
  | sum hop hl _ ihl ihr =>
      exact carries_tier hop hl (ihl hprevious hbelow) hbelow (by decide) (by decide) ihr

/-! ## Whole texts -/

theorem lexemesAfter_of_blanks {cs : List Char} (h : ∀ c ∈ cs, Text.isBlank c = true)
    (blanks : List Char) : lexemesAfter blanks cs = .ok [] := by
  induction cs generalizing blanks with
  | nil => rw [lexemesAfter]
  | cons c rest ih =>
      rw [lexemesAfter, if_pos (h c List.mem_cons_self)]
      exact ih (fun d hd => h d (List.mem_cons_of_mem c hd)) _

/-- A text of blanks has no tokens. -/
theorem tokens_of_blank {text : String} (h : Text.isBlankText text = true) :
    tokens text = .ok [] := by
  have hall : ∀ c ∈ text.toList, Text.isBlank c = true := by
    simpa [Text.isBlankText] using h
  rw [tokens, lexemes, lexemesAfter_of_blanks hall]
  rfl

theorem sentence_ne_nil {ts : List Token} (h : Sentence ts) : ts ≠ [] := by
  cases h <;> simp

/-- How a fault is reported: an undefined name as such, any other fault with the whole
expression. -/
def reported (text : String) : ExpressionFault → Fault
  | .undefined name => .undefined name []
  | fault => .unplaced (.expression (Text.trim text) fault)

theorem run_of_reads {e : Expr} {ts : List Token} (h : Reads .sum e ts) :
    run scope none {} ts = e.value scope := by
  have hnone : Expecting none := fun token htoken => by cases htoken
  have hempty : Below Tier.sum.bound ({} : Stacks).operators := trivial
  have howes : Owes 1 {} (e.value scope) (Stacks.takeAll scope none {} ts) :=
    (carries_of_reads h hnone hempty).owes
  rw [run_eq, howes finish (applies_finish _)]
  cases e.value scope <;> rfl

/-- A text with tokens evaluates to what the machine makes of them. -/
theorem evaluate_eq {text : String} {ts : List Token} (htokens : tokens text = .ok ts)
    (hts : ts ≠ []) : evaluate text scope = (run scope none {} ts).mapError (reported text) := by
  have hblank : Text.isBlankText text = false := by
    refine Bool.eq_false_iff.mpr fun hblank => hts ?_
    have hnone := tokens_of_blank hblank
    rw [htokens] at hnone
    exact Except.ok.inj hnone
  have hvalue : value text scope = run scope none {} ts := by
    rw [value, htokens]
    rfl
  rw [evaluate, if_neg (by rw [hblank]; exact Bool.false_ne_true), hvalue]
  cases run scope none {} ts with
  | ok v => rfl
  | error fault => cases fault <;> rfl

/-- A sentence has a tree, and the machine computes the value of the tree, in an
expression whose tokens they are too. -/
theorem evaluate_sentence (scope : Scope) (ts : List Token) (hts : Sentence ts) :
    Readable .sum ts ∧ ∀ e, Reads .sum e ts →
      run scope none {} ts = e.value scope ∧
        ∀ text, tokens text = .ok ts →
          evaluate text scope = (e.value scope).mapError (reported text) := by
  refine ⟨Readable.of_sentence hts, fun e he => ?_⟩
  have hrun : run scope none {} ts = e.value scope := run_of_reads he
  refine ⟨hrun, fun text htokens => ?_⟩
  rw [evaluate_eq htokens (sentence_ne_nil hts), hrun]

/-- A sign reaches over the powers behind it. -/
theorem evaluate_sentence_sign :
    evaluate "2**-a**2" ((∅ : Scope).insert "a" (.int 3)) =
      ((Expr.binary .power (.number 2)
        (.negate (.binary .power (.name "a") (.number 2)))).value
          ((∅ : Scope).insert "a" (.int 3))).mapError (reported "2**-a**2") := by
  have hsentence : Sentence [.number 2, .power, .minus, .name "a", .power, .number 2] :=
    .binary .power (.number 2) (.negate (.binary .power (.name "a") (.number 2)))
  have hpowers : Reads .powers (.binary .power (.name "a") (.number 2))
      [.name "a", .power, .number 2] := .power (.ofPrimary (.name "a")) (.number 2)
  have hreads := Reads.ofProduct
    (.ofSigned (.powerNegate (.ofPrimary (.number 2)) (.ofPowers hpowers)))
  refine ((evaluate_sentence _ _ hsentence).2 _ hreads).2 _ ?_
  with_unfolding_all rfl

end Parkour.Language.Expression
