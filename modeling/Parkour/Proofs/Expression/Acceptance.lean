import Parkour.Proofs.Expression.Evaluation

/-!
# What counts as an expression

The machine never looks at a whole expression. That it takes little else than
sentences is a matter of counting: an operator that comes too early, or a parenthesis
that closes too early, leaves fewer operands than the operators need, and no later
token makes up for it. The one exception are empty parentheses before the first
operand. A minus behind them is a sign, so they leave no trace.
-/

namespace Parkour.Language.Expression

/-! ## Operators take operands -/

/-- Whether an operator stands between two operands. -/
def Operator.isBinary : Operator → Bool
  | .negate | .opening => false
  | _ => true

/-- How many operators wait for two operands. -/
def binaries (ops : List Operator) : Nat :=
  ops.countP Operator.isBinary

/-- How many parentheses are open. -/
def openings (ops : List Operator) : Nat :=
  ops.count .opening

/-- The operands that are left when all operators have been applied. -/
def Stacks.surplus (s : Stacks) : Int :=
  s.operands.length - binaries s.operators

/-- Some operators on top have been applied. -/
inductive Applied : Stacks → Stacks → Prop where
  | refl (s : Stacks) : Applied s s
  | step {op : Operator} {ops : List Operator} {xs ys : List Float} {t : Stacks} :
      op.apply xs = .ok ys → Applied ⟨ops, ys⟩ t → Applied ⟨op :: ops, xs⟩ t

theorem applied_of_settle {rank : Nat} {ops : List Operator} {xs : List Float} {s : Stacks}
    (h : settle rank ops xs = .ok s) : Applied ⟨ops, xs⟩ s := by
  induction ops generalizing xs with
  | nil =>
      cases h
      exact .refl _
  | cons op rest ih =>
      rw [settle] at h
      split at h
      · cases h
        exact .refl _
      · obtain ⟨ys, hys, h⟩ := bind_eq_ok h
        exact .step hys (ih h)

theorem applied_of_close {ops : List Operator} {xs : List Float} {s : Stacks}
    (h : close ops xs = .ok s) :
    Applied ⟨ops, xs⟩ ⟨.opening :: s.operators, s.operands⟩ := by
  induction ops generalizing xs with
  | nil => cases h
  | cons op rest ih =>
      rw [close] at h
      split at h
      · next hop =>
        cases h
        rw [hop]
        exact .refl _
      · obtain ⟨ys, hys, h⟩ := bind_eq_ok h
        exact .step hys (ih h)

theorem applied_of_finish {ops : List Operator} {xs : List Float} {v : Float}
    (h : finish ops xs = .ok v) : Applied ⟨ops, xs⟩ ⟨[], [v]⟩ := by
  induction ops generalizing xs with
  | nil =>
      match xs, h with
      | [_], h =>
          cases h
          exact .refl _
  | cons op rest ih =>
      rw [finish] at h
      split at h
      · cases h
      · obtain ⟨ys, hys, h⟩ := bind_eq_ok h
        exact .step hys (ih h)

/-- An operator that was applied found its operands and left its result. -/
theorem apply_eq_ok {op : Operator} {xs ys : List Float} (h : op.apply xs = .ok ys) :
    op ≠ .opening ∧ xs ≠ [] ∧ ys ≠ [] ∧
      xs.length = ys.length + if op.isBinary then 1 else 0 := by
  cases op with
  | negate =>
      match xs, h with
      | v :: rest, h =>
          cases h
          simp [Operator.isBinary]
  | opening =>
      match xs, h with
      | right :: left :: rest, h => cases h
  | _ =>
      match xs, h with
      | right :: left :: rest, h =>
          obtain ⟨v, -, rfl⟩ := map_eq_ok h
          simp [Operator.isBinary]

/-- Applying operators neither makes nor takes surplus operands. -/
theorem Applied.keeps {s t : Stacks} (h : Applied s t) :
    t.surplus = s.surplus ∧ openings t.operators = openings s.operators := by
  induction h with
  | refl s => exact ⟨rfl, rfl⟩
  | @step op ops xs ys t happly _ ih =>
      obtain ⟨hop, -, -, hlength⟩ := apply_eq_ok happly
      obtain ⟨hsurplus, hopenings⟩ := ih
      rw [hsurplus, hopenings]
      constructor
      · simp only [Stacks.surplus, binaries, List.countP_cons, hlength]
        split
        · omega
        · omega
      · simp [openings, hop]

theorem Applied.filled {s t : Stacks} (h : Applied s t) (hs : s.operands ≠ []) :
    t.operands ≠ [] := by
  induction h with
  | refl s => exact hs
  | step happly _ ih => exact ih (apply_eq_ok happly).2.2.1

theorem Applied.eq_of_empty {s t : Stacks} (h : Applied s t) (hs : s.operands = []) :
    t = s := by
  cases h with
  | refl s => rfl
  | step happly _ => exact absurd hs (apply_eq_ok happly).2.1

/-! ## What has been read -/

/-- Tokens after which an operand of a sentence is still to come, with so many open
parentheses. -/
inductive Context : Nat → List Token → Prop where
  | nil : Context 0 []
  | opening {depth : Nat} {ts : List Token} :
      Context depth ts → Context (depth + 1) (ts ++ [.opening])
  | sign {depth : Nat} {ts : List Token} : Context depth ts → Context depth (ts ++ [.minus])
  | binary (op : Binary) {depth : Nat} {ts us : List Token} :
      Context depth ts → Sentence us → Context depth (ts ++ us ++ [op.token])

/-- A closing parenthesis ends a sentence in one parenthesis less. -/
theorem Context.close {depth : Nat} {ts us : List Token} (h : Context (depth + 1) ts)
    (hus : Sentence us) :
    ∃ vs ws, ts ++ us ++ [.closing] = vs ++ ws ∧ Context depth vs ∧ Sentence ws := by
  generalize hdepth : depth + 1 = inside at h
  induction h generalizing us with
  | nil => cases hdepth
  | @opening outside ts hts _ =>
      cases hdepth
      exact ⟨ts, .opening :: us ++ [.closing], by simp, hts, .group hus⟩
  | sign _ ih =>
      obtain ⟨vs, ws, heq, hvs, hws⟩ := ih (.negate hus) hdepth
      exact ⟨vs, ws, by simpa using heq, hvs, hws⟩
  | binary op _ hleft ih =>
      obtain ⟨vs, ws, heq, hvs, hws⟩ := ih (.binary op hleft hus) hdepth
      exact ⟨vs, ws, by simpa using heq, hvs, hws⟩

/-- Outside all parentheses a sentence completes the whole. -/
theorem Context.sentence {ts us : List Token} (h : Context 0 ts) (hus : Sentence us) :
    Sentence (ts ++ us) := by
  generalize hdepth : 0 = depth at h
  induction h generalizing us with
  | nil => exact hus
  | opening _ _ => cases hdepth
  | sign _ ih =>
      have hwhole := ih (.negate hus) hdepth
      simpa using hwhole
  | binary op _ hleft ih =>
      have hwhole := ih (.binary op hleft hus) hdepth
      simpa using hwhole

/-- Parentheses around nothing. -/
inductive Empties : List Token → Prop where
  | pair : Empties [.opening, .closing]
  | nest {ts : List Token} : Empties ts → Empties (.opening :: ts ++ [.closing])

/-- The first list is the second one with empty parentheses put directly before signs,
all of them ahead of the first operand. -/
inductive Padded : List Token → List Token → Prop where
  | refl (ts : List Token) : Padded ts ts
  | opening {ts us : List Token} : Padded ts us → Padded (.opening :: ts) (.opening :: us)
  | sign {ts us : List Token} : Padded ts us → Padded (.minus :: ts) (.minus :: us)
  | group {gs ts us : List Token} :
      Empties gs → Padded ts us → Padded (gs ++ .minus :: ts) (.minus :: us)

/-- Tokens ahead of the first operand, with the operators that they leave waiting and
without their empty parentheses. -/
inductive Lead : List Operator → List Token → List Token → Prop where
  | nil : Lead [] [] []
  | opening {ops : List Operator} {ts us : List Token} :
      Lead ops ts us → Lead (.opening :: ops) (ts ++ [.opening]) (us ++ [.opening])
  | sign {ops : List Operator} {ts us : List Token} :
      Lead ops ts us → Lead (.negate :: ops) (ts ++ [.minus]) (us ++ [.minus])
  | group {ops : List Operator} {gs ts us : List Token} :
      Lead ops ts us → Empties gs → Lead (.negate :: ops) (ts ++ gs ++ [.minus]) (us ++ [.minus])

/-- The second list is the first one without empty parentheses, whatever follows. -/
def Shown (ts us : List Token) : Prop :=
  ∀ rest, Padded (ts ++ rest) (us ++ rest)

theorem Shown.snoc {ts us : List Token} (h : Shown ts us) (token : Token) :
    Shown (ts ++ [token]) (us ++ [token]) := by
  intro rest
  simpa using h (token :: rest)

variable {ops : List Operator} {ts us : List Token}

theorem Lead.padded (h : Lead ops ts us) {rest rest' : List Token} (hrest : Padded rest rest') :
    Padded (ts ++ rest) (us ++ rest') := by
  induction h generalizing rest rest' with
  | nil => exact hrest
  | opening _ ih =>
      have hpadded := ih (.opening hrest)
      simpa using hpadded
  | sign _ ih =>
      have hpadded := ih (.sign hrest)
      simpa using hpadded
  | group _ hgs ih =>
      have hpadded := ih (.group hgs hrest)
      simpa using hpadded

theorem Lead.shown (h : Lead ops ts us) : Shown ts us :=
  fun rest => h.padded (.refl rest)

theorem Lead.binaries_eq (h : Lead ops ts us) : binaries ops = 0 := by
  induction h with
  | nil => rfl
  | opening _ ih => simpa [binaries, Operator.isBinary] using ih
  | sign _ ih => simpa [binaries, Operator.isBinary] using ih
  | group _ _ ih => simpa [binaries, Operator.isBinary] using ih

theorem Lead.context (h : Lead ops ts us) : Context (openings ops) us := by
  induction h with
  | nil => exact .nil
  | opening _ ih =>
      have hopening := ih.opening
      simpa [openings] using hopening
  | sign _ ih =>
      have hsign := ih.sign
      simpa [openings] using hsign
  | group _ _ ih =>
      have hsign := ih.sign
      simpa [openings] using hsign

/-! ## One token -/

/-- Where a run stands when it has taken `ts`. -/
inductive Status : List Token → Option Token → Stacks → Prop where
  /-- Ahead of the first operand. -/
  | lead {ops : List Operator} {ts us : List Token} {previous : Option Token} :
      Lead ops ts us → Expecting previous → Status ts previous ⟨ops, []⟩
  /-- Behind empty parentheses ahead of the first operand. -/
  | emptied {ops : List Operator} {gs ts us : List Token} :
      Lead ops ts us → Empties gs → Status (ts ++ gs) (some .closing) ⟨ops, []⟩
  /-- An operand is still to come, and none is missing. -/
  | expecting {ts us : List Token} {previous : Option Token} {s : Stacks} :
      Shown ts us → Context (openings s.operators) us → Expecting previous →
        s.surplus = 0 → s.operands ≠ [] → Status ts previous s
  /-- Behind an operand, and none is missing. -/
  | complete {ts us vs : List Token} {token : Token} {s : Stacks} :
      Shown ts (us ++ vs) → Context (openings s.operators) us → Sentence vs →
        token.endsOperand = true → s.surplus = 1 → s.operands ≠ [] → Status ts (some token) s
  /-- An operand is missing that no later token can supply. -/
  | short {ts : List Token} {previous : Option Token} {s : Stacks} :
      s.surplus < 1 → (Expecting previous → s.surplus < 0) →
        (s.operands = [] → 0 < binaries s.operators) → Status ts previous s

variable {scope : Scope} {previous : Option Token} {token : Token} {s t : Stacks}

theorem not_expecting_some (h : token.endsOperand = true) : ¬Expecting (some token) := by
  intro hexpecting
  rw [hexpecting token rfl] at h
  cases h

theorem expecting_of_check (h : checkNeighbours previous token = .ok ())
    (htoken : token.startsOperand = true) : Expecting previous := by
  cases previous with
  | none =>
      intro other hother
      cases hother
  | some before =>
      refine expecting_some (Bool.eq_false_iff.mpr fun hbefore => ?_)
      simp [checkNeighbours, hbefore, htoken] at h

theorem expecting_or_empty (h : isSign previous s = true) :
    Expecting previous ∨ s.operands = [] := by
  cases previous with
  | none =>
      left
      intro other hother
      cases hother
  | some before =>
      rcases Bool.or_eq_true_iff.mp h with hends | hnil
      · exact Or.inl (expecting_some (by simpa using hends))
      · exact Or.inr (List.isEmpty_iff.mp hnil)

theorem status_operand (h : Status ts previous s) (hprevious : Expecting previous)
    (hsentence : Sentence [token]) (htoken : token.endsOperand = true) (v : Float) :
    Status (ts ++ [token]) (some token) { s with operands := v :: s.operands } := by
  cases h with
  | lead hlead _ =>
      refine .complete (hlead.shown.snoc token) hlead.context hsentence htoken ?_ ?_
      · simp [Stacks.surplus, hlead.binaries_eq]
      · exact List.cons_ne_nil v _
  | emptied _ _ => exact absurd hprevious (not_expecting_some rfl)
  | expecting hshown hcontext _ hsurplus _ =>
      refine .complete (hshown.snoc token) hcontext hsentence htoken ?_ ?_
      · simp only [Stacks.surplus, List.length_cons] at hsurplus ⊢
        omega
      · exact List.cons_ne_nil v _
  | complete _ _ _ hends _ _ => exact absurd hprevious (not_expecting_some hends)
  | short _ hsurplus _ =>
      have hless := hsurplus hprevious
      refine .short ?_ (fun hexpecting => absurd hexpecting (not_expecting_some htoken)) ?_
      · simp only [Stacks.surplus, List.length_cons] at hless ⊢
        omega
      · exact fun hnil => absurd hnil (List.cons_ne_nil v _)

theorem status_opening (h : Status ts previous s) (hprevious : Expecting previous) :
    Status (ts ++ [.opening]) (some .opening)
      { s with operators := .opening :: s.operators } := by
  have hsame : Stacks.surplus { s with operators := .opening :: s.operators } = s.surplus := by
    simp [Stacks.surplus, binaries, Operator.isBinary]
  cases h with
  | lead hlead _ => exact .lead hlead.opening (expecting_some rfl)
  | emptied _ _ => exact absurd hprevious (not_expecting_some rfl)
  | expecting hshown hcontext _ hsurplus hfilled =>
      refine .expecting (hshown.snoc _) ?_ (expecting_some rfl) (hsame.trans hsurplus) hfilled
      have hopening := hcontext.opening
      simpa [openings] using hopening
  | complete _ _ _ hends _ _ => exact absurd hprevious (not_expecting_some hends)
  | short hone hsurplus hbinaries =>
      refine .short ?_ (fun _ => ?_) ?_
      · rwa [hsame]
      · rw [hsame]
        exact hsurplus hprevious
      · simpa [binaries, Operator.isBinary] using hbinaries

theorem status_sign (h : Status ts previous s) (hsign : isSign previous s = true) :
    Status (ts ++ [.minus]) (some .minus)
      { s with operators := .negate :: s.operators } := by
  have hsame : Stacks.surplus { s with operators := .negate :: s.operators } = s.surplus := by
    simp [Stacks.surplus, binaries, Operator.isBinary]
  cases h with
  | lead hlead _ => exact .lead hlead.sign (expecting_some rfl)
  | emptied hlead hgs => exact .lead (hlead.group hgs) (expecting_some rfl)
  | expecting hshown hcontext _ hsurplus hfilled =>
      refine .expecting (hshown.snoc _) ?_ (expecting_some rfl) (hsame.trans hsurplus) hfilled
      have hnegate := hcontext.sign
      simpa [openings] using hnegate
  | complete _ _ _ hends _ hfilled => simp [isSign, hends, hfilled] at hsign
  | short hone hsurplus hbinaries =>
      refine .short ?_ (fun _ => ?_) ?_
      · rwa [hsame]
      · rw [hsame]
        -- A minus behind an operand counts as a sign only if no operand waits; then the
        -- operators that wait make the surplus negative.
        rcases expecting_or_empty hsign with hexpecting | hnil
        · exact hsurplus hexpecting
        · have hwaiting := hbinaries hnil
          simp only [Stacks.surplus, hnil, List.length_nil]
          omega
      · simpa [binaries, Operator.isBinary] using hbinaries

/-- Behind an operand an operator takes one operand away, anywhere else it leaves too
few. -/
theorem status_binary (op : Binary) (h : Status ts previous s)
    (hawait : s.await op.operator = .ok t) :
    Status (ts ++ [op.token]) (some op.token) t := by
  obtain ⟨r, hsettle, ht⟩ := bind_eq_ok hawait
  cases ht
  have happlied : Applied s r := applied_of_settle hsettle
  obtain ⟨hsurplus, hopenings⟩ := happlied.keeps
  have hbinary : op.operator.isBinary = true := by cases op <;> rfl
  -- What is applied first does not change the surplus; the new operator lowers it.
  have hless : Stacks.surplus { r with operators := op.operator :: r.operators } =
      s.surplus - 1 := by
    rw [← hsurplus]
    simp only [Stacks.surplus, binaries, List.countP_cons, hbinary, if_true]
    omega
  have hsame : openings (op.operator :: r.operators) = openings s.operators := by
    rw [← hopenings]
    simp [openings, operator_ne_opening op]
  have hshort : s.surplus < 1 → Status (ts ++ [op.token]) (some op.token)
      { r with operators := op.operator :: r.operators } := by
    intro hone
    refine .short ?_ (fun _ => ?_) (fun _ => ?_)
    · omega
    · omega
    · simp [binaries, hbinary]
  cases h with
  | lead hlead _ =>
      refine hshort ?_
      simp [Stacks.surplus, hlead.binaries_eq]
  | emptied hlead _ =>
      refine hshort ?_
      simp [Stacks.surplus, hlead.binaries_eq]
  | expecting _ _ _ hzero _ =>
      refine hshort ?_
      omega
  | @complete _ us vs _ _ hshown hcontext hsentence _ hone hfilled =>
      have hcontext : Context (openings (op.operator :: r.operators))
          (us ++ vs ++ [op.token]) := by
        rw [hsame]
        exact hcontext.binary op hsentence
      refine .expecting (hshown.snoc _) hcontext (expecting_some (endsOperand_token op)) ?_
        (happlied.filled hfilled)
      omega
  | short hone _ _ => exact hshort hone

/-- A closing parenthesis ends a sentence or, ahead of the first operand, an empty
parenthesis. -/
theorem status_closing (h : Status ts previous s)
    (hclose : close s.operators s.operands = .ok t) :
    Status (ts ++ [.closing]) (some .closing) t := by
  have happlied : Applied s ⟨.opening :: t.operators, t.operands⟩ := applied_of_close hclose
  obtain ⟨hsurplus, hopenings⟩ := happlied.keeps
  have hsame : t.surplus = s.surplus := by
    rw [← hsurplus]
    simp [Stacks.surplus, binaries, Operator.isBinary]
  have hinside : openings s.operators = openings t.operators + 1 := by
    rw [← hopenings]
    simp [openings]
  have hnot : ¬Expecting (some .closing) := not_expecting_some rfl
  cases h with
  | lead hlead _ =>
      -- Without operands nothing can have been applied, so a parenthesis is on top.
      obtain ⟨waiting, rest⟩ := t
      cases happlied.eq_of_empty rfl
      cases hlead with
      | opening hbefore =>
          rw [List.append_assoc]
          exact .emptied hbefore .pair
  | emptied hlead hgs =>
      obtain ⟨waiting, rest⟩ := t
      cases happlied.eq_of_empty rfl
      cases hlead with
      | opening hbefore =>
          simp only [List.append_assoc]
          exact .emptied hbefore hgs.nest
  | expecting _ _ _ hzero hfilled =>
      refine .short ?_ (fun hexpecting => absurd hexpecting hnot) (fun hnil => ?_)
      · omega
      · exact absurd hnil (happlied.filled hfilled)
  | complete hshown hcontext hsentence _ hone hfilled =>
      rw [hinside] at hcontext
      obtain ⟨vs, ws, heq, hvs, hws⟩ := hcontext.close hsentence
      have hshown := hshown.snoc .closing
      rw [heq] at hshown
      exact .complete hshown hvs hws rfl (hsame.trans hone) (happlied.filled hfilled)
  | short hone _ hbinaries =>
      refine .short ?_ (fun hexpecting => absurd hexpecting hnot) (fun hnil => ?_)
      · omega
      · have hnone : s.operands = [] :=
          Classical.not_not.mp fun hfilled => happlied.filled hfilled hnil
        have heq := happlied.eq_of_empty hnone
        have hwaiting := hbinaries hnone
        rw [← heq] at hwaiting
        simpa [binaries, Operator.isBinary] using hwaiting

/-- Every token that is taken moves a run to its next status. -/
theorem status_take (h : Status ts previous s)
    (hcheck : checkNeighbours previous token = .ok ())
    (htake : s.take scope previous token = .ok t) : Status (ts ++ [token]) (some token) t := by
  cases token with
  | number v =>
      cases htake
      exact status_operand h (expecting_of_check hcheck rfl) (.number v) rfl v
  | name held =>
      obtain ⟨v, -, rfl⟩ := map_eq_ok htake
      exact status_operand h (expecting_of_check hcheck rfl) (.name held) rfl v
  | opening =>
      cases htake
      exact status_opening h (expecting_of_check hcheck rfl)
  | closing => exact status_closing h htake
  | minus =>
      rw [Stacks.take] at htake
      split at htake
      · next hsign =>
        cases htake
        exact status_sign h hsign
      · exact status_binary .subtract h htake
  | plus => exact status_binary .add h htake
  | star => exact status_binary .multiply h htake
  | slash => exact status_binary .divide h htake
  | power => exact status_binary .power h htake

/-! ## Whole texts -/

/-- A run ends well only behind a sentence outside all parentheses. -/
theorem sentence_of_finish {v : Float} (h : Status ts previous s)
    (hfinish : finish s.operators s.operands = .ok v) :
    ∃ us, Padded ts us ∧ Sentence us := by
  obtain ⟨hsurplus, hopenings⟩ := (applied_of_finish hfinish).keeps
  have hone : s.surplus = 1 := hsurplus.symm
  have houtside : openings s.operators = 0 := hopenings.symm
  cases h with
  | lead hlead _ => simp [Stacks.surplus, hlead.binaries_eq] at hone
  | emptied hlead _ => simp [Stacks.surplus, hlead.binaries_eq] at hone
  | expecting _ _ _ hzero _ => omega
  | complete hshown hcontext hsentence _ _ _ =>
      rw [houtside] at hcontext
      have hpadded := hshown []
      simp only [List.append_nil] at hpadded
      exact ⟨_, hpadded, hcontext.sentence hsentence⟩
  | short hless _ _ => omega

theorem sentence_of_run {v : Float} {rest : List Token} (h : Status ts previous s)
    (hrun : run scope previous s rest = .ok v) :
    ∃ us, Padded (ts ++ rest) us ∧ Sentence us := by
  induction rest generalizing ts previous s with
  | nil =>
      rw [List.append_nil]
      exact sentence_of_finish h hrun
  | cons token rest ih =>
      rw [run] at hrun
      obtain ⟨_, hcheck, hrun⟩ := bind_eq_ok hrun
      obtain ⟨t, htake, hrun⟩ := bind_eq_ok hrun
      have hpadded := ih (status_take h hcheck htake) hrun
      simpa using hpadded

theorem run_cons {rest : List Token} (hcheck : checkNeighbours previous token = .ok ())
    (htake : s.take scope previous token = .ok t) :
    run scope previous s (token :: rest) = run scope (some token) t rest := by
  rw [run, hcheck, htake]
  rfl

theorem run_opening (hprevious : Expecting previous) (rest : List Token) :
    run scope previous s (.opening :: rest) =
      run scope (some .opening) { s with operators := .opening :: s.operators } rest :=
  run_cons (checkNeighbours_of_expecting hprevious _) rfl

theorem run_sign (hprevious : Expecting previous) (rest : List Token) :
    run scope previous s (.minus :: rest) =
      run scope (some .minus) { s with operators := .negate :: s.operators } rest :=
  run_cons (checkNeighbours_of_expecting hprevious _) (take_sign hprevious)

/-- A parenthesis that closes right after it was opened leaves the stacks alone. -/
theorem run_of_empties {gs : List Token} (h : Empties gs) (hprevious : Expecting previous)
    (rest : List Token) :
    run scope previous s (gs ++ rest) = run scope (some .closing) s rest := by
  induction h generalizing previous s rest with
  | pair =>
      refine (run_opening hprevious _).trans ?_
      exact run_cons (checkNeighbours_of_not_starts rfl) rfl
  | @nest ts _ ih =>
      have hshift : .opening :: ts ++ [.closing] ++ rest =
          .opening :: (ts ++ .closing :: rest) := by simp
      rw [hshift, run_opening hprevious, ih (expecting_some rfl)]
      exact run_cons (checkNeighbours_of_not_starts rfl) rfl

/-- Empty parentheses ahead of the first operand leave no trace. -/
theorem run_of_padded (h : Padded ts us) (hprevious : Expecting previous)
    (hs : s.operands = []) : run scope previous s ts = run scope previous s us := by
  induction h generalizing previous s with
  | refl ts => rfl
  | opening _ ih =>
      rw [run_opening hprevious, run_opening hprevious]
      exact ih (expecting_some rfl) hs
  | sign _ ih =>
      rw [run_sign hprevious, run_sign hprevious]
      exact ih (expecting_some rfl) hs
  | group hgs _ ih =>
      have hsign : s.take scope (some .closing) .minus =
          .ok { s with operators := .negate :: s.operators } := by
        simp [Stacks.take, isSign, hs]
      rw [run_of_empties hgs hprevious, run_cons (checkNeighbours_of_not_starts rfl) hsign,
        run_sign hprevious]
      exact ih (expecting_some rfl) hs

/-- A text with empty parentheses ahead of its first operand has the value of what is
left of it. -/
theorem evaluate_of_padded {text : String} {us : List Token} {e : Expr}
    (htokens : tokens text = .ok ts) (hpadded : Padded ts us) (he : Reads .sum e us) :
    evaluate text scope = (e.value scope).mapError (reported text) := by
  have hnone : Expecting none := fun token htoken => by cases htoken
  have hts : ts ≠ [] := by
    have hus := sentence_ne_nil (sentence_of_reads he)
    cases hpadded with
    | refl _ => exact hus
    | opening _ => exact List.cons_ne_nil _ _
    | sign _ => exact List.cons_ne_nil _ _
    | group _ _ => simp
  rw [evaluate_eq htokens hts, run_of_padded hpadded hnone rfl, run_of_reads he]

/-- An expression has a value only if it is blank or a sentence, but for empty
parentheses before the signs ahead of its first operand. -/
theorem padded_of_evaluate {text : String} {v : Float} (h : evaluate text scope = .ok v) :
    Text.isBlankText text = true ∨
      ∃ ts us, tokens text = .ok ts ∧ Padded ts us ∧ Sentence us := by
  rw [evaluate] at h
  split at h
  · next hblank => exact Or.inl hblank
  · right
    have hvalue : value text scope = .ok v := by
      cases hv : value text scope with
      | ok w =>
          rw [hv] at h
          cases h
          rfl
      | error fault =>
          rw [hv] at h
          cases fault <;> cases h
    obtain ⟨ts, htokens, hrun⟩ := bind_eq_ok hvalue
    have hstart : Status [] none {} := .lead .nil fun token htoken => by cases htoken
    obtain ⟨us, hpadded, hsentence⟩ := sentence_of_run hstart hrun
    exact ⟨ts, us, htokens, hpadded, hsentence⟩

/-- Behind an empty parenthesis a minus is a sign. -/
theorem padded_of_evaluate_sign :
    ∃ ts us, tokens "()-5" = .ok ts ∧ Padded ts us ∧ Sentence us := by
  have hvalue : evaluate "()-5" ∅ = .ok (-5) := by with_unfolding_all rfl
  rcases padded_of_evaluate hvalue with hblank | hpadded
  · have hnot : Text.isBlankText "()-5" = false := by decide
    rw [hnot] at hblank
    cases hblank
  · exact hpadded

/-- A sentence does not start with an empty parenthesis. -/
theorem head_of_sentence (h : Sentence ts) :
    ∃ token rest, ts = token :: rest ∧ token ≠ .closing ∧
      (token = .opening → ∃ next more, rest = next :: more ∧ next ≠ .closing) := by
  induction h with
  | number v => exact ⟨.number v, [], rfl, nofun, nofun⟩
  | name held => exact ⟨.name held, [], rfl, nofun, nofun⟩
  | group _ ih =>
      obtain ⟨token, rest, rfl, htoken, -⟩ := ih
      exact ⟨.opening, _, rfl, nofun, fun _ => ⟨token, rest ++ [.closing], rfl, htoken⟩⟩
  | @negate ts _ _ => exact ⟨.minus, ts, rfl, nofun, nofun⟩
  | @binary op ts us _ _ ih _ =>
      obtain ⟨token, rest, rfl, htoken, hopening⟩ := ih
      refine ⟨token, rest ++ op.token :: us, rfl, htoken, fun heq => ?_⟩
      obtain ⟨next, more, rfl, hnext⟩ := hopening heq
      exact ⟨next, more ++ op.token :: us, rfl, hnext⟩

/-- Texts with a value need not be sentences. -/
theorem not_sentence_of_evaluate :
    ¬∀ (text : String) (scope : Scope) (v : Float), evaluate text scope = .ok v →
      Text.isBlankText text = true ∨ ∃ ts, tokens text = .ok ts ∧ Sentence ts := by
  intro hall
  have hvalue : evaluate "()-5" ∅ = .ok (-5) := by with_unfolding_all rfl
  have htokens : tokens "()-5" = .ok [.opening, .closing, .minus, .number 5] := by
    with_unfolding_all rfl
  rcases hall _ _ _ hvalue with hblank | ⟨ts, hts, hsentence⟩
  · have hnot : Text.isBlankText "()-5" = false := by decide
    rw [hnot] at hblank
    cases hblank
  · cases htokens.symm.trans hts
    obtain ⟨token, rest, heq, -, hopening⟩ := head_of_sentence hsentence
    cases heq
    obtain ⟨next, more, heq, hnext⟩ := hopening rfl
    cases heq
    exact hnext rfl

end Parkour.Language.Expression
