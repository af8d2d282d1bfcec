import Parkour.Language.Expression.Machine

/-!
# The grammar of expressions

A sentence is put together from numbers, names, parentheses, signs and operators. A
reading of a sentence is its tree: sums bind weakest, then products, then signs, then
powers, and all of them group to the left. A sign behind a power operator reaches over
all the powers that follow it.
-/

namespace Parkour.Language.Expression

/-- The operators between two operands. -/
inductive Binary where
  | add
  | subtract
  | multiply
  | divide
  | power
deriving DecidableEq, Repr

namespace Binary

/-- The token of an operator. -/
def token : Binary → Token
  | add => .plus
  | subtract => .minus
  | multiply => .star
  | divide => .slash
  | power => .power

/-- An operator as it waits on a stack. -/
def operator : Binary → Operator
  | add => .add
  | subtract => .subtract
  | multiply => .multiply
  | divide => .divide
  | power => .power

end Binary

/-- Token lists that are expressions. -/
inductive Sentence : List Token → Prop where
  | number (v : Float) : Sentence [.number v]
  | name (name : String) : Sentence [.name name]
  | group {ts : List Token} : Sentence ts → Sentence (.opening :: ts ++ [.closing])
  | negate {ts : List Token} : Sentence ts → Sentence (.minus :: ts)
  | binary (op : Binary) {ts us : List Token} :
      Sentence ts → Sentence us → Sentence (ts ++ op.token :: us)

/-- Expression trees. -/
inductive Expr where
  | number (v : Float)
  | name (name : String)
  | negate (e : Expr)
  | binary (op : Binary) (left right : Expr)

/-- How close the outermost operator of an expression binds. -/
inductive Tier where
  /-- No operator outside parentheses. -/
  | primary
  /-- Powers. -/
  | powers
  /-- A sign, or powers of which the last one is raised to a sign. -/
  | signed
  | product
  | sum
deriving DecidableEq, Repr

/-- The tier of the expressions that an operator makes. -/
def Binary.tier : Binary → Tier
  | add | subtract => .sum
  | multiply | divide => .product
  | power => .powers

/-- The token list reads as the tree. -/
inductive Reads : Tier → Expr → List Token → Prop where
  | number (v : Float) : Reads .primary (.number v) [.number v]
  | name (name : String) : Reads .primary (.name name) [.name name]
  | group {e : Expr} {ts : List Token} :
      Reads .sum e ts → Reads .primary e (.opening :: ts ++ [.closing])
  | ofPrimary {e : Expr} {ts : List Token} : Reads .primary e ts → Reads .powers e ts
  | power {l r : Expr} {ts us : List Token} :
      Reads .powers l ts → Reads .primary r us →
        Reads .powers (.binary .power l r) (ts ++ .power :: us)
  | ofPowers {e : Expr} {ts : List Token} : Reads .powers e ts → Reads .signed e ts
  | negate {e : Expr} {ts : List Token} :
      Reads .signed e ts → Reads .signed (.negate e) (.minus :: ts)
  | powerNegate {l r : Expr} {ts us : List Token} :
      Reads .powers l ts → Reads .signed r us →
        Reads .signed (.binary .power l (.negate r)) (ts ++ .power :: .minus :: us)
  | ofSigned {e : Expr} {ts : List Token} : Reads .signed e ts → Reads .product e ts
  | product {op : Binary} (h : op.tier = .product) {l r : Expr} {ts us : List Token} :
      Reads .product l ts → Reads .signed r us →
        Reads .product (.binary op l r) (ts ++ op.token :: us)
  | ofProduct {e : Expr} {ts : List Token} : Reads .product e ts → Reads .sum e ts
  | sum {op : Binary} (h : op.tier = .sum) {l r : Expr} {ts us : List Token} :
      Reads .sum l ts → Reads .product r us →
        Reads .sum (.binary op l r) (ts ++ op.token :: us)

/-- Only sentences have a reading. -/
theorem sentence_of_reads {tier : Tier} {e : Expr} {ts : List Token} (h : Reads tier e ts) :
    Sentence ts := by
  induction h with
  | number v => exact .number v
  | name held => exact .name held
  | group _ ih => exact .group ih
  | power _ _ ihl ihr => exact .binary .power ihl ihr
  | negate _ ih => exact .negate ih
  | powerNegate _ _ ihl ihr => exact .binary .power ihl (.negate ihr)
  | product _ _ _ ihl ihr => exact .binary _ ihl ihr
  | sum _ _ _ ihl ihr => exact .binary _ ihl ihr
  | ofPrimary _ ih => exact ih
  | ofPowers _ ih => exact ih
  | ofSigned _ ih => exact ih
  | ofProduct _ ih => exact ih

/-- The token list has a reading. -/
def Readable (tier : Tier) (ts : List Token) : Prop :=
  ∃ e, Reads tier e ts

/-! ## Every sentence has a reading -/

namespace Readable

variable {ts us : List Token} {op : Binary} {token : Token}

theorem ofPrimary (h : Readable .primary ts) : Readable .sum ts := by
  obtain ⟨e, h⟩ := h
  exact ⟨e, .ofProduct (.ofSigned (.ofPowers (.ofPrimary h)))⟩

/-- What can stand before products can stand before sums. -/
theorem beforeSum (h : ∀ us, Readable .product us → Readable .sum (ts ++ token :: us))
    (hus : Readable .sum us) : Readable .sum (ts ++ token :: us) := by
  obtain ⟨e, hus⟩ := hus
  generalize htier : Tier.sum = tier at hus
  induction hus with
  | ofProduct hproduct => exact h _ ⟨_, hproduct⟩
  | @sum other hother l r vs ws _ hr ih =>
      obtain ⟨f, hf⟩ := ih htier
      have hread := Reads.sum hother hf hr
      rw [List.append_assoc] at hread
      exact ⟨_, hread⟩
  | _ => cases htier

/-- What can stand before signed powers can stand before products. -/
theorem beforeProduct (h : ∀ us, Readable .signed us → Readable .product (ts ++ token :: us))
    (hus : Readable .product us) : Readable .product (ts ++ token :: us) := by
  obtain ⟨e, hus⟩ := hus
  generalize htier : Tier.product = tier at hus
  induction hus with
  | ofSigned hsigned => exact h _ ⟨_, hsigned⟩
  | @product other hother l r vs ws _ hr ih =>
      obtain ⟨f, hf⟩ := ih htier
      have hread := Reads.product hother hf hr
      rw [List.append_assoc] at hread
      exact ⟨_, hread⟩
  | _ => cases htier

theorem sum (hop : op.tier = .sum) (hts : Readable .sum ts) (hus : Readable .sum us) :
    Readable .sum (ts ++ op.token :: us) := by
  obtain ⟨e, hts⟩ := hts
  refine beforeSum ?_ hus
  rintro vs ⟨f, hvs⟩
  exact ⟨_, .sum hop hts hvs⟩

theorem product (hop : op.tier = .product) (hts : Readable .product ts)
    (hus : Readable .product us) : Readable .product (ts ++ op.token :: us) := by
  obtain ⟨e, hts⟩ := hts
  refine beforeProduct ?_ hus
  rintro vs ⟨f, hvs⟩
  exact ⟨_, .product hop hts hvs⟩

/-- What can stand behind products can stand behind sums. -/
theorem behindSum (h : ∀ ts, Readable .product ts → Readable .sum (ts ++ token :: us))
    (hts : Readable .sum ts) : Readable .sum (ts ++ token :: us) := by
  obtain ⟨e, hts⟩ := hts
  cases hts with
  | ofProduct hproduct => exact h _ ⟨_, hproduct⟩
  | sum hop hl hr =>
      rw [List.append_assoc]
      exact sum hop ⟨_, hl⟩ (h _ ⟨_, hr⟩)

theorem productOfSums (hop : op.tier = .product) (hts : Readable .sum ts)
    (hus : Readable .sum us) : Readable .sum (ts ++ op.token :: us) := by
  refine behindSum (fun vs hvs => beforeSum (fun ws hws => ?_) hus) hts
  obtain ⟨e, he⟩ := product hop hvs hws
  exact ⟨e, .ofProduct he⟩

theorem powers (hts : Readable .powers ts) (hus : Readable .powers us) :
    Readable .powers (ts ++ .power :: us) := by
  obtain ⟨e, hts⟩ := hts
  obtain ⟨f, hus⟩ := hus
  generalize htier : Tier.powers = tier at hus
  induction hus with
  | ofPrimary hprimary => exact ⟨_, .power hts hprimary⟩
  | @power l r vs ws _ hr ihl _ =>
      obtain ⟨g, hg⟩ := ihl htier
      have hread := Reads.power hg hr
      rw [List.append_assoc] at hread
      exact ⟨_, hread⟩
  | _ => cases htier

theorem powerOfPowers (hts : Readable .powers ts) (hus : Readable .signed us) :
    Readable .signed (ts ++ .power :: us) := by
  obtain ⟨f, hus⟩ := hus
  cases hus with
  | ofPowers hpowers =>
      obtain ⟨g, hg⟩ := powers hts ⟨_, hpowers⟩
      exact ⟨g, .ofPowers hg⟩
  | negate hsigned =>
      obtain ⟨e, hts⟩ := hts
      exact ⟨_, .powerNegate hts hsigned⟩
  | powerNegate hl hr =>
      obtain ⟨g, hg⟩ := powers hts ⟨_, hl⟩
      have hread := Reads.powerNegate hg hr
      rw [List.append_assoc] at hread
      exact ⟨_, hread⟩

/-- A power reaches into the signed powers on its left. -/
theorem powerOfSigned (hts : Readable .signed ts) (hus : Readable .signed us) :
    Readable .signed (ts ++ .power :: us) := by
  obtain ⟨e, hts⟩ := hts
  generalize htier : Tier.signed = tier at hts
  induction hts with
  | ofPowers hpowers => exact powerOfPowers ⟨_, hpowers⟩ hus
  | negate _ ih =>
      obtain ⟨g, hg⟩ := ih htier
      exact ⟨_, .negate hg⟩
  | powerNegate hl _ _ ihr =>
      obtain ⟨g, hg⟩ := ihr htier
      have hread := Reads.powerNegate hl hg
      rw [List.append_assoc]
      exact ⟨_, hread⟩
  | _ => cases htier

theorem powerOfProducts (hts : Readable .product ts) (hus : Readable .product us) :
    Readable .product (ts ++ .power :: us) := by
  refine beforeProduct (fun vs hvs => ?_) hus
  obtain ⟨e, hts⟩ := hts
  cases hts with
  | ofSigned hsigned =>
      obtain ⟨g, hg⟩ := powerOfSigned ⟨_, hsigned⟩ hvs
      exact ⟨g, .ofSigned hg⟩
  | product hop hl hr =>
      obtain ⟨g, hg⟩ := powerOfSigned ⟨_, hr⟩ hvs
      have hread := Reads.product hop hl hg
      rw [List.append_assoc]
      exact ⟨_, hread⟩

theorem powerOfSums (hts : Readable .sum ts) (hus : Readable .sum us) :
    Readable .sum (ts ++ .power :: us) := by
  refine behindSum (fun vs hvs => beforeSum (fun ws hws => ?_) hus) hts
  obtain ⟨e, he⟩ := powerOfProducts hvs hws
  exact ⟨e, .ofProduct he⟩

theorem negateProduct (hts : Readable .product ts) : Readable .product (.minus :: ts) := by
  obtain ⟨e, hts⟩ := hts
  generalize htier : Tier.product = tier at hts
  induction hts with
  | ofSigned hsigned => exact ⟨_, .ofSigned (.negate hsigned)⟩
  | product hop _ hr ih =>
      obtain ⟨f, hf⟩ := ih htier
      exact ⟨_, .product hop hf hr⟩
  | _ => cases htier

theorem negateSum (hts : Readable .sum ts) : Readable .sum (.minus :: ts) := by
  obtain ⟨e, hts⟩ := hts
  generalize htier : Tier.sum = tier at hts
  induction hts with
  | ofProduct hproduct =>
      obtain ⟨f, hf⟩ := negateProduct ⟨_, hproduct⟩
      exact ⟨f, .ofProduct hf⟩
  | sum hop _ hr ih =>
      obtain ⟨f, hf⟩ := ih htier
      exact ⟨_, .sum hop hf hr⟩
  | _ => cases htier

/-- Every sentence has a tree. -/
theorem of_sentence (h : Sentence ts) : Readable .sum ts := by
  induction h with
  | number v => exact ofPrimary ⟨_, .number v⟩
  | name name => exact ofPrimary ⟨_, .name name⟩
  | group _ ih =>
      obtain ⟨e, he⟩ := ih
      exact ofPrimary ⟨e, .group he⟩
  | negate _ ih => exact negateSum ih
  | binary op _ _ ihl ihr =>
      cases op with
      | add => exact sum rfl ihl ihr
      | subtract => exact sum rfl ihl ihr
      | multiply => exact productOfSums rfl ihl ihr
      | divide => exact productOfSums rfl ihl ihr
      | power => exact powerOfSums ihl ihr

end Readable

end Parkour.Language.Expression
