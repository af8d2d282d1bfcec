import Parkour.Language.Expression.Token
import Parkour.Number.Power
/-!
# Evaluation of expressions

Two stacks, one of numbers and one of operators. An operator waits until one that
binds no closer follows it, so operators of one rank group to the left, powers
among them. A sign binds closer than a product and less close than a power.
-/

namespace Parkour.Language.Expression

/-- What waits on the stack of operators. -/
inductive Operator where
  | add
  | subtract
  | multiply
  | divide
  | power
  | negate
  /-- An open parenthesis. -/
  | opening
deriving DecidableEq, Repr

namespace Operator

/-- How close an operator binds. -/
def rank : Operator → Nat
  | opening => 0
  | add | subtract => 1
  | multiply | divide => 2
  | negate => 3
  | power => 4

/-- The result of an operation on two numbers. Zero has no inverse. -/
def combine (op : Operator) (left right : Float) : Except ExpressionFault Float :=
  let result : Except ExpressionFault Float := match op with
    | add => .ok (left + right)
    | subtract => .ok (left - right)
    | multiply => .ok (left * right)
    | divide => if right == 0 then .error .divisionByZero else .ok (left / right)
    | power =>
        if left == 0 && right < 0 then .error .divisionByZero
        else .ok (Number.power left right)
    | negate | opening => .error .operatorMissing
  match result with
  | .ok v => if v.isNaN then .error .domain else .ok v
  | .error fault => .error fault

/-- Applies an operator to the numbers on top of the stack. -/
def apply : Operator → List Float → Except ExpressionFault (List Float)
  | negate, v :: rest => .ok (-v :: rest)
  | negate, [] => .error .operandMissing
  | op, right :: left :: rest => (op.combine left right).map (· :: rest)
  | _, _ => .error .operandMissing

end Operator

/-- The two stacks, each with its top in front. -/
structure Stacks where
  /-- The operators that wait. -/
  operators : List Operator := []
  /-- The numbers that wait. -/
  operands : List Float := []

/-- Applies the operators on top that bind at least as close as `rank`, up to the
innermost open parenthesis. -/
def settle (rank : Nat) : List Operator → List Float → Except ExpressionFault Stacks
  | [], xs => .ok ⟨[], xs⟩
  | op :: ops, xs =>
      if op = .opening ∨ op.rank < rank then .ok ⟨op :: ops, xs⟩
      else do settle rank ops (← op.apply xs)

/-- Applies the operators inside the innermost parenthesis and closes it. -/
def close : List Operator → List Float → Except ExpressionFault Stacks
  | [], _ => .error .unbalancedClosing
  | op :: ops, xs =>
      if op = .opening then .ok ⟨ops, xs⟩ else do close ops (← op.apply xs)

/-- Applies all operators. -/
def finish : List Operator → List Float → Except ExpressionFault Float
  | [], [v] => .ok v
  | [], [] => .error .operandMissing
  | [], _ => .error .operatorMissing
  | op :: ops, xs =>
      if op = .opening then .error .unbalancedOpening else do finish ops (← op.apply xs)

/-- Lets an operator wait, after those that come before it. -/
def Stacks.await (s : Stacks) (op : Operator) : Except ExpressionFault Stacks := do
  let s ← settle op.rank s.operators s.operands
  return { s with operators := op :: s.operators }

/-- The number behind a name. -/
def valueOf (scope : Scope) (name : String) : Except ExpressionFault Float :=
  match (scope.get? name).bind Value.number? with
  | some v => .ok v
  | none => .error (.undefined name)

/-- Whether a minus after `previous` is a sign. -/
def isSign (previous : Option Token) (s : Stacks) : Bool :=
  match previous with
  | none => true
  | some token => !token.endsOperand || s.operands.isEmpty

/-- Takes one token. -/
def Stacks.take (scope : Scope) (previous : Option Token) (s : Stacks) (token : Token) :
    Except ExpressionFault Stacks :=
  match token with
  | .number v => .ok { s with operands := v :: s.operands }
  | .name name => (valueOf scope name).map fun v => { s with operands := v :: s.operands }
  | .opening => .ok { s with operators := .opening :: s.operators }
  | .closing => close s.operators s.operands
  | .plus => s.await .add
  | .minus =>
      if isSign previous s then .ok { s with operators := .negate :: s.operators }
      else s.await .subtract
  | .star => s.await .multiply
  | .slash => s.await .divide
  | .power => s.await .power

/-- Refuses an operand right behind another one. -/
def checkNeighbours (previous : Option Token) (token : Token) : Except ExpressionFault Unit :=
  match previous with
  | none => .ok ()
  | some before =>
      if before.endsOperand && token.startsOperand then
        .error (.juxtaposed before.text token.text)
      else .ok ()

/-- Takes the tokens in order and applies what is left. -/
def run (scope : Scope) (previous : Option Token) (s : Stacks) :
    List Token → Except ExpressionFault Float
  | [] => finish s.operators s.operands
  | token :: rest => do
      checkNeighbours previous token
      let s ← s.take scope previous token
      run scope (some token) s rest

/-- The value of a text that is not blank. -/
def value (text : String) (scope : Scope) : Except ExpressionFault Float := do
  run scope none {} (← tokens text)

/-- The value of an expression. A blank text counts as zero. A name without a
number is an undefined name; any other failure makes the text malformed. -/
def evaluate (text : String) (scope : Scope) : Except Fault Float :=
  if Text.isBlankText text then .ok 0
  else match value text scope with
    | .ok v => .ok v
    | .error (.undefined name) => .error (.undefined name [])
    | .error fault => .error (.unplaced (.expression (Text.trim text) fault))

end Parkour.Language.Expression
