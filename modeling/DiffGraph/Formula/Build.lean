import DiffGraph.Expr.Elementwise
import DiffGraph.Expr.Split
import DiffGraph.Formula.Tree

/-!
# Expressions from formulas

`build` turns a syntax tree into an expression over named symbols, from left to
right: names stand for the first symbol of that name, `x[i]` for entry `i` of a
column, and a power multiplies up from ones on the pattern of its base.
-/

namespace DiffGraph.Formula

variable {α : Type} [OrderedScalar α]

abbrev BuildFormula (α : Type) := StateT Nat (Except (Error α))

def onGraph {β : Type} (step : Build β) : BuildFormula α β := fun n =>
  (step n).mapError .graph

def lookup (symbols : List (Expr α)) (name : String) : Except (Error α) (Expr α) :=
  match symbols.find? fun s => s.name? == some name with
  | some s => .ok s
  | none => .error (.unknownVariable name)

def entry (symbols : List (Expr α)) (name : String) (index : Nat) :
    BuildFormula α (Expr α) := do
  let x ← lookup symbols name
  let (n, ncols) := x.shape
  if ncols ≠ 1 ∨ n ≤ index then throw (.indexOutOfRange index name x.shape)
  let parts ← onGraph (do
    Size.checkLength n
    x.vertsplit (List.range (n + 1)))
  match parts[index]? with
  | some part => return part
  | none => throw (.graph .misuse)

/-- `x` multiplied `n` times to `start`. -/
def powerFrom (x start : Expr α) : Nat → Build (Expr α)
  | 0 => pure start
  | n + 1 => do powerFrom x (← Expr.binary .mul start x) n

def power (x : Expr α) (n : Nat) : Build (Expr α) := do
  powerFrom x (← Expr.ones x.pattern) n

/-- The functions that formulas can call. -/
def function? : String → Option UnaryOp
  | "sin" => some .sin
  | "cos" => some .cos
  | "exp" => some .exp
  | "log" | "ln" => some .log
  | _ => none

def build (symbols : List (Expr α)) : Tree α → BuildFormula α (Expr α)
  | .number x => onGraph (Expr.scalar x)
  | .name n => do return ← lookup symbols n
  | .entry n i => entry symbols n i
  | .call f arg => do
    let x ← build symbols arg
    match function? f with
    | some op => onGraph (Expr.unary op x)
    | none => throw (.unknownFunction f)
  | .neg t => do
    let x ← build symbols t
    onGraph (Expr.neg x)
  | .binary op left right => do
    let x ← build symbols left
    let y ← build symbols right
    onGraph (Expr.binary op x y)
  | .power base n => do
    let x ← build symbols base
    onGraph (power x n)
  | .broken e => throw e
  | .abandoned t e => do
    let _ ← build symbols t
    throw e

/-- The expression that a formula describes. -/
def parse (input : String) (symbols : List (Expr α)) : BuildFormula α (Expr α) := do
  let ts ← (tokens input.toList : Except (Error α) _)
  build symbols (Tree.parse ts)

end DiffGraph.Formula
