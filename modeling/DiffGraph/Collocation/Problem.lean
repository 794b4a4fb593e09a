import DiffGraph.Expr.Permute
import DiffGraph.Failure
import DiffGraph.Function.Basic

/-!
# Differential-algebraic problems

A forward function `f(X, P, T[, XDOT]) -> (ODE[, QUAD])` and possibly a backward
function `g(RX, RP, X, P, T[, XDOT, RXDOT]) -> (ODE[, QUAD])`. With a nonempty
`XDOT` the forward problem is the implicit `0 = f`, otherwise `f` is the rate of
change. `forwardSizes` and `backwardSizes` check the patterns and read the sizes.
-/

namespace DiffGraph

structure ForwardSizes where
  nx : Nat
  np : Nat
  nq : Nat
  explicit : Bool
  deriving DecidableEq

/-- The sizes of a backward problem; all zero if there is none. -/
structure BackwardSizes where
  nrx : Nat
  nrp : Nat
  nrq : Nat
  deriving DecidableEq

namespace Problem

variable {α : Type}

/-- The pattern of an input or output that is known to exist. -/
def patternOf (ports : List (Expr α)) (i : Nat) : Pattern :=
  (ports[i]?.map Expr.pattern).getD default

/-- The length of an input, which has to be a dense column. -/
def columnLength (f : Function α) (slot : Nat) (label : String) : Except (Failure α) Nat :=
  let p := patternOf f.inputs slot
  if p.isSingleColumn && p.isDense then .ok p.nrows
  else .error (.invalidDae f.name (.notColumn label p))

def quadRows (f : Function α) : Nat :=
  (f.outputs[1]?.map fun q => q.pattern.nrows).getD 0

/-- The sizes of the forward problem that `f` describes. -/
def forwardSizes (f : Function α) : Except (Failure α) ForwardSizes := do
  let nIn := f.inputs.length
  let nOut := f.outputs.length
  let invalid (flaw : DaeFlaw) : Failure α := .invalidDae f.name flaw
  if nIn < 3 ∨ 4 < nIn ∨ nOut < 1 ∨ 2 < nOut then throw (invalid (.forwardPorts nIn nOut))
  let nx ← columnLength f 0 "X"
  if nx = 0 then throw (invalid .emptyState)
  let np ← columnLength f 1 "P"
  if !(patternOf f.inputs 2).isScalar then throw (invalid .timeNotScalar)
  let rates := (f.inputs[3]?.map (·.pattern.numel)).getD 0
  (Size.checkWord rates).mapError .graph
  let explicit := rates == 0
  if !explicit then
    if (← columnLength f 3 "XDOT") ≠ nx then throw (invalid .rateShape)
  if (patternOf f.outputs 0).shape ≠ (nx, 1) then throw (invalid .forwardShape)
  return ⟨nx, np, quadRows f, explicit⟩

/-- The sizes of the backward problem that `g` describes next to a forward problem. -/
def backwardSizes (g : Function α) (fwd : ForwardSizes) :
    Except (Failure α) BackwardSizes := do
  let nIn := g.inputs.length
  let nOut := g.outputs.length
  let invalid (flaw : DaeFlaw) : Failure α := .invalidDae g.name flaw
  let expected := if fwd.explicit then 5 else 7
  if nIn ≠ expected ∨ nOut < 1 ∨ 2 < nOut then
    throw (invalid (.backwardPorts expected nIn nOut))
  let nrx ← columnLength g 0 "RX"
  let nrp ← columnLength g 1 "RP"
  if (← columnLength g 2 "X") ≠ fwd.nx then throw (invalid .unmatched)
  if (← columnLength g 3 "P") ≠ fwd.np then throw (invalid .unmatched)
  if !(patternOf g.inputs 4).isScalar then throw (invalid .timeNotScalar)
  if (patternOf g.outputs 0).shape ≠ (nrx, 1) then throw (invalid .backwardShape)
  return ⟨nrx, nrp, quadRows g⟩

def withDenseOutputs [Scalar α] (f : Function α) : Build (Function α) := do
  let outputs ← f.outputs.mapM fun o => (o.densify : Build (Expr α))
  Function.compile f.name f.inputs outputs

end Problem

end DiffGraph
