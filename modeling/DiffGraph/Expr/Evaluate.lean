import DiffGraph.Element
import DiffGraph.Expr.Basic

/-!
# Evaluating a node

`evaluate` computes the results of one node from the buffers of its operands.
The elements are numbers, dual numbers or scalar graphs: one definition serves
them all. Results that nobody wants are skipped; a result buffer starts as
zeros, so what the operation does not write stays zero. Buffers that are too
short for the operation are a misuse.
-/

namespace DiffGraph

namespace Expr

variable {m : Type → Type} [Monad m] {α T : Type} [Scalar α] [Element m α T]

def zeroElement : m T :=
  Element.ofScalar (0 : α)

/-- A buffer of `n` elements: the front of the given ones, filled up with zeros. -/
def fitted (n : Nat) (xs : List T) : m (List T) := do
  if n ≤ xs.length then return xs.take n
  else return xs ++ List.replicate (n - xs.length) (← zeroElement)

/-- The first `n` nonzeros of an operand, or its single one `n` times. -/
def spread (single : Bool) (n : Nat) (xs : List T) : Option (List T) :=
  if single then if n = 0 then some [] else xs.head?.map (List.replicate n)
  else if n ≤ xs.length then some (xs.take n) else none

def picked (mapping : List Nat) (xs : List T) : Option (List T) :=
  let buffer := xs.toArray
  mapping.mapM fun k => buffer[k]?

def pickedWhere (mapping : List (Option Nat)) (xs : List T) : Option (List (Option T)) :=
  let buffer := xs.toArray
  mapping.mapM fun
    | some k => buffer[k]?.map some
    | none => some none

def pairwise (op : BinaryOp) (xs ys : List T) : m (List T) :=
  (xs.zip ys).mapM fun (x, y) => Element.binary op x y

/-- The sum of products, added up from the left. -/
def dotProduct (xs ys : List T) : m T := do
  (xs.zip ys).foldlM (fun total (x, y) => do Element.binary .add total (← Element.binary .mul x y))
    (← zeroElement)

/-- The nonzeros of the first result, for operand buffers `args` and `n` nonzeros; `none` if the
buffers are too short. -/
def firstResult (op : Op α) (n : Nat) (args : List (List T)) : Option (m (List T)) :=
  match op with
  | .symbol _ | .output _ | .split .. => some (fitted n [])
  | .constant nz => some (nz.mapM Element.ofScalar >>= fitted n)
  | .unary op => do
    let x ← args[0]?
    return (x.take n).mapM (Element.unary op) >>= fitted n
  | .binary op broadcast => do
    let x ← args[0]? >>= spread (broadcast == .left) n
    let y ← args[1]? >>= spread (broadcast == .right) n
    return pairwise op x y
  | .innerProduct => do
    let x ← args[0]?
    let y ← args[1]?
    return do return [← dotProduct x y]
  | .transpose mapping => do
    let x ← args[0]? >>= picked (mapping.take n)
    return fitted n x
  | .project mapping => do
    let x ← args[0]? >>= pickedWhere (mapping.take n)
    return (x.mapM fun y => (y.elim zeroElement pure : m T)) >>= fitted n
  | .join _ =>
    let x := args.flatten
    if n < x.length then none else some (fitted n x)

/-- The results of a split that somebody reads. -/
def splitResults (offsets : List Nat) (count : Nat) (args : List (List T)) (want : Nat → Bool) :
    Option (List (Option (List T))) := do
  let x ← args[0]?
  (List.range count).mapM fun i =>
    if want i then do
      return some (← slice? x (← offsets[i]?) (← offsets[i + 1]?))
    else some none

/-- The results of a node; `want i` tells whether somebody reads result `i`. -/
def evaluate (e : Expr α) (args : List (List T)) (want : Nat → Bool) :
    ExceptT GraphError m (List (Option (List T))) :=
  match e.op with
  | .split _ offsets =>
    match splitResults offsets e.resultCount args want with
    | some results => pure results
    | none => throw .misuse
  | op =>
    if want 0 then
      match firstResult (m := m) op e.nnz args with
      | some result => return [some (← ExceptT.lift result)]
      | none => throw .misuse
    else pure [none]

end Expr

end DiffGraph
