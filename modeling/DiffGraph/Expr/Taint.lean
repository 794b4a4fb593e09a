import DiffGraph.Expr.Basic

/-!
# Which nonzeros depend on which

`wires` lists for every nonzero of a result the operand nonzeros that it may
depend on. A taint is a word of 64 independent marks. A forward sweep gives a
result nonzero the marks of everything wired to it; a reverse sweep hands the
marks of a result nonzero back along the wires and clears them.
-/

namespace DiffGraph

/-- Sixty-four independent dependency marks. -/
abbrev Taint := UInt64

/-- The direction of a dependency sweep. -/
inductive Sweep where
  | forward | reverse
  deriving DecidableEq

namespace Expr

/-- An operand and one of its nonzeros. -/
abbrev Wire := Nat × Nat

variable {α : Type}

attribute [local instance (high)] Zero.ofOfNat0

/-- Wires from the nonzeros of operand `i` with the given numbers, one each. -/
private def straight (i : Nat) (ks : List Nat) : List (List Wire) :=
  ks.map fun k => [(i, k)]

private def allWires (sizes : List Nat) : List Wire :=
  sizes.zipIdx.flatMap fun (n, i) => (List.range n).map (i, ·)

/-- The wires to a result of `size` nonzeros of an operation with a single result, for operands
with the given numbers of nonzeros; `none` if the sizes do not fit. Nonzeros beyond the list have
nothing to do with the operation. -/
def wires (sweep : Sweep) (op : Op α) (sizes : List Nat) (size : Nat) : Option (List (List Wire)) :=
  match op with
  | .symbol _ | .output _ | .split .. => some []
  | .constant _ => some (List.replicate size [])
  | .unary _ => do
    let n ← sizes[0]?
    if sweep = .forward ∧ n ≠ size then none
    else some (straight 0 (List.range (min n size)))
  | .binary _ broadcast =>
    match sizes with
    | n₀ :: n₁ :: _ =>
      (List.range size).mapM fun k =>
        let (i, j) := broadcast.operands k
        if i < n₀ ∧ j < n₁ then some [(0, i), (1, j)] else none
    | _ => some []
  | .innerProduct =>
    match sizes with
    | n₀ :: n₁ :: _ => if size = 0 then none else some [allWires [n₀, n₁]]
    | _ => some []
  | .transpose mapping => do
    let n ← sizes[0]?
    (mapping.take size).mapM fun k => if k < n then some [(0, k)] else none
  | .project mapping => do
    let n ← sizes[0]?
    (mapping.take size).mapM fun
      | some k => if k < n then some [(0, k)] else none
      | none => some []
  | .join _ => if size < sizes.sum then none else some ((allWires sizes).map ([·]))

/-- The wires to result `i` of a split of `n` nonzeros. -/
def splitWires (sweep : Sweep) (offsets : List Nat) (n i size : Nat) :
    Option (List (List Wire)) := do
  let a ← offsets[i]?
  let b ← offsets[i + 1]?
  if b < a ∨ n < b ∨ (sweep = .forward ∧ b - a ≠ size) then none
  else some (straight 0 (List.range' a (min (b - a) size)))

/-- The wires to the results that are asked for, each given by its number of nonzeros. -/
def resultWires (sweep : Sweep) (op : Op α) (sizes : List Nat) (results : List (Option Nat)) :
    Option (List (List (List Wire))) :=
  match op with
  | .symbol _ | .output _ => some (results.map fun _ => [])
  | .split _ offsets => do
    let n ← sizes[0]?
    results.zipIdx.mapM fun
      | (some size, i) => splitWires sweep offsets n i size
      | (none, _) => some []
  | op =>
    match results with
    | [] => none
    | some size :: rest => (wires sweep op sizes size).map (· :: rest.map fun _ => [])
    | none :: rest => some ([] :: rest.map fun _ => [])

def collectTaint (args : Array (Array Taint)) : List (List Wire) → List Taint → List Taint
  | w :: ws, _ :: marks =>
    w.foldl (fun acc (i, k) => acc ||| ((args[i]?.bind (·[k]?)).getD 0)) 0 ::
      collectTaint args ws marks
  | _, marks => marks

/-- Hands the marks of a result back to the operands. -/
def returnTaint : List (List Wire) → List Taint → List (List Taint) → List (List Taint)
  | w :: ws, mark :: marks, args =>
    returnTaint ws marks
      (w.foldl (fun args (i, k) => args.modify i (·.modify k (· ||| mark))) args)
  | _, _, args => args

def clearTaint : List (List Wire) → List Taint → List Taint
  | _ :: ws, _ :: marks => 0 :: clearTaint ws marks
  | _, marks => marks

/-- The operands' and the results' marks after a sweep over the node. -/
def sweepTaint (sweep : Sweep) (e : Expr α) (args : List (List Taint))
    (results : List (Option (List Taint))) :
    Except GraphError (List (List Taint) × List (Option (List Taint))) :=
  match resultWires sweep e.op (args.map List.length) (results.map (·.map List.length)) with
  | none => .error .misuse
  | some wires =>
    match sweep with
    | .forward =>
      let buffers := (args.map List.toArray).toArray
      .ok (args, List.zipWith (fun w r => r.map (collectTaint buffers w)) wires results)
    | .reverse =>
      .ok ((wires.zip results).foldl (fun args (w, r) => returnTaint w (r.getD []) args) args,
        List.zipWith (fun w r => r.map (clearTaint w)) wires results)

end Expr

end DiffGraph
