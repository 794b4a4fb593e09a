import DiffGraph.Expr.Rebuild

/-!
# Derivatives of a node

`tangent` gives the sensitivities of a node's results for given sensitivities of
its operands, `adjoint` adds to the adjoints of the operands what the adjoints of
the results contribute. Both are built from expressions, so derivatives can be
differentiated again.
-/

namespace DiffGraph.Expr

variable {α : Type} [Scalar α]

/-- The sensitivity of a unary operation on `x` with value `out`. -/
def unaryTangent (op : UnaryOp) (x out dx : Expr α) : Build (Expr α) := do
  match op with
  | .neg => neg dx
  | .sin => binary .mul dx (← unary .cos x)
  | .cos => neg (← binary .mul dx (← unary .sin x))
  | .exp => binary .mul dx out
  | .log => binary .div dx x

def binaryTangent (op : BinaryOp) (a b out da db : Expr α) : Build (Expr α) := do
  match op with
  | .add => binary .add da db
  | .sub => binary .sub da db
  | .mul => binary .add (← binary .mul da b) (← binary .mul a db)
  | .div => binary .div (← binary .sub da (← binary .mul out db)) b

/-- The sensitivities of the results in one direction. `outputs` are the node's results and
`seeds` the sensitivities of its operands. -/
def tangent (e : Expr α) (outputs seeds : List (Expr α)) : Build (List (Expr α)) := do
  match e.op with
  | .symbol _ | .output _ =>
    let seed ← match seeds with
      | s :: _ => pure s
      | [] => zerosLike e.pattern
    e.alignResults [seed]
  | op =>
    let seeds ← e.alignArgs seeds
    let results ← match op with
      | .symbol _ | .output _ | .constant _ => do pure [← zerosLike e.pattern]
      | .unary op => do
        pure [← unaryTangent op (← operand e.deps 0) (← operand outputs 0) (← operand seeds 0)]
      | .binary op _ => do
        pure [← binaryTangent op (← operand e.deps 0) (← operand e.deps 1) (← operand outputs 0)
          (← operand seeds 0) (← operand seeds 1)]
      | .innerProduct => do
        let left ← dot (← operand seeds 0) (← operand e.deps 1)
        pure [← binary .add left (← dot (← operand e.deps 0) (← operand seeds 1))]
      | .transpose _ => do pure [← (← operand seeds 0).transpose]
      | .project _ => do pure [← (← operand seeds 0).project e.pattern]
      | .join axis => do pure [← joinAlong axis seeds]
      | .split axis _ => e.splitLike axis (← operand seeds 0)
    e.alignResults results

/-- Adjoints of the operands or results of a node; `none` stands for zero. -/
abbrev Adjoints (α : Type) := List (Option (Expr α))

def addAt (sens : Adjoints α) (i : Nat) (contribution : Build (Expr α)) (target : Pattern) :
    Build (Adjoints α) := do
  match sens[i]? with
  | none => throw .misuse
  | some total => return sens.set i (some (← accumulate total (← contribution) target))

def binaryAdjoint (op : BinaryOp) (broadcast : Broadcast) (a b out seed : Expr α) :
    Build (Expr α × Expr α) := do
  let (ca, cb) ← match op with
    | .add => pure (seed, seed)
    | .sub => do pure (seed, ← neg seed)
    | .mul => do pure (← binary .mul seed b, ← binary .mul seed a)
    | .div => do
      pure (← binary .div seed b, ← neg (← binary .div (← binary .mul seed out) b))
  return (← if broadcast = .left then ca.sum else pure ca,
    ← if broadcast = .right then cb.sum else pure cb)

/-- Adds the contributions of a result's adjoint to those of the operands, for an operation with
a single result. -/
def adjointOf (e : Expr α) (outputs : List (Expr α)) (seed : Expr α) (sens : Adjoints α) :
    Build (Adjoints α) := do
  match e.op with
  | .symbol _ | .output _ | .constant _ | .split .. => return sens
  | .unary op =>
    let x ← operand e.deps 0
    let c ← unaryTangent op x (← operand outputs 0) seed
    addAt sens 0 (pure c) x.pattern
  | .binary op broadcast =>
    let a ← operand e.deps 0
    let b ← operand e.deps 1
    let (ca, cb) ← binaryAdjoint op broadcast a b (← operand outputs 0) seed
    addAt (← addAt sens 0 (pure ca) a.pattern) 1 (pure cb) b.pattern
  | .innerProduct =>
    let a ← operand e.deps 0
    let b ← operand e.deps 1
    addAt (← addAt sens 0 (binary .mul seed b) a.pattern) 1 (binary .mul seed a) b.pattern
  | .transpose _ => addAt sens 0 seed.transpose (← operand e.deps 0).pattern
  | .project _ =>
    let p := (← operand e.deps 0).pattern
    addAt sens 0 (seed.project p) p
  | .join axis =>
    let (rows, cols) ← blockOffsets (e.deps.map pattern)
    let pieces ← splitAlong axis seed rows cols
    let changed ← ((sens.zip pieces).zip e.deps).mapM fun ((total, piece), dep) => do
      return some (← accumulate total piece dep.pattern)
    return changed ++ sens.drop changed.length

/-- The adjoint of a split's operand: the adjoints of the parts joined, zero where there is none. -/
def splitAdjoint (e : Expr α) (axis : Axis) (seeds : Adjoints α) : Build (Expr α) := do
  let parts ← (seeds.zip e.patterns).mapM fun (seed, p) =>
    match seed with
    | some s => s.project p
    | none => (zerosLike p : Build (Expr α))
  joinAlong axis parts

/-- The adjoints of the results that are left over and those of the operands, after the
contributions of one direction. -/
def adjoint (e : Expr α) (outputs : List (Expr α)) (seeds sens : Adjoints α) :
    Build (Adjoints α × Adjoints α) := do
  match e.op with
  | .split axis _ =>
    if seeds.all Option.isNone then return (seeds, sens)
    let joined ← e.splitAdjoint axis seeds
    let sens ← addAt sens 0 (pure joined) (← operand e.deps 0).pattern
    return (seeds.zipIdx.map fun (s, i) => if i < e.resultCount then none else s, sens)
  | _ =>
    match seeds with
    | some seed :: rest => return (none :: rest, ← e.adjointOf outputs seed sens)
    | _ => return (seeds, sens)

end DiffGraph.Expr
