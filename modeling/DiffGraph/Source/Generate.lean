import DiffGraph.Function.Basic
import DiffGraph.Source.Statement

/-!
# Generating C

`ofNode` gives the statements that compute one node, for named operand and
result arrays; a result named `0` is not computed. `ofFunction` is the body of a
function, in which every slot is a local array, and `code` the whole source text.
-/

namespace DiffGraph.Source

variable {α : Type}

private def atCounter (array : String) : Cell := ⟨array, .counter⟩

/-- An operand of an elementwise operation: its single element or the one at the counter. -/
private def operandCell (single : Bool) (array : String) : Cell :=
  ⟨array, if single then .fixed 0 else .counter⟩

/-- Copies of single elements, zero where there is none; `none` if an array is needed that is
missing. -/
def copies (res arg : Option String) (mapping : List (Option Nat)) :
    Option (List (Statement α)) :=
  mapping.zipIdx.mapM fun (k, i) => do
    let value : Value α ← match k with
      | some k => do pure (.cell ⟨← arg, .fixed k⟩)
      | none => pure .zero
    return .assign ⟨← res, .fixed i⟩ value

/-- Copies of arrays of the given sizes behind each other. -/
def appended (res : String) : (offset : Nat) → List (String × Nat) → List (Statement α)
  | _, [] => []
  | offset, (arg, n) :: rest =>
    .loop n ⟨res, .shifted offset⟩ (.cell (atCounter arg)) :: appended res (offset + n) rest

def cutUp (arg : Option String) (offsets : List Nat) (results : List String) :
    Option (List (Statement α)) :=
  (results.zipIdx.filter fun (r, _) => r ≠ "0").mapM fun (r, i) => do
    let a ← offsets[i]?
    let b ← offsets[i + 1]?
    return .loop (b - a) (atCounter r) (.cell ⟨← arg, .shifted a⟩)

/-- The statements of a node with the given operand and result arrays; `none` if one that they
mention is missing. -/
def ofNode (e : Expr α) (args results : List String) : Option (List (Statement α)) :=
  match e.op with
  | .symbol _ | .output _ => some []
  | .constant [] => some []
  | .constant nz => do
    let r ← results[0]?
    return nz.zipIdx.map fun (x, k) => .assign ⟨r, .fixed k⟩ (.number x)
  | .unary op => do
    return [.loop e.nnz (atCounter (← results[0]?)) (.unary op (atCounter (← args[0]?)))]
  | .binary op broadcast => do
    let a := operandCell (broadcast == .left) (← args[0]?)
    let b := operandCell (broadcast == .right) (← args[1]?)
    return [.loop e.nnz (atCounter (← results[0]?)) (.binary op a b)]
  | .innerProduct => do
    let n := (e.deps[0]?.map Expr.nnz).getD 0
    let r : Cell := ⟨← results[0]?, .fixed 0⟩
    let product := .binary .mul (atCounter (← args[0]?)) (atCounter (← args[1]?))
    return [.assign r .zero, .accumulate n r product]
  | .transpose mapping => copies results[0]? args[0]? (mapping.map some)
  | .project mapping => copies results[0]? args[0]? mapping
  | .join _ =>
    match args.zip (e.deps.map Expr.nnz) with
    | [] => some []
    | parts => do return appended (← results[0]?) 0 parts
  | .split _ offsets => cutUp args[0]? offsets results

def slotArray (slot : Nat) : String :=
  s!"w{slot}"

def slotSize (f : Function α) (slot : Nat) : Nat :=
  (f.slots[slot]?.map Pattern.nnz).getD 0

def ofInstruction (ins : Instruction α) : List (Statement α) :=
  let results := ins.results.map fun r => r.elim "0" slotArray
  (ofNode ins.node (ins.args.map slotArray) results).getD []

/-- The statements between the declarations and the return. -/
def ofFunction (f : Function α) : List (Statement α) :=
  let loads := f.inputSlots.zipIdx.map fun (s, i) => .load (slotSize f s) (slotArray s) i
  let stores := f.outputSlots.zipIdx.map fun (s, k) => .store (slotSize f s) (slotArray s) k
  loads ++ f.instructions.flatMap ofInstruction ++ stores

def identifier (name : String) : String :=
  name.map fun c => if c.isAlphanum then c else '_'

/-- The slot arrays with their sizes; an array has at least one element. -/
def declared (f : Function α) : List (String × Nat) :=
  f.slots.toList.zipIdx.map fun (p, s) => (slotArray s, max p.nnz 1)

def declarations (f : Function α) : List String :=
  (declared f).map fun (array, size) => s!"  double {array}[{size}];\n"

def code [Numeral α] (f : Function α) : String :=
  "/* " ++ f.text ++ " */\n" ++
    "int " ++ identifier f.name ++ "(const double** arg, double** res) \x7b\n" ++
    "  int i;\n" ++ String.join (declarations f) ++ textOf (ofFunction f) ++
    "  return 0;\n\x7d\n"

end DiffGraph.Source
