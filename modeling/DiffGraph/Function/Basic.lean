import DiffGraph.Expr.Basic
import Std.Data.HashMap

/-!
# Functions

A `Function` lists the nodes that its outputs need as instructions over numbered
slots, one slot for each result of a node. Inputs take the first slots. Nodes
are sorted depth first from the outputs, operands before their users and a
shared node once. A reference to a result has no instruction: it stands for the
slot of that result, and marks the result as required.
-/

namespace DiffGraph

/-- A node with the slots of its operands and of its results; results that nobody reads have
none. -/
structure Instruction (α : Type) where
  node : Expr α
  args : List Nat
  results : List (Option Nat)

structure Function (α : Type) where
  name : String
  inputs : List (Expr α)
  outputs : List (Expr α)
  instructions : List (Instruction α)
  /-- The pattern of every slot. -/
  slots : Array Pattern
  inputSlots : List Nat
  outputSlots : List Nat

/-- The state of the sort: slots and instructions so far, the slots of every node met, the
instruction of every node that has one, and the symbols that are no inputs. -/
structure Sorter (α : Type) where
  slots : Array Pattern
  instructions : Array (Instruction α)
  slotsOf : Std.HashMap Nat (List Nat)
  instructionOf : Std.HashMap Nat Nat
  free : Array String

namespace Sorter

variable {α : Type}

def empty : Sorter α :=
  ⟨#[], #[], ∅, ∅, #[]⟩

def knows (s : Sorter α) (e : Expr α) : Bool :=
  s.slotsOf.contains e.id

def slotsFor (s : Sorter α) (e : Expr α) : List Nat :=
  s.slotsOf[e.id]?.getD []

def slotFor (s : Sorter α) (e : Expr α) : Nat :=
  (s.slotsFor e).headD 0

def allocate (s : Sorter α) (e : Expr α) : Sorter α :=
  let first := s.slots.size
  { s with
    slots := s.slots ++ e.patterns.toArray
    slotsOf := s.slotsOf.insert e.id (List.range' first e.resultCount) }

def addInput (s : Sorter α) (e : Expr α) : Sorter α :=
  s.allocate e

/-- Notes that result `index` of the node with the given identity is read. -/
def require (s : Sorter α) (producer index slot : Nat) : Sorter α :=
  match s.instructionOf[producer]? with
  | none => s
  | some k =>
    { s with
      instructions := s.instructions.modify k fun ins =>
        { ins with results := ins.results.set index (some slot) } }

/-- Adds a node whose operands are known. -/
def place (s : Sorter α) (e : Expr α) : Sorter α :=
  match e.op, e.deps with
  | .symbol name, _ => { s.allocate e with free := s.free.push name }
  | .output index, producer :: _ =>
    let slot := (s.slotsFor producer)[index]?.getD 0
    let s := s.require producer.id index slot
    { s with slotsOf := s.slotsOf.insert e.id [slot] }
  | _, deps =>
    let args := deps.map s.slotFor
    let next := s.allocate e
    let slots := next.slotsFor e
    let results := if slots.length = 1 then slots.map some else slots.map fun _ => none
    { next with
      instructions := s.instructions.push ⟨e, args, results⟩
      instructionOf := s.instructionOf.insert e.id s.instructions.size }

mutual

/-- Adds a node after everything that it is built from. -/
def visit (e : Expr α) (s : Sorter α) : Sorter α :=
  match e with
  | .node id op deps pattern others =>
    if s.slotsOf.contains id then s
    else (visitAll deps s).place (.node id op deps pattern others)

def visitAll (es : List (Expr α)) (s : Sorter α) : Sorter α :=
  match es with
  | [] => s
  | e :: es => visitAll es (visit e s)

end

end Sorter

namespace Function

variable {α : Type}

/-- Gives the inputs their slots, up to the first one that is no symbol. -/
def placeInputs (inputs : List (Expr α)) : Except GraphError (Sorter α × List Nat) :=
  match inputs.findIdx? fun x => !x.isSymbol with
  | some i => .error (.nonSymbolicInput i)
  | none => .ok (inputs.foldl Sorter.addInput .empty, List.range inputs.length)

/-- The function from symbols to expressions over them. -/
def compile (name : String) (inputs outputs : List (Expr α)) :
    Except GraphError (Function α) := do
  let (start, inputSlots) ← placeInputs inputs
  let sorted := Sorter.visitAll outputs start
  if sorted.free.size ≠ 0 then throw (.freeVariables sorted.free.toList)
  return {
    name, inputs, outputs
    instructions := sorted.instructions.toList
    slots := sorted.slots
    inputSlots
    outputSlots := outputs.map sorted.slotFor }

def inputPattern? (f : Function α) (i : Nat) : Option Pattern :=
  f.inputs[i]?.map Expr.pattern

def outputPattern? (f : Function α) (i : Nat) : Option Pattern :=
  f.outputs[i]?.map Expr.pattern

def inputName (f : Function α) (i : Nat) : String :=
  (f.inputs[i]?.bind Expr.name?).getD s!"i{i}"

/-- Refuses argument buffers whose number or lengths are not those of the inputs. -/
def checkLengths (inputs : List (Expr α)) (lengths : List Nat) : Except GraphError Unit := do
  if lengths.length ≠ inputs.length then
    throw (.argumentCount inputs.length lengths.length)
  match ((lengths.zip inputs).zipIdx).find? fun ((n, x), _) => n ≠ x.nnz with
  | some ((n, x), i) => throw (.nonzeroCount i x.nnz n)
  | none => return

/-- An input or output with its pattern, unless it is a dense scalar. -/
def portText (e : Expr α) : String :=
  let label := e.name?.getD "o"
  if e.pattern.isScalar && e.pattern.isDense then label
  else label ++ "[" ++ e.pattern.text ++ "]"

/-- The signature, as shown to users. -/
def text (f : Function α) : String :=
  f.name ++ ":(" ++ ",".intercalate (f.inputs.map portText) ++ ")->(" ++
    ",".intercalate (f.outputs.map portText) ++ ")"

end Function

end DiffGraph
