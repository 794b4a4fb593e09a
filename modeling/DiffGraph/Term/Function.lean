import DiffGraph.Dual
import DiffGraph.Term.Basic
import DiffGraph.Term.Program
import Std.Data.HashMap

/-!
# Functions over scalar expressions

A `TermFunction` maps lists of symbols to lists of terms, each list with a
pattern, and carries the program that computes it. A subterm that is used more
than once is computed once and kept in a temporary. Every input nonzero must be
a symbol, and every symbol of the outputs an input.
-/

namespace DiffGraph

structure TermFunction (α : Type) where
  name : String
  inputs : List (List (Term α))
  outputs : List (List (Term α))
  inputPatterns : List Pattern
  outputPatterns : List Pattern
  program : Program α

/-- The state of compilation: the code so far, the temporaries of stored terms, and their
number. -/
structure Compiler (α : Type) where
  code : Array (OpCode α)
  tempOf : Std.HashMap Nat Nat
  tempCount : Nat

namespace Term

variable {α : Type}

/-- Counts how often each term is used, itself and, at its first use, its operands. -/
def countUses (uses : Std.HashMap Nat Nat) (t : Term α) : Std.HashMap Nat Nat :=
  let count := uses[t.id]?.getD 0
  let uses := uses.insert t.id (count + 1)
  if count = 0 then
    match t with
    | unary _ _ x => countUses uses x
    | binary _ _ x y => countUses (countUses uses x) y
    | constant .. | symbol .. => uses
  else uses

end Term

namespace Compiler

variable {α : Type}

def emit (c : Compiler α) (op : OpCode α) : Compiler α :=
  { c with code := c.code.push op }

/-- Keeps the value of a term that is used more than once. -/
def keep (c : Compiler α) (uses : Std.HashMap Nat Nat) (id : Nat) : Compiler α :=
  if 1 < uses[id]?.getD 0 then
    { (c.emit (.storeTemp c.tempCount)) with
      tempOf := c.tempOf.insert id c.tempCount
      tempCount := c.tempCount + 1 }
  else c

/-- Emits code that leaves the value of a term on the stack. -/
def compile (vars uses : Std.HashMap Nat Nat) (t : Term α) (c : Compiler α) :
    Except FunctionError (Compiler α) :=
  match c.tempOf[t.id]? with
  | some i => .ok (c.emit (.loadTemp i))
  | none =>
    match t with
    | .constant _ x => .ok (c.emit (.loadConst x))
    | .symbol id name =>
      match vars[id]? with
      | some i => .ok (c.emit (.loadVar i))
      | none => .error (.unknownSymbol name)
    | .unary id op x => do
      let c ← compile vars uses x c
      return (c.emit (.unary op)).keep uses id
    | .binary id op x y => do
      let c ← compile vars uses x c
      let c ← compile vars uses y c
      return (c.emit (.binary op)).keep uses id

end Compiler

namespace TermFunction

variable {α : Type}

/-- The first input that does not fit its pattern or holds something else than symbols. -/
def inputError? (inputs : List (List (Term α))) (patterns : List Pattern) : Option FunctionError :=
  (inputs.zip patterns).zipIdx.findSome? fun ((x, p), i) =>
    if x.length ≠ p.nnz then some (.graph (.nonzeroCount i p.nnz x.length))
    else if x.all Term.isSymbol then none
    else some (.graph (.nonSymbolicInput i))

def outputError? (name : String) (outputs : List (List (Term α))) (patterns : List Pattern) :
    Option FunctionError :=
  (outputs.zip patterns).zipIdx.findSome? fun ((o, p), j) =>
    if o.length ≠ p.nnz then some (.outputLength name j o.length p) else none

/-- The program that writes the given terms. -/
def assemble (inputs outputs : List (Term α)) : Except FunctionError (Program α) := do
  let vars := inputs.zipIdx.foldl (fun vars (x, i) => vars.insert x.id i) ∅
  let uses := outputs.foldl Term.countUses ∅
  let start : Compiler α := ⟨#[], ∅, 0⟩
  let c ← outputs.zipIdx.foldlM (fun c (o, k) => do
    return (← Compiler.compile vars uses o c).emit (.write k)) start
  return ⟨c.code.toList, c.tempCount⟩

def compile (name : String) (inputs : List (List (Term α))) (inputPatterns : List Pattern)
    (outputs : List (List (Term α))) (outputPatterns : List Pattern) :
    Except FunctionError (TermFunction α) := do
  if inputs.length ≠ inputPatterns.length ∨ outputs.length ≠ outputPatterns.length then
    throw (.patternCounts name)
  if let some e := inputError? inputs inputPatterns then throw e
  if let some e := outputError? name outputs outputPatterns then throw e
  let program ← assemble inputs.flatten outputs.flatten
  return { name, inputs, outputs, inputPatterns, outputPatterns, program }

def checkLengths (f : TermFunction α) (lengths : List Nat) : Except GraphError Unit := do
  if lengths.length ≠ f.inputs.length then
    throw (.argumentCount f.inputs.length lengths.length)
  match ((lengths.zip f.inputs).zipIdx).find? fun ((n, x), _) => n ≠ x.length with
  | some ((n, x), i) => throw (.nonzeroCount i x.length n)
  | none => return

def cutOutputs {T : Type} (f : TermFunction α) (out : Array T) : List (List T) :=
  chunks (f.outputs.map List.length) out.toList

/-- The outputs for argument buffers of any element type. -/
def run {m : Type → Type} [Monad m] {T : Type} [Zero α] [Element m α T] (f : TermFunction α)
    (args : List (List T)) : ExceptT FunctionError m (List (List T)) := do
  match f.checkLengths (args.map List.length) with
  | .error e => throw (.graph e)
  | .ok () =>
    let s ← f.program.run args.flatten f.outputs.flatten.length
    return f.cutOutputs s.out

variable [Scalar α]

def evaluate (f : TermFunction α) (args : List (List α)) :
    Except FunctionError (List (List α)) :=
  (f.run args : ExceptT FunctionError Id _)

def evaluateDual (f : TermFunction α) (args : List (List (Dual α))) :
    Except FunctionError (List (List (Dual α))) :=
  (f.run args : ExceptT FunctionError Id _)

/-- The marks that reach the outputs from marked inputs. -/
def taintForward (f : TermFunction α) (seeds : List (List Taint)) :
    Except FunctionError (List (List Taint)) := do
  f.checkLengths (seeds.map List.length)
  let s ← f.program.runTaint seeds.flatten f.outputs.flatten.length
  return f.cutOutputs s.out

/-- The length of the code and the outputs, as shown to users. -/
def text [Numeral α] (f : TermFunction α) : String :=
  let line (o : List (Term α) × Nat) : String :=
    s!"  o{o.2} = [" ++ ", ".intercalate (o.1.map Term.text) ++ "]\n"
  s!"{f.name}: {f.program.code.length} ops\n" ++ String.join (f.outputs.zipIdx.map line)

end TermFunction

end DiffGraph
