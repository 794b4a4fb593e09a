import DiffGraph.Element
import DiffGraph.Expr.Taint
import DiffGraph.FunctionError

/-!
# Programs of the stack machine

A `Program` is a list of instructions for a stack machine that reads variables,
keeps shared values in temporaries and writes outputs. `run` executes it on
elements of any type, `runTaint` on dependency marks, where an operation joins
the marks of its operands. A pop from an empty stack is an error; an index out of
range is a misuse.
-/

namespace DiffGraph

inductive OpCode (α : Type) where
  | loadConst (x : α)
  | loadVar (i : Nat)
  | loadTemp (i : Nat)
  /-- Keeps the top of the stack in a temporary. -/
  | storeTemp (i : Nat)
  | unary (op : UnaryOp)
  | binary (op : BinaryOp)
  /-- Moves the top of the stack to an output. -/
  | write (i : Nat)

structure Program (α : Type) where
  code : List (OpCode α)
  tempCount : Nat

/-- Stack (top first), temporaries and outputs. -/
structure Machine (T : Type) where
  stack : List T
  temps : Array T
  out : Array T

namespace OpCode

/-- The instructions without an operand. -/
def operations {α : Type} : List (OpCode α) :=
  UnaryOp.all.map unary ++ BinaryOp.all.map binary

def text {α : Type} [Numeral α] : OpCode α → String
  | loadConst x => "LoadConst(" ++ Numeral.marked x ++ ")"
  | loadVar i => s!"LoadVar({i})"
  | loadTemp i => s!"LoadTemp({i})"
  | storeTemp i => s!"StoreTemp({i})"
  | unary op => match op with
    | .neg => "Neg" | .sin => "Sin" | .cos => "Cos" | .exp => "Exp" | .log => "Log"
  | binary op => match op with
    | .add => "Add" | .sub => "Sub" | .mul => "Mul" | .div => "Div"
  | write i => s!"Write({i})"

end OpCode

namespace Machine

variable {T : Type}

/-- The machine with an empty stack and with tables that hold `zero` throughout. -/
def start (zero : T) (tempCount outCount : Nat) : Except FunctionError (Machine T) := do
  (Size.checkLength tempCount : Except GraphError Unit)
  (Size.checkLength outCount : Except GraphError Unit)
  return ⟨[], Array.replicate tempCount zero, Array.replicate outCount zero⟩

def push (s : Machine T) (x : T) : Machine T :=
  { s with stack := x :: s.stack }

def pop (s : Machine T) : Except FunctionError (T × Machine T) :=
  match s.stack with
  | [] => .error .stackUnderflow
  | x :: rest => .ok (x, { s with stack := rest })

@[simp] theorem pop_push (s : Machine T) (x : T) : (s.push x).pop = .ok (x, s) := rfl

def load (s : Machine T) (table : Array T) (i : Nat) : Except FunctionError (Machine T) :=
  match table[i]? with
  | some x => .ok (s.push x)
  | none => .error .misuse

def storeTop (s : Machine T) (i : Nat) : Except FunctionError (Machine T) := do
  let (x, _) ← s.pop
  if i < s.temps.size then return { s with temps := s.temps.setIfInBounds i x }
  else throw .misuse

def writeTop (s : Machine T) (i : Nat) : Except FunctionError (Machine T) := do
  let (x, s) ← s.pop
  if i < s.out.size then return { s with out := s.out.setIfInBounds i x }
  else throw .misuse

end Machine

namespace Program

section Run

variable {m : Type → Type} [Monad m] {α T : Type} [Element m α T]

/-- A step that performs no operation on elements. -/
private def settled (x : Except FunctionError (Machine T)) :
    ExceptT FunctionError m (Machine T) :=
  ExceptT.mk (pure x)

def step (vars : Array T) (op : OpCode α) (s : Machine T) : ExceptT FunctionError m (Machine T) :=
  match op with
  | .loadConst x => do return s.push (← ExceptT.lift (Element.ofScalar x : m T))
  | .loadVar i => settled (s.load vars i)
  | .loadTemp i => settled (s.load s.temps i)
  | .storeTemp i => settled (s.storeTop i)
  | .write i => settled (s.writeTop i)
  | .unary op =>
    match s.stack with
    | x :: rest => do
      return { s with stack := (← ExceptT.lift (Element.unary op x : m T)) :: rest }
    | _ => throw .stackUnderflow
  | .binary op =>
    match s.stack with
    | y :: x :: rest => do
      return { s with stack := (← ExceptT.lift (Element.binary op x y : m T)) :: rest }
    | _ => throw .stackUnderflow

/-- Executes the code on an empty stack with temporaries and `outCount` outputs that are zero. -/
def run [Zero α] (p : Program α) (vars : List T) (outCount : Nat) :
    ExceptT FunctionError m (Machine T) := do
  let zero ← ExceptT.lift (Element.ofScalar (0 : α) : m T)
  let start ← settled (Machine.start zero p.tempCount outCount)
  let vars := vars.toArray
  p.code.foldlM (fun s op => step vars op s) start

end Run

variable {α : Type}

def stepTaint (vars : Array Taint) (op : OpCode α) (s : Machine Taint) :
    Except FunctionError (Machine Taint) :=
  match op with
  | .loadConst _ => .ok (s.push 0)
  | .loadVar i => s.load vars i
  | .loadTemp i => s.load s.temps i
  | .storeTemp i => s.storeTop i
  | .write i => s.writeTop i
  | .unary _ => .ok s
  | .binary _ =>
    match s.stack with
    | y :: x :: rest => .ok { s with stack := (x ||| y) :: rest }
    | _ => .error .stackUnderflow

def runTaint (p : Program α) (vars : List Taint) (outCount : Nat) :
    Except FunctionError (Machine Taint) := do
  let start ← Machine.start 0 p.tempCount outCount
  let vars := vars.toArray
  p.code.foldlM (fun s op => stepTaint vars op s) start

end Program

end DiffGraph
