import DiffGraph.Numeral
import DiffGraph.Op

/-!
# Statements of generated C

The generated code moves nonzeros between arrays of numbers, one element at a
time or in loops over the counter `i`. `Statement` is the part of C that it uses,
and `text` writes a statement on its lines.
-/

namespace DiffGraph.Source

/-- An array index: a number, the loop counter, or the counter moved by an offset. -/
inductive Index where
  | fixed (k : Nat)
  | counter
  | shifted (offset : Nat)
  deriving DecidableEq

structure Cell where
  array : String
  index : Index
  deriving DecidableEq

inductive Value (α : Type) where
  | number (x : α)
  | zero
  | cell (c : Cell)
  | unary (op : UnaryOp) (c : Cell)
  | binary (op : BinaryOp) (a b : Cell)

inductive Statement (α : Type) where
  | assign (target : Cell) (value : Value α)
  /-- Assigns for every value of the counter below `n`. -/
  | loop (n : Nat) (target : Cell) (value : Value α)
  /-- Adds to the element for every value of the counter below `n`. -/
  | accumulate (n : Nat) (target : Cell) (value : Value α)
  /-- Copies `n` numbers of argument `arg`, zeros if the argument is missing. -/
  | load (n : Nat) (array : String) (arg : Nat)
  /-- Copies `n` numbers to result `res` unless the result is missing. -/
  | store (n : Nat) (array : String) (res : Nat)

namespace Index

def text : Index → String
  | fixed k => toString k
  | counter => "i"
  | shifted offset => s!"{offset}+i"

end Index

namespace Cell

def text (c : Cell) : String :=
  c.array ++ "[" ++ c.index.text ++ "]"

end Cell

namespace Value

def text {α : Type} [Numeral α] : Value α → String
  | number x => Numeral.marked x
  | zero => "0"
  | cell c => c.text
  | unary op c => op.text c.text
  | binary op a b => a.text ++ op.sign ++ b.text

end Value

namespace Statement

def loopHead (n : Nat) : String :=
  s!"for (i=0; i<{n}; ++i) "

def text {α : Type} [Numeral α] : Statement α → String
  | assign target value => "  " ++ target.text ++ " = " ++ value.text ++ ";\n"
  | loop n target value => "  " ++ loopHead n ++ target.text ++ " = " ++ value.text ++ ";\n"
  | accumulate n target value => "  " ++ loopHead n ++ target.text ++ " += " ++ value.text ++ ";\n"
  | load n array arg => "  " ++ loopHead n ++ s!"{array}[i] = arg[{arg}] ? arg[{arg}][i] : 0;\n"
  | store n array res => s!"  if (res[{res}]) " ++ loopHead n ++ s!"res[{res}][i] = {array}[i];\n"

end Statement

def textOf {α : Type} [Numeral α] (statements : List (Statement α)) : String :=
  String.join (statements.map Statement.text)

end DiffGraph.Source
