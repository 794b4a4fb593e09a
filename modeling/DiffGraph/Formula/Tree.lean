import DiffGraph.Formula.Token
import DiffGraph.Op

/-!
# Syntax trees of formulas

The parser walks over the tokens once and keeps what waits for an operand on a
stack of frames, so it always ends. `*` and `/` bind tighter than `+` and `-`,
and all four group to the left; a sign belongs to the operand behind it and is
part of the base of a power. A syntax error becomes a leaf of the tree at the
place where it was found (`broken`, `abandoned`): whoever evaluates the tree from
left to right meets the first error of any kind first.
-/

namespace DiffGraph.Formula

inductive Tree (α : Type) where
  | number (x : α)
  | name (n : String)
  | entry (n : String) (index : Nat)
  | call (f : String) (arg : Tree α)
  | neg (t : Tree α)
  | binary (op : BinaryOp) (left right : Tree α)
  | power (base : Tree α) (n : Nat)
  /-- A syntax error where an operand should be. -/
  | broken (e : Error α)
  /-- A syntax error behind a complete operand. -/
  | abandoned (t : Tree α) (e : Error α)

/-- What waits for an operand: a sign, a product, a sum, a bracket, or a function. -/
inductive Frame (α : Type) where
  | neg
  | product (op : BinaryOp) (left : Tree α)
  | sum (op : BinaryOp) (left : Tree α)
  | group
  | call (f : String)

namespace Tree

variable {α : Type}

/-- Completes the signs before an operand. -/
def closeSigns : List (Frame α) → Tree α → List (Frame α) × Tree α
  | .neg :: fs, t => closeSigns fs (.neg t)
  | fs, t => (fs, t)

def closeProduct (fs : List (Frame α)) (t : Tree α) : List (Frame α) × Tree α :=
  match closeSigns fs t with
  | (.product op left :: fs, t) => (fs, .binary op left t)
  | closed => closed

def closeSum (fs : List (Frame α)) (t : Tree α) : List (Frame α) × Tree α :=
  match closeProduct fs t with
  | (.sum op left :: fs, t) => (fs, .binary op left t)
  | closed => closed

/-- Completes everything that waits, as far as the tokens went. -/
def unwind : List (Frame α) → Tree α → Tree α
  | [], t => t
  | .neg :: fs, t => unwind fs (.neg t)
  | .product op left :: fs, t => unwind fs (.binary op left t)
  | .sum op left :: fs, t => unwind fs (.binary op left t)
  | .group :: fs, t => unwind fs t
  | .call f :: fs, t => unwind fs (.call f t)

/-- The end of the tokens, or of what can go on, behind an operand. -/
def finish (found : Option (Token α)) (fs : List (Frame α)) (t : Tree α) : Tree α :=
  match closeSum fs t, found with
  | ([], t), none => t
  | ([], t), some token => .abandoned t (.trailing token)
  | (fs, t), found => unwind fs (.abandoned t (.expected .rparen found))

variable [OrderedScalar α]

/-- A whole number that is not negative. -/
def natural? (x : α) : Option Nat :=
  if OrderedScalar.atMost 0 x && OrderedScalar.fract x == 0 then some (OrderedScalar.toNat x)
  else none

mutual

/-- Parses where an operand has to follow. -/
def operand : List (Token α) → List (Frame α) → Tree α
  | .number x :: ts, fs => behind ts fs (.number x) true
  | .name n :: .lparen :: ts, fs => operand ts (.call n :: fs)
  | .name n :: .lbracket :: .number x :: .rbracket :: ts, fs =>
    match natural? x with
    | some i => behind ts fs (.entry n i) true
    | none => unwind fs (.broken (.badIndex (some (.number x))))
  | .name _ :: .lbracket :: .number x :: ts, fs =>
    match natural? x with
    | some _ => unwind fs (.broken (.expected .rbracket ts.head?))
    | none => unwind fs (.broken (.badIndex (some (.number x))))
  | .name _ :: .lbracket :: ts, fs => unwind fs (.broken (.badIndex ts.head?))
  | .name n :: ts, fs => behind ts fs (.name n) true
  | .minus :: ts, fs => operand ts (.neg :: fs)
  | .lparen :: ts, fs => operand ts (.group :: fs)
  | ts, fs => unwind fs (.broken (.unexpected ts.head?))

/-- Parses behind the operand `t`; `base` tells whether it may still be raised to a power. -/
def behind : List (Token α) → List (Frame α) → (t : Tree α) → (base : Bool) → Tree α
  | .caret :: .number x :: ts, fs, t, true =>
    let (fs, t) := closeSigns fs t
    match natural? x with
    | some n => behind ts fs (.power t n) false
    | none => unwind fs (.abandoned t (.badExponent (some (.number x))))
  | .caret :: ts, fs, t, true =>
    let (fs, t) := closeSigns fs t
    unwind fs (.abandoned t (.badExponent ts.head?))
  | .star :: ts, fs, t, _ =>
    let (fs, t) := closeProduct fs t
    operand ts (.product .mul t :: fs)
  | .slash :: ts, fs, t, _ =>
    let (fs, t) := closeProduct fs t
    operand ts (.product .div t :: fs)
  | .plus :: ts, fs, t, _ =>
    let (fs, t) := closeSum fs t
    operand ts (.sum .add t :: fs)
  | .minus :: ts, fs, t, _ =>
    let (fs, t) := closeSum fs t
    operand ts (.sum .sub t :: fs)
  | .rparen :: ts, fs, t, _ =>
    match closeSum fs t with
    | (.group :: fs, t) => behind ts fs t true
    | (.call f :: fs, t) => behind ts fs (.call f t) true
    | (fs, t) => finish (some .rparen) fs t
  | ts, fs, t, _ => finish ts.head? fs t

end

def parse (ts : List (Token α)) : Tree α :=
  operand ts []

end Tree

end DiffGraph.Formula
