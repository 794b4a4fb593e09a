import DiffGraph.Decimal.Shortest

/-!
# Reading decimal literals

A literal is a mantissa of digits with at most one point and at least one digit,
and possibly an exponent: `e` followed by digits. `read?` gives its value as a
`Decimal`.
-/

namespace DiffGraph.Decimal

def digitsValue (cs : List Char) : Nat :=
  cs.foldl (fun n c => 10 * n + (c.toNat - '0'.toNat)) 0

/-- The digits of the exponent; `none` is a malformed one. -/
def exponent? : List Char → Option Nat
  | [] => some 0
  | 'e' :: ds => if ds ≠ [] ∧ ds.all Char.isDigit then some (digitsValue ds) else none
  | _ => none

/-- The digits before the point, those after it, and what follows. -/
def mantissa (cs : List Char) : List Char × List Char × List Char :=
  let whole := cs.takeWhile Char.isDigit
  match cs.dropWhile Char.isDigit with
  | '.' :: rest => (whole, rest.takeWhile Char.isDigit, rest.dropWhile Char.isDigit)
  | rest => (whole, [], rest)

/-- The value of a literal. -/
def read? (cs : List Char) : Option Decimal :=
  let (whole, places, rest) := mantissa cs
  if whole ++ places = [] then none
  else (exponent? rest).map fun e =>
    ⟨digitsValue (whole ++ places), (e : Int) - places.length⟩

end DiffGraph.Decimal
