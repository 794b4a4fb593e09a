import DiffGraph.Decimal.Shortest
import DiffGraph.Numeral

/-!
# Numbers as text

`plain` writes a float with the fewest digits that read back and never with an
exponent; whole numbers have no point. `marked` always shows that a number is a
float: whole numbers end in `.0`, and an exponent is written below `10 ^ -4` and
from `10 ^ 16`.
A `Layout` says which of these choices apply.
-/

namespace DiffGraph.Decimal

structure Layout where
  /-- Positional writing is used when the leading digit's exponent is in this range;
  `none` stands for every exponent. -/
  positional : Option (Int × Int)
  /-- Whole numbers end in `.0`. -/
  pointed : Bool

def plainLayout : Layout := ⟨none, false⟩

/-- An exponent for very small and very large numbers, and a point in every other one. -/
def markedLayout : Layout := ⟨some (-4, 15), true⟩

def zeros (n : Nat) : String :=
  String.ofList (List.replicate n '0')

/-- The digits with the point in its place. -/
def positionalText (d : Decimal) (pointed : Bool) : String :=
  let digits := toString d.digits
  let places := (-d.exponent).toNat
  if places = 0 then digits ++ zeros d.exponent.toNat ++ (if pointed then ".0" else "")
  else if places < digits.length then
    let cut := digits.length - places
    String.ofList (digits.toList.take cut) ++ "." ++ String.ofList (digits.toList.drop cut)
  else "0." ++ zeros (places - digits.length) ++ digits

/-- One digit before the point and the exponent after the mark. -/
def exponentText (d : Decimal) : String :=
  let digits := toString d.digits
  let rest := String.ofList (digits.toList.drop 1)
  let exponent := d.exponent + (digits.length - 1 : Nat)
  String.ofList (digits.toList.take 1) ++ (if rest.isEmpty then "" else "." ++ rest) ++
    "e" ++ toString exponent

def render (layout : Layout) (d : Decimal) : String :=
  let leading := d.exponent + ((toString d.digits).length - 1 : Nat)
  match layout.positional with
  | none => positionalText d layout.pointed
  | some (least, greatest) =>
    if least ≤ leading ∧ leading ≤ greatest then positionalText d layout.pointed
    else exponentText d

attribute [local instance (high)] instPowNat

def floatText (layout : Layout) (x : Float) : String :=
  if x.isNaN then "NaN"
  else
    let sign := if x.toBits.toNat / 2 ^ (63 : Nat) = 1 then "-" else ""
    if x.isInf then sign ++ "inf"
    else if x == 0 then sign ++ (if layout.pointed then "0.0" else "0")
    else sign ++ render layout (ofFloat x)

end DiffGraph.Decimal

namespace DiffGraph

instance : Numeral Float where
  plain := Decimal.floatText Decimal.plainLayout
  marked := Decimal.floatText Decimal.markedLayout

end DiffGraph
