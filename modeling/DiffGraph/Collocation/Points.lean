import DiffGraph.Failure
import DiffGraph.Scalar

/-!
# Collocation points

The points of a finite element on the unit interval: its start, followed by the
Gauss-Legendre roots or the Radau IIA points of the given degree. Radau points
end at the end of the element.
-/

namespace DiffGraph

inductive Scheme where
  | radau | legendre
  deriving DecidableEq

namespace Scheme

def text : Scheme → String
  | radau => "radau"
  | legendre => "legendre"

def ofText? (name : String) : Option Scheme :=
  [radau, legendre].find? fun s => s.text == name

def ofText {α : Type} (name : String) : Except (Failure α) Scheme :=
  match ofText? name with
  | some s => .ok s
  | none => .error (.unknownScheme name)

variable {α : Type} [OrderedScalar α]

/-- A decimal with sixteen places. -/
def places16 (m : Nat) : α :=
  OrderedScalar.ofDecimal m (-16)

/-- The Gauss-Legendre roots of degrees one to five. -/
def legendrePoints : List (List α) := [
  [OrderedScalar.ofDecimal 5 (-1)],
  [OrderedScalar.ofDecimal 21132486540518713 (-17), places16 7886751345948129],
  [places16 1127016653792583, OrderedScalar.ofDecimal 5 (-1), places16 8872983346207417],
  [OrderedScalar.ofDecimal 6943184420297371 (-17), OrderedScalar.ofDecimal 33000947820757187 (-17),
    places16 6699905217924281, places16 9305681557970262],
  [OrderedScalar.ofDecimal 4691007703066802 (-17), OrderedScalar.ofDecimal 23076534494715845 (-17),
    OrderedScalar.ofDecimal 5 (-1), places16 7692346550528415, places16 9530899229693319]]

/-- The Radau points of degrees one to five. -/
def radauPoints : List (List α) := [
  [1],
  [places16 3333333333333333, 1],
  [OrderedScalar.ofDecimal 15505102572168217 (-17), places16 6449489742783178, 1],
  [OrderedScalar.ofDecimal 8858795951270394 (-17), places16 4094668644407347,
    OrderedScalar.ofDecimal 787659461760847 (-15), 1],
  [OrderedScalar.ofDecimal 5710419611451768 (-17), places16 2768430136381238,
    places16 5835904323689168, places16 8602401356562195, 1]]

/-- The start of an element and its collocation points. -/
def points (scheme : Scheme) (degree : Nat) : Except (Failure α) (List α) :=
  let table := match scheme with
    | radau => radauPoints
    | legendre => legendrePoints
  match degree with
  | 0 => .error (.degreeOutOfRange 0)
  | d + 1 =>
    match table[d]? with
    | some ps => .ok (0 :: ps)
    | none => .error (.degreeOutOfRange degree)

end Scheme

end DiffGraph
