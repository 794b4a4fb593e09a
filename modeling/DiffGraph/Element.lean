import DiffGraph.Op

/-!
# Elements

Buffers hold elements of any type `T` on which the elementary operations act:
plain numbers, dual numbers, scalar graphs. `Element m α T` gives the operations
as actions of a monad `m`, since building a graph node draws a fresh identity;
for elements that are plain values `m` is `Id`.
-/

namespace DiffGraph

/-- Elements over the numbers `α`; the operations act in `m`. -/
class Element (m : Type → Type) (α : outParam Type) (T : Type) where
  ofScalar : α → m T
  unary : UnaryOp → T → m T
  binary : BinaryOp → T → T → m T

instance {α : Type} [Scalar α] : Element Id α α where
  ofScalar x := x
  unary := UnaryOp.apply
  binary := BinaryOp.apply

end DiffGraph
