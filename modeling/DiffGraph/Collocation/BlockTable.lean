/-!
# The blocks of the unknown vector

The unknown vector is cut into blocks that are pushed one behind the other: at every point of
every element the forward state and then the backward state, and at last the forward state at
the end of the horizon. Two states are given and have no block, the forward one at the first
point and the backward one at the end. A `BlockTable` has the offsets of the blocks and says
which block holds which state.
-/

namespace DiffGraph

structure BlockTable where
  /-- Where the blocks start, and the end of the last one. -/
  offsets : Array Nat
  /-- The blocks of the forward states, point by point over all elements. -/
  forward : Array (Option Nat)
  backward : Array (Option Nat)

namespace BlockTable

def empty : BlockTable :=
  ⟨#[0], #[], #[]⟩

/-- The end of the last block. -/
def covered (b : BlockTable) : Nat :=
  b.offsets.back?.getD 0

/-- Adds a block behind the last one, and gives its number. -/
def push (b : BlockTable) (size : Nat) : Nat × BlockTable :=
  (b.offsets.size - 1, { b with offsets := b.offsets.push (b.covered + size) })

def pushForward (b : BlockTable) (nx : Nat) : BlockTable :=
  let (i, b) := b.push nx
  { b with forward := b.forward.push (some i) }

def pushBackward (b : BlockTable) (nrx : Nat) : BlockTable :=
  let (i, b) := b.push nrx
  { b with backward := b.backward.push (some i) }

/-- Adds the states at point `j` of element `k`. -/
def pushPoint (nx nrx k : Nat) (b : BlockTable) (j : Nat) : BlockTable :=
  let b :=
    if 0 < k ∨ 0 < j then b.pushForward nx else { b with forward := b.forward.push none }
  b.pushBackward nrx

def pushElement (nx nrx degree : Nat) (b : BlockTable) (k : Nat) : BlockTable :=
  (List.range (degree + 1)).foldl (pushPoint nx nrx k) b

/-- The blocks of the states of all elements and of the forward state at the end. -/
def ofElements (nx nrx elements degree : Nat) : BlockTable :=
  let b := ((List.range elements).foldl (pushElement nx nrx degree) empty).pushForward nx
  { b with backward := b.backward.push none }

end BlockTable

end DiffGraph
