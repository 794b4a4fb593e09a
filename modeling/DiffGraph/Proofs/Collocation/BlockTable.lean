import Mathlib
import DiffGraph.Collocation.Residual
import DiffGraph.Proofs.Pattern.Compressed

/-!
# The table of blocks

A point that is pushed puts the forward state that is behind the last backward state, and its own
backward state, at the end of the table (`BlockTable.Reaches.step`). So the finished table has
backward and forward states by turns (`BlockTable.ofElements_spec`), although no point pushes a
pair of them: the first forward state is left out and the last one comes by itself.
-/

namespace DiffGraph

theorem Offsets.ofSizes_concat (sizes : List Nat) (size : Nat) :
    ofSizes (sizes ++ [size]) = ofSizes sizes ++ [sizes.sum + size] := by
  rw [ofSizes, sizesFrom_append, Nat.zero_add]
  rfl

namespace BlockTable

/-- The sizes of backward and forward states by turns. -/
def turns (nx nrx count : Nat) : List Nat :=
  (List.replicate count [nrx, nx]).flatten

theorem turns_succ (nx nrx count : Nat) :
    turns nx nrx (count + 1) = turns nx nrx count ++ [nrx] ++ [nx] := by
  rw [turns, turns, List.replicate_succ', List.flatten_concat, List.append_assoc]
  rfl

theorem length_turns (nx nrx count : Nat) : (turns nx nrx count).length = 2 * count := by
  simp [turns, Nat.mul_comm]

theorem turns_pair {count m : Nat} (h : m < count) (nx nrx : Nat) :
    (turns nx nrx count)[2 * m]? = some nrx ∧ (turns nx nrx count)[2 * m + 1]? = some nx ∧
      ((turns nx nrx count).take (2 * m)).sum = m * (nrx + nx) := by
  unfold turns
  induction m generalizing count with
  | zero =>
    obtain ⟨count, rfl⟩ := Nat.exists_eq_add_of_lt h
    simp [List.replicate_succ]
  | succ m ih =>
    obtain ⟨count, rfl⟩ : ∃ c, count = c + 1 := ⟨count - 1, by omega⟩
    obtain ⟨hfirst, hsecond, hsum⟩ := ih (show m < count by omega)
    rw [List.replicate_succ, List.flatten_cons, Nat.mul_succ]
    refine ⟨by simpa using hfirst, by simpa using hsecond, ?_⟩
    have htake : (([nrx, nx] ++ (List.replicate count [nrx, nx]).flatten).take (2 * m + 2)).sum =
        nrx + nx + ((List.replicate count [nrx, nx]).flatten.take (2 * m)).sum := by
      simp [Nat.add_assoc]
    rw [htake, hsum, Nat.succ_mul, Nat.add_comm]

/-- The blocks have these sizes, and these of them are forward and backward states. -/
structure Has (sizes : List Nat) (forward backward : List (Option Nat)) (b : BlockTable) :
    Prop where
  offsets : b.offsets.toList = Offsets.ofSizes sizes
  forward : b.forward.toList = forward
  backward : b.backward.toList = backward

section Push

variable {sizes : List Nat} {forward backward : List (Option Nat)} {b : BlockTable}

theorem Has.covered (h : b.Has sizes forward backward) : b.covered = sizes.sum := by
  rw [BlockTable.covered, ← Array.getLast?_toList, h.offsets, Offsets.getLast?_ofSizes]
  rfl

theorem Has.push (h : b.Has sizes forward backward) (size : Nat) :
    (b.push size).1 = sizes.length ∧
      (b.push size).2.Has (sizes ++ [size]) forward backward := by
  have hcount : b.offsets.size = sizes.length + 1 := by
    rw [← Array.length_toList, h.offsets, Offsets.length_ofSizes]
  refine ⟨?_, ?_, h.forward, h.backward⟩
  · exact Nat.sub_eq_of_eq_add hcount
  · show (b.offsets.push (b.covered + size)).toList = _
    rw [Array.toList_push, h.offsets, h.covered]
    exact (Offsets.ofSizes_concat sizes size).symm

theorem Has.pushForward (h : b.Has sizes forward backward) (nx : Nat) :
    (b.pushForward nx).Has (sizes ++ [nx]) (forward ++ [some sizes.length]) backward := by
  obtain ⟨hi, hpush⟩ := h.push nx
  refine ⟨hpush.offsets, ?_, hpush.backward⟩
  show ((b.push nx).2.forward.push (some (b.push nx).1)).toList = _
  rw [hi, Array.toList_push, hpush.forward]

theorem Has.pushBackward (h : b.Has sizes forward backward) (nrx : Nat) :
    (b.pushBackward nrx).Has (sizes ++ [nrx]) forward (backward ++ [some sizes.length]) := by
  obtain ⟨hi, hpush⟩ := h.push nrx
  refine ⟨hpush.offsets, hpush.forward, ?_⟩
  show ((b.push nrx).2.backward.push (some (b.push nrx).1)).toList = _
  rw [hi, Array.toList_push, hpush.backward]

end Push

/-! ## Points -/

variable {nx nrx k j m : Nat} {b : BlockTable}

/-- The states at the first `m` points have been pushed. -/
def Reaches (nx nrx : Nat) : Nat → BlockTable → Prop
  | 0, b => b.Has [] [] []
  | m + 1, b => b.Has (turns nx nrx m ++ [nrx])
      (none :: (List.range m).map fun i => some (2 * i + 1))
      ((List.range (m + 1)).map fun i => some (2 * i))

theorem Reaches.step (h : Reaches nx nrx m b) (hfirst : 0 < k ∨ 0 < j ↔ m ≠ 0) :
    Reaches nx nrx (m + 1) (pushPoint nx nrx k b j) := by
  unfold pushPoint
  cases m with
  | zero =>
    rw [if_neg (by simpa using hfirst)]
    have hgiven : Has [] [none] [] { b with forward := b.forward.push none } :=
      ⟨h.offsets, by rw [Array.toList_push, h.forward]; rfl, h.backward⟩
    exact hgiven.pushBackward nrx
  | succ m =>
    rw [if_pos (hfirst.2 (Nat.succ_ne_zero m))]
    have hpush := (Has.pushForward h nx).pushBackward nrx
    rw [← turns_succ, length_turns, List.length_append, length_turns, List.cons_append,
      List.length_singleton] at hpush
    refine ⟨hpush.offsets, ?_, ?_⟩
    · rw [List.range_succ, List.map_append]
      exact hpush.forward
    · rw [List.range_succ, List.map_append]
      exact hpush.backward

theorem foldl_range {β : Type} {P : Nat → β → Prop} {f : β → Nat → β} {b : β} (h : P 0 b)
    (hstep : ∀ i b, P i b → P (i + 1) (f b i)) (n : Nat) : P n ((List.range n).foldl f b) := by
  induction n with
  | zero => exact h
  | succ n ih =>
    rw [List.range_succ, List.foldl_append]
    exact hstep n _ ih

theorem Reaches.element {degree : Nat} (h : Reaches nx nrx (k * (degree + 1)) b) :
    Reaches nx nrx ((k + 1) * (degree + 1)) (pushElement nx nrx degree b k) := by
  rw [Nat.succ_mul]
  refine foldl_range (P := fun j => Reaches nx nrx (k * (degree + 1) + j)) h
    (fun j b hb => hb.step ?_) (degree + 1)
  rw [Nat.ne_zero_iff_zero_lt, Nat.add_pos_iff_pos_or_pos,
    Nat.mul_pos_iff_of_pos_right (Nat.succ_pos degree)]

/-- The table of all elements: backward and forward states by turns, each at its place. -/
theorem ofElements_spec (nx nrx : Nat) {elements : Nat} (helements : elements ≠ 0) (degree : Nat) :
    let count := elements * (degree + 1)
    (ofElements nx nrx elements degree).Has (turns nx nrx count)
      (none :: (List.range count).map fun i => some (2 * i + 1))
      (((List.range count).map fun i => some (2 * i)) ++ [none]) := by
  have hempty : Reaches nx nrx (0 * (degree + 1)) empty := by
    rw [Nat.zero_mul]
    exact ⟨rfl, rfl, rfl⟩
  have hpoints := foldl_range (P := fun k => Reaches nx nrx (k * (degree + 1))) hempty
    (fun _ _ hb => hb.element) elements
  obtain ⟨last, hlast⟩ := Nat.exists_eq_succ_of_ne_zero
    (Nat.mul_ne_zero helements (Nat.succ_ne_zero degree))
  dsimp only
  rw [hlast] at hpoints ⊢
  have hpush := Has.pushForward hpoints nx
  rw [← turns_succ, List.length_append, length_turns, List.length_singleton,
    List.cons_append] at hpush
  refine ⟨hpush.offsets, ?_, ?_⟩
  · rw [List.range_succ, List.map_append]
    exact hpush.forward
  · exact (Array.toList_push ..).trans (congrArg (· ++ [none]) hpush.backward)

end BlockTable

/-! ## The states of a trajectory -/

/-- The states between the given ones are blocks: a backward state, and then the forward state
at the next point. -/
structure Trajectory.ByTurns {α : Type} (d : Discretization α) (t : Trajectory α) : Prop where
  first : Discretization.forwardState t 0 = pure t.x0
  forward : ∀ m < d.pointCount,
    Discretization.forwardState t (m + 1) = Discretization.block t (2 * m + 1)
  backward : ∀ m < d.pointCount, Discretization.backwardState t m = Discretization.block t (2 * m)
  last : Discretization.backwardState t d.pointCount = pure t.rx0

namespace Discretization

variable {α : Type}

def blockSizes (d : Discretization α) : List Nat :=
  BlockTable.turns d.fwd.nx d.bwd.nrx d.pointCount

theorem sum_blockSizes (d : Discretization α) : d.blockSizes.sum = d.unknowns := by
  rw [blockSizes, BlockTable.turns, unknowns, List.sum_flatten, List.map_replicate,
    List.sum_replicate]
  simp [Nat.add_comm]

theorem length_blockSizes (d : Discretization α) : d.blockSizes.length = 2 * d.pointCount :=
  BlockTable.length_turns _ _ _

variable {d : Discretization α} {t : Trajectory α} {m : Nat}

theorem blockTable_spec (h : d.elements ≠ 0) : d.blockTable.Has d.blockSizes
    (none :: (List.range d.pointCount).map fun i => some (2 * i + 1))
    (((List.range d.pointCount).map fun i => some (2 * i)) ++ [none]) :=
  BlockTable.ofElements_spec _ _ h _

theorem covered_blockTable (h : d.elements ≠ 0) : d.blockTable.covered = d.unknowns :=
  (blockTable_spec h).covered.trans d.sum_blockSizes

theorem stateAt_of_getElem? {states : Array (Option Nat)} {given : Expr α} {i : Option Nat}
    (h : states.toList[m]? = some i) : stateAt t states given m = i.elim (pure given) (block t) := by
  rw [Array.getElem?_toList] at h
  unfold stateAt
  rw [h]
  cases i <;> rfl

theorem byTurns (h : d.elements ≠ 0) (ht : t.table = d.blockTable) : t.ByTurns d := by
  have hspec := blockTable_spec h
  rw [← ht] at hspec
  constructor
  case first =>
    refine stateAt_of_getElem? (i := none) ?_
    rw [hspec.forward]
    rfl
  case forward =>
    intro m hm
    refine stateAt_of_getElem? (i := some _) ?_
    rw [hspec.forward, List.getElem?_cons_succ, List.getElem?_map, List.getElem?_range hm]
    rfl
  case backward =>
    intro m hm
    refine stateAt_of_getElem? (i := some _) ?_
    rw [hspec.backward, List.getElem?_append_left (by simpa using hm), List.getElem?_map,
      List.getElem?_range hm]
    rfl
  case last =>
    refine stateAt_of_getElem? (i := none) ?_
    rw [hspec.backward, List.getElem?_append_right (by simp)]
    simp

end Discretization

end DiffGraph
