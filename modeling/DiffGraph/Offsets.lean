/-!
# Offset tables

An offset table `0 = o₀ ≤ o₁ ≤ … ≤ oₙ` cuts a row of items into `n` consecutive
blocks. `ofSizes` builds the table of given block sizes, `blocks` lists the
half-open ranges, `flaw?` tells why a list is no table of a given total, and
`slice?` cuts a range out of a buffer. A table built from sizes has no flaw
(`flaw?_ofSizes`) and its blocks have these sizes (`sizes_blocks_sizesFrom`).
-/

namespace DiffGraph

attribute [local instance (high)] Zero.ofOfNat0

/-- Why a list is no offset table. -/
inductive OffsetFlaw where
  | missing (what : String)
  | ends (what : String) (total : Nat) (offsets : List Nat)
  | decreasing (what : String) (offsets : List Nat)
  | blockCounts (rows cols : Nat)
  deriving DecidableEq

namespace Offsets

/-- The table that starts at `start` and has blocks of the given sizes. -/
def sizesFrom (start : Nat) : List Nat → List Nat
  | [] => [start]
  | n :: ns => start :: sizesFrom (start + n) ns

def ofSizes (sizes : List Nat) : List Nat :=
  sizesFrom 0 sizes

/-- The half-open ranges between neighbours of a table. -/
def blocks (offsets : List Nat) : List (Nat × Nat) :=
  offsets.zip offsets.tail

/-- The first reason why `offsets` does not cut `total` items; `what` names the items. -/
def flaw? (offsets : List Nat) (total : Nat) (what : String) : Option OffsetFlaw :=
  match offsets.head?, offsets.getLast? with
  | some first, some last =>
    if first ≠ 0 ∨ last ≠ total then some (.ends what total offsets)
    else if (blocks offsets).any fun (a, b) => b < a then some (.decreasing what offsets)
    else none
  | _, _ => some (.missing what)

@[simp] theorem length_sizesFrom (start : Nat) (sizes : List Nat) :
    (sizesFrom start sizes).length = sizes.length + 1 := by
  induction sizes generalizing start with
  | nil => rfl
  | cons n ns ih => simp [sizesFrom, ih]

@[simp] theorem length_ofSizes (sizes : List Nat) :
    (ofSizes sizes).length = sizes.length + 1 :=
  length_sizesFrom 0 sizes

@[simp] theorem head?_ofSizes (sizes : List Nat) : (ofSizes sizes).head? = some 0 := by
  cases sizes <;> rfl

theorem getLast?_sizesFrom (start : Nat) (sizes : List Nat) :
    (sizesFrom start sizes).getLast? = some (start + sizes.sum) := by
  induction sizes generalizing start with
  | nil => simp [sizesFrom]
  | cons n ns ih =>
    rw [sizesFrom, List.getLast?_cons, ih]
    simp [Nat.add_assoc]

@[simp] theorem getLast?_ofSizes (sizes : List Nat) :
    (ofSizes sizes).getLast? = some sizes.sum := by
  rw [ofSizes, getLast?_sizesFrom, Nat.zero_add]

theorem blocks_sizesFrom_cons (start n : Nat) (ns : List Nat) :
    blocks (sizesFrom start (n :: ns)) =
      (start, start + n) :: blocks (sizesFrom (start + n) ns) := by
  cases ns <;> rfl

/-- The sizes of the blocks of a table are the ones that it was built from. -/
theorem sizes_blocks_sizesFrom (start : Nat) (sizes : List Nat) :
    (blocks (sizesFrom start sizes)).map (fun (a, b) => b - a) = sizes := by
  induction sizes generalizing start with
  | nil => rfl
  | cons n ns ih => simp [blocks_sizesFrom_cons, ih]

theorem le_of_mem_blocks_sizesFrom {start : Nat} {sizes : List Nat} {block : Nat × Nat}
    (h : block ∈ blocks (sizesFrom start sizes)) : block.1 ≤ block.2 := by
  induction sizes generalizing start with
  | nil => simp [sizesFrom, blocks] at h
  | cons n ns ih =>
    rw [blocks_sizesFrom_cons, List.mem_cons] at h
    rcases h with rfl | h
    · exact Nat.le_add_right _ _
    · exact ih h

theorem flaw?_ofSizes (sizes : List Nat) (what : String) :
    flaw? (ofSizes sizes) sizes.sum what = none := by
  have increasing : ¬ (blocks (ofSizes sizes)).any (fun (a, b) => b < a) := by
    simp only [List.any_eq_true, not_exists, not_and]
    intro block h
    simpa using le_of_mem_blocks_sizesFrom h
  simp [flaw?, increasing]

end Offsets

def slice {β : Type} (items : List β) (a b : Nat) : List β :=
  (items.drop a).take (b - a)

theorem length_slice {β : Type} {items : List β} {a b : Nat} (h : b ≤ items.length) :
    (slice items a b).length = b - a := by
  simp [slice]; omega

/-- `slice`, refused for a range that is reversed or leaves the list. -/
def slice? {β : Type} (items : List β) (a b : Nat) : Option (List β) :=
  if a ≤ b ∧ b ≤ items.length then some (slice items a b) else none

/-- Consecutive blocks of the given sizes, cut off the front of a list. -/
def chunks {β : Type} : List Nat → List β → List (List β)
  | [], _ => []
  | n :: ns, items => items.take n :: chunks ns (items.drop n)

theorem flatten_chunks {β : Type} (sizes : List Nat) (items : List β) :
    (chunks sizes items).flatten = items.take sizes.sum := by
  induction sizes generalizing items with
  | nil => simp [chunks]
  | cons n ns ih => simp [chunks, ih, List.take_add]

end DiffGraph
