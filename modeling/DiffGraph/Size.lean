import DiffGraph.Error

/-!
# Sizes

Sizes, indices and offsets are machine words, and a list is shorter than any memory.
A shape with few nonzeros may be larger than every list, so whatever would list its
rows or columns asks first: a size beyond these limits is a misuse.

Sums and powers of sizes are those of the core library. Mathlib has other instances
for the zero that a sum starts from and for powers, and with it imported they would be
found first; a module that sums or raises sizes prefers the core library's, so that its
definitions are the same terms whatever else is imported.
-/

namespace DiffGraph.Size

attribute [local instance (high)] instPowNat

def wordLimit : Nat :=
  2 ^ (64 : Nat)

/-- Every list is shorter; no memory holds as many items. -/
def listLimit : Nat :=
  2 ^ (48 : Nat)

/-- Refuses a number that is no machine word. -/
def checkWord (n : Nat) : Except GraphError Unit :=
  if n < wordLimit then .ok () else .error .misuse

/-- Refuses a number of items that no list has. -/
def checkLength (n : Nat) : Except GraphError Unit :=
  if n < listLimit then .ok () else .error .misuse

@[simp] theorem checkWord_eq_ok_iff {n : Nat} : checkWord n = .ok () ↔ n < wordLimit := by
  simp [checkWord]

@[simp] theorem checkLength_eq_ok_iff {n : Nat} : checkLength n = .ok () ↔ n < listLimit := by
  simp [checkLength]

end DiffGraph.Size
