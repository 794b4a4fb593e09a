import DiffGraph.Size

/-!
# Colouring columns

Two columns clash if they have a nonzero in a common row. `coloring` walks over
the columns and gives each the smallest colour that no earlier clashing column
has, so columns of one colour never meet in a row. Such a colour always exists
(`smallestFree_not_mem`).
-/

namespace DiffGraph.Pattern

def smallestFree (used : List Nat) : Nat :=
  ((List.range (used.length + 1)).find? fun c => !used.contains c).getD 0

theorem le_length_of_forall_lt_mem {n : Nat} {used : List Nat} (h : ∀ c < n, c ∈ used) :
    n ≤ used.length := by
  induction n generalizing used with
  | zero => exact Nat.zero_le _
  | succ n ih =>
    have here : n ∈ used := h n (Nat.lt_succ_self n)
    have rest : n ≤ (used.erase n).length := ih fun c hc =>
      (List.mem_erase_of_ne (Nat.ne_of_lt hc)).2 (h c (Nat.lt_succ_of_lt hc))
    have := List.length_erase_of_mem here
    have := List.length_pos_of_mem here
    omega

theorem find?_smallestFree (used : List Nat) :
    (List.range (used.length + 1)).find? (fun c => !used.contains c) =
      some (smallestFree used) := by
  rw [smallestFree]
  cases h : (List.range (used.length + 1)).find? fun c => !used.contains c with
  | some c => rfl
  | none =>
    have all : ∀ c < used.length + 1, c ∈ used := by
      simpa [List.find?_eq_none] using h
    exact absurd (le_length_of_forall_lt_mem all) (by omega)

theorem smallestFree_not_mem (used : List Nat) : smallestFree used ∉ used := by
  simpa using List.find?_some (find?_smallestFree used)

theorem mem_of_lt_smallestFree {used : List Nat} {c : Nat} (h : c < smallestFree used) :
    c ∈ used := by
  have := List.find?_range_eq_some.1 (find?_smallestFree used)
  simpa using this.2.2 c h

/-- The columns `a` and `b` have a nonzero in a common row. -/
def clash (a b : List Nat) : Bool :=
  a.any b.contains

/-- Colours the columns one after another; `done` holds the coloured ones, last first. -/
def colorFrom (done : List (List Nat × Nat)) : List (List Nat) → List Nat
  | [] => []
  | rows :: rest =>
    let used := (done.filter fun d => clash rows d.1).map Prod.snd
    let c := smallestFree used
    c :: colorFrom ((rows, c) :: done) rest

@[simp] theorem length_colorFrom (done : List (List Nat × Nat)) (columns : List (List Nat)) :
    (colorFrom done columns).length = columns.length := by
  induction columns generalizing done with
  | nil => rfl
  | cons rows rest ih => simp [colorFrom, ih]

def coloring (p : Pattern) : List Nat :=
  colorFrom [] p.columns

@[simp] theorem length_coloring (p : Pattern) : p.coloring.length = p.ncols :=
  length_colorFrom [] p.columns

def coloringChecked (p : Pattern) : Except GraphError (List Nat) := do
  Size.checkLength p.nrows
  return p.coloring

/-- The number of colours that `coloring` uses. -/
def colorCount (colors : List Nat) : Nat :=
  colors.foldr (fun c n => max (c + 1) n) 0

end DiffGraph.Pattern
