/-!
# Columns of a pattern

A column lists its nonzero rows in increasing order (`IsColumn`). `insertRow`
adds a row to a column; the lemmas say how columns are shifted, stacked and cut.
-/

namespace DiffGraph

/-- A column of a pattern with `nrows` rows: increasing rows, all in range. -/
def IsColumn (nrows : Nat) (rows : List Nat) : Prop :=
  rows.Pairwise (· < ·) ∧ ∀ r ∈ rows, r < nrows

instance (nrows : Nat) (rows : List Nat) : Decidable (IsColumn nrows rows) :=
  inferInstanceAs (Decidable (_ ∧ _))

/-- Puts a row into an increasing list, unless it is there. -/
def insertRow (r : Nat) : List Nat → List Nat
  | [] => [r]
  | s :: rest =>
    if r < s then r :: s :: rest else if r = s then s :: rest else s :: insertRow r rest

theorem mem_insertRow {r s : Nat} {rows : List Nat} :
    s ∈ insertRow r rows ↔ s = r ∨ s ∈ rows := by
  induction rows with
  | nil => simp [insertRow]
  | cons t rest ih => grind [insertRow]

theorem pairwise_insertRow {r : Nat} {rows : List Nat} (h : rows.Pairwise (· < ·)) :
    (insertRow r rows).Pairwise (· < ·) := by
  induction rows with
  | nil => simp [insertRow]
  | cons t rest ih => grind [insertRow, mem_insertRow, List.pairwise_cons]

/-- The rows of both lists; `ys` is increasing. -/
def mergeRows (xs ys : List Nat) : List Nat :=
  xs.foldr insertRow ys

theorem mem_mergeRows {xs ys : List Nat} {r : Nat} :
    r ∈ mergeRows xs ys ↔ r ∈ xs ∨ r ∈ ys := by
  induction xs with
  | nil => simp [mergeRows]
  | cons x xs ih =>
    simp only [mergeRows, List.foldr_cons, mem_insertRow, List.mem_cons] at ih ⊢
    rw [ih, or_assoc]

namespace IsColumn

theorem nil (n : Nat) : IsColumn n [] := by
  simp [IsColumn]

theorem range (n : Nat) : IsColumn n (List.range n) :=
  ⟨List.pairwise_lt_range, fun _ h => List.mem_range.1 h⟩

theorem mono {m n : Nat} {rows : List Nat} (h : IsColumn m rows) (hmn : m ≤ n) :
    IsColumn n rows :=
  ⟨h.1, fun r hr => Nat.lt_of_lt_of_le (h.2 r hr) hmn⟩

theorem shift {n : Nat} {rows : List Nat} (h : IsColumn n rows) (m : Nat) :
    IsColumn (m + n) (rows.map (m + ·)) := by
  constructor
  · exact h.1.map _ fun _ _ hab => Nat.add_lt_add_left hab m
  · intro r hr
    obtain ⟨s, hs, rfl⟩ := List.mem_map.1 hr
    exact Nat.add_lt_add_left (h.2 s hs) m

theorem stack {m n : Nat} {above below : List Nat} (ha : IsColumn m above)
    (hb : IsColumn n below) : IsColumn (m + n) (above ++ below.map (m + ·)) := by
  constructor
  · refine List.pairwise_append.2 ⟨ha.1, (hb.shift m).1, ?_⟩
    intro a hma b hmb
    obtain ⟨c, _, rfl⟩ := List.mem_map.1 hmb
    exact Nat.lt_of_lt_of_le (ha.2 a hma) (Nat.le_add_right m c)
  · intro r hr
    rcases List.mem_append.1 hr with h | h
    · exact Nat.lt_of_lt_of_le (ha.2 r h) (Nat.le_add_right m n)
    · exact (hb.shift m).2 r h

theorem cut {n : Nat} {rows : List Nat} (h : IsColumn n rows) (a b : Nat) :
    IsColumn (b - a) ((rows.filter fun r => a ≤ r && r < b).map (· - a)) := by
  constructor
  · refine List.pairwise_map.2 (List.Pairwise.imp_of_mem ?_ (h.1.filter _))
    intro x y hx hy hxy
    simp only [List.mem_filter, Bool.and_eq_true, decide_eq_true_eq] at hx hy
    omega
  · intro r hr
    obtain ⟨s, hs, rfl⟩ := List.mem_map.1 hr
    simp only [List.mem_filter, Bool.and_eq_true, decide_eq_true_eq] at hs
    omega

theorem insertRow {n r : Nat} {rows : List Nat} (h : IsColumn n rows) (hr : r < n) :
    IsColumn n (insertRow r rows) :=
  ⟨pairwise_insertRow h.1, fun s hs => (mem_insertRow.1 hs).elim (fun e => e ▸ hr) (h.2 s)⟩

theorem merge {n : Nat} {xs ys : List Nat} (hx : IsColumn n xs) (hy : IsColumn n ys) :
    IsColumn n (mergeRows xs ys) := by
  induction xs with
  | nil => exact hy
  | cons x xs ih =>
    have tail : IsColumn n xs :=
      ⟨(List.pairwise_cons.1 hx.1).2, fun r hr => hx.2 r (List.mem_cons_of_mem x hr)⟩
    exact (ih tail).insertRow (hx.2 x (by simp))

end IsColumn

end DiffGraph
