import Mathlib
import DiffGraph.Proofs.Failure
import DiffGraph.Proofs.Pattern.Entry
import DiffGraph.Proofs.Scalar
import DiffGraph.Proofs.Solve.Linear

/-!
# Elimination solves linear systems

Elimination takes a system of equations to another one that has no solutions besides those of
the first. After `i` columns the equations are read off the table without the multipliers in
these columns, and off the right-hand side that the multipliers have been applied to
(`SolvesFrom`); a swap of rows, the elimination of a column and a column that is left alone
all lead back from the solutions after the step to those before it. What is left at the end is
triangular, and substituting backwards finds its solution (`Solved`). So a solve that ends
well returns a solution (`LU.solve_correct`).
-/

namespace DiffGraph

/-- An exact field whose elements can be compared. -/
class ExactOrderedField (α : Type) extends ExactField α, OrderedScalar α

/-- The rational numbers are one. -/
@[reducible]
def exactOrderedRat : ExactOrderedField Rat :=
  { (inferInstance : ExactField Rat), (inferInstance : OrderedScalar Rat) with }

namespace LU

/-! ## Equations with a table -/

section Equations

variable {α : Type} [Field α] {R R' : Nat → Nat → α} {b b' y : Nat → α} {n i p r : Nat}

/-- The right-hand side after the multipliers in the first columns of a table. -/
def forwarded (R : Nat → Nat → α) (b : Nat → α) : Nat → Nat → α
  | 0, r => b r
  | i + 1, r =>
    if i < r then -(forwarded R b i i) * R r i + forwarded R b i r else forwarded R b i r

/-- A solution of the equations that are left after the first columns, which hold multipliers below
the diagonal. -/
def SolvesFrom (n i : Nat) (R : Nat → Nat → α) (b y : Nat → α) : Prop :=
  ∀ r < n, ∑ c ∈ Finset.range n, (if c < min r i then 0 else R r c) * y c = forwarded R b i r

theorem forwarded_congr (hi : i ≤ n) (hR : ∀ r < n, ∀ k < i, R r k = R' r k)
    (hb : ∀ r < n, b r = b' r) (hr : r < n) : forwarded R b i r = forwarded R' b' i r := by
  induction i generalizing r with
  | zero => exact hb r hr
  | succ i ih =>
    have ih {r : Nat} (hr : r < n) := ih (by omega) (fun r hr k hk => hR r hr k (by omega)) hr
    simp only [forwarded, ih hr, ih (show i < n by omega), hR r hr i (Nat.lt_succ_self i)]

/-- Rows below the first columns can be swapped before or after the multipliers are applied. -/
theorem forwarded_swap (hip : i ≤ p) {k : Nat} (hk : k ≤ i) (r : Nat) :
    forwarded (fun r => R (Equiv.swap i p r)) (fun r => b (Equiv.swap i p r)) k r =
      forwarded R b k (Equiv.swap i p r) := by
  induction k generalizing r with
  | zero => rfl
  | succ k ih =>
    have hfix : Equiv.swap i p k = k := Equiv.swap_apply_of_ne_of_ne (by omega) (by omega)
    have hbelow : k < Equiv.swap i p r ↔ k < r := by
      rw [Equiv.swap_apply_def]
      split_ifs <;> omega
    simp only [forwarded, ih (by omega), hfix, hbelow]

theorem solvesFrom_of_swap (hip : i ≤ p) (hp : p < n)
    (h : SolvesFrom n i (fun r => R (Equiv.swap i p r)) (fun r => b (Equiv.swap i p r)) y) :
    SolvesFrom n i R b y := by
  intro r hr
  have hswap : Equiv.swap i p r < n := by
    rw [Equiv.swap_apply_def]
    split_ifs <;> omega
  have hmin : min (Equiv.swap i p r) i = min r i := by
    rw [Equiv.swap_apply_def]
    split_ifs <;> omega
  have hrow := h _ hswap
  rw [forwarded_swap hip le_rfl, hmin] at hrow
  dsimp only at hrow
  rwa [Equiv.swap_apply_self] at hrow

/-- The table after column `i` is eliminated below row `i`. -/
def eliminated (R : Nat → Nat → α) (i r c : Nat) : α :=
  if i < r then
    if c < i then R r c
    else if c = i then R r i * (1 / R i i)
    else -(R i c) * (R r i * (1 / R i i)) + R r c
  else R r c

/-- Eliminating with a pivot keeps the solutions. -/
theorem solvesFrom_of_eliminated (hi : i < n) (hpivot : R i i ≠ 0)
    (h : SolvesFrom n (i + 1) (eliminated R i) b y) : SolvesFrom n i R b y := by
  intro r hr
  have hforwarded {r : Nat} (hr : r < n) :
      forwarded (eliminated R i) b i r = forwarded R b i r := by
    refine forwarded_congr hi.le (fun r _ k hk => ?_) (fun _ _ => rfl) hr
    simp [eliminated, hk]
  have hrow := h r hr
  rcases Nat.lt_or_ge i r with hir | hir
  · -- a row below gets the equation of the pivot back, as often as it was subtracted
    have hown := h i hi
    simp only [forwarded, lt_irrefl, if_false, if_pos hir, hforwarded hr, hforwarded hi]
      at hrow hown
    have hterm (c : Nat) : (if c < min r i then 0 else R r c) * y c =
        (if c < min r (i + 1) then 0 else eliminated R i r c) * y c + R r i * (1 / R i i) *
          ((if c < min i (i + 1) then 0 else eliminated R i i c) * y c) := by
      rw [min_eq_right hir.le, min_eq_right (show i + 1 ≤ r from hir), min_eq_left i.le_succ]
      rcases Nat.lt_trichotomy c i with hc | rfl | hc
      · simp [hc, Nat.lt_succ_of_lt hc]
      · simp only [lt_irrefl, if_false, if_pos (Nat.lt_succ_self c), eliminated]
        field_simp
        ring
      · rw [if_neg (by omega), if_neg (by omega), if_neg (by omega)]
        simp only [eliminated, if_pos hir, lt_irrefl, if_false, if_neg (show ¬ c < i by omega),
          if_neg (show c ≠ i by omega)]
        ring
    rw [Finset.sum_congr rfl fun c _ => hterm c, Finset.sum_add_distrib, ← Finset.mul_sum, hrow,
      hown]
    simp only [eliminated, if_pos hir, lt_irrefl, if_false, if_true]
    ring
  · have hmin : min r (i + 1) = min r i := by omega
    simp only [forwarded, if_neg (show ¬ i < r by omega), hforwarded hr, hmin] at hrow
    simpa only [eliminated, if_neg (show ¬ i < r by omega)] using hrow

theorem solvesFrom_of_zeros (hzero : ∀ r < n, i ≤ r → R r i = 0)
    (h : SolvesFrom n (i + 1) R b y) : SolvesFrom n i R b y := by
  intro r hr
  have hrow := h r hr
  rcases Nat.lt_or_ge i r with hir | hir
  · have hterm (c : Nat) : (if c < min r (i + 1) then 0 else R r c) * y c =
        (if c < min r i then 0 else R r c) * y c := by
      rw [min_eq_right hir.le, min_eq_right (show i + 1 ≤ r from hir)]
      rcases Nat.lt_trichotomy c i with hc | rfl | hc
      · simp [hc, Nat.lt_succ_of_lt hc]
      · simp [hzero r hr hir.le]
      · rw [if_neg (by omega), if_neg (by omega)]
    rw [Finset.sum_congr rfl fun c _ => hterm c] at hrow
    simpa [forwarded, hir, hzero r hr hir.le] using hrow
  · have hmin : min r (i + 1) = min r i := by omega
    simpa [forwarded, hmin, if_neg (show ¬ i < r by omega)] using hrow

/-- A solution of a triangular system of which the unknowns from `j` on are known. -/
def Solved (n j : Nat) (R : Nat → Nat → α) (v y : Nat → α) : Prop :=
  ∀ r < n, if r < j then ∑ c ∈ Finset.range j, (if c < r then 0 else R r c) * y c = v r
    else y r = v r

theorem solved_of_substituted {v v' : Nat → α} (hi : i < n) (hdiag : R i i ≠ 0)
    (hv : ∀ r < n, v' r = if r < i then -(v i / R i i) * R r i + v r else if r = i then v i / R i i
      else v r) (h : Solved n i R v' y) : Solved n (i + 1) R v y := by
  have hown : y i = v i / R i i := by
    have := h i hi
    rwa [if_neg (lt_irrefl i), hv i hi, if_neg (lt_irrefl i), if_pos rfl] at this
  intro r hr
  have hrow := h r hr
  rw [hv r hr] at hrow
  rcases Nat.lt_trichotomy r i with hlt | rfl | hgt
  · rw [if_pos hlt, if_pos hlt] at hrow
    rw [if_pos (by omega), Finset.sum_range_succ, hrow, if_neg (by omega), hown]
    ring
  · rw [if_pos (by omega), Finset.sum_range_succ, if_neg (lt_irrefl r), hown,
      Finset.sum_eq_zero fun c hc => by rw [if_pos (Finset.mem_range.1 hc), zero_mul], zero_add]
    field_simp
  · rw [if_neg (by omega), if_neg (by omega), if_neg (by omega)] at hrow
    rw [if_neg (by omega)]
    exact hrow

end Equations

/-! ## Tables -/

section Tables

variable {α : Type} [OrderedScalar α] {rows : Array (Array α)} {b : Array α} {n i p r c : Nat}

def value (b : Array α) (r : Nat) : α :=
  b[r]?.getD 0

/-- As many columns as rows. -/
structure IsTable (n : Nat) (rows : Array (Array α)) : Prop where
  size : rows.size = n
  width : ∀ row ∈ rows, row.size = n

theorem IsTable.exists_row (h : IsTable n rows) (hr : r < n) :
    ∃ row, rows[r]? = some row ∧ row.size = n ∧ ∀ c, entry rows r c = row[c]?.getD 0 := by
  have hlt : r < rows.size := h.size ▸ hr
  refine ⟨rows[r], Array.getElem?_eq_getElem hlt, h.width _ (Array.getElem_mem hlt), fun c => ?_⟩
  rw [entry, Array.getElem?_eq_getElem hlt]
  rfl

theorem getElem?_swapIfInBounds {β : Type} {xs : Array β} (hi : i < xs.size) (hp : p < xs.size)
    (r : Nat) : (xs.swapIfInBounds i p)[r]? = xs[Equiv.swap i p r]? := by
  rw [Array.swapIfInBounds, dif_pos hi, dif_pos hp, Array.getElem?_swap, Equiv.swap_apply_def]
  rcases eq_or_ne r i with rfl | hri
  · rcases eq_or_ne p r with rfl | hpr <;> simp [*]
  · rcases eq_or_ne p r with rfl | hpr
    · simp [*]
    · simp [hri, hri.symm, hpr, hpr.symm]

theorem IsTable.swap (h : IsTable n rows) (hi : i < n) (hp : p < n) :
    IsTable n (rows.swapIfInBounds i p) ∧
      ∀ r c, entry (rows.swapIfInBounds i p) r c = entry rows (Equiv.swap i p r) c := by
  have hi' : i < rows.size := h.size ▸ hi
  have hp' : p < rows.size := h.size ▸ hp
  refine ⟨⟨by rw [Array.size_swapIfInBounds, h.size], fun row hrow => ?_⟩, fun r c => ?_⟩
  · obtain ⟨r, hr⟩ := Array.mem_iff_getElem?.1 hrow
    rw [getElem?_swapIfInBounds hi' hp'] at hr
    exact h.width row (Array.mem_of_getElem? hr)
  · rw [entry, getElem?_swapIfInBounds hi' hp']
    rfl

omit [OrderedScalar α] in
theorem IsTable.mapIdx (h : IsTable n rows) {f : Nat → Array α → Array α}
    (hf : ∀ r row, (f r row).size = row.size) : IsTable n (rows.mapIdx f) := by
  refine ⟨by rw [Array.size_mapIdx, h.size], fun row hrow => ?_⟩
  obtain ⟨r, hr⟩ := Array.mem_iff_getElem?.1 hrow
  rw [Array.getElem?_mapIdx] at hr
  obtain ⟨old, hold, rfl⟩ := Option.map_eq_some_iff.1 hr
  rw [hf, h.width old (Array.mem_of_getElem? hold)]

theorem entry_mapIdx {f : Nat → Array α → Array α} {row : Array α} (hrow : rows[r]? = some row) :
    entry (rows.mapIdx f) r c = (f r row)[c]?.getD 0 := by
  rw [entry, Array.getElem?_mapIdx, hrow]
  rfl

theorem value_swap (hi : i < b.size) (hp : p < b.size) (r : Nat) :
    value (b.swapIfInBounds i p) r = value b (Equiv.swap i p r) := by
  rw [value, getElem?_swapIfInBounds hi hp]
  rfl

theorem value_substitute (affected : Nat → Bool) (hr : r < b.size) :
    value (substitute rows i affected b) r =
      if affected r then -(value b i) * entry rows r i + value b r else value b r := by
  simp only [value, substitute, Array.getElem?_mapIdx, Array.getElem?_eq_getElem hr,
    Option.map_some, Option.getD_some]

/-! ## Pivots -/

theorem pivotRow_range (hi : i < rows.size) :
    i ≤ pivotRow rows i ∧ pivotRow rows i < rows.size := by
  refine List.foldlRecOn (motive := fun best => i ≤ best ∧ best < rows.size) _ _ ⟨le_rfl, hi⟩
    fun best hbest r hr => ?_
  have hrange := List.mem_range'_1.1 hr
  split
  · omega
  · exact hbest

end Tables

/-- Zero is the only number that is not larger than zero in absolute value, and nothing is
smaller. -/
structure MeasuresZero (α : Type) [OrderedScalar α] : Prop where
  beq_zero : ((0 : α) == 0) = true
  not_less (x : α) : OrderedScalar.less (OrderedScalar.abs x) (OrderedScalar.abs 0) = false
  less (x : α) : x ≠ 0 → OrderedScalar.less (OrderedScalar.abs 0) (OrderedScalar.abs x) = true

theorem measuresZero_rat : MeasuresZero Rat where
  beq_zero := rfl
  not_less x := by simp [OrderedScalar.less, OrderedScalar.abs]
  less x hx := by simpa [OrderedScalar.less, OrderedScalar.abs] using hx

section Elimination

variable {α : Type} [ExactOrderedField α] {rows : Array (Array α)} {lu : LU α} {b : Array α}
  {y : Nat → α} {n i p r c : Nat}

theorem eq_zero_of_pivotRow (hz : MeasuresZero α) (h : entry rows (pivotRow rows i) i = 0)
    (hle : i ≤ r) (hr : r < rows.size) : entry rows r i = 0 := by
  have hfold (rs : List Nat) (best : Nat)
      (h : entry rows (rs.foldl (fun best r =>
        if OrderedScalar.less (OrderedScalar.abs (entry rows best i))
          (OrderedScalar.abs (entry rows r i)) then r else best) best) i = 0) :
      ∀ r ∈ best :: rs, entry rows r i = 0 := by
    induction rs generalizing best with
    | nil => simpa using h
    | cons r rs ih =>
      rw [List.foldl_cons] at h
      obtain ⟨hnext, hrest⟩ := List.forall_mem_cons.1 (ih _ h)
      split at hnext
      · -- nothing is smaller than zero
        rename_i hless
        rw [hnext, hz.not_less] at hless
        cases hless
      · rename_i hless
        rw [hnext] at hless
        have hzero : entry rows r i = 0 := by
          by_contra hne
          exact hless (hz.less _ hne)
        simpa [hnext, hzero] using hrest
  refine hfold _ i h r ?_
  rcases Nat.eq_or_lt_of_le hle with rfl | hlt
  · exact List.mem_cons_self
  · refine List.mem_cons_of_mem _ (List.mem_range'_1.2 ?_)
    omega

/-- The table after a step: eliminated with the pivot, unless the column is left alone. -/
theorem eliminateColumn_spec (h : IsTable n lu.rows) (hi : i < n) :
    ((entry lu.rows (pivotRow lu.rows i) i == 0) = true ∧ eliminateColumn lu i = lu) ∨
      (entry lu.rows (pivotRow lu.rows i) i == 0) = false ∧
        (eliminateColumn lu i).swaps = lu.swaps ++ [(i, pivotRow lu.rows i)] ∧
        IsTable n (eliminateColumn lu i).rows ∧ ∀ r < n, ∀ c < n,
          entry (eliminateColumn lu i).rows r c =
            eliminated (fun r => entry lu.rows (Equiv.swap i (pivotRow lu.rows i) r)) i r c := by
  obtain ⟨hle, hlt⟩ : i ≤ pivotRow lu.rows i ∧ pivotRow lu.rows i < lu.rows.size :=
    pivotRow_range (h.size.symm ▸ hi)
  cases hzero : entry lu.rows (pivotRow lu.rows i) i == 0 with
  | true =>
    refine .inl ⟨rfl, ?_⟩
    unfold eliminateColumn
    dsimp only
    rw [if_pos hzero]
  | false =>
    obtain ⟨hswapped, hentry⟩ := h.swap hi (h.size ▸ hlt)
    obtain ⟨pivot, hpivot, -, hpivotEntry⟩ := hswapped.exists_row hi
    have heliminate : eliminateColumn lu i =
        { rows := (lu.rows.swapIfInBounds i (pivotRow lu.rows i)).mapIdx fun r row =>
            if i < r then eliminate pivot i (1 / (pivot[i]?.getD 0)) row else row
          swaps := lu.swaps ++ [(i, pivotRow lu.rows i)] } := by
      unfold eliminateColumn
      dsimp only
      rw [hzero, if_neg Bool.false_ne_true, hpivot]
      rfl
    rw [heliminate]
    refine .inr ⟨rfl, rfl, hswapped.mapIdx fun r row => ?_, fun r hr c hc => ?_⟩
    · split
      · simp [eliminate]
      · rfl
    · obtain ⟨row, hrow, hwidth, hrowEntry⟩ := hswapped.exists_row hr
      have hc' : c < row.size := hwidth ▸ hc
      rw [entry_mapIdx hrow]
      simp only [eliminated, ← hentry, hrowEntry, hpivotEntry]
      split
      · rw [eliminate, Array.getElem?_mapIdx, Array.getElem?_eq_getElem hc']
        rfl
      · rfl

/-- The swaps of a factorisation, applied to a right-hand side. -/
def swapped (swaps : List (Nat × Nat)) (b : Array α) : Array α :=
  swaps.foldl (fun (b : Array α) (i, p) => b.swapIfInBounds i p) b

omit [ExactOrderedField α] in
theorem size_swapped (swaps : List (Nat × Nat)) (b : Array α) :
    (swapped swaps b).size = b.size := by
  induction swaps generalizing b with
  | nil => rfl
  | cons s swaps ih => exact (ih _).trans Array.size_swapIfInBounds

theorem solvesFrom_of_eliminateColumn (hz : MeasuresZero α) (h : IsTable n lu.rows) (hi : i < n)
    (hb : b.size = n) (hy : SolvesFrom n (i + 1) (entry (eliminateColumn lu i).rows)
      (value (swapped (eliminateColumn lu i).swaps b)) y) :
    SolvesFrom n i (entry lu.rows) (value (swapped lu.swaps b)) y := by
  obtain ⟨hle, hlt⟩ : i ≤ pivotRow lu.rows i ∧ pivotRow lu.rows i < lu.rows.size :=
    pivotRow_range (h.size.symm ▸ hi)
  rw [h.size] at hlt
  rcases eliminateColumn_spec h hi with ⟨hzero, hsame⟩ | ⟨hpivot, hswaps, -, hentry⟩
  · rw [hsame] at hy
    exact solvesFrom_of_zeros (fun r hr hir =>
      eq_zero_of_pivotRow hz (ExactField.eq_of_beq _ _ hzero) hir (h.size.symm ▸ hr)) hy
  · refine solvesFrom_of_swap hle hlt (solvesFrom_of_eliminated hi ?_ ?_)
    · intro hzero
      rw [Equiv.swap_apply_left] at hzero
      rw [hzero, hz.beq_zero] at hpivot
      cases hpivot
    · intro r hr
      have hvalue (r : Nat) : value (swapped (eliminateColumn lu i).swaps b) r =
          value (swapped lu.swaps b) (Equiv.swap i (pivotRow lu.rows i) r) := by
        rw [hswaps, swapped, List.foldl_append]
        exact value_swap (by rw [← swapped, size_swapped, hb]; exact hi)
          (by rw [← swapped, size_swapped, hb]; exact hlt) r
      rw [← forwarded_congr (n := n) (R := entry (eliminateColumn lu i).rows)
        (b := value (swapped (eliminateColumn lu i).swaps b)) hi
        (fun r hr k hk => hentry r hr k (by omega)) (fun r _ => hvalue r) hr, ← hy r hr]
      exact Finset.sum_congr rfl fun c hc => by rw [hentry r hr c (Finset.mem_range.1 hc)]

theorem isTable_eliminateColumn (h : IsTable n lu.rows) (hi : i < n) :
    IsTable n (eliminateColumn lu i).rows := by
  rcases eliminateColumn_spec h hi with ⟨-, hsame⟩ | ⟨-, -, htable, -⟩
  · rwa [hsame]
  · exact htable

/-- A solution of what is left after some columns solves the system. -/
theorem solvesFrom_of_factor (hz : MeasuresZero α) (h : IsTable n rows) (hb : b.size = n)
    (hi : i ≤ n) : IsTable n ((List.range i).foldl eliminateColumn ⟨rows, []⟩).rows ∧
      (SolvesFrom n i (entry ((List.range i).foldl eliminateColumn ⟨rows, []⟩).rows)
        (value (swapped ((List.range i).foldl eliminateColumn ⟨rows, []⟩).swaps b)) y →
          SolvesFrom n 0 (entry rows) (value b) y) := by
  induction i with
  | zero => exact ⟨h, id⟩
  | succ i ih =>
    obtain ⟨htable, hback⟩ := ih (by omega)
    rw [List.range_succ, List.foldl_append]
    exact ⟨isTable_eliminateColumn htable hi,
      fun hy => hback (solvesFrom_of_eliminateColumn hz htable hi hb hy)⟩

/-! ## Substitution -/

theorem value_forward (hi : i ≤ b.size) :
    ((List.range i).foldl (fun b i => substitute rows i (fun r => decide (i < r)) b) b).size =
        b.size ∧
      ∀ r < b.size, value ((List.range i).foldl (fun b i =>
        substitute rows i (fun r => decide (i < r)) b) b) r =
          forwarded (entry rows) (value b) i r := by
  induction i with
  | zero => exact ⟨rfl, fun _ _ => rfl⟩
  | succ i ih =>
    obtain ⟨hsize, hvalue⟩ := ih (by omega)
    rw [List.range_succ, List.foldl_append]
    refine ⟨by rw [List.foldl_cons, List.foldl_nil, size_substitute, hsize], fun r hr => ?_⟩
    rw [List.foldl_cons, List.foldl_nil, value_substitute _ (hsize.symm ▸ hr), hvalue r hr,
      hvalue i (by omega)]
    simp only [forwarded, decide_eq_true_eq]

theorem value_modify_div (hr : r < b.size) (x : α) : value (b.modify i (· / x)) r =
    if r = i then value b i / x else value b r := by
  rw [value, Array.getElem?_modify]
  split_ifs with h h' h'
  · subst h
    rw [value, Array.getElem?_eq_getElem hr]
    rfl
  · exact absurd h.symm h'
  · exact absurd h'.symm h
  · rfl

/-- A step backwards divides by the diagonal, which is not zero, and substitutes. -/
theorem backStep_spec (hz : MeasuresZero α) {b' : Array α} (hi : i < b.size)
    (h : backStep rows b i = .ok b') : entry rows i i ≠ 0 ∧ ∀ r < b.size, value b' r =
      if r < i then -(value b i / entry rows i i) * entry rows r i + value b r
      else if r = i then value b i / entry rows i i else value b r := by
  unfold backStep at h
  dsimp only at h
  split at h
  · cases h
  rename_i hdiag
  obtain rfl := Except.ok.inj h
  refine ⟨fun hzero => hdiag (hzero ▸ hz.beq_zero), fun r hr => ?_⟩
  rw [value_substitute _ (by simpa using hr), value_modify_div hr, value_modify_div hi, if_pos rfl]
  rcases Nat.lt_trichotomy r i with hlt | rfl | hgt
  · rw [if_pos (by simpa using hlt), if_pos hlt, if_neg (by omega)]
  · simp
  · rw [if_neg (by simpa using hgt.le), if_neg (by omega), if_neg (by omega)]

theorem solved_of_backSteps (hz : MeasuresZero α) {v w : Array α} (hi : i ≤ v.size)
    (h : (List.range i).reverse.foldlM (backStep rows) v = .ok w) :
    Solved v.size i (entry rows) (value v) (value w) := by
  induction i generalizing v with
  | zero =>
    obtain rfl : v = w := Except.ok.inj h
    intro r _
    rw [if_neg (by omega)]
  | succ i ih =>
    rw [List.range_succ, List.reverse_append, List.reverse_singleton, List.singleton_append,
      List.foldlM_cons] at h
    obtain ⟨v', hstep, h⟩ := ok_of_bind h
    have hsize := size_of_backStep hstep
    obtain ⟨hdiag, hvalue⟩ := backStep_spec hz hi hstep
    have hrest := ih (by omega) h
    rw [hsize] at hrest
    exact solved_of_substituted hi hdiag hvalue hrest

/-- A solve that ends well solves the linear system. -/
theorem solve_correct (hz : MeasuresZero α) (h : IsTable n rows) {b x : List α}
    (hb : b.length = n) (hx : (factor rows).solve b = .ok x) :
    ∀ r < n, ∑ c ∈ Finset.range n, entry rows r c * x[c]?.getD 0 = b[r]?.getD 0 := by
  obtain ⟨htable, hback⟩ := solvesFrom_of_factor (y := value x.toArray) hz h
    (b := b.toArray) (by simpa using hb) le_rfl
  have hfactor : (List.range n).foldl eliminateColumn ⟨rows, []⟩ = factor rows := by
    rw [factor, h.size]
  rw [hfactor] at htable hback
  unfold solve at hx
  obtain ⟨-, hx⟩ := ok_of_guard hx
  dsimp only at hx
  obtain ⟨w, hw, hx⟩ := ok_of_bind hx
  obtain rfl := Except.ok.inj hx
  rw [htable.size] at hw
  have hsize : (swapped (factor rows).swaps b.toArray).size = n := by
    rw [size_swapped, List.size_toArray, hb]
  obtain ⟨hforwardSize, hforward⟩ :=
    @value_forward α _ (factor rows).rows (swapped (factor rows).swaps b.toArray) n hsize.ge
  have hsolved := solved_of_backSteps hz (by rw [← swapped, hforwardSize, hsize]) hw
  rw [← swapped, hforwardSize, hsize] at hsolved
  have hsolves := hback fun r hr => by
    have hrow := hsolved r hr
    rw [if_pos hr, hforward r (hsize.symm ▸ hr)] at hrow
    rw [← hrow, min_eq_left hr.le]
  intro r hr
  have hrow := hsolves r hr
  simpa [forwarded, value] using hrow

end Elimination

end LU

/-! ## Tables of sparse matrices -/

namespace SparseMatrix

open LU

variable {α : Type} [ExactOrderedField α] {n : Nat}

theorem isTable_modify {rows : Array (Array α)} (h : IsTable n rows) {e : Nat × Nat}
    (he : e.1 < n ∧ e.2 < n) (x : α) :
    IsTable n (rows.modify e.1 fun row => row.modify e.2 (· + x)) ∧
      ∀ r c, entry (rows.modify e.1 fun row => row.modify e.2 (· + x)) r c =
        entry rows r c + if e = (r, c) then x else 0 := by
  obtain ⟨i, j⟩ := e
  obtain ⟨row, hrow, hwidth, -⟩ := h.exists_row he.1
  refine ⟨⟨by rw [Array.size_modify, h.size], fun new hnew => ?_⟩, fun r c => ?_⟩
  · obtain ⟨r, hr⟩ := Array.mem_iff_getElem?.1 hnew
    rw [Array.getElem?_modify] at hr
    split at hr
    · obtain ⟨old, hold, rfl⟩ := Option.map_eq_some_iff.1 hr
      rw [Array.size_modify, h.width old (Array.mem_of_getElem? hold)]
    · exact h.width new (Array.mem_of_getElem? hr)
  · rw [entry, entry, Array.getElem?_modify]
    rcases eq_or_ne i r with rfl | hir
    · rw [if_pos rfl, hrow, Option.map_some, Option.bind_some, Option.bind_some,
        Array.getElem?_modify]
      rcases eq_or_ne j c with rfl | hjc
      · have hj : j < row.size := hwidth ▸ he.2
        simp [Array.getElem?_eq_getElem hj]
      · simp [hjc]
    · simp [hir]

theorem isTable_foldl_modify {es : List ((Nat × Nat) × α)}
    (hes : ∀ e ∈ es, e.1.1 < n ∧ e.1.2 < n) {rows : Array (Array α)} (h : IsTable n rows) :
    IsTable n (es.foldl (fun rows e => rows.modify e.1.1 fun row =>
      row.modify e.1.2 (· + e.2)) rows) ∧
      ∀ r c, entry (es.foldl (fun rows e => rows.modify e.1.1 fun row =>
        row.modify e.1.2 (· + e.2)) rows) r c =
          entry rows r c + (es.map fun e => if e.1 = (r, c) then e.2 else 0).sum := by
  induction es generalizing rows with
  | nil => exact ⟨h, fun r c => by simp⟩
  | cons e es ih =>
    obtain ⟨he, hes⟩ := List.forall_mem_cons.1 hes
    obtain ⟨hnext, hentry⟩ := isTable_modify h he e.2
    obtain ⟨hrest, hsum⟩ := ih hes hnext
    refine ⟨hrest, fun r c => ?_⟩
    rw [List.foldl_cons, hsum, hentry, List.map_cons, List.sum_cons, add_assoc]

theorem isTable_replicate (n : Nat) :
    IsTable n (Array.replicate n (Array.replicate n (0 : α))) ∧
      ∀ r c, entry (Array.replicate n (Array.replicate n (0 : α))) r c = 0 := by
  refine ⟨⟨Array.size_replicate, fun row hrow => ?_⟩, fun r c => ?_⟩
  · rw [(Array.mem_replicate.1 hrow).2, Array.size_replicate]
  · rw [entry, Array.getElem?_replicate]
    split
    · rw [Option.bind_some, Array.getElem?_replicate]
      split <;> rfl
    · rfl

theorem rows_spec {m : SparseMatrix α} (hvalues : m.values.length = m.pattern.nnz)
    (hshape : m.pattern.shape = (n, n)) :
    IsTable n m.rows ∧ ∀ r c, entry m.rows r c = m.pattern.entry m.values r c := by
  obtain ⟨hrows, hcols⟩ := Prod.mk.inj hshape
  have hinside : ∀ e ∈ m.pattern.triplets.zip m.values, e.1.1 < n ∧ e.1.2 < n := fun e he => by
    have := Pattern.lt_of_mem_triplets (List.of_mem_zip he).1
    rwa [hrows, hcols] at this
  obtain ⟨hzero, hempty⟩ := isTable_replicate (α := α) n
  obtain ⟨htable, hentry⟩ := isTable_foldl_modify hinside hzero
  have hm : m.rows = (m.pattern.triplets.zip m.values).foldl (fun rows e =>
      rows.modify e.1.1 fun row => row.modify e.1.2 (· + e.2))
      (Array.replicate n (Array.replicate n 0)) := by
    unfold SparseMatrix.rows
    rw [hrows, hcols]
  rw [hm]
  refine ⟨htable, fun r c => (hentry r c).trans ?_⟩
  -- every nonzero of the pattern is added once, and it is the entry at its place
  have hpairs : (m.pattern.triplets.zip m.values).map (fun e => if e.1 = (r, c) then e.2 else 0) =
      m.pattern.triplets.map fun e =>
        if e = (r, c) then m.pattern.entry m.values e.1 e.2 else 0 := by
    conv_lhs => rw [← Pattern.gather_entry hvalues, Pattern.gather]
    rw [List.zip_eq_zipWith, List.zipWith_map_right, List.zipWith_self, List.map_map]
    rfl
  rw [hempty, hpairs, zero_add, ← List.sum_toFinset _ (Pattern.nodup_triplets _),
    Finset.sum_ite_eq']
  split
  · rfl
  · rename_i hmem
    exact (Pattern.entry_of_not_mem (by simpa using hmem)).symm

end SparseMatrix

end DiffGraph
