import Mathlib
import DiffGraph.Pattern.Build
import DiffGraph.Pattern.Coloring
import DiffGraph.Proofs.Pattern.Entry

/-!
# Coloured columns

Columns of one colour have no row in common (`eq_of_coloring`), since a column
avoids the colours of the earlier ones that it clashes with. A pattern made of
entries consists of these entries (`ofTriplets_spec`).
-/

namespace DiffGraph.Pattern

/-! ## Colours -/

theorem clash_iff {a b : List Nat} : clash a b = true ↔ ∃ r ∈ a, r ∈ b := by
  simp [clash]

/-- A column does not get the colour of a coloured column that it clashes with. -/
theorem colorFrom_ne {done : List (List Nat × Nat)} {columns : List (List Nat)}
    {d : List Nat × Nat} (hd : d ∈ done) {j : Nat} {rows : List Nat}
    (hrows : columns[j]? = some rows) (hclash : clash rows d.1 = true) :
    (colorFrom done columns)[j]? ≠ some d.2 := by
  induction columns generalizing done j with
  | nil => cases hrows
  | cons first rest ih =>
    unfold colorFrom
    cases j with
    | zero =>
      obtain rfl := Option.some.inj hrows
      intro heq
      have hused : d.2 ∈ (done.filter fun d => clash first d.1).map Prod.snd :=
        List.mem_map_of_mem (List.mem_filter.2 ⟨hd, hclash⟩)
      rw [← Option.some.inj heq] at hused
      exact smallestFree_not_mem _ hused
    | succ j => exact ih (List.mem_cons_of_mem _ hd) hrows

theorem colorFrom_ne_of_lt {done : List (List Nat × Nat)} {columns : List (List Nat)} {i j : Nat}
    (hij : i < j) {rows rows' : List Nat} (hi : columns[i]? = some rows)
    (hj : columns[j]? = some rows') (hclash : clash rows' rows = true) :
    (colorFrom done columns)[j]? ≠ (colorFrom done columns)[i]? := by
  induction columns generalizing done i j with
  | nil => cases hi
  | cons first rest ih =>
    obtain ⟨j, rfl⟩ := Nat.exists_eq_add_one_of_ne_zero (Nat.ne_of_gt (Nat.zero_lt_of_lt hij))
    unfold colorFrom
    cases i with
    | zero =>
      obtain rfl := Option.some.inj hi
      exact colorFrom_ne List.mem_cons_self hj hclash
    | succ i => exact ih (Nat.lt_of_succ_lt_succ hij) hi hj

/-- Columns of one colour never meet in a row. -/
theorem eq_of_coloring {p : Pattern} {r c c' : Nat} (h : (r, c) ∈ p.triplets)
    (h' : (r, c') ∈ p.triplets) (hcolor : p.coloring[c]? = p.coloring[c']?) : c = c' := by
  obtain ⟨rows, hrows, hr⟩ := mem_triplets.1 h
  obtain ⟨rows', hrows', hr'⟩ := mem_triplets.1 h'
  rcases Nat.lt_trichotomy c c' with hlt | heq | hgt
  · exact absurd hcolor.symm (colorFrom_ne_of_lt hlt hrows hrows' (clash_iff.2 ⟨r, hr', hr⟩))
  · exact heq
  · exact absurd hcolor (colorFrom_ne_of_lt hgt hrows' hrows (clash_iff.2 ⟨r, hr, hr'⟩))

theorem lt_colorCount {colors : List Nat} {k : Nat} (h : k ∈ colors) : k < colorCount colors := by
  induction colors with
  | nil => cases h
  | cons c colors ih =>
    show k < max (c + 1) (colorCount colors)
    rcases List.mem_cons.1 h with rfl | h
    · omega
    · have := ih h
      omega

/-! ## Patterns of entries -/

theorem mem_rowsOf {entries : List (Nat × Nat)} {r c : Nat} :
    r ∈ rowsOf entries c ↔ (r, c) ∈ entries := by
  induction entries with
  | nil => simp [rowsOf]
  | cons e entries ih =>
    obtain ⟨r', c'⟩ := e
    unfold rowsOf at ih ⊢
    rw [List.foldr_cons, List.mem_cons]
    split
    · rename_i hc
      rw [mem_insertRow, ih]
      simp_all
    · rename_i hc
      rw [ih]
      exact ⟨.inr, fun h => h.resolve_left fun heq => hc (Prod.mk.inj heq).2.symm⟩

theorem ofTriplets_spec {m n : Nat} {entries : List (Nat × Nat)}
    (hentries : ∀ e ∈ entries, e.1 < m ∧ e.2 < n) :
    if n < Size.listLimit then
      ∃ p, ofTriplets m n entries = .ok p ∧ p.shape = (m, n) ∧
        ∀ r c, (r, c) ∈ p.triplets ↔ (r, c) ∈ entries
    else ofTriplets m n entries = .error .misuse := by
  have hfind : (entries.find? fun e => decide (m ≤ e.1 ∨ n ≤ e.2)) = none := by
    refine List.find?_eq_none.2 fun e he => ?_
    have := hentries e he
    simp only [decide_eq_true_eq, not_or]
    omega
  unfold ofTriplets Size.checkLength
  by_cases hn : n < Size.listLimit
  · rw [if_pos hn, if_pos hn]
    split
    · rename_i e he
      rw [hfind] at he
      cases he
    · refine ⟨_, rfl, Prod.ext rfl (by simp [shape, ncols]), fun r c => ?_⟩
      rw [mem_triplets]
      simp only [List.getElem?_map, Option.map_eq_some_iff]
      constructor
      · rintro ⟨rows, ⟨c', hc', rfl⟩, hr⟩
        obtain rfl : c = c' := by simpa using (List.getElem?_eq_some_iff.1 hc').2
        exact mem_rowsOf.1 hr
      · intro hrc
        exact ⟨_, ⟨c, List.getElem?_range (hentries _ hrc).2, rfl⟩, mem_rowsOf.2 hrc⟩
  · rw [if_neg hn, if_neg hn]
    rfl

theorem flatMap_zip_eq_gather {T : Type} (p : Pattern) {colors : List Nat}
    (hlen : colors.length = p.ncols) (f : Nat → Nat → T) :
    ((p.columns.zip colors).flatMap fun (rows, color) => rows.map fun r => f color r) =
      p.gather fun r c => f (colors[c]?.getD 0) r := by
  have hzip : p.columns.zip colors =
      p.columns.zipIdx.map fun (rows, c) => (rows, colors[c]?.getD 0) := by
    refine List.ext_getElem? fun c => ?_
    rw [List.getElem?_map, List.getElem?_zipIdx, Nat.zero_add, Option.map_map]
    by_cases hc : c < p.columns.length
    · have hc' : c < colors.length := hlen ▸ hc
      rw [List.getElem?_eq_getElem hc]
      simp [hc, hc']
    · have hzip : (p.columns.zip colors).length ≤ c := by
        rw [List.length_zip]
        omega
      rw [List.getElem?_eq_none hzip, List.getElem?_eq_none (Nat.le_of_not_lt hc)]
      rfl
  rw [hzip, List.flatMap_map, gather, triplets, List.map_flatMap]
  simp only [List.map_map]
  rfl

end DiffGraph.Pattern
