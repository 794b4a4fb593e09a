import Mathlib
import DiffGraph.Proofs.Failure
import DiffGraph.Proofs.Pattern.Triplets

/-!
# Greedy colours

Columns with a nonzero in a common row are neighbours in the graph of the columns
(`columnGraph`). Every column gets the least colour that none of its earlier neighbours
has (`isLeast_colorOf`), so neighbours differ, and there are at most as many colours
as a column has neighbours, and one more (`colorCount_le`). The colours of neighbours
are found in a table that is never cleared: they are stamped with the column that is
coloured next (`Compressed.colorColumn`). Stamps of earlier columns do not matter, and
there always is a colour without a stamp (`Colored.step`), so the table gives the same
colours (`coloring_greedy`).
-/

namespace DiffGraph

namespace Compressed

/-- What stands for no colour and for no stamp: the largest machine word. -/
def unset : Nat :=
  Size.wordLimit - 1

def columnsOfRows (a : Compressed) : Option (List (List Nat)) :=
  ((a.triplets.map Prod.swap).foldlM (bucketEntry a.ncols a.nrows)
    (List.replicate a.nrows [])).toOption

/-- Stamps the colour of column `j`, if it has one, with the column `col`. -/
def stampColor (colors : List Nat) (col : Nat) (stamps : List Nat) (j : Nat) :
    Option (List Nat) := do
  let color ← colors[j]?
  if color = unset then return stamps else write? stamps color col

def stampRow (rows : List (List Nat)) (colors : List Nat) (col : Nat) (stamps : List Nat)
    (r : Nat) : Option (List Nat) := do
  (← rows[r]?).foldlM (stampColor colors col) stamps

/-- Stamps the colours of the neighbours of a column, and gives it the first colour that does not
have its stamp, or `fallback` if there is none. -/
def colorColumn (a : Compressed) (rows : List (List Nat)) (fallback : Nat)
    (w : List Nat × List Nat) (col : Nat) : Option (List Nat × List Nat) := do
  let stamps ← (a.lane col).foldlM (stampRow rows w.1 col) w.2
  let free ← (List.range a.ncols).findM? fun c => do return (← stamps[c]?) != col
  return (← write? w.1 col (free.getD fallback), stamps)

def stampedColoring (a : Compressed) (fallback : Nat) : Option (List Nat) := do
  let rows ← a.columnsOfRows
  let w ← (List.range a.ncols).foldlM (a.colorColumn rows fallback)
    (List.replicate a.ncols unset, List.replicate a.ncols unset)
  return w.1

/-! ## Stamps -/

/-- The numbers in `S` have got the stamp `col`, and nothing else has changed. -/
structure Stamped (col : Nat) (S : Set Nat) (before after : List Nat) : Prop where
  length : after.length = before.length
  stamped : ∀ c ∈ S, c < before.length → after[c]? = some col
  kept : ∀ c ∉ S, after[c]? = before[c]?

variable {col n : Nat} {S T : Set Nat} {before between after : List Nat}

theorem Stamped.refl (col : Nat) (stamps : List Nat) : Stamped col ∅ stamps stamps :=
  ⟨rfl, nofun, fun _ _ => rfl⟩

theorem Stamped.trans (h : Stamped col S before between) (h' : Stamped col T between after) :
    Stamped col (S ∪ T) before after where
  length := h'.length.trans h.length
  stamped c hc hlt := by
    by_cases hT : c ∈ T
    · exact h'.stamped c hT (h.length.symm ▸ hlt)
    · rw [h'.kept c hT]
      exact h.stamped c (hc.resolve_right hT) hlt
  kept c hc := by
    obtain ⟨hS, hT⟩ := not_or.1 hc
    rw [h'.kept c hT, h.kept c hS]

theorem Stamped.write {c : Nat} (hc : c < before.length) :
    ∃ after, write? before c col = some after ∧ Stamped col {c} before after := by
  refine ⟨before.set c col, if_pos hc, List.length_set, fun d hd hlt => ?_, fun d hd => ?_⟩
  · obtain rfl : d = c := hd
    exact List.getElem?_set_self hlt
  · exact List.getElem?_set_ne (Ne.symm hd)

theorem exists_stamped_foldlM {β : Type} {f : List Nat → β → Option (List Nat)} {S : β → Set Nat}
    {xs : List β} (h : ∀ x ∈ xs, ∀ before : List Nat, before.length = n →
      ∃ after, f before x = some after ∧ Stamped col (S x) before after)
    (hlen : before.length = n) :
    ∃ after, xs.foldlM f before = some after ∧
      Stamped col {c | ∃ x ∈ xs, c ∈ S x} before after := by
  induction xs generalizing before with
  | nil => exact ⟨before, rfl, by simpa using Stamped.refl col before⟩
  | cons x xs ih =>
    obtain ⟨between, hfirst, hx⟩ := h x List.mem_cons_self before hlen
    obtain ⟨after, hrest, hxs⟩ :=
      ih (fun y hy => h y (List.mem_cons_of_mem x hy)) (hx.length.trans hlen)
    have hunion : {c | ∃ y ∈ x :: xs, c ∈ S y} = S x ∪ {c | ∃ y ∈ xs, c ∈ S y} := by
      ext c
      simp
    refine ⟨after, ?_, hunion ▸ hx.trans hxs⟩
    rw [List.foldlM_cons, hfirst]
    exact hrest

theorem exists_stampColor {colors : List Nat} {j color : Nat} (hj : colors[j]? = some color)
    (hcolor : color ≠ unset → color < before.length) :
    ∃ after, stampColor colors col before j = some after ∧
      Stamped col {c | colors[j]? = some c ∧ c ≠ unset} before after := by
  have hset : {c | colors[j]? = some c ∧ c ≠ unset} = {c | c = color ∧ color ≠ unset} := by
    ext c
    simp only [hj, Set.mem_ofPred_eq, Option.some.injEq]
    constructor <;> rintro ⟨rfl, hne⟩ <;> exact ⟨rfl, hne⟩
  rw [hset, stampColor, hj]
  simp only [Option.bind_eq_bind, Option.bind_some]
  by_cases hunset : color = unset
  · refine ⟨before, if_pos hunset, ?_⟩
    simpa [hunset] using Stamped.refl col before
  · obtain ⟨after, hwrite, hstamped⟩ : ∃ after, write? before color col = some after ∧
        Stamped col {color} before after := Stamped.write (hcolor hunset)
    refine ⟨after, (if_neg hunset).trans hwrite, ?_⟩
    simpa [hunset] using hstamped

theorem findM?_eq_find? {f : Nat → Option Bool} {q : Nat → Bool} {xs : List Nat}
    (h : ∀ x ∈ xs, f x = some (q x)) : xs.findM? f = some (xs.find? q) := by
  induction xs with
  | nil => rfl
  | cons x xs ih =>
    have hrest := ih fun y hy => h y (List.mem_cons_of_mem x hy)
    rw [List.findM?, h x List.mem_cons_self, List.find?_cons]
    cases q x with
    | true => rfl
    | false => exact hrest

end Compressed

namespace Pattern

variable {p : Pattern}

/-! ## The graph of the columns -/

/-- The number that is not in the list and has only numbers of the list below it. -/
theorem isLeast_smallestFree (used : List Nat) : IsLeast {k | k ∉ used} (smallestFree used) :=
  ⟨smallestFree_not_mem used, fun _ hk => Nat.not_lt.1 fun hlt => hk (mem_of_lt_smallestFree hlt)⟩

theorem not_mem_used {done : List (List Nat × Nat)} {rows : List Nat} {k : Nat} :
    k ∉ (done.filter fun d => clash rows d.1).map Prod.snd ↔
      ∀ d ∈ done, clash rows d.1 = true → d.2 ≠ k := by
  simp only [List.mem_map, List.mem_filter, not_exists, not_and, and_imp, ne_eq]

/-- Every column gets the least colour that no earlier column has with which it clashes. -/
theorem isLeast_colorFrom {done : List (List Nat × Nat)} {columns : List (List Nat)} {j c : Nat}
    {rows : List Nat} (hrows : columns[j]? = some rows)
    (hc : (colorFrom done columns)[j]? = some c) :
    IsLeast {k | (∀ d ∈ done, clash rows d.1 = true → d.2 ≠ k) ∧ ∀ i < j, ∀ rows',
      columns[i]? = some rows' → clash rows rows' = true →
        (colorFrom done columns)[i]? ≠ some k} c := by
  induction columns generalizing done j with
  | nil => cases hrows
  | cons first rest ih =>
    unfold colorFrom at hc ⊢
    cases j with
    | zero =>
      obtain rfl := Option.some.inj hrows
      obtain rfl := Option.some.inj hc
      convert isLeast_smallestFree ((done.filter fun d => clash first d.1).map Prod.snd) using 3
      rw [not_mem_used]
      exact and_iff_left fun i hi => absurd hi (Nat.not_lt_zero i)
    | succ j =>
      -- the first column is coloured before the column `j` of the rest
      convert ih hrows hc using 3
      simp only [List.forall_mem_cons, Nat.forall_lt_succ_left, List.getElem?_cons_zero,
        List.getElem?_cons_succ, Option.some.injEq, forall_eq', ne_eq]
      exact and_left_comm.trans and_assoc.symm

/-- The columns, joined to those that have a nonzero in a common row. -/
def columnGraph (p : Pattern) : SimpleGraph (Fin p.ncols) where
  Adj a b := a ≠ b ∧ ∃ r, (r, a.val) ∈ p.triplets ∧ (r, b.val) ∈ p.triplets
  symm := ⟨fun _ _ h => ⟨h.1.symm, h.2.imp fun _ hr => hr.symm⟩⟩
  loopless := ⟨fun _ h => h.1 rfl⟩

theorem clash_columns_iff {a b : Fin p.ncols} : clash (p.columns.get a) (p.columns.get b) = true ↔
    ∃ r, (r, a.val) ∈ p.triplets ∧ (r, b.val) ∈ p.triplets := by
  have hmem (c : Fin p.ncols) (r : Nat) : r ∈ p.columns.get c ↔ (r, c.val) ∈ p.triplets :=
    mem_column_iff (List.getElem?_eq_getElem c.isLt)
  simp only [clash_iff, hmem]

instance (p : Pattern) : DecidableRel p.columnGraph.Adj := fun a b =>
  decidable_of_iff (a ≠ b ∧ clash (p.columns.get a) (p.columns.get b) = true)
    (and_congr_right fun _ => clash_columns_iff)

def colorOf (p : Pattern) (c : Fin p.ncols) : Nat :=
  p.coloring.get (c.cast p.length_coloring.symm)

theorem getElem?_coloring (c : Fin p.ncols) : p.coloring[c.val]? = some (p.colorOf c) :=
  List.getElem?_eq_getElem _

theorem mem_coloring {k : Nat} : k ∈ p.coloring ↔ ∃ c, p.colorOf c = k := by
  rw [List.mem_iff_getElem?]
  constructor
  · rintro ⟨c, hc⟩
    have hlt : c < p.ncols := p.length_coloring ▸ (List.getElem?_eq_some_iff.1 hc).1
    exact ⟨⟨c, hlt⟩, Option.some.inj ((getElem?_coloring ⟨c, hlt⟩).symm.trans hc)⟩
  · rintro ⟨c, rfl⟩
    exact ⟨c, getElem?_coloring c⟩

theorem isLeast_colorOf (a : Fin p.ncols) :
    IsLeast {k | ∀ b < a, p.columnGraph.Adj a b → p.colorOf b ≠ k} (p.colorOf a) := by
  have hcolor : (colorFrom [] p.columns)[a.val]? = some (p.colorOf a) := getElem?_coloring a
  convert isLeast_colorFrom (List.getElem?_eq_getElem a.isLt) hcolor using 3 with k
  constructor
  · refine fun h => ⟨nofun, fun i hi rows hrows hclash => ?_⟩
    obtain ⟨hlt, rfl⟩ := List.getElem?_eq_some_iff.1 hrows
    have hne := h ⟨i, hlt⟩ hi ⟨(Fin.ne_of_lt hi).symm, clash_columns_iff.1 hclash⟩
    exact fun heq => hne (Option.some.inj ((getElem?_coloring ⟨i, hlt⟩).symm.trans heq))
  · rintro ⟨-, h⟩ b hb ⟨-, hrow⟩ rfl
    exact h b hb _ (List.getElem?_eq_getElem b.isLt) (clash_columns_iff.2 hrow)
      (getElem?_coloring b)

theorem colorOf_ne_of_adj {a b : Fin p.ncols} (h : p.columnGraph.Adj a b) :
    p.colorOf a ≠ p.colorOf b := by
  rcases lt_or_gt_of_ne h.1 with hlt | hlt
  · exact (isLeast_colorOf b).1 a hlt h.symm
  · exact ((isLeast_colorOf a).1 b hlt h).symm

theorem exists_neighbor_of_lt {a : Fin p.ncols} {k : Nat} (h : k < p.colorOf a) :
    ∃ b < a, p.columnGraph.Adj a b ∧ p.colorOf b = k := by
  by_contra hnone
  refine Nat.not_le.2 h ((isLeast_colorOf a).2 fun b hb hadj heq => hnone ?_)
  exact ⟨b, hb, hadj, heq⟩

theorem colorOf_le_degree (a : Fin p.ncols) : p.colorOf a ≤ p.columnGraph.degree a := by
  have hsub : Finset.range (p.colorOf a) ⊆ (p.columnGraph.neighborFinset a).image p.colorOf := by
    intro k hk
    obtain ⟨b, -, hadj, rfl⟩ := exists_neighbor_of_lt (Finset.mem_range.1 hk)
    exact Finset.mem_image_of_mem _ ((p.columnGraph.mem_neighborFinset a b).2 hadj)
  calc p.colorOf a = (Finset.range (p.colorOf a)).card := (Finset.card_range _).symm
    _ ≤ ((p.columnGraph.neighborFinset a).image p.colorOf).card := Finset.card_le_card hsub
    _ ≤ p.columnGraph.degree a := Finset.card_image_le

theorem colorOf_lt (a : Fin p.ncols) : p.colorOf a < p.ncols :=
  (colorOf_le_degree a).trans_lt (by simpa using p.columnGraph.degree_lt_card_verts a)

/-! ## The number of colours -/

theorem lt_colorCount_iff {colors : List Nat} {k : Nat} :
    k < colorCount colors ↔ ∃ c ∈ colors, k ≤ c := by
  induction colors with
  | nil => simp [colorCount]
  | cons c colors ih =>
    show k < max (c + 1) (colorCount colors) ↔ _
    simp only [lt_max_iff, ih, List.mem_cons, exists_eq_or_imp, Nat.lt_succ_iff]

theorem mem_coloring_iff_lt {k : Nat} : k ∈ p.coloring ↔ k < colorCount p.coloring := by
  rw [lt_colorCount_iff]
  refine ⟨fun h => ⟨k, h, le_rfl⟩, ?_⟩
  rintro ⟨c, hc, hle⟩
  obtain ⟨a, rfl⟩ := mem_coloring.1 hc
  rcases Nat.lt_or_eq_of_le hle with hlt | rfl
  · obtain ⟨b, -, -, rfl⟩ := exists_neighbor_of_lt hlt
    exact mem_coloring.2 ⟨b, rfl⟩
  · exact hc

theorem colorCount_le (p : Pattern) : colorCount p.coloring ≤ p.columnGraph.maxDegree + 1 := by
  refine Nat.not_lt.1 fun hlt => ?_
  obtain ⟨c, hc, hle⟩ := lt_colorCount_iff.1 hlt
  obtain ⟨a, rfl⟩ := mem_coloring.1 hc
  have hdegree := (colorOf_le_degree a).trans (p.columnGraph.degree_le_maxDegree a)
  omega

/-! ## Colouring with stamps -/

/-- The columns of the rows are the columns of the transposed pattern. -/
theorem columnsOfRows_compressed (p : Pattern) :
    p.compressed.columnsOfRows = some p.transpose.columns := by
  have hinside : ((p.triplets.map Prod.swap).find? fun e =>
      decide (p.ncols ≤ e.1 ∨ p.nrows ≤ e.2)) = none := by
    refine List.find?_eq_none.2 fun e he => ?_
    obtain ⟨⟨r, c⟩, hrc, rfl⟩ := List.mem_map.1 he
    have := lt_of_mem_triplets hrc
    simp only [Prod.fst_swap, Prod.snd_swap, decide_eq_true_eq, not_or]
    omega
  have hrows := Compressed.foldlM_bucketEntry p.ncols p.nrows (p.triplets.map Prod.swap)
  rw [hinside] at hrows
  simp only [List.map_map, Prod.swap_swap_eq, List.map_id] at hrows
  rw [funext p.bucket_triplets] at hrows
  rw [Compressed.columnsOfRows, triplets_compressed]
  exact congrArg Except.toOption hrows

/-- What holds before column `col` is coloured: the columns before it have their colours, and
stamps are the numbers of columns before it. -/
structure Colored (p : Pattern) (col : Nat) (w : List Nat × List Nat) : Prop where
  colors : w.1 = p.coloring.take col ++ List.replicate (p.ncols - col) Compressed.unset
  length : w.2.length = p.ncols
  stamps : ∀ s ∈ w.2, s = Compressed.unset ∨ s < col

theorem Colored.start (p : Pattern) : p.Colored 0
    (List.replicate p.ncols Compressed.unset, List.replicate p.ncols Compressed.unset) where
  colors := rfl
  length := List.length_replicate
  stamps _ hs := .inl (List.eq_of_mem_replicate hs)

variable {col : Nat} {w : List Nat × List Nat}

theorem Colored.length_colors (h : p.Colored col w) (hcol : col ≤ p.ncols) :
    w.1.length = p.ncols := by
  rw [h.colors]
  simp [hcol]

/-- Exactly the earlier columns have a colour. -/
theorem Colored.getElem?_colors (h : p.Colored col w) (hcol : col ≤ p.ncols)
    (hword : p.ncols ≤ Compressed.unset) {j c : Nat} :
    w.1[j]? = some c ∧ c ≠ Compressed.unset ↔
      ∃ b : Fin p.ncols, b.val = j ∧ b.val < col ∧ p.colorOf b = c := by
  have hlen : (p.coloring.take col).length = col := by
    rw [List.length_take, length_coloring, min_eq_left hcol]
  rw [h.colors]
  by_cases hj : j < col
  · rw [List.getElem?_append_left (hlen.symm ▸ hj), List.getElem?_take_of_lt hj,
      getElem?_coloring ⟨j, hj.trans_le hcol⟩, Option.some.injEq]
    constructor
    · rintro ⟨rfl, -⟩
      exact ⟨⟨j, hj.trans_le hcol⟩, rfl, hj, rfl⟩
    · rintro ⟨b, rfl, -, rfl⟩
      exact ⟨rfl, ((colorOf_lt b).trans_le hword).ne⟩
  · rw [List.getElem?_append_right (hlen.symm ▸ Nat.not_lt.1 hj)]
    refine iff_of_false ?_ ?_
    · rintro ⟨hsome, hne⟩
      exact hne (List.eq_of_mem_replicate (List.mem_of_getElem? hsome))
    · rintro ⟨b, rfl, hb, -⟩
      exact hj hb

def colorsInRow (p : Pattern) (col r : Nat) : Set Nat :=
  {k | ∃ b : Fin p.ncols, b.val < col ∧ (r, b.val) ∈ p.triplets ∧ p.colorOf b = k}

theorem Colored.exists_stampRow (h : p.Colored col w) (hcol : col ≤ p.ncols)
    (hword : p.ncols ≤ Compressed.unset) {r : Nat} (hr : r < p.nrows) {before : List Nat}
    (hbefore : before.length = p.ncols) :
    ∃ after, Compressed.stampRow p.transpose.columns w.1 col before r = some after ∧
      Compressed.Stamped col (p.colorsInRow col r) before after := by
  have hcolors {j c : Nat} := h.getElem?_colors hcol hword (j := j) (c := c)
  obtain ⟨js, hjs⟩ : ∃ js, p.transpose.columns[r]? = some js :=
    ⟨_, List.getElem?_eq_getElem (by simpa [transpose] using hr)⟩
  have hmem {j : Nat} : j ∈ js ↔ (r, j) ∈ p.triplets :=
    (mem_column_iff hjs).trans mem_triplets_transpose
  have hset : p.colorsInRow col r =
      {c | ∃ j ∈ js, c ∈ {c | w.1[j]? = some c ∧ c ≠ Compressed.unset}} := by
    ext c
    simp only [colorsInRow, Set.mem_ofPred_eq, hcolors, hmem]
    constructor
    · rintro ⟨b, hb, hrow, hc⟩
      exact ⟨b, hrow, b, rfl, hb, hc⟩
    · rintro ⟨-, hrow, b, rfl, hb, hc⟩
      exact ⟨b, hb, hrow, hc⟩
  rw [Compressed.stampRow, hjs, hset]
  refine Compressed.exists_stamped_foldlM (fun j hj before hbefore => ?_) hbefore
  have hlt : j < w.1.length :=
    (h.length_colors hcol).symm ▸ (lt_of_mem_triplets (hmem.1 hj)).2
  refine Compressed.exists_stampColor (List.getElem?_eq_getElem hlt) fun hne => ?_
  obtain ⟨b, -, -, hb⟩ := hcolors.1 ⟨List.getElem?_eq_getElem hlt, hne⟩
  exact hb ▸ hbefore.symm ▸ colorOf_lt b

theorem Colored.exists_stamps {a : Fin p.ncols} (h : p.Colored a w)
    (hword : p.ncols ≤ Compressed.unset) :
    ∃ stamps, (p.compressed.lane a).foldlM (Compressed.stampRow p.transpose.columns w.1 a) w.2 =
        some stamps ∧
      Compressed.Stamped a {k | ∃ b < a, p.columnGraph.Adj a b ∧ p.colorOf b = k} w.2 stamps := by
  have hmem {r : Nat} : r ∈ p.compressed.lane a ↔ (r, a.val) ∈ p.triplets := by
    rw [lane_compressed (List.getElem?_eq_getElem a.isLt)]
    exact mem_column_iff (List.getElem?_eq_getElem a.isLt)
  have hset : {k | ∃ b < a, p.columnGraph.Adj a b ∧ p.colorOf b = k} =
      {k | ∃ r ∈ p.compressed.lane a, k ∈ p.colorsInRow a r} := by
    ext k
    simp only [Set.mem_ofPred_eq, colorsInRow, hmem]
    constructor
    · rintro ⟨b, hb, ⟨-, r, hra, hrb⟩, hk⟩
      exact ⟨r, hra, b, hb, hrb, hk⟩
    · rintro ⟨r, hra, b, hb, hrb, hk⟩
      exact ⟨b, hb, ⟨(Fin.ne_of_lt hb).symm, r, hra, hrb⟩, hk⟩
  rw [hset]
  exact Compressed.exists_stamped_foldlM (fun r hr before hbefore =>
    h.exists_stampRow a.isLt.le hword (lt_of_mem_triplets (hmem.1 hr)).1 hbefore) h.length

theorem Colored.findM?_stamps {a : Fin p.ncols} {stamps : List Nat} (h : p.Colored a w)
    (hword : p.ncols ≤ Compressed.unset)
    (hstamps : Compressed.Stamped a {k | ∃ b < a, p.columnGraph.Adj a b ∧ p.colorOf b = k}
      w.2 stamps) :
    ((List.range p.ncols).findM? fun c => do return (← stamps[c]?) != a.val) =
      some (some (p.colorOf a)) := by
  have hlen : stamps.length = p.ncols := hstamps.length.trans h.length
  have hread : ∀ c ∈ List.range p.ncols, (do return (← stamps[c]?) != a.val : Option Bool) =
      some (stamps[c]? != some a.val) := by
    intro c hc
    have hlt : c < stamps.length := hlen ▸ List.mem_range.1 hc
    rw [List.getElem?_eq_getElem hlt]
    rfl
  rw [Compressed.findM?_eq_find? hread]
  refine congrArg some (List.find?_range_eq_some.2 ⟨?_, List.mem_range.2 (colorOf_lt a), ?_⟩)
  · -- the colour of the column is that of no earlier neighbour, so its stamp is an old one
    have hfree : p.colorOf a ∉ {k | ∃ b < a, p.columnGraph.Adj a b ∧ p.colorOf b = k} := by
      rintro ⟨b, hb, hadj, heq⟩
      exact (isLeast_colorOf a).1 b hb hadj heq
    rw [hstamps.kept _ hfree, bne_iff_ne]
    intro hstamp
    rcases h.stamps _ (List.mem_of_getElem? hstamp) with hs | hs
    · have := a.isLt
      omega
    · omega
  · intro k hk
    have hlt : k < w.2.length := h.length.symm ▸ hk.trans (colorOf_lt a)
    rw [hstamps.stamped k (exists_neighbor_of_lt hk) hlt]
    simp

/-- One more column gets its colour. -/
theorem Colored.step {a : Fin p.ncols} (h : p.Colored a w) (hword : p.ncols ≤ Compressed.unset)
    (fallback : Nat) :
    ∃ w', p.compressed.colorColumn p.transpose.columns fallback w a = some w' ∧
      p.Colored (a + 1) w' := by
  obtain ⟨stamps, hrun, hstamps⟩ := h.exists_stamps hword
  have hlt : a.val < w.1.length := (h.length_colors a.isLt.le).symm ▸ a.isLt
  refine ⟨(w.1.set a (p.colorOf a), stamps), ?_, ?_, hstamps.length.trans h.length, ?_⟩
  · have hfind := h.findM?_stamps hword hstamps
    have hncols : p.compressed.ncols = p.ncols := rfl
    rw [Compressed.colorColumn, hrun]
    simp only [Option.bind_eq_bind, Option.bind_some, hncols] at hfind ⊢
    rw [hfind]
    simp only [Option.bind_some, Option.getD_some, Compressed.write?, if_pos hlt, Option.pure_def]
  · have hlen : (p.coloring.take a).length = a := by
      rw [List.length_take, length_coloring, min_eq_left a.isLt.le]
    have hrest : p.ncols - a = p.ncols - (a + 1) + 1 := by omega
    dsimp only
    rw [h.colors, hrest, List.replicate_succ, List.set_append_right _ _ hlen.le, hlen, Nat.sub_self,
      List.set_cons_zero, List.take_add_one, getElem?_coloring, List.append_assoc]
    rfl
  · intro s hs
    obtain ⟨c, hc⟩ := List.mem_iff_getElem?.1 hs
    by_cases hstamped : c ∈ {k | ∃ b < a, p.columnGraph.Adj a b ∧ p.colorOf b = k}
    · have hlt : c < w.2.length := hstamps.length ▸ (List.getElem?_eq_some_iff.1 hc).1
      rw [hstamps.stamped c hstamped hlt, Option.some.injEq] at hc
      exact .inr (hc ▸ Nat.lt_succ_self a.val)
    · rw [hstamps.kept c hstamped] at hc
      exact (h.stamps s (List.mem_of_getElem? hc)).imp_right (Nat.lt_succ_of_lt ·)

theorem Colored.run (p : Pattern) (hword : p.ncols ≤ Compressed.unset) (fallback : Nat) {col : Nat}
    (hcol : col ≤ p.ncols) :
    ∃ w, (List.range col).foldlM (p.compressed.colorColumn p.transpose.columns fallback)
        (List.replicate p.ncols Compressed.unset, List.replicate p.ncols Compressed.unset) = some w ∧
      p.Colored col w := by
  induction col with
  | zero => exact ⟨_, rfl, .start p⟩
  | succ col ih =>
    obtain ⟨w, hrun, hw⟩ := ih (Nat.le_of_succ_le hcol)
    obtain ⟨w', hstep, hw'⟩ := hw.step (a := ⟨col, hcol⟩) hword fallback
    refine ⟨w', ?_, hw'⟩
    rw [List.range_succ, List.foldlM_append, hrun]
    simp only [List.foldlM_cons, List.foldlM_nil, Option.bind_eq_bind, Option.bind_some, hstep,
      Option.pure_def]

/-- Colouring with stamps never takes the fallback. -/
theorem stampedColoring_compressed (p : Pattern) (hword : p.ncols ≤ Compressed.unset)
    (fallback : Nat) : p.compressed.stampedColoring fallback = some p.coloring := by
  obtain ⟨w, hrun, hw⟩ := Colored.run p hword fallback le_rfl
  have hcolors : w.1 = p.coloring := by
    rw [hw.colors, Nat.sub_self, List.replicate_zero, List.append_nil, ← p.length_coloring,
      List.take_length]
  have hncols : p.compressed.ncols = p.ncols := rfl
  rw [Compressed.stampedColoring, columnsOfRows_compressed]
  simp only [Option.bind_eq_bind, Option.bind_some, hncols, hrun, hcolors, Option.pure_def]

theorem ncols_lt_of_check (h : p.compressed.check = .ok p) : p.ncols + 1 < Size.wordLimit := by
  obtain ⟨_, hword, -⟩ := ok_of_bind h
  exact Size.checkWord_eq_ok_iff.1 hword

/-- What the colours of a pattern are. Neighbours differ, and a column has the least colour that no
earlier neighbour has. The colours are the numbers below their count, which is at most one more
than the largest number of neighbours. The table of stamps gives them, without an access outside
of an array and whatever a search without result would give. -/
structure ColorsGreedily (p : Pattern) : Prop where
  proper : ∀ a b, p.columnGraph.Adj a b → p.colorOf a ≠ p.colorOf b
  least : ∀ a, IsLeast {k | ∀ b < a, p.columnGraph.Adj a b → p.colorOf b ≠ k} (p.colorOf a)
  used : ∀ k, k ∈ p.coloring ↔ k < colorCount p.coloring
  few : colorCount p.coloring ≤ p.columnGraph.maxDegree + 1
  stamped : ∀ fallback, p.compressed.stampedColoring fallback = some p.coloring
  result : p.coloringChecked =
    if p.nrows < Size.listLimit then .ok p.coloring else .error .misuse

/-- The colouring of the columns of every pattern is proper and greedy. -/
theorem coloring_greedy (p : Pattern) (h : p.compressed.check = .ok p) : p.ColorsGreedily where
  proper _ _ := colorOf_ne_of_adj
  least := isLeast_colorOf
  used _ := mem_coloring_iff_lt
  few := p.colorCount_le
  stamped := p.stampedColoring_compressed (by
    have := ncols_lt_of_check h
    rw [Compressed.unset]
    omega)
  result := by
    rw [coloringChecked, Size.checkLength]
    split <;> rfl

/-- Columns with the rows 0 and 1, 1, 2, and 0: the first has two neighbours, and two colours do. -/
theorem coloring_greedy_columns :
    let p : Pattern := ⟨3, [[0, 1], [1], [2], [0]], by decide⟩
    p.ColorsGreedily ∧ p.coloring = [0, 1, 0, 1] ∧ p.columnGraph.Adj ⟨0, by decide⟩ ⟨3, by decide⟩ :=
  ⟨coloring_greedy _ (check_compressed (by decide)), rfl, by decide⟩

end Pattern

end DiffGraph
