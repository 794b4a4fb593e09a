import Mathlib
import DiffGraph.Proofs.System.Dependencies

/-!
# Compressed Jacobians

Columns of one colour have no row in common (`Pattern.eq_of_coloring`). So in a row
of one of them the sweep for the colour agrees, on all sources of the row, with the
sweep for that column alone (`Semantics.nonzeroAt_colorSeeds`), and in a row that a
column is no source of, its derivative is that of arguments that do not vary
(`Semantics.deriv_unit`). A Jacobian therefore holds all derivatives
(`System.jacobian_correct`).
-/

namespace DiffGraph

open Element

namespace System

/-! ## Directions -/

section Directions

variable {α : Type}

def seeded (args : List (List α)) (f : Nat × Nat → α) : List (List (Dual α)) :=
  args.zipIdx.map fun (a, i) => a.zipIdx.map fun (v, k) => ⟨v, f (i, k)⟩

theorem getElem?_seeded (args : List (List α)) (f : Nat × Nat → α) (i : Nat) :
    (seeded args f)[i]? = args[i]?.map fun a => a.zipIdx.map fun (v, k) => ⟨v, f (i, k)⟩ := by
  rw [seeded, List.getElem?_map, List.getElem?_zipIdx, Option.map_map, Nat.zero_add]
  rfl

@[simp] theorem map_length_seeded (args : List (List α)) (f : Nat × Nat → α) :
    (seeded args f).map List.length = args.map List.length := by
  refine List.ext_getElem? fun i => ?_
  rw [List.getElem?_map, List.getElem?_map, getElem?_seeded, Option.map_map]
  exact congrArg (fun g => Option.map g args[i]?) (funext fun a => by simp)

theorem nonzeroAt_seeded (args : List (List α)) (f : Nat × Nat → α) (w : Nat × Nat) :
    nonzeroAt (seeded args f) w = (nonzeroAt args w).map fun v => ⟨v, f w⟩ := by
  unfold nonzeroAt
  rw [getElem?_seeded]
  cases args[w.1]? with
  | none => rfl
  | some a => simp [Function.comp_def]

variable [Scalar α]

/-- The direction of one argument nonzero. -/
def unit (w v : Nat × Nat) : α :=
  if v = w then 1 else 0

theorem colorSeeds_eq (args : List (List α)) (iind : Nat) (colors : Array Nat) (color : Nat) :
    colorSeeds args iind colors color =
      seeded args fun v => if v.1 = iind ∧ colors[v.2]? = some color then 1 else 0 := rfl

/-- The derivative of a nonzero of the outputs. -/
def derivAt (outs : List (List (Dual α))) (w : Nat × Nat) : α :=
  ((nonzeroAt outs w).map Dual.deriv).getD 0

end Directions

/-! ## Sweeps over colours -/

namespace Semantics

section Sweeps

variable {α : Type} [Scalar α] {s : System α} {memory : Prop} {iind oind : Nat} {x y : Pattern}
  {args : List (List α)} {p : Pattern}

/-- A sweep returns the derivatives of the output along the columns of a colour. -/
theorem derivativesAlong_spec (h : s.Semantics memory) (hm : memory)
    (hx : s.inputs[iind]? = some x) (hy : s.outputs[oind]? = some y)
    (hlen : args.map List.length = s.inputs.map Pattern.nnz) {colors : Array Nat}
    (hcolors : colors.size = x.nnz) (color : Nat) :
    ∃ column, s.derivativesAlong iind oind args colors color = .ok column ∧
      ∀ r, column[r]?.getD 0 = derivAt (h.run (colorSeeds args iind colors color)) (oind, r) := by
  have hseeds : (colorSeeds args iind colors color).map List.length =
      s.inputs.map Pattern.nnz := by
    rw [colorSeeds_eq, map_length_seeded, hlen]
  have hsize : ¬ colors.size < (args[iind]?.map List.length).getD 0 := by
    rw [← List.getElem?_map, hlen, List.getElem?_map, hx, hcolors]
    exact Nat.lt_irrefl _
  have heval := (h.evalDual hseeds).1 hm
  obtain ⟨o, ho⟩ : ∃ o, (h.run (colorSeeds args iind colors color))[oind]? = some o := by
    have hout := congrArg (·[oind]?) (h.map_length_run hseeds)
    simp only [List.getElem?_map, hy, Option.map_some, Option.map_eq_some_iff] at hout
    exact hout.imp fun _ h => h.1
  refine ⟨(Dual.derivs o).toArray, ?_, fun r => ?_⟩
  · unfold derivativesAlong
    rw [if_neg hsize, heval]
    dsimp only [bind, Except.bind]
    rw [ho]
    rfl
  · unfold derivAt nonzeroAt
    rw [ho, List.getElem?_toArray, Dual.derivs, List.getElem?_map]
    rfl

/-- A Jacobian holds, in every column, the derivatives from the sweep for its colour. -/
theorem jacobian_eq (h : s.Semantics memory) (hx : s.inputs[iind]? = some x)
    (hy : s.outputs[oind]? = some y) (hlen : args.map List.length = s.inputs.map Pattern.nnz)
    (hp : s.jacobianPattern iind oind = .ok p) (hcols : p.ncols = x.nnz)
    (hm : x.nnz = 0 ∨ memory) :
    s.jacobian iind oind args = .ok ⟨p, p.gather fun r c => derivAt
      (h.run (colorSeeds args iind p.coloring.toArray (p.coloring[c]?.getD 0))) (oind, r)⟩ := by
  have hcolors : p.coloring.toArray.size = x.nnz := by simp [hcols]
  have hmemory (color : Nat) (hcolor : color ∈ List.range (Pattern.colorCount p.coloring)) :
      memory := by
    refine hm.resolve_left fun hzero => ?_
    have hnil : p.coloring = [] := List.eq_nil_of_length_eq_zero (by simp [hcols, hzero])
    simp [hnil, Pattern.colorCount] at hcolor
  obtain ⟨sweeps, hsweeps, hspec⟩ := mapM_ok_of_forall fun color hcolor =>
    h.derivativesAlong_spec (hmemory color hcolor) hx hy hlen hcolors color
  have hvalues : (p.columns.zip p.coloring).flatMap (fun column =>
      column.1.map fun r => (sweeps.toArray[column.2]?.getD #[])[r]?.getD 0) =
        p.gather fun r c => derivAt
          (h.run (colorSeeds args iind p.coloring.toArray (p.coloring[c]?.getD 0))) (oind, r) := by
    rw [p.flatMap_zip_eq_gather p.length_coloring
      (fun color r => (sweeps.toArray[color]?.getD #[])[r]?.getD 0)]
    refine Pattern.gather_congr fun r c hrc => ?_
    have hc : c < p.coloring.length := p.length_coloring ▸ (Pattern.lt_of_mem_triplets hrc).2
    have hlt : p.coloring[c] < Pattern.colorCount p.coloring :=
      Pattern.lt_colorCount (List.getElem_mem hc)
    obtain ⟨column, hcolumn, hat⟩ :=
      exists_of_forall₂ hspec.flip (List.getElem?_range hlt)
    have htable : sweeps.toArray[p.coloring[c]]? = some column :=
      List.getElem?_toArray.trans hcolumn
    rw [List.getElem?_eq_getElem hc, Option.getD_some, htable, Option.getD_some, hat r]
  unfold jacobian
  rw [hp]
  dsimp only [bind, Except.bind]
  rw [hsweeps]
  exact congrArg (fun values => Except.ok (SparseMatrix.mk p values)) hvalues

/-- In a row of a column, the sweep for its colour differentiates along the column alone. -/
theorem nonzeroAt_colorSeeds (h : s.Semantics memory) {r c : Nat}
    (hx : s.inputs[iind]? = some x) (hlen : args.map List.length = s.inputs.map Pattern.nnz)
    (hp : ∀ c, (r, c) ∈ p.triplets ↔ c < x.nnz ∧ (iind, c) ∈ h.sources (oind, r))
    (hrc : (r, c) ∈ p.triplets) :
    nonzeroAt (h.run (colorSeeds args iind p.coloring.toArray (p.coloring[c]?.getD 0))) (oind, r) =
      nonzeroAt (h.run (seeded args (unit (iind, c)))) (oind, r) := by
  have hc : c < p.coloring.length := p.length_coloring ▸ (Pattern.lt_of_mem_triplets hrc).2
  rw [colorSeeds_eq]
  refine h.run_congr (by simpa using hlen) (by simpa using hlen) fun v hv => ?_
  rw [nonzeroAt_seeded, nonzeroAt_seeded]
  cases hat : nonzeroAt args v with
  | none => rfl
  | some a =>
    obtain ⟨i, k⟩ := v
    refine congrArg (fun d => some (Dual.mk a d)) (ite_congr (propext ?_) (fun _ => rfl)
      (fun _ => rfl))
    rw [List.getElem?_toArray, List.getElem?_eq_getElem hc, Option.getD_some]
    constructor
    · rintro ⟨rfl, hcolor⟩
      have hk : k < x.nnz := by
        have hki := congrArg (·[i]?) hlen
        obtain ⟨b, hb, hk⟩ := Option.bind_eq_some_iff.1 hat
        simp only [List.getElem?_map, hb, hx, Option.map_some, Option.some.injEq] at hki
        exact hki ▸ (List.getElem?_eq_some_iff.1 hk).1
      exact congrArg (Prod.mk i) (Pattern.eq_of_coloring ((hp k).2 ⟨hk, hv⟩) hrc
        (hcolor.trans (List.getElem?_eq_getElem hc).symm))
    · rintro heq
      obtain ⟨rfl, rfl⟩ := Prod.mk.inj heq
      exact ⟨rfl, List.getElem?_eq_getElem hc⟩

end Sweeps

variable {α : Type} [ExactField α] {s : System α} {memory : Prop} {args : List (List α)}

/-- Along an argument nonzero that is no source of it, an output nonzero does not vary. -/
theorem deriv_unit (h : s.Semantics memory)
    (hlen : args.map List.length = s.inputs.map Pattern.nnz) {v w : Nat × Nat}
    (hv : v ∉ h.sources w) {d : Dual α}
    (hd : nonzeroAt (h.run (seeded args (unit v))) w = some d) : d.deriv = 0 := by
  have hconstant : (args.map (List.map Dual.constant)).map List.length =
      s.inputs.map Pattern.nnz := by
    rw [List.map_map, ← hlen]
    exact List.map_congr_left fun _ _ => List.length_map _
  have hsame : nonzeroAt (h.run (seeded args (unit v))) w =
      nonzeroAt (h.run (args.map (List.map Dual.constant))) w := by
    refine h.run_congr (by simpa using hlen) hconstant fun u hu => ?_
    have hne : u ≠ v := fun heq => hv (heq ▸ hu)
    rw [nonzeroAt_seeded, nonzeroAt_map, unit, if_neg hne]
    rfl
  rw [hsame, h.map_run isElementMap_constant, nonzeroAt_map] at hd
  obtain ⟨b, -, rfl⟩ := Option.map_eq_some_iff.1 hd
  rfl

/-- The entry of a Jacobian in a row and a column, in the pattern or not, is the derivative of the
row along the column. -/
theorem jacobian_spec (h : s.Semantics memory) {iind oind : Nat} {x y p : Pattern}
    (hx : s.inputs[iind]? = some x) (hy : s.outputs[oind]? = some y)
    (hp : s.jacobianPattern iind oind = .ok p)
    (hlen : args.map List.length = s.inputs.map Pattern.nnz) :
    ∃ J, s.jacobian iind oind args = .ok J ∧ J.pattern = p ∧ J.values.length = p.nnz ∧
      ∀ r < y.nnz, ∀ c < x.nnz, p.entry J.values r c =
        derivAt (h.run (seeded args (unit (iind, c)))) (oind, r) := by
  have hpattern := h.jacobianPattern_spec hx hy
  rw [hp] at hpattern
  obtain ⟨hm, -, hshape, htriplets⟩ := hpattern
  have hcols : p.ncols = x.nnz := congrArg Prod.snd hshape
  refine ⟨_, h.jacobian_eq hx hy hlen hp hcols hm, rfl, by simp, fun r hr c hc => ?_⟩
  rw [Pattern.entry_gather]
  split
  · rename_i hrc
    exact congrArg (fun d => (d.map Dual.deriv).getD 0) (h.nonzeroAt_colorSeeds hx hlen
      (fun c => (htriplets r c).trans (and_iff_right hr)) hrc)
  · rename_i hrc
    have hseeds : (seeded args (unit (iind, c))).map List.length =
        s.inputs.map Pattern.nnz := by rw [map_length_seeded, hlen]
    obtain ⟨d, hd⟩ := exists_nonzeroAt hy (h.map_length_run hseeds) hr
    rw [derivAt, hd]
    exact (h.deriv_unit hlen (fun hsource => hrc ((htriplets r c).2 ⟨hr, hc, hsource⟩)) hd).symm

end Semantics

/-! ## Jacobians of compiled functions -/

variable {α : Type}

/-- Systems of functions that have been compiled, with the memory that they need to run. -/
inductive IsCompiled [Scalar α] : System α → Prop → Prop
  | function {f : Function α} {n : Nat} {S : Set (Expr α)} :
    IsGraph n S → f.Compiled S → IsCompiled f.system True
  | terms {g : TermFunction α} {n : Nat} {G : Set (Term α)} :
    IsTermGraph n G → g.Compiled G → IsCompiled g.system g.FitsMemory

theorem IsCompiled.exists_semantics [Scalar α] {s : System α} {memory : Prop}
    (h : s.IsCompiled memory) : Nonempty (s.Semantics memory) := by
  cases h with
  | function hS hf => exact ⟨Function.semantics hS hf⟩
  | terms hG hg => exact ⟨TermFunction.semantics hG hg⟩

/-- The mark of a single argument nonzero. -/
def soleMark (v : Nat × Nat) (t : Taint) (w : Nat × Nat) : Taint :=
  if w = v then t else 0

/-- A mark on one argument nonzero reaches what the nonzero is a source of. -/
theorem Semantics.soleMark_run [Scalar α] {s : System α} {memory : Prop} (h : s.Semantics memory)
    {iind c : Nat} {x : Pattern} (hx : s.inputs[iind]? = some x) (hc : c < x.nnz) {t : Taint}
    (ht : t ≠ 0) {w : Nat × Nat} {u : Taint}
    (hu : nonzeroAt (h.run (T := Marked α Taint) (tabulate s.inputs (soleMark (iind, c) t))) w =
      some u) : u ≠ 0 ↔ (iind, c) ∈ h.sources w := by
  refine (h.mark_run (Q := fun t => t ≠ 0) (fun hzero => hzero rfl) (fun a b => ?_)
    (map_length_tabulate _ _) hu).trans ⟨?_, fun hsource => ?_⟩
  · rw [← not_and_or, not_iff_not]
    exact UInt64.or_eq_zero_iff
  · rintro ⟨v, hv, m, hm, hne⟩
    obtain rfl := eq_of_nonzeroAt_tabulate hm
    unfold soleMark at hne
    split at hne
    · rename_i heq
      exact heq ▸ hv
    · exact absurd rfl hne
  · refine ⟨(iind, c), hsource, t, ?_, ht⟩
    refine (nonzeroAt_tabulate s.inputs (soleMark (iind, c) t) _).trans ?_
    rw [hx, Option.map_some, Option.getD_some, if_pos hc, soleMark, if_pos rfl]
    rfl

/-- The compressed Jacobian is the Jacobian. Its pattern holds the columns whose mark a dependency
sweep finds in the row, each entry is the derivative of the row along the column alone, and
outside of the pattern that derivative is zero. A pattern is refused only if there is no memory
to run the system or no list for its columns. -/
theorem jacobian_correct [ExactField α] {s : System α} {memory : Prop} (hs : s.IsCompiled memory)
    {iind oind : Nat} {x y : Pattern} (hx : s.inputs[iind]? = some x)
    (hy : s.outputs[oind]? = some y) :
    match s.jacobianPattern iind oind with
    | .error e => e = .misuse ∧ ¬ (memory ∧ x.nnz < Size.listLimit)
    | .ok p => p.shape = (y.nnz, x.nnz) ∧
      (∀ c < x.nnz, ∀ t : Taint, t ≠ 0 → ∃ marks,
        s.taint (tabulate s.inputs (soleMark (iind, c) t)) = .ok marks ∧
          ∀ r < y.nnz, ∃ u, nonzeroAt marks (oind, r) = some u ∧
            ((r, c) ∈ p.triplets ↔ u ≠ 0)) ∧
      ∀ args : List (List α), args.map List.length = s.inputs.map Pattern.nnz →
        ∃ J, s.jacobian iind oind args = .ok J ∧ J.pattern = p ∧ J.values.length = p.nnz ∧
          ∀ c < x.nnz, ∃ outs, s.evalDual (seeded args (unit (iind, c))) = .ok outs ∧
            ∀ r < y.nnz, ∃ d, nonzeroAt outs (oind, r) = some d ∧
              p.entry J.values r c = d.deriv ∧ ((r, c) ∉ p.triplets → d.deriv = 0) := by
  obtain ⟨h⟩ := hs.exists_semantics
  have hpattern := h.jacobianPattern_spec hx hy
  cases hp : s.jacobianPattern iind oind with
  | error e =>
    rw [hp] at hpattern
    exact hpattern
  | ok p =>
    rw [hp] at hpattern
    obtain ⟨hm, -, hshape, htriplets⟩ := hpattern
    have hmemory {c : Nat} (hc : c < x.nnz) : memory := hm.resolve_left (by omega)
    refine ⟨hshape, fun c hc t ht => ?_, fun args hargs => ?_⟩
    · have hlen := map_length_tabulate s.inputs (soleMark (iind, c) t)
      refine ⟨_, (h.taint hlen).1 (hmemory hc), fun r hr => ?_⟩
      obtain ⟨u, hu⟩ := exists_nonzeroAt hy (h.map_length_run (T := Marked α Taint) hlen) hr
      refine ⟨u, hu, (htriplets r c).trans (Iff.trans ?_ (h.soleMark_run hx hc ht hu).symm)⟩
      exact ⟨fun hall => hall.2.2, fun hsource => ⟨hr, hc, hsource⟩⟩
    · obtain ⟨J, hJ, hJp, hvalues, hentry⟩ := h.jacobian_spec hx hy hp hargs
      refine ⟨J, hJ, hJp, hvalues, fun c hc => ?_⟩
      have hlen : (seeded args (unit (iind, c))).map List.length = s.inputs.map Pattern.nnz := by
        rw [map_length_seeded, hargs]
      refine ⟨_, (h.evalDual hlen).1 (hmemory hc), fun r hr => ?_⟩
      obtain ⟨d, hd⟩ := exists_nonzeroAt hy (h.map_length_run hlen) hr
      have hat : p.entry J.values r c = d.deriv := by
        rw [hentry r hr c hc, derivAt, hd]
        rfl
      exact ⟨d, hd, hat, fun hrc => hat ▸ Pattern.entry_of_not_mem hrc⟩

/-- The Jacobian of the squares of the entries of a column. -/
theorem jacobian_correct_square :
    let x : Expr Rat := .node 0 (.symbol "x") [] (.column 2) []
    let y : Expr Rat := .node 1 (.binary .mul .none) [x, x] (.column 2) []
    ∃ f J, Function.compile "f" [x] [y] = .ok f ∧ f.system.IsCompiled True ∧
      f.system.jacobian 0 0 [[3, 5]] = .ok J ∧ J.pattern.shape = (2, 2) ∧
      (∀ r < 2, ∀ c < 2, ((r, c) ∈ J.pattern.triplets ↔ r = c)) ∧
      J.pattern.entry J.values 0 0 = 3 * 1 + 1 * 3 ∧ J.pattern.entry J.values 0 1 = 0 ∧
      J.pattern.entry J.values 1 0 = 0 ∧ J.pattern.entry J.values 1 1 = 5 * 1 + 1 * 5 := by
  intro x y
  obtain ⟨hf, hS, hcompiled⟩ := Function.compile_squares
  have hs : IsCompiled _ True := .function hS hcompiled
  have hspec := jacobian_correct hs (x := .column 2) (y := .column 2)
    (rfl : _ = [Pattern.column 2][0]?) (rfl : _ = [Pattern.column 2][0]?)
  split at hspec
  · exact absurd ⟨trivial, by decide⟩ hspec.2
  · rename_i p hp
    obtain ⟨hshape, hmem, hjac⟩ := hspec
    obtain ⟨J, hJ, rfl, -, hJac⟩ := hjac [[3, 5]] rfl
    refine ⟨_, J, hf, hs, hJ, hshape, fun r hr c hc => ?_, ?_⟩
    · obtain ⟨marks, hmarks, hspec⟩ := hmem c hc 1 (by decide)
      have hout := ((Function.semantics hS hcompiled).taint (map_length_tabulate
        [.column 2] (soleMark (0, c) 1))).1 trivial
      obtain rfl := Except.ok.inj (hmarks.symm.trans hout)
      obtain ⟨u, hu, hmem⟩ := hspec r hr
      have hat : u = soleMark (0, c) 1 (0, r) ||| soleMark (0, c) 1 (0, r) := by
        obtain rfl | rfl : r = 0 ∨ r = 1 := by
          change r < 2 at hr
          omega
        · exact (Option.some.inj hu).symm
        · exact (Option.some.inj hu).symm
      rw [hmem, hat]
      by_cases hrc : r = c
      · simp [soleMark, hrc]
      · simp [soleMark, hrc]
    · have hentry (r c : Nat) (hr : r < 2) (hc : c < 2) : J.pattern.entry J.values r c = derivAt
          ((Function.semantics hS hcompiled).run (seeded [[3, 5]] (unit (0, c)))) (0, r) := by
        obtain ⟨outs, houts, hspec⟩ := hJac c hc
        have hout := ((Function.semantics hS hcompiled).evalDual
          (map_length_seeded [[3, 5]] (unit (0, c)))).1 trivial
        obtain rfl := Except.ok.inj (houts.symm.trans hout)
        obtain ⟨d, hd, hentry, -⟩ := hspec r hr
        rw [hentry, derivAt, hd]
        rfl
      exact ⟨hentry 0 0 (by decide) (by decide),
        (hentry 0 1 (by decide) (by decide)).trans (show (3 * 0 + 0 * 3 : Rat) = 0 by norm_num),
        (hentry 1 0 (by decide) (by decide)).trans (show (5 * 0 + 0 * 5 : Rat) = 0 by norm_num),
        hentry 1 1 (by decide) (by decide)⟩

end System

end DiffGraph
