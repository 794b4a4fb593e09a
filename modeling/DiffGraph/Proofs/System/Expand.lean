import Mathlib
import DiffGraph.Proofs.Function.Expand
import DiffGraph.Proofs.System.Jacobian
import DiffGraph.Proofs.System.Soundness

/-!
# Sparsity of expanded functions

Folding drops operands and never adds one, so what an output nonzero of an expanded
function is computed from is among what it was computed from before
(`Expansion.sources_subset`). Its dependency sweeps therefore leave fewer marks
(`Expansion.marksWithin_run`) and its Jacobians have fewer entries. All entries
keep their values, because those that are gone were zero at every point
(`Function.expand_sparser`).
-/

namespace DiffGraph

open Element System Expr

/-- A folded term depends on less than the operation that it replaces. -/
instance {α : Type} [Scalar α] : FoldingElement α (Marked α Sources) where
  le u v := (show Sources from u) ⊆ (show Sources from v)
  refl _ := subset_rfl
  trans := Set.Subset.trans
  mono₁ _ _ _ h := h
  mono₂ _ _ _ _ _ h h' := Set.union_subset_union h h'
  number_congr _ _ _ := subset_rfl
  unary_number _ _ := subset_rfl
  binary_number _ _ _ := Set.empty_subset _
  zero_add _ := Set.subset_union_right
  add_zero _ := Set.subset_union_left
  sub_zero _ := Set.subset_union_left
  zero_sub _ := Set.subset_union_right
  zero_mul _ := Set.empty_subset _
  mul_zero _ := Set.empty_subset _
  one_mul _ := Set.subset_union_right
  mul_one _ := Set.subset_union_left
  div_one _ := Set.subset_union_left
  neg_neg _ := subset_rfl

def MarksWithin (t u : Taint) : Prop :=
  t &&& u = t

theorem marksWithin_iff {t u : Taint} :
    MarksWithin t u ↔ ∀ b, t.toNat.testBit b = true → u.toNat.testBit b = true := by
  constructor
  · intro h b ht
    rw [← show t &&& u = t from h, UInt64.toNat_and, Nat.testBit_and, Bool.and_eq_true] at ht
    exact ht.2
  · intro h
    refine taint_ext fun b => ?_
    rw [UInt64.toNat_and, Nat.testBit_and, Bool.and_eq_true]
    exact and_iff_left_of_imp (h b)

namespace Function

namespace Expansion

variable {α T : Type} [Scalar α] {f : Function α} {g : TermFunction α} {n m k : Nat}
  {S : Set (Expr α)} {G : Set (Term α)}

theorem system_inputs (hx : f.Expansion m g) : g.system.inputs = f.system.inputs :=
  hx.inputPatterns

theorem system_outputs (hx : f.Expansion m g) : g.system.outputs = f.system.outputs :=
  hx.outputPatterns

/-- The outputs of an expanded function lie below those of the function. -/
theorem le_run [Element Id α T] [FoldingElement α T] (hx : f.Expansion m g) (hS : IsGraph n S)
    (h : f.Compiled S) (hG : IsTermGraph k G) (hg : g.Compiled G) {values : List (List T)}
    (hvalues : values.map List.length = f.system.inputs.map Pattern.nnz) :
    List.Forall₂ (List.Forall₂ FoldingElement.le) ((TermFunction.semantics hG hg).run values)
      ((Function.semantics hS h).run values) := by
  obtain ⟨-, -, -, -, hle⟩ := hx.exists_outputs hS h (hvalues.trans f.map_nnz_inputs)
  exact hle

theorem run_eq_run [Element Id α T] [ExactElement α T] (hx : f.Expansion m g) (hS : IsGraph n S)
    (h : f.Compiled S) (hG : IsTermGraph k G) (hg : g.Compiled G) {values : List (List T)}
    (hvalues : values.map List.length = f.system.inputs.map Pattern.nnz) :
    (TermFunction.semantics hG hg).run values = (Function.semantics hS h).run values :=
  eq_of_forall₂_eq (hx.le_run hS h hG hg hvalues)

/-- What an output nonzero of an expanded function is computed from, it was computed from before. -/
theorem sources_subset (hx : f.Expansion m g) (hS : IsGraph n S) (h : f.Compiled S)
    (hG : IsTermGraph k G) (hg : g.Compiled G) (w : Nat × Nat) :
    (TermFunction.semantics hG hg).sources w ⊆ (Function.semantics hS h).sources w := by
  have hle := hx.le_run (T := Marked α Sources) hS h hG hg
    (map_length_tabulate f.system.inputs fun v => ({v} : Sources))
  intro v hv
  unfold Semantics.sources at hv
  rw [hx.system_inputs] at hv
  cases hD : nonzeroAt (T := Sources) ((TermFunction.semantics hG hg).run (T := Marked α Sources)
      (tabulate f.system.inputs fun v => ({v} : Sources))) w with
  | none =>
    rw [hD] at hv
    cases hv
  | some D =>
    rw [hD] at hv
    obtain ⟨E, hE, hDE⟩ :=
      exists_nonzeroAt_of_forall₂ (hle.imp fun _ _ hxy => hxy.flip).flip hD
    obtain rfl : (Function.semantics hS h).sources w = E :=
      congrArg (fun o : Option Sources => o.getD ∅) hE
    exact hDE hv

theorem marksWithin_run (hx : f.Expansion m g) (hS : IsGraph n S) (h : f.Compiled S)
    (hG : IsTermGraph k G) (hg : g.Compiled G) {seeds : List (List (Marked α Taint))}
    (hseeds : seeds.map List.length = f.system.inputs.map Pattern.nnz) :
    List.Forall₂ (List.Forall₂ MarksWithin)
      ((TermFunction.semantics hG hg).run (T := Marked α Taint) seeds)
      ((Function.semantics hS h).run (T := Marked α Taint) seeds) := by
  have hseeds' : seeds.map List.length = g.system.inputs.map Pattern.nnz := by
    rw [hseeds, hx.system_inputs]
  have hlen := (Function.semantics hS h).map_length_run (T := Marked α Taint) hseeds
  refine forall₂_of_nonzeroAt ?_ fun w t u ht hu => marksWithin_iff.2 fun b hbit => ?_
  · rw [← hx.system_outputs] at hlen
    exact (Semantics.map_length_run (T := Marked α Taint) _ hseeds').trans hlen.symm
  · obtain ⟨v, hv, hmark⟩ := (Semantics.testBit_run _ b hseeds' ht).1 hbit
    exact (Semantics.testBit_run _ b hseeds hu).2 ⟨v, hx.sources_subset hS h hG hg w hv, hmark⟩

/-- Dependency sweeps over an expanded function leave marks among those that they left before. -/
theorem taintForward_spec (hx : f.Expansion m g) (hS : IsGraph n S) (h : f.Compiled S)
    (seeds : List (List Taint)) :
    if seeds.map List.length = f.inputs.map nnz then
      ∃ marks marks', f.taintForward seeds = .ok marks ∧
        Delivers g.FitsMemory (g.taintForward seeds) marks' ∧
          List.Forall₂ (List.Forall₂ MarksWithin) marks' marks
    else ∃ e, f.taintForward seeds = .error e ∧ g.taintForward seeds = .error (.graph e) := by
  obtain ⟨k, G, hG, hg⟩ := hx.exists_compiled hS h
  split
  · rename_i hlen
    have hseeds : seeds.map List.length = f.system.inputs.map Pattern.nnz :=
      hlen.trans f.map_nnz_inputs.symm
    have hseeds' : seeds.map List.length = g.system.inputs.map Pattern.nnz := by
      rw [hseeds, hx.system_inputs]
    refine ⟨_, _, ?_, (TermFunction.semantics hG hg).taint hseeds',
      hx.marksWithin_run hS h hG hg hseeds⟩
    have hrun := ((Function.semantics hS h).taint hseeds).1 trivial
    cases htaint : f.taintForward seeds with
    | error e =>
      rw [show f.system.taint seeds = (f.taintForward seeds).mapError .graph from rfl,
        htaint] at hrun
      cases hrun
    | ok marks =>
      rw [show f.system.taint seeds = (f.taintForward seeds).mapError .graph from rfl,
        htaint] at hrun
      exact congrArg Except.ok (Except.ok.inj hrun)
  · rename_i hlen
    obtain ⟨e, hf, hg⟩ := hx.checkLengths_of_ne hlen
    refine ⟨e, ?_, ?_⟩
    · unfold Function.taintForward
      rw [hf]
      rfl
    · unfold TermFunction.taintForward
      rw [hg]
      rfl

/-- The pattern of a Jacobian of an expanded function is part of the pattern that it was. -/
theorem jacobianPattern_spec (hx : f.Expansion m g) (hS : IsGraph n S) (h : f.Compiled S)
    {iind oind : Nat} {x y : Pattern} (hi : f.system.inputs[iind]? = some x)
    (ho : f.system.outputs[oind]? = some y) :
    match f.system.jacobianPattern iind oind, g.system.jacobianPattern iind oind with
    | .error e, r => e = .misuse ∧ r = .error .misuse ∧ ¬ x.nnz < Size.listLimit
    | .ok _, .error e => e = .misuse ∧ ¬ g.FitsMemory
    | .ok p, .ok q => q.shape = p.shape ∧ p.shape = (y.nnz, x.nnz) ∧ q.triplets ⊆ p.triplets := by
  obtain ⟨k, G, hG, hg⟩ := hx.exists_compiled hS h
  have hbefore := (Function.semantics hS h).jacobianPattern_spec hi ho
  have hafter := (TermFunction.semantics hG hg).jacobianPattern_spec
    (hx.system_inputs ▸ hi) (hx.system_outputs ▸ ho)
  cases hp : f.system.jacobianPattern iind oind with
  | error e =>
    rw [hp] at hbefore
    obtain ⟨rfl, hlarge⟩ := hbefore
    have hlarge : ¬ x.nnz < Size.listLimit := fun hlt => hlarge ⟨trivial, hlt⟩
    refine ⟨rfl, ?_, hlarge⟩
    cases hq : g.system.jacobianPattern iind oind with
    | error e =>
      rw [hq] at hafter
      rw [hafter.1]
    | ok q =>
      rw [hq] at hafter
      exact absurd hafter.2.1 hlarge
  | ok p =>
    rw [hp] at hbefore
    obtain ⟨-, hlt, hshape, htriplets⟩ := hbefore
    cases hq : g.system.jacobianPattern iind oind with
    | error e =>
      rw [hq] at hafter
      exact ⟨hafter.1, fun hfits => hafter.2 ⟨hfits, hlt⟩⟩
    | ok q =>
      rw [hq] at hafter
      obtain ⟨-, -, hshape', htriplets'⟩ := hafter
      refine ⟨hshape'.trans hshape.symm, hshape, fun rc hrc => ?_⟩
      obtain ⟨hr, hc, hsource⟩ := (htriplets' rc.1 rc.2).1 hrc
      exact (htriplets rc.1 rc.2).2 ⟨hr, hc, hx.sources_subset hS h hG hg _ hsource⟩

/-- The entries of a Jacobian of an expanded function are those that it had, with zero for the
entries outside of its pattern. -/
theorem jacobian_eq {α : Type} [ExactField α] {f : Function α} {g : TermFunction α}
    {S : Set (Expr α)} (hx : f.Expansion m g) (hS : IsGraph n S) (h : f.Compiled S)
    {iind oind : Nat} {x y p q : Pattern} (hi : f.system.inputs[iind]? = some x)
    (ho : f.system.outputs[oind]? = some y) (hp : f.system.jacobianPattern iind oind = .ok p)
    (hq : g.system.jacobianPattern iind oind = .ok q) {args : List (List α)}
    (hargs : args.map List.length = f.system.inputs.map Pattern.nnz) :
    ∃ J K, f.system.jacobian iind oind args = .ok J ∧ g.system.jacobian iind oind args = .ok K ∧
      J.pattern = p ∧ K.pattern = q ∧ J.values.length = p.nnz ∧ K.values.length = q.nnz ∧
      ∀ r c, q.entry K.values r c = p.entry J.values r c := by
  obtain ⟨k, G, hG, hg⟩ := hx.exists_compiled hS h
  have hpattern := hx.jacobianPattern_spec hS h hi ho
  rw [hp, hq] at hpattern
  obtain ⟨hshape', hshape, -⟩ := hpattern
  obtain ⟨J, hJ, hJp, hJlen, hJentry⟩ := (Function.semantics hS h).jacobian_spec hi ho hp hargs
  obtain ⟨K, hK, hKq, hKlen, hKentry⟩ := (TermFunction.semantics hG hg).jacobian_spec
    (hx.system_inputs ▸ hi) (hx.system_outputs ▸ ho) hq (hargs.trans (by rw [hx.system_inputs]))
  refine ⟨J, K, hJ, hK, hJp, hKq, hJlen, hKlen, fun r c => ?_⟩
  by_cases hrc : r < y.nnz ∧ c < x.nnz
  · rw [hJentry r hrc.1 c hrc.2, hKentry r hrc.1 c hrc.2, hx.run_eq_run hS h hG hg
      (by rw [System.map_length_seeded, hargs])]
  · obtain ⟨hrows, hcols⟩ := Prod.mk.inj hshape
    obtain ⟨hrows', hcols'⟩ := Prod.mk.inj (hshape'.trans hshape)
    rw [Pattern.entry_of_not_lt (by rw [hrows', hcols']; exact hrc),
      Pattern.entry_of_not_lt (by rw [hrows, hcols]; exact hrc)]

end Expansion

/-- Expanding a function never weakens its sparsity and keeps its Jacobians. The marks of a
dependency sweep over the expanded function are among those of the same sweep over the function, the
pattern of a Jacobian is part of the pattern that it was, and all entries, with zero for those
outside of a pattern, are the same at all arguments. The sweeps of the expanded function and its
patterns are refused only where those of the function are, or if there is no memory for its
temporaries and outputs. -/
theorem expand_sparser {α : Type} [ExactField α] {f : Function α} {n : Nat} {S : Set (Expr α)}
    (hS : IsGraph n S) (h : f.Compiled S) (m : Nat) :
    ∃ g m', f.expand m = .ok (g, m') ∧
      (∀ seeds : List (List Taint),
        if seeds.map List.length = f.inputs.map nnz then
          ∃ marks marks', f.taintForward seeds = .ok marks ∧
            Delivers g.FitsMemory (g.taintForward seeds) marks' ∧
              List.Forall₂ (List.Forall₂ MarksWithin) marks' marks
        else ∃ e, f.taintForward seeds = .error e ∧ g.taintForward seeds = .error (.graph e)) ∧
      ∀ (iind oind : Nat) (x y : Expr α), f.inputs[iind]? = some x → f.outputs[oind]? = some y →
        match f.system.jacobianPattern iind oind, g.system.jacobianPattern iind oind with
        | .error e, r => e = .misuse ∧ r = .error .misuse ∧ ¬ x.nnz < Size.listLimit
        | .ok _, .error e => e = .misuse ∧ ¬ g.FitsMemory
        | .ok p, .ok q => q.shape = p.shape ∧ q.triplets ⊆ p.triplets ∧
          ∀ args : List (List α), args.map List.length = f.inputs.map nnz →
            ∃ J K, f.system.jacobian iind oind args = .ok J ∧
              g.system.jacobian iind oind args = .ok K ∧ J.pattern = p ∧ K.pattern = q ∧
              J.values.length = p.nnz ∧ K.values.length = q.nnz ∧
              ∀ r c, q.entry K.values r c = p.entry J.values r c := by
  obtain ⟨g, m', hg, hx⟩ := exists_expansion hS h m
  refine ⟨g, m', hg, hx.taintForward_spec hS h, fun iind oind x y hi ho => ?_⟩
  have hi : f.system.inputs[iind]? = some x.pattern := by
    rw [show f.system.inputs = f.inputs.map Expr.pattern from rfl, List.getElem?_map, hi,
      Option.map_some]
  have ho : f.system.outputs[oind]? = some y.pattern := by
    rw [show f.system.outputs = f.outputs.map Expr.pattern from rfl, List.getElem?_map, ho,
      Option.map_some]
  have hpattern := hx.jacobianPattern_spec hS h hi ho
  cases hp : f.system.jacobianPattern iind oind with
  | error e =>
    rw [hp] at hpattern
    exact hpattern
  | ok p =>
    cases hq : g.system.jacobianPattern iind oind with
    | error e =>
      rw [hp, hq] at hpattern
      exact hpattern
    | ok q =>
      rw [hp, hq] at hpattern
      refine ⟨hpattern.1, hpattern.2.2, fun args hargs => ?_⟩
      exact hx.jacobian_eq hS h hi ho hp hq (hargs.trans f.map_nnz_inputs.symm)

/-- A column multiplied with the mask `0, 1`, expanded: nothing depends on its first entry any
more. -/
theorem expand_sparser_masked :
    let x : Expr Rat := .node 0 (.symbol "x") [] (.column 2) []
    let c : Expr Rat := .node 1 (.constant [0, 1]) [] (.column 2) []
    let p : Expr Rat := .node 2 (.binary .mul .none) [x, c] (.column 2) []
    ∃ f g J K, compile "f" [x] [p] = .ok f ∧ f.expand 3 = .ok (g, 9) ∧
      f.taintForward [[1, 2]] = .ok [[1, 2]] ∧ g.taintForward [[1, 2]] = .ok [[0, 2]] ∧
      f.system.jacobian 0 0 [[3, 5]] = .ok J ∧ g.system.jacobian 0 0 [[3, 5]] = .ok K ∧
      J.pattern.triplets = [(0, 0), (1, 1)] ∧ K.pattern.triplets = [(1, 1)] ∧
      ∀ r c, K.pattern.entry K.values r c = J.pattern.entry J.values r c := by
  intro x c p
  have hx : Built 1 [x] := .symbol "x" _ .start
  have hc : Built 2 [c, x] :=
    .make (.constant [0, 1] (.column 2)) hx (by simp [Construction.operands]) rfl
  have hG : Built 3 [p, c, x] :=
    .make (.binary .mul x c) hc (by simp [Construction.operands]) rfl
  let f : Function Rat := ⟨"f", [x], [p], [⟨c, [], [some 1]⟩, ⟨p, [0, 1], [some 2]⟩],
    #[.column 2, .column 2, .column 2], [0], [2]⟩
  have hf : compile "f" [x] [p] = .ok f := by
    simp [compile, placeInputs, x, c, p, f, isSymbol, name?, Expr.op, bind, Except.bind, pure,
      Except.pure, Sorter.visitAll, Sorter.visit, Sorter.addInput, Sorter.allocate, Sorter.empty,
      Sorter.place, patterns, deps, Expr.id, resultCount, Sorter.slotFor, Sorter.slotsFor,
      Std.HashMap.getElem_insert]
  obtain ⟨hS, hcompiled⟩ := compiled_of_built hG (by simp) (by simp) hf
  let s : Term Rat := .symbol 3 "x_0"
  let t : Term Rat := .symbol 4 "x_1"
  let outs : List (List (Term Rat)) := [[.constant 8 0, t]]
  let code : Program Rat := ⟨[.loadConst 0, .write 0, .loadVar 1, .write 1], 0⟩
  have hterms : f.evaluateTerms [[s, t]] 5 = .ok (outs, 9) := by
    simp [evaluateTerms, Function.run, f, checkLengths, x, p, nnz, Expr.pattern, Pattern.column,
      Pattern.nnz]
    rfl
  have hcode : TermFunction.assemble [[s, t]].flatten outs.flatten = .ok code := by
    simp [TermFunction.assemble, s, t, outs, code, Term.countUses, Compiler.compile,
      Compiler.emit, Term.id, bind, Except.bind, pure, Except.pure]
  let g : TermFunction Rat := ⟨"f", [[s, t]], outs, [.column 2], [.column 2], code⟩
  have hg : f.expand 3 = .ok (g, 9) := by
    have hsymbols : f.termInputs.run 3 = ([[s, t]], 5) := rfl
    unfold expand
    rw [hsymbols]
    dsimp only
    rw [hterms]
    show (TermFunction.compile "f" [[s, t]] [.column 2] outs [.column 2] >>=
      fun g => pure (g, 9)) = _
    rw [TermFunction.compile_eq (by simp [outs, t, s]) rfl rfl, hcode]
    rfl
  obtain ⟨g', m', hg', -, hjacobian⟩ := expand_sparser hS hcompiled 3
  obtain ⟨rfl, -⟩ := Prod.mk.inj (Except.ok.inj (hg'.symm.trans hg))
  have hp : (f.system.jacobianPattern 0 0).map Pattern.triplets = .ok [(0, 0), (1, 1)] := by cbv
  have hq : (g.system.jacobianPattern 0 0).map Pattern.triplets = .ok [(1, 1)] := by cbv
  have hspec := hjacobian 0 0 x p rfl rfl
  cases hfp : f.system.jacobianPattern 0 0 with
  | error e =>
    rw [hfp] at hp
    cases hp
  | ok p =>
    cases hgq : g.system.jacobianPattern 0 0 with
    | error e =>
      rw [hgq] at hq
      cases hq
    | ok q =>
      rw [hfp] at hp
      rw [hgq] at hq
      rw [hfp, hgq] at hspec
      obtain ⟨J, K, hJ, hK, rfl, rfl, -, -, hentry⟩ := hspec.2.2 [[3, 5]] rfl
      exact ⟨f, g, J, K, hf, hg, by cbv, by cbv, hJ, hK, Except.ok.inj hp, Except.ok.inj hq, hentry⟩

end Function

end DiffGraph
