import Mathlib
import DiffGraph.Proofs.Call.Call

/-!
# A call is a substitution

The results of a call, evaluated as trees, are what a run of the function returns
on the values of the arguments (`Function.call_correct`). An input reads only the
entries of its argument at the places of its own pattern
(`Function.argumentValues`).
-/

namespace DiffGraph

open Expr

namespace Function

variable {α : Type} {n : Nat} {S : Set (Expr α)} {f : Function α} {args : List (Expr α)}

/-- The refusals of arguments that do not fit the inputs of a function. -/
inductive Misfit (f : Function α) (args : List (Expr α)) : GraphError → Prop
  | wrongCount : args.length ≠ f.inputs.length →
      Misfit f args (.argumentCount f.inputs.length args.length)
  | wrongShape {i : Nat} {a x : Expr α} : args[i]? = some a → f.inputs[i]? = some x →
      a.shape ≠ x.shape → Misfit f args (.argumentShape i x.shape a.shape)

theorem Misfit.map_shape_ne {e : GraphError} (h : f.Misfit args e) :
    args.map shape ≠ f.inputs.map shape := by
  intro heq
  cases h with
  | wrongCount hcount => exact hcount (by simpa using congrArg List.length heq)
  | @wrongShape i a x ha hx hne => exact hne (by simpa [ha, hx] using congrArg (·[i]?) heq)

theorem misfit_of_shapeError? {e : GraphError} (h : f.shapeError? args = some e) :
    f.Misfit args e := by
  obtain ⟨⟨⟨a, x⟩, i⟩, hfind, rfl⟩ := Option.map_eq_some_iff.1 h
  have hne : a.shape ≠ x.shape := by simpa using List.find?_some hfind
  obtain ⟨ha, hx⟩ := List.getElem?_zip_eq_some.1
    (List.mem_zipIdx_iff_getElem?.1 (List.mem_of_find?_eq_some hfind))
  exact .wrongShape ha hx hne

variable [Scalar α]

/-- Arguments of other shapes are refused, by their number or by the first that does not fit. -/
theorem exists_misfit (h : args.map shape ≠ f.inputs.map shape) (n : Nat) :
    ∃ e, f.call args n = .error e ∧ f.Misfit args e := by
  unfold call
  by_cases hcount : args.length = f.inputs.length
  · obtain ⟨e, he⟩ := Option.ne_none_iff_exists'.1 fun hnone =>
      h ((shapeError?_eq_none_iff hcount).1 hnone)
    rw [if_neg (not_not.2 hcount), he]
    exact ⟨e, rfl, misfit_of_shapeError? he⟩
  · rw [if_pos hcount]
    exact ⟨_, rfl, .wrongCount hcount⟩

def argumentValues (f : Function α) (args : List (Expr α)) (env : Nat → Nat → α) : List (List α) :=
  (args.zip f.inputs).map fun (a, x) => x.pattern.gather (entry env a)

theorem length_argumentValues (hshapes : args.map shape = f.inputs.map shape)
    (env : Nat → Nat → α) :
    (f.argumentValues args env).map List.length = f.inputs.map nnz := by
  have hcount : args.length = f.inputs.length := by simpa using congrArg List.length hshapes
  have hlength (ax : Expr α × Expr α) : (ax.2.pattern.gather (entry env ax.1)).length = ax.2.nnz :=
    Pattern.length_gather _
  calc (f.argumentValues args env).map List.length
      = (args.zip f.inputs).map fun ax => ax.2.nnz := by
        rw [argumentValues, List.map_map]
        exact List.map_congr_left fun ax _ => hlength ax
    _ = ((args.zip f.inputs).map Prod.snd).map nnz := by rw [List.map_map]; rfl
    _ = f.inputs.map nnz := by rw [List.map_snd_zip hcount.ge]

end Function

variable {α : Type} [ExactField α] {n : Nat} {S : Set (Expr α)} {f : Function α}
  {args : List (Expr α)}

/-- Inlining is substitution. A call fails exactly for arguments of another number or of other
shapes than the inputs, unless the memory does not suffice. Otherwise its results have the patterns
of the outputs and, for all values of the symbols, the values that the function returns on the
values of the arguments. -/
theorem Function.call_correct (hS : IsGraph n S) (h : f.Compiled S)
    (hargs : ∀ a ∈ args, Usable S a) :
    match f.call args n with
    | .error e => f.Misfit args e ∨ OutOf f.FitsMemory e
    | .ok (rs, n') => args.map shape = f.inputs.map shape ∧
        (∃ S', Extends n S n' S' ∧ ∀ r ∈ rs, Usable S' r) ∧
        rs.map Expr.pattern = f.outputs.map Expr.pattern ∧
        ∀ env : Nat → Nat → α, ∃ outs, f.evaluate (f.argumentValues args env) = .ok outs ∧
          List.Forall₂ (fun r out => evalTree env r = .ok [out]) rs outs := by
  obtain ⟨hgraph, slot, hlayout⟩ := h.exists_layout hS
  by_cases hshapes : args.map shape = f.inputs.map shape
  · have hcall := grows_call hS h hS (fun _ hx => hx.1) hargs hshapes
    unfold Grows at hcall
    split <;> rename_i hrun <;> simp only [hrun] at hcall
    · exact .inr hcall
    · obtain ⟨S', hext, hrs⟩ := hcall
      refine ⟨hshapes, ⟨S', hext, fun r hr => ?_⟩, ?_, fun env => ?_⟩
      · obtain ⟨i, hi⟩ := List.mem_iff_getElem?.1 hr
        obtain ⟨-, -, hus, -⟩ := exists_of_forall₂ hrs hi
        exact hus
      · exact (map_eq_of_forall₂ hrs fun o r ho => ho.2.1.symm).symm
      · refine ⟨_, run_eq hlayout hgraph (length_argumentValues hshapes env), ?_⟩
        refine List.forall₂_map_right_iff.2 (hrs.flip.imp fun r o ho => ?_)
        obtain ⟨hus, -, hval⟩ := ho
        rw [(hext.graph.evalTree_eq hus.1).1, hext.graph.values_of_not_isSplit hus.1 hus.2, hval]
        rfl
  · obtain ⟨e, he, hmisfit⟩ := exists_misfit hshapes n
    rw [he]
    exact .inl hmisfit

/-- The squares of the entries of a column, called on a column with its second entry only. -/
theorem Function.call_correct_square :
    let x : Expr Rat := .node 0 (.symbol "x") [] (.column 2) []
    let p : Expr Rat := .node 1 (.binary .mul .none) [x, x] (.column 2) []
    let q : Pattern := ⟨2, [[1]], by decide⟩
    let y : Expr Rat := .node 2 (.symbol "y") [] q []
    ∃ f r n', compile "f" [x] [p] = .ok f ∧ f.call [y] 3 = .ok ([r], n') ∧
      r.pattern = .column 2 ∧ (∀ v : Rat, evalTree (fun _ _ => v) r = .ok [[0 * 0, v * v]]) ∧
      f.call [y, y] 3 = .error (.argumentCount 1 2) := by
  intro x p q y
  obtain ⟨f, hf, hin, hout, hmemory, -, -⟩ := compile_square
  have hx : Built 1 [x] := .symbol "x" _ .start
  have hp : Built 2 [p, x] := .make (.binary .mul x x) hx (by simp [Construction.operands]) rfl
  have hG : Built 3 [y, p, x] := .symbol "y" q hp
  obtain ⟨hS, hcompiled⟩ := compiled_of_built hG (by simp [x]) (by simp [p, x]) hf
  obtain ⟨hgraph, slot, hlayout⟩ := hcompiled.exists_layout hS
  have hy : Usable (nodesOf [y, p, x]) y := ⟨mem_nodesOf (by simp), rfl⟩
  have hshapes : [y].map shape = f.inputs.map shape := by rw [hin]; rfl
  have hrefused : f.call [y, y] 3 = .error (.argumentCount 1 2) := by
    unfold call
    rw [hin]
    rfl
  have h := @call_correct _ _ _ _ _ [y] hS hcompiled (by simpa using hy)
  cases hcall : f.call [y] 3 with
  | error e =>
    simp only [hcall] at h
    rcases h with h | h
    · exact absurd hshapes h.map_shape_ne
    · exact absurd hmemory h.2
  | ok out =>
    obtain ⟨rs, n'⟩ := out
    simp only [hcall] at h
    obtain ⟨-, -, hpatterns, hvalues⟩ := h
    rw [hout] at hpatterns
    obtain ⟨r, rfl, hr⟩ := List.map_eq_singleton_iff.1 hpatterns
    refine ⟨f, r, n', hf, hcall, hr, fun v => ?_, hrefused⟩
    obtain ⟨outs, heval, hall⟩ := hvalues fun _ _ => v
    have hrun := run_eq hlayout hgraph (length_argumentValues hshapes fun _ _ => v)
    obtain rfl := Except.ok.inj (heval.symm.trans hrun)
    rw [hout] at hall
    obtain ⟨h, -⟩ := List.forall₂_cons.1 hall
    rw [h, argumentValues, hin]
    rfl

end DiffGraph
