import Mathlib
import DiffGraph.Proofs.Function.Flow
import DiffGraph.Proofs.Graph.Marks

/-!
# Dependency sweeps over a function

A forward dependency sweep over a typed function is a run on marks: instruction by
instruction it has the same effect on the slots (`Typed.taintForward_eq_flow`).
-/

namespace DiffGraph.Function

open Element Expr

variable {α : Type} {f : Function α}

theorem bind_eq_bind {ε β γ : Type} (x : Except ε β) (f : β → Except ε γ) :
    x >>= f = ((x : ExceptT ε Id β) >>= f : ExceptT ε Id γ) := by
  cases x <;> rfl

theorem blanks_eq {slots : Array Pattern} {ins : Instruction α} (hins : ins.Typed slots) :
    (ins.results.map (·.map fun s =>
        List.replicate ((slots[s]?.map Pattern.nnz).getD 0) (0 : Taint))) =
      ins.node.patterns.zipIdx.map fun (p, i) =>
        if (ins.results[i]?.getD none).isSome then some (List.replicate p.nnz 0) else none := by
  refine List.ext_getElem? fun i => ?_
  rw [List.getElem?_map, List.getElem?_map, List.getElem?_zipIdx, Option.map_map]
  by_cases hi : i < ins.node.resultCount
  · obtain ⟨p, hp⟩ : ∃ p, ins.node.patterns[i]? = some p := ⟨_, List.getElem?_eq_getElem hi⟩
    obtain ⟨r, hr⟩ : ∃ r, ins.results[i]? = some r :=
      ⟨_, List.getElem?_eq_getElem (hins.length.symm ▸ hi)⟩
    cases r with
    | none => simp [hr, hp]
    | some t => simp [hr, hp, (hins.results i t hr).trans hp]
  · rw [List.getElem?_eq_none (hins.length.symm ▸ Nat.le_of_not_lt hi),
      List.getElem?_eq_none (Nat.le_of_not_lt hi)]
    rfl

variable [Scalar α] {work : Array (List (Marked α Taint))}

theorem taintForwardStep_eq {ins : Instruction α} (hins : ins.Typed f.slots)
    (hwork : Sized f.slots work) :
    f.taintForwardStep work ins = .ok (effect (T := Marked α Taint) work ins) := by
  have hsweep := hins.wellFormed.sweepTaint_eq hins.isOperation
    (hwork.map_length_buffers hins.args) fun i => (ins.results[i]?.getD none).isSome
  rw [← blanks_eq hins] at hsweep
  refine (congrArg (fun r : Except GraphError (List (List Taint) × List (Option (List Taint))) =>
    r >>= fun r => pure (store work ins.results r.2)) hsweep).trans ?_
  exact congrArg Except.ok (store_eq_put (T := Marked α Taint) work ins.results _)

theorem foldlM_taintForwardStep_eq {instructions : List (Instruction α)}
    (hins : ∀ ins ∈ instructions, ins.Typed f.slots) (hwork : Sized f.slots work) :
    instructions.foldlM f.taintForwardStep work =
      .ok (instructions.foldl (effect (T := Marked α Taint)) work) := by
  induction instructions generalizing work with
  | nil => rfl
  | cons ins rest ih =>
    have hfirst := hins ins List.mem_cons_self
    exact (congrArg (· >>= fun work => rest.foldlM f.taintForwardStep work)
      (taintForwardStep_eq hfirst hwork)).trans
        (ih (fun i hi => hins i (List.mem_cons_of_mem _ hi)) (hwork.effect hfirst))

theorem Typed.taintForward_eq_flow (hf : f.Typed) {seeds : List (List (Marked α Taint))}
    (hseeds : seeds.map List.length = f.inputs.map nnz) :
    f.taintForward seeds = .ok (f.flow (T := Marked α Taint) seeds) := by
  have hsteps := foldlM_taintForwardStep_eq hf.instructions (hf.sized_start hseeds)
  refine (congrArg (fun r : Except GraphError Unit => r >>= fun _ =>
    f.instructions.foldlM f.taintForwardStep (storeArgs f.unmarked f.inputSlots seeds) >>=
      fun work => pure (buffers work f.outputSlots)) (checkLengths_eq_ok hseeds)).trans ?_
  exact congrArg (fun r : Except GraphError (Array (List Taint)) =>
    r >>= fun work => pure (buffers work f.outputSlots)) hsteps

end DiffGraph.Function
