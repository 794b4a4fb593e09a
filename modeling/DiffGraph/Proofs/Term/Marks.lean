import Mathlib
import DiffGraph.Proofs.Function.Marks
import DiffGraph.Proofs.Term.Compile

/-!
# Dependency sweeps over scalar expressions

A program executed on dependency marks does what it does on elements that are
marks, as long as the stack does not run empty. So a dependency sweep over a
compiled function evaluates its terms on marks (`TermFunction.taintForward_eq`).
-/

namespace DiffGraph

open Element Term

variable {α : Type} {vars : Array (Marked α Taint)} {s s' : Machine (Marked α Taint)}

namespace Program

theorem stepTaint_of_step {op : OpCode α}
    (h : (step vars op s : ExceptT FunctionError Id _) = pure s') :
    stepTaint vars op s = .ok s' := by
  cases op with
  | loadConst x => exact h
  | loadVar i => exact h
  | loadTemp i => exact h
  | storeTemp i => exact h
  | write i => exact h
  | unary op =>
    obtain ⟨stack, temps, out⟩ := s
    cases stack with
    | nil => cases h
    | cons x rest => exact h
  | binary op =>
    obtain ⟨stack, temps, out⟩ := s
    cases stack with
    | nil => cases h
    | cons y stack =>
      cases stack with
      | nil => cases h
      | cons x rest => exact h

theorem execTaint_of_exec {code : List (OpCode α)} (h : exec vars code s = pure s') :
    code.foldlM (fun s op => stepTaint vars op s) s = .ok s' := by
  induction code generalizing s with
  | nil => exact h
  | cons op code ih =>
    unfold exec at h
    rw [List.foldlM_cons, ← Function.bind_eq_bind] at h
    obtain ⟨next, hnext, hrest⟩ := exists_of_bind_eq_ok h
    exact (congrArg (· >>= fun s => code.foldlM (fun s op => stepTaint vars op s) s)
      (stepTaint_of_step hnext)).trans (ih hrest)

/-- A program that runs on elements does the same on marks. -/
theorem runTaint_of_run [Zero α] {p : Program α} {values : List (Marked α Taint)} {count : Nat}
    (h : (p.run values count : ExceptT FunctionError Id _) = pure s) :
    p.runTaint values count = .ok s := by
  have hrun : (ExceptT.mk (pure (Machine.start (ofNumber (0 : α) : Marked α Taint) p.tempCount
      count)) : ExceptT FunctionError Id _) >>= exec values.toArray p.code = pure s := h
  generalize hstart : Machine.start (ofNumber (0 : α) : Marked α Taint) p.tempCount count = start
    at hrun
  cases start with
  | error e => cases hrun
  | ok start =>
    exact (congrArg (fun r : Except FunctionError (Machine (Marked α Taint)) =>
      r >>= fun s => p.code.foldlM (fun s op => stepTaint values.toArray op s) s) hstart).trans
        (execTaint_of_exec hrun)

theorem runTaint_of_not_fits {p : Program α} (values : List Taint) {count : Nat}
    (h : ¬ (p.tempCount < Size.listLimit ∧ count < Size.listLimit)) :
    p.runTaint values count = .error .misuse := by
  unfold runTaint
  rw [Machine.start_of_not_fits h]
  rfl

end Program

namespace TermFunction

variable [Scalar α] {n : Nat} {G : Set (Term α)} {g : TermFunction α}

/-- A dependency sweep evaluates the outputs on marks, unless the memory does not suffice. -/
theorem taintForward_eq (hG : IsTermGraph n G) (h : g.Compiled G)
    {seeds : List (List (Marked α Taint))}
    (hseeds : seeds.map List.length = g.inputs.map List.length) :
    g.taintForward seeds =
      if g.FitsMemory then
        .ok (g.outputs.map (List.map (Term.eval (T := Marked α Taint)
          (assign g.inputs.flatten seeds.flatten))))
      else .error .misuse := by
  have hcheck : g.checkLengths (seeds.map List.length) = .ok () := hseeds ▸ g.checkLengths_self
  have hleft : g.taintForward seeds =
      (g.program.runTaint seeds.flatten g.outputs.flatten.length >>= fun s =>
        pure (g.cutOutputs s.out)) := by
    unfold taintForward
    exact congrArg (fun r : Except GraphError Unit =>
      (liftM r : Except FunctionError Unit) >>= fun _ => _) hcheck
  by_cases hmemory : g.FitsMemory
  · obtain ⟨s, hrun, hcut⟩ := h.exists_run hG hseeds hmemory
    have hmarks := congrArg (fun r : Except FunctionError (Machine (Marked α Taint)) =>
      r >>= fun s => pure (g.cutOutputs s.out)) (Program.runTaint_of_run hrun)
    rw [if_pos hmemory]
    exact (hleft.trans hmarks).trans (congrArg Except.ok hcut)
  · rw [if_neg hmemory, hleft]
    exact congrArg (· >>= fun s : Machine Taint => pure (g.cutOutputs s.out))
      (Program.runTaint_of_not_fits seeds.flatten hmemory)

end TermFunction

end DiffGraph
