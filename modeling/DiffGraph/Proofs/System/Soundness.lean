import Mathlib
import DiffGraph.Proofs.System.Sources

/-!
# Soundness of dependency sweeps

Two runs whose arguments agree wherever a mark is missing agree wherever the sweep leaves
the mark out (`Semantics.agreeOff_run`): an output nonzero without the mark has no marked
sources, and its sources decide it. This holds of functions over matrix and over scalar
expressions and of elements of every type (`taint_sound`).
-/

namespace DiffGraph

open Element

namespace System

variable {α T : Type}

/-- Both agree on every nonzero without the mark `b`. -/
def AgreeOff (b : Nat) (marks : List (List Taint)) (xs ys : List (List T)) : Prop :=
  ∀ w t, nonzeroAt marks w = some t → t.toNat.testBit b = false → nonzeroAt xs w = nonzeroAt ys w

/-- Sweeps tell what runs depend on: where arguments agree off a mark, the outputs agree off the
same mark. The lists give the lengths of the inputs and outputs. -/
def TracksDependencies (inputs outputs : List Nat)
    (sweep : List (List Taint) → List (List Taint) → Prop)
    (run : List (List T) → List (List T) → Prop) : Prop :=
  ∀ seeds args args', seeds.map List.length = inputs → args.map List.length = inputs →
    args'.map List.length = inputs → ∃ marks outs outs', sweep seeds marks ∧ run args outs ∧
      run args' outs' ∧ marks.map List.length = outputs ∧ outs.map List.length = outputs ∧
      outs'.map List.length = outputs ∧
      ∀ b, AgreeOff b seeds args args' → AgreeOff b marks outs outs'

namespace Semantics

variable [Scalar α] [Element Id α T] {s : System α} {memory : Prop}

theorem testBit_run (h : s.Semantics memory) (b : Nat) {seeds : List (List (Marked α Taint))}
    (hlen : seeds.map List.length = s.inputs.map Pattern.nnz) {w : Nat × Nat} {t : Taint}
    (ht : nonzeroAt (h.run seeds) w = some t) :
    t.toNat.testBit b = true ↔
      ∃ v ∈ h.sources w, ∃ u : Taint, nonzeroAt seeds v = some u ∧ u.toNat.testBit b = true :=
  h.mark_run (Q := fun t => t.toNat.testBit b = true) (by simp)
    (fun a c => by simp [UInt64.toNat_or]) hlen ht

theorem agreeOff_run (h : s.Semantics memory) {b : Nat} {seeds : List (List (Marked α Taint))}
    {args args' : List (List T)} (hseeds : seeds.map List.length = s.inputs.map Pattern.nnz)
    (hargs : args.map List.length = s.inputs.map Pattern.nnz)
    (hargs' : args'.map List.length = s.inputs.map Pattern.nnz)
    (hagree : AgreeOff b seeds args args') :
    AgreeOff b (h.run (T := Marked α Taint) seeds) (h.run args) (h.run args') := by
  intro w t ht hclear
  refine h.run_congr hargs hargs' fun v hv => ?_
  cases hu : nonzeroAt seeds v with
  | none =>
    -- outside of the inputs there is nothing to agree on
    have hout {xs : List (List T)} (hxs : xs.map List.length = s.inputs.map Pattern.nnz) :
        nonzeroAt xs v = none := by
      refine Option.eq_none_iff_forall_ne_some.2 fun x hx => ?_
      obtain ⟨t, ht⟩ := exists_nonzeroAt_of_lengths (hxs.trans hseeds.symm) hx
      cases hu.symm.trans ht
    rw [hout hargs, hout hargs']
  | some u =>
    refine hagree v u hu (Bool.eq_false_iff.2 fun hbit => ?_)
    rw [(h.testBit_run b hseeds ht).2 ⟨v, hv, u, hu, hbit⟩] at hclear
    cases hclear

/-- What a semantics says of sweeps and runs makes the sweeps track the dependencies. -/
theorem tracksDependencies (h : s.Semantics memory) {inputs outputs : List Nat}
    (hin : s.inputs.map Pattern.nnz = inputs) (hout : s.outputs.map Pattern.nnz = outputs)
    {sweep : List (List Taint) → List (List Taint) → Prop}
    (hsweep : ∀ seeds : List (List Taint), seeds.map List.length = inputs →
      sweep seeds (h.run (T := Marked α Taint) seeds))
    {run : List (List T) → List (List T) → Prop}
    (hrun : ∀ args : List (List T), args.map List.length = inputs → run args (h.run args)) :
    TracksDependencies inputs outputs sweep run := by
  subst hin hout
  intro seeds args args' hseeds hargs hargs'
  exact ⟨_, _, _, hsweep seeds hseeds, hrun args hargs, hrun args' hargs',
    h.map_length_run (T := Marked α Taint) hseeds, h.map_length_run hargs, h.map_length_run hargs',
    fun b hagree => h.agreeOff_run hseeds hargs hargs' hagree⟩

end Semantics

/-- The marks of a forward sweep are a sound dependency analysis, for every function over matrix
or scalar expressions and elements of every type. -/
theorem taint_sound [Scalar α] [Element Id α T] {n : Nat} {S : Set (Expr α)} {f : Function α}
    (hS : IsDag S) (hf : f.CompiledFrom S) {G : Set (Term α)} {g : TermFunction α}
    (hG : IsTermGraph n G) (hg : g.Compiled G) :
    TracksDependencies (T := T) (f.inputs.map Expr.nnz) (f.outputs.map Expr.nnz)
      (fun seeds marks => f.taintForward seeds = .ok marks)
      (fun args outs => (f.run args : ExceptT GraphError Id _) = pure outs) ∧
    TracksDependencies (T := T) (g.inputPatterns.map Pattern.nnz)
      (g.outputPatterns.map Pattern.nnz)
      (fun seeds marks => Delivers g.FitsMemory (g.taintForward seeds) marks)
      (fun args outs => Delivers g.FitsMemory (g.run args : ExceptT FunctionError Id _) outs) := by
  have hlengths := TermFunction.lengths_of_compile hg.compile
  constructor
  · have htyped := hf.typed hS
    exact htyped.semantics.tracksDependencies f.map_nnz_inputs
      (List.map_map : (f.outputs.map Expr.pattern).map Pattern.nnz = _)
      (fun seeds hseeds => htyped.taintForward_eq_flow hseeds)
      fun args hargs => htyped.run_eq_flow hargs
  · refine (TermFunction.semantics hG hg).tracksDependencies rfl rfl
      (fun seeds hseeds => (TermFunction.semantics hG hg).taint hseeds) fun args hargs => ?_
    have hrun := TermFunction.run_eq hG hg (hargs.trans hlengths.1.symm)
    exact ⟨fun hm => hrun.trans (if_pos hm), fun hm => hrun.trans (if_neg hm)⟩

/-- The squares of two numbers, marked on the first one only. -/
theorem taint_sound_square :
    let x : Expr Rat := .node 0 (.symbol "x") [] (.column 2) []
    let p : Expr Rat := .node 1 (.binary .mul .none) [x, x] (.column 2) []
    let s : Term Rat := .symbol 0 "s"
    let t : Term Rat := .symbol 1 "t"
    let q : List (Term Rat) := [.binary 2 .mul s s, .binary 3 .mul t t]
    ∃ f g, Function.compile "f" [x] [p] = .ok f ∧
      TermFunction.compile "g" [[s, t]] [.column 2] [q] [.column 2] = .ok g ∧
      f.taintForward [[1, 0]] = .ok [[1, 0]] ∧ g.taintForward [[1, 0]] = .ok [[1, 0]] ∧
      (∃ outs outs', f.evaluate [[3, 5]] = .ok outs ∧ f.evaluate [[4, 5]] = .ok outs' ∧
        nonzeroAt outs (0, 1) = nonzeroAt outs' (0, 1)) ∧
      ∃ outs outs', g.evaluate [[3, 5]] = .ok outs ∧ g.evaluate [[4, 5]] = .ok outs' ∧
        nonzeroAt outs (0, 1) = nonzeroAt outs' (0, 1) := by
  intro x p s t q
  obtain ⟨hf, hS, hcompiled⟩ := Function.compile_squares
  let f : Function Rat :=
    ⟨"f", [x], [p], [⟨p, [0, 0], [some 1]⟩], #[.column 2, .column 2], [0], [1]⟩
  let g : TermFunction Rat := ⟨"g", [[s, t]], [q], [.column 2], [.column 2],
    ⟨[.loadVar 0, .loadVar 0, .binary .mul, .write 0, .loadVar 1, .loadVar 1, .binary .mul,
      .write 1], 0⟩⟩
  have hg : TermFunction.compile "g" [[s, t]] [.column 2] [q] [.column 2] = .ok g := by cbv
  have hG : IsTermGraph 4 (insert (.binary 3 .mul t t) (insert (.binary 2 .mul s s)
      (insert t (insert s ∅)))) := by
    refine .insert (.insert (.insert (.insert (.empty 0) rfl ?_) rfl ?_) rfl ?_) rfl ?_ <;>
      simp [Term.operands, s, t]
  have hgraph : g.Compiled (insert (.binary 3 .mul t t) (insert (.binary 2 .mul s s)
      (insert t (insert s ∅)))) :=
    ⟨by simp [g], by simp [g, q], hg⟩
  have hagree : AgreeOff 0 [[1, 0]] [[(3 : Rat), 5]] [[4, 5]] := by
    rintro ⟨_ | i, _ | _ | k⟩ u hu hclear
    · cases hu
      simp at hclear
    all_goals rfl
  obtain ⟨hfun, hterm⟩ := taint_sound (T := Rat) hS.isDag hcompiled.compiledFrom hG hgraph
  have hmarks : f.taintForward [[1, 0]] = .ok [[1, 0]] := by cbv
  have hmarks' : g.taintForward [[1, 0]] = .ok [[1, 0]] := by cbv
  have hfit : g.FitsMemory := by decide
  refine ⟨f, g, hf, hg, hmarks, hmarks', ?_, ?_⟩
  · obtain ⟨marks, outs, outs', hsweep, hout, hout', -, -, -, htrack⟩ :=
      hfun [[1, 0]] [[3, 5]] [[4, 5]] rfl rfl rfl
    obtain rfl := Except.ok.inj (hsweep.symm.trans hmarks)
    exact ⟨outs, outs', hout, hout', htrack 0 hagree (0, 1) 0 rfl (by decide)⟩
  · obtain ⟨marks, outs, outs', hsweep, hout, hout', -, -, -, htrack⟩ :=
      hterm [[1, 0]] [[3, 5]] [[4, 5]] rfl rfl rfl
    obtain rfl := Except.ok.inj ((hsweep.1 hfit).symm.trans hmarks')
    exact ⟨outs, outs', hout.1 hfit, hout'.1 hfit, htrack 0 hagree (0, 1) 0 rfl (by decide)⟩
end System

end DiffGraph
