import Mathlib
import DiffGraph.Proofs.Derivative.Seeds
import DiffGraph.Proofs.Term.Marks
import DiffGraph.System.Basic

/-!
# What systems compute

A system of a compiled function runs in one way on elements of every type
(`System.Semantics`): its evaluations on numbers and dual numbers and its
dependency sweeps all are that run, and maps between element types commute with
it. So whatever the operations preserve holds of the outputs if it holds of the
arguments (`Semantics.forall_run`), between two runs too (`Semantics.forall₂_run`).
-/

namespace DiffGraph

open Element

/-! ## Elements made of elements -/

section Elements

variable {α T U : Type} [Element Id α T] [Element Id α U]

instance : Element Id α (T × U) where
  ofScalar x := (ofNumber x, ofNumber x)
  unary op x := (apply₁ op x.1, apply₁ op x.2)
  binary op x y := (apply₂ op x.1 y.1, apply₂ op x.2 y.2)

theorem isElementMap_fst : IsElementMap (Prod.fst : T × U → T) :=
  ⟨fun _ => rfl, fun _ _ => rfl, fun _ _ _ => rfl⟩

theorem isElementMap_snd : IsElementMap (Prod.snd : T × U → U) :=
  ⟨fun _ => rfl, fun _ _ => rfl, fun _ _ _ => rfl⟩

/-- A property of elements that numbers have and the operations preserve. -/
structure IsElementProperty (P : T → Prop) : Prop where
  ofNumber (x : α) : P (ofNumber x)
  apply₁ (op : UnaryOp) {x : T} : P x → P (apply₁ op x)
  apply₂ (op : BinaryOp) {x y : T} : P x → P y → P (apply₂ op x y)

abbrev IsElementProperty.element {P : T → Prop} (h : IsElementProperty P) :
    Element Id α {x // P x} where
  ofScalar x := (⟨Element.ofNumber x, h.ofNumber x⟩ : {x // P x})
  unary op x := (⟨Element.apply₁ op x.1, h.apply₁ op x.2⟩ : {x // P x})
  binary op x y := (⟨Element.apply₂ op x.1 y.1, h.apply₂ op x.2 y.2⟩ : {x // P x})

end Elements

theorem exists_pairs {T U : Type} {R : T → U → Prop} {args : List (List T)} {args' : List (List U)}
    (h : List.Forall₂ (List.Forall₂ R) args args') :
    ∃ pairs : List (List (T × U)), pairs.map (List.map Prod.fst) = args ∧
      pairs.map (List.map Prod.snd) = args' ∧ ∀ ps ∈ pairs, ∀ p ∈ ps, R p.1 p.2 := by
  induction h with
  | nil => exact ⟨[], rfl, rfl, by simp⟩
  | @cons xs ys _ _ hxy _ ih =>
    obtain ⟨pairs, rfl, rfl, hpairs⟩ := ih
    refine ⟨xs.zip ys :: pairs, ?_, ?_, List.forall_mem_cons.2 ⟨fun p hp => ?_, hpairs⟩⟩
    · rw [List.map_cons, List.map_fst_zip hxy.length_eq.le]
    · rw [List.map_cons, List.map_snd_zip hxy.length_eq.ge]
    · exact (List.forall₂_iff_zip.1 hxy).2 hp

/-! ## Computations that do not look into the elements -/

/-- A computation on buffers that commutes with maps between element types. -/
structure Uniform {α : Type} (run : {T : Type} → [Element Id α T] → List (List T) → List (List T)) :
    Prop where
  map_run : ∀ {T U : Type} [Element Id α T] [Element Id α U] {h : T → U}, IsElementMap h →
    ∀ args : List (List T), run (args.map (List.map h)) = (run args).map (List.map h)

namespace Uniform

variable {α T U : Type} [Element Id α T] [Element Id α U]
  {run : {T : Type} → [Element Id α T] → List (List T) → List (List T)}

/-- What the operations preserve passes from the arguments to the results. -/
theorem forall_run (hrun : Uniform run) {P : T → Prop} (hP : IsElementProperty P)
    {args : List (List T)} (hargs : ∀ xs ∈ args, ∀ x ∈ xs, P x) :
    ∀ ys ∈ run args, ∀ y ∈ ys, P y := by
  let _ := hP.element
  have hval : IsElementMap (Subtype.val : {x // P x} → T) :=
    ⟨fun _ => rfl, fun _ _ => rfl, fun _ _ _ => rfl⟩
  lift args to List (List {x // P x}) using hargs
  rw [hrun.map_run hval]
  intro ys hys y hy
  obtain ⟨zs, -, rfl⟩ := List.mem_map.1 hys
  obtain ⟨z, -, rfl⟩ := List.mem_map.1 hy
  exact z.2

/-- What the operations preserve between two kinds of elements passes from the arguments of two
computations to their results. -/
theorem forall₂_run (hrun : Uniform run) {R : T → U → Prop}
    (hR : IsElementProperty fun p : T × U => R p.1 p.2) {args : List (List T)}
    {args' : List (List U)} (hargs : List.Forall₂ (List.Forall₂ R) args args') :
    List.Forall₂ (List.Forall₂ R) (run args) (run args') := by
  obtain ⟨pairs, rfl, rfl, hpairs⟩ := exists_pairs hargs
  rw [hrun.map_run isElementMap_fst, hrun.map_run isElementMap_snd]
  refine List.forall₂_map_left_iff.2 (List.forall₂_map_right_iff.2 (List.forall₂_same.2 ?_))
  refine fun ps hps => List.forall₂_map_left_iff.2 (List.forall₂_map_right_iff.2 ?_)
  exact List.forall₂_same.2 (hrun.forall_run hR hpairs ps hps)

end Uniform

/-! ## Semantics -/

/-- The memory decides between a value and a misuse. -/
def Delivers {β : Type} (memory : Prop) (r : Except FunctionError β) (v : β) : Prop :=
  (memory → r = .ok v) ∧ (¬ memory → r = .error .misuse)

/-- What has been returned is the value that was promised. -/
theorem Delivers.eq_of_ok {β : Type} {memory : Prop} {r : Except FunctionError β} {v w : β}
    (h : Delivers memory r v) (hr : r = .ok w) : w = v := by
  by_cases hm : memory
  · exact Except.ok.inj (hr.symm.trans (h.1 hm))
  · cases hr.symm.trans (h.2 hm)

namespace System

/-- How a system computes on elements of every type, if there is the memory for it. -/
structure Semantics {α : Type} [Scalar α] (s : System α) (memory : Prop) where
  run : {T : Type} → [Element Id α T] → List (List T) → List (List T)
  map_run : ∀ {T U : Type} [Element Id α T] [Element Id α U] {h : T → U}, IsElementMap h →
    ∀ args : List (List T), run (args.map (List.map h)) = (run args).map (List.map h)
  map_length_run : ∀ {T : Type} [Element Id α T] {args : List (List T)},
    args.map List.length = s.inputs.map Pattern.nnz →
      (run args).map List.length = s.outputs.map Pattern.nnz
  eval : ∀ {args : List (List α)}, args.map List.length = s.inputs.map Pattern.nnz →
    Delivers memory (s.eval args) (run args)
  evalDual : ∀ {args : List (List (Dual α))}, args.map List.length = s.inputs.map Pattern.nnz →
    Delivers memory (s.evalDual args) (run args)
  taint : ∀ {seeds : List (List (Marked α Taint))},
    seeds.map List.length = s.inputs.map Pattern.nnz →
      Delivers memory (s.taint seeds) (run (T := Marked α Taint) seeds)

namespace Semantics

variable {α T U : Type} [Scalar α] [Element Id α T] [Element Id α U] {s : System α} {memory : Prop}

theorem exists_run_cons (h : s.Semantics memory) {q : Pattern} (hq : s.outputs[0]? = some q)
    {args : List (List T)} (hargs : args.map List.length = s.inputs.map Pattern.nnz) :
    ∃ ys rest, h.run args = ys :: rest ∧ ys.length = q.nnz := by
  have hlen := congrArg (·[0]?) (h.map_length_run hargs)
  simp only [List.getElem?_map, hq, Option.map_some] at hlen
  obtain ⟨ys, hys, hlen⟩ := Option.map_eq_some_iff.1 hlen
  obtain ⟨rest, hrun⟩ := List.head?_eq_some_iff.1 (List.head?_eq_getElem? ▸ hys)
  exact ⟨ys, rest, hrun, hlen⟩

theorem uniform_run (h : s.Semantics memory) : Uniform h.run :=
  ⟨h.map_run⟩

/-- What the operations preserve passes from the arguments to the outputs. -/
theorem forall_run (h : s.Semantics memory) {P : T → Prop} (hP : IsElementProperty P)
    {args : List (List T)} (hargs : ∀ xs ∈ args, ∀ x ∈ xs, P x) :
    ∀ ys ∈ h.run args, ∀ y ∈ ys, P y :=
  h.uniform_run.forall_run hP hargs

theorem forall₂_run (h : s.Semantics memory) {R : T → U → Prop}
    (hR : IsElementProperty fun p : T × U => R p.1 p.2) {args : List (List T)}
    {args' : List (List U)} (hargs : List.Forall₂ (List.Forall₂ R) args args') :
    List.Forall₂ (List.Forall₂ R) (h.run args) (h.run args') :=
  h.uniform_run.forall₂_run hR hargs

end Semantics

end System

/-! ## Systems of compiled functions -/

section Functions

variable {α T U : Type} [Scalar α] [Element Id α T] [Element Id α U] {n : Nat}

namespace Function

theorem assign_map {h : T → U} (hh : IsElementMap h) (inputs : List (Expr α))
    (args : List (List T)) (x : Nat) (k : Nat) :
    assign inputs (args.map (List.map h)) x k = h (assign inputs args x k) := by
  unfold assign
  rw [List.zip_map_right, ← List.map_reverse, List.find?_map]
  have hfind : ((fun s => decide (s.1.id = x)) ∘ Prod.map id (List.map h) :
      Expr α × List T → Bool) = fun s => decide (s.1.id = x) := rfl
  rw [hfind]
  cases (inputs.zip args).reverse.find? fun s => s.1.id = x with
  | none => exact (hh.ofNumber 0).symm
  | some xa => exact hh.nth_map xa.2 k

theorem map_nnz_inputs (f : Function α) :
    f.system.inputs.map Pattern.nnz = f.inputs.map Expr.nnz :=
  List.map_map

omit [Scalar α] in
theorem Compiled.compiledFrom {f : Function α} {S : Set (Expr α)} (h : f.Compiled S) :
    f.CompiledFrom S :=
  ⟨h.inputs, fun o ho => (h.outputs o ho).1, h.compile⟩

def Typed.semantics {f : Function α} (hf : f.Typed) : f.system.Semantics True where
  run := f.flow
  map_run hh := flow_map hh f
  map_length_run hargs := (hf.map_length_flow (hargs.trans f.map_nnz_inputs)).trans
    List.map_map.symm
  eval hargs := ⟨fun _ => congrArg (Except.mapError FunctionError.graph)
    (hf.run_eq_flow (hargs.trans f.map_nnz_inputs)), fun hn => absurd trivial hn⟩
  evalDual hargs := ⟨fun _ => congrArg (Except.mapError FunctionError.graph)
    (hf.run_eq_flow (hargs.trans f.map_nnz_inputs)), fun hn => absurd trivial hn⟩
  taint hseeds := ⟨fun _ => congrArg (Except.mapError FunctionError.graph)
    (hf.taintForward_eq_flow (hseeds.trans f.map_nnz_inputs)), fun hn => absurd trivial hn⟩

def semantics {f : Function α} {S : Set (Expr α)} (hS : IsGraph n S) (h : f.Compiled S) :
    f.system.Semantics True where
  run args := f.outputs.map (Expr.nonzeros (assign f.inputs args))
  map_run hh args := by
    rw [List.map_map]
    exact List.map_congr_left fun o ho => hh.nonzeros_map hS
      (fun x _ _ k => assign_map hh f.inputs args x.id k) (h.outputs o ho).1
  map_length_run _ := by
    refine List.map_map.trans (Eq.trans ?_ List.map_map.symm)
    exact List.map_congr_left fun o ho => hS.length_nonzeros (h.outputs o ho).1
  eval hargs := by
    obtain ⟨hgraph, slot, hlayout⟩ := h.exists_layout hS
    refine ⟨fun _ => ?_, fun hn => absurd trivial hn⟩
    exact congrArg (Except.mapError FunctionError.graph)
      (run_eq hlayout hgraph (hargs.trans f.map_nnz_inputs))
  evalDual hargs := by
    obtain ⟨hgraph, slot, hlayout⟩ := h.exists_layout hS
    refine ⟨fun _ => ?_, fun hn => absurd trivial hn⟩
    exact congrArg (Except.mapError FunctionError.graph)
      (run_eq hlayout hgraph (hargs.trans f.map_nnz_inputs))
  taint hseeds := by
    obtain ⟨hgraph, slot, hlayout⟩ := h.exists_layout hS
    refine ⟨fun _ => ?_, fun hn => absurd trivial hn⟩
    have hlens := hseeds.trans f.map_nnz_inputs
    have htyped := h.compiledFrom.typed hS.isDag
    exact congrArg (Except.mapError FunctionError.graph) ((htyped.taintForward_eq_flow hlens).trans
      ((htyped.run_eq_flow hlens).symm.trans (run_eq hlayout hgraph hlens)))

end Function

namespace TermFunction

theorem assign_map {h : T → U} (hh : IsElementMap h) (inputs : List (Term α)) (values : List T)
    (x : Nat) : assign inputs (values.map h) x = h (assign inputs values x) := by
  unfold assign
  rw [List.zip_map_right, ← List.map_reverse, List.find?_map]
  have hfind : ((fun s => decide (s.1.id = x)) ∘ Prod.map id h : Term α × T → Bool) =
      fun s => decide (s.1.id = x) := rfl
  rw [hfind]
  cases (inputs.zip values).reverse.find? fun s => s.1.id = x with
  | none => exact (hh.ofNumber 0).symm
  | some xv => rfl

omit [Scalar α] in
theorem eval_map {h : T → U} (hh : IsElementMap h) {env : Nat → T} {env' : Nat → U}
    (henv : ∀ id, env' id = h (env id)) (t : Term α) : t.eval env' = h (t.eval env) := by
  induction t with
  | constant id x => exact (hh.ofNumber x).symm
  | symbol id name => exact henv id
  | unary id op x ih => exact (congrArg (apply₁ op) ih).trans (hh.apply₁ op _).symm
  | binary id op x y ihx ihy => exact (congrArg₂ (apply₂ op) ihx ihy).trans (hh.apply₂ op _ _).symm

def semantics {g : TermFunction α} {G : Set (Term α)} (hG : IsTermGraph n G) (h : g.Compiled G) :
    g.system.Semantics g.FitsMemory where
  run args := g.outputs.map (List.map (Term.eval (assign g.inputs.flatten args.flatten)))
  map_run hh args := by
    rw [List.map_map]
    refine List.map_congr_left fun o _ => ?_
    rw [Function.comp_apply, List.map_map, ← List.map_flatten]
    exact List.map_congr_left fun t _ => eval_map hh (fun id => assign_map hh _ _ id) t
  map_length_run _ := by
    rw [List.map_map]
    refine Eq.trans ?_ (lengths_of_compile h.compile).2
    exact List.map_congr_left fun o _ => List.length_map _
  eval hargs := by
    have hrun := run_eq hG h (hargs.trans (lengths_of_compile h.compile).1.symm)
    exact ⟨fun hm => hrun.trans (if_pos hm), fun hm => hrun.trans (if_neg hm)⟩
  evalDual hargs := by
    have hrun := run_eq hG h (hargs.trans (lengths_of_compile h.compile).1.symm)
    exact ⟨fun hm => hrun.trans (if_pos hm), fun hm => hrun.trans (if_neg hm)⟩
  taint hseeds := by
    have hrun := taintForward_eq hG h (hseeds.trans (lengths_of_compile h.compile).1.symm)
    exact ⟨fun hm => hrun.trans (if_pos hm), fun hm => hrun.trans (if_neg hm)⟩

end TermFunction

end Functions

end DiffGraph
