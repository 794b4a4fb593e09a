import Mathlib
import DiffGraph.Proofs.Function.Directions
import DiffGraph.Proofs.System.Jacobian

/-!
# What Jacobians accept

A system refuses arguments of other numbers or lengths than its inputs, on numbers and on dual
numbers alike (`System.Computes.refuses`). A Jacobian leaves the refusal to its sweeps. There
is none if the input has no nonzeros, so that all arguments pass. Otherwise the sweeps refuse
what the evaluation refuses, unless the argument of the input is longer than the table of the
colours, in which it is looked up first (`System.jacobian_checks`).
-/

namespace DiffGraph

open Element TermFunction

theorem TermFunction.run_of_refused {α T : Type} [Scalar α] [Element Id α T] {g : TermFunction α}
    {args : List (List T)} {e : GraphError}
    (h : checkCounts (g.inputs.map List.length) (args.map List.length) = .error e) :
    (g.run args : ExceptT FunctionError Id _) = throw (.graph e) := by
  unfold TermFunction.run
  rw [checkLengths_eq_checkCounts, h]

namespace System

variable {α : Type} [Scalar α] {s : System α} {memory : Prop}

/-- Systems of compiled functions, with the memory that they need to run. The expressions of a
function may be any, and so may its outputs. -/
inductive Computes : System α → Prop → Prop
  | function {f : Function α} {S : Set (Expr α)} :
    IsDag S → f.CompiledFrom S → Computes f.system True
  | terms {g : TermFunction α} {n : Nat} {G : Set (Term α)} :
    IsTermGraph n G → g.Compiled G → Computes g.system g.FitsMemory

namespace Computes

theorem exists_semantics (hs : s.Computes memory) : Nonempty (s.Semantics memory) := by
  cases hs with
  | function hS hf => exact ⟨(hf.typed hS).semantics⟩
  | terms hG hg => exact ⟨TermFunction.semantics hG hg⟩

theorem refuses (hs : s.Computes memory) {lengths : List Nat}
    (h : lengths ≠ s.inputs.map Pattern.nnz) :
    ∃ e : FunctionError, e ≠ .misuse ∧
      (∀ args : List (List α), args.map List.length = lengths → s.eval args = .error e) ∧
      ∀ args : List (List (Dual α)), args.map List.length = lengths →
        s.evalDual args = .error e := by
  obtain ⟨e, he, hne⟩ := checkCounts_eq_error h
  refine ⟨.graph e, fun hmisuse => hne (FunctionError.graph.inj hmisuse), ?_⟩
  cases hs with
  | @function f S hS hf =>
    rw [f.map_nnz_inputs] at he
    exact ⟨fun args hargs => congrArg (Except.mapError FunctionError.graph)
        (Function.run_of_refused (hargs.symm ▸ he)),
      fun args hargs => congrArg (Except.mapError FunctionError.graph)
        (Function.run_of_refused (hargs.symm ▸ he))⟩
  | @terms g n G hG hg =>
    have hlengths : g.inputs.map List.length = g.system.inputs.map Pattern.nnz :=
      (lengths_of_compile hg.compile).1
    rw [← hlengths] at he
    exact ⟨fun args hargs => run_of_refused (hargs.symm ▸ he),
      fun args hargs => run_of_refused (hargs.symm ▸ he)⟩

end Computes

variable {iind oind : Nat} {x y p : Pattern} {args : List (List α)}

theorem exists_jacobian_of_empty (hp : s.jacobianPattern iind oind = .ok p) (hcols : p.ncols = 0) :
    ∃ J, s.jacobian iind oind args = .ok J := by
  have hnil : p.coloring = [] := List.eq_nil_of_length_eq_zero (by simp [hcols])
  unfold jacobian
  rw [hp]
  dsimp only [bind, Except.bind]
  rw [hnil]
  exact ⟨_, rfl⟩

/-- Otherwise the first sweep decides. -/
theorem jacobian_of_error (hp : s.jacobianPattern iind oind = .ok p) (hcols : p.ncols ≠ 0)
    {e : FunctionError}
    (h : s.derivativesAlong iind oind args p.coloring.toArray 0 = .error e) :
    s.jacobian iind oind args = .error e := by
  obtain ⟨color, hcolor⟩ := List.exists_mem_of_ne_nil p.coloring fun hnil => by
    rw [← p.length_coloring, hnil] at hcols
    exact hcols rfl
  obtain ⟨count, hcount⟩ := Nat.exists_eq_add_one_of_ne_zero
    (Nat.ne_of_gt (Nat.lt_of_le_of_lt (Nat.zero_le color) (Pattern.lt_colorCount hcolor)))
  unfold jacobian
  rw [hp]
  dsimp only [bind, Except.bind]
  rw [hcount, List.range_succ_eq_map, List.mapM_cons, h]
  rfl

/-- With the memory that it needs, a Jacobian has a value for all arguments if the input has no
nonzeros. Otherwise it has one exactly for the arguments that the system can be evaluated at, and
others are refused as the evaluation refuses them; an argument that is longer than the input is
a misuse. -/
theorem jacobian_checks (hs : s.Computes memory) (hm : memory) (hx : s.inputs[iind]? = some x)
    (hy : s.outputs[oind]? = some y) (hfits : x.nnz < Size.listLimit) (args : List (List α)) :
    (x.nnz = 0 → ∃ J, s.jacobian iind oind args = .ok J) ∧
      (x.nnz ≠ 0 → match s.eval args with
        | .ok _ => ∃ J, s.jacobian iind oind args = .ok J
        | .error e => e ≠ .misuse ∧ s.jacobian iind oind args =
          .error (if x.nnz < (args[iind]?.getD []).length then .misuse else e)) := by
  obtain ⟨h⟩ := hs.exists_semantics
  have hpattern := h.jacobianPattern_spec hx hy
  cases hp : s.jacobianPattern iind oind with
  | error e =>
    rw [hp] at hpattern
    exact absurd ⟨hm, hfits⟩ hpattern.2
  | ok p =>
    rw [hp] at hpattern
    have hcols : p.ncols = x.nnz := congrArg Prod.snd hpattern.2.2.1
    refine ⟨fun hzero => exists_jacobian_of_empty hp (hcols.trans hzero), fun hpos => ?_⟩
    by_cases hargs : args.map List.length = s.inputs.map Pattern.nnz
    · rw [(h.eval hargs).1 hm]
      exact ⟨_, h.jacobian_eq hx hy hargs hp hcols (.inr hm)⟩
    · obtain ⟨e, hne, heval, hdual⟩ := hs.refuses hargs
      rw [heval args rfl]
      refine ⟨hne, jacobian_of_error hp (hcols ▸ hpos) ?_⟩
      have hsize : p.coloring.toArray.size = x.nnz := by simp [hcols]
      have hlength : (args[iind]?.map List.length).getD 0 = (args[iind]?.getD []).length := by
        cases args[iind]? <;> rfl
      have hseeds : (colorSeeds args iind p.coloring.toArray 0).map List.length =
          args.map List.length := by rw [colorSeeds_eq, map_length_seeded]
      unfold derivativesAlong
      rw [hsize, hlength, hdual _ hseeds]
      split <;> rfl

/-- A square by its operand and by an input without nonzeros, at two numbers for the operand. -/
theorem jacobian_checks_square :
    let x : Expr Rat := .node 0 (.symbol "x") [] .scalar []
    let z : Expr Rat := .node 1 (.symbol "z") [] (.column 0) []
    let y : Expr Rat := .node 2 (.binary .mul .none) [x, x] .scalar []
    ∃ f, Function.compile "square" [x, z] [y] = .ok f ∧ f.system.Computes True ∧
      f.system.eval [[1, 2], []] = .error (.graph (.nonzeroCount 0 1 2)) ∧
      f.system.jacobian 0 0 [[1, 2], []] = .error .misuse ∧
      ∃ J, f.system.jacobian 1 0 [[1, 2], []] = .ok J := by
  intro x z y
  have hx : Built 1 [x] := .symbol "x" _ .start
  have hz : Built 2 [z, x] := .symbol "z" _ hx
  have hG : Built 3 [y, z, x] := .make (.binary .mul x x) hz (by simp [Construction.operands]) rfl
  let f : Function Rat := ⟨"square", [x, z], [y], [⟨y, [0, 0], [some 2]⟩],
    #[.scalar, .column 0, .scalar], [0, 1], [2]⟩
  have hf : Function.compile "square" [x, z] [y] = .ok f := by cbv
  obtain ⟨hS, hcompiled⟩ := Function.compiled_of_built hG (by simp) (by simp) hf
  have hs : f.system.Computes True := .function hS.isDag hcompiled.compiledFrom
  have heval : f.system.eval [[1, 2], []] = .error (.graph (.nonzeroCount 0 1 2)) := by cbv
  have hout : f.system.outputs[0]? = some .scalar := rfl
  obtain ⟨-, hpos⟩ := jacobian_checks hs trivial
    (show f.system.inputs[0]? = some .scalar from rfl) hout (by decide) [[1, 2], []]
  obtain ⟨hempty, -⟩ := jacobian_checks hs trivial
    (show f.system.inputs[1]? = some (.column 0) from rfl) hout (by decide) [[1, 2], []]
  have hmisuse := hpos (by decide)
  rw [heval] at hmisuse
  exact ⟨f, hf, hs, heval, hmisuse.2, hempty rfl⟩

end System

end DiffGraph
