import Mathlib
import DiffGraph.Proofs.Collocation.Integrator

/-!
# The collocation system of an integrator

`residual_correct`: the residual of a new integrator is the collocation system of its
problem, whose polynomials go through the states of their element. Growth at a
constant rate (`Growth.problem`) is the running example.
-/

namespace DiffGraph

open Expr

/-! ## Growth at a constant rate -/

namespace Growth

def x : Expr Rat :=
  .node 0 (.symbol "x") [] .scalar []

def p : Expr Rat :=
  .node 1 (.symbol "p") [] .scalar []

def t : Expr Rat :=
  .node 2 (.symbol "t") [] .scalar []

def slope : Expr Rat :=
  .node 3 (.binary .mul .none) [p, x] .scalar []

def one : Expr Rat :=
  .node 4 (.constant [1]) [] .scalar []

/-- The state `x` grows at the rate `p`; the quadrature is one. -/
def problem : Function Rat :=
  ⟨"growth", [x, p, t], [slope, one], [⟨slope, [1, 0], [some 3]⟩, ⟨one, [], [some 4]⟩],
    #[.scalar, .scalar, .scalar, .scalar, .scalar], [0, 1, 2], [3, 4]⟩

def setup : CollocationOptions Rat :=
  { CollocationOptions.default with
    elements := 1, degree := 1, solverOptions := ⟨10, 1 / 1000, 1 / 1000, 1⟩ }

theorem built : Built 5 [one, slope, t, p, x] := by
  have hx : Built 1 [x] := .symbol "x" _ .start
  have hp : Built 2 [p, x] := .symbol "p" _ hx
  have ht : Built 3 [t, p, x] := .symbol "t" _ hp
  have hslope : Built 4 [slope, t, p, x] :=
    .make (.binary .mul p x) ht (by simp [Construction.operands]) rfl
  exact .make (.constant [1] .scalar) hslope (by simp [Construction.operands]) rfl

theorem compile_problem : Function.compile "growth" [x, p, t] [slope, one] = .ok problem := by
  cbv

theorem exists_compiled : ∃ S, IsGraph 5 S ∧ problem.Compiled S :=
  ⟨_, Function.compiled_of_built built (by simp) (by simp) compile_problem⟩

def rx : Expr Rat :=
  .node 5 (.symbol "rx") [] .scalar []

def rp : Expr Rat :=
  .node 6 (.symbol "rp") [] .scalar []

def backwardSlope : Expr Rat :=
  .node 7 (.binary .mul .none) [rp, rx] .scalar []

/-- A backward state `rx` that changes at the rate `rp`. -/
def backward : Function Rat :=
  ⟨"backward growth", [rx, rp, x, p, t], [backwardSlope], [⟨backwardSlope, [1, 0], [some 5]⟩],
    #[.scalar, .scalar, .scalar, .scalar, .scalar, .scalar], [0, 1, 2, 3, 4], [5]⟩

def twoElements : CollocationOptions Rat :=
  { setup with elements := 2, tf := 2 }

theorem exists_compiled_backward :
    ∃ S, IsGraph 8 S ∧ problem.Compiled S ∧ backward.Compiled S := by
  have hrx : Built 6 [rx, one, slope, t, p, x] := .symbol "rx" _ built
  have hrp : Built 7 [rp, rx, one, slope, t, p, x] := .symbol "rp" _ hrx
  have hslope : Built 8 [backwardSlope, rp, rx, one, slope, t, p, x] :=
    .make (.binary .mul rp rx) hrp (by simp [Construction.operands]) rfl
  have hbackward : Function.compile "backward growth" [rx, rp, x, p, t] [backwardSlope] =
      .ok backward := by
    cbv
  obtain ⟨hS, hf⟩ := Function.compiled_of_built hslope (by simp) (by simp) compile_problem
  exact ⟨_, hS, hf, (Function.compiled_of_built hslope (by simp) (by simp) hbackward).2⟩

end Growth

/-! ## The collocation system -/

namespace Collocation

/-- What a function finds out about a new integrator. -/
def probe {β : Type} (f : Function Rat) (g : Option (Function Rat))
    (options : CollocationOptions Rat) (n : Nat) (ask : Collocation Rat → Option β) : Option β :=
  (create f g options n).toOption.bind fun (c, _) => ask c

theorem exists_of_probe {β : Type} {f : Function Rat} {g : Option (Function Rat)}
    {options : CollocationOptions Rat} {n : Nat} {ask : Collocation Rat → Option β} {b : β}
    (h : probe f g options n ask = some b) :
    ∃ c n', create f g options n = .ok (c, n') ∧ ask c = some b := by
  obtain ⟨⟨c, n'⟩, hcreate, hask⟩ := Option.bind_eq_some_iff.1 h
  exact ⟨c, n', ok_of_toOption hcreate, hask⟩

/-- The sizes of a new integrator and its residual at the arguments, if that is a matrix
function. -/
def sample (f : Function Rat) (g : Option (Function Rat)) (options : CollocationOptions Rat)
    (n : Nat) (args : List (List Rat)) :
    Option (ForwardSizes × BackwardSizes × List (List Rat)) :=
  (create f g options n).toOption.bind fun (c, _) =>
    match c.residual with
    | .matrix r => (r.evaluate args).toOption.map (c.fwd, c.bwd, ·)
    | .scalar _ => none

theorem exists_of_sample {f : Function Rat} {g : Option (Function Rat)}
    {options : CollocationOptions Rat} {n : Nat} {args outs : List (List Rat)} {fwd : ForwardSizes}
    {bwd : BackwardSizes} (h : sample f g options n args = some (fwd, bwd, outs)) :
    ∃ c n', create f g options n = .ok (c, n') ∧ c.fwd = fwd ∧ c.bwd = bwd ∧
      c.residual.FitsMemory ∧ c.residual.system.eval args = .ok outs := by
  obtain ⟨⟨c, n'⟩, hcreate, h⟩ := Option.bind_eq_some_iff.1 h
  refine ⟨c, n', ok_of_toOption hcreate, ?_⟩
  dsimp only at h
  split at h
  · rename_i r hr
    obtain ⟨outs', hout, h⟩ := Option.map_eq_some_iff.1 h
    obtain ⟨hfwd, hbwd, rfl⟩ : c.fwd = fwd ∧ c.bwd = bwd ∧ outs' = outs := by simpa using h
    rw [hr]
    exact ⟨hfwd, hbwd, trivial,
      congrArg (Except.mapError FunctionError.graph) (ok_of_toOption hout)⟩
  · cases h

variable {α : Type} [ExactNumerals α] {n : Nat} {S : Set (Expr α)} {f : Function α}
  {g : Option (Function α)} {options : CollocationOptions α}

/-- The first output of the residual is the collocation system, block by block; its polynomials go
through the states of their element. The form of the residual makes no difference. -/
theorem residual_correct (hS : IsGraph n S) (hf : f.Compiled S)
    (hg : ∀ g', g = some g' → g'.Compiled S) (expand : Bool) {c : Collocation α} {n' : Nat}
    (h : create f g { options with expand } n = .ok (c, n')) :
    Problem.forwardSizes f = .ok c.fwd ∧
    (∀ g', g = some g' → Problem.backwardSizes g' c.fwd = .ok c.bwd) ∧
    ∃ points : List α, options.scheme.points options.degree = .ok points ∧
      ∀ v x0 p rx0 rp : List α, [v, x0, p, rx0, rp].map List.length = c.argumentLengths options →
        let s := transcription f g options c.fwd c.bwd points v x0 p rx0 rp
        (∀ states k i, (s.curve states k i).natDegree ≤ options.degree ∧
          ∀ j ≤ options.degree, (s.curve states k i).eval (s.point j) = states (s.index k j) i) ∧
        ∃ outs, Delivers c.residual.FitsMemory (c.residual.system.eval [v, x0, p, rx0, rp]) outs ∧
          outs[0]? = some s.blocks.flatten := by
  obtain ⟨d, hd, hfwd, hbwd, -, -, hspec⟩ := residual_spec hS hf hg h
  refine ⟨hfwd ▸ hd.fwd, fun g' hg' => ?_, d.points, hd.points, fun v x0 p rx0 rp hargs => ?_⟩
  · rw [hfwd, hbwd]
    exact hd.bwd g' hg'
  · obtain ⟨outs, hrun, houts⟩ := hspec v x0 p rx0 rp hargs
    have hnodup := Scheme.nodup_points hd.points
    have hlen := Scheme.length_points hd.points
    refine ⟨fun states k i => ⟨?_, fun j hj => ?_⟩, outs, hrun, houts.residual⟩
    · exact Transcription.natDegree_curve_le _ hnodup hlen states k i
    · exact Transcription.eval_curve _ hnodup hlen states k i hj

/-- Two elements with a forward and a backward state: at the collocation points the rates against
the slopes, and between the elements the differences of the states. -/
theorem residual_correct_growth :
    ∃ c n' points, create Growth.problem (some Growth.backward) Growth.twoElements 8 =
        .ok (c, n') ∧
      Growth.twoElements.scheme.points 1 = (.ok points : Except (Failure Rat) _) ∧
      c.residual.system.eval [[1, 2, 3, 4, 5, 6, 7, 8], [1], [3], [2], [1]] =
        .ok [[5, 1, 2, 2, 16, 5, 2, -5], [2], []] ∧
      (transcription Growth.problem (some Growth.backward) Growth.twoElements c.fwd c.bwd points
        [1, 2, 3, 4, 5, 6, 7, 8] [1] [3] [2] [1]).blocks.flatten = [5, 1, 2, 2, 16, 5, 2, -5] := by
  obtain ⟨S, hS, hf, hg⟩ := Growth.exists_compiled_backward
  have hsample : sample Growth.problem (some Growth.backward) Growth.twoElements 8
      [[1, 2, 3, 4, 5, 6, 7, 8], [1], [3], [2], [1]] =
      some (⟨1, 1, 1, true⟩, ⟨1, 1, 0⟩, [[5, 1, 2, 2, 16, 5, 2, -5], [2], []]) := by
    cbv
  obtain ⟨c, n', hcreate, hfwd, hbwd, hmemory, hout⟩ := exists_of_sample hsample
  obtain ⟨-, -, points, hpoints, hspec⟩ := @residual_correct Rat _ 8 S Growth.problem
    (some Growth.backward) Growth.twoElements hS hf (by rintro _ ⟨⟩; exact hg)
    Growth.twoElements.expand c n' hcreate
  obtain ⟨-, outs, hdelivers, hblocks⟩ := hspec [1, 2, 3, 4, 5, 6, 7, 8] [1] [3] [2] [1] (by
    rw [argumentLengths, hfwd, hbwd]
    rfl)
  obtain rfl := Except.ok.inj (hout.symm.trans (hdelivers.1 hmemory))
  exact ⟨c, n', points, hcreate, hpoints, hout, (Option.some.inj hblocks).symm⟩

end Collocation

end DiffGraph
