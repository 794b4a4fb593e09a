import Mathlib
import DiffGraph.Proofs.Derivative.Seeds
import DiffGraph.Proofs.Function.Flow
import DiffGraph.Proofs.Term.Compile

/-!
# What evaluations accept

A typed function checks how many arguments it gets and how long they are, and nothing else
can go wrong (`Function.Typed.run_eq`). An evaluation along directions joins the arguments
with seeds before they are checked, and what a seed has no room for is left out
(`Function.cut`). So with directions every argument list is accepted that covers the inputs,
while without them it has to fit (`Function.evaluateForward_checks`).
-/

namespace DiffGraph

open Element TermFunction

theorem Dual.values_seeded_eq_take {α : Type} (values derivs : List α) :
    Dual.values (seeded values derivs) = values.take derivs.length := by
  induction values generalizing derivs with
  | nil => simp [seeded, Dual.values]
  | cons v vs ih =>
    cases derivs with
    | nil => rfl
    | cons d ds => exact congrArg (v :: ·) (ih ds)

theorem exists_error_map_iff {ε β γ : Type} {x : Except ε β} {g : β → γ} :
    (∃ e, x.map g = .error e) ↔ ∃ e, x = .error e := by
  cases x <;> simp [Except.map]

namespace Function

/-! ## Without directions -/

section Runs

variable {α T : Type} [Scalar α] [Element Id α T] {f : Function α}

theorem run_of_refused {args : List (List T)} {e : GraphError}
    (h : checkCounts (f.inputs.map Expr.nnz) (args.map List.length) = .error e) :
    (f.run args : ExceptT GraphError Id _) = throw e := by
  unfold run
  rw [function_checkLengths_eq, h]

/-- Nothing but the number and the lengths of the arguments is checked. -/
theorem Typed.run_eq (hf : f.Typed) (args : List (List T)) :
    (f.run args : ExceptT GraphError Id _) =
      (checkCounts (f.inputs.map Expr.nnz) (args.map List.length)).map fun _ => f.flow args := by
  by_cases hargs : args.map List.length = f.inputs.map Expr.nnz
  · rw [hf.run_eq_flow hargs, hargs, checkCounts_self]
    rfl
  · obtain ⟨e, he, -⟩ := checkCounts_eq_error hargs
    rw [run_of_refused he, he]
    rfl

end Runs

variable {α : Type} {f : Function α} {args d : List (List α)} {seeds : List (List (List α))}

/-- The arguments without those that are no inputs', and without what is longer than the
inputs. -/
def cut (f : Function α) (args : List (List α)) : List (List α) :=
  List.zipWith (fun a x => a.take x.nnz) args f.inputs

def Covered (f : Function α) (args : List (List α)) : Prop :=
  List.Forall₂ (fun x a => x.nnz ≤ a.length) f.inputs (args.take f.inputs.length)

theorem map_length_cut_iff :
    (f.cut args).map List.length = f.inputs.map Expr.nnz ↔ f.Covered args := by
  unfold cut Covered
  generalize f.inputs = xs
  induction xs generalizing args with
  | nil => simp
  | cons x xs ih =>
    cases args with
    | nil => simp
    | cons a args =>
      rw [List.zipWith_cons_cons, List.map_cons, List.map_cons, List.cons_eq_cons, ih,
        List.length_take, min_eq_left_iff, List.length_cons, List.take_succ_cons,
        List.forall₂_cons]

theorem cut_eq_self (h : args.map List.length = f.inputs.map Expr.nnz) : f.cut args = args := by
  unfold cut
  generalize f.inputs = xs at h
  induction xs generalizing args with
  | nil => simpa using (List.map_eq_nil_iff.1 h).symm
  | cons x xs ih =>
    cases args with
    | nil => cases h
    | cons a args =>
      obtain ⟨ha, hargs⟩ := List.cons.inj h
      rw [List.zipWith_cons_cons, ih hargs, ← ha, List.take_length]

theorem map_values_seeded (hd : d.map List.length = f.inputs.map Expr.nnz) :
    (List.zipWith Dual.seeded args d).map Dual.values = f.cut args := by
  have hzip : f.cut args = List.zipWith List.take (f.inputs.map Expr.nnz) args := by
    rw [cut, List.zipWith_map_left, List.zipWith_comm]
  rw [hzip, ← hd, List.zipWith_map_left, List.zipWith_comm, List.map_zipWith]
  exact congrArg (fun g => List.zipWith g d args)
    (funext₂ fun s a => Dual.values_seeded_eq_take a s)

variable [Scalar α]

/-- Arguments of the declared lengths have a value, and others are refused, which is no misuse. -/
theorem Typed.evaluate_spec (hf : f.Typed) (args : List (List α)) :
    args.map List.length = f.inputs.map Expr.nnz ∧ f.evaluate args = .ok (f.flow args) ∨
      args.map List.length ≠ f.inputs.map Expr.nnz ∧
        ∃ e, f.evaluate args = .error e ∧ e ≠ .misuse := by
  by_cases hargs : args.map List.length = f.inputs.map Expr.nnz
  · exact .inl ⟨hargs, hf.run_eq_flow hargs⟩
  · obtain ⟨e, he, hne⟩ := checkCounts_eq_error hargs
    exact .inr ⟨hargs, e, run_of_refused he, hne⟩

theorem Typed.exists_error_iff (hf : f.Typed) :
    (∃ e, f.evaluate args = .error e) ↔ args.map List.length ≠ f.inputs.map Expr.nnz := by
  rcases hf.evaluate_spec args with ⟨hfits, hok⟩ | ⟨hne, e, he, -⟩
  · exact ⟨fun ⟨e, he⟩ => (nomatch hok.symm.trans he), fun hne => absurd hfits hne⟩
  · exact ⟨fun _ => hne, fun _ => ⟨e, he⟩⟩

/-! ## With directions -/

def derivsAlong (f : Function α) (args d : List (List α)) : List (List α) :=
  (f.flow (List.zipWith Dual.seeded args d)).map Dual.derivs

/-- Along a direction the function is evaluated at what is left of the arguments. -/
theorem Typed.evaluateDirection_eq (hf : f.Typed) (args : List (List α))
    (hd : d.map List.length = f.inputs.map Expr.nnz) :
    f.evaluateDirection args d =
      (f.evaluate (f.cut args)).map fun out => (out, f.derivsAlong args d) := by
  have hvalues : (List.zipWith Dual.seeded args d).map Dual.values = f.cut args :=
    map_values_seeded hd
  have hlengths : (List.zipWith Dual.seeded args d).map List.length =
      (f.cut args).map List.length := by
    rw [← hvalues, List.map_map]
    exact List.map_congr_left fun a _ => (List.length_map _).symm
  have hflow : f.flow (f.cut args) =
      (f.flow (List.zipWith Dual.seeded args d)).map Dual.values := by
    rw [← hvalues]
    exact flow_map isElementMap_value f _
  have hrun : f.evaluate (f.cut args) = _ := hf.run_eq (f.cut args)
  have hdual : f.evaluateDual (List.zipWith Dual.seeded args d) = _ :=
    hf.run_eq (List.zipWith Dual.seeded args d)
  unfold evaluateDirection
  rw [checkLengths_eq_ok hd, hdual, hrun, hlengths, hflow]
  cases checkCounts (f.inputs.map Expr.nnz) ((f.cut args).map List.length) <;> rfl

theorem Typed.mapM_evaluateDirection (hf : f.Typed)
    (hseeds : ∀ d ∈ seeds, d.map List.length = f.inputs.map Expr.nnz) {out : List (List α)}
    (hout : f.evaluate (f.cut args) = .ok out) :
    seeds.mapM (f.evaluateDirection args) =
      .ok (seeds.map fun d => (out, f.derivsAlong args d)) := by
  induction seeds with
  | nil => rfl
  | cons d ds ih =>
    obtain ⟨hd, hds⟩ := List.forall_mem_cons.1 hseeds
    rw [List.mapM_cons, hf.evaluateDirection_eq args hd, hout, ih hds]
    rfl

/-- With directions the function is evaluated at what is left of the arguments. -/
theorem Typed.evaluateForward_eq (hf : f.Typed) (args : List (List α))
    (hseeds : ∀ d ∈ seeds, d.map List.length = f.inputs.map Expr.nnz) (hne : seeds ≠ []) :
    f.evaluateForward args seeds =
      (f.evaluate (f.cut args)).map fun out => (out, seeds.map (f.derivsAlong args)) := by
  obtain ⟨d, ds, rfl⟩ := List.exists_cons_of_ne_nil hne
  unfold evaluateForward
  dsimp only
  cases hcut : f.evaluate (f.cut args) with
  | error e =>
    rw [List.mapM_cons, hf.evaluateDirection_eq args (hseeds d List.mem_cons_self), hcut]
    rfl
  | ok out =>
    rw [hf.mapM_evaluateDirection hseeds hcut]
    dsimp only [bind, Except.bind, pure, Except.pure, Except.map]
    rw [List.getLast?_map, List.getLast?_cons, List.map_map]
    rfl

/-- An evaluation along directions is an evaluation at what it uses of the arguments: all of them
if there are no directions, and otherwise what the seeds have room for. So it is refused where
the evaluation is, unless there are directions and the arguments cover the inputs. Where both
have results, they are the same. -/
theorem evaluateForward_checks {S : Set (Expr α)} (hS : IsDag S) (hf : f.CompiledFrom S)
    (args : List (List α)) (hseeds : ∀ d ∈ seeds, d.map List.length = f.inputs.map Expr.nnz) :
    (match f.evaluateForward args seeds with
      | .error e => e ≠ .misuse ∧
        f.evaluate (if seeds = [] then args else f.cut args) = .error e
      | .ok (out, sens) => sens.length = seeds.length ∧
        f.evaluate (if seeds = [] then args else f.cut args) = .ok out) ∧
    ((∃ e, f.evaluateForward args seeds = .error e) ↔
      (∃ e, f.evaluate args = .error e) ∧ (seeds = [] ∨ ¬ f.Covered args)) ∧
    ∀ out, f.evaluate args = .ok out →
      ∃ sens, f.evaluateForward args seeds = .ok (out, sens) := by
  have htyped := hf.typed hS
  have hforward : f.evaluateForward args seeds =
      (f.evaluate (if seeds = [] then args else f.cut args)).map fun out =>
        (out, seeds.map (f.derivsAlong args)) := by
    split
    · rename_i hnil
      rw [hnil]
      rfl
    · exact htyped.evaluateForward_eq args hseeds ‹_›
  have hcovered (hfits : args.map List.length = f.inputs.map Expr.nnz) : f.Covered args :=
    map_length_cut_iff.1 ((congrArg (List.map List.length) (cut_eq_self hfits)).trans hfits)
  rw [hforward]
  refine ⟨?_, ?_, fun out hout => ?_⟩
  · rcases htyped.evaluate_spec (if seeds = [] then args else f.cut args) with
      ⟨-, hok⟩ | ⟨-, e, he, hne⟩
    · rw [hok]
      exact ⟨List.length_map _, rfl⟩
    · rw [he]
      exact ⟨hne, rfl⟩
  · rw [exists_error_map_iff, htyped.exists_error_iff, htyped.exists_error_iff]
    split
    · rename_i hnil
      simp [hnil]
    · rename_i hne
      rw [Ne, map_length_cut_iff]
      exact ⟨fun h => ⟨mt hcovered h, .inr h⟩, fun h => h.2.resolve_left hne⟩
  · rcases htyped.evaluate_spec args with ⟨hfits, -⟩ | ⟨-, e, he, -⟩
    · rw [cut_eq_self hfits, ite_self, hout]
      exact ⟨_, rfl⟩
    · cases hout.symm.trans he

/-- The square of a number at a buffer of two: the evaluation along a direction takes the first
of them, the other evaluation refuses both. -/
theorem evaluateForward_checks_square :
    let x : Expr Rat := .node 0 (.symbol "x") [] .scalar []
    let y : Expr Rat := .node 1 (.binary .mul .none) [x, x] .scalar []
    ∃ f, compile "square" [x] [y] = .ok f ∧
      f.evaluate [[2, 5]] = .error (.nonzeroCount 0 1 2) ∧ f.Covered [[2, 5]] ∧
      f.evaluateForward [[2, 5]] [[[1]]] = .ok ([[4]], [[[4]]]) ∧ f.evaluate [[2]] = .ok [[4]] := by
  intro x y
  have hx : Built 1 [x] := .symbol "x" _ .start
  have hG : Built 2 [y, x] := .make (.binary .mul x x) hx (by simp [Construction.operands]) rfl
  let f : Function Rat :=
    ⟨"square", [x], [y], [⟨y, [0, 0], [some 1]⟩], #[.scalar, .scalar], [0], [1]⟩
  have hf : compile "square" [x] [y] = .ok f := by cbv
  obtain ⟨hS, hfrom⟩ := compiledFrom_of_built hG.withHandles (by simp) (by simp) hf
  have hforward : f.evaluateForward [[2, 5]] [[[1]]] = .ok ([[4]], [[[4]]]) := by cbv
  have hseeds : ∀ d ∈ [[[(1 : Rat)]]], d.map List.length = f.inputs.map Expr.nnz :=
    fun d hd => by rw [List.mem_singleton.1 hd]; rfl
  obtain ⟨hspec, -, -⟩ := evaluateForward_checks hS hfrom [[2, 5]] hseeds
  rw [hforward] at hspec
  exact ⟨f, hf, by cbv, .cons (by decide) .nil, hforward, hspec.2⟩

end Function

end DiffGraph
