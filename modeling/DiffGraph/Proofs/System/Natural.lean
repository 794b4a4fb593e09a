import Mathlib
import DiffGraph.Proofs.Function.Interpret
import DiffGraph.Proofs.System.Directions
import DiffGraph.Proofs.Term.Correct

/-!
# Evaluation is natural

Functions do on elements of every kind what they do on plain ones (`NaturalRun`),
on arguments of any sizes and whether they succeed or not. Applied to the values
of dual numbers this says that directions have no influence on values; applied to
tuples of dual numbers that share their values, that derivatives are linear in
the directions (`NaturalRun.linear`).
-/

namespace DiffGraph

open Element System

section Runs

variable {α ε : Type}
  {run : {m : Type → Type} → [Monad m] → {T : Type} → [Element m α T] → List (List T) →
    ExceptT ε m (List (List T))}

/-- A computation on buffers of any kind of elements that does in `m` what it does on plain
elements. -/
structure NaturalRun (run : {m : Type → Type} → [Monad m] → {T : Type} → [Element m α T] →
    List (List T) → ExceptT ε m (List (List T))) : Prop where
  resembles : ∀ {m : Type → Type} [Monad m] [LawfulMonad m] {T V : Type} [Element m α T]
    [Element Id α V] {view : T → V}, Interprets m view → ∀ args : List (List T),
      Resembles (fun outs outs' => outs.map (List.map view) = outs')
        (run args : ExceptT ε m _) (run (args.map (List.map view)))

def outcome (run : {m : Type → Type} → [Monad m] → {T : Type} → [Element m α T] →
    List (List T) → ExceptT ε m (List (List T))) {T : Type} [Element Id α T]
    (args : List (List T)) : Except ε (List (List T)) :=
  Id.run (run args : ExceptT ε Id _).run

theorem IsElementMap.interprets {T U : Type} [Element Id α T] [Element Id α U] {h : T → U}
    (hh : IsElementMap h) : Interprets Id h where
  ofScalar x := SatisfiesM_Id_eq.2 (hh.ofNumber x)
  unary op x := SatisfiesM_Id_eq.2 (hh.apply₁ op x)
  binary op x y := SatisfiesM_Id_eq.2 (hh.apply₂ op x y)

/-- Evaluating and then mapping is mapping and then evaluating. -/
theorem NaturalRun.map_outcome (hrun : NaturalRun run) {T U : Type} [Element Id α T]
    [Element Id α U] {h : T → U} (hh : IsElementMap h) (args : List (List T)) :
    (outcome run args).map (List.map (List.map h)) = outcome run (args.map (List.map h)) := by
  have hsame := hrun.resembles hh.interprets args
  rw [Resembles, SatisfiesM_Id_eq] at hsame
  exact sameResult_map_iff.1 hsame

end Runs

/-! ## Linearity -/

section Linear

variable {α ε ι : Type} [ExactField α]

/-- Dual numbers with the values of the parts; their derivatives are the combination of those of
the parts. -/
structure IsCombination (D : Finset ι) (c : ι → α) (parts : ι → List (List (Dual α)))
    (whole : List (List (Dual α))) : Prop where
  values : ∀ d ∈ D, (parts d).map Dual.values = whole.map Dual.values
  derivs : ∀ w, derivAt whole w = ∑ d ∈ D, c d * derivAt (parts d) w

/-- The evaluation takes combinations of directions to combinations of derivatives, or fails for
all directions alike. -/
def LinearInDirections
    (evaluateDual : List (List (Dual α)) → Except ε (List (List (Dual α)))) : Prop :=
  ∀ {ι : Type} (D : Finset ι) (c : ι → α) (parts : ι → List (List (Dual α)))
    (whole : List (List (Dual α))), IsCombination D c parts whole →
      (∃ outs out, (∀ d ∈ D, evaluateDual (parts d) = .ok (outs d)) ∧ evaluateDual whole = .ok out ∧
        IsCombination D c outs out) ∨
      ∃ e, (∀ d ∈ D, evaluateDual (parts d) = .error e) ∧ evaluateDual whole = .error e

/-- Dual numbers are their values in the direction of their derivatives. -/
theorem seeded_values (duals : List (List (Dual α))) :
    seeded (duals.map Dual.values) (derivAt duals) = duals := by
  refine eq_of_forall₂_eq (forall₂_of_nonzeroAt ?_ fun w x y hx hy => ?_)
  · simp [Dual.values, List.map_map, Function.comp_def]
  · rw [nonzeroAt_seeded, show duals.map Dual.values = duals.map (List.map Dual.value) from rfl,
      nonzeroAt_map, hy] at hx
    obtain rfl := Option.some.inj hx
    simp [derivAt, hy]

variable {run : {m : Type → Type} → [Monad m] → {T : Type} → [Element m α T] → List (List T) →
    ExceptT ε m (List (List T))}

def returned {T : Type} [Element Id α T]
    (run : {m : Type → Type} → [Monad m] → {T : Type} → [Element m α T] → List (List T) →
      ExceptT ε m (List (List T))) (args : List (List T)) : List (List T) :=
  match outcome run args with
  | .ok outs => outs
  | .error _ => []

omit [ExactField α] in
theorem NaturalRun.uniform_returned (hrun : NaturalRun run) : Uniform (returned run) where
  map_run hh args := by
    unfold returned
    rw [← hrun.map_outcome hh]
    cases outcome run args <;> rfl

/-- Values decide whether dual numbers can be evaluated. -/
theorem NaturalRun.outcome_of_values (hrun : NaturalRun run) {duals : List (List (Dual α))}
    {args : List (List α)} (h : duals.map Dual.values = args) :
    match outcome run args with
    | .ok _ => outcome run duals = .ok (returned run duals)
    | .error e => outcome run duals = .error e := by
  have hvalues := hrun.map_outcome isElementMap_value duals
  rw [← h, show duals.map Dual.values = duals.map (List.map Dual.value) from rfl, ← hvalues]
  unfold returned
  cases outcome run duals <;> rfl

/-- Natural computations are linear in the directions of dual numbers. -/
theorem NaturalRun.linear (hrun : NaturalRun run) :
    LinearInDirections fun duals : List (List (Dual α)) => outcome run duals := by
  intro ι D c parts whole hwhole
  have hparts (d : ι) (hd : d ∈ D) := hrun.outcome_of_values (hwhole.values d hd)
  have hall := hrun.outcome_of_values (rfl : whole.map Dual.values = _)
  cases hargs : outcome run (whole.map Dual.values) with
  | error e =>
    rw [hargs] at hall
    exact .inr ⟨e, fun d hd => by simpa only [hargs] using hparts d hd, hall⟩
  | ok outs =>
    rw [hargs] at hall
    refine .inl ⟨fun d => returned run (parts d), returned run whole,
      fun d hd => by simpa only [hargs] using hparts d hd, hall, fun d hd => ?_, fun w => ?_⟩
    · have hmap := hrun.uniform_returned.map_run (isElementMap_value (α := α))
      exact (hmap (parts d)).symm.trans
        ((congrArg (fun args => returned run args) (hwhole.values d hd)).trans (hmap whole))
    · have hsum := hrun.uniform_returned.derivAt_finset_sum (whole.map Dual.values) D c
        (fun d => derivAt (parts d)) w
      rw [← funext hwhole.derivs, seeded_values] at hsum
      rw [hsum]
      refine Finset.sum_congr rfl fun d hd => ?_
      rw [← hwhole.values d hd, seeded_values]

end Linear

/-! ## Functions of both kinds -/

theorem Function.naturalRun {α : Type} [Scalar α] (f : Function α) : NaturalRun f.run :=
  ⟨fun hview args => Function.resembles_run hview f args⟩

theorem TermFunction.naturalRun {α : Type} [Scalar α] (g : TermFunction α) : NaturalRun g.run :=
  ⟨fun hview args => TermFunction.resembles_run hview g args⟩

/-- Functions of both kinds do on elements of every kind what they do on plain ones, so maps
between element types commute with evaluation, and directions have no influence on values. In exact
arithmetic derivatives are linear in the directions. -/
theorem evaluate_natural_linear {α β : Type} [Scalar α] [ExactField β] :
    (∀ f : Function α, NaturalRun f.run ∧
      (∀ {T U : Type} [Element Id α T] [Element Id α U] {h : T → U}, IsElementMap h →
        ∀ args : List (List T),
          (outcome f.run args).map (List.map (List.map h)) =
            outcome f.run (args.map (List.map h))) ∧
      ∀ duals, (f.evaluateDual duals).map (List.map Dual.values) =
        f.evaluate (duals.map Dual.values)) ∧
    (∀ g : TermFunction α, NaturalRun g.run ∧
      (∀ {T U : Type} [Element Id α T] [Element Id α U] {h : T → U}, IsElementMap h →
        ∀ args : List (List T),
          (outcome g.run args).map (List.map (List.map h)) =
            outcome g.run (args.map (List.map h))) ∧
      ∀ duals, (g.evaluateDual duals).map (List.map Dual.values) =
        g.evaluate (duals.map Dual.values)) ∧
    (∀ f : Function β, LinearInDirections f.evaluateDual) ∧
    ∀ g : TermFunction β, LinearInDirections g.evaluateDual := by
  refine ⟨fun f => ⟨f.naturalRun, fun hh args => f.naturalRun.map_outcome hh args,
      fun duals => f.naturalRun.map_outcome isElementMap_value duals⟩,
    fun g => ⟨g.naturalRun, fun hh args => g.naturalRun.map_outcome hh args,
      fun duals => g.naturalRun.map_outcome isElementMap_value duals⟩,
    fun f => f.naturalRun.linear, fun g => g.naturalRun.linear⟩

/-- The square at 3, in the direction 7 that is twice the direction 1 and five times more. -/
theorem evaluate_natural_linear_square :
    let x : Expr Rat := .node 0 (.symbol "x") [] .scalar []
    let p : Expr Rat := .node 1 (.binary .mul .none) [x, x] .scalar []
    let f : Function Rat :=
      ⟨"f", [x], [p], [⟨p, [0, 0], [some 1]⟩], #[.scalar, .scalar], [0], [1]⟩
    ∃ part whole, f.evaluateDual [[⟨3, 1⟩]] = .ok part ∧ f.evaluateDual [[⟨3, 7⟩]] = .ok whole ∧
      part.map Dual.values = [[9]] ∧ derivAt part (0, 0) = 6 ∧
      derivAt whole (0, 0) = 2 * 6 + 5 * 6 := by
  intro x p f
  have hdirections : IsCombination Finset.univ (fun first : Bool => if first then 2 else 5)
      (fun _ => [[⟨3, 1⟩]]) [[(⟨3, 7⟩ : Dual Rat)]] := by
    refine ⟨fun d _ => rfl, ?_⟩
    rintro ⟨_ | i, _ | k⟩ <;> simp [derivAt, nonzeroAt]
    norm_num
  have hpart : f.evaluateDual [[⟨3, 1⟩]] = .ok [[⟨9, 6⟩]] := by cbv
  obtain ⟨outs, out, houts, hout, hsum⟩ | ⟨e, he, -⟩ :=
    (evaluate_natural_linear (α := Rat)).2.2.1 f _ _ _ _ hdirections
  · refine ⟨_, out, hpart, hout, rfl, rfl, (hsum.derivs (0, 0)).trans ?_⟩
    have hsame (d : Bool) : outs d = [[⟨9, 6⟩]] :=
      Except.ok.inj ((houts d (Finset.mem_univ d)).symm.trans hpart)
    simp [hsame, derivAt, nonzeroAt]
  · cases (he true (Finset.mem_univ true)).symm.trans hpart

end DiffGraph
