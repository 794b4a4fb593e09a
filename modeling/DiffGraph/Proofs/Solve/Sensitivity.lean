import Mathlib
import DiffGraph.Proofs.Solve.Elimination
import DiffGraph.Proofs.Solve.Failed
import DiffGraph.Proofs.System.Directions

/-!
# Sensitivities of solutions

With the sensitivity of the solution as its direction the unknown keeps the residual where it
is: along the seeds alone the residual varies by `b`, along the unknown by its Jacobian, and
the sensitivity solves the Jacobian for `-b` (`Newton.derivs_residual`). So in every state that
a solver can be in, a solve leaves the sensitivities in its table that the implicit function
theorem asks for (`Newton.evaluate_sensitivities`).
-/

namespace DiffGraph

open Element System

namespace LU

/-- Solving with a factorisation returns solutions. -/
def Solves (α : Type) [ExactOrderedField α] : Prop :=
  ∀ (n : Nat) (rows : Array (Array α)) (b x : List α), IsTable n rows → b.length = n →
    (factor rows).solve b = .ok x →
      ∀ r < n, ∑ c ∈ Finset.range n, entry rows r c * x[c]?.getD 0 = b[r]?.getD 0

theorem solves_of_measuresZero {α : Type} [ExactOrderedField α] (h : MeasuresZero α) : Solves α :=
  fun _ _ _ _ htable hb hx => solve_correct h htable hb hx

/-- Only a system without equations has no unknowns. -/
theorem solve_eq_noUnknowns {α : Type} [OrderedScalar α] {lu : LU α} (h : lu.rows.size = 0)
    (b : List α) : lu.solve b = .error .noUnknowns := by
  unfold solve
  rw [if_pos (by simpa using h)]
  rfl

theorem length_of_solve {α : Type} [OrderedScalar α] {n : Nat} {rows : Array (Array α)}
    {b x : List α} (h : IsTable n rows) (hb : b.length = n)
    (hx : (factor rows).solve b = .ok x) : x.length = n := by
  have hsize : (factor rows).rows.size = n := by rw [size_factor, h.size]
  have hne : (factor rows).rows.size ≠ 0 := by
    intro hzero
    rw [solve_eq_noUnknowns hzero] at hx
    cases hx
  exact ((solve_spec hne _).2 x hx).trans hb

end LU

namespace Newton

section Sensitivities

variable {α : Type} [ExactOrderedField α] {n : Newton α} {memory : Prop} {x dx : List α}
  {seeds : List (List α)} {lu : LU α}

/-- The derivatives of the unknown and of the inputs, nonzero by nonzero. -/
def direction (dx : List α) (seeds : List (List α)) (w : Nat × Nat) : α :=
  (nonzeroAt (dx :: seeds) w).getD 0

theorem direction_eq {k : Nat} (hdx : dx.length = k) (zeros : List α)
    (hzeros : ∀ d ∈ zeros, d = 0) (seeds : List (List α)) :
    direction dx seeds = fun w => ∑ c ∈ Finset.range k, dx[c]?.getD 0 * unit (0, c) w +
      direction zeros seeds w := by
  funext ⟨i, c⟩
  cases i with
  | zero =>
    have hzero : direction zeros seeds (0, c) = 0 := by
      show zeros[c]?.getD 0 = 0
      cases hc : zeros[c]? with
      | none => rfl
      | some d => exact hzeros d (List.mem_of_getElem? hc)
    rw [hzero, add_zero]
    show dx[c]?.getD 0 = _
    have hterm (c' : Nat) : dx[c']?.getD 0 * unit (0, c') (0, c) =
        if c = c' then dx[c']?.getD 0 else 0 := by
      simp [unit]
    rw [Finset.sum_congr rfl fun c' _ => hterm c', Finset.sum_ite_eq]
    split
    · rfl
    · rename_i hc
      rw [List.getElem?_eq_none (by simpa [hdx] using hc)]
      rfl
  | succ i =>
    have hterm (c' : Nat) : dx[c']?.getD 0 * unit (0, c') (i + 1, c) = 0 := by
      simp [unit]
    rw [Finset.sum_eq_zero fun c' _ => hterm c', zero_add]
    rfl

theorem dualArgs_eq (h : (n.dualArgs x dx seeds).map List.length =
    (x :: n.inputs).map List.length) :
    n.dualArgs x dx seeds = seeded (x :: n.inputs) (direction dx seeds) :=
  @zipWith_seeded α _ (x :: n.inputs) (dx :: seeds) h

theorem exists_of_sensitivity {sens : List (List α)} (h : n.sensitivity lu x seeds = .ok sens) :
    ∃ part y total, n.system.evalDual (n.dualArgs x (x.map fun _ => 0) seeds) = .ok part ∧
      lu.solve (Dual.derivs (part.headD [])) = .ok y ∧
      n.system.evalDual (n.dualArgs x (y.map fun v => -v) seeds) = .ok total ∧
      sens = (y.map fun v => -v) :: (total.drop 1).map Dual.derivs := by
  unfold sensitivity at h
  obtain ⟨part, hpart, h⟩ := ok_of_bind h
  split at h
  · cases h
  · cases h
  · rename_i y hy
    obtain ⟨total, htotal, h⟩ := ok_of_bind h
    exact ⟨part, y, total, ok_of_mapError hpart, hy, ok_of_mapError htotal,
      (Except.ok.inj h).symm⟩

/-- The rows that are factored hold the derivatives of the residual along the unknown. -/
theorem exists_of_factorize {s : System α} (h : s.Semantics memory) {k : Nat} {p q : Pattern}
    (hp : s.inputs[0]? = some p) (hpk : p.nnz = k) (hq : s.outputs[0]? = some q) (hqk : q.nnz = k)
    {args : List (List α)} (hargs : args.map List.length = s.inputs.map Pattern.nnz)
    (hfactor : factorize s args = .ok lu) :
    ∃ rows, lu = LU.factor rows ∧ LU.IsTable k rows ∧ ∀ r < k, ∀ c < k,
      LU.entry rows r c = derivAt (h.run (seeded args (unit (0, c)))) (0, r) := by
  unfold factorize ofSystem at hfactor
  cases hJ : s.jacobian 0 0 args with
  | error e =>
    rw [hJ] at hfactor
    cases hfactor
  | ok J =>
    rw [hJ] at hfactor
    obtain ⟨P, hP⟩ : ∃ P, s.jacobianPattern 0 0 = .ok P := by
      unfold jacobian at hJ
      exact ⟨_, (ok_of_bind hJ).choose_spec.1⟩
    obtain ⟨J', hJ', rfl, hvalues, hentry⟩ := h.jacobian_spec hp hq hP hargs
    obtain rfl := Except.ok.inj (hJ'.symm.trans hJ)
    have hspec := h.jacobianPattern_spec hp hq
    rw [hP] at hspec
    obtain ⟨htable, hrows⟩ := SparseMatrix.rows_spec hvalues (hpk ▸ hqk ▸ hspec.2.2.1)
    refine ⟨_, (Except.ok.inj hfactor).symm, htable, fun r hr c hc => ?_⟩
    rw [hrows, hentry r (hqk ▸ hr) c (hpk ▸ hc)]

theorem derivAt_cons (o : List (Dual α)) (rest : List (List (Dual α))) (c : Nat) :
    derivAt (o :: rest) (0, c) = (Dual.derivs o)[c]?.getD 0 := by
  rw [derivAt, Dual.derivs, List.getElem?_map]
  rfl

/-- Along the sensitivity of the solution the residual does not vary. -/
theorem derivs_residual (hs : n.system.IsCompiled memory) (hlu : LU.Solves α) {k : Nat}
    {p q : Pattern} (hp : n.system.inputs[0]? = some p) (hpk : p.nnz = k)
    (hq : n.system.outputs[0]? = some q) (hqk : q.nnz = k)
    (hargs : (x :: n.inputs).map List.length = n.system.inputs.map Pattern.nnz)
    (hfactor : factorize n.system (x :: n.inputs) = .ok lu) {sens : List (List α)}
    (hsens : n.sensitivity lu x seeds = .ok sens) :
    ∃ dx r rest, sens = dx :: rest.map Dual.derivs ∧
      n.system.evalDual (n.dualArgs x dx seeds) = .ok (r :: rest) ∧
      Dual.derivs r = List.replicate k 0 := by
  obtain ⟨h⟩ := hs.exists_semantics
  obtain ⟨rows, rfl, htable, hentry⟩ := exists_of_factorize h hp hpk hq hqk hargs hfactor
  obtain ⟨part, y, total, hpart, hy, htotal, rfl⟩ := exists_of_sensitivity hsens
  have hpartArgs := hs.lengths_of_evalDual hpart
  have htotalArgs := hs.lengths_of_evalDual htotal
  obtain ⟨b, others, hb, hbk⟩ := h.exists_run_cons hq hpartArgs
  obtain ⟨r, rest, hr, hrk⟩ := h.exists_run_cons hq htotalArgs
  obtain rfl := ((h.evalDual hpartArgs).eq_of_ok hpart).trans hb
  obtain rfl := ((h.evalDual htotalArgs).eq_of_ok htotal).trans hr
  rw [List.headD_cons] at hy
  have hbLen : (Dual.derivs b).length = k := (List.length_map _).trans (hbk.trans hqk)
  have hyLen := LU.length_of_solve htable hbLen hy
  have hsolve := hlu k rows (Dual.derivs b) y htable hbLen hy
  have hdx (j : Nat) : (y.map fun v => -v)[j]?.getD 0 = -(y[j]?.getD 0) := by
    cases hj : y[j]? <;> simp [hj]
  -- the derivative of the residual at row `c` is the linear system at the same row
  have hrow (c : Nat) (hc : c < k) : (Dual.derivs r)[c]?.getD 0 = 0 :=
    calc (Dual.derivs r)[c]?.getD 0
      _ = derivAt (h.run (seeded (x :: n.inputs) (direction (y.map fun v => -v) seeds))) (0, c) := by
        rw [← dualArgs_eq (htotalArgs.trans hargs.symm), hr, derivAt_cons]
      _ = ∑ j ∈ Finset.range k, (y.map fun v => -v)[j]?.getD 0 *
            derivAt (h.run (seeded (x :: n.inputs) (unit (0, j)))) (0, c) +
          derivAt (h.run (seeded (x :: n.inputs) (direction (x.map fun _ => 0) seeds))) (0, c) := by
        rw [direction_eq ((List.length_map _).trans hyLen) (x.map fun _ => 0) (by simp),
          h.derivAt_sum]
      _ = ∑ j ∈ Finset.range k, -(LU.entry rows c j * y[j]?.getD 0) +
          (Dual.derivs b)[c]?.getD 0 := by
        rw [← dualArgs_eq (hpartArgs.trans hargs.symm), hb, derivAt_cons]
        refine congrArg (· + _) (Finset.sum_congr rfl fun j hj => ?_)
        rw [hdx, hentry c hc j (Finset.mem_range.1 hj)]
        ring
      _ = 0 := by rw [Finset.sum_neg_distrib, hsolve c hc, neg_add_cancel]
  refine ⟨y.map fun v => -v, r, rest, rfl, htotal, ?_⟩
  refine List.eq_replicate_iff.2 ⟨(List.length_map _).trans (hrk.trans hqk), fun d hd => ?_⟩
  obtain ⟨c, hc⟩ := List.mem_iff_getElem?.1 hd
  have hck : c < (Dual.derivs r).length := (List.getElem?_eq_some_iff.1 hc).1
  rw [Dual.derivs, List.length_map, hrk, hqk] at hck
  simpa [hc] using hrow c hck

end Sensitivities

/-! ## States of solvers -/

section States

variable {α : Type} [OrderedScalar α] {n n' : Newton α} {s : System α} {options : NewtonOptions α}
  {lu : LU α} {x : List α} {directions : Nat}

/-- The states that a solver can be in: its inputs, outputs and seeds can be replaced by anything,
and it can be solved for any number of directions, with whatever result. -/
inductive Reachable (s : System α) (options : NewtonOptions α) : Newton α → Prop
  | create {n : Newton α} : create s options = .ok n → Reachable s options n
  | input {n n' : Newton α} (slot : Nat) (value : List α) :
    Reachable s options n → n.setInput slot value = .ok n' → Reachable s options n'
  | output {n : Newton α} (slot : Nat) (value : List α) :
    Reachable s options n → Reachable s options { n with outputs := n.outputs.set slot value }
  | seed {n : Newton α} (slot direction : Nat) (value : List α) :
    Reachable s options n → Reachable s options (n.setSeed slot direction value).1
  | evaluate {n : Newton α} (directions : Nat) :
    Reachable s options n → Reachable s options (n.evaluate directions).1

/-- A solver for the system, with sensitivities for every direction that has seeds. -/
structure Serves (s : System α) (n : Newton α) : Prop where
  system : n.system = s
  tables : n.seeds.length = n.sens.length

theorem Serves.withDirections (h : n.Serves s) (count : Nat) :
    (n.withDirections count).Serves s :=
  ⟨h.system, by simp [Newton.withDirections, h.tables]⟩

theorem length_sens_sensitivities (n : Newton α) (lu : LU α) (x : List α) (dirs : List Nat) :
    (n.sensitivities lu x dirs).1.sens.length = n.sens.length := by
  induction dirs generalizing n with
  | nil => rfl
  | cons dir dirs ih =>
    unfold sensitivities
    split
    · rfl
    · exact (ih _).trans List.length_set

theorem Serves.finish (h : n.Serves s) (directions : Nat) (x : List α) :
    (n.finish directions x).1.Serves s := by
  unfold Newton.finish
  dsimp only
  split
  · exact h
  · rename_i out _
    have hfirst : Newton.Serves s { n with outputs := x :: out.drop 1 } := ⟨h.system, h.tables⟩
    split
    · exact hfirst
    · have hmore := hfirst.withDirections directions
      split
      · exact hmore
      · rename_i lu _
        have hsame := sameProblem_sensitivities
          ({ n with outputs := x :: out.drop 1 }.withDirections directions) lu x
          (List.range directions)
        refine ⟨hsame.system.trans hmore.system, ?_⟩
        rw [hsame.seeds, length_sens_sensitivities]
        exact hmore.tables

theorem Serves.evaluate (h : n.Serves s) (directions : Nat) :
    (n.evaluate directions).1.Serves s := by
  unfold Newton.evaluate
  split
  · exact h
  · dsimp only
    split
    · exact ⟨h.system, h.tables⟩
    · exact Serves.finish (n := { n with stats := n.solve.1 }) ⟨h.system, h.tables⟩ _ _

/-- A solver that can be made has as many equations as unknowns, and serves its system ever
after. -/
theorem Reachable.serves (h : Reachable s options n) : n.Serves s ∧
    ∃ p q, s.inputs[0]? = some p ∧ s.outputs[0]? = some q ∧ p.nnz = q.nnz := by
  induction h with
  | create h =>
    obtain ⟨haligned, hsystem, -, -⟩ := aligned_create h
    refine ⟨⟨hsystem, haligned.tables⟩, ?_⟩
    unfold Newton.create at h
    split at h
    · rename_i p ps q qs hinputs houtputs
      rw [hinputs, houtputs]
      exact ⟨p, q, rfl, rfl, not_not.1 (ok_of_guard h).1⟩
    · cases h
  | input _ _ _ hset ih =>
    unfold setInput at hset
    split at hset
    · obtain rfl := Except.ok.inj hset
      exact ⟨⟨ih.1.system, ih.1.tables⟩, ih.2⟩
    · cases hset
  | output slot value _ ih => exact ⟨⟨ih.1.system, ih.1.tables⟩, ih.2⟩
  | seed slot direction value _ ih =>
    have hmore := ih.1.withDirections (direction + 1)
    refine ⟨?_, ih.2⟩
    unfold setSeed
    dsimp only
    split
    · exact ⟨hmore.system, by rw [List.length_modify]; exact hmore.tables⟩
    · exact hmore
  | evaluate directions _ ih => exact ⟨ih.1.evaluate directions, ih.2⟩

theorem evaluate_stored (htables : n.seeds.length = n.sens.length)
    (h : n.evaluate directions = (n', .ok ())) :
    ∃ x out, n.system.eval (x :: n.inputs) = .ok out ∧ n'.outputs = x :: out.drop 1 ∧
      n'.inputs = n.inputs ∧ n.seeds <+: n'.seeds ∧ ∀ dir < directions, ∃ lu seeds sens,
        factorize n.system (x :: n.inputs) = .ok lu ∧ n'.seeds[dir]? = some seeds ∧
          n.sensitivity lu x seeds = .ok sens ∧ n'.sens[dir]? = some sens := by
  unfold evaluate at h
  split at h
  · cases h
  dsimp only at h
  split at h
  · cases h
  rename_i x _
  unfold finish at h
  dsimp only at h
  split at h
  · cases h
  rename_i out hout
  refine ⟨x, out, ok_of_mapError hout, ?_⟩
  split at h
  · rename_i hzero
    obtain ⟨rfl, -⟩ := Prod.mk.inj h
    exact ⟨rfl, rfl, List.prefix_rfl, fun dir hdir => by omega⟩
  split at h
  · cases h
  rename_i lu hlu
  set m : Newton α := Newton.withDirections
    { n with stats := n.solve.1, outputs := x :: out.drop 1 } directions with hm
  rw [List.range_eq_range'] at h
  obtain ⟨k, -, hk, hdone, -⟩ := sensitivities_stored h
  have hsame := sameProblem_sensitivities m lu x (List.range' 0 directions)
  have houtputs := outputs_sensitivities m lu x (List.range' 0 directions)
  rw [h] at hsame houtputs
  refine ⟨houtputs, hsame.inputs, hsame.seeds ▸ List.prefix_append _ _, fun dir hdir => ?_⟩
  have hsens : dir < m.sens.length := by
    simp only [hm, withDirections, List.length_append, List.length_replicate]
    omega
  have hseeds : dir < m.seeds.length := by
    simp only [hm, withDirections, List.length_append, List.length_replicate]
    omega
  obtain ⟨sens, hown, hstored⟩ := hdone dir (Nat.zero_le _) (by omega)
  rw [List.getElem?_eq_getElem hseeds] at hown
  refine ⟨lu, m.seeds[dir], sens, hlu, ?_, hown, hstored hsens⟩
  rw [hsame.seeds, List.getElem?_eq_getElem hseeds]

end States

/-! ## The implicit function theorem -/

/-- A solve that ends well leaves the sensitivities that the implicit function theorem asks for, in
every state of a solver. In each of the directions, the residual has the derivative zero along the
sensitivity of the solution and the seeds of the direction, and the other sensitivities are the
derivatives of the other outputs. -/
theorem evaluate_sensitivities {α : Type} [ExactOrderedField α] (hlu : LU.Solves α) {s : System α}
    {memory : Prop} (hs : s.IsCompiled memory) {options : NewtonOptions α} {n n' : Newton α}
    (hn : Reachable s options n) {directions : Nat} (h : n.evaluate directions = (n', .ok ())) :
    ∃ x out, n'.outputs = x :: out ∧ n'.inputs = n.inputs ∧ n.seeds <+: n'.seeds ∧
      ∀ dir < directions, ∃ seeds dx r rest, n'.seeds[dir]? = some seeds ∧
        n'.sens[dir]? = some (dx :: rest.map Dual.derivs) ∧
        s.evalDual (n'.dualArgs x dx seeds) = .ok (r :: rest) ∧
        Dual.derivs r = List.replicate x.length 0 := by
  obtain ⟨⟨rfl, htables⟩, p, q, hp, hq, hpq⟩ := hn.serves
  obtain ⟨x, out, hout, houtputs, hinputs, hseeds, hdirs⟩ := evaluate_stored htables h
  have hargs := hs.lengths_of_eval hout
  have hx : p.nnz = x.length := by
    have hat := congrArg (·[0]?) hargs
    simpa [hp] using hat.symm
  refine ⟨x, out.drop 1, houtputs, hinputs, hseeds, fun dir hdir => ?_⟩
  obtain ⟨lu, seeds, sens, hfactor, hown, hsens, hstored⟩ := hdirs dir hdir
  obtain ⟨dx, r, rest, rfl, hdual, hresidual⟩ :=
    derivs_residual hs hlu hp hx hq (hpq.symm.trans hx) hargs hfactor hsens
  refine ⟨seeds, dx, r, rest, hown, hstored, ?_, hresidual⟩
  rw [show n'.dualArgs x dx seeds = n.dualArgs x dx seeds by rw [dualArgs, hinputs]; rfl]
  exact hdual

/-- The square root of four, in the direction in which its square grows by four. -/
theorem evaluate_sensitivities_root :
    let v : Expr Rat := .node 0 (.symbol "v") [] .scalar []
    let p : Expr Rat := .node 1 (.symbol "p") [] .scalar []
    let q : Expr Rat := .node 2 (.binary .mul .none) [v, v] .scalar []
    let e : Expr Rat := .node 3 (.binary .sub .none) [q, p] .scalar []
    ∃ f n, Function.compile "root" [v, p] [e, q] = .ok f ∧ Reachable f.system ⟨5, 0, 1, 1⟩ n ∧
      n.inputs = [[4]] ∧ n.seeds = [[[4]]] ∧ (n.evaluate 1).2 = .ok () ∧
      (n.evaluate 1).1.outputs = [[2], [4]] ∧ ∃ dx r rest,
        (n.evaluate 1).1.sens[0]? = some (dx :: rest.map Dual.derivs) ∧
        f.system.evalDual ((n.evaluate 1).1.dualArgs [2] dx [[4]]) = .ok (r :: rest) ∧
        Dual.derivs r = [0] := by
  intro v p q e
  have hv : Built 1 [v] := .symbol "v" _ .start
  have hp : Built 2 [p, v] := .symbol "p" _ hv
  have hq : Built 3 [q, p, v] := .make (.binary .mul v v) hp (by simp [Construction.operands]) rfl
  have hG : Built 4 [e, q, p, v] :=
    .make (.binary .sub q p) hq (by simp [Construction.operands]) rfl
  let f : Function Rat := ⟨"root", [v, p], [e, q], [⟨q, [0, 0], [some 2]⟩, ⟨e, [2, 1], [some 3]⟩],
    #[.scalar, .scalar, .scalar, .scalar], [0, 1], [3, 2]⟩
  have hf : Function.compile "root" [v, p] [e, q] = .ok f := by cbv
  let n : Newton Rat :=
    ⟨f.system, ⟨5, 0, 1, 1⟩, [[4]], [[2], [0]], [[[4]]], [[[0], [0]]], ⟨0, .unfinished⟩⟩
  obtain ⟨hS, hcompiled⟩ := Function.compiled_of_built hG (by simp) (by simp) hf
  have hs : f.system.IsCompiled True := .function hS hcompiled
  let start : Newton Rat := ⟨f.system, ⟨5, 0, 1, 1⟩, [[0]], [[0], [0]], [], [], ⟨0, .unfinished⟩⟩
  have hstart : create f.system ⟨5, 0, 1, 1⟩ = .ok start := by cbv
  have hn : Reachable f.system ⟨5, 0, 1, 1⟩ n :=
    .seed 0 0 [4] (.output 0 [2] (.input 0 [4] (.create hstart) rfl))
  have hok : (n.evaluate 1).2 = .ok () := by cbv
  have hout : (n.evaluate 1).1.outputs = [[2], [4]] := by cbv
  have hgrowth : (n.evaluate 1).1.seeds[0]? = some [[4]] := by cbv
  obtain ⟨x, out, houtputs, -, hseeds, hdirs⟩ := @evaluate_sensitivities Rat exactOrderedRat
    (@LU.solves_of_measuresZero Rat exactOrderedRat LU.measuresZero_rat) f.system True hs _ _ _ hn 1
    (Prod.ext rfl hok)
  obtain ⟨rfl, -⟩ := List.cons.inj (houtputs.symm.trans hout)
  obtain ⟨seeds, dx, r, rest, hseed, hsens, hdual, hresidual⟩ := hdirs 0 Nat.zero_lt_one
  obtain rfl := Option.some.inj (hgrowth.symm.trans hseed)
  exact ⟨f, n, hf, hn, rfl, rfl, hok, hout, dx, r, rest, hsens, hdual, hresidual⟩

end Newton

end DiffGraph
