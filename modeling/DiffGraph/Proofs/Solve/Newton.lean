import Mathlib
import DiffGraph.Proofs.Failure
import DiffGraph.Proofs.Solve.Linear
import DiffGraph.Proofs.System.Jacobian
import DiffGraph.Solve.Newton

/-!
# Solves and their tables

`Newton.solution` is what a solve has to return: the root that the iteration reaches from
the guess, the outputs there, and the sensitivities in all directions. It knows nothing
of earlier solves. A solver keeps tables instead, which grow with the directions and are
overwritten in place; as long as they fit the system (`Newton.Aligned`), `evaluate` leaves
just the solution in them (`Newton.evaluate_spec`), and no solve of a square system is a
misuse.
-/

namespace DiffGraph

open Element

/-- As many equations as unknowns, at least one, and a list can hold them. -/
structure System.IsSquare {α : Type} (s : System α) (k : Nat) : Prop where
  unknown : ∃ x, s.inputs[0]? = some x ∧ x.nnz = k
  equation : ∃ r, s.outputs[0]? = some r ∧ r.nnz = k
  pos : k ≠ 0
  fits : k < Size.listLimit

namespace Newton

variable {α : Type} [OrderedScalar α] {s : System α} {memory : Prop} {k : Nat}
  {args inputs : List (List α)} {options : NewtonOptions α} {x : List α} {lu : LU α}

/-! ## Steps of the iteration -/

omit [OrderedScalar α] in
theorem map_length_cons_inputs (hk : s.IsSquare k)
    (hinputs : inputs.map List.length = (s.inputs.drop 1).map Pattern.nnz) (hx : x.length = k) :
    (x :: inputs).map List.length = s.inputs.map Pattern.nnz := by
  obtain ⟨p, hp, rfl⟩ := hk.unknown
  cases hs : s.inputs with
  | nil => simp [hs] at hp
  | cons q rest =>
    obtain rfl : q = p := by simpa [hs] using hp
    rw [List.map_cons, List.map_cons, hinputs, hs, hx]
    rfl

omit [OrderedScalar α] in
theorem map_length_cons_outputs {T : Type} (hk : s.IsSquare k) {out : List (List T)}
    (hout : out.map List.length = s.outputs.map Pattern.nnz) (hx : x.length = k) :
    x.length :: (out.drop 1).map List.length = s.outputs.map Pattern.nnz := by
  obtain ⟨p, hp, rfl⟩ := hk.equation
  cases hs : s.outputs with
  | nil => simp [hs] at hp
  | cons q rest =>
    obtain rfl : q = p := by simpa [hs] using hp
    rw [List.map_drop, hout, hs, hx]
    rfl

omit [OrderedScalar α] in
theorem exists_head (hk : s.IsSquare k) {T : Type} {out : List (List T)}
    (hout : out.map List.length = s.outputs.map Pattern.nnz) :
    ∃ r rest, out = r :: rest ∧ r.length = k := by
  obtain ⟨p, hp, rfl⟩ := hk.equation
  cases out with
  | nil =>
    rw [List.map_eq_nil_iff.1 hout.symm] at hp
    cases hp
  | cons r rest =>
    have hhead := congrArg (·[0]?) hout
    exact ⟨r, rest, rfl, by simpa [hp] using hhead⟩

section Steps

variable (h : s.Semantics memory) (hk : s.IsSquare k)

include h hk

theorem exists_residual (hm : memory) (hlen : args.map List.length = s.inputs.map Pattern.nnz) :
    ∃ r, residual s args = .ok r ∧ r.length = k := by
  obtain ⟨r, rest, hrun, hr⟩ := exists_head hk (h.map_length_run hlen)
  exact ⟨r, by rw [residual, (h.eval hlen).1 hm, hrun], hr⟩

omit hk in
theorem memory_of_residual (hlen : args.map List.length = s.inputs.map Pattern.nnz) {r : List α}
    (hr : residual s args = .ok r) : memory := by
  by_contra hm
  rw [residual, (h.eval hlen).2 hm] at hr
  cases hr

theorem exists_factorize (hm : memory) (hlen : args.map List.length = s.inputs.map Pattern.nnz) :
    ∃ lu, factorize s args = .ok lu ∧ lu.rows.size = k := by
  obtain ⟨p, hp, hpk⟩ := hk.unknown
  obtain ⟨r, hr, hrk⟩ := hk.equation
  have hpattern := h.jacobianPattern_spec hp hr
  cases hj : s.jacobianPattern 0 0 with
  | error e =>
    rw [hj] at hpattern
    exact absurd ⟨hm, hpk ▸ hk.fits⟩ hpattern.2
  | ok q =>
    rw [hj] at hpattern
    obtain ⟨-, -, hshape, -⟩ := hpattern
    obtain ⟨hrows, hcols⟩ := Prod.mk.inj hshape
    have hjac := h.jacobian_eq hp hr hlen hj hcols (.inr hm)
    rw [factorize, hjac]
    refine ⟨_, rfl, ?_⟩
    rw [LU.size_factor, SparseMatrix.size_rows]
    exact hrows.trans hrk

/-- An iteration keeps the number of unknowns, and only a lack of memory is a misuse. -/
theorem iterate_spec (options : NewtonOptions α)
    (hinputs : inputs.map List.length = (s.inputs.drop 1).map Pattern.nnz) (left done : Nat)
    (hx : x.length = k) :
    (∀ y, (iterate s options inputs left done x).2 = .ok y → y.length = k ∧ memory) ∧
      (memory → NoMisuse (iterate s options inputs left done x).2) := by
  have hlen {x : List α} (hx : x.length = k) := map_length_cons_inputs hk hinputs hx
  induction left using Nat.strongRecOn generalizing done x with
  | ind left ih =>
    unfold iterate
    dsimp only
    cases hr : residual s (x :: inputs) with
    | error e =>
      refine ⟨nofun, fun hm => ?_⟩
      obtain ⟨r, hr', -⟩ := exists_residual h hk hm (hlen hx)
      cases hr.symm.trans hr'
    | ok r =>
      have hm := memory_of_residual h (hlen hx) hr
      dsimp only
      split
      · exact ⟨fun y hy => Except.ok.inj hy ▸ ⟨hx, hm⟩, fun _ => NoMisuse.ok x⟩
      cases left with
      | zero => exact ⟨nofun, fun _ => NoMisuse.error rfl⟩
      | succ left =>
        obtain ⟨r', hr', hrlen⟩ := exists_residual h hk hm (hlen hx)
        obtain rfl := Except.ok.inj (hr.symm.trans hr')
        obtain ⟨lu, hlu, hrows⟩ := exists_factorize h hk hm (hlen hx)
        obtain ⟨hnone, hsolve⟩ := LU.solve_spec (hrows ▸ hk.pos) r
        dsimp only
        rw [hlu]
        dsimp only
        split
        · exact absurd ‹_› hnone
        · exact ⟨nofun, fun _ => NoMisuse.error rfl⟩
        · rename_i step hstep
          have hnext : (advance options x step).length = k := by
            rw [advance, List.length_zipWith, hx, hsolve step hstep, hrlen, Nat.min_self]
          split
          · exact ⟨fun y hy => Except.ok.inj hy ▸ ⟨hnext, hm⟩, fun _ => NoMisuse.ok _⟩
          · exact ih left (Nat.lt_succ_self left) (done + 1) hnext

end Steps

/-! ## Tables -/

/-- The buffers of a solver have the lengths that its system asks for, and every direction has
seeds and sensitivities. -/
structure Aligned (n : Newton α) : Prop where
  inputs : n.inputs.map List.length = (n.system.inputs.drop 1).map Pattern.nnz
  outputs : n.outputs.map List.length = n.system.outputs.map Pattern.nnz
  seeds : ∀ s ∈ n.seeds, s.map List.length = n.inputs.map List.length
  sens : ∀ s ∈ n.sens, s.map List.length = n.system.outputs.map Pattern.nnz
  tables : n.seeds.length = n.sens.length

theorem map_length_zeroOutputs (hk : s.IsSquare k) :
    (zeroOutputs s).map List.length = s.outputs.map Pattern.nnz := by
  obtain ⟨p, hp, hpk⟩ := hk.unknown
  obtain ⟨r, hr, hrk⟩ := hk.equation
  cases hinputs : s.inputs with
  | nil => simp [hinputs] at hp
  | cons p' rest =>
    cases houtputs : s.outputs with
    | nil => simp [houtputs] at hr
    | cons r' others =>
      obtain rfl : p' = p := by simpa [hinputs] using hp
      obtain rfl : r' = r := by simpa [houtputs] using hr
      simp [zeroOutputs, hinputs, houtputs, hpk, hrk, Function.comp_def]

theorem aligned_withDirections {n : Newton α} (ha : n.Aligned) (hk : n.system.IsSquare k)
    (count : Nat) : (n.withDirections count).Aligned ∧
      (n.withDirections count).seeds.length = max n.seeds.length count := by
  have hcount : n.seeds.length + (count - n.seeds.length) = max n.seeds.length count := by omega
  refine ⟨⟨ha.inputs, ha.outputs, fun s hs => ?_, fun s hs => ?_, ?_⟩, ?_⟩
  · rcases List.mem_append.1 hs with hs | hs
    · exact ha.seeds s hs
    · rw [List.eq_of_mem_replicate hs, List.map_map]
      exact List.map_congr_left fun v _ => List.length_replicate
  · rcases List.mem_append.1 hs with hs | hs
    · exact ha.sens s hs
    · rw [List.eq_of_mem_replicate hs]
      exact map_length_zeroOutputs hk
  · simp [withDirections, ha.tables]
  · simpa [withDirections] using hcount

omit [OrderedScalar α] in
theorem aligned_setGuess {n : Newton α} (ha : n.Aligned) (hk : n.system.IsSquare k)
    (hx : x.length = k) : (n.setGuess x).Aligned ∧ (n.setGuess x).outputs.headD [] = x := by
  obtain ⟨r, rest, houtputs, hr⟩ := exists_head hk ha.outputs
  have hset : (n.setGuess x).outputs = x :: rest := by rw [setGuess, houtputs]; rfl
  refine ⟨⟨ha.inputs, ?_, ha.seeds, ha.sens, ha.tables⟩, by rw [hset]; rfl⟩
  rw [hset, List.map_cons, hx, ← hr, ← List.map_cons, ← houtputs]
  exact ha.outputs

/-- Options that a solver can be made with: there are steps, they move, and a tolerance can be
met. -/
structure Accepts (options : NewtonOptions α) : Prop where
  maxIter : options.maxIter ≠ 0
  damping : OrderedScalar.atMost options.damping 0 = false
  tolerance : (OrderedScalar.atMost options.absTol 0 &&
    OrderedScalar.atMost options.stepTol 0) = false

/-- The default options are such, with exact numbers and with machine numbers. -/
theorem accepts_default :
    Accepts (.default : NewtonOptions Rat) ∧ Accepts (.default : NewtonOptions Float) :=
  ⟨⟨by decide, by cbv, by cbv⟩, ⟨by decide, by decide +kernel, by decide +kernel⟩⟩

/-- A square system has a solver. -/
theorem exists_create (hk : s.IsSquare k) (ho : Accepts options) :
    ∃ solver, create s options = .ok solver := by
  obtain ⟨x, hx, hxk⟩ := hk.unknown
  obtain ⟨r, hr, hrk⟩ := hk.equation
  unfold create
  cases hinputs : s.inputs with
  | nil => simp [hinputs] at hx
  | cons x' rest =>
    cases houtputs : s.outputs with
    | nil => simp [houtputs] at hr
    | cons r' others =>
      obtain rfl : x' = x := by simpa [hinputs] using hx
      obtain rfl : r' = r := by simpa [houtputs] using hr
      dsimp only
      rw [if_neg (not_not.2 (hxk.trans hrk.symm)), if_neg ho.maxIter, ho.damping, ho.tolerance]
      exact ⟨_, rfl⟩

theorem aligned_create {n : Newton α} (h : create s options = .ok n) :
    n.Aligned ∧ n.system = s ∧ n.options = options ∧ n.seeds = [] := by
  unfold create at h
  cases hinputs : s.inputs with
  | nil =>
    rw [hinputs] at h
    cases h
  | cons p rest =>
    cases houtputs : s.outputs with
    | nil =>
      rw [hinputs, houtputs] at h
      cases h
    | cons r others =>
      rw [hinputs, houtputs] at h
      obtain ⟨hsizes, h⟩ := ok_of_guard h
      obtain ⟨-, h⟩ := ok_of_guard h
      obtain ⟨-, h⟩ := ok_of_guard h
      obtain ⟨-, h⟩ := ok_of_guard h
      obtain rfl := Except.ok.inj h
      refine ⟨⟨?_, ?_, nofun, nofun, rfl⟩, rfl, rfl, rfl⟩
      · simp [hinputs, Function.comp_def]
      · simp [zeroOutputs, hinputs, houtputs, not_not.1 hsizes, Function.comp_def]

omit [OrderedScalar α] in
theorem Aligned.length_guess {n : Newton α} (ha : n.Aligned) (hk : n.system.IsSquare k) :
    (n.outputs.headD []).length = k := by
  obtain ⟨r, rest, houtputs, hr⟩ := exists_head hk ha.outputs
  rw [houtputs]
  exact hr

/-- Two solvers for one system, with the same inputs and seeds. -/
structure SameProblem (n n' : Newton α) : Prop where
  system : n'.system = n.system
  options : n'.options = n.options
  inputs : n'.inputs = n.inputs
  seeds : n'.seeds = n.seeds

omit [OrderedScalar α] in
theorem SameProblem.refl (n : Newton α) : n.SameProblem n :=
  ⟨rfl, rfl, rfl, rfl⟩

omit [OrderedScalar α] in
theorem SameProblem.trans {n n' n'' : Newton α} (h : n.SameProblem n') (h' : n'.SameProblem n'') :
    n.SameProblem n'' :=
  ⟨h'.system.trans h.system, h'.options.trans h.options, h'.inputs.trans h.inputs,
    h'.seeds.trans h.seeds⟩

theorem withDirections_eq {n : Newton α} {count : Nat} (h : count ≤ n.seeds.length) :
    n.withDirections count = n := by
  simp [withDirections, Nat.sub_eq_zero_of_le h]

/-! ## Solutions -/

/-- What a solve returns: the unknown and the further outputs, and for every direction the
sensitivities of them all. -/
structure Solution (α : Type) where
  outputs : List (List α)
  sens : List (List (List α))

def bare (s : System α) (options : NewtonOptions α) (inputs : List (List α)) : Newton α :=
  ⟨s, options, inputs, [], [], [], ⟨0, .unfinished⟩⟩

/-- The sensitivities at a solution in the directions of the seeds. -/
def solutionSens (s : System α) (options : NewtonOptions α) (inputs : List (List α)) (x : List α)
    (seeds : List (List (List α))) : Except (Failure α) (List (List (List α))) :=
  if seeds.isEmpty then .ok []
  else do
    let lu ← factorize s (x :: inputs)
    seeds.mapM ((bare s options inputs).sensitivity lu x)

/-- What a solve from the guess has to return, whatever has been solved before. -/
def solution (s : System α) (options : NewtonOptions α) (guess : List α) (inputs : List (List α))
    (seeds : List (List (List α))) : Except (Failure α) (Solution α) := do
  let x ← (iterate s options inputs options.maxIter 0 guess).2
  let out ← ofSystem (s.eval (x :: inputs))
  return ⟨x :: out.drop 1, ← solutionSens s options inputs x seeds⟩

omit [OrderedScalar α] in
theorem length_of_mapM {β γ : Type} {f : β → Except (Failure α) γ} {xs : List β} {ys : List γ}
    (h : xs.mapM f = .ok ys) : ys.length = xs.length := by
  induction xs generalizing ys with
  | nil =>
    obtain rfl : [] = ys := Except.ok.inj h
    rfl
  | cons x xs ih =>
    rw [List.mapM_cons] at h
    cases hx : f x with
    | error e => simp [hx, bind, Except.bind] at h
    | ok y =>
      cases hxs : xs.mapM f with
      | error e => simp [hx, hxs, bind, Except.bind] at h
      | ok rest =>
        obtain rfl : y :: rest = ys := by
          simpa [hx, hxs, bind, Except.bind, pure, Except.pure] using h
        simp [ih hxs]

theorem length_of_solutionSens {seeds sens : List (List (List α))}
    (h : solutionSens s options inputs x seeds = .ok sens) : sens.length = seeds.length := by
  unfold solutionSens at h
  split at h
  · rename_i hempty
    rw [List.isEmpty_iff.1 hempty, ← Except.ok.inj h]
  · cases hlu : factorize s (x :: inputs) with
    | error e => simp [hlu, bind, Except.bind] at h
    | ok lu =>
      rw [hlu] at h
      exact length_of_mapM h

theorem length_of_solution {guess : List α} {seeds : List (List (List α))} {sol : Solution α}
    (h : solution s options guess inputs seeds = .ok sol) : sol.sens.length = seeds.length := by
  obtain ⟨x, -, h⟩ := ok_of_bind h
  obtain ⟨out, -, h⟩ := ok_of_bind h
  obtain ⟨sens, hsens, h⟩ := ok_of_bind h
  rw [← Except.ok.inj h]
  exact length_of_solutionSens hsens

/-- The sensitivities of the directions are written over those in the table, one after the
other. -/
theorem sensitivities_spec (n : Newton α) (lu : LU α) (x : List α) (first count : Nat)
    (hlen : first + count ≤ n.sens.length) :
    match ((List.range' first count).mapM fun dir =>
      (bare n.system n.options n.inputs).sensitivity lu x (n.seeds[dir]?.getD [])) with
    | .ok sens => n.sensitivities lu x (List.range' first count) =
        ({ n with sens := n.sens.take first ++ sens ++ n.sens.drop (first + count) }, .ok ())
    | .error e => (n.sensitivities lu x (List.range' first count)).2 = .error e := by
  induction count generalizing n first with
  | zero => simp [sensitivities, pure, Except.pure]
  | succ count ih =>
    have hfirst : n.sensitivity lu x (n.seeds[first]?.getD []) =
        (bare n.system n.options n.inputs).sensitivity lu x (n.seeds[first]?.getD []) := rfl
    rw [List.range'_succ, List.mapM_cons]
    unfold sensitivities
    rw [hfirst]
    cases (bare n.system n.options n.inputs).sensitivity lu x (n.seeds[first]?.getD []) with
    | error e => rfl
    | ok own =>
      have hrest := ih { n with sens := n.sens.set first own } (first + 1) (by simp; omega)
      dsimp only [bind, Except.bind] at hrest ⊢
      cases hm : ((List.range' (first + 1) count).mapM fun dir =>
        (bare n.system n.options n.inputs).sensitivity lu x (n.seeds[dir]?.getD [])) with
      | error e =>
        rw [hm] at hrest
        exact hrest
      | ok sens =>
        rw [hm] at hrest
        refine hrest.trans ?_
        have htake : (n.sens.set first own).take (first + 1) = n.sens.take first ++ [own] := by
          rw [List.take_add_one, List.getElem?_set_self (by omega), List.take_set_of_le le_rfl]
          rfl
        have hdrop : (n.sens.set first own).drop (first + 1 + count) =
            n.sens.drop (first + (count + 1)) := by
          rw [List.drop_set_of_lt (by omega), Nat.add_assoc, Nat.add_comm 1]
        simp [htake, hdrop]

omit [OrderedScalar α] in
theorem map_range_seeds (seeds : List (List (List α))) {count : Nat} (h : count ≤ seeds.length) :
    (List.range count).map (fun dir => seeds[dir]?.getD []) = seeds.take count := by
  refine List.ext_getElem (by simpa using h) fun i h₁ h₂ => ?_
  have hi : i < seeds.length := by
    rw [List.length_take] at h₂
    omega
  simp [hi]

theorem finish_spec {n : Newton α} (htables : n.seeds.length = n.sens.length) {directions : Nat}
    (hdir : directions ≤ n.seeds.length) {out : List (List α)}
    (hout : ofSystem (n.system.eval (x :: n.inputs)) = (.ok out : Except (Failure α) _)) :
    match solutionSens n.system n.options n.inputs x (n.seeds.take directions) with
    | .ok sens => n.finish directions x =
        ({ n with outputs := x :: out.drop 1, sens := sens ++ n.sens.drop directions }, .ok ())
    | .error e => (n.finish directions x).2 = .error e := by
  unfold finish solutionSens
  dsimp only
  rw [hout]
  dsimp only
  by_cases hzero : directions = 0
  · subst hzero
    simp
  · have hne : (n.seeds.take directions).isEmpty = false := by
      rw [List.isEmpty_eq_false_iff, ← List.length_pos_iff, List.length_take]
      omega
    have hsame := withDirections_eq (n := { n with outputs := x :: out.drop 1 }) hdir
    simp only [hne, hsame, hzero, Bool.false_eq_true, if_false, bind, Except.bind]
    cases factorize n.system (x :: n.inputs) with
    | error e => rfl
    | ok lu =>
      have hspec := sensitivities_spec { n with outputs := x :: out.drop 1 } lu x 0 directions
        (by simpa [← htables] using hdir)
      rw [← List.range_eq_range', ← Function.comp_def _ fun dir => n.seeds[dir]?.getD [],
        ← List.mapM_map, map_range_seeds n.seeds hdir] at hspec
      simpa using hspec

omit [OrderedScalar α] in
theorem inputError?_eq_none {n : Newton α} (ha : n.Aligned) : n.inputError? = none := by
  have hlen := ha.inputs
  unfold inputError?
  rw [Option.map_eq_none_iff]
  exact (find?_sizes_eq_none_iff _ _ (by simpa using congrArg List.length hlen)).2 hlen

theorem solve_eq {n : Newton α} (ha : n.Aligned) (hk : n.system.IsSquare k) : n.solve =
    iterate n.system n.options n.inputs n.options.maxIter 0 (n.outputs.headD []) := by
  obtain ⟨guess, rest, houtputs, -⟩ := exists_head hk ha.outputs
  rw [solve, houtputs]
  rfl

theorem evaluate_eq {n : Newton α} (ha : n.Aligned) (directions : Nat) :
    n.evaluate directions =
      match n.solve.2 with
      | .error e => ({ n with stats := n.solve.1 }, .error e)
      | .ok x => { n with stats := n.solve.1 }.finish directions x := by
  unfold evaluate
  split
  · rename_i e he
    rw [inputError?_eq_none ha] at he
    cases he
  · rfl

/-- A solve leaves its solution in the tables. -/
theorem evaluate_spec {n : Newton α} (ha : n.Aligned) (hk : n.system.IsSquare k)
    {directions : Nat} (hdir : directions ≤ n.seeds.length) :
    match solution n.system n.options (n.outputs.headD []) n.inputs (n.seeds.take directions) with
    | .ok sol => (n.evaluate directions).2 = .ok () ∧
      (n.evaluate directions).1.outputs = sol.outputs ∧
      (n.evaluate directions).1.sens.take directions = sol.sens
    | .error e => (n.evaluate directions).2 = .error e := by
  rw [evaluate_eq ha, solve_eq ha hk]
  unfold solution
  cases (iterate n.system n.options n.inputs n.options.maxIter 0 (n.outputs.headD [])).2 with
  | error e => rfl
  | ok x =>
    dsimp only [bind, Except.bind]
    cases hout : ofSystem (n.system.eval (x :: n.inputs)) with
    | error e =>
      unfold finish
      dsimp only
      rw [hout]
    | ok out =>
      have hfinish := finish_spec (n := { n with stats := (iterate n.system n.options n.inputs
        n.options.maxIter 0 (n.outputs.headD [])).1 }) ha.tables hdir hout
      dsimp only at hfinish ⊢
      cases hsens : solutionSens n.system n.options n.inputs x (n.seeds.take directions) with
      | error e =>
        rw [hsens] at hfinish
        exact hfinish
      | ok sens =>
        rw [hsens] at hfinish
        have hlen : sens.length = directions := by
          rw [length_of_solutionSens hsens, List.length_take, Nat.min_eq_left hdir]
        rw [hfinish]
        refine ⟨rfl, rfl, ?_⟩
        show (sens ++ _).take directions = sens
        rw [← hlen, List.take_left]

/-! ## What a solve keeps -/

theorem sameProblem_sensitivities (n : Newton α) (lu : LU α) (x : List α) (dirs : List Nat) :
    n.SameProblem (n.sensitivities lu x dirs).1 := by
  induction dirs generalizing n with
  | nil => exact .refl n
  | cons dir dirs ih =>
    unfold sensitivities
    split
    · exact .refl n
    · rename_i sens _
      have hset : n.SameProblem { n with sens := n.sens.set dir sens } := ⟨rfl, rfl, rfl, rfl⟩
      exact hset.trans (ih _)

theorem sameProblem_finish {n : Newton α} {directions : Nat} (hdir : directions ≤ n.seeds.length)
    (x : List α) : n.SameProblem (n.finish directions x).1 := by
  unfold finish
  dsimp only
  split
  · exact .refl n
  · rename_i out _
    have hfirst : n.SameProblem { n with outputs := x :: out.drop 1 } := ⟨rfl, rfl, rfl, rfl⟩
    split
    · exact hfirst
    · rw [withDirections_eq (n := { n with outputs := x :: out.drop 1 }) hdir]
      split
      · exact hfirst
      · exact hfirst.trans (sameProblem_sensitivities _ _ _ _)

theorem sameProblem_evaluate {n : Newton α} {directions : Nat}
    (hdir : directions ≤ n.seeds.length) : n.SameProblem (n.evaluate directions).1 := by
  have hstats : n.SameProblem { n with stats := n.solve.1 } := ⟨rfl, rfl, rfl, rfl⟩
  unfold evaluate
  split
  · exact .refl n
  · dsimp only
    split
    · exact hstats
    · exact hstats.trans (sameProblem_finish (n := { n with stats := n.solve.1 }) hdir _)

section Solves

variable {n : Newton α} (h : n.system.Semantics memory) (hk : n.system.IsSquare k)

include h hk

theorem sensitivity_spec (hm : memory) (ha : n.Aligned) (hrows : lu.rows.size = k)
    (hx : x.length = k) {seeds : List (List α)}
    (hseeds : seeds.map List.length = n.inputs.map List.length) :
    (∀ sens, n.sensitivity lu x seeds = .ok sens →
      sens.map List.length = n.system.outputs.map Pattern.nnz) ∧
      NoMisuse (n.sensitivity lu x seeds) := by
  have hdual {dx : List α} (hdx : dx.length = k) :
      (n.dualArgs x dx seeds).map List.length = n.system.inputs.map Pattern.nnz := by
    rw [← map_length_cons_inputs hk ha.inputs hx]
    have hsizes : (x :: n.inputs).map List.length = (dx :: seeds).map List.length := by
      rw [List.map_cons, List.map_cons, hx, hdx, hseeds]
    exact map_length_seeded hsizes
  have hzeros : (x.map fun _ => (0 : α)).length = k := by rw [List.length_map, hx]
  have hrhs : (Dual.derivs ((h.run (n.dualArgs x (x.map fun _ => 0) seeds)).headD [])).length =
      k := by
    obtain ⟨r, rest, hrun, hr⟩ := exists_head hk (h.map_length_run (hdual hzeros))
    rw [hrun, ← hr]
    exact List.length_map _
  obtain ⟨hnone, hsolve⟩ := LU.solve_spec (hrows ▸ hk.pos)
    (Dual.derivs ((h.run (n.dualArgs x (x.map fun _ => 0) seeds)).headD []))
  unfold sensitivity ofSystem
  dsimp only
  rw [(h.evalDual (hdual hzeros)).1 hm]
  dsimp only [Except.mapError, bind, Except.bind]
  split
  · exact absurd ‹_› hnone
  · exact ⟨nofun, NoMisuse.error rfl⟩
  · rename_i step hstep
    have hdx : (step.map fun v => -v).length = k := by
      rw [List.length_map, hsolve step hstep, hrhs]
    rw [(h.evalDual (hdual hdx)).1 hm]
    refine ⟨fun sens hsens => ?_, NoMisuse.ok _⟩
    obtain rfl := Except.ok.inj hsens
    rw [← map_length_cons_outputs hk (h.map_length_run (hdual hdx)) hdx, List.map_cons,
      List.map_map]
    exact congrArg _ (List.map_congr_left fun out _ => by simp [Dual.derivs])

theorem aligned_sensitivities (hm : memory) (ha : n.Aligned) (hrows : lu.rows.size = k)
    (hx : x.length = k) {dirs : List Nat} (hdirs : ∀ dir ∈ dirs, dir < n.seeds.length) :
    (n.sensitivities lu x dirs).1.Aligned ∧ NoMisuse (n.sensitivities lu x dirs).2 := by
  induction dirs generalizing n with
  | nil => exact ⟨ha, NoMisuse.ok ()⟩
  | cons dir dirs ih =>
    obtain ⟨hdir, hdirs⟩ := List.forall_mem_cons.1 hdirs
    have hown : (n.seeds[dir]?.getD []).map List.length = n.inputs.map List.length := by
      rw [List.getElem?_eq_getElem hdir]
      exact ha.seeds _ (List.getElem_mem hdir)
    obtain ⟨hlen, hmisuse⟩ := sensitivity_spec h hk hm ha hrows hx hown
    unfold sensitivities
    split
    · rename_i e he
      exact ⟨ha, NoMisuse.error (hmisuse e he)⟩
    · rename_i sens hsens
      refine ih (n := { n with sens := n.sens.set dir sens }) h hk ?_ hdirs
      refine { ha with sens := fun s hs => ?_, tables := ?_ }
      · exact (List.mem_or_eq_of_mem_set hs).elim (ha.sens s) fun heq => heq ▸ hlen sens hsens
      · rw [List.length_set]
        exact ha.tables

theorem aligned_finish (ha : n.Aligned) {directions : Nat} (hdir : directions ≤ n.seeds.length)
    (hm : memory) (hx : x.length = k) :
    (n.finish directions x).1.Aligned ∧ NoMisuse (n.finish directions x).2 := by
  have hargs := map_length_cons_inputs hk ha.inputs hx
  have hfirst : Aligned { n with outputs := x :: (h.run (x :: n.inputs)).drop 1 } :=
    { ha with outputs := map_length_cons_outputs hk (h.map_length_run hargs) hx }
  obtain ⟨lu, hlu, hrows⟩ := exists_factorize h hk hm hargs
  unfold finish ofSystem
  dsimp only
  rw [(h.eval hargs).1 hm]
  dsimp only [Except.mapError]
  split
  · exact ⟨hfirst, NoMisuse.ok ()⟩
  · rw [withDirections_eq (n := { n with outputs := x :: (h.run (x :: n.inputs)).drop 1 }) hdir,
      hlu]
    refine aligned_sensitivities (n := { n with outputs := x :: (h.run (x :: n.inputs)).drop 1 })
      h hk hm hfirst hrows hx fun dir hmem => ?_
    exact Nat.lt_of_lt_of_le (List.mem_range.1 hmem) hdir

/-- A solve keeps the tables aligned, and fails as a misuse only for lack of memory. -/
theorem aligned_evaluate (ha : n.Aligned) {directions : Nat} (hdir : directions ≤ n.seeds.length) :
    (n.evaluate directions).1.Aligned ∧ (memory → NoMisuse (n.evaluate directions).2) := by
  obtain ⟨hroot, hmisuse⟩ := iterate_spec h hk n.options ha.inputs n.options.maxIter 0
    (ha.length_guess hk)
  rw [← solve_eq ha hk] at hroot hmisuse
  rw [evaluate_eq ha]
  split
  · rename_i e he
    exact ⟨{ ha with }, fun hm => NoMisuse.error (hmisuse hm e he)⟩
  · rename_i x hx
    obtain ⟨hlen, hm⟩ := hroot x hx
    obtain ⟨haligned, hfine⟩ := aligned_finish (n := { n with stats := n.solve.1 }) h hk { ha with }
      hdir hm hlen
    exact ⟨haligned, fun _ => hfine⟩

omit h hk in
theorem outputs_sensitivities (n : Newton α) (lu : LU α) (x : List α) (dirs : List Nat) :
    (n.sensitivities lu x dirs).1.outputs = n.outputs := by
  induction dirs generalizing n with
  | nil => rfl
  | cons dir dirs ih =>
    unfold sensitivities
    split
    · rfl
    · exact ih _

/-- A root that is reached goes to the first buffer, even if there are no sensitivities there;
otherwise the buffers stay. -/
theorem outputs_evaluate (ha : n.Aligned) (directions : Nat) :
    match n.solve.2 with
    | .error e => (n.evaluate directions).1.outputs = n.outputs ∧
      (n.evaluate directions).2 = .error e
    | .ok x => (n.evaluate directions).1.outputs.headD [] = x := by
  obtain ⟨hroot, -⟩ := iterate_spec h hk n.options ha.inputs n.options.maxIter 0
    (ha.length_guess hk)
  rw [← solve_eq ha hk] at hroot
  rw [evaluate_eq ha]
  cases hsolve : n.solve.2 with
  | error e => exact ⟨rfl, rfl⟩
  | ok x =>
    obtain ⟨hx, hm⟩ := hroot x hsolve
    have hargs := map_length_cons_inputs hk ha.inputs hx
    dsimp only
    unfold finish ofSystem
    dsimp only
    rw [(h.eval hargs).1 hm]
    dsimp only [Except.mapError]
    split
    · rfl
    · split
      · rfl
      · rw [outputs_sensitivities]
        rfl

end Solves

end Newton

end DiffGraph
