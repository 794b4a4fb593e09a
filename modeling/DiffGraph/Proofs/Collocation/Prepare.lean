import Mathlib
import DiffGraph.Proofs.Collocation.Create

/-!
# Before a solve

A reset that passes its checks loads the inputs and seeds into the solver and puts a guess
there (`Collocation.prepare`). In an integrator whose parts fit each other
(`Collocation.Sound`) that keeps all buffers at their lengths: every slice that is read or
written is there (`Sound.prepare`).
-/

namespace DiffGraph

variable {α : Type}

namespace Collocation

variable [OrderedScalar α] {c c' : Collocation α} {inputs : List (List α)}
  {seeds : List (List (List α))}

/-! ## Sound integrators -/

/-- Two states of an integrator for one problem. -/
structure SameProblem (c c' : Collocation α) : Prop where
  options : c'.options = c.options
  fwd : c'.fwd = c.fwd
  bwd : c'.bwd = c.bwd
  times : c'.times = c.times
  residual : c'.residual = c.residual
  system : c'.solver.system = c.solver.system
  solverOptions : c'.solver.options = c.solver.options
  startup : Option.Rel Startup.SameSetup c.startup c'.startup

omit [OrderedScalar α] in
theorem SameProblem.refl (c : Collocation α) : c.SameProblem c := by
  refine ⟨rfl, rfl, rfl, rfl, rfl, rfl, rfl, ?_⟩
  cases c.startup with
  | none => exact .none
  | some s => exact .some (.refl s)

omit [OrderedScalar α] in
theorem SameProblem.trans {c₁ c₂ c₃ : Collocation α} (h : c₁.SameProblem c₂)
    (h' : c₂.SameProblem c₃) : c₁.SameProblem c₃ := by
  refine ⟨h'.options.trans h.options, h'.fwd.trans h.fwd, h'.bwd.trans h.bwd,
    h'.times.trans h.times, h'.residual.trans h.residual, h'.system.trans h.system,
    h'.solverOptions.trans h.solverOptions, ?_⟩
  have h₁ := h.startup
  have h₂ := h'.startup
  generalize c₁.startup = s₁, c₂.startup = s₂, c₃.startup = s₃ at h₁ h₂
  cases h₁ with
  | none => cases h₂; exact .none
  | some h₁ => cases h₂ with | some h₂ => exact .some (h₁.trans h₂)

/-- The parts of an integrator fit each other, and its sensitivities are those of directions that
the solver has. -/
structure Sound (c : Collocation α) : Prop where
  system : c.HasSystem
  startup : c.HasStartup
  solver : c.solver.Aligned
  sens : c.sens.length ≤ c.solver.sens.length
  once : c.solved = true → c.integratedOnce = true

omit [OrderedScalar α] in
theorem SameProblem.unknownCount_eq (h : c.SameProblem c') : c'.unknownCount = c.unknownCount := by
  rw [unknownCount, unknownCount, blockSize, blockSize, h.times, h.fwd, h.bwd]

theorem SameProblem.hasSystem (h : c.SameProblem c') (hc : c.HasSystem) : c'.HasSystem := by
  have hsizes : c'.inputSizes = c.inputSizes := by
    rw [inputSizes, inputSizes, h.fwd, h.bwd]
  refine ⟨?_, ?_, ?_, ?_, ?_⟩
  · rw [h.system, h.residual]
    exact hc.compiled
  · rw [h.system, h.unknownCount_eq]
    exact hc.square
  · rw [h.system, hsizes]
    exact hc.inputs
  · rw [h.system]
    exact hc.outputs
  · rw [h.times]
    exact hc.points

omit [OrderedScalar α] in
theorem SameProblem.hasStartup (h : c.SameProblem c') (hc : c.HasStartup) : c'.HasStartup := by
  intro s' hs'
  have hrel := h.startup
  rw [hs'] at hrel
  cases hs : c.startup with
  | none =>
    rw [hs] at hrel
    cases hrel
  | some s =>
    rw [hs] at hrel
    cases hrel with
    | some hsame =>
      obtain ⟨hrate, hx⟩ := hc s hs
      exact ⟨hsame.f ▸ hrate, hsame.states.trans (hx.trans (congrArg ForwardSizes.nx h.fwd).symm)⟩

theorem HasSystem.length_unknowns (hc : c.HasSystem) (ha : c.solver.Aligned) :
    c.unknowns.length = c.unknownCount :=
  ha.length_guess hc.square

theorem HasSystem.blockSize_pos (hc : c.HasSystem) : 0 < c.blockSize := by
  refine Nat.pos_of_ne_zero fun hzero => hc.square.pos ?_
  rw [unknownCount, hzero, Nat.mul_zero]

/-! ## Loading -/

def Accepts (c : Collocation α) (inputs : List (List α)) : Prop :=
  inputs.map List.length = c.inputSizes

omit [OrderedScalar α] in
theorem SameProblem.accepts_eq (h : c.SameProblem c') : c'.Accepts = c.Accepts := by
  funext inputs
  rw [Accepts, Accepts, inputSizes, inputSizes, h.fwd, h.bwd]

theorem load_spec {n : Newton α} {k : Nat} (hk : n.system.IsSquare k) (ha : n.Aligned)
    (hinputs : inputs.map List.length = (n.system.inputs.drop 1).map Pattern.nnz)
    (hseeds : ∀ s ∈ seeds, s.map List.length = (n.system.inputs.drop 1).map Pattern.nnz) :
    (load n inputs seeds).Aligned ∧ (load n inputs seeds).inputs = inputs ∧
      (load n inputs seeds).seeds.take seeds.length = seeds ∧
      (load n inputs seeds).seeds.length = max n.seeds.length seeds.length ∧
      n.sens.length ≤ (load n inputs seeds).sens.length := by
  have hfirst : Newton.Aligned { n with inputs } := by
    refine ⟨hinputs, ha.outputs, fun s hs => ?_, ha.sens, ha.tables⟩
    rw [ha.seeds s hs, ha.inputs, hinputs]
  obtain ⟨hmore, hcount⟩ := Newton.aligned_withDirections hfirst hk seeds.length
  have htables := hmore.tables
  refine ⟨⟨hmore.inputs, hmore.outputs, fun s hs => ?_, hmore.sens, ?_⟩, rfl, ?_, ?_, ?_⟩
  · rcases List.mem_append.1 hs with hs | hs
    · rw [hseeds s hs, ← hinputs]
      rfl
    · exact hmore.seeds s (List.mem_of_mem_drop hs)
  · simp only [load, List.length_append, List.length_drop]
    omega
  · exact List.take_left
  · simp only [load, List.length_append, List.length_drop, hcount]
    omega
  · simp [load, Newton.withDirections]

/-! ## The initial states -/

omit [OrderedScalar α] in
/-- Two states go over a chunk that is as long as both of them. -/
theorem copyOver_copyOver (chunk x0 rx0 : List α) (k : Nat) :
    (do copyOver (← copyOver chunk 0 k rx0) k chunk.length x0 : Except (Failure α) (List α)) =
      if rx0.length = k ∧ k + x0.length = chunk.length then .ok (rx0 ++ x0)
      else .error .misuse := by
  by_cases hrx0 : rx0.length = k ∧ k ≤ chunk.length
  · obtain ⟨rfl, hle⟩ := hrx0
    have hfirst : copyOver chunk 0 rx0.length rx0 = .ok (rx0 ++ chunk.drop rx0.length) :=
      if_pos ⟨Nat.zero_add _, hle⟩
    have hlen : (rx0 ++ chunk.drop rx0.length).length = chunk.length := by
      rw [List.length_append, List.length_drop, Nat.add_sub_cancel' hle]
    rw [hfirst]
    show copyOver (rx0 ++ chunk.drop rx0.length) rx0.length chunk.length x0 = _
    rw [copyOver, hlen, List.take_left, ← hlen, List.drop_length, List.append_nil]
    simp
  · have hfirst : copyOver chunk 0 k rx0 = .error .misuse :=
      if_neg fun h => hrx0 ⟨(Nat.zero_add _).symm.trans h.1, h.2⟩
    rw [hfirst, if_neg fun h => hrx0 ⟨h.1, (Nat.le_add_right ..).trans_eq h.2⟩]
    rfl

theorem map_length_chunksOf {β : Type} (size : Nat) (items : List β) :
    (chunksOf size items).map List.length =
      (List.range ((items.length + size - 1) / size)).map fun m =>
        min size (items.length - m * size) := by
  simp [chunksOf, Function.comp_def]

theorem map_length_chunksOf_of_mul {β : Type} {size count : Nat} {items : List β}
    (hsize : 0 < size) (h : items.length = count * size) :
    (chunksOf size items).map List.length = List.replicate count size := by
  have hcount : (count * size + size - 1) / size = count :=
    Nat.div_eq_of_lt_le (by omega) (by rw [Nat.succ_mul]; omega)
  rw [map_length_chunksOf, h, hcount]
  refine List.eq_replicate_iff.2 ⟨by simp, fun k hk => ?_⟩
  obtain ⟨m, hm, rfl⟩ := List.mem_map.1 hk
  rw [← Nat.sub_mul]
  exact Nat.min_eq_left (Nat.le_mul_of_pos_left _ (Nat.sub_pos_of_lt (List.mem_range.1 hm)))

theorem mapM_replicate_ok {β γ ε : Type} {f : β → Except ε γ} {x : β} {y : γ} (h : f x = .ok y)
    (count : Nat) : (List.replicate count x).mapM f = .ok (List.replicate count y) := by
  induction count with
  | zero => rfl
  | succ count ih =>
    rw [List.replicate_succ, List.mapM_cons, h, ih]
    rfl

omit [OrderedScalar α] in
/-- Only the lengths of the chunks count, because nothing that is in them stays. -/
theorem constantGuess_eq (c : Collocation α) (x0 rx0 v : List α) : c.constantGuess x0 rx0 v =
    (((chunksOf (c.fwd.nx + c.bwd.nrx) v).map List.length).mapM fun k =>
      (if rx0.length = c.bwd.nrx ∧ c.bwd.nrx + x0.length = k then .ok (rx0 ++ x0)
        else .error .misuse : Except (Failure α) (List α))).map List.flatten := by
  unfold constantGuess
  simp only [copyOver_copyOver, List.mapM_map]
  rfl

omit [OrderedScalar α] in
theorem constantGuess_congr (c : Collocation α) (x0 rx0 : List α) {u v : List α}
    (h : v.length = u.length) : c.constantGuess x0 rx0 v = c.constantGuess x0 rx0 u := by
  rw [constantGuess_eq, constantGuess_eq, map_length_chunksOf, map_length_chunksOf, h]

omit [OrderedScalar α] in
theorem SameProblem.constantGuess_eq (h : c.SameProblem c') (x0 rx0 v : List α) :
    c'.constantGuess x0 rx0 v = c.constantGuess x0 rx0 v := by
  unfold constantGuess
  rw [h.fwd, h.bwd]

omit [OrderedScalar α] in
theorem constantGuess_ok {x0 rx0 v : List α} (hx0 : x0.length = c.fwd.nx)
    (hrx0 : rx0.length = c.bwd.nrx) (hsize : 0 < c.blockSize) {count : Nat}
    (hv : v.length = count * c.blockSize) :
    c.constantGuess x0 rx0 v = .ok (List.replicate count (rx0 ++ x0)).flatten := by
  have hblock : c.fwd.nx + c.bwd.nrx = c.blockSize := Nat.add_comm _ _
  rw [constantGuess_eq, hblock, map_length_chunksOf_of_mul hsize hv,
    mapM_replicate_ok (y := rx0 ++ x0)]
  · rfl
  · exact if_pos ⟨hrx0, by rw [hx0]; rfl⟩

/-! ## The startup states -/

/-- The unknowns with another forward state in block `j`. -/
def putState (c : Collocation α) (j : Nat) (x v : List α) : List α :=
  v.take (j * c.blockSize + c.bwd.nrx) ++ x ++ v.drop (j * c.blockSize + c.bwd.nrx + c.fwd.nx)

/-- The entry belongs to a forward state. -/
def IsForward (c : Collocation α) (i : Nat) : Prop :=
  c.bwd.nrx ≤ i % c.blockSize

omit [OrderedScalar α] in
theorem mem_block_iff (hsize : 0 < c.blockSize) (j i : Nat) :
    j * c.blockSize + c.bwd.nrx ≤ i ∧ i < j * c.blockSize + c.bwd.nrx + c.fwd.nx ↔
      i / c.blockSize = j ∧ c.IsForward i := by
  have hi := Nat.div_add_mod i c.blockSize
  have hm := Nat.mod_lt i hsize
  have hsum : c.blockSize = c.bwd.nrx + c.fwd.nx := rfl
  unfold IsForward
  constructor
  · rintro ⟨hge, hlt⟩
    have hdiv : i / c.blockSize = j :=
      Nat.div_eq_of_lt_le (by omega) (by rw [Nat.add_mul]; omega)
    rw [hdiv, Nat.mul_comm] at hi
    exact ⟨hdiv, by omega⟩
  · rintro ⟨rfl, ha⟩
    rw [Nat.mul_comm (i / c.blockSize)]
    omega

section PutState

variable {x v : List α} {j : Nat}

omit [OrderedScalar α] in
theorem length_putState (hx : x.length = c.fwd.nx) (hv : (j + 1) * c.blockSize ≤ v.length) :
    (c.putState j x v).length = v.length := by
  rw [Nat.add_mul, Nat.one_mul, blockSize] at hv
  simp only [putState, blockSize, List.length_append, List.length_take, List.length_drop]
  omega

omit [OrderedScalar α] in
theorem getElem?_putState (hx : x.length = c.fwd.nx) (hv : (j + 1) * c.blockSize ≤ v.length)
    (i : Nat) : (c.putState j x v)[i]? =
      if j * c.blockSize + c.bwd.nrx ≤ i ∧ i < j * c.blockSize + c.bwd.nrx + c.fwd.nx then
        x[i - (j * c.blockSize + c.bwd.nrx)]?
      else v[i]? := by
  have hfits : j * c.blockSize + c.bwd.nrx + c.fwd.nx ≤ v.length := by
    rw [Nat.add_mul, Nat.one_mul] at hv
    exact (Nat.add_assoc _ _ _).trans_le hv
  unfold putState
  generalize j * c.blockSize + c.bwd.nrx = o at hfits ⊢
  have ho : (v.take o).length = o := List.length_take_of_le (by omega)
  rw [List.append_assoc]
  rcases Nat.lt_or_ge i o with hlt | hge
  · rw [if_neg (by omega), List.getElem?_append_left (by omega), List.getElem?_take_of_lt hlt]
  rw [List.getElem?_append_right (by omega), ho]
  rcases Nat.lt_or_ge i (o + c.fwd.nx) with hlt | hge'
  · rw [if_pos ⟨hge, hlt⟩, List.getElem?_append_left (by omega)]
  · rw [if_neg (by omega), List.getElem?_append_right (by omega), List.getElem?_drop]
    congr 1
    omega

omit [OrderedScalar α] in
theorem putState_other (hsize : 0 < c.blockSize) (hx : x.length = c.fwd.nx)
    (hv : (j + 1) * c.blockSize ≤ v.length) {i : Nat}
    (hi : ¬ (i / c.blockSize = j ∧ c.IsForward i)) : (c.putState j x v)[i]? = v[i]? := by
  rw [getElem?_putState hx hv, if_neg (mt (mem_block_iff hsize j i).1 hi)]

omit [OrderedScalar α] in
/-- The forward state of the block is the new one, whatever there was before. -/
theorem putState_own (hsize : 0 < c.blockSize) (hx : x.length = c.fwd.nx)
    (hv : (j + 1) * c.blockSize ≤ v.length) {i : Nat} (hi : i / c.blockSize = j)
    (hforward : c.IsForward i) :
    (c.putState j x v)[i]? = x[i - (j * c.blockSize + c.bwd.nrx)]? := by
  rw [getElem?_putState hx hv, if_pos ((mem_block_iff hsize j i).2 ⟨hi, hforward⟩)]

end PutState

omit [OrderedScalar α] in
theorem copyOver_eq {x v : List α} {j : Nat} (hx : x.length = c.fwd.nx)
    (hv : (j + 1) * c.blockSize ≤ v.length) :
    copyOver v (j * c.blockSize + c.bwd.nrx) (j * c.blockSize + c.bwd.nrx + c.fwd.nx) x =
      .ok (c.putState j x v) := by
  rw [Nat.succ_mul] at hv
  exact if_pos ⟨by rw [hx], (Nat.add_assoc _ _ _).trans_le hv⟩

theorem startupGuess_cons {s : Startup α} {j : Nat} {v : List α} (hs : Startup.IsRate s.f)
    (hx : s.x.length = c.fwd.nx) (hv : (j + 1) * c.blockSize ≤ v.length) (t : α) (ts : List α) :
    c.startupGuess (t :: ts) s (j * c.blockSize + c.bwd.nrx) v =
      match s.integrate t with
      | (s, .error e) => (s, v, .error e)
      | (s, .ok ()) =>
        c.startupGuess ts s ((j + 1) * c.blockSize + c.bwd.nrx) (c.putState j s.x v) := by
  have hnext : j * c.blockSize + c.bwd.nrx + c.fwd.nx + c.bwd.nrx =
      (j + 1) * c.blockSize + c.bwd.nrx := by
    rw [Nat.add_mul, Nat.one_mul, blockSize]
    omega
  obtain ⟨hsame, -⟩ := Startup.integrate_spec hs t
  rw [startupGuess, hnext]
  rcases hint : s.integrate t with ⟨s₁, e | u⟩
  · rfl
  · rw [hint] at hsame
    dsimp only
    rw [copyOver_eq (hsame.states.trans hx) hv]

/-- A run of the startup integrator keeps the length of the guess and its backward states. -/
theorem startupGuess_spec (hsize : 0 < c.blockSize) {ts : List α} {s : Startup α} {j : Nat}
    {v : List α} (hs : Startup.IsRate s.f) (hx : s.x.length = c.fwd.nx)
    (hv : v.length = (j + ts.length) * c.blockSize) :
    let r := c.startupGuess ts s (j * c.blockSize + c.bwd.nrx) v
    s.SameSetup r.1 ∧ r.2.1.length = v.length ∧ NoMisuse r.2.2 ∧
      ∀ i, ¬ c.IsForward i → r.2.1[i]? = v[i]? := by
  induction ts generalizing s j v with
  | nil => exact ⟨.refl s, rfl, .ok (), fun _ _ => rfl⟩
  | cons t ts ih =>
    obtain ⟨hsame, hmisuse⟩ := Startup.integrate_spec hs t
    have hfits : (j + 1) * c.blockSize ≤ v.length := by
      rw [hv, List.length_cons]
      exact Nat.mul_le_mul_right _ (by omega)
    rw [startupGuess_cons hs hx hfits]
    rcases hint : s.integrate t with ⟨s₁, e | u⟩
    · rw [hint] at hsame hmisuse
      exact ⟨hsame, rfl, .error (hmisuse e rfl), fun _ _ => rfl⟩
    · rw [hint] at hsame
      have hx₁ : s₁.x.length = c.fwd.nx := hsame.states.trans hx
      have hlen := length_putState (x := s₁.x) hx₁ hfits
      obtain ⟨hrest, hlast, hfine, hkeeps⟩ := ih (s := s₁) (j := j + 1) (v := c.putState j s₁.x v)
        (hsame.f ▸ hs) hx₁ (by rw [hlen, hv, List.length_cons, Nat.add_right_comm, Nat.add_assoc])
      refine ⟨hsame.trans hrest, hlast.trans hlen, hfine, fun i hi => (hkeeps i hi).trans ?_⟩
      exact putState_other hsize hx₁ hfits fun h => hi h.2

theorem SameProblem.startupGuess_eq (h : c.SameProblem c') (ts : List α) (s : Startup α)
    (o : Nat) (v : List α) : c'.startupGuess ts s o v = c.startupGuess ts s o v := by
  induction ts generalizing s o v with
  | nil => rfl
  | cons t ts ih =>
    unfold startupGuess
    rw [h.fwd, h.bwd]
    rcases s.integrate t with ⟨s₁, e | u⟩
    · rfl
    · dsimp only
      cases copyOver v o (o + c.fwd.nx) s₁.x with
      | error e => rfl
      | ok v₁ => exact ih s₁ _ v₁

/-- Runs that differ in the count of steps and in the guess before them fail alike, and write the
same forward states. -/
theorem startupGuess_congr (hsize : 0 < c.blockSize) {ts : List α} {s : Startup α} (k : Nat)
    {j : Nat} {u v : List α} (hs : Startup.IsRate s.f) (hx : s.x.length = c.fwd.nx)
    (hu : u.length = (j + ts.length) * c.blockSize) (hv : v.length = u.length)
    (hagree : ∀ i, i / c.blockSize < j → c.IsForward i → v[i]? = u[i]?) :
    let r := c.startupGuess ts s (j * c.blockSize + c.bwd.nrx) u
    let r' := c.startupGuess ts { s with steps := k } (j * c.blockSize + c.bwd.nrx) v
    r'.2.2 = r.2.2 ∧ (r.2.2 = .ok () → ∀ i, c.IsForward i → r'.2.1[i]? = r.2.1[i]?) := by
  induction ts generalizing s k j u v with
  | nil =>
    refine ⟨rfl, fun _ i hi => ?_⟩
    rcases Nat.lt_or_ge (i / c.blockSize) j with hlt | hge
    · exact hagree i hlt hi
    · have hout : u.length ≤ i := by
        rw [hu]
        exact (Nat.mul_le_mul_right _ hge).trans (Nat.div_mul_le_self i _)
      exact (List.getElem?_eq_none (hv.trans_le hout)).trans (List.getElem?_eq_none hout).symm
  | cons t ts ih =>
    obtain ⟨hsame, -⟩ := Startup.integrate_spec hs t
    obtain ⟨k', hk'⟩ := Startup.integrate_withSteps s k t
    have hfits : (j + 1) * c.blockSize ≤ u.length := by
      rw [hu, List.length_cons]
      exact Nat.mul_le_mul_right _ (by omega)
    have hfits' := hfits.trans_eq hv.symm
    rw [startupGuess_cons hs hx hfits,
      startupGuess_cons (s := { s with steps := k }) hs hx hfits', hk']
    rcases hint : s.integrate t with ⟨s₁, e | w⟩
    · exact ⟨rfl, nofun⟩
    · rw [hint] at hsame
      have hx₁ : s₁.x.length = c.fwd.nx := hsame.states.trans hx
      have hlen := length_putState (x := s₁.x) hx₁ hfits
      have hlen' := length_putState (x := s₁.x) hx₁ hfits'
      refine ih (s := s₁) k' (j := j + 1) (hsame.f ▸ hs) hx₁ ?_ (by rw [hlen, hlen', hv]) ?_
      · rw [hlen, hu, List.length_cons, Nat.add_right_comm, Nat.add_assoc]
      · intro i hi hforward
        rcases Nat.lt_succ_iff_lt_or_eq.1 hi with hlt | heq
        · rw [putState_other hsize hx₁ hfits fun h => hlt.ne h.1,
            putState_other hsize hx₁ hfits' fun h => hlt.ne h.1]
          exact hagree i hlt hforward
        · rw [putState_own hsize hx₁ hfits heq hforward,
            putState_own hsize hx₁ hfits' heq hforward]

/-! ## Preparing a solve -/

def loaded (c : Collocation α) (inputs : List (List α)) (seeds : List (List (List α))) :
    Collocation α :=
  { c with solved := false, inputs, solver := load c.solver inputs seeds }

/-- The inputs and seeds go to the solver, and a guess unless it may start from the last
solution. -/
def prepare (c : Collocation α) (inputs : List (List α)) (seeds : List (List (List α))) :
    Collocation α × Except (Failure α) Unit :=
  if c.options.hotstart && c.integratedOnce then (c.loaded inputs seeds, .ok ())
  else (c.loaded inputs seeds).initializeGuess

/-- A solve prepares, evaluates the solver and collects the quadratures. -/
theorem solve_eq (c : Collocation α) (inputs : List (List α)) (seeds : List (List (List α))) :
    c.solve inputs seeds = match c.prepare inputs seeds with
      | (c, guessed) => match guessed with
        | .error e => (c, .error e)
        | .ok () => match c.solver.evaluate seeds.length with
          | (solver, result) => match result with
            | .error e => ({ c with solver }, .error (.within .solving e))
            | .ok () => (({ c with solver } : Collocation α).collect seeds.length, .ok ()) :=
  rfl

/-- The integrator is ready to solve for the inputs and seeds. -/
structure Prepared (c : Collocation α) (inputs : List (List α)) (seeds : List (List (List α)))
    (c' : Collocation α) : Prop where
  same : c.SameProblem c'
  solver : c'.solver.Aligned
  loaded : c'.solver.inputs = inputs ∧ c'.solver.seeds.take seeds.length = seeds
  directions : seeds.length ≤ c'.solver.seeds.length
  sens : c'.sens = c.sens
  tables : c.solver.sens.length ≤ c'.solver.sens.length
  once : c'.integratedOnce = c.integratedOnce
  solved : c'.solved = false

omit [OrderedScalar α] in
theorem Prepared.withGuess (h : c.Prepared inputs seeds c') {k : Nat}
    (hk : c'.solver.system.IsSquare k) {v : List α} (hv : v.length = k)
    {startup : Option (Startup α)} (hstartup : Option.Rel Startup.SameSetup c.startup startup) :
    c.Prepared inputs seeds { c' with startup, solver := c'.solver.setGuess v } :=
  { h with
    same := { h.same with startup := hstartup }
    solver := (Newton.aligned_setGuess h.solver hk hv).1 }

theorem Sound.loaded (hc : c.Sound) (hinputs : c.Accepts inputs)
    (hseeds : ∀ s ∈ seeds, c.Accepts s) : c.Prepared inputs seeds (c.loaded inputs seeds) := by
  have hsizes := hc.system.inputs
  have hlengths : ∀ s ∈ seeds, s.map List.length =
      (c.solver.system.inputs.drop 1).map Pattern.nnz := fun s hs => (hseeds s hs).trans hsizes.symm
  obtain ⟨haligned, hin, htake, hcount, htables⟩ :=
    load_spec hc.system.square hc.solver (hinputs.trans hsizes.symm) hlengths
  exact {
    same := { SameProblem.refl c with }
    solver := haligned
    loaded := ⟨hin, htake⟩
    directions := hcount ▸ Nat.le_max_right ..
    sens := rfl
    tables := htables
    once := rfl
    solved := rfl }

omit [OrderedScalar α] in
theorem Accepts.exists_constantGuess (h : c.Accepts inputs) (hsize : 0 < c.blockSize)
    {v : List α} (hv : v.length = c.unknownCount) :
    ∃ guess, c.constantGuess (inputs[0]?.getD []) (inputs[2]?.getD []) v = .ok guess ∧
      guess.length = c.unknownCount := by
  have hat (i : Nat) : (inputs.map List.length)[i]? = c.inputSizes[i]? := congrArg (·[i]?) h
  have h₀ := hat 0
  have h₂ := hat 2
  simp only [List.getElem?_map] at h₀ h₂
  obtain ⟨x0, hx0, hnx⟩ := Option.map_eq_some_iff.1 h₀
  obtain ⟨rx0, hrx0, hnrx⟩ := Option.map_eq_some_iff.1 h₂
  rw [hx0, hrx0]
  exact ⟨_, constantGuess_ok hnx hnrx hsize hv, by simp [hnx, hnrx, unknownCount, blockSize]⟩

theorem Sound.prepare (hc : c.Sound) (hinputs : c.Accepts inputs)
    (hseeds : ∀ s ∈ seeds, c.Accepts s) :
    c.Prepared inputs seeds (c.prepare inputs seeds).1 ∧ NoMisuse (c.prepare inputs seeds).2 := by
  have hloaded := hc.loaded hinputs hseeds
  have hsystem := hloaded.same.hasSystem hc.system
  unfold Collocation.prepare
  split
  · exact ⟨hloaded, .ok ()⟩
  unfold initializeGuess
  cases hstartup : (c.loaded inputs seeds).startup with
  | none =>
    have hsame := hloaded.same.startup
    rw [hstartup] at hsame
    obtain ⟨guess, hguess, hlen⟩ := Accepts.exists_constantGuess (c := c.loaded inputs seeds)
      hinputs hsystem.blockSize_pos (hsystem.length_unknowns hloaded.solver)
    have hmade : (c.loaded inputs seeds).constantGuess ((c.loaded inputs seeds).inputs[0]?.getD [])
        ((c.loaded inputs seeds).inputs[2]?.getD []) (c.loaded inputs seeds).unknowns = .ok guess :=
      hguess
    dsimp only
    rw [hmade]
    exact ⟨hloaded.withGuess hsystem.square hlen hsame, .ok ()⟩
  | some s =>
    obtain ⟨hrate, hx⟩ := hc.startup s hstartup
    obtain ⟨hmisuse, hreset⟩ := s.reset_spec c.options.t0 inputs
    dsimp only
    rcases hs : s.reset (c.loaded inputs seeds).options.t0
        (c.loaded inputs seeds).inputs with e | s₁
    · exact ⟨hloaded, .error (hmisuse e hs)⟩
    · have hrestart := hreset s₁ hs
      have hlen := hsystem.length_unknowns hloaded.solver
      have hcover : (c.loaded inputs seeds).unknowns.length = (0 + c.times.length) * c.blockSize :=
        hlen.trans (by rw [Nat.zero_add, unknownCount]; rfl)
      obtain ⟨hrun, hguess, hfine, -⟩ := startupGuess_spec (c := c.loaded inputs seeds) (j := 0)
        (s := s₁) hc.system.blockSize_pos (hrestart.f ▸ hrate) (hrestart.states.trans hx) hcover
      rw [Nat.zero_mul, Nat.zero_add] at hrun hguess hfine
      refine ⟨hloaded.withGuess hsystem.square (hguess.trans hlen) ?_, hfine⟩
      rw [show c.startup = some s from hstartup]
      exact .some (hrestart.trans hrun)

end Collocation

end DiffGraph
