import Mathlib
import DiffGraph.Proofs.Collocation.Guess
import DiffGraph.Proofs.Collocation.Times

/-!
# The layout of the unknown vector

Block `m` of an unknown vector is a backward state (`backwardBlock`) with the next forward state
right behind it (`forwardBlock`). The assembly names its states that way
(`Discretization.elements_laidOut`), and so does everything that reads or writes the vector later:
both ways to make a first guess and the states that are read out of a solution
(`layout_and_times`).
-/

namespace DiffGraph

open Expr

variable {α : Type}

/-! ## Blocks -/

def backwardBlock (nx nrx m : Nat) (v : List α) : List α :=
  (v.drop (m * (nx + nrx))).take nrx

/-- The forward state in block `m`, behind the backward state. -/
def forwardBlock (nx nrx m : Nat) (v : List α) : List α :=
  (v.drop (m * (nx + nrx) + nrx)).take nx

section Blocks

variable {nx nrx m : Nat} {x rx v : List α}

theorem backwardBlock_append_succ (hx : x.length = nx) (hrx : rx.length = nrx) :
    backwardBlock nx nrx (m + 1) (rx ++ x ++ v) = backwardBlock nx nrx m v := by
  have hlen : (rx ++ x).length = nx + nrx := by simp [hx, hrx, Nat.add_comm]
  rw [backwardBlock, Nat.succ_mul, Nat.add_comm, ← List.drop_drop, ← hlen, List.drop_left, hlen]
  rfl

theorem forwardBlock_append_succ (hx : x.length = nx) (hrx : rx.length = nrx) :
    forwardBlock nx nrx (m + 1) (rx ++ x ++ v) = forwardBlock nx nrx m v := by
  have hlen : (rx ++ x).length = nx + nrx := by simp [hx, hrx, Nat.add_comm]
  have hstart : (m + 1) * (nx + nrx) + nrx = (nx + nrx) + (m * (nx + nrx) + nrx) := by
    rw [Nat.succ_mul]
    omega
  rw [forwardBlock, hstart, ← List.drop_drop, ← hlen, List.drop_left, hlen]
  rfl

theorem blocks_replicate (hx : x.length = nx) (hrx : rx.length = nrx) {count : Nat}
    (hm : m < count) :
    backwardBlock nx nrx m (List.replicate count (rx ++ x)).flatten = rx ∧
      forwardBlock nx nrx m (List.replicate count (rx ++ x)).flatten = x := by
  induction m generalizing count with
  | zero =>
    obtain ⟨count, rfl⟩ : ∃ c, count = c + 1 := ⟨count - 1, by omega⟩
    rw [List.replicate_succ, List.flatten_cons, List.append_assoc, backwardBlock, forwardBlock,
      Nat.zero_mul, Nat.zero_add, List.drop_zero, ← hrx, ← hx, List.take_left, List.drop_left,
      List.take_left]
    exact ⟨rfl, rfl⟩
  | succ m ih =>
    obtain ⟨count, rfl⟩ : ∃ c, count = c + 1 := ⟨count - 1, by omega⟩
    rw [List.replicate_succ, List.flatten_cons, backwardBlock_append_succ hx hrx,
      forwardBlock_append_succ hx hrx]
    exact ih (by omega)

/-- The first backward state and the last forward state are the ends of the vector. -/
theorem blocks_ends {count : Nat} (hcount : count ≠ 0) (hv : v.length = count * (nx + nrx)) :
    v.take nrx = backwardBlock nx nrx 0 v ∧
      v.drop (v.length - nx) = forwardBlock nx nrx (count - 1) v := by
  obtain ⟨count, rfl⟩ := Nat.exists_eq_succ_of_ne_zero hcount
  constructor
  · rw [backwardBlock, Nat.zero_mul, List.drop_zero]
  · have hstart : v.length - nx = count * (nx + nrx) + nrx := by
      rw [hv, Nat.succ_mul]
      omega
    rw [forwardBlock, Nat.succ_sub_one, ← hstart, List.take_of_length_le]
    rw [List.length_drop]
    omega

end Blocks

/-! ## The states of the assembly -/

theorem exists_mapM_range {β : Type} {step : Nat → Assemble α β} {P : Nat → β → Prop} {n : Nat}
    (h : ∀ j < n, ∃ y, step j = pure y ∧ P j y) :
    ∃ ys, (List.range n).mapM step = pure ys ∧ ys.length = n ∧
      ∀ j < n, ∃ y, ys[j]? = some y ∧ P j y := by
  induction n with
  | zero => exact ⟨[], rfl, rfl, fun j hj => absurd hj (Nat.not_lt_zero j)⟩
  | succ n ih =>
    obtain ⟨ys, hrun, hlen, hys⟩ := ih fun j hj => h j (Nat.lt_succ_of_lt hj)
    obtain ⟨y, hstep, hy⟩ := h n (Nat.lt_succ_self n)
    refine ⟨ys ++ [y], ?_, by simp [hlen], fun j hj => ?_⟩
    · rw [List.range_succ, List.mapM_append, hrun, List.mapM_cons, hstep]
      rfl
    · rcases Nat.lt_succ_iff_lt_or_eq.1 hj with hlt | rfl
      · rw [List.getElem?_append_left (by omega)]
        exact hys j hlt
      · exact ⟨y, by rw [← hlen, List.getElem?_concat_length], hy⟩

namespace Discretization

section Layout

variable [OrderedScalar α] {d : Discretization α} {t : Trajectory α} {n n' : Nat}
  {S : Set (Expr α)}

/-- The states of element `k` as the equations name them: the forward states and the backward
states at its points, and the forward state behind it. Backward state `j` is the start of block
`m`, counted over all elements, and the next forward state follows it. -/
structure LaidOut (d : Discretization α) (t : Trajectory α) (k : Nat)
    (xs rxs : List (Expr α)) (next : Expr α) : Prop where
  forward : d.statesOf (forwardState t) k = pure xs
  backward : d.statesOf (backwardState t) k = pure rxs
  behind : forwardState t ((k + 1) * (d.degree + 1)) = pure next
  ranges : ∀ j ≤ d.degree,
    let m := k * (d.degree + 1) + j
    let start := m * (d.fwd.nx + d.bwd.nrx)
    (Offsets.blocks d.blockOffsets)[2 * m]? = some (start, start + d.bwd.nrx) ∧
      (Offsets.blocks d.blockOffsets)[2 * m + 1]? =
        some (start + d.bwd.nrx, start + d.bwd.nrx + d.fwd.nx)
  states : ∀ j ≤ d.degree,
    let m := k * (d.degree + 1) + j
    ∃ rx x, rxs[j]? = some rx ∧ (xs ++ [next])[j + 1]? = some x ∧ ∀ env : Nat → Nat → α,
      nonzeros env rx = backwardBlock d.fwd.nx d.bwd.nrx m (nonzeros env t.v) ∧
      nonzeros env x = forwardBlock d.fwd.nx d.bwd.nrx m (nonzeros env t.v)

theorem blocks_of_trajectory (hS : IsGraph n S) (helements : d.elements ≠ 0)
    (h : d.trajectory n = .ok (t, n')) {i k : Nat} (hk : d.blockSizes[i]? = some k) : ∃ b, block t i = pure b ∧ ∀ env : Nat → Nat → α,
      nonzeros env b = ((nonzeros env t.v).drop (d.blockSizes.take i).sum).take k := by
  obtain ⟨S₀, hadd⟩ := d.exists_addsSymbols hS
  rw [d.trajectory_eq helements] at h
  split at h
  swap
  · cases h
  obtain ⟨blocks, n₁, hsplit, hrest⟩ := ok_of_step_bind h
  obtain ⟨rfl, -⟩ := Prod.mk.inj (Except.ok.inj hrest)
  have hv : (d.symbolsFrom n).v ∈ (d.symbolsFrom n).inputs := List.mem_cons_self
  have hgrow : Grows (fun _ => True) (n + 5) S₀
      (Assemble.onGraph ((d.symbolsFrom n).v.vertsplit (Offsets.ofSizes d.blockSizes)) :
        Assemble α _) _ :=
    .onGraph (grows_vertsplit hadd.graph (hadd.graph.usable_of_isSymbol (hadd.mem _ hv).1
      (hadd.mem _ hv).2.1) (by rw [sum_blockSizes]; rfl))
  obtain ⟨-, -, -, -, hvalues⟩ := hgrow.exists_of_ok hsplit
  have hat (env : Nat → Nat → α) : (blocks[i]?).map (nonzeros env) =
      some (((nonzeros env (d.symbolsFrom n).v).drop (d.blockSizes.take i).sum).take k) := by
    rw [← List.getElem?_map, hvalues, getElem?_chunks, hk]
    rfl
  obtain ⟨b, hb, -⟩ := Option.map_eq_some_iff.1 (hat fun _ _ => 0)
  refine ⟨b, ?_, fun env => ?_⟩
  · unfold block
    rw [hb]
  · have hvalue := hat env
    rw [hb] at hvalue
    exact Option.some.inj hvalue

theorem states_of_trajectory (hS : IsGraph n S) (helements : d.elements ≠ 0)
    (h : d.trajectory n = .ok (t, n')) {m : Nat} (hm : m < d.pointCount) :
    (∃ rx, backwardState t m = pure rx ∧ ∀ env : Nat → Nat → α,
      nonzeros env rx = backwardBlock d.fwd.nx d.bwd.nrx m (nonzeros env t.v)) ∧
    ∃ x, forwardState t (m + 1) = pure x ∧ ∀ env : Nat → Nat → α,
      nonzeros env x = forwardBlock d.fwd.nx d.bwd.nrx m (nonzeros env t.v) := by
  obtain ⟨_, hshapes⟩ := d.hasShapes_of_trajectory helements hS h
  obtain ⟨hfirst, hsecond, hsum⟩ := BlockTable.turns_pair hm d.fwd.nx d.bwd.nrx
  obtain ⟨rx, hrx, hback⟩ := blocks_of_trajectory hS helements h (i := 2 * m) hfirst
  obtain ⟨x, hx, hforw⟩ := blocks_of_trajectory hS helements h (i := 2 * m + 1) hsecond
  rw [blockSizes] at hback hforw
  rw [List.take_add_one, hfirst, List.sum_append, hsum, Nat.add_comm d.bwd.nrx] at hforw
  rw [hsum, Nat.add_comm d.bwd.nrx] at hback
  exact ⟨⟨rx, (hshapes.byTurns.backward m hm).trans hrx, hback⟩, x,
    (hshapes.byTurns.forward m hm).trans hx, hforw⟩

theorem elements_laidOut (hS : IsGraph n S) (h : d.trajectory n = .ok (t, n')) {k : Nat}
    (hk : k < d.elements) : ∃ xs rxs next, d.LaidOut t k xs rxs next := by
  have helements : d.elements ≠ 0 := Nat.ne_zero_of_lt hk
  obtain ⟨_, hshapes⟩ := d.hasShapes_of_trajectory helements hS h
  have hm {j : Nat} (hj : j ≤ d.degree) : k * (d.degree + 1) + j < d.pointCount :=
    d.index_lt hk hj
  have hforward (m : Nat) (hle : m ≤ d.pointCount) : ∃ x, forwardState t m = pure x ∧
      ∀ i, m = i + 1 → ∀ env : Nat → Nat → α,
        nonzeros env x = forwardBlock d.fwd.nx d.bwd.nrx i (nonzeros env t.v) := by
    cases m with
    | zero => exact ⟨t.x0, hshapes.byTurns.first, nofun⟩
    | succ i =>
      obtain ⟨-, x, hx, hvalue⟩ := states_of_trajectory hS helements h hle
      exact ⟨x, hx, fun i' hi => Nat.succ.inj hi ▸ hvalue⟩
  obtain ⟨xs, hxs, hxlen, hxvalue⟩ := exists_mapM_range fun j (hj : j < d.degree + 1) =>
    hforward _ (hm (Nat.lt_succ_iff.1 hj)).le
  obtain ⟨rxs, hrxs, -, hrxvalue⟩ := exists_mapM_range fun j (hj : j < d.degree + 1) =>
    (states_of_trajectory hS helements h (hm (Nat.lt_succ_iff.1 hj))).1
  obtain ⟨next, hnext, hnextvalue⟩ := hforward ((k + 1) * (d.degree + 1))
    (Nat.mul_le_mul_right _ hk)
  refine ⟨xs, rxs, next, hxs, hrxs, hnext, fun j hj => ?_, fun j hj => ?_⟩
  · obtain ⟨hfirst, hsecond, hsum⟩ := BlockTable.turns_pair (hm hj) d.fwd.nx d.bwd.nrx
    have hoffsets : d.blockOffsets = Offsets.ofSizes d.blockSizes :=
      (blockTable_spec helements).offsets
    rw [Nat.add_comm d.bwd.nrx] at hsum
    refine ⟨?_, ?_⟩
    · rw [hoffsets, blockSizes, Offsets.getElem?_blocks_ofSizes hfirst, hsum]
    · rw [hoffsets, blockSizes, Offsets.getElem?_blocks_ofSizes hsecond, List.take_add_one,
        hfirst, List.sum_append, hsum]
      rfl
  · obtain ⟨rx, hrx, hback⟩ := hrxvalue j (Nat.lt_succ_of_le hj)
    rcases Nat.lt_or_ge j d.degree with hlt | hge
    · obtain ⟨x, hx, hforw⟩ := hxvalue (j + 1) (Nat.succ_lt_succ hlt)
      refine ⟨rx, x, hrx, ?_, fun env => ⟨hback env, hforw _ rfl env⟩⟩
      rw [List.getElem?_append_left (by omega), hx]
    · obtain rfl : j = d.degree := Nat.le_antisymm hj hge
      refine ⟨rx, next, hrx, ?_, fun env => ⟨hback env, hnextvalue _ ?_ env⟩⟩
      · rw [← hxlen, List.getElem?_concat_length]
      · rw [Nat.succ_mul, Nat.add_assoc]

end Layout

end Discretization

/-! ## Writing states -/

namespace Collocation

section Writing

variable {c : Collocation α} {x u v : List α} {j m : Nat}

theorem ext_of_length_le {xs ys : List α} {n : Nat} (hx : xs.length ≤ n) (hy : ys.length ≤ n)
    (h : ∀ i < n, xs[i]? = ys[i]?) : xs = ys := by
  refine List.ext_getElem? fun i => ?_
  rcases Nat.lt_or_ge i n with hlt | hge
  · exact h i hlt
  · rw [List.getElem?_eq_none (hx.trans hge), List.getElem?_eq_none (hy.trans hge)]

theorem getElem?_forwardBlock (c : Collocation α) (m : Nat) (v : List α) {i : Nat}
    (hi : i < c.fwd.nx) : (forwardBlock c.fwd.nx c.bwd.nrx m v)[i]? =
      v[m * c.blockSize + c.bwd.nrx + i]? := by
  rw [forwardBlock, List.getElem?_take_of_lt hi, List.getElem?_drop, blockSize,
    Nat.add_comm c.fwd.nx]

theorem forwardBlock_congr (hsize : 0 < c.blockSize)
    (h : ∀ i, i / c.blockSize = m → c.IsForward i → u[i]? = v[i]?) :
    forwardBlock c.fwd.nx c.bwd.nrx m u = forwardBlock c.fwd.nx c.bwd.nrx m v := by
  refine ext_of_length_le (List.length_take_le ..) (List.length_take_le ..) fun i hi => ?_
  obtain ⟨hdiv, hforward⟩ := (c.mem_block_iff hsize m _).1
    ⟨Nat.le_add_right _ i, Nat.add_lt_add_left hi _⟩
  rw [getElem?_forwardBlock c m u hi, getElem?_forwardBlock c m v hi]
  exact h _ hdiv hforward

theorem backwardBlock_congr (h : ∀ i, ¬ c.IsForward i → u[i]? = v[i]?) :
    backwardBlock c.fwd.nx c.bwd.nrx m u = backwardBlock c.fwd.nx c.bwd.nrx m v := by
  refine ext_of_length_le (List.length_take_le ..) (List.length_take_le ..) fun i hi => ?_
  have hback : ¬ c.IsForward (m * (c.fwd.nx + c.bwd.nrx) + i) := by
    rw [IsForward, blockSize, Nat.add_comm c.fwd.nx, Nat.mul_comm, Nat.mul_add_mod,
      Nat.mod_eq_of_lt (by omega)]
    omega
  rw [backwardBlock, backwardBlock, List.getElem?_take_of_lt hi, List.getElem?_take_of_lt hi,
    List.getElem?_drop, List.getElem?_drop]
  exact h _ hback

theorem forwardBlock_putState (hx : x.length = c.fwd.nx)
    (hv : (j + 1) * c.blockSize ≤ v.length) :
    forwardBlock c.fwd.nx c.bwd.nrx j (c.putState j x v) = x := by
  refine ext_of_length_le (List.length_take_le ..) hx.le fun i hi => ?_
  rw [getElem?_forwardBlock c j _ hi, getElem?_putState hx hv,
    if_pos ⟨Nat.le_add_right _ i, Nat.add_lt_add_left hi _⟩, Nat.add_sub_cancel_left]

end Writing

/-! ## Guesses -/

section Startup

variable [OrderedScalar α] {c : Collocation α} {s : Startup α} {ts v : List α} {j : Nat}

/-- The startup integrator follows the times, and the state at each of them goes to its block. -/
theorem startupGuess_follow (hsize : 0 < c.blockSize) (hs : Startup.IsRate s.f)
    (hx : s.x.length = c.fwd.nx) (hv : v.length = (j + ts.length) * c.blockSize) :
    let r := c.startupGuess ts s (j * c.blockSize + c.bwd.nrx) v
    match s.follow ts with
    | .error e => r.2.2 = .error e
    | .ok _ => r.2.2 = .ok () ∧
      (∀ m < ts.length, ∃ s₁, s.follow (ts.take (m + 1)) = .ok s₁ ∧
        forwardBlock c.fwd.nx c.bwd.nrx (j + m) r.2.1 = s₁.x) ∧
      ∀ m < j, forwardBlock c.fwd.nx c.bwd.nrx m r.2.1 =
        forwardBlock c.fwd.nx c.bwd.nrx m v := by
  induction ts generalizing s j v with
  | nil => exact ⟨rfl, fun m hm => absurd hm (Nat.not_lt_zero m), fun _ _ => rfl⟩
  | cons t ts ih =>
    obtain ⟨hsame, -⟩ := Startup.integrate_spec hs t
    have hfits : (j + 1) * c.blockSize ≤ v.length := by
      rw [hv, List.length_cons]
      exact Nat.mul_le_mul_right _ (by omega)
    rw [startupGuess_cons hs hx hfits, Startup.follow]
    rcases hint : s.integrate t with ⟨s₁, e | u⟩
    · exact rfl
    rw [hint] at hsame
    have hx₁ : s₁.x.length = c.fwd.nx := hsame.states.trans hx
    have hlen := length_putState (x := s₁.x) hx₁ hfits
    have hrest := ih (s := s₁) (j := j + 1) (v := c.putState j s₁.x v) (hsame.f ▸ hs) hx₁
      (by rw [hlen, hv, List.length_cons, Nat.add_right_comm, Nat.add_assoc])
    dsimp only at hrest ⊢
    generalize c.startupGuess ts s₁ ((j + 1) * c.blockSize + c.bwd.nrx)
      (c.putState j s₁.x v) = r at hrest ⊢
    cases hfollow : s₁.follow ts with
    | error e =>
      rw [hfollow] at hrest
      exact hrest
    | ok s₂ =>
      rw [hfollow] at hrest
      obtain ⟨hok, hblocks, hbefore⟩ := hrest
      refine ⟨hok, fun m hm => ?_, fun m hm => ?_⟩
      · rw [List.take_succ_cons, Startup.follow, hint]
        dsimp only
        cases m with
        | zero => exact ⟨s₁, rfl, (hbefore j (Nat.lt_succ_self j)).trans
            (forwardBlock_putState hx₁ hfits)⟩
        | succ m =>
          rw [← Nat.add_assoc, Nat.add_right_comm]
          exact hblocks m (Nat.lt_of_succ_lt_succ hm)
      · refine (hbefore m (Nat.lt_succ_of_lt hm)).trans (forwardBlock_congr hsize fun i hi _ => ?_)
        exact putState_other hsize hx₁ hfits fun h => hm.ne (hi.symm.trans h.1)

omit [OrderedScalar α] in
theorem accepts_iff {x0 p rx0 rp : List α} : c.Accepts [x0, p, rx0, rp] ↔
    x0.length = c.fwd.nx ∧ p.length = c.fwd.np ∧ rx0.length = c.bwd.nrx ∧
      rp.length = c.bwd.nrp := by
  simp [Accepts, inputSizes]

omit [OrderedScalar α] in
theorem Accepts.reset_eq {x0 p rx0 rp : List α} (h : c.Accepts [x0, p, rx0, rp])
    (hx : s.x.length = c.fwd.nx) (t0 : α) :
    s.reset t0 [x0, p, rx0, rp] = .ok { s with t := t0, x := x0, p } := by
  have hlen : x0.length = s.x.length := (accepts_iff.1 h).1.trans hx.symm
  unfold Startup.reset
  dsimp only
  rw [if_neg (not_not.2 hlen)]

structure IsConstantGuess (c : Collocation α) (x0 rx0 v : List α) : Prop where
  length : v.length = c.times.length * (c.fwd.nx + c.bwd.nrx)
  forward : ∀ m < c.times.length, forwardBlock c.fwd.nx c.bwd.nrx m v = x0
  backward : ∀ m < c.times.length, backwardBlock c.fwd.nx c.bwd.nrx m v = rx0

omit [OrderedScalar α] in
theorem isConstantGuess_replicate {x0 rx0 : List α} (hx : x0.length = c.fwd.nx)
    (hrx : rx0.length = c.bwd.nrx) :
    c.IsConstantGuess x0 rx0 (List.replicate c.times.length (rx0 ++ x0)).flatten :=
  ⟨by simp [hx, hrx, Nat.add_comm], fun m hm => (blocks_replicate hx hrx hm).2,
    fun m hm => (blocks_replicate hx hrx hm).1⟩

/-- Every forward block holds the state of the startup integrator at the time of the block; the
backward states are those of the vector before. -/
structure IsStartupGuess (c : Collocation α) (s : Startup α) (before v : List α) : Prop where
  length : v.length = c.times.length * (c.fwd.nx + c.bwd.nrx)
  forward : ∀ m t, c.times[m]? = some t → ∃ s', s.follow (c.times.take (m + 1)) = .ok s' ∧
    s'.t = t ∧ forwardBlock c.fwd.nx c.bwd.nrx m v = s'.x
  backward : ∀ m, backwardBlock c.fwd.nx c.bwd.nrx m v = backwardBlock c.fwd.nx c.bwd.nrx m before

end Startup

section Exact

variable [ExactNumerals α] {c : Collocation α} {s s₀ : Startup α} {inputs : List (List α)}

/-- The guess is made if the startup integrator can follow the times, and fails as it does. -/
theorem Sound.startedGuess_follow (hc : c.Sound) (hs : c.startup = some s)
    (hreset : s.reset c.options.t0 inputs = .ok s₀) :
    match s₀.follow c.times with
    | .error e => c.startedGuess s inputs = .error e
    | .ok _ => ∃ v, c.startedGuess s inputs = .ok v ∧ c.IsStartupGuess s₀ c.unknowns v := by
  obtain ⟨hrate, hx⟩ := hc.startup s hs
  have hrestart := (s.reset_spec c.options.t0 inputs).2 s₀ hreset
  have hrate₀ : Startup.IsRate s₀.f := hrestart.f ▸ hrate
  have hx₀ : s₀.x.length = c.fwd.nx := hrestart.states.trans hx
  have hlen := hc.system.length_unknowns hc.solver
  have hcover : c.unknowns.length = (0 + c.times.length) * c.blockSize :=
    hlen.trans (by rw [Nat.zero_add, unknownCount])
  have hsize := hc.system.blockSize_pos
  have hfollow := startupGuess_follow (j := 0) hsize hrate₀ hx₀ hcover
  obtain ⟨-, hkeep, -, hback⟩ := startupGuess_spec (j := 0) hsize hrate₀ hx₀ hcover
  rw [Nat.zero_mul, Nat.zero_add] at hfollow hkeep hback
  unfold startedGuess
  rw [hreset]
  dsimp only at hfollow ⊢
  generalize c.startupGuess c.times s₀ c.bwd.nrx c.unknowns = r at hfollow hkeep hback ⊢
  obtain ⟨s₁, v, result⟩ := r
  cases hrun : s₀.follow c.times with
  | error e =>
    rw [hrun] at hfollow
    obtain rfl : result = .error e := hfollow
    rfl
  | ok s₂ =>
    rw [hrun] at hfollow
    obtain ⟨hok, hblocks, -⟩ := hfollow
    obtain rfl : result = .ok () := hok
    refine ⟨v, rfl, ?_, fun m t hm => ?_, fun m => backwardBlock_congr hback⟩
    · rw [hkeep, hlen, unknownCount, blockSize, Nat.add_comm c.fwd.nx]
    · obtain ⟨s', hs', hvalue⟩ := hblocks m (List.getElem?_eq_some_iff.1 hm).1
      rw [Nat.zero_add] at hvalue
      exact ⟨s', hs', Startup.time_of_follow hm hs', hvalue⟩

end Exact

/-! ## Reading states -/

section Read

variable [OrderedScalar α] {c c' : Collocation α}

/-- The states that were read are the first backward state and the last forward state of the
solution, and so are their sensitivities. -/
structure ReadsEnds (c c' : Collocation α) : Prop where
  rxf : c'.outputs.rxf = backwardBlock c.fwd.nx c.bwd.nrx 0 c.unknowns
  xf : c'.outputs.xf = forwardBlock c.fwd.nx c.bwd.nrx (c.times.length - 1) c.unknowns
  directions : c'.sens.length = c.sens.length
  sens : ∀ (dir : Nat) (q : Quantities α), c'.sens[dir]? = some q →
    ∃ v rest, c.solver.sens[dir]? = some (v :: rest) ∧
      q.rxf = backwardBlock c.fwd.nx c.bwd.nrx 0 v ∧
      q.xf = forwardBlock c.fwd.nx c.bwd.nrx (c.times.length - 1) v

theorem Sound.withStates_blocks (hc : c.Sound) (q : Quantities α) {v : List α}
    (hv : v.length = c.unknownCount) :
    (c.withStates q v).rxf = backwardBlock c.fwd.nx c.bwd.nrx 0 v ∧
      (c.withStates q v).xf = forwardBlock c.fwd.nx c.bwd.nrx (c.times.length - 1) v :=
  blocks_ends (mt List.length_eq_zero_iff.1 hc.system.points)
    (hv.trans (by rw [unknownCount, blockSize, Nat.add_comm]))

theorem Sound.readsEnds (hc : c.Sound) : c.ReadsEnds c.withSolution := by
  obtain ⟨hrx, hx⟩ := hc.withStates_blocks c.outputs (hc.system.length_unknowns hc.solver)
  refine ⟨hrx, hx, by simp [Collocation.withSolution, hc.sens], fun dir q hq => ?_⟩
  have hq : (((c.sens.zip c.solver.sens)[dir]?).map fun pair =>
      c.withStates pair.1 (pair.2.headD [])) = some q := by
    rw [← List.getElem?_map]
    exact hq
  obtain ⟨⟨q', s⟩, hpair, rfl⟩ := Option.map_eq_some_iff.1 hq
  have hs := (List.getElem?_zip_eq_some.1 hpair).2
  obtain ⟨v, rest, rfl, hv⟩ := Newton.exists_head hc.system.square
    (hc.solver.sens s (List.mem_of_getElem? hs))
  exact ⟨v, rest, hs, hc.withStates_blocks q' hv⟩

end Read

/-! ## All users of the unknown vector -/

section Agreement

variable [ExactNumerals α] {c₀ : Collocation α} {s s₀ : Startup α} {f : Function α}
  {g : Option (Function α)} {options : CollocationOptions α} {n n' : Nat} {S : Set (Expr α)}

omit [ExactNumerals α] in
theorem SameProblem.exists_startup {c c' : Collocation α} (h : c.SameProblem c')
    (hs : c'.startup = some s) : ∃ s₀, c.startup = some s₀ ∧ s₀.SameSetup s := by
  have hrel := h.startup
  rw [hs] at hrel
  generalize c.startup = startup at hrel ⊢
  cases hrel with
  | some hsame => exact ⟨_, rfl, hsame⟩

theorem args_of_create (hS : IsGraph n S) (hf : f.Compiled S)
    (hg : ∀ g', g = some g' → g'.Compiled S) (h : create f g options n = .ok (c₀, n'))
    (hs : c₀.startup = some s) {time : Expr α} (htime : f.inputs[2]? = some time)
    (hone : time.nnz = 1) : s.f.inputs.map nnz = [c₀.fwd.nx, c₀.fwd.np, 1] := by
  obtain ⟨d, n₁, S₁, -, -, h₁, hchecked, hd, -, -, -, -, -, hnew⟩ := residual_of_create hS hf hg h
  have hsizes := Problem.forwardSizes_spec hd.fwd
  obtain ⟨name, hcreate⟩ := hnew.startup s hs
  unfold createStartup at hcreate
  split at hcreate
  swap
  · cases hcreate
  obtain ⟨hfunction, -, -⟩ := Startup.create_spec h₁ hchecked.forward hcreate
  have hcount : f.inputs.length = 3 :=
    hd.forward.inputs ▸ Startup.length_inputs_of_create hcreate
  rw [hfunction, hd.forward.inputs, hnew.fwd]
  obtain ⟨x, p, t, hinputs⟩ := List.length_eq_three.1 hcount
  rw [hinputs] at htime ⊢
  obtain rfl := Option.some.inj htime
  have hx : x.nnz = d.fwd.nx := Problem.nnz_of_columnLength hsizes.nx (by rw [hinputs]; rfl)
  have hp : p.nnz = d.fwd.np := Problem.nnz_of_columnLength hsizes.np (by rw [hinputs]; rfl)
  simp [hx, hp, hone]

variable [LinearOrder α] [OrderedNumerals α]

theorem Sound.integrate_readsEnds {c : Collocation α} (hc : c.Sound) (hsolved : c.solved = true)
    {t : α} (hstart : c.options.t0 ≤ t) (hend : t ≤ c.options.tf) :
    ∃ c', c.integrate t = .ok c' ∧ c.ReadsEnds c' := by
  have honce := hc.once hsolved
  have hinside : ¬ (OrderedScalar.less t c.options.t0 || OrderedScalar.less c.options.tf t) =
      true := by
    rw [Bool.or_eq_true, OrderedNumerals.less_iff, OrderedNumerals.less_iff]
    exact not_or.2 ⟨hstart.not_gt, hend.not_gt⟩
  refine ⟨c.withSolution, ?_, hc.readsEnds⟩
  unfold Collocation.integrate
  rw [if_neg (by simp [honce]), if_neg (by simp [hsolved]), if_neg hinside]
  rfl

section Guess

variable {c : Collocation α} {x0 p rx0 rp : List α}

omit [LinearOrder α] [OrderedNumerals α] in
theorem Sound.guess_constant (hc : c.Sound)
    (hcold : ¬ (c.options.hotstart && c.integratedOnce) = true) (hs : c.startup = none)
    (haccepts : c.Accepts [x0, p, rx0, rp]) (seeds : List (List (List α))) :
    ∃ v, c.guess [x0, p, rx0, rp] seeds = .ok v ∧ c.IsConstantGuess x0 rx0 v := by
  obtain ⟨hx, -, hrx, -⟩ := accepts_iff.1 haccepts
  refine ⟨_, ?_, isConstantGuess_replicate hx hrx⟩
  rw [hc.guess_eq, if_neg hcold, hs]
  exact constantGuess_ok hx hrx hc.system.blockSize_pos (hc.system.length_unknowns hc.solver)

/-- A startup integrator follows the times to make the guess; it fails only at a function that
does not take the states, the parameters and a time. -/
theorem Sound.guess_startup (hc : c.Sound)
    (hcold : ¬ (c.options.hotstart && c.integratedOnce) = true) (hs : c.startup = some s)
    (haccepts : c.Accepts [x0, p, rx0, rp])
    (hsorted : (c.options.t0 :: c.times).Pairwise (· ≤ ·)) (seeds : List (List (List α))) :
    ∃ s₀, s.reset c.options.t0 [x0, p, rx0, rp] = .ok s₀ ∧ s₀.NeverGoesBack c.times ∧
      match c.guess [x0, p, rx0, rp] seeds with
      | .ok v => c.IsStartupGuess s₀ c.unknowns v
      | .error _ => s.f.inputs.map nnz ≠ [c.fwd.nx, c.fwd.np, 1] := by
  obtain ⟨hrate, hx⟩ := hc.startup s hs
  have hreset := haccepts.reset_eq hx c.options.t0
  have hfollow := hc.startedGuess_follow hs hreset
  refine ⟨_, hreset, Startup.neverGoesBack hsorted, ?_⟩
  rw [hc.guess_eq, if_neg hcold, hs]
  dsimp only
  cases hrun : Startup.follow { s with t := c.options.t0, x := x0, p } c.times with
  | ok s₁ =>
    rw [hrun] at hfollow
    obtain ⟨v, hv, hguess⟩ := hfollow
    rw [hv]
    exact hguess
  | error e =>
    rw [hrun] at hfollow
    rw [hfollow]
    intro hargs
    obtain ⟨hx0, hp, -⟩ := accepts_iff.1 haccepts
    have hruns : Startup.Runs { s with t := c.options.t0, x := x0, p } :=
      ⟨hrate, hargs.trans (by rw [← hx0, ← hp])⟩
    obtain ⟨s₁, hs₁⟩ := hruns.exists_follow hsorted
    rw [hrun] at hs₁
    cases hs₁

end Guess

/-- All users of the unknown vector agree on where the states are and when. The assembly names the
parts of the vector as states block by block, and the times are those that the equations have at
the forward states. Unless a solve starts from the last solution, its guess repeats the initial
states in all blocks, or each forward block is the state at its own time of a startup integrator
that never goes back; this one fails only at a problem that does not take a time. The states that
are read at the end are the first backward block and the last forward block. -/
theorem layout_and_times (hS : IsGraph n S) (hf : f.Compiled S)
    (hg : ∀ g', g = some g' → g'.Compiled S) (h : create f g options n = .ok (c₀, n')) :
    (∃ d n₁ t n₂, discretize f g options n = .ok (d, n₁) ∧ d.trajectory n₁ = .ok (t, n₂) ∧
      d.fwd = c₀.fwd ∧ d.bwd = c₀.bwd ∧ d.degree = options.degree ∧
      ∀ k < options.elements, ∃ xs rxs next, d.LaidOut t k xs rxs next) ∧
    (∃ points, options.scheme.points options.degree = .ok points ∧
      options.HasTimes points c₀.times ∧ ∀ v x0 p rx0 rp k j,
        (transcription f g options c₀.fwd c₀.bwd points v x0 p rx0 rp).time k j =
          options.stateTime points k j) ∧
    ∀ calls x0 p rx0 rp seeds, c₀.Accepts [x0, p, rx0, rp] →
      let c := c₀.after calls
      c₀.SameProblem c ∧
      (¬ (options.hotstart = true ∧ c.integratedOnce = true) →
        match c.startup with
        | none => ∃ v, c.guess [x0, p, rx0, rp] seeds = .ok v ∧ c.IsConstantGuess x0 rx0 v
        | some s => ∃ s₀, s.reset options.t0 [x0, p, rx0, rp] = .ok s₀ ∧
          s₀.NeverGoesBack c.times ∧
          match c.guess [x0, p, rx0, rp] seeds with
          | .ok v => c.IsStartupGuess s₀ c.unknowns v
          | .error _ => ∃ time, f.inputs[2]? = some time ∧ time.nnz ≠ 1) ∧
      ∀ t, c.solved = true → options.t0 ≤ t → t ≤ options.tf →
        ∃ c', c.integrate t = .ok c' ∧ c.ReadsEnds c' := by
  obtain ⟨hsound₀, -, -, hoptions⟩ := sound_of_create hS hf hg h
  obtain ⟨d, n₁, r, n₂, n₃, hdisc, hres, -, hnew⟩ := exists_of_create h
  obtain ⟨S₁, h₁, hchecked, hd⟩ := discretization_of_ok hS hf hg hdisc
  have htimes : options.HasTimes d.points c₀.times := by
    rw [Discretization.times_of_residual hres]
    exact hd.hasTimes hchecked.elements (horizon_of_discretize hdisc)
  refine ⟨?_, ⟨d.points, hd.points, htimes, fun _ _ _ _ _ _ _ => rfl⟩,
    fun calls x0 p rx0 rp seeds haccepts => ?_⟩
  · have hrun := hres
    rw [d.residual_eq] at hrun
    obtain ⟨t, n₄, htrajectory, -⟩ := ok_of_step_bind hrun
    exact ⟨d, n₁, t, n₄, hdisc, htrajectory, hnew.fwd.symm, hnew.bwd.symm, hd.degree,
      fun k hk => Discretization.elements_laidOut h₁.graph htrajectory (hd.elements ▸ hk)⟩
  intro c
  obtain ⟨hsound, hsame⟩ := hsound₀.after calls
  have hoptions' : c.options = options := hsame.options.trans hoptions
  have htimes' : options.HasTimes d.points c.times := hsame.times ▸ htimes
  have haccepts' : c.Accepts [x0, p, rx0, rp] := hsame.accepts_eq ▸ haccepts
  refine ⟨hsame, fun hhot => ?_, fun t hsolved hstart hend => ?_⟩
  · have hcold : ¬ (c.options.hotstart && c.integratedOnce) = true := by
      rwa [Bool.and_eq_true, hoptions']
    cases hs : c.startup with
    | none => exact hsound.guess_constant hcold hs haccepts' seeds
    | some s =>
      have hguess := hsound.guess_startup hcold hs haccepts' (hoptions' ▸ htimes'.sorted_from) seeds
      rw [hoptions'] at hguess
      obtain ⟨s₀, hreset, hforth, hguess⟩ := hguess
      refine ⟨s₀, hreset, hforth, ?_⟩
      split
      · rename_i v hv
        rw [hv] at hguess
        exact hguess
      · rename_i e he
        rw [he] at hguess
        obtain ⟨time, htime⟩ : ∃ time, f.inputs[2]? = some time :=
          ⟨_, List.getElem?_eq_getElem (Problem.forwardSizes_spec hd.fwd).inputs.1⟩
        obtain ⟨s₁, hs₁, hstartup⟩ := hsame.exists_startup hs
        refine ⟨_, htime, fun hone => hguess ?_⟩
        rw [hstartup.f, hsame.fwd]
        exact args_of_create hS hf hg h hs₁ htime hone
  · exact hsound.integrate_readsEnds hsolved (hoptions' ▸ hstart) (hoptions' ▸ hend)

end Agreement

/-- Growth by the factor 65/24 over each of two elements, which is the one of a classical step of
length one; both points of an element are at its end, and the backward states are still zero. -/
theorem layout_and_times_growth :
    ∃ c n' s₀, create Growth.problem (some Growth.backward)
        { Growth.twoElements with startup := some "rk4", startupOptions := ⟨1⟩ } 8 =
        .ok (c, n') ∧
      c.times = [1, 1, 2, 2] ∧
      c.guess [[576], [1], [3], [1]] [] = .ok [0, 1560, 0, 1560, 0, 4225, 0, 4225] ∧
      s₀.NeverGoesBack c.times ∧
      c.IsStartupGuess s₀ c.unknowns [0, 1560, 0, 1560, 0, 4225, 0, 4225] := by
  obtain ⟨S, hS, hf, hg⟩ := Growth.exists_compiled_backward
  have hprobe : probe Growth.problem (some Growth.backward)
      { Growth.twoElements with startup := some "rk4", startupOptions := ⟨1⟩ } 8 (fun c =>
        (c.guess [[576], [1], [3], [1]] []).toOption.map fun v =>
          (v, c.times, c.inputSizes, c.startup.isSome, c.integratedOnce)) =
      some ([0, 1560, 0, 1560, 0, 4225, 0, 4225], [1, 1, 2, 2], [1, 1, 1, 1], true, false) := by
    cbv
  obtain ⟨c, n', hcreate, hask⟩ := exists_of_probe hprobe
  obtain ⟨v, hguess, heq⟩ := Option.map_eq_some_iff.1 hask
  obtain ⟨rfl, htimes, hsizes, hstartup, honce⟩ :
      v = [0, 1560, 0, 1560, 0, 4225, 0, 4225] ∧ c.times = [1, 1, 2, 2] ∧
        c.inputSizes = [1, 1, 1, 1] ∧ c.startup.isSome = true ∧ c.integratedOnce = false := by
    simpa using heq
  obtain ⟨-, -, hcalls⟩ := layout_and_times hS hf (by rintro _ ⟨⟩; exact hg) hcreate
  obtain ⟨-, hcold, -⟩ := hcalls [] [576] [1] [3] [1] [] hsizes.symm
  have hmade := hcold (by simp [after, honce])
  obtain ⟨s, hs⟩ := Option.isSome_iff_exists.1 hstartup
  rw [after, hs] at hmade
  obtain ⟨s₀, -, hforth, hmade⟩ := hmade
  rw [ok_of_toOption hguess] at hmade
  exact ⟨c, n', s₀, hcreate, htimes, ok_of_toOption hguess, hforth, hmade⟩

end Collocation

end DiffGraph
