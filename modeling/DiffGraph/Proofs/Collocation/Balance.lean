import Mathlib
import DiffGraph.Proofs.Collocation.System

/-!
# As many equations as unknowns

The blocks of the unknown vector are the states behind the start and before the end, each of
them once (`Trajectory.CoversBlocks`). So the equations of a problem that passed its checks
are as many as its unknowns, whatever the numbers are (`equations_match_unknowns`).
-/

namespace DiffGraph

open Expr

variable {α : Type} {n : Nat} {S : Set (Expr α)}

/-! ## Every block is a state -/

theorem exists_firsts_seconds {β : Type} {count : Nat} {xs : List β} (h : xs.length = 2 * count) :
    ∃ firsts seconds : List β, firsts.length = count ∧ seconds.length = count ∧
      (∀ m < count, xs[2 * m]? = firsts[m]?) ∧ (∀ m < count, xs[2 * m + 1]? = seconds[m]?) ∧
        (seconds ++ firsts).Perm xs := by
  induction count generalizing xs with
  | zero =>
    obtain rfl := List.length_eq_zero_iff.1 h
    exact ⟨[], [], rfl, rfl, by simp, by simp, .nil⟩
  | succ count ih =>
    obtain ⟨a, b, xs, rfl⟩ : ∃ a b ys, xs = a :: b :: ys := by
      rcases xs with _ | ⟨a, _ | ⟨b, xs⟩⟩
      · simp at h
      · simp at h
        omega
      · exact ⟨a, b, xs, rfl⟩
    have hrest : xs.length = 2 * count := by
      simp only [List.length_cons] at h
      omega
    obtain ⟨firsts, seconds, hfirsts, hseconds, hfirst, hsecond, hperm⟩ := ih hrest
    refine ⟨a :: firsts, b :: seconds, by simp [hfirsts], by simp [hseconds], fun m hm => ?_,
      fun m hm => ?_, ?_⟩
    · cases m with
      | zero => rfl
      | succ m => simpa [Nat.mul_succ] using hfirst m (by omega)
    · cases m with
      | zero => rfl
      | succ m => simpa [Nat.mul_succ] using hsecond m (by omega)
    · exact List.perm_middle.trans ((hperm.cons b).cons a)

theorem mapM_range'_eq_pure {β : Type} {step : Nat → Assemble α β} {ys : List β} {k : Nat}
    (h : ∀ (m : Nat) y, ys[m]? = some y → step (k + m) = pure y) :
    (List.range' k ys.length).mapM step = pure ys := by
  induction ys generalizing k with
  | nil => rfl
  | cons y ys ih =>
    rw [List.length_cons, List.range'_succ, List.mapM_cons, show step k = pure y from h 0 y rfl,
      pure_bind, ih fun m z hz => ?_, pure_bind]
    exact (congrArg step (by omega)).trans (h (m + 1) z hz)

/-- The states behind the start and before the end are the blocks, each of them once. -/
def Trajectory.CoversBlocks (d : Discretization α) (t : Trajectory α) : Prop :=
  ∃ xs rxs : List (Expr α),
    (List.range (d.pointCount + 1)).mapM (Discretization.forwardState t) =
      (pure (t.x0 :: xs) : Assemble α _) ∧
    (List.range (d.pointCount + 1)).mapM (Discretization.backwardState t) =
      (pure (rxs ++ [t.rx0]) : Assemble α _) ∧
    (xs ++ rxs).Perm t.blocks

namespace Trajectory.HasShapes

variable {d : Discretization α} {t : Trajectory α}

theorem length_blocks (ht : t.HasShapes d S) : t.blocks.length = 2 * d.pointCount := by
  have hlen := congrArg List.length ht.blockPatterns
  rw [List.length_map, List.length_map] at hlen
  exact hlen.trans d.length_blockSizes

theorem coversBlocks (ht : t.HasShapes d S) : t.CoversBlocks d := by
  obtain ⟨rxs, xs, hrxs, hxs, hfirst, hsecond, hperm⟩ := exists_firsts_seconds ht.length_blocks
  have hblock {i : Nat} {x : Expr α} (hx : t.blocks[i]? = some x) :
      (Discretization.block t i : Assemble α _) = pure x := by
    unfold Discretization.block
    rw [hx]
  refine ⟨xs, rxs, ?_, ?_, hperm⟩
  · rw [← hxs, List.range_eq_range', ← List.length_cons]
    refine mapM_range'_eq_pure fun m x hx => ?_
    rw [Nat.zero_add]
    cases m with
    | zero => exact ht.byTurns.first.trans (congrArg pure (Option.some.inj hx))
    | succ m =>
      have hm : m < d.pointCount := hxs ▸ Nat.lt_of_succ_lt_succ (List.getElem?_eq_some_iff.1 hx).1
      exact (ht.byTurns.forward m hm).trans (hblock ((hsecond m hm).trans hx))
  · have hlen : (rxs ++ [t.rx0]).length = d.pointCount + 1 := by simp [hrxs]
    rw [← hlen, List.range_eq_range']
    refine mapM_range'_eq_pure fun m x hx => ?_
    rw [Nat.zero_add]
    have hle : m ≤ d.pointCount := by
      rw [← Nat.lt_succ_iff, Nat.succ_eq_add_one, ← hlen]
      exact (List.getElem?_eq_some_iff.1 hx).1
    rcases hle.eq_or_lt with rfl | hm
    · rw [← hrxs, List.getElem?_concat_length] at hx
      exact ht.byTurns.last.trans (congrArg pure (Option.some.inj hx))
    · rw [List.getElem?_append_left (hrxs ▸ hm)] at hx
      exact (ht.byTurns.backward m hm).trans (hblock ((hfirst m hm).trans hx))

end Trajectory.HasShapes

/-! ## The counts -/

namespace Collocation

variable [OrderedScalar α] {f : Function α} {g : Option (Function α)}
  {options : CollocationOptions α}

/-- A problem that passes its checks has a discretisation. Its blocks end at the number of unknowns,
and each of them is one state; the residual has an equation for every unknown, and it is refused
only by a constructor of the graph, because a function cannot be called with the states or the
memory is too small. -/
theorem equations_match_unknowns (hS : IsGraph n S) (hf : f.Compiled S)
    (hg : ∀ g', g = some g' → g'.Compiled S) (hok : Discretizable f g options) :
    ∃ d n', discretize f g options n = .ok (d, n') ∧
      Problem.forwardSizes f = .ok d.fwd ∧
      (∀ g', g = some g' → Problem.backwardSizes g' d.fwd = .ok d.bwd) ∧
      (g = none → d.bwd.nrx = 0) ∧
      d.unknowns = options.elements * (options.degree + 1) * (d.fwd.nx + d.bwd.nrx) ∧
      d.blockOffsets.getLast? = some d.unknowns ∧
      (∀ t n'', d.trajectory n' = .ok (t, n'') → t.v.nnz = d.unknowns ∧ t.CoversBlocks d) ∧
      match d.residual n' with
      | .error e => (∃ e', e = .graph e') ∧ ¬ d.Manageable
      | .ok ((r, _), _) => (r.outputs.map nnz)[0]? = some d.unknowns := by
  have hgrow : Grows (fun _ => ¬ True) n S (discretize f g options) _ :=
    grows_discretize hS hf hg fun _ => hok
  unfold Grows at hgrow
  cases hd : discretize f g options n with
  | error e =>
    rw [hd] at hgrow
    exact absurd trivial hgrow
  | ok out =>
    obtain ⟨d, n'⟩ := out
    rw [hd] at hgrow
    obtain ⟨S', hext, hchecked, hdisc⟩ := hgrow
    refine ⟨d, n', rfl, hdisc.fwd, hdisc.bwd, fun hnone => by rw [hdisc.unpaired hnone], ?_, ?_,
      fun t n'' ht => ?_, ?_⟩
    · rw [Discretization.unknowns, Discretization.pointCount, hdisc.elements, hdisc.degree]
    · rw [Discretization.blockOffsets, (Discretization.blockTable_spec hchecked.elements).offsets,
        Offsets.getLast?_ofSizes, Discretization.sum_blockSizes]
    · obtain ⟨S'', hshapes⟩ := d.hasShapes_of_trajectory hchecked.elements hext.graph ht
      have hv : t.v.pattern = .column d.unknowns := (List.cons.inj hshapes.inputPatterns).1
      exact ⟨by rw [nnz, hv]; simp [Pattern.column], hshapes.coversBlocks⟩
    · have hspec := d.residual_shapes hext.graph hchecked
      split
      · rename_i e he
        rw [he] at hspec
        exact hspec
      · rename_i r times n'' hr
        rw [hr] at hspec
        obtain ⟨-, _, -, hres⟩ := hspec
        obtain ⟨q, rq, houtputs, -⟩ := hres.outputs
        rw [houtputs]
        rfl

/-- A forward and a backward state at two points of two elements: eight unknowns, eight
equations. -/
theorem equations_match_unknowns_growth :
    ∃ d n' r n'', discretize Growth.problem (some Growth.backward) Growth.twoElements 8 =
        .ok (d, n') ∧
      d.unknowns = 8 ∧ d.blockOffsets.getLast? = some 8 ∧ d.residual n' = .ok (r, n'') ∧
        (r.1.outputs.map nnz)[0]? = some 8 := by
  obtain ⟨S, hS, hf, hg⟩ := Growth.exists_compiled_backward
  have hpoints : (Growth.twoElements.scheme.points Growth.twoElements.degree :
      Except (Failure Rat) _) = .ok [0, 1] := by cbv
  have hsizes : Problem.forwardSizes Growth.problem = .ok ⟨1, 1, 1, true⟩ := by cbv
  have hbsizes : Problem.backwardSizes Growth.backward ⟨1, 1, 1, true⟩ = .ok ⟨1, 1, 0⟩ := by cbv
  have hok : Discretizable Growth.problem (some Growth.backward) Growth.twoElements := {
    elements := by decide
    horizon := by cbv
    points := ⟨_, hpoints⟩
    forward := ⟨_, hsizes, by rintro _ ⟨⟩; exact ⟨_, hbsizes⟩⟩
    outputs := by decide
    backwardOutputs := by rintro _ ⟨⟩; decide }
  obtain ⟨c, n₀, hcreate, -⟩ := exists_of_probe (b := ())
    (show probe Growth.problem (some Growth.backward) Growth.twoElements 8 (fun _ => some ()) =
      some () by cbv)
  obtain ⟨d', n₁, r, n₂, -, hd', hr, -⟩ := exists_of_create hcreate
  obtain ⟨d, n', hd, hfwd, hbwd, -, hunknowns, hlast, -, hresidual⟩ :=
    equations_match_unknowns hS hf (by rintro _ ⟨⟩; exact hg) hok
  obtain ⟨rfl, rfl⟩ := Prod.mk.inj (Except.ok.inj (hd'.symm.trans hd))
  have hforward : d'.fwd = ⟨1, 1, 1, true⟩ := Except.ok.inj (hfwd.symm.trans hsizes)
  have hbackward : d'.bwd = ⟨1, 1, 0⟩ :=
    Except.ok.inj ((hbwd _ rfl).symm.trans (hforward ▸ hbsizes))
  have hcount : d'.unknowns = 8 := by
    rw [hunknowns, hforward, hbackward]
    rfl
  rw [hr] at hresidual
  exact ⟨d', n₁, _, n₂, hd, hcount, hcount ▸ hlast, hr, hcount ▸ hresidual⟩

end Collocation

end DiffGraph
