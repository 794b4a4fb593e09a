import Mathlib
import DiffGraph.Proofs.Collocation.Shapes

/-!
# The equations of the elements

What the loop over the elements and their points keeps (`Equations.Holds`): the equations so
far are the blocks of the collocation system in their order, the totals are the sums of the
quadrature terms. One point adds its blocks and terms (`grows_addPoint`), one element those
of its points and the two at its end (`grows_addElement`), and so the whole loop builds the
system (`grows_equations`).
-/

namespace DiffGraph

open Expr

variable {α : Type} [ExactNumerals α] {env : Nat → Nat → α} {ok : Prop} {m n r : Nat}
  {refused : GraphError → Prop}
  {G S S' : Set (Expr α)} {x h total : Expr α} {v : Nat → α}

/-! ## Columns of known length -/

/-- The expression stands for the numbers of a column. -/
def HasRows (env : Nat → Nat → α) (S : Set (Expr α)) (x : Expr α) (xs : List α) : Prop :=
  HasColumn env S x xs.length fun i => xs[i]?.getD 0

theorem HasColumn.hasRows (hx : HasColumn env S x r v) : HasRows env S x (rows r v) := by
  unfold HasRows rows
  rw [List.length_map, List.length_range]
  refine hx.congr fun i hi => ?_
  rw [List.getElem?_map, List.getElem?_range hi]
  rfl

/-! ## Quadratures -/

/-- A total of quadratures; if these are columns, it is the sum of the terms. -/
structure IsTotal (column : Prop) (env : Nat → Nat → α) (S : Set (Expr α)) (x : Expr α) (r : Nat)
    (terms : List (Nat → α)) : Prop where
  usable : Usable S x
  sum : column → HasColumn env S x r fun i => (terms.map fun q => q i).sum

namespace IsTotal

variable {column : Prop} {terms : List (Nat → α)}

theorem of_iff {column' : Prop} (ht : IsTotal column env S x r terms) (hiff : column' ↔ column) :
    IsTotal column' env S x r terms :=
  ⟨ht.usable, fun hc => ht.sum (hiff.1 hc)⟩

theorem mono (ht : IsTotal column env S x r terms) (hsub : S ⊆ S') :
    IsTotal column env S' x r terms :=
  ⟨ht.usable.mono hsub, fun hc => (ht.sum hc).mono hsub⟩

/-- Without rows all terms are alike. -/
theorem of_empty (ht : IsTotal column env S x 0 terms) (terms' : List (Nat → α)) :
    IsTotal column env S x 0 terms' :=
  ⟨ht.usable, fun hc => (ht.sum hc).congr fun i hi => absurd hi (Nat.not_lt_zero i)⟩

end IsTotal

theorem grows_addQuadrature (hS : IsGraph n S) {column : Prop} {terms : List (Nat → α)}
    (hok : ok → column) (htotal : IsTotal column env S total r terms) (hx : Usable S x)
    (hxc : column → HasColumn env S x r v) (weight : α) :
    Grows (fun _ => ¬ ok) n S (Discretization.addQuadrature total x weight) fun S' y =>
      IsTotal column env S' y r (terms ++ [fun i => v i * weight]) := by
  unfold Discretization.addQuadrature
  refine .bind (grows_number env hS weight) fun n₁ S₁ w h₁ hw => ?_
  by_cases hc : column
  · refine .bind (grows_binary_number h₁.graph .mul ((hxc hc).mono h₁.subset) hw
      fun hne => absurd rfl hne) fun n₂ S₂ term h₂ hterm => ?_
    refine (grows_binary_columns h₂.graph .add ((htotal.sum hc).mono (h₁.trans h₂).subset)
      hterm).mono ?_
    rintro n' S' y - hy
    refine ⟨hy.usable, fun _ => hy.congr fun i _ => ?_⟩
    rw [List.map_append, List.sum_append, List.map_singleton, List.sum_singleton]
    rfl
  · have hnot : ¬ ok := fun h => hc (hok h)
    refine .bind (grows_binary h₁.graph (hx.mono h₁.subset) hw.usable .mul (fun _ => hnot)
      fun _ _ _ => hnot) fun n₂ S₂ term h₂ hterm => ?_
    refine (grows_binary h₂.graph (htotal.usable.mono (h₁.trans h₂).subset) hterm.1 .add
      (fun _ => hnot) fun _ _ _ => hnot).mono ?_
    exact fun n' S' y _ hy => ⟨hy.1, fun h => absurd h hc⟩

/-! ## One function at one point -/

theorem grows_call_lengths {f : Function α} (hG : IsGraph m G) (hf : f.Compiled G)
    (hS : IsGraph n S) (hconst : constantsOf G ⊆ S) {args : List (Expr α)}
    {columns : List (Nat × (Nat → α))}
    (hargs : List.Forall₂ (fun a c => HasColumn env S a c.1 c.2) args columns)
    (hok : ok → f.Callable (columns.map Prod.fst)) :
    Grows (fun _ => ¬ ok) n S (f.call args) fun S' rs =>
      List.Forall₂ (fun o r => Usable S' r ∧ r.shape = o.shape) f.outputs rs ∧
      ∀ (k : Nat) o r, f.outputs[k]? = some o → rs[k]? = some r → o.pattern.ncols = 1 →
        HasColumn env S' r o.pattern.nrows (f.outputAt k (columns.map Prod.snd)) := by
  by_cases hshapes : (columns.map Prod.fst).map (fun k => (k, 1)) = f.inputs.map shape
  · rw [List.map_map] at hshapes
    refine ((Function.grows_call_columns hG hf hS hconst hargs hshapes).weaken ?_).mono ?_
    · exact fun e he h => he.2 (hok h).memory
    · intro n' S' rs _ hrs
      refine ⟨hrs.imp fun o r h => ⟨h.1, h.2.1⟩, fun k o r ho hr hcol => ?_⟩
      obtain ⟨o', ho', hus, hshape, hval⟩ := exists_of_forall₂ hrs hr
      obtain rfl := Option.some.inj (ho'.symm.trans ho)
      refine ⟨hus, hshape.trans (Prod.ext rfl hcol), fun i _ => ?_⟩
      have hlen : (columns.map Prod.snd).length = f.inputs.length := by
        simpa using congrArg List.length hshapes
      rw [hval, Function.outputAt_eq hG hf hlen.ge ho]
  · have hargShapes : args.map shape = columns.map fun c => (c.1, 1) :=
      map_eq_of_forall₂ hargs fun a c h => h.shape
    have hne : args.map shape ≠ f.inputs.map shape := by
      rwa [hargShapes, ← Function.comp_def (fun k => (k, 1)) Prod.fst, ← List.map_map]
    obtain ⟨e, he⟩ := Function.call_of_shape_ne hne n
    unfold Grows
    rw [he]
    exact fun h => hshapes (hok h).shapes

namespace Discretization

variable (d : Discretization α) {s : Transcription α} {problem : PointProblem α}
  {columns : List (Nat × (Nat → α))} {terms : List (Nat → α)} {slope : Nat → α}

def equationOf (ode slope : Nat → α) (i : Nat) : α :=
  if d.fwd.explicit then d.h * ode i - slope i else ode i

theorem grows_pointEquation (hS : IsGraph n S) {ode slope h : Expr α} {u w : Nat → α}
    (hode : HasColumn env S ode r u) (hslope : HasColumn env S slope r w)
    (hh : HasColumn env S h 1 fun _ => d.h) :
    Grows refused n S (d.pointEquation ode slope h) fun S' y =>
      HasColumn env S' y r (d.equationOf u w) := by
  unfold pointEquation equationOf
  by_cases hexplicit : d.fwd.explicit = true
  · simp only [hexplicit, if_true]
    refine .bind (grows_number_mul hS hh hode) fun n₁ S₁ product h₁ hproduct => ?_
    exact grows_binary_columns h₁.graph .sub hproduct (hslope.mono h₁.subset)
  · simp only [hexplicit]
    exact .pure hS hode

theorem grows_pointResult (hG : IsGraph m G) (hf : problem.function.Compiled G) (hS : IsGraph n S)
    (hconst : constantsOf G ⊆ S)
    (hargs : List.Forall₂ (fun a c => HasColumn env S a c.1 c.2) (d.pointArgs problem) columns)
    (hyields : Problem.Yields problem.function r problem.quadratures)
    (hslope : HasColumn env S problem.slope r slope) (hh : HasColumn env S h 1 fun _ => d.h)
    (htotal : IsTotal problem.function.HasQuadratureColumn env S total problem.quadratures terms)
    (hok : ok → problem.function.Callable (columns.map Prod.fst)) (weight : α) :
    Grows (fun _ => ¬ ok) n S (d.pointResult problem h total weight) fun S' (y, total') =>
      HasColumn env S' y r
        (d.equationOf (problem.function.outputAt 0 (columns.map Prod.snd)) slope) ∧
      IsTotal problem.function.HasQuadratureColumn env S' total' problem.quadratures
        (terms ++ [fun i => problem.function.outputAt 1 (columns.map Prod.snd) i * weight]) := by
  unfold pointResult
  dsimp only
  refine .bind (.onGraph (grows_call_lengths hG hf hS hconst hargs hok))
    fun n₁ S₁ outs h₁ ⟨hshapes, houts⟩ => ?_
  obtain ⟨o, ho, hor⟩ := hyields.rate
  obtain ⟨y, hy, -⟩ := exists_of_forall₂ hshapes.flip ho
  have hode := houts 0 o y ho hy (congrArg Prod.snd hor)
  rw [show o.pattern.nrows = r from congrArg Prod.fst hor] at hode
  rw [result_eq hy, pure_bind]
  refine .bind (.onGraph (d.grows_pointEquation h₁.graph hode (hslope.mono h₁.subset)
    (hh.mono h₁.subset))) fun n₂ S₂ equation h₂ hequation => ?_
  have htotal₂ := htotal.mono (h₁.trans h₂).subset
  split
  · rename_i hnone
    rw [hnone] at htotal₂ ⊢
    exact .pure h₂.graph ⟨hequation, htotal₂.of_empty _⟩
  · rename_i hsome
    obtain ⟨q, hq, hqs⟩ := hyields.exists_quadrature hsome
    have hqr : q.pattern.nrows = problem.quadratures := congrArg Prod.fst hqs
    obtain ⟨y, hy, hqy⟩ := exists_of_forall₂ hshapes.flip hq
    rw [result_eq hy, pure_bind]
    refine .bind (.onGraph (grows_addQuadrature h₂.graph (fun h => (hok h).quadrature) htotal₂
      (hqy.1.mono h₂.subset) (fun hc => ?_) weight)) fun n₃ S₃ total' h₃ htotal' =>
        .pure h₃.graph ⟨hequation.mono h₃.subset, htotal'⟩
    rw [← hqr]
    exact (houts 1 q y hq hy ((congrArg Prod.snd hqs).trans hc)).mono h₂.subset

/-- The functions have outputs of the sizes that the problem was checked for, and the basis belongs
to the points. -/
structure WellPosed (d : Discretization α) (G : Set (Expr α)) : Prop extends d.IsChecked G where
  points : d.points.length = d.degree + 1
  basis : d.basis = Basis.lagrange d.points

end Discretization

/-- The equations so far stand for the blocks, the totals for the sums of quadratures. -/
structure Equations.Holds (d : Discretization α) (env : Nat → Nat → α) (S : Set (Expr α))
    (eqs : Equations α) (blocks : List (List α)) (terms backwardTerms : List (Nat → α)) : Prop where
  residuals : List.Forall₂ (HasRows env S) eqs.residuals.toList blocks
  qf : IsTotal d.f.HasQuadratureColumn env S eqs.qf d.fwd.nq terms
  rqf : IsTotal (∀ g, d.g = some g → g.HasQuadratureColumn) env S eqs.rqf d.bwd.nrq backwardTerms

namespace Equations.Holds

variable {d : Discretization α} {eqs : Equations α} {blocks : List (List α)}
  {terms backwardTerms : List (Nat → α)}

theorem mono (heqs : eqs.Holds d env S blocks terms backwardTerms) (hsub : S ⊆ S') :
    eqs.Holds d env S' blocks terms backwardTerms where
  residuals := heqs.residuals.imp fun _ _ hx => HasColumn.mono hx hsub
  qf := heqs.qf.mono hsub
  rqf := heqs.rqf.mono hsub

theorem push (heqs : eqs.Holds d env S blocks terms backwardTerms)
    (hx : HasColumn env S x r v) :
    ({ eqs with residuals := eqs.residuals.push x } : Equations α).Holds d env S
      (blocks ++ [rows r v]) terms backwardTerms where
  residuals := by
    rw [Array.toList_push]
    exact List.rel_append heqs.residuals (.cons hx.hasRows .nil)
  qf := heqs.qf
  rqf := heqs.rqf

end Equations.Holds

namespace Discretization

variable (d : Discretization α) {s : Transcription α} {t : Trajectory α} {k j : Nat}

theorem grows_statesOf (hS : IsGraph n S) {refused : Failure α → Prop}
    {state : Nat → Assemble α (Expr α)} {states : Nat → Nat → α}
    (hstate : ∀ m ≤ d.pointCount, ∃ e, state m = pure e ∧ HasColumn env S e r (states m))
    (hk : k < d.elements) :
    Grows refused n S (d.statesOf state k) fun S' xs =>
      List.Forall₂ (fun x v => HasColumn env S' x r v) xs
        ((List.range (d.degree + 1)).map fun j => states (k * (d.degree + 1) + j)) := by
  unfold statesOf
  refine (Grows.mapM (P := fun S' j x => HasColumn env S' x r (states (k * (d.degree + 1) + j)))
    hS ?_ fun _ _ _ _ hsub hx => hx.mono hsub).mono fun n' S' xs _ hxs =>
      List.forall₂_map_right_iff.2 hxs.flip
  intro j hj n' S' hext
  have hle : k * (d.degree + 1) + j ≤ d.pointCount := by
    have hlast : (k + 1) * (d.degree + 1) ≤ d.pointCount := Nat.mul_le_mul_right _ hk
    rw [Nat.succ_mul] at hlast
    have := List.mem_range.1 hj
    omega
  obtain ⟨e, he, hcol⟩ := hstate _ hle
  rw [he]
  exact .pure hext.graph (hcol.mono hext.subset)

section Slopes

variable {G : Set (Expr α)} {xs : List (Expr α)} {states : Nat → Nat → α} {v x0 p rx0 rp : List α}
  {terms : List (Nat → α)}

theorem grows_slope (hd : d.WellPosed G) (hs : s = d.transcription v x0 p rx0 rp)
    (hS : IsGraph n S) (hj : j < d.degree + 1)
    (hxs : List.Forall₂ (fun x v => HasColumn env S x r v) xs
      ((List.range (d.degree + 1)).map fun j => states (k * (d.degree + 1) + j))) :
    Grows refused n S (Basis.combine (d.basis.slopesAt j) xs r) fun S' y =>
      HasColumn env S' y r (s.slope states k j) := by
  refine (grows_combine hS _ hxs).mono ?_
  rintro n' S' y - hy
  refine hy.congr fun i _ => ?_
  subst hs
  have hsum := sum_zip_slopes (hd.points.symm ▸ hj) (fun l => states (k * (d.degree + 1) + l)) i
  rw [hd.points, ← hd.basis] at hsum
  exact hsum

theorem grows_continuity (hd : d.WellPosed G) (hs : s = d.transcription v x0 p rx0 rp)
    (hS : IsGraph n S) {next : Expr α}
    (hnext : HasColumn env S next r (states ((k + 1) * (d.degree + 1))))
    (hxs : List.Forall₂ (fun x v => HasColumn env S x r v) xs
      ((List.range (d.degree + 1)).map fun j => states (k * (d.degree + 1) + j))) :
    Grows refused n S (d.continuity next xs r) fun S' y =>
      HasColumn env S' y r (s.joint states k) := by
  unfold continuity
  refine .bind (grows_combine hS _ hxs) fun n₁ S₁ last h₁ hlast => ?_
  refine (grows_binary_columns h₁.graph .sub (hnext.mono h₁.subset) hlast).mono ?_
  rintro n' S' y - hy
  refine hy.congr fun i _ => ?_
  subst hs
  have hsum := sum_zip_ends d.points (fun l => states (k * (d.degree + 1) + l)) i
  rw [hd.points, ← hd.basis] at hsum
  exact congrArg₂ (· - ·) rfl hsum

theorem weight_eq (hd : d.WellPosed G) (hs : s = d.transcription v x0 p rx0 rp)
    (hj : j < d.degree + 1) : d.basis.ends[j]?.getD 0 * d.h = s.weight j := by
  subst hs
  rw [hd.basis, Basis.lagrange]
  dsimp only
  rw [List.getElem?_map, List.getElem?_range (hd.points.symm ▸ hj)]
  rfl

theorem timeAt_eq (hs : s = d.transcription v x0 p rx0 rp) (k j : Nat) :
    d.timeAt k (d.points[j]?.getD 0) = s.time k j := by
  subst hs
  rw [timeAt, OrderedScalar.ofNat_eq_cast]
  rfl

theorem length_forwardColumns (hs : s = d.transcription v x0 p rx0 rp) (k j : Nat) :
    (s.forwardColumns k j).length = d.forwardLengths.length := by
  subst hs
  unfold Transcription.forwardColumns forwardLengths transcription
  split <;> rfl

theorem length_backwardColumns (hs : s = d.transcription v x0 p rx0 rp) (k j : Nat) :
    (s.backwardColumns k j).length = d.backwardLengths.length := by
  subst hs
  unfold Transcription.backwardColumns backwardLengths transcription
  split <;> rfl

theorem forall₂_forwardArgs (hs : s = d.transcription v x0 p rx0 rp) {x pe time rate : Expr α}
    (hx : HasColumn env S x d.fwd.nx (s.x (s.index k j))) (hp : HasColumn env S pe d.fwd.np s.p)
    (htime : HasColumn env S time 1 fun _ => s.time k j)
    (hrate : HasColumn env S rate d.fwd.nx (s.rate s.x k j)) (slope : Expr α) (nq : Nat) :
    List.Forall₂ (fun a (c : Nat × (Nat → α)) => HasColumn env S a c.1 c.2)
      (d.pointArgs ⟨d.f, [x, pe, time], [rate], slope, nq⟩)
      (d.forwardLengths.zip (s.forwardColumns k j)) := by
  subst hs
  unfold pointArgs forwardLengths Transcription.forwardColumns
  show List.Forall₂ _ _ (List.zip ([_, _, _] ++ if d.fwd.explicit then [] else [_])
    ([_, _, _] ++ if d.fwd.explicit then [] else [_]))
  split
  · exact .cons hx (.cons hp (.cons htime .nil))
  · exact .cons hx (.cons hp (.cons htime (.cons hrate .nil)))

theorem forall₂_backwardArgs (hs : s = d.transcription v x0 p rx0 rp) {g : Function α}
    {rx rpe x pe time rate rrate : Expr α}
    (hrx : HasColumn env S rx d.bwd.nrx (s.rx (s.index k j)))
    (hrp : HasColumn env S rpe d.bwd.nrp s.rp)
    (hx : HasColumn env S x d.fwd.nx (s.x (s.index k j))) (hp : HasColumn env S pe d.fwd.np s.p)
    (htime : HasColumn env S time 1 fun _ => s.time k j)
    (hrate : HasColumn env S rate d.fwd.nx (s.rate s.x k j))
    (hrrate : HasColumn env S rrate d.bwd.nrx (s.rate s.rx k j)) (slope : Expr α) (nq : Nat) :
    List.Forall₂ (fun a (c : Nat × (Nat → α)) => HasColumn env S a c.1 c.2)
      (d.pointArgs ⟨g, [rx, rpe, x, pe, time], [rate, rrate], slope, nq⟩)
      (d.backwardLengths.zip (s.backwardColumns k j)) := by
  subst hs
  unfold pointArgs backwardLengths Transcription.backwardColumns
  show List.Forall₂ _ _ (List.zip ([_, _, _, _, _] ++ if d.fwd.explicit then [] else [_, _])
    ([_, _, _, _, _] ++ if d.fwd.explicit then [] else [_, _]))
  split
  · exact .cons hrx (.cons hrp (.cons hx (.cons hp (.cons htime .nil))))
  · exact .cons hrx <| .cons hrp <| .cons hx <| .cons hp <| .cons htime <| .cons hrate <|
      .cons hrrate .nil

theorem grows_rate (hs : s = d.transcription v x0 p rx0 rp) (hS : IsGraph n S) {slope : Expr α}
    (hslope : HasColumn env S slope r (s.slope states k j)) (hh : HasColumn env S h 1 fun _ => d.h)
    (hfits : ¬ Size.Fits (r, 1) → refused .misuse) :
    Grows refused n S (binary .div slope h) fun S' y =>
      HasColumn env S' y r (s.rate states k j) := by
  subst hs
  exact grows_binary_number hS .div hslope hh fun _ => hfits

theorem equationOf_eq (hs : s = d.transcription v x0 p rx0 rp) (f : List (Nat → α) → Nat → α)
    (columns : List (Nat → α)) :
    d.equationOf (f columns) (s.slope states k j) = s.equation f columns states k j := by
  subst hs
  rfl

theorem grows_forwardPoint (hG : IsGraph m G) (hd : d.WellPosed G)
    (hs : s = d.transcription v x0 p rx0 rp) (hS : IsGraph n S) (hconst : constantsOf G ⊆ S)
    {x pe time rate slope : Expr α} (hx : HasColumn env S x d.fwd.nx (s.x (s.index k j)))
    (hp : HasColumn env S pe d.fwd.np s.p) (htime : HasColumn env S time 1 fun _ => s.time k j)
    (hrate : HasColumn env S rate d.fwd.nx (s.rate s.x k j))
    (hslope : HasColumn env S slope d.fwd.nx (s.slope s.x k j))
    (hh : HasColumn env S h 1 fun _ => d.h)
    (htotal : IsTotal d.f.HasQuadratureColumn env S total d.fwd.nq terms) :
    Grows (fun _ => ¬ d.Manageable) n S
      (d.pointResult ⟨d.f, [x, pe, time], [rate], slope, d.fwd.nq⟩ h total (s.weight j))
      fun S' (y, total') => HasColumn env S' y d.fwd.nx
          (s.equation (s.forward 0) (s.forwardColumns k j) s.x k j) ∧
        IsTotal d.f.HasQuadratureColumn env S' total' d.fwd.nq
          (terms ++ [s.pointQuadrature k j]) := by
  have hlen := d.length_forwardColumns hs k j
  have hargs := d.forall₂_forwardArgs hs hx hp htime hrate slope d.fwd.nq
  refine (d.grows_pointResult hG hd.forward hS hconst hargs hd.yields hslope hh htotal
    (fun h => ?_) (s.weight j)).mono ?_
  · rw [List.map_fst_zip hlen.ge]
    exact h.forward
  · intro n' S' out _ hout
    rw [List.map_snd_zip hlen.le] at hout
    dsimp only at hout
    rw [d.equationOf_eq hs (d.f.outputAt 0)] at hout
    subst hs
    exact hout

theorem grows_backwardPoint (hG : IsGraph m G) (hd : d.WellPosed G) {g : Function α}
    (hg : d.g = some g) (hs : s = d.transcription v x0 p rx0 rp) (hS : IsGraph n S)
    (hconst : constantsOf G ⊆ S) {rx rpe x pe time rate rrate slope : Expr α}
    (hrx : HasColumn env S rx d.bwd.nrx (s.rx (s.index k j)))
    (hrp : HasColumn env S rpe d.bwd.nrp s.rp)
    (hx : HasColumn env S x d.fwd.nx (s.x (s.index k j))) (hp : HasColumn env S pe d.fwd.np s.p)
    (htime : HasColumn env S time 1 fun _ => s.time k j)
    (hrate : HasColumn env S rate d.fwd.nx (s.rate s.x k j))
    (hrrate : HasColumn env S rrate d.bwd.nrx (s.rate s.rx k j))
    (hslope : HasColumn env S slope d.bwd.nrx (s.slope s.rx k j))
    (hh : HasColumn env S h 1 fun _ => d.h)
    (htotal : IsTotal (∀ g, d.g = some g → g.HasQuadratureColumn) env S total d.bwd.nrq terms) :
    Grows (fun _ => ¬ d.Manageable) n S
      (d.pointResult ⟨g, [rx, rpe, x, pe, time], [rate, rrate], slope, d.bwd.nrq⟩ h total
        (s.weight j))
      fun S' (y, total') => HasColumn env S' y d.bwd.nrx
          (s.equation (g.outputAt 0) (s.backwardColumns k j) s.rx k j) ∧
        IsTotal (∀ g, d.g = some g → g.HasQuadratureColumn) env S' total' d.bwd.nrq
          (terms ++ [fun i => g.outputAt 1 (s.backwardColumns k j) i * s.weight j]) := by
  have hlen := d.length_backwardColumns hs k j
  have hcolumn : g.HasQuadratureColumn ↔ ∀ g, d.g = some g → g.HasQuadratureColumn := by
    rw [hg]
    simp
  have hargs := d.forall₂_backwardArgs (g := g) hs hrx hrp hx hp htime hrate hrrate slope d.bwd.nrq
  refine (d.grows_pointResult hG (hd.backward g hg) hS hconst hargs (hd.backwardYields g hg) hslope
    hh (htotal.of_iff hcolumn) (fun h => ?_) (s.weight j)).mono ?_
  · rw [List.map_fst_zip hlen.ge]
    exact h.backward g hg
  · intro n' S' out _ hout
    rw [List.map_snd_zip hlen.le] at hout
    dsimp only at hout
    rw [d.equationOf_eq hs (g.outputAt 0)] at hout
    exact ⟨hout.1, hout.2.of_iff hcolumn.symm⟩

theorem grows_addPoint (hG : IsGraph m G) (hd : d.WellPosed G)
    (hs : s = d.transcription v x0 p rx0 rp) (hS : IsGraph n S) (hconst : constantsOf G ⊆ S)
    (ht : t.Holds d s env S) (hh : HasColumn env S h 1 fun _ => d.h) {rxs : List (Expr α)}
    (hxs : List.Forall₂ (fun x v => HasColumn env S x d.fwd.nx v) xs
      ((List.range (d.degree + 1)).map fun j => s.x (k * (d.degree + 1) + j)))
    (hrxs : List.Forall₂ (fun x v => HasColumn env S x d.bwd.nrx v) rxs
      ((List.range (d.degree + 1)).map fun j => s.rx (k * (d.degree + 1) + j)))
    (hj : j < d.degree + 1) {eqs : Equations α} {blocks : List (List α)}
    {backwardTerms : List (Nat → α)} (heqs : eqs.Holds d env S blocks terms backwardTerms) :
    Grows (fun _ => ¬ d.Manageable) n S (d.addPoint t h xs rxs k j eqs) fun S' eqs' =>
      eqs'.Holds d env S' (blocks ++ s.pointBlocks k j) (terms ++ [s.pointQuadrature k j])
        (backwardTerms ++ s.pointBackwardQuadrature k j) := by
  have hat {r : Nat} {ys : List (Expr α)} {states : Nat → Nat → α}
      (hys : List.Forall₂ (fun x v => HasColumn env S x r v) ys
        ((List.range (d.degree + 1)).map fun j => states (k * (d.degree + 1) + j))) :
      ∃ y, ys[j]? = some y ∧ HasColumn env S y r (states (s.index k j)) := by
    subst hs
    exact exists_of_forall₂ hys (by rw [List.getElem?_map, List.getElem?_range hj]; rfl)
  have hfwd : s.fwd = d.fwd := by
    rw [hs]
    rfl
  have hbwd : s.bwd = d.bwd := by
    rw [hs]
    rfl
  obtain ⟨x, hx, hxcol⟩ := hat hxs
  obtain ⟨rx, hrx, hrxcol⟩ := hat hrxs
  unfold addPoint
  dsimp only
  rw [d.timeAt_eq hs, d.weight_eq hd hs hj]
  refine .bind (.onGraph (grows_number env hS _)) fun n₁ S₁ time h₁ htime => ?_
  refine .bind (.onGraph (d.grows_slope hd hs h₁.graph hj
    (hxs.imp fun _ _ hx => hx.mono h₁.subset))) fun n₂ S₂ slope h₂ hslope => ?_
  have h₁₂ := h₁.trans h₂
  refine .bind (.onGraph (d.grows_rate hs h₂.graph hslope (hh.mono h₁₂.subset)
    fun hbig hm => hbig (hm.columns _ (by simp [columnSizes])))) fun n₃ S₃ rate h₃ hrate => ?_
  have h₁₃ := h₁₂.trans h₃
  rw [result_eq hx, pure_bind]
  refine .bind (d.grows_forwardPoint hG hd hs h₃.graph (hconst.trans h₁₃.subset)
    (hxcol.mono h₁₃.subset) (ht.p.mono h₁₃.subset) (htime.mono (h₂.trans h₃).subset) hrate
    (hslope.mono h₃.subset) (hh.mono h₁₃.subset) (heqs.qf.mono h₁₃.subset))
    fun n₄ S₄ out h₄ hout => ?_
  obtain ⟨equation, qf⟩ := out
  obtain ⟨hequation, hqf⟩ := hout
  have h₁₄ := h₁₃.trans h₄
  have heqs₄ := heqs.mono h₁₄.subset
  split
  · rename_i hg
    have hback : s.backward = none := by
      rw [hs, transcription, hg]
      rfl
    refine .pure h₄.graph ?_
    rw [Transcription.pointBlocks, Transcription.pointBackwardQuadrature, hback, hfwd,
      List.append_nil]
    exact { heqs₄.push hequation with qf := hqf }
  · rename_i g hg
    refine .bind (.onGraph (d.grows_slope hd hs h₄.graph hj
      (hrxs.imp fun _ _ hx => hx.mono h₁₄.subset))) fun n₅ S₅ rslope h₅ hrslope => ?_
    have h₁₅ := h₁₄.trans h₅
    refine .bind (.onGraph (d.grows_rate hs h₅.graph hrslope (hh.mono h₁₅.subset)
      fun hbig hm => hbig (hm.columns _ (by simp [columnSizes])))) fun n₆ S₆ rrate h₆ hrrate => ?_
    have h₁₆ := h₁₅.trans h₆
    have h₃₆ := h₄.trans (h₅.trans h₆)
    rw [result_eq hrx, pure_bind]
    refine .bind (d.grows_backwardPoint hG hd hg hs h₆.graph (hconst.trans h₁₆.subset)
      (hrxcol.mono h₁₆.subset) (ht.rp.mono h₁₆.subset) (hxcol.mono h₁₆.subset)
      (ht.p.mono h₁₆.subset) (htime.mono (h₂.trans (h₃.trans h₃₆)).subset)
      (hrate.mono h₃₆.subset) hrrate (hrslope.mono h₆.subset) (hh.mono h₁₆.subset)
      (heqs.rqf.mono h₁₆.subset)) fun n₇ S₇ out h₇ hout => ?_
    obtain ⟨equation', rqf⟩ := out
    obtain ⟨hequation', hrqf⟩ := hout
    have hback : s.backward = some g.outputAt := by
      rw [hs, transcription, hg]
      rfl
    refine .pure h₇.graph ?_
    rw [Transcription.pointBlocks, Transcription.pointBackwardQuadrature, hback, hfwd, hbwd]
    have hsub := (h₅.trans (h₆.trans h₇)).subset
    have hboth := ((heqs₄.mono hsub).push (hequation.mono hsub)).push hequation'
    rw [List.append_assoc] at hboth
    exact { hboth with qf := hqf.mono hsub, rqf := hrqf }

theorem grows_addElement (hG : IsGraph m G) (hd : d.WellPosed G)
    (hs : s = d.transcription v x0 p rx0 rp) (hS : IsGraph n S) (hconst : constantsOf G ⊆ S)
    (ht : t.Holds d s env S) (hh : HasColumn env S h 1 fun _ => d.h) (hk : k < d.elements)
    {eqs : Equations α} {blocks : List (List α)} {backwardTerms : List (Nat → α)}
    (heqs : eqs.Holds d env S blocks terms backwardTerms) :
    Grows (fun _ => ¬ d.Manageable) n S (d.addElement t h eqs k) fun S' eqs' =>
      eqs'.Holds d env S' (blocks ++ s.elementBlocks k)
        (terms ++ (List.range' 1 d.degree).map (s.pointQuadrature k))
        (backwardTerms ++ (List.range' 1 d.degree).flatMap (s.pointBackwardQuadrature k)) := by
  have hnext : (k + 1) * (d.degree + 1) ≤ d.pointCount := Nat.mul_le_mul_right _ hk
  obtain ⟨x, hx, hxcol⟩ := ht.forward _ hnext
  obtain ⟨rx, hrx, hrxcol⟩ := ht.backward _ hnext
  have hfwd : s.fwd = d.fwd := by
    rw [hs]
    rfl
  have hbwd : s.bwd = d.bwd := by
    rw [hs]
    rfl
  have hdegree : s.degree = d.degree := by
    rw [hs]
    rfl
  unfold addElement
  dsimp only
  refine .bind (d.grows_statesOf hS ht.forward hk) fun n₁ S₁ xs h₁ hxs => ?_
  refine .bind (d.grows_statesOf h₁.graph (ht.mono h₁.subset).backward hk)
    fun n₂ S₂ rxs h₂ hrxs => ?_
  have h₁₂ := h₁.trans h₂
  have hxs₂ := hxs.imp fun _ _ hx => hx.mono h₂.subset
  refine .bind (Grows.foldlM (P := fun S' done eqs => eqs.Holds d env S'
      (blocks ++ done.flatMap (s.pointBlocks k)) (terms ++ done.map (s.pointQuadrature k))
      (backwardTerms ++ done.flatMap (s.pointBackwardQuadrature k))) h₂.graph ?_ ?_)
    fun n₃ S₃ eqs₃ h₃ heqs₃ => ?_
  · simpa using heqs.mono h₁₂.subset
  · intro done j rest n' S' eqs' hsplit h' heqs'
    have hj : j ∈ List.range' 1 d.degree := by rw [hsplit]; simp
    have hj : j < d.degree + 1 := by
      rw [List.mem_range'_1] at hj
      omega
    have h₁' := h₁₂.trans h'
    refine (d.grows_addPoint hG hd hs h'.graph (hconst.trans h₁'.subset) (ht.mono h₁'.subset)
      (hh.mono h₁'.subset) (hxs₂.imp fun _ _ hx => hx.mono h'.subset)
      (hrxs.imp fun _ _ hx => hx.mono h'.subset) hj heqs').mono ?_
    intro n'' S'' eqs'' _ heqs''
    simpa [List.append_assoc] using heqs''
  have h₁₃ := h₁₂.trans h₃
  rw [hx, pure_bind]
  refine .bind (.onGraph (d.grows_continuity hd hs h₃.graph (hxcol.mono h₁₃.subset)
    (hxs₂.imp fun _ _ hx => hx.mono h₃.subset))) fun n₄ S₄ equation h₄ hequation => ?_
  have h₁₄ := h₁₃.trans h₄
  have heqs₄ := (heqs₃.mono h₄.subset).push hequation
  split
  · rename_i hg
    have hback : s.backward = none := by
      rw [hs, transcription, hg]
      rfl
    refine .pure h₄.graph ?_
    rw [Transcription.elementBlocks, Transcription.jointBlocks, hback, hfwd, hdegree,
      ← List.append_assoc]
    exact { heqs₄ with }
  · rename_i g hg
    have hback : s.backward = some g.outputAt := by
      rw [hs, transcription, hg]
      rfl
    rw [hrx, pure_bind]
    refine .bind (.onGraph (d.grows_continuity hd hs h₄.graph (hrxcol.mono h₁₄.subset)
      (hrxs.imp fun _ _ hx => hx.mono (h₃.trans h₄).subset)))
      fun n₅ S₅ equation' h₅ hequation' => ?_
    refine .pure h₅.graph ?_
    have hboth := (heqs₄.mono h₅.subset).push hequation'
    rw [Transcription.elementBlocks, Transcription.jointBlocks, hback, hfwd, hbwd, hdegree,
      ← List.append_assoc]
    rw [List.append_assoc] at hboth
    exact { hboth with }

/-- All equations stand for the collocation system. -/
theorem grows_equations (hG : IsGraph m G) (hd : d.WellPosed G)
    (hs : s = d.transcription v x0 p rx0 rp) (hS : IsGraph n S) (hconst : constantsOf G ⊆ S)
    (ht : t.Holds d s env S) :
    Grows (fun _ => ¬ d.Manageable) n S (d.equations t) fun S' eqs =>
      eqs.Holds d env S' s.blocks s.quadratures s.backwardQuadratures := by
  unfold equations
  refine .bind (.onGraph (grows_number env hS d.h)) fun n₁ S₁ h h₁ hh => ?_
  refine .bind (.onGraph (grows_zeros env h₁.graph d.fwd.nq)) fun n₂ S₂ qf h₂ hqf => ?_
  refine .bind (.onGraph (grows_zeros env h₂.graph d.bwd.nrq)) fun n₃ S₃ rqf h₃ hrqf => ?_
  have h₁₃ := h₁.trans (h₂.trans h₃)
  have hstart : Equations.Holds d env S₃ ⟨#[], qf, rqf, #[]⟩ [] [] [] := by
    refine ⟨.nil, ⟨hqf.usable.mono h₃.subset, fun _ => (hqf.mono h₃.subset).congr fun _ _ => rfl⟩,
      ⟨hrqf.usable, fun _ => hrqf.congr fun _ _ => rfl⟩⟩
  refine (Grows.foldlM (P := fun S' done eqs => eqs.Holds d env S' (done.flatMap s.elementBlocks)
      (done.flatMap fun k => (List.range' 1 d.degree).map (s.pointQuadrature k))
      (done.flatMap fun k => (List.range' 1 d.degree).flatMap (s.pointBackwardQuadrature k)))
    h₃.graph hstart ?_).mono ?_
  · intro done k rest n' S' eqs' hsplit h' heqs'
    have hk : k ∈ List.range d.elements := by rw [hsplit]; simp
    have h₁' := h₁₃.trans h'
    refine (d.grows_addElement hG hd hs h'.graph (hconst.trans h₁'.subset) (ht.mono h₁'.subset)
      (hh.mono ((h₂.trans h₃).trans h').subset) (List.mem_range.1 hk) heqs').mono ?_
    intro n'' S'' eqs'' _ heqs''
    simpa using heqs''
  · intro n' S' eqs _ heqs
    subst hs
    exact heqs

end Slopes

end Discretization

end DiffGraph
