import Mathlib
import DiffGraph.Collocation.Basis
import DiffGraph.Proofs.Derivative.Forward
import DiffGraph.Proofs.Graph.Scalars
import DiffGraph.Proofs.System.Semantics

/-!
# Lagrange bases

The expression of a basis polynomial has the values of the Lagrange polynomial on
dual numbers (`grows_polynomial`): at a point along the direction one its
derivative part is the derivative of the polynomial. So the basis holds the
derivatives at the points and the values at one (`grows_ofPoints`).
-/

namespace DiffGraph

open Element Expr Polynomial

variable {α : Type} [ExactField α]

/-! ## Polynomials on dual numbers -/

/-- The value of a polynomial at a dual number, with its derivative along the number's. -/
noncomputable def dualEval (P : α[X]) (t : Dual α) : Dual α :=
  ⟨P.eval t.value, P.derivative.eval t.value * t.deriv⟩

section DualEval

variable (P Q : α[X]) (c : α) (t : Dual α)

omit [ExactField α] in
theorem dual_ext {x y : Dual α} (hvalue : x.value = y.value) (hderiv : x.deriv = y.deriv) :
    x = y := by
  obtain ⟨a, a'⟩ := x
  obtain ⟨b, b'⟩ := y
  exact congrArg₂ Dual.mk hvalue hderiv

theorem dualEval_C : dualEval (C c) t = Dual.constant c :=
  dual_ext (eval_C) (by simp [dualEval, Dual.constant])

theorem dualEval_X : dualEval X t = t :=
  dual_ext eval_X (by simp [dualEval])

theorem dualEval_sub : dualEval (P - Q) t = dualEval P t - dualEval Q t :=
  dual_ext (eval_sub ..) (by simp [dualEval, sub_mul])

theorem dualEval_mul : dualEval (P * Q) t = dualEval P t * dualEval Q t :=
  dual_ext (eval_mul ..) (by simp [dualEval]; ring)

theorem dualEval_div : dualEval (C c⁻¹ * P) t = dualEval P t / Dual.constant c := by
  refine dual_ext ?_ ?_
  · show (C c⁻¹ * P).eval t.value = P.eval t.value / c
    rw [eval_C_mul, div_eq_inv_mul]
  · show (C c⁻¹ * P).derivative.eval t.value * t.deriv =
      (P.derivative.eval t.value * t.deriv * c - P.eval t.value * 0) / (c * c)
    rw [derivative_C_mul, eval_C_mul, mul_zero, sub_zero]
    by_cases hc : c = 0
    · simp [hc]
    · field_simp

end DualEval

/-- The expression has the values of a polynomial in the symbol `tau`. -/
abbrev IsPolynomial (S : Set (Expr α)) (tau : Expr α) (r : Expr α) (P : α[X]) : Prop :=
  IsScalar S r fun env : Nat → Nat → Dual α => dualEval P (scalarValue env tau)

/-! ## Basis polynomials -/

namespace Basis

variable {refused : GraphError → Prop} {n : Nat} {S : Set (Expr α)} {tau : Expr α}

theorem grows_factor (hS : IsGraph n S) (htau : IsPolynomial S tau tau X) (root own : α) :
    Grows refused n S (factor tau root own) fun S' r =>
      IsPolynomial S' tau r (Lagrange.basisDivisor own root) := by
  unfold factor
  refine .bind (grows_scalar (T := Dual α) hS root) fun n₁ S₁ a h₁ ha => ?_
  refine .bind (grows_binary_scalar h₁.graph .sub (htau.mono h₁.subset) ha)
    fun n₂ S₂ d h₂ hd => ?_
  refine .bind (grows_scalar (T := Dual α) h₂.graph (own - root)) fun n₃ S₃ c h₃ hc => ?_
  refine (grows_binary_scalar h₃.graph .div (hd.mono h₃.subset) hc).mono ?_
  rintro n' S' r - hr
  refine { hr with value := fun env => (hr.value env).trans ?_ }
  rw [Lagrange.basisDivisor, dualEval_div, dualEval_sub, dualEval_C]
  rfl

theorem prod_others (points : List α) (j : Nat) :
    ((points.zipIdx.filter fun (_, i) => i ≠ j).map fun (root, _) =>
        Lagrange.basisDivisor (points[j]?.getD 0) root).prod =
      Lagrange.basis (Finset.range points.length) (fun i => points[i]?.getD 0) j := by
  have hzip : points.zipIdx = (List.range points.length).map fun i => (points[i]?.getD 0, i) := by
    refine List.ext_getElem (by simp) fun i h₁ h₂ => ?_
    have hi : i < points.length := by simpa using h₁
    simp [hi]
  rw [hzip, List.filter_map, List.map_map, Lagrange.basis, ← Finset.filter_ne']
  rfl

/-- Polynomial `j` of a list of points. -/
noncomputable def lagrangeAt (points : List α) (j : Nat) : α[X] :=
  Lagrange.basis (Finset.range points.length) (fun i => points[i]?.getD 0) j

theorem grows_polynomial (hS : IsGraph n S) (htau : IsPolynomial S tau tau X) (points : List α)
    (j : Nat) :
    Grows refused n S (polynomial tau points j) fun S' r =>
      IsPolynomial S' tau r (lagrangeAt points j) := by
  unfold polynomial
  dsimp only
  refine .bind (grows_scalar (T := Dual α) hS 1) fun n₁ S₁ one h₁ hone => ?_
  rw [lagrangeAt, ← prod_others]
  refine Grows.foldlM (P := fun S' (done : List (α × Nat)) l => IsPolynomial S' tau l
    (done.map fun (root, _) => Lagrange.basisDivisor (points[j]?.getD 0) root).prod) h₁.graph ?_ ?_
  · refine { hone with value := fun env => (hone.value env).trans ?_ }
    rw [List.map_nil, List.prod_nil, ← C_1, dualEval_C]
    rfl
  · rintro done ⟨root, i⟩ rest n₂ S₂ l - h₂ hl
    refine .bind (grows_factor h₂.graph (htau.mono (h₁.trans h₂).subset) root _)
      fun n₃ S₃ a h₃ ha => ?_
    refine (grows_binary_scalar h₃.graph .mul (hl.mono h₃.subset) ha).mono ?_
    rintro n' S' r - hr
    refine { hr with value := fun env => (hr.value env).trans ?_ }
    rw [List.map_append, List.prod_append, List.map_singleton, List.prod_singleton, dualEval_mul]
    rfl

/-! ## Their functions -/

omit [ExactField α] in
theorem firstValue_eq [Scalar α] {f : Function α} {args : List (List α)} {x : α} {xs : List α}
    {rest : List (List α)} (h : f.evaluate args = .ok ((x :: xs) :: rest)) :
    firstValue f args = .ok x := by
  unfold firstValue
  rw [h]
  rfl

omit [ExactField α] in
theorem fitsMemory_of_scalars {f : Function α} (hS : IsGraph n S) (h : f.Compiled S)
    (hall : ∀ x ∈ f.inputs ++ f.outputs, x.OfScalars) : f.FitsMemory := by
  have hscalar (e : Expr α) (he : e ∈ nodesOf (f.inputs ++ f.outputs)) :
      e.patterns = [.scalar] ∧ e.deps.length ≤ 2 := by
    obtain ⟨x, hx, hreach⟩ := he
    exact hall x hx e hreach
  refine (Function.fitsMemory_iff hS h).2 ⟨fun x hx => ?_, fun e he _ => ⟨fun p hp => ?_, ?_, ?_⟩⟩
  · rw [Expr.shape, (hall x (List.mem_append_left _ hx)).pattern]
    exact Size.fits_one
  · rw [(hscalar e he).1, List.mem_singleton] at hp
    exact hp ▸ Size.fits_one
  · have hrows : (e.deps.map fun d => d.pattern.nrows) = e.deps.map fun _ => 1 := by
      refine List.map_congr_left fun d hd => ?_
      have hd : d.OfScalars := fun y hy =>
        hscalar y ((h.exists_layout hS).1.mem_of_reaches he (.dep hd hy))
      rw [hd.pattern]
      rfl
    rw [hrows, List.map_const', List.sum_replicate]
    have := (hscalar e he).2
    simp only [smul_eq_mul, mul_one]
    exact Nat.lt_of_le_of_lt this (by decide)
  · rw [(hscalar e he).1]
    decide

theorem scalarValue_assign {T : Type} [Element Id α T] (hS : IsGraph n S) (htau : tau ∈ S)
    (hsym : tau.isSymbol = true) (hp : tau.pattern = .scalar) (t : T) :
    scalarValue (Function.assign [tau] [[t]]) tau = t := by
  have hlast : IsLast [tau] 0 tau := by
    refine ⟨rfl, fun u hu => ?_⟩
    have := (List.getElem?_eq_some_iff.1 hu).1
    simp only [List.length_singleton] at this
    omega
  have hlen : [[t]].map List.length = [tau].map nnz := by
    rw [List.map_singleton, List.map_singleton, nnz, hp]
    rfl
  rw [scalarValue, Function.nonzeros_assign hS (by simpa using htau) hlen hlast hsym rfl]
  rfl

omit [ExactField α] in
theorem exists_compiled_scalar [Scalar α] (hS : IsGraph n S) (htau : Usable S tau)
    (htaus : tau.OfScalars) (hsym : tau.isSymbol = true)
    (hall : ∀ x ∈ S, x.isSymbol = true → x = tau) {r : Expr α} (hr : Usable S r)
    (hrs : r.OfScalars) (name : String) :
    ∃ l, Function.compile name [tau] [r] = .ok l ∧ l.Compiled S ∧ l.FitsMemory ∧
      l.inputs = [tau] ∧ l.outputs = [r] ∧ ∀ (T : Type) [Element Id α T] (t : T),
        (l.run [[t]] : ExceptT GraphError Id _) =
          pure [[scalarValue (Function.assign [tau] [[t]]) r]] := by
  have hinput (x : Expr α) (hx : x ∈ [tau]) : x ∈ S ∧ x.isSymbol = true :=
    List.mem_singleton.1 hx ▸ ⟨htau.1, hsym⟩
  have houtput (o : Expr α) (ho : o ∈ [r]) : Usable S o := List.mem_singleton.1 ho ▸ hr
  obtain ⟨l, hl, hcompiled, hin, hout, hrun⟩ := Function.exists_compiled hS hinput
    (fun x hx hs => List.mem_singleton.2 (hall x hx hs)) houtput name
  refine ⟨l, hl, hcompiled, fitsMemory_of_scalars hS hcompiled ?_, hin, hout, fun T _ t => ?_⟩
  · rw [hin, hout]
    simpa using ⟨htaus, hrs⟩
  · refine (hrun T [[t]] ?_).trans ?_
    · rw [List.map_singleton, List.map_singleton, nnz, htaus.pattern]
      rfl
    · rw [List.map_singleton, hS.nonzeros_scalar hr.1 hrs.pattern]

theorem compile_polynomial (hS : IsGraph n S) (htau : IsPolynomial S tau tau X)
    (hsym : tau.isSymbol = true) (hall : ∀ x ∈ S, x.isSymbol = true → x = tau) {r : Expr α}
    {P : α[X]} (hr : IsPolynomial S tau r P) (name : String) :
    ∃ l, Function.compile name [tau] [r] = .ok l ∧ l.Compiled S ∧ l.FitsMemory ∧
      l.inputs = [tau] ∧ (∀ t : Dual α, l.evaluateDual [[t]] = .ok [[dualEval P t]]) ∧
      ∀ x : α, l.evaluate [[x]] = .ok [[P.eval x]] := by
  obtain ⟨l, hl, hcompiled, hmemory, hin, -, hrun⟩ := exists_compiled_scalar hS htau.usable
    htau.ofScalars hsym hall hr.usable hr.ofScalars name
  have hdual (t : Dual α) : scalarValue (Function.assign [tau] [[t]]) r = dualEval P t := by
    rw [hr.value, scalarValue_assign hS htau.usable.1 hsym htau.pattern]
  refine ⟨l, hl, hcompiled, hmemory, hin, fun t => ?_, fun x => ?_⟩
  · exact (hrun (Dual α) t).trans (congrArg (fun v => Except.ok [[v]]) (hdual t))
  · refine (hrun α x).trans (congrArg (fun v => Except.ok [[v]]) ?_)
    have hconst : nonzeros (Function.assign [tau] [[Dual.constant x]]) r =
        (nonzeros (Function.assign [tau] [[x]]) r).map Dual.constant := by
      refine isElementMap_constant.nonzeros_map hS (fun y hy hysym k => ?_) hr.usable.1
      exact Function.assign_map isElementMap_constant [tau] [[x]] y.id k
    rw [hS.nonzeros_scalar hr.usable.1 hr.pattern, hS.nonzeros_scalar hr.usable.1 hr.pattern, hdual,
      List.map_singleton, List.singleton_inj] at hconst
    exact (congrArg Dual.value hconst).symm

noncomputable def lagrange (points : List α) : Basis α where
  slopes := (List.range points.length).map fun j =>
    points.map fun x => (lagrangeAt points j).derivative.eval x
  ends := (List.range points.length).map fun j => (lagrangeAt points j).eval 1

theorem grows_forward (hS : IsGraph n S) {l : Function α} {P : α[X]} (hl : l.Compiled S)
    (hmemory : l.FitsMemory) (hin : l.inputs.map nnz = [1])
    (hdual : ∀ t : Dual α, l.evaluateDual [[t]] = .ok [[dualEval P t]]) :
    Grows refused n S (l.forward 1) fun _ dl => ∀ x : α, ∃ rest,
      dl.evaluate [[x], [1]] = .ok ([P.derivative.eval x] :: rest) := by
  have hspec := Function.forward_spec hS hl 1
  cases hg : l.forward 1 n with
  | error e =>
    simp only [hg] at hspec
    exact absurd ⟨by decide, hmemory⟩ hspec.2
  | ok out =>
    obtain ⟨dl, n'⟩ := out
    simp only [hg] at hspec
    obtain ⟨hle, -, heval⟩ := hspec
    refine .of_ok hS hle hg fun x => ?_
    obtain ⟨outs, hrun, hall⟩ := heval [[x]] [[[1]]] (by rw [hin]; rfl) rfl
      (by rw [hin]; simp)
    obtain ⟨out, rfl, duals, hduals, rfl⟩ := exists_singleton_of_forall₂ hall
    obtain rfl := Except.ok.inj ((hdual ⟨x, 1⟩).symm.trans hduals)
    refine ⟨[], hrun.trans ?_⟩
    simp [dualEval, Dual.derivs]

theorem grows_ofPoint (hS : IsGraph n S) (htau : IsPolynomial S tau tau X)
    (hsym : tau.isSymbol = true) (hall : ∀ x ∈ S, x.isSymbol = true → x = tau) (points : List α)
    (j : Nat) :
    Grows refused n S (ofPoint tau points j) fun _ r =>
      r = (points.map fun x => (lagrangeAt points j).derivative.eval x,
        (lagrangeAt points j).eval 1) := by
  unfold ofPoint
  refine .bind (grows_polynomial hS htau points j) fun n₁ S₁ r h₁ hr => ?_
  have hall₁ (x : Expr α) (hx : x ∈ S₁) (hs : x.isSymbol = true) : x = tau :=
    hall x (h₁.symbols x hx hs) hs
  obtain ⟨l, hl, hcompiled, hmemory, hin, hdual, heval⟩ := compile_polynomial h₁.graph
    (htau.mono h₁.subset) hsym hall₁ hr s!"lagrange{j}"
  rw [hl]
  refine .bind (Q := fun _ l' => l' = l) (.pure h₁.graph rfl) ?_
  rintro n₂ S₂ l' h₂ rfl
  rw [firstValue_eq (heval 1)]
  refine .bind (Q := fun _ last => last = (lagrangeAt points j).eval 1) (.pure h₂.graph rfl) ?_
  rintro n₃ S₃ last h₃ rfl
  have hsub := (h₂.trans h₃).subset
  refine .bind (grows_forward h₃.graph (hcompiled.mono hsub) hmemory ?_ hdual) ?_
  · rw [hin, List.map_singleton, nnz, htau.pattern]
    rfl
  · intro n₄ S₄ dl h₄ hdl
    refine .bind (Q := fun _ slopes =>
      slopes = points.map fun x => (lagrangeAt points j).derivative.eval x) ?_ ?_
    · refine (Grows.mapM (P := fun _ x slope => (lagrangeAt points j).derivative.eval x = slope)
        h₄.graph (fun x _ n' S' h' => ?_) fun _ _ _ _ _ h => h).mono ?_
      · obtain ⟨rest, hrest⟩ := hdl x
        rw [firstValue_eq hrest]
        exact .pure h'.graph rfl
      · intro n' S' slopes _ hslopes
        rw [← List.map_id slopes]
        exact (map_eq_of_forall₂ hslopes fun x slope h => h).symm
    · rintro n₅ S₅ slopes h₅ rfl
      exact .pure h₅.graph rfl

omit [ExactField α] in
/-- A basis is built apart from every graph, from polynomials in one symbol. -/
theorem grows_ofPoints_of [Scalar α] (hS : IsGraph n S) (points : List α)
    {P : Nat → List α × α → Prop}
    (h : ∀ (tau : Expr α) (j n' : Nat) (S' : Set (Expr α)), IsGraph n' S' → Usable S' tau →
      tau.OfScalars → tau.isSymbol = true → (∀ x ∈ S', x.isSymbol = true → x = tau) →
      Grows (fun _ => False) n' S' (ofPoint tau points j) fun _ r => P j r) :
    Grows refused n S (ofPoints points) fun _ b =>
      ∃ rs, List.Forall₂ P (List.range points.length) rs ∧
        b = ⟨rs.map Prod.fst, rs.map Prod.snd⟩ := by
  set tau : Expr α := .node n (.symbol "tau") [] .scalar []
  have hadd := AddsSymbols.single (IsGraph.empty n : IsGraph n (∅ : Set (Expr α))) "tau" .scalar
  have hgrow : Grows (fun _ => False) (n + 1) (insert tau ∅)
      ((List.range points.length).mapM (ofPoint tau points)) fun _ rs =>
        List.Forall₂ P (List.range points.length) rs := by
    refine Grows.mapM (P := fun _ => P) hadd.graph (fun j _ n' S' h' => ?_) fun _ _ _ _ _ h => h
    refine h tau j n' S' h'.graph ⟨h'.subset (Set.mem_insert _ _), rfl⟩
      (ofScalars_node (by simp) (by simp)) rfl fun x hx hs => ?_
    rcases hadd.symbols x (h'.symbols x hx hs) hs with hx | hx
    · cases hx
    · exact List.mem_singleton.1 hx
  have hrun : ofPoints points n = (((List.range points.length).mapM (ofPoint tau points)) >>=
      fun rs => pure (⟨rs.map Prod.fst, rs.map Prod.snd⟩ : Basis α)) (n + 1) := rfl
  unfold Grows at hgrow
  cases hstep : ((List.range points.length).mapM (ofPoint tau points)) (n + 1) with
  | error e =>
    rw [hstep] at hgrow
    exact hgrow.elim
  | ok out =>
    obtain ⟨rs, n'⟩ := out
    rw [hstep] at hgrow
    obtain ⟨S', hext, hrs⟩ := hgrow
    refine .of_ok hS (Nat.le_trans (Nat.le_succ n) hext.le) (hrun.trans ?_) ⟨rs, hrs, rfl⟩
    show ((List.range points.length).mapM (ofPoint tau points) (n + 1) >>= _) = _
    rw [hstep]
    rfl

/-- The basis of a list of points holds the derivatives of the Lagrange polynomials at the points
and their values at one. -/
theorem grows_ofPoints (hS : IsGraph n S) (points : List α) :
    Grows refused n S (ofPoints points) fun _ b => b = lagrange points := by
  refine (grows_ofPoints_of hS points (P := fun j r => (points.map fun x =>
    (lagrangeAt points j).derivative.eval x, (lagrangeAt points j).eval 1) = r)
    fun tau j n' S' hS' htau hscalars hsym hall => ?_).mono ?_
  · exact (grows_ofPoint hS' ⟨htau, hscalars, fun env => (dualEval_X _).symm⟩ hsym hall points
      j).mono fun _ _ _ _ h => h.symm
  · rintro n' S' b - ⟨rs, hrs, rfl⟩
    rw [← map_eq_of_forall₂ hrs fun j r h => congrArg Prod.fst h,
      ← map_eq_of_forall₂ hrs fun j r h => congrArg Prod.snd h]
    rfl

end Basis

end DiffGraph
