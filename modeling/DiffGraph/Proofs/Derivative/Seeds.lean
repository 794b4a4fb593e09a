import Mathlib
import DiffGraph.Function.Derivative
import DiffGraph.Proofs.Derivative.Dual
import DiffGraph.Proofs.Function.Run
import DiffGraph.Proofs.Graph.Built

/-!
# Derivative functions

Both derivative functions draw a symbol for every port and direction, build
derivatives from these seeds and compile them over the inputs and the seeds
(`Function.derivativeOf`). The seeds are new symbols of the graph
(`AddsSymbols`), so an evaluation reads every seed from its own argument
(`Function.Assigns`), and all symbols of the derivatives are inputs of the
compiled function (`derivativeOf_spec`).
-/

namespace DiffGraph

open Element Expr

variable {α : Type} {n n' n'' : Nat} {S S' S'' : Set (Expr α)} {xs ys : List (Expr α)}

/-! ## New symbols -/

/-- The symbols `xs`, added to a graph under new identities. -/
structure AddsSymbols (n : Nat) (S : Set (Expr α)) (n' : Nat) (S' : Set (Expr α))
    (xs : List (Expr α)) : Prop where
  graph : IsGraph n' S'
  le : n ≤ n'
  subset : S ⊆ S'
  mem : ∀ x ∈ xs, x ∈ S' ∧ x.isSymbol = true ∧ n ≤ x.id
  symbols : ∀ x ∈ S', x.isSymbol = true → x ∈ S ∨ x ∈ xs
  nodup : xs.Nodup

namespace AddsSymbols

theorem nil (hS : IsGraph n S) : AddsSymbols n S n S [] :=
  ⟨hS, Nat.le_refl n, subset_rfl, by simp, fun _ hx _ => .inl hx, List.nodup_nil⟩

theorem single (hS : IsGraph n S) (name : String) (p : Pattern) :
    AddsSymbols n S (n + 1) (insert (node n (.symbol name) [] p []) S)
      [node n (.symbol name) [] p []] where
  graph := hS.insert rfl (.symbol n name p) (by simp [deps]) (by simp [deps])
  le := Nat.le_succ n
  subset := Set.subset_insert _ _
  mem x hx := by
    obtain rfl := List.mem_singleton.1 hx
    exact ⟨Set.mem_insert _ _, rfl, Nat.le_refl n⟩
  symbols x hx _ := by
    rcases Set.mem_insert_iff.1 hx with rfl | hx
    · exact .inr (List.mem_singleton_self _)
    · exact .inl hx
  nodup := List.nodup_singleton _

theorem perm (h : AddsSymbols n S n' S' xs) (hp : xs.Perm ys) : AddsSymbols n S n' S' ys where
  graph := h.graph
  le := h.le
  subset := h.subset
  mem x hx := h.mem x (hp.mem_iff.2 hx)
  symbols x hx hsym := (h.symbols x hx hsym).imp_right hp.mem_iff.1
  nodup := hp.nodup h.nodup

theorem append (h : AddsSymbols n S n' S' xs) (h' : AddsSymbols n' S' n'' S'' ys) :
    AddsSymbols n S n'' S'' (xs ++ ys) where
  graph := h'.graph
  le := Nat.le_trans h.le h'.le
  subset := h.subset.trans h'.subset
  mem x hx := by
    rcases List.mem_append.1 hx with hx | hx
    · obtain ⟨hmem, hsym, hid⟩ := h.mem x hx
      exact ⟨h'.subset hmem, hsym, hid⟩
    · obtain ⟨hmem, hsym, hid⟩ := h'.mem x hx
      exact ⟨hmem, hsym, Nat.le_trans h.le hid⟩
  symbols x hx hsym := by
    rcases h'.symbols x hx hsym with hx | hx
    · exact (h.symbols x hx hsym).imp_right (List.mem_append_left _)
    · exact .inr (List.mem_append_right _ hx)
  nodup := by
    refine List.nodup_append'.2 ⟨h.nodup, h'.nodup, fun x hx hx' => ?_⟩
    have hlt : x.id < n' := h.graph.below x (h.mem x hx).1
    exact Nat.not_le_of_lt hlt (h'.mem x hx').2.2

theorem mapM {β γ : Type} {f : β → Build γ} {g : γ → List (Expr α)} {P : β → γ → Prop}
    (hf : ∀ b n S, IsGraph n S → ∃ r n' S', f b n = .ok (r, n') ∧
      AddsSymbols n S n' S' (g r) ∧ P b r) (hS : IsGraph n S) (bs : List β) :
    ∃ rs n' S', bs.mapM f n = .ok (rs, n') ∧ AddsSymbols n S n' S' (rs.flatMap g) ∧
      List.Forall₂ P bs rs := by
  induction bs generalizing n S with
  | nil => exact ⟨[], n, S, rfl, nil hS, .nil⟩
  | cons b bs ih =>
    obtain ⟨r, n₁, S₁, hr, hadd, hP⟩ := hf b n S hS
    obtain ⟨rs, n₂, S₂, hrs, hadds, hPs⟩ := ih hadd.graph
    refine ⟨r :: rs, n₂, S₂, ?_, hadd.append hadds, .cons hP hPs⟩
    rw [List.mapM_cons]
    show (f b n >>= fun out => (bs.mapM f >>= fun rs => pure (out.1 :: rs)) out.2) = _
    rw [hr]
    show (bs.mapM f n₁ >>= fun out => pure (r :: out.1, out.2)) = _
    rw [hrs]
    rfl

theorem exists_mapM_symbol {β : Type} (name : β → String) (p : β → Pattern) (hS : IsGraph n S)
    (bs : List β) :
    ∃ xs n' S', (bs.mapM fun b => (symbol (name b) (p b) : Build (Expr α))) n = .ok (xs, n') ∧
      AddsSymbols n S n' S' xs ∧ xs.map pattern = bs.map p := by
  obtain ⟨xs, n', S', hxs, hadd, hP⟩ := mapM (g := fun x => [x])
    (P := fun b x => p b = x.pattern)
    (fun b n S hS => ⟨_, _, _, rfl, single hS (name b) (p b), rfl⟩) hS bs
  refine ⟨xs, n', S', hxs, ?_, (map_eq_of_forall₂ hP fun _ _ h => h).symm⟩
  rwa [List.flatMap_singleton'] at hadd

end AddsSymbols

namespace Function

theorem exists_forwardSeeds (f : Function α) (d n : Nat) (S : Set (Expr α)) (hS : IsGraph n S) :
    ∃ xs n' S', f.forwardSeeds d n = .ok (xs, n') ∧ AddsSymbols n S n' S' xs ∧
      xs.map pattern = f.inputs.map pattern := by
  obtain ⟨xs, n', S', hxs, hadd, hp⟩ := AddsSymbols.exists_mapM_symbol
    (fun xi : Expr α × Nat => s!"fwd{d}_{f.inputName xi.2}") (fun xi => xi.1.pattern) hS
    f.inputs.zipIdx
  exact ⟨xs, n', S', hxs, hadd, hp.trans ((List.map_map (g := pattern) (f := Prod.fst)).symm.trans
    (congrArg (List.map pattern) (List.zipIdx_map_fst 0 _)))⟩

theorem exists_reverseSeeds (f : Function α) (d n : Nat) (S : Set (Expr α)) (hS : IsGraph n S) :
    ∃ xs n' S', f.reverseSeeds d n = .ok (xs, n') ∧ AddsSymbols n S n' S' xs ∧
      xs.map pattern = f.outputs.map pattern := by
  obtain ⟨xs, n', S', hxs, hadd, hp⟩ := AddsSymbols.exists_mapM_symbol
    (fun ok : Expr α × Nat => s!"adj{d}_o{ok.2}") (fun ok => ok.1.pattern) hS f.outputs.zipIdx
  exact ⟨xs, n', S', hxs, hadd, hp.trans ((List.map_map (g := pattern) (f := Prod.fst)).symm.trans
    (congrArg (List.map pattern) (List.zipIdx_map_fst 0 _)))⟩

end Function

/-! ## Arguments -/

theorem map_eq_map_of_forall_eq {β γ δ : Type} {f : β → δ} {g : γ → δ} {xs : List β}
    {ys : List γ} {c : δ} (hlen : xs.length = ys.length) (hx : ∀ x ∈ xs, f x = c)
    (hy : ∀ y ∈ ys, g y = c) : xs.map f = ys.map g := by
  rw [List.map_congr_left hx, List.map_congr_left hy, List.map_const', List.map_const', hlen]

theorem zip_flatten {β γ : Type} {xss : List (List β)} {yss : List (List γ)}
    (h : xss.map List.length = yss.map List.length) :
    xss.flatten.zip yss.flatten = (xss.zip yss).flatMap fun (xs, ys) => xs.zip ys := by
  induction xss generalizing yss with
  | nil =>
    obtain rfl : yss = [] := by simpa using h.symm
    rfl
  | cons xs xss ih =>
    cases yss with
    | nil => simp at h
    | cons ys yss =>
      obtain ⟨hlen, hrest⟩ := List.cons.inj h
      rw [List.flatten_cons, List.flatten_cons, List.zip_append hlen, ih hrest, List.zip_cons_cons,
        List.flatMap_cons]

theorem map_length_seeded {point derivs : List (List α)}
    (h : point.map List.length = derivs.map List.length) :
    (List.zipWith Dual.seeded point derivs).map List.length = point.map List.length := by
  induction point generalizing derivs with
  | nil => rfl
  | cons a point ih =>
    cases derivs with
    | nil => simp at h
    | cons v derivs =>
      obtain ⟨hlen, hrest⟩ := List.cons.inj h
      rw [List.zipWith_cons_cons, List.map_cons, List.map_cons, ih hrest, Dual.seeded,
        List.length_zipWith, ← hlen, Nat.min_self]

namespace Function

variable [Scalar α] {f : Function α}

/-- The assignment gives the inputs the values `point` and the seeds of every direction the values
of that direction. -/
structure Assigns (f : Function α) (seeds : List (List (Expr α))) (point : List (List α))
    (directions : List (List (List α))) (env : Nat → Nat → α) : Prop where
  input : ∀ (t : Nat) x a, IsLast f.inputs t x → point[t]? = some a → env x.id = nth a
  seed : ∀ (d : Nat) xs vs, seeds[d]? = some xs → directions[d]? = some vs →
    ∀ (t : Nat) x v, xs[t]? = some x → vs[t]? = some v → env x.id = nth v

/-- Evaluating over the inputs and the seeds reads every one of them from its own argument. -/
theorem assigns_assign {seeds : List (List (Expr α))}
    (hadd : AddsSymbols n S n' S' seeds.flatten) (hS : IsGraph n S) (hin : ∀ x ∈ f.inputs, x ∈ S)
    {point : List (List α)} (hpoint : point.length = f.inputs.length)
    {directions : List (List (List α))}
    (hlen : seeds.map List.length = directions.map List.length) :
    f.Assigns seeds point directions
      (assign (f.inputs ++ seeds.flatten) (point ++ directions.flatten)) := by
  have hmem (x : Expr α) (hx : x ∈ f.inputs ++ seeds.flatten) : x ∈ S' :=
    (List.mem_append.1 hx).elim (fun hx => hadd.subset (hin x hx)) fun hx => (hadd.mem x hx).1
  have hflat : directions.flatten.length = seeds.flatten.length := by
    rw [List.length_flatten, List.length_flatten, hlen]
  have hlength : (point ++ directions.flatten).length = (f.inputs ++ seeds.flatten).length := by
    rw [List.length_append, List.length_append, hpoint, hflat]
  have hnew (x : Expr α) (hx : x ∈ seeds.flatten) : x ∉ f.inputs := fun hx' =>
    Nat.not_le_of_lt (hS.below x (hin x hx')) (hadd.mem x hx).2.2
  constructor
  · intro t x a ht ha
    have hlt := (List.getElem?_eq_some_iff.1 ht.1).1
    have hx : x ∈ f.inputs := List.mem_of_getElem? ht.1
    refine assign_of_isLast hadd.graph hmem hlength ⟨?_, fun u hu => ?_⟩
      (by rwa [List.getElem?_append_left (hpoint ▸ hlt)])
    · rw [List.getElem?_append_left hlt, ht.1]
    · by_cases hu' : u < f.inputs.length
      · exact ht.2 u (by rwa [List.getElem?_append_left hu'] at hu)
      · rw [List.getElem?_append_right (Nat.le_of_not_lt hu')] at hu
        exact absurd hx (hnew x (List.mem_of_getElem? hu))
  · intro d xs vs hxs hvs t x v hx hv
    have hzip : (x, v) ∈ seeds.flatten.zip directions.flatten := by
      rw [zip_flatten hlen]
      refine List.mem_flatMap.2 ⟨(xs, vs), List.mem_iff_getElem?.2 ⟨d, ?_⟩,
        List.mem_iff_getElem?.2 ⟨t, ?_⟩⟩
      · exact List.getElem?_zip_eq_some.2 ⟨hxs, hvs⟩
      · exact List.getElem?_zip_eq_some.2 ⟨hx, hv⟩
    obtain ⟨j, hj⟩ := List.mem_iff_getElem?.1 hzip
    obtain ⟨hxj, hvj⟩ := List.getElem?_zip_eq_some.1 hj
    have hjlt := (List.getElem?_eq_some_iff.1 hxj).1
    refine assign_of_isLast hadd.graph hmem hlength (t := f.inputs.length + j) ⟨?_, fun u hu => ?_⟩
      ?_
    · rwa [List.getElem?_append_right (Nat.le_add_right _ _), Nat.add_sub_cancel_left]
    · by_cases hu' : u < f.inputs.length
      · rw [List.getElem?_append_left hu'] at hu
        exact absurd (List.mem_of_getElem? hu) (hnew x (List.mem_of_getElem? hxj))
      · rw [List.getElem?_append_right (Nat.le_of_not_lt hu')] at hu
        have := (List.getElem?_inj hjlt hadd.nodup).1 (hxj.trans hu.symm)
        omega
    · rwa [← hpoint, List.getElem?_append_right (Nat.le_add_right _ _), Nat.add_sub_cancel_left]

/-! ## Compiling derivatives -/

/-- What the derivatives of a function ask of the memory: it holds a dense matrix for every slot,
and the rows of the operands and of the results of every instruction can be counted. -/
structure FitsMemory (f : Function α) : Prop where
  slots : ∀ (t : Nat) p, f.slots[t]? = some p → Size.Fits p.shape
  operands : ∀ ins ∈ f.instructions,
    (ins.node.deps.map fun d => d.pattern.nrows).sum < Size.wordLimit
  results : ∀ ins ∈ f.instructions, (ins.node.patterns.map Pattern.nrows).sum < Size.wordLimit

/-- The function over the inputs and `k` directions of seeds that returns what `derive` builds from
the seeds. -/
def derivativeOf (f : Function α) (name : String) (k : Nat)
    (seedsOf : Nat → Build (List (Expr α)))
    (derive : List (List (Expr α)) → Build (List (List (Expr α)))) : Build (Function α) := do
  Size.checkLength k
  let seeds ← (List.range k).mapM seedsOf
  let outputs ← derive seeds
  compile name (f.inputs ++ seeds.flatten) outputs.flatten

/-- The function has been compiled from expressions of a graph. -/
structure Compiled (S : Set (Expr α)) (f : Function α) : Prop where
  inputs : ∀ x ∈ f.inputs, x ∈ S
  outputs : ∀ o ∈ f.outputs, Usable S o
  compile : compile f.name f.inputs f.outputs = .ok f

omit [Scalar α] in
theorem Compiled.mono (h : f.Compiled S) (hsub : S ⊆ S') : f.Compiled S' :=
  ⟨fun x hx => hsub (h.inputs x hx), fun o ho => (h.outputs o ho).mono hsub, h.compile⟩

omit [Scalar α] in
theorem Compiled.nodesOf_subset (h : f.Compiled S) (hS : IsGraph n S) :
    nodesOf (f.inputs ++ f.outputs) ⊆ S := by
  rintro x ⟨e, he, hreach⟩
  refine hS.mem_of_reaches ?_ hreach
  exact (List.mem_append.1 he).elim (h.inputs e) fun ho => (h.outputs e ho).1

omit [Scalar α] in
theorem Compiled.exists_layout (h : f.Compiled S) (hS : IsGraph n S) :
    IsGraph n (nodesOf (f.inputs ++ f.outputs)) ∧
      ∃ slot, f.Layout (nodesOf (f.inputs ++ f.outputs)) slot := by
  have hgraph : IsGraph n (nodesOf (f.inputs ++ f.outputs)) :=
    hS.nodesOf fun e he => h.nodesOf_subset hS (mem_nodesOf he)
  obtain ⟨-, -, -, hlayout⟩ :=
    Function.exists_layout hgraph (fun o ho => (h.outputs o ho).2) h.compile
  exact ⟨hgraph, hlayout⟩

/-- A function of expressions that constructors built is compiled from their graph. -/
theorem compiled_of_built {G inputs outputs : List (Expr α)} {name : String} (hG : Built n G)
    (hin : ∀ x ∈ inputs, x ∈ G) (hout : ∀ o ∈ outputs, o ∈ G)
    (h : compile name inputs outputs = .ok f) : IsGraph n (nodesOf G) ∧ f.Compiled (nodesOf G) := by
  obtain ⟨hS, hsplit⟩ := hG.isGraph
  obtain ⟨-, -, rfl⟩ := eq_of_compile h
  exact ⟨hS, fun x hx => mem_nodesOf (hin x hx),
    fun o ho => ⟨mem_nodesOf (hout o ho), hsplit o (hout o ho)⟩, h⟩

theorem exists_compiled {inputs outs : List (Expr α)} (hS : IsGraph n S)
    (hin : ∀ x ∈ inputs, x ∈ S ∧ x.isSymbol = true)
    (hsym : ∀ x ∈ S, x.isSymbol = true → x ∈ inputs) (houts : ∀ o ∈ outs, Usable S o)
    (name : String) :
    ∃ g, Function.compile name inputs outs = .ok g ∧ g.Compiled S ∧ g.inputs = inputs ∧
      g.outputs = outs ∧ ∀ (T : Type) [Element Id α T] (args : List (List T)),
        args.map List.length = inputs.map nnz →
          (g.run args : ExceptT GraphError Id _) =
            pure (outs.map (nonzeros (assign inputs args))) := by
  have hmem (e : Expr α) (he : e ∈ inputs ++ outs) : e ∈ S := by
    rcases List.mem_append.1 he with he | he
    · exact (hin e he).1
    · exact (houts e he).1
  have hgraph := hS.nodesOf hmem
  obtain ⟨g, hg⟩ := @compile_eq_ok _ _ _ _ name hgraph (fun x hx => (hin x hx).2) (by
    rintro e ⟨root, hroot, hreach⟩ hes
    exact hsym e (hS.mem_of_reaches (hmem root hroot) hreach) hes)
  obtain ⟨rfl, rfl, rfl, slot, hlayout⟩ := exists_layout hgraph (fun o ho => (houts o ho).2) hg
  exact ⟨g, hg, ⟨fun x hx => (hin x hx).1, houts, hg⟩, rfl, rfl,
    fun T _ args hargs => run_eq hlayout hgraph hargs⟩

/-- Expressions over the inputs and the seeds compile to a function that evaluates them. -/
theorem compile_seeded (hadd : AddsSymbols n S n' S' xs)
    (hin : ∀ x ∈ f.inputs, x ∈ S ∧ x.isSymbol = true)
    (hsym : ∀ x ∈ S, x.isSymbol = true → x ∈ f.inputs) (hext : Extends n' S' n'' S'')
    {outs : List (Expr α)} (houts : ∀ o ∈ outs, Usable S'' o) (name : String) :
    ∃ g, Function.compile name (f.inputs ++ xs) outs = .ok g ∧ g.Compiled S'' ∧
      ∀ args : List (List α), args.map List.length = (f.inputs ++ xs).map nnz →
        g.evaluate args = .ok (outs.map (nonzeros (assign (f.inputs ++ xs) args))) := by
  have hinput (x : Expr α) (hx : x ∈ f.inputs ++ xs) : x ∈ S'' ∧ x.isSymbol = true := by
    rcases List.mem_append.1 hx with hx | hx
    · exact ⟨hext.subset (hadd.subset (hin x hx).1), (hin x hx).2⟩
    · exact ⟨hext.subset (hadd.mem x hx).1, (hadd.mem x hx).2.1⟩
  obtain ⟨g, hg, hcompiled, -, -, hrun⟩ := exists_compiled hext.graph hinput (fun e he hes => by
    rcases hadd.symbols e (hext.symbols e he hes) hes with he | he
    · exact List.mem_append_left _ (hsym e he hes)
    · exact List.mem_append_right _ he) houts name
  exact ⟨g, hg, hcompiled, hrun α⟩

/-- If the derivatives can be built from any seeds, the derivative function evaluates them, under an
assignment that reads the inputs and the seeds from its arguments; and it is compiled from a graph
again. -/
theorem derivativeOf_spec {k : Nat} {memory : Prop} {seedsOf : Nat → Build (List (Expr α))}
    {derive : List (List (Expr α)) → Build (List (List (Expr α)))} {ps : List Pattern}
    {Q : Set (Expr α) → List (List (Expr α)) → List (List (Expr α)) → Prop} (hS : IsGraph n S)
    (hin : ∀ x ∈ f.inputs, x ∈ S ∧ x.isSymbol = true)
    (hsym : ∀ x ∈ S, x.isSymbol = true → x ∈ f.inputs)
    (hseeds : ∀ d n S, IsGraph n S → ∃ xs n' S', seedsOf d n = .ok (xs, n') ∧
      AddsSymbols n S n' S' xs ∧ xs.map pattern = ps)
    (hderive : ∀ n' S' seeds, AddsSymbols n S n' S' seeds.flatten →
      (∀ xs ∈ seeds, xs.map pattern = ps) → Grows (OutOf memory) n' S' (derive seeds)
        fun S'' outs => (∀ o ∈ outs.flatten, Usable S'' o) ∧ Q S'' seeds outs)
    (name : String) :
    match f.derivativeOf name k seedsOf derive n with
    | .error e => OutOf (k < Size.listLimit ∧ memory) e
    | .ok (g, n₂) => ∃ n₁ S₁ S₂ seeds outs, AddsSymbols n S n₁ S₁ seeds.flatten ∧
        Extends n₁ S₁ n₂ S₂ ∧ (∀ xs ∈ seeds, xs.map pattern = ps) ∧ Q S₂ seeds outs ∧
        g.Compiled S₂ ∧ ∀ point directions, point.map List.length = f.inputs.map nnz →
          directions.length = k → (∀ vs ∈ directions, vs.map List.length = ps.map Pattern.nnz) →
          seeds.length = directions.length ∧ ∃ env, f.Assigns seeds point directions env ∧
            g.evaluate (point ++ directions.flatten) = .ok (outs.flatten.map (nonzeros env)) := by
  obtain ⟨seeds, n₁, S₁, hrange, hadd, hpatterns⟩ := AddsSymbols.mapM (g := fun xs => xs)
    (P := fun _ xs => xs.map pattern = ps) hseeds hS (List.range k)
  rw [List.flatMap_id'] at hadd
  have hcount : seeds.length = k := by rw [← hpatterns.length_eq, List.length_range]
  have hpattern (xs : List (Expr α)) (hxs : xs ∈ seeds) : xs.map pattern = ps := by
    obtain ⟨i, hi⟩ := List.mem_iff_getElem?.1 hxs
    obtain ⟨-, -, h⟩ := exists_of_forall₂ hpatterns hi
    exact h
  by_cases hk : k < Size.listLimit
  · have hrun : f.derivativeOf name k seedsOf derive n =
        (derive seeds >>= fun outs =>
          (liftM (compile name (f.inputs ++ seeds.flatten) outs.flatten) : Build _)) n₁ := by
      show ((liftM (Size.checkLength k) : Build Unit) n >>= fun (_, n') =>
        ((List.range k).mapM seedsOf n' >>= fun (seeds, n') => (derive seeds >>= fun outs =>
          (liftM (compile name (f.inputs ++ seeds.flatten) outs.flatten) : Build _)) n')) = _
      rw [Size.checkLength_eq_ok_iff.2 hk]
      show ((List.range k).mapM seedsOf n >>= _) = _
      rw [hrange]
      rfl
    have hgrow : Grows (OutOf memory) n₁ S₁ (derive seeds >>= fun outs =>
        (liftM (compile name (f.inputs ++ seeds.flatten) outs.flatten) : Build _)) fun S' g =>
          ∃ outs, Q S' seeds outs ∧ g.Compiled S' ∧ ∀ args : List (List α),
            args.map List.length = (f.inputs ++ seeds.flatten).map nnz → g.evaluate args =
              .ok (outs.flatten.map (nonzeros (assign (f.inputs ++ seeds.flatten) args))) := by
      refine .bind (hderive n₁ S₁ seeds hadd hpattern) ?_
      rintro n₂ S₂ outs hext ⟨hus, hQ⟩
      obtain ⟨g, hg, hcompiled, heval⟩ := compile_seeded hadd hin hsym hext hus name
      refine .lift hext.graph ?_ ?_
      · intro r hr
        obtain rfl := Except.ok.inj (hg.symm.trans hr)
        exact ⟨outs, hQ, hcompiled, heval⟩
      · intro e he
        cases hg.symm.trans he
    rw [hrun]
    unfold Grows at hgrow
    split
    · rename_i e he
      simp only [he] at hgrow
      exact ⟨hgrow.1, fun h => hgrow.2 h.2⟩
    · rename_i g n₂ hg
      simp only [hg] at hgrow
      obtain ⟨S₂, hext, outs, hQ, hcompiled, heval⟩ := hgrow
      refine ⟨n₁, S₁, S₂, seeds, outs, hadd, hext, hpattern, hQ, hcompiled, ?_⟩
      intro point directions hpoint hdirections hlengths
      have hnumber : seeds.length = directions.length := hcount.trans hdirections.symm
      have hrows : seeds.map List.length = directions.map List.length := by
        refine map_eq_map_of_forall_eq (c := ps.length) hnumber (fun xs hxs => ?_) fun vs hvs => ?_
        · simpa using congrArg List.length (hpattern xs hxs)
        · simpa using congrArg List.length (hlengths vs hvs)
      refine ⟨hnumber, _, assigns_assign hadd hS (fun x hx => (hin x hx).1)
        (by simpa using congrArg List.length hpoint) hrows, heval _ ?_⟩
      rw [List.map_append, List.map_append, hpoint, List.map_flatten, List.map_flatten]
      refine congrArg (fun ls => f.inputs.map nnz ++ List.flatten ls) ?_
      refine map_eq_map_of_forall_eq hnumber.symm hlengths fun xs hxs => ?_
      rw [← hpattern xs hxs, List.map_map]
      rfl
  · have hrun : f.derivativeOf name k seedsOf derive n = .error .misuse := by
      show ((liftM (Size.checkLength k) : Build Unit) n >>= fun (_, n') => _) = _
      rw [Size.checkLength, if_neg hk]
      rfl
    rw [hrun]
    exact ⟨rfl, fun h => hk h.1⟩

/-! ## Dual arguments -/

theorem nth_seeded {values derivs : List α} (h : values.length = derivs.length) (k : Nat) :
    nth (Dual.seeded values derivs) k = (⟨nth values k, nth derivs k⟩ : Dual α) := by
  unfold nth Dual.seeded
  rw [List.getElem?_zipWith]
  by_cases hk : k < values.length
  · rw [List.getElem?_eq_getElem hk, List.getElem?_eq_getElem (h ▸ hk)]
    rfl
  · rw [List.getElem?_eq_none (Nat.le_of_not_lt hk),
      List.getElem?_eq_none (Nat.le_of_not_lt (h ▸ hk))]
    rfl

/-- A run on dual numbers gives the outputs their dual values under the assignments of values and
derivatives that the arguments are. -/
theorem evaluateDual_eq {slot : Expr α × Nat → Nat} (h : f.Layout S slot) (hS : IsGraph n S)
    {point derivs : List (List α)} (hpoint : point.map List.length = f.inputs.map nnz)
    (hderivs : derivs.map List.length = f.inputs.map nnz) {env : Nat → Nat → α}
    (henv : ∀ (t : Nat) x a, IsLast f.inputs t x → point[t]? = some a → env x.id = nth a) :
    ∃ tan : Nat → Nat → α,
      (∀ (t : Nat) x v, IsLast f.inputs t x → derivs[t]? = some v → tan x.id = nth v) ∧
      f.evaluateDual (List.zipWith Dual.seeded point derivs) =
        .ok (f.outputs.map (nonzeros (dualEnv env tan))) := by
  have hlen : point.map List.length = derivs.map List.length := hpoint.trans hderivs.symm
  have hargs : (List.zipWith Dual.seeded point derivs).map List.length = f.inputs.map nnz :=
    (map_length_seeded hlen).trans hpoint
  have hdual {t : Nat} {x : Expr α} {a v : List α} (ht : IsLast f.inputs t x)
      (ha : point[t]? = some a) (hv : derivs[t]? = some v) (k : Nat) :
      assign f.inputs (List.zipWith Dual.seeded point derivs) x.id k = ⟨nth a k, nth v k⟩ := by
    have hav : a.length = v.length := by simpa [ha, hv] using congrArg (·[t]?) hlen
    have hat : (List.zipWith Dual.seeded point derivs)[t]? = some (Dual.seeded a v) :=
      List.getElem?_zipWith_eq_some.2 ⟨a, v, ha, hv, rfl⟩
    rw [assign_of_isLast hS (fun y hy => (h.input y hy).1)
      (by simpa using congrArg List.length hargs) ht hat, nth_seeded hav]
  have hat {t : Nat} {x : Expr α} (ht : IsLast f.inputs t x) {vs : List (List α)}
      (hvs : vs.map List.length = f.inputs.map nnz) : ∃ v, vs[t]? = some v := by
    have hlt := (List.getElem?_eq_some_iff.1 ht.1).1
    have hcount : vs.length = f.inputs.length := by simpa using congrArg List.length hvs
    exact ⟨_, List.getElem?_eq_getElem (hcount ▸ hlt)⟩
  refine ⟨fun id k => (assign f.inputs (List.zipWith Dual.seeded point derivs) id k).deriv,
    fun t x v ht hv => ?_, ?_⟩
  · obtain ⟨a, ha⟩ := hat ht hpoint
    exact funext fun k => congrArg Dual.deriv (hdual ht ha hv k)
  · refine (run_eq h hS hargs).trans (congrArg Except.ok (List.map_congr_left fun o ho => ?_))
    refine nonzeros_congr hS (fun x hx hsym => funext fun k => ?_) (h.outputs o ho).1
    obtain ⟨-, -, ht⟩ := h.input x (h.symbols x hx hsym)
    obtain ⟨a, ha⟩ := hat ht hpoint
    obtain ⟨v, hv⟩ := hat ht hderivs
    simp only [dualEnv, henv _ x a ht ha, hdual ht ha hv k]

theorem compile_squares :
    let x : Expr Rat := .node 0 (.symbol "x") [] (.column 2) []
    let p : Expr Rat := .node 1 (.binary .mul .none) [x, x] (.column 2) []
    let f : Function Rat :=
      ⟨"f", [x], [p], [⟨p, [0, 0], [some 1]⟩], #[.column 2, .column 2], [0], [1]⟩
    compile "f" [x] [p] = .ok f ∧ IsGraph 2 (nodesOf [p, x]) ∧ f.Compiled (nodesOf [p, x]) := by
  intro x p f
  have hx : Built 1 [x] := .symbol "x" _ .start
  have hG : Built 2 [p, x] := .make (.binary .mul x x) hx (by simp [Construction.operands]) rfl
  have hf : compile "f" [x] [p] = .ok f := by
    simp [compile, placeInputs, x, p, f, isSymbol, name?, Expr.op, bind, Except.bind, pure,
      Except.pure, Sorter.visitAll, Sorter.visit, Sorter.addInput, Sorter.allocate, Sorter.empty,
      Sorter.place, patterns, deps, Expr.id, resultCount, Sorter.slotFor, Sorter.slotsFor]
  exact ⟨hf, compiled_of_built hG (by simp) (by simp) hf⟩

theorem compile_square :
    let x : Expr Rat := .node 0 (.symbol "x") [] (.column 2) []
    let p : Expr Rat := .node 1 (.binary .mul .none) [x, x] (.column 2) []
    ∃ f, compile "f" [x] [p] = .ok f ∧ f.inputs = [x] ∧ f.outputs = [p] ∧ f.FitsMemory ∧
      (∃ S, IsGraph 2 S ∧ f.Compiled S) ∧ ∀ a b c d : Rat,
        f.evaluateDual (List.zipWith Dual.seeded [[a, b]] [[c, d]]) =
          .ok [[⟨a * a, a * c + c * a⟩, ⟨b * b, b * d + d * b⟩]] := by
  intro x p
  obtain ⟨hf, hS, hcompiled⟩ := compile_squares
  obtain ⟨hgraph, slot, hlayout⟩ := hcompiled.exists_layout hS
  refine ⟨_, hf, rfl, rfl, ⟨fun t q hq => ?_, ?_, ?_⟩, ⟨_, hS, hcompiled⟩, fun a b c d => ?_⟩
  · obtain rfl : q = .column 2 := by simpa [eq_comm] using Array.mem_of_getElem? hq
    decide
  · simp only [List.mem_singleton, forall_eq]
    decide
  · simp only [List.mem_singleton, forall_eq]
    decide
  · exact run_eq hlayout hgraph rfl

end Function

end DiffGraph
