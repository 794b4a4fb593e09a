import Mathlib
import DiffGraph.Expr.Split
import DiffGraph.Proofs.Graph.Grow
import DiffGraph.Proofs.Pattern.Splits

/-!
# Splits and joins

What splitting and joining build: the parts of a split have consecutive pieces of
the operand's nonzeros (`grows_splitInto`), a join has the nonzeros of its parts
one after the other (`grows_joinNode`), also when it gives back what was split
(`whole?_spec`).
-/

namespace DiffGraph

open Expr

variable {α : Type} [Scalar α] {refused : GraphError → Prop} {n : Nat} {S : Set (Expr α)}
  {x : Expr α} {axis : Axis}

/-! ## Splits -/

theorem liftM_mapM {β γ : Type} (f : β → Fresh γ) (xs : List β) :
    (liftM (xs.mapM f) : Build (List γ)) = xs.mapM fun x => (liftM (f x) : Build γ) := by
  induction xs with
  | nil => rfl
  | cons x xs ih =>
    rw [List.mapM_cons, List.mapM_cons, ← ih]
    rfl

omit [Scalar α] in
theorem grows_output (hS : IsGraph n S) {q : Expr α} (hq : q ∈ S) (hsplit : q.op.isSplit = true)
    {i : Nat} {p : Pattern} (hp : q.patterns[i]? = some p) :
    Grows refused n S (liftM (fresh (.output i) [q] p)) fun S' r =>
      Usable S' r ∧ ∃ id, r = node id (.output i) [q] p [] := by
  have hwf : (node n (.output i) [q] p []).WellFormed := .output n hsplit hp
  refine ⟨insert (node n (.output i) [q] p []) S, ⟨?_, Nat.le_succ n, Set.subset_insert _ _, ?_⟩,
    ⟨Set.mem_insert _ _, rfl⟩, n, rfl⟩
  · exact hS.insert rfl hwf (by simpa [deps] using hq) fun ho => by simp [isOutput, op] at ho
  · rintro y (rfl | hy) hsym
    · simp [isSymbol, name?, op] at hsym
    · exact hy

omit [Scalar α] in
theorem results_eq {q : Expr α} (h : q.resultCount ≠ 1) :
    q.results = q.patterns.zipIdx.mapM fun pi => fresh (.output pi.2) [q] pi.1 := by
  unfold results
  split
  · rename_i hp
    simp [resultCount, hp] at h
  · rfl

theorem grows_results_of_isSplit (hS : IsGraph n S) {q : Expr α} (hq : q ∈ S)
    (hsplit : q.op.isSplit = true) :
    Grows refused n S (liftM q.results) fun S' rs =>
      (∀ r ∈ rs, Usable S' r) ∧ rs.map Expr.pattern = q.patterns ∧
        ∀ env : Nat → Nat → α, rs.map (nonzeros env) = values env q := by
  have hcount : q.resultCount ≠ 1 := fun h => by
    simp [(hS.wellFormed q hq).resultCount_eq.1 h] at hsplit
  rw [results_eq hcount, liftM_mapM]
  refine (Grows.mapM (P := fun S' (pi : Pattern × Nat) r => Usable S' r ∧
    ∃ id, r = node id (.output pi.2) [q] pi.1 []) hS ?_ ?_).mono ?_
  · rintro ⟨p, i⟩ hmem n' S' hext
    exact grows_output hext.graph (hext.subset hq) hsplit (List.mem_zipIdx_iff_getElem?.1 hmem)
  · exact fun S' S'' pi r hsub h => ⟨h.1.mono hsub, h.2⟩
  · intro n' S' rs hext hall
    have hat (i : Nat) (r : Expr α) (hr : rs[i]? = some r) :
        Usable S' r ∧ ∃ id p, q.patterns[i]? = some p ∧ r = node id (.output i) [q] p [] := by
      obtain ⟨⟨p, j⟩, hpj, hr, id, hid⟩ := exists_of_forall₂ hall hr
      rw [List.getElem?_zipIdx, Option.map_eq_some_iff] at hpj
      obtain ⟨p', hp', heq⟩ := hpj
      obtain ⟨rfl, rfl⟩ := Prod.mk.inj heq
      exact ⟨hr, id, p', hp', by simpa using hid⟩
    have hlen : rs.length = q.patterns.length := by
      rw [← hall.length_eq, List.length_zipIdx]
    refine ⟨fun r hr => ?_, List.ext_getElem? fun i => ?_, fun env => List.ext_getElem? fun i => ?_⟩
    · obtain ⟨i, hi⟩ := List.mem_iff_getElem?.1 hr
      exact (hat i r hi).1
    · rw [List.getElem?_map]
      cases hr : rs[i]? with
      | none => simpa [hlen] using hr
      | some r =>
        obtain ⟨-, id, p, hp, rfl⟩ := hat i r hr
        exact hp.symm
    · rw [List.getElem?_map]
      cases hr : rs[i]? with
      | none =>
        have : (values env q).length = q.resultCount :=
          hext.graph.length_values_eq (hext.subset hq)
        rw [resultCount, ← hlen] at this
        simpa [this] using hr
      | some r =>
        obtain ⟨hus, id, p, hp, rfl⟩ := hat i r hr
        have hi : i < q.resultCount := (List.getElem?_eq_some_iff.1 hp).1
        rw [hext.graph.getElem?_values (hext.subset hq) hi, Option.map_some,
          hext.graph.nonzeros_eq_source hus.1]
        rfl

theorem grows_splitInto (hS : IsGraph n S) (hx : Usable S x) {parts : List Pattern}
    (hjoins : Pattern.Joins axis parts x.pattern) :
    Grows refused n S (liftM (splitInto axis x parts)) fun S' rs =>
      (∀ r ∈ rs, Usable S' r) ∧ rs.map Expr.pattern = parts ∧
        ∀ env : Nat → Nat → α,
          rs.map (nonzeros env) = chunks (parts.map Pattern.nnz) (nonzeros env x) := by
  unfold splitInto
  split
  · exact .pure hS ⟨by simp, rfl, fun _ => rfl⟩
  · rename_i p
    have hp := hjoins.eq_of_singleton
    refine .pure hS ⟨by simpa using hx, by simp [hp], fun env => ?_⟩
    have hlen : (nonzeros env x).length = p.nnz := by rw [hS.length_nonzeros hx.1, nnz, hp]
    simp [chunks, List.take_of_length_le hlen.le]
  · rename_i p ps hne
    have hps : ps ≠ [] := fun h => hne h
    set offsets := Offsets.ofSizes ((p :: ps).map Pattern.nnz) with hoffsets
    set q : Expr α := node n (.split axis offsets) [x] p ps with hq
    have hwf : q.WellFormed := .split n hps rfl hjoins
    have hgraph : IsGraph (n + 1) (insert q S) :=
      hS.insert rfl hwf (by simpa [hq, deps] using hx.1) fun _ => by simpa [hq, deps] using hx.2
    have hext : Extends n S (n + 1) (insert q S) := by
      refine ⟨hgraph, Nat.le_succ n, Set.subset_insert _ _, ?_⟩
      rintro y (rfl | hy) hsym
      · simp [hq, isSymbol, name?, op] at hsym
      · exact hy
    have hmem : q ∈ insert q S := Set.mem_insert _ _
    show Grows refused n S (liftM Fresh.identity >>= fun id =>
      liftM (results (node id (.split axis offsets) [x] p ps))) _
    refine .identity hext ((grows_results_of_isSplit hgraph hmem rfl).mono ?_)
    rintro n' S' rs hext' ⟨hus, hpat, hval⟩
    refine ⟨hus, hpat, fun env => ?_⟩
    rw [hval, hext'.graph.values_eq_compute (hext'.subset hmem) rfl]
    exact (map_slice_blocks _ 0 _).trans (by rw [List.drop_zero]; rfl)

/-! ## Joins -/

theorem eq_map_of_mapM {β γ : Type} {f : β → Option γ} {g : β → γ} {xs : List β} {ys : List γ}
    (h : xs.mapM f = some ys) (hg : ∀ x ∈ xs, ∀ y, f x = some y → y = g x) : ys = xs.map g := by
  induction xs generalizing ys with
  | nil => simpa using h.symm
  | cons x xs ih =>
    simp only [List.mapM_cons, Option.bind_eq_bind, Option.pure_def, Option.bind_eq_some_iff] at h
    obtain ⟨y, hy, ys', hys, heq⟩ := h
    obtain rfl := Option.some.inj heq
    rw [List.map_cons, ← hg x (by simp) y hy, ← ih hys fun x' hx' => hg x' (by simp [hx'])]

omit [Scalar α] in
theorem map_length_of_mapM_constant? (hS : IsDag S) {parts : List (Expr α)}
    (hparts : ∀ x ∈ parts, x ∈ S) {nzs : List (List α)} (h : parts.mapM constant? = some nzs) :
    nzs.map List.length = parts.map nnz := by
  induction parts generalizing nzs with
  | nil =>
    obtain rfl := Option.some.inj h
    rfl
  | cons x xs ih =>
    simp only [List.mapM_cons, Option.bind_eq_bind, Option.pure_def, Option.bind_eq_some_iff] at h
    obtain ⟨nz, hnz, rest, hrest, heq⟩ := h
    obtain rfl := Option.some.inj heq
    rw [List.map_cons, List.map_cons, hS.length_of_constant? (hparts x (by simp)) hnz,
      ih (fun y hy => hparts y (by simp [hy])) hrest]

theorem grows_joinNode (hS : IsGraph n S) {parts : List (Expr α)} (hparts : ∀ x ∈ parts, Usable S x)
    {p : Pattern} (hjoins : Pattern.Joins axis (parts.map Expr.pattern) p) (hne : parts ≠ []) :
    Grows refused n S (liftM (joinNode axis parts p)) fun S' r =>
      Usable S' r ∧ r.pattern = p ∧
        ∀ env : Nat → Nat → α, nonzeros env r = (parts.map (nonzeros env)).flatten := by
  unfold joinNode
  split
  · exact absurd rfl hne
  · rename_i x
    exact .pure hS ⟨hparts x (by simp), (hjoins.eq_of_singleton).symm, fun env => by simp⟩
  · rename_i hlarge
    split
    · rename_i nzs hnzs
      have hval (env : Nat → Nat → α) : nzs = parts.map (nonzeros env) :=
        eq_map_of_mapM hnzs fun x hx nz hnz =>
          (hS.nonzeros_of_constant? (hparts x hx).1 hnz env).symm
      refine (grows_constant hS ?_).mono ?_
      · rw [hval fun _ _ => 0, List.length_flatten, hjoins.nnz_eq, List.map_map, List.map_map]
        exact congrArg List.sum (List.map_congr_left fun x hx => hS.length_nonzeros (hparts x hx).1)
      · rintro n' S' r - ⟨hr, hp, hr'⟩
        exact ⟨hr, hp, fun env => by rw [hr', hval env]⟩
    · have hcount : 2 ≤ parts.length := by
        rcases parts with _ | ⟨x, _ | ⟨y, rest⟩⟩
        · exact absurd rfl hne
        · exact absurd rfl (hlarge x)
        · simp
      refine (Grows.fresh hS rfl rfl (fun id => .join id hcount hjoins) hparts).mono ?_
      rintro n' S' r hext ⟨hr, id, rfl⟩
      exact ⟨hr, rfl, fun env => hext.graph.nonzeros_of_compute hr.1 rfl rfl⟩

omit [Scalar α] in
theorem eq_of_part? {x q : Expr α} {i : Nat} (h : part? axis x = some (q, i)) :
    x.op = .output i ∧ x.deps = [q] ∧ ∃ offsets, q.op = .split axis offsets := by
  unfold part? at h
  split at h
  · rename_i hop hdeps
    split at h
    · rename_i a offsets hsplit
      split at h
      · rename_i ha
        obtain ⟨rfl, rfl⟩ := Prod.mk.inj (Option.some.inj h)
        exact ⟨hop, hdeps, offsets, ha ▸ hsplit⟩
      · cases h
    · cases h
  · cases h

omit [Scalar α] in
theorem whole?_producer (hS : IsDag S) {parts : List (Expr α)}
    (hparts : ∀ part ∈ parts, part ∈ S) (h : whole? axis parts = some x) :
    ∃ q p ps id, q = node id (.split axis (Offsets.ofSizes ((p :: ps).map Pattern.nnz))) [x] p ps ∧
      q ∈ S ∧ Pattern.Joins axis (p :: ps) x.pattern ∧ parts.map Expr.pattern = p :: ps ∧
      ∀ (i : Nat) (y : Expr α), parts[i]? = some y → y.source = (q, i) := by
  unfold whole? at h
  simp only [Option.bind_eq_bind, Option.bind_eq_some_iff] at h
  obtain ⟨⟨q, i₀⟩, ⟨first, hfirst, hpart⟩, h⟩ := h
  obtain ⟨hop, hdeps, offsets, hsplit⟩ := eq_of_part? hpart
  have hfirstS := hparts first (List.mem_of_mem_head? hfirst)
  have hq : q ∈ S := hS.closed first hfirstS q (by simp [hdeps])
  split at h
  · rename_i hcomplete
    simp only [Bool.and_eq_true, beq_iff_eq, List.all_eq_true] at hcomplete
    obtain ⟨hcount, hall⟩ := hcomplete
    have hat (i : Nat) (y : Expr α) (hy : parts[i]? = some y) :
        q.patterns[i]? = some y.pattern ∧ y.source = (q, i) := by
      have := hall (y, i) (List.mem_zipIdx_iff_getElem?.2 hy)
      simp only [Option.any_eq_true] at this
      obtain ⟨⟨q', j⟩, hpart', hij⟩ := this
      obtain ⟨hop', hdeps', -⟩ := eq_of_part? hpart'
      have hyS := hparts y (List.mem_of_getElem? hy)
      have hq' : q' ∈ S := hS.closed y hyS q' (by simp [hdeps'])
      simp only [Bool.and_eq_true, beq_iff_eq, same] at hij
      obtain ⟨rfl, hid⟩ := hij
      obtain rfl := hS.unique q' hq' q hq hid
      obtain ⟨id, i', q'', p, rfl, -, hp⟩ := (hS.wellFormed y hyS).exists_of_isOutput
        (by simp [isOutput, hop'])
      obtain rfl : i' = j := by simpa [Expr.op] using hop'
      obtain rfl : q'' = q' := by simpa [Expr.deps] using hdeps'
      exact ⟨hp, rfl⟩
    have hpatterns : parts.map Expr.pattern = q.patterns := by
      refine List.ext_getElem? fun i => ?_
      rw [List.getElem?_map]
      cases hy : parts[i]? with
      | none =>
        rw [List.getElem?_eq_none_iff, ← hcount] at hy
        exact (List.getElem?_eq_none hy).symm
      | some y => exact (hat i y hy).1.symm
    obtain ⟨id, op, deps, p, ps⟩ := q
    obtain rfl : op = .split axis offsets := hsplit
    cases hS.wellFormed _ hq with
    | split _ count table joins =>
      obtain rfl := Option.some.inj h
      subst table
      exact ⟨_, p, ps, id, rfl, hq, joins, hpatterns, fun i y hy => (hat i y hy).2⟩
  · cases h

theorem whole?_spec (hS : IsGraph n S) {parts : List (Expr α)} (hparts : ∀ x ∈ parts, x ∈ S)
    (h : whole? axis parts = some x) :
    Usable S x ∧ Pattern.Joins axis (parts.map Expr.pattern) x.pattern ∧
      ∀ env : Nat → Nat → α, nonzeros env x = (parts.map (nonzeros env)).flatten := by
  obtain ⟨q, p, ps, id, hnode, hq, hjoins, hpatterns, hsource⟩ :=
    whole?_producer hS.isDag hparts h
  have hcount : q.resultCount = parts.length := by
    have hlen := congrArg List.length hpatterns
    rw [List.length_map] at hlen
    rw [hlen, hnode]
    rfl
  have hvalues (env : Nat → Nat → α) : parts.map (nonzeros env) = values env q := by
    refine List.ext_getElem? fun i => ?_
    rw [List.getElem?_map]
    cases hy : parts[i]? with
    | none =>
      have hlen : (values env q).length = q.resultCount := hS.length_values_eq hq
      rw [List.getElem?_eq_none_iff, ← hcount, ← hlen] at hy
      exact (List.getElem?_eq_none hy).symm
    | some y =>
      have hlt : i < q.resultCount := hcount ▸ (List.getElem?_eq_some_iff.1 hy).1
      rw [hS.getElem?_values hq hlt, Option.map_some,
        hS.nonzeros_eq_source (hparts y (List.mem_of_getElem? hy)), hsource i y hy]
  subst hnode
  have hx : x ∈ S := hS.closed _ hq x (List.mem_singleton_self x)
  have hsplit := hS.proper _ hq rfl x (List.mem_singleton_self x)
  refine ⟨⟨hx, hsplit⟩, hpatterns ▸ hjoins, fun env => ?_⟩
  have hlen : (nonzeros env x).length = ((p :: ps).map Pattern.nnz).sum :=
    (hS.length_nonzeros hx).trans hjoins.nnz_eq
  have hchunks : values env (node id (.split axis (Offsets.ofSizes ((p :: ps).map Pattern.nnz)))
      [x] p ps) = chunks ((p :: ps).map Pattern.nnz) (nonzeros env x) :=
    (hS.values_eq_compute hq rfl).trans (map_slice_blocks _ 0 _)
  rw [hvalues, hchunks, flatten_chunks, List.take_of_length_le hlen.le]

/-- Parts with a joined pattern, or all parts of one split. -/
theorem grows_joined (hS : IsGraph n S) {parts : List (Expr α)} (hparts : ∀ x ∈ parts, Usable S x)
    {p : Pattern} (hjoins : Pattern.Joins axis (parts.map Expr.pattern) p) (hne : parts ≠ []) :
    Grows refused n S (liftM (joinNode axis parts p)) fun S' r =>
      Usable S' r ∧ Pattern.Joins axis (parts.map Expr.pattern) r.pattern ∧
        ∀ env : Nat → Nat → α, nonzeros env r = (parts.map (nonzeros env)).flatten :=
  (grows_joinNode hS hparts hjoins hne).mono fun _ _ _ _ ⟨hr, hp, hval⟩ =>
    ⟨hr, hp.symm ▸ hjoins, hval⟩

theorem grows_horzcat (hS : IsGraph n S) {parts : List (Expr α)} (hparts : ∀ x ∈ parts, Usable S x)
    (hne : parts ≠ []) (h : ∀ e, Pattern.horzcat (parts.map Expr.pattern) = .error e → refused e) :
    Grows refused n S (horzcat parts) fun S' r =>
      Usable S' r ∧ Pattern.Joins .horizontal (parts.map Expr.pattern) r.pattern ∧
        ∀ env : Nat → Nat → α, nonzeros env r = (parts.map (nonzeros env)).flatten := by
  unfold horzcat
  split
  · rename_i x hx
    exact .pure hS (whole?_spec hS (fun y hy => (hparts y hy).1) hx)
  · refine .bind (Q := fun _ p => Pattern.Joins .horizontal (parts.map Expr.pattern) p)
      (.lift hS (fun p hp => Pattern.joins_of_horzcat hp) h) ?_
    intro n' S' p hext hp
    exact grows_joined hext.graph (fun y hy => (hparts y hy).mono hext.subset) hp hne

theorem grows_vertcat (hS : IsGraph n S) {parts : List (Expr α)} (hparts : ∀ x ∈ parts, Usable S x)
    (hne : parts ≠ []) (hcols : ∀ x ∈ parts, x.pattern.ncols = 1)
    (h : ∀ e, Pattern.vertcat (parts.map Expr.pattern) = .error e → refused e) :
    Grows refused n S (vertcat parts) fun S' r =>
      Usable S' r ∧ Pattern.Joins .vertical (parts.map Expr.pattern) r.pattern ∧
        ∀ env : Nat → Nat → α, nonzeros env r = (parts.map (nonzeros env)).flatten := by
  unfold vertcat
  split
  · rename_i x hx
    exact .pure hS (whole?_spec hS (fun y hy => (hparts y hy).1) hx)
  · have hall : (parts.all fun x => x.pattern.isSingleColumn) = true := by
      simpa [Pattern.isSingleColumn] using hcols
    rw [if_pos hall]
    refine .bind (Q := fun _ p => Pattern.Joins .vertical (parts.map Expr.pattern) p)
      (.lift hS (fun p hp => Pattern.joins_of_vertcat (by simpa using hne)
        (by simpa using hcols) hp)
        h) ?_
    intro n' S' p hext hp
    exact grows_joined hext.graph (fun y hy => (hparts y hy).mono hext.subset) hp hne

theorem grows_diagcat (hS : IsGraph n S) {parts : List (Expr α)} (hparts : ∀ x ∈ parts, Usable S x)
    (hne : parts ≠ [])
    (h : ∀ e, Pattern.diagcatChecked (parts.map Expr.pattern) = .error e → refused e) :
    Grows refused n S (diagcat parts) fun S' r =>
      Usable S' r ∧ Pattern.Joins .diagonal (parts.map Expr.pattern) r.pattern ∧
        ∀ env : Nat → Nat → α, nonzeros env r = (parts.map (nonzeros env)).flatten := by
  unfold diagcat
  split
  · rename_i x hx
    exact .pure hS (whole?_spec hS (fun y hy => (hparts y hy).1) hx)
  · refine .bind (Q := fun _ p => Pattern.Joins .diagonal (parts.map Expr.pattern) p)
      (.lift hS (fun p hp => Pattern.joins_of_diagcatChecked hp) h) ?_
    intro n' S' p hext hp
    exact grows_joined hext.graph (fun y hy => (hparts y hy).mono hext.subset) hp hne

/-! ## Along an axis -/

/-- Parts with the shapes of parts that fit together are refused for too many rows only. -/
theorem grows_joinAlong (hS : IsGraph n S) {parts : List (Expr α)}
    (hparts : ∀ x ∈ parts, Usable S x)
    (hne : parts ≠ []) {ps : List Pattern} {whole : Pattern} (hjoins : Pattern.Joins axis ps whole)
    (hshape : parts.map Expr.shape = ps.map Pattern.shape)
    (hrows : ¬ (ps.map Pattern.nrows).sum < Size.wordLimit → refused .misuse) :
    Grows refused n S (joinAlong axis parts) fun S' r =>
      Usable S' r ∧ Pattern.Joins axis (parts.map Expr.pattern) r.pattern ∧
        ∀ env : Nat → Nat → α, nonzeros env r = (parts.map (nonzeros env)).flatten := by
  have hsizes : (parts.map Expr.pattern).map Pattern.nrows = ps.map Pattern.nrows := by
    simpa [Function.comp_def, shape, Pattern.shape] using congrArg (List.map Prod.fst) hshape
  have hmem (x : Expr α) (hx : x ∈ parts) : ∃ p ∈ ps, p.shape = x.shape := by
    have : x.shape ∈ ps.map Pattern.shape := hshape ▸ List.mem_map_of_mem hx
    simpa using this
  have hcheck (e : GraphError) (he : Pattern.checkRows (parts.map Expr.pattern) = .error e) :
      refused e := by
    unfold Pattern.checkRows Size.checkWord at he
    rw [hsizes] at he
    split at he
    · cases he
    · rename_i hlarge
      cases he
      exact hrows hlarge
  unfold joinAlong
  cases axis with
  | horizontal =>
    have hrows' (p : Pattern) (hp : p ∈ parts.map Expr.pattern) : p.nrows = whole.nrows := by
      obtain ⟨x, hx, rfl⟩ := List.mem_map.1 hp
      obtain ⟨q, hq, hqs⟩ := hmem x hx
      exact (congrArg Prod.fst hqs).symm.trans (hjoins.1 q hq)
    exact grows_horzcat hS hparts hne fun e he => absurd he (Pattern.horzcat_ne_error hrows' e)
  | vertical =>
    have hcols (x : Expr α) (hx : x ∈ parts) : x.pattern.ncols = 1 := by
      obtain ⟨p, hp, hps⟩ := hmem x hx
      exact (congrArg Prod.snd hps).symm.trans (hjoins.1 p hp)
    exact grows_vertcat hS hparts hne hcols fun e he =>
      hcheck e (Pattern.checkRows_of_vertcat (by simpa using hcols) he)
  | diagonal =>
    refine grows_diagcat hS hparts hne fun e he => hcheck e ?_
    unfold Pattern.diagcatChecked at he
    cases hc : Pattern.checkRows (parts.map Expr.pattern) with
    | error e' => simpa [hc, bind, Except.bind] using he
    | ok => simp [hc, bind, Except.bind, pure, Except.pure] at he

theorem grows_splitAlong (hS : IsGraph n S) (hx : Usable S x) {parts : List Pattern}
    (hjoins : Pattern.Joins axis parts x.pattern) :
    Grows refused n S (splitAlong axis x (Offsets.ofSizes (parts.map Pattern.nrows))
        (Offsets.ofSizes (parts.map Pattern.ncols))) fun S' rs =>
      (∀ r ∈ rs, Usable S' r) ∧ rs.map Expr.pattern = parts ∧
        ∀ env : Nat → Nat → α,
          rs.map (nonzeros env) = chunks (parts.map Pattern.nnz) (nonzeros env x) := by
  have lift {result : Except GraphError (List Pattern)} (h : result = .ok parts) :
      Grows refused n S (liftM result) fun _ ps => ps = parts :=
    .lift hS (fun ps hps => Except.ok.inj (hps.symm.trans h)) fun e he => by simp [h] at he
  unfold splitAlong
  cases axis with
  | horizontal =>
    unfold horzsplit
    refine .bind (lift hjoins.horzsplit_eq) ?_
    rintro n' S' ps hext rfl
    exact grows_splitInto hext.graph (hx.mono hext.subset) hjoins
  | vertical =>
    unfold vertsplit
    rw [if_pos (by simp [Pattern.isSingleColumn, hjoins.ncols_vertical])]
    refine .bind (lift hjoins.vertsplit_eq) ?_
    rintro n' S' ps hext rfl
    exact grows_splitInto hext.graph (hx.mono hext.subset) hjoins
  | diagonal =>
    unfold diagsplit
    refine .bind (lift hjoins.diagsplit_eq) ?_
    rintro n' S' ps hext rfl
    dsimp only
    rw [if_neg (by simp [nnz, hjoins.nnz_eq])]
    exact grows_splitInto hext.graph (hx.mono hext.subset) hjoins

end DiffGraph
