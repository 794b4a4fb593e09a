import Mathlib
import DiffGraph.Proofs.Graph.Blocks
import DiffGraph.Proofs.Pattern.Transpose

/-!
# Vertical operations on expressions and on patterns

Columns are split and joined directly, the rows of other matrices by way of
transposes. Transposing may give back an operand, and the parts of one split may be
fused again. Whichever way it goes, the step succeeds exactly if the vertical
operation on the patterns does, and its results have the resulting patterns
(`vertical_operations_run_like_patterns`). Values play no part here, so the
expressions may be any well-formed nodes, and only how a step ends is followed
(`EndsIn`).
-/

namespace DiffGraph

open DiffGraph.Expr

/-! ## How a step ends -/

/-- The step gives a result with the property, or is refused with one of the errors. -/
def EndsIn {β : Type} (refused : GraphError → Prop) (n : Nat) (step : Build β) (Q : β → Prop) :
    Prop :=
  match step n with
  | .ok (r, _) => Q r
  | .error e => refused e

namespace EndsIn

variable {β γ : Type} {refused : GraphError → Prop} {n : Nat} {step : Build β} {P Q : β → Prop}

theorem pure {r : β} (h : Q r) : EndsIn refused n (pure r) Q :=
  h

theorem bind {f : β → Build γ} {R : γ → Prop} (h : EndsIn refused n step Q)
    (hf : ∀ r, Q r → ∀ n', EndsIn refused n' (f r) R) : EndsIn refused n (step >>= f) R := by
  have hbind : (step >>= f) n = (step n >>= fun out => f out.1 out.2) := rfl
  unfold EndsIn at h ⊢
  rw [hbind]
  cases hstep : step n with
  | error e =>
    simp only [hstep] at h
    exact h
  | ok out =>
    simp only [hstep] at h
    exact hf out.1 h out.2

theorem mono (h : EndsIn refused n step P) (hPQ : ∀ r, P r → Q r) : EndsIn refused n step Q := by
  unfold EndsIn at h ⊢
  split <;> rename_i hstep <;> simp only [hstep] at h
  · exact hPQ _ h
  · exact h

theorem weaken {refused' : GraphError → Prop} (h : EndsIn refused n step Q)
    (himp : ∀ e, refused e → refused' e) : EndsIn refused' n step Q := by
  unfold EndsIn at h ⊢
  split <;> rename_i hstep <;> simp only [hstep] at h
  · exact h
  · exact himp _ h

theorem lift {result : Except GraphError β} (hok : ∀ r, result = .ok r → Q r)
    (herr : ∀ e, result = .error e → refused e) : EndsIn refused n (liftM result) Q := by
  cases result with
  | ok r => exact hok r rfl
  | error e => exact herr e rfl

theorem mapM {f : γ → Build β} {P : γ → β → Prop} {xs : List γ}
    (hf : ∀ x ∈ xs, ∀ n', EndsIn refused n' (f x) (P x)) :
    EndsIn refused n (xs.mapM f) (List.Forall₂ P xs) := by
  induction xs generalizing n with
  | nil => exact pure .nil
  | cons x xs ih =>
    rw [List.mapM_cons]
    refine bind (hf x List.mem_cons_self n) fun r hr n₁ => ?_
    refine bind (ih fun y hy => hf y (List.mem_cons_of_mem x hy)) fun rs hrs n₂ => ?_
    exact pure (.cons hr hrs)

end EndsIn

variable {α : Type} {refused : GraphError → Prop} {n : Nat} {S : Set (Expr α)}
  {x : Expr α} {parts : List (Expr α)} {axis : Axis}

/-! ## What transposing gives back -/

/-- Where transposing gives back an operand, it has the transposed pattern. -/
def TurnsBack (x : Expr α) : Prop :=
  ∀ y, x.transposed? = some y → y.pattern = x.pattern.transpose

theorem exists_of_transposed? {y : Expr α} (h : x.transposed? = some y) :
    (∃ mapping, x.op = .transpose mapping) ∧ x.deps = [y] := by
  unfold transposed? at h
  split at h
  · rename_i mapping z hop hdeps
    obtain rfl := Option.some.inj h
    exact ⟨⟨mapping, hop⟩, hdeps⟩
  · cases h

theorem IsDag.turnsBack (hS : IsDag S) (hx : x ∈ S) : TurnsBack x := by
  intro y hy
  obtain ⟨⟨mapping, hop⟩, hdeps⟩ := exists_of_transposed? hy
  cases hS.wellFormed x hx with
  | transpose id numbers pattern =>
    obtain rfl := List.singleton_inj.1 hdeps
    rw [← pattern]
    exact (Pattern.transpose_transpose _).symm
  | _ => simp [Expr.op] at hop

/-! ## New nodes -/

theorem endsIn_fresh (op : Op α) (deps : List (Expr α)) (p : Pattern) :
    EndsIn refused n (liftM (fresh op deps p)) fun r => ∃ id, r = node id op deps p [] :=
  ⟨n, rfl⟩

theorem turnsBack_of_op (h : ∀ mapping, x.op ≠ .transpose mapping) : TurnsBack x := fun y hy => by
  obtain ⟨⟨mapping, hmapping⟩, -⟩ := exists_of_transposed? hy
  exact absurd hmapping (h mapping)

theorem endsIn_new {op : Op α} (h : ∀ mapping, op ≠ .transpose mapping) (deps : List (Expr α))
    (p : Pattern) :
    EndsIn refused n (liftM (fresh op deps p)) fun r => r.pattern = p ∧ TurnsBack r := by
  refine (endsIn_fresh op deps p).mono ?_
  rintro r ⟨id, rfl⟩
  exact ⟨rfl, turnsBack_of_op h⟩

theorem endsIn_results {q : Expr α} (h : q.resultCount ≠ 1) :
    EndsIn refused n (liftM q.results) fun rs =>
      rs.map Expr.pattern = q.patterns ∧ ∀ r ∈ rs, TurnsBack r := by
  rw [results_eq h, liftM_mapM]
  refine (EndsIn.mapM (P := fun (pi : Pattern × Nat) r => r.pattern = pi.1 ∧ TurnsBack r)
    fun pi _ n' => endsIn_new (by simp) _ _).mono fun rs hrs => ⟨?_, fun r hr => ?_⟩
  · rw [← List.zipIdx_map_fst 0 q.patterns]
    exact (map_eq_of_forall₂ hrs fun pi r h => h.1.symm).symm
  · obtain ⟨i, hi⟩ := List.mem_iff_getElem?.1 hr
    obtain ⟨pi, -, h⟩ := exists_of_forall₂ hrs hi
    exact h.2

/-! ## Fused parts -/

theorem isOutput_of_whole? (h : whole? axis parts = some x) : ∀ part ∈ parts, part.isOutput = true := by
  intro part hpart
  obtain ⟨i, hi⟩ := List.mem_iff_getElem?.1 hpart
  unfold whole? at h
  simp only [Option.bind_eq_bind, Option.bind_eq_some_iff] at h
  obtain ⟨⟨q, i₀⟩, -, h⟩ := h
  split at h
  · rename_i hcomplete
    simp only [Bool.and_eq_true, beq_iff_eq, List.all_eq_true] at hcomplete
    have hsome := hcomplete.2 (part, i) (List.mem_zipIdx_iff_getElem?.2 hi)
    obtain ⟨⟨q', j⟩, hpart', -⟩ := (Option.any_eq_true _ _).1 hsome
    simp [isOutput, (eq_of_part? hpart').1]
  · cases h

/-! ## Joins and splits of columns -/

theorem endsIn_joinNode {p : Pattern} (hnil : parts = [] → p = .empty 0 0)
    (hsingle : ∀ x, parts = [x] → x.pattern = p) (hback : ∀ part ∈ parts, TurnsBack part) :
    EndsIn refused n (liftM (joinNode axis parts p)) fun r => r.pattern = p ∧ TurnsBack r := by
  unfold joinNode
  split
  · obtain rfl := hnil rfl
    exact endsIn_new (by simp) [] _
  · rename_i x
    exact .pure (n := n) ⟨hsingle x rfl, hback x (List.mem_singleton_self x)⟩
  · split
    · exact endsIn_new (by simp) [] p
    · exact endsIn_new (by simp) _ p

theorem endsIn_horzcat (hS : IsDag S) (hparts : ∀ part ∈ parts, part.isOutput = true → part ∈ S)
    (hback : ∀ part ∈ parts, TurnsBack part) :
    EndsIn (fun e => Pattern.horzcat (parts.map Expr.pattern) = .error e) n (horzcat parts) fun r =>
      Pattern.Joins .horizontal (parts.map Expr.pattern) r.pattern ∧ TurnsBack r := by
  unfold horzcat
  split
  · rename_i x hx
    have hmem : ∀ part ∈ parts, part ∈ S := fun part hpart =>
      hparts part hpart (isOutput_of_whole? hx part hpart)
    obtain ⟨q, p, ps, id, rfl, hq, hjoins, hpatterns, -⟩ := whole?_producer hS hmem hx
    exact .pure ⟨hpatterns ▸ hjoins, hS.turnsBack (hS.closed _ hq x (List.mem_singleton_self x))⟩
  · refine .bind (Q := fun p => Pattern.horzcat (parts.map Expr.pattern) = .ok p)
      (.lift (fun p hp => hp) fun e he => he) fun p hp n' => ?_
    have hjoins := Pattern.joins_of_horzcat hp
    refine (endsIn_joinNode ?_ ?_ hback).mono fun r hr => ⟨hr.1 ▸ hjoins, hr.2⟩
    · rintro rfl
      exact (Except.ok.inj hp).symm
    · rintro x rfl
      exact hjoins.eq_of_singleton.symm

theorem endsIn_splitInto {ps : List Pattern} (hsingle : ∀ p, ps = [p] → x.pattern = p)
    (hback : TurnsBack x) : EndsIn refused n (liftM (splitInto axis x ps)) fun rs =>
      rs.map Expr.pattern = ps ∧ ∀ r ∈ rs, TurnsBack r := by
  unfold splitInto
  split
  · exact .pure (n := n) ⟨rfl, by simp⟩
  · rename_i p
    exact .pure (n := n) ⟨by simp [hsingle p rfl], by simpa using hback⟩
  · rename_i p ps hne
    show EndsIn refused n (liftM Fresh.identity >>= fun id => liftM (results
      (node id (.split axis (Offsets.ofSizes ((p :: ps).map Pattern.nnz))) [x] p ps))) _
    refine .bind (Q := fun _ => True) trivial fun id _ n' => endsIn_results ?_
    have hps : ps ≠ [] := hne
    simpa [resultCount, patterns] using hps

theorem endsIn_horzsplit (hx : TurnsBack x) (offsets : List Nat) :
    EndsIn (fun e => x.pattern.horzsplit offsets = .error e) n (x.horzsplit offsets) fun rs =>
      x.pattern.horzsplit offsets = .ok (rs.map Expr.pattern) ∧ ∀ r ∈ rs, TurnsBack r := by
  unfold horzsplit
  refine .bind (Q := fun ps => x.pattern.horzsplit offsets = .ok ps)
    (.lift (fun ps hps => hps) fun e he => he) fun ps hps n' => ?_
  refine (endsIn_splitInto (fun p hp => ?_) hx).mono fun rs hrs => ⟨hrs.1 ▸ hps, hrs.2⟩
  subst hp
  exact (Pattern.joins_of_horzsplit hps).1.eq_of_singleton

variable [Scalar α]

/-! ## Rows by way of transposes -/

theorem endsIn_transpose (hx : TurnsBack x) :
    EndsIn (OutOf (x.shape.1 < Size.listLimit)) n x.transpose fun t =>
      t.pattern = x.pattern.transpose ∧ (t ∈ x.deps ∨ t.isOutput = false ∧ TurnsBack t) := by
  unfold Expr.transpose
  split
  · rename_i y hy
    exact .pure ⟨hx y hy, .inl (by simp [(exists_of_transposed? hy).2])⟩
  · refine .bind (Q := (· = x.pattern.transpose)) (.lift ?_ ?_) ?_
    · intro p hp
      rw [Pattern.transposeChecked_eq] at hp
      split at hp
      · exact (Except.ok.inj hp).symm
      · cases hp
    · intro e he
      rw [Pattern.transposeChecked_eq] at he
      split at he
      · cases he
      · rename_i hlarge
        exact ⟨(Except.error.inj he).symm, hlarge⟩
    · rintro p rfl n'
      split
      · exact ⟨rfl, .inr ⟨rfl, fun y hy => by cases hy⟩⟩
      · refine ⟨rfl, .inr ⟨rfl, fun y hy => ?_⟩⟩
        obtain rfl := Option.some.inj hy
        exact (Pattern.transpose_transpose _).symm

theorem endsIn_transposes {xs : List (Expr α)} (h : ∀ x ∈ xs, TurnsBack x) :
    EndsIn (OutOf (∀ x ∈ xs, x.shape.1 < Size.listLimit)) n (xs.mapM transpose) fun ts =>
      ts.map Expr.pattern = (xs.map Expr.pattern).map Pattern.transpose ∧
        ∀ t ∈ ts, (∃ x ∈ xs, t ∈ x.deps) ∨ t.isOutput = false ∧ TurnsBack t := by
  refine (EndsIn.mapM fun x hx n' => (endsIn_transpose (h x hx)).weaken fun e he =>
    ⟨he.1, fun hall => he.2 (hall x hx)⟩).mono fun ts hts => ⟨?_, fun t ht => ?_⟩
  · rw [List.map_map]
    exact (map_eq_of_forall₂ hts fun x t h => h.1.symm).symm
  · obtain ⟨i, hi⟩ := List.mem_iff_getElem?.1 ht
    obtain ⟨x, hx, -, ht⟩ := exists_of_forall₂ hts hi
    exact ht.imp_left fun hdep => ⟨x, List.mem_of_getElem? hx, hdep⟩

namespace Pattern

variable {ps : List Pattern} {whole : Pattern}

theorem vertcat_of_joins (hne : ps ≠ []) (h : Joins .vertical ps whole) : vertcat ps =
    if (ps.map nrows).sum < Size.wordLimit then .ok whole else .error .misuse := by
  rw [vertcat_eq hne h.1, ← h.2]

theorem vertcat_of_joins_transpose (hne : ps ≠ [])
    (h : Joins .horizontal (ps.map transpose) whole) : vertcat ps =
      if (ps.map nrows).sum < Size.wordLimit then .ok whole.transpose else .error .misuse := by
  have hcols : ∀ p ∈ ps, p.ncols = whole.nrows := fun p hp => h.1 _ (List.mem_map_of_mem hp)
  have hstack : ps.foldr above (empty 0 whole.nrows) = whole.transpose := by
    have hsides := (joins_transpose hcols).unique h (by simpa using hne)
    exact transpose_injective (hsides.trans (transpose_transpose whole).symm)
  rw [vertcat_eq hne hcols, hstack]

theorem ncols_of_vertcat (h : vertcat ps = .ok whole) : ∃ k, ∀ p ∈ ps, p.ncols = k := by
  cases ps with
  | nil => exact ⟨0, by simp⟩
  | cons first rest =>
    refine ⟨first.ncols, ?_⟩
    rw [vertcat] at h
    split at h
    · cases h
    · rename_i hnone
      refine List.forall_mem_cons.2 ⟨rfl, fun p hp => ?_⟩
      simpa using List.find?_eq_none.1 hnone p hp

end Pattern

/-! ## Vertical operations -/

/-- The step succeeds exactly if the operation on patterns does, and its result has the resulting
pattern, except that a step may run out of memory, and that patterns may be refused because machine
words do not count their rows. -/
def RunsLike {β γ : Type} (n : Nat) (step : Build β) (patterns : Except GraphError γ)
    (patternOf : β → γ) (memory words : Prop) : Prop :=
  match step n with
  | .ok (r, _) => patterns = .ok (patternOf r) ∨ patterns = .error .misuse ∧ ¬ words
  | .error e => (∃ flaw, patterns = .error flaw) ∨ OutOf memory e

omit [Scalar α] in
theorem RunsLike.of_endsIn {β γ : Type} {step : Build β} {patterns : Except GraphError γ}
    {patternOf : β → γ} {memory words : Prop}
    (h : EndsIn (fun e => (∃ flaw, patterns = .error flaw) ∨ OutOf memory e) n step fun r =>
      patterns = .ok (patternOf r) ∨ patterns = .error .misuse ∧ ¬ words) :
    RunsLike n step patterns patternOf memory words :=
  h

omit [Scalar α] in
theorem RunsLike.of_memory {β γ : Type} {step : Build β} {patterns : Except GraphError γ}
    {patternOf : β → γ} {memory memory' words : Prop}
    (h : RunsLike n step patterns patternOf memory words) (himp : memory' → memory) :
    RunsLike n step patterns patternOf memory' words :=
  .of_endsIn (EndsIn.weaken h fun _ => Or.imp_right fun he => ⟨he.1, fun hmemory =>
    he.2 (himp hmemory)⟩)

omit [Scalar α] in
theorem accepts_or_overflows {patterns : Except GraphError Pattern} {p : Pattern} {words : Prop}
    [Decidable words] (h : patterns = if words then .ok p else .error .misuse) :
    patterns = .ok p ∨ patterns = .error .misuse ∧ ¬ words := by
  split at h
  · exact .inl h
  · rename_i hwords
    exact .inr ⟨h, hwords⟩

omit [Scalar α] in
theorem runsLike_vertsplit_column (hback : TurnsBack x) (hcol : x.shape.2 = 1)
    (offsets : List Nat) {memory words : Prop} :
    RunsLike n (do splitInto .vertical x (← x.pattern.vertsplit offsets))
      (x.pattern.vertsplit offsets) (List.map Expr.pattern) memory words := by
  refine .of_endsIn (.bind (Q := fun ps => x.pattern.vertsplit offsets = .ok ps)
    (.lift (fun ps hps => hps) fun e he => .inl ⟨e, he⟩) fun ps hps n' => ?_)
  refine (endsIn_splitInto (fun p hp => ?_) hback).mono fun rs hrs => .inl (hrs.1 ▸ hps)
  subst hp
  exact (Pattern.joins_of_vertsplit hcol hps).1.eq_of_singleton

/-- The rows of any expression are cut through its transpose. -/
theorem runsLike_vertsplit_transposes (hS : IsDag S) (hx : x ∈ S) (offsets : List Nat) :
    RunsLike n (do
      let parts ← (← x.transpose).horzsplit offsets
      parts.mapM transpose)
      (x.pattern.vertsplit offsets) (List.map Expr.pattern)
      (x.shape.1 < Size.listLimit ∧ x.shape.2 < Size.listLimit) True := by
  refine .of_endsIn (.bind ((endsIn_transpose (hS.turnsBack hx)).weaken fun e he =>
    .inr ⟨he.1, fun hmemory => he.2 hmemory.1⟩) ?_)
  rintro t ⟨hpattern, ht⟩ n₁
  have hback : TurnsBack t := ht.elim (fun hdep => hS.turnsBack (hS.closed x hx t hdep)) (·.2)
  refine .bind ((endsIn_horzsplit hback offsets).weaken fun e he => .inl ?_) ?_
  · cases hps : x.pattern.vertsplit offsets with
    | error flaw => exact ⟨flaw, rfl⟩
    | ok ps =>
      rw [hpattern, Pattern.vertsplit_iff_transpose.1 hps] at he
      cases he
  · rintro qs ⟨hqs, hbacks⟩ n₂
    have hheight (q : Expr α) (hq : q ∈ qs) : q.shape.1 = x.shape.2 :=
      ((Pattern.joins_of_horzsplit hqs).1.1 q.pattern (List.mem_map_of_mem hq)).trans
        (congrArg Pattern.nrows hpattern)
    refine ((endsIn_transposes hbacks).weaken fun e he => .inr ⟨he.1, fun hmemory =>
      he.2 fun q hq => hheight q hq ▸ hmemory.2⟩).mono fun rs hrs => .inl ?_
    have hpatterns : (rs.map Expr.pattern).map Pattern.transpose = qs.map Expr.pattern := by
      rw [hrs.1, List.map_map, Pattern.transpose_involutive.comp_self, List.map_id]
    rw [Pattern.vertsplit_iff_transpose, ← hpattern, hqs, hpatterns]

theorem runsLike_vertsplit (hS : IsDag S) (hx : x ∈ S) (offsets : List Nat) :
    RunsLike n (x.vertsplit offsets) (x.pattern.vertsplit offsets) (List.map Expr.pattern)
      (x.shape.2 ≠ 1 → x.shape.1 < Size.listLimit ∧ x.shape.2 < Size.listLimit) True := by
  unfold vertsplit
  split
  · rename_i hcol
    exact runsLike_vertsplit_column (hS.turnsBack hx) (isSingleColumn_iff.1 hcol) offsets
  · rename_i hcol
    have hcol : x.shape.2 ≠ 1 := fun h => hcol (isSingleColumn_iff.2 h)
    exact (runsLike_vertsplit_transposes hS hx offsets).of_memory fun h => h hcol

omit [Scalar α] in
theorem runsLike_vertcat_columns (hS : IsDag S) (hparts : ∀ part ∈ parts, part ∈ S)
    (hcols : ∀ part ∈ parts, part.shape.2 = 1) {memory words : Prop} :
    RunsLike n (do
      let pattern ← Pattern.vertcat (parts.map Expr.pattern)
      joinNode .vertical parts pattern)
      (Pattern.vertcat (parts.map Expr.pattern)) Expr.pattern memory words := by
  refine .of_endsIn (.bind (Q := fun p => Pattern.vertcat (parts.map Expr.pattern) = .ok p)
    (.lift (fun p hp => hp) fun e he => .inl ⟨e, he⟩) fun p hp n' => ?_)
  refine (endsIn_joinNode ?_ ?_ fun part hpart => hS.turnsBack (hparts part hpart)).mono
    fun r hr => .inl (hr.1 ▸ hp)
  · rintro rfl
    exact (Except.ok.inj hp).symm
  · rintro x rfl
    exact (Pattern.joins_of_vertcat (by simp) (List.forall_mem_map.2 hcols) hp).eq_of_singleton.symm

/-- A part with several columns sends all parts through their transposes. -/
theorem runsLike_vertcat_transposes (hS : IsDag S) (hparts : ∀ part ∈ parts, part ∈ S)
    (hcols : ∃ part ∈ parts, part.shape.2 ≠ 1) :
    RunsLike n (do
      let rows ← parts.mapM transpose
      (← horzcat rows).transpose)
      (Pattern.vertcat (parts.map Expr.pattern)) Expr.pattern
      (JoinFits .vertical (parts.map shape))
      (((parts.map Expr.pattern).map Pattern.nrows).sum < Size.wordLimit) := by
  obtain ⟨first, hfirst, hcol⟩ := hcols
  have hlimits (hmemory : JoinFits .vertical (parts.map shape)) : ∀ part ∈ parts,
      part.shape.1 < Size.listLimit ∧ part.shape.2 < Size.listLimit :=
    List.forall_mem_map.1 (hmemory.2 ⟨first.shape, List.mem_map_of_mem hfirst, hcol⟩)
  have hne : parts.map Expr.pattern ≠ [] := List.ne_nil_of_mem (List.mem_map_of_mem hfirst)
  refine .of_endsIn (.bind ((endsIn_transposes fun part hpart => hS.turnsBack (hparts part hpart)).weaken
    fun e he => .inr ⟨he.1, fun hmemory => he.2 fun part hpart =>
      (hlimits hmemory part hpart).1⟩) fun rows hrows n₁ => ?_)
  obtain ⟨hpatterns, hrows⟩ := hrows
  have hrow (t : Expr α) (ht : t ∈ rows) : t ∈ S ∨ t.isOutput = false ∧ TurnsBack t :=
    (hrows t ht).imp_left fun ⟨part, hpart, hdep⟩ => hS.closed part (hparts part hpart) t hdep
  refine .bind ((endsIn_horzcat hS (fun t ht hout => ?_) fun t ht => ?_).weaken
    fun e he => .inl ?_) fun r hr n₂ => ?_
  · exact (hrow t ht).resolve_right fun h => by simp [h.1] at hout
  · exact (hrow t ht).elim hS.turnsBack (·.2)
  · cases hwhole : Pattern.vertcat (parts.map Expr.pattern) with
    | error flaw => exact ⟨flaw, rfl⟩
    | ok whole =>
      obtain ⟨k, hk⟩ := Pattern.ncols_of_vertcat hwhole
      refine absurd he (Pattern.horzcat_ne_error (m := k) ?_ e)
      rw [hpatterns]
      exact List.forall_mem_map.2 hk
  · obtain ⟨hjoins, hback⟩ := hr
    rw [hpatterns] at hjoins
    have hwidth : first.shape.2 = r.shape.1 :=
      hjoins.1 _ (List.mem_map_of_mem (List.mem_map_of_mem hfirst))
    refine ((endsIn_transpose hback).weaken fun e he => .inr ⟨he.1, fun hmemory =>
      he.2 (hwidth ▸ (hlimits hmemory first hfirst).2)⟩).mono fun t ht => ?_
    rw [ht.1]
    exact accepts_or_overflows (Pattern.vertcat_of_joins_transpose hne hjoins)

theorem runsLike_vertcat (hS : IsDag S) (hparts : ∀ part ∈ parts, part ∈ S) :
    RunsLike n (vertcat parts) (Pattern.vertcat (parts.map Expr.pattern)) Expr.pattern
      (JoinFits .vertical (parts.map shape))
      (((parts.map Expr.pattern).map Pattern.nrows).sum < Size.wordLimit) := by
  unfold vertcat
  split
  · -- the parts of one split are fused
    rename_i x hx
    obtain ⟨q, p, ps, id, -, -, hjoins, hpatterns, -⟩ := whole?_producer hS hparts hx
    rw [hpatterns]
    exact .of_endsIn (.pure (accepts_or_overflows
      (Pattern.vertcat_of_joins (List.cons_ne_nil p ps) hjoins)))
  · split
    · rename_i hcols
      refine runsLike_vertcat_columns hS hparts fun part hpart => ?_
      exact isSingleColumn_iff.1 (List.all_eq_true.1 hcols part hpart)
    · rename_i hcols
      exact runsLike_vertcat_transposes hS hparts (by simpa [isSingleColumn_iff] using hcols)

/-- The vertical operations on the expressions of a set end like those on their patterns, for every
list of expressions and every table of offsets. -/
structure RunsLikePatterns (n : Nat) (S : Set (Expr α)) : Prop where
  vertcat {parts : List (Expr α)} (h : ∀ part ∈ parts, part ∈ S) :
    RunsLike n (vertcat parts) (Pattern.vertcat (parts.map Expr.pattern)) Expr.pattern
      (JoinFits .vertical (parts.map shape))
      (((parts.map Expr.pattern).map Pattern.nrows).sum < Size.wordLimit)
  vertsplit {x : Expr α} (h : x ∈ S) (offsets : List Nat) :
    RunsLike n (x.vertsplit offsets) (x.pattern.vertsplit offsets) (List.map Expr.pattern)
      (x.shape.2 ≠ 1 → x.shape.1 < Size.listLimit ∧ x.shape.2 < Size.listLimit) True

/-- Whichever way the rows of well-formed expressions are joined and split, it succeeds exactly if
it does on their patterns, and gives the same patterns. -/
theorem vertical_operations_run_like_patterns (hS : IsDag S) : RunsLikePatterns n S where
  vertcat := runsLike_vertcat hS
  vertsplit := runsLike_vertsplit hS

/-- The rows of a transpose, cut by way of the matrix that was transposed. -/
theorem vertical_operations_run_like_patterns_transpose :
    let x : Expr Rat := .node 0 (.symbol "x") [] (.dense 3 4) []
    let t : Expr Rat := .node 1 (.transpose (Pattern.dense 3 4).transposition) [x]
      (Pattern.dense 3 4).transpose []
    RunsLikePatterns 2 (nodesOf [t, x]) ∧
      ∃ parts n, t.vertsplit [0, 1, 4] 2 = .ok (parts, n) ∧
        parts.map Expr.pattern = [.dense 1 3, .dense 3 3] := by
  intro x t
  have hx : Built 1 [x] := .symbol "x" _ .start
  have hG : Built 2 [t, x] := .make (.transpose x) hx (by simp [Construction.operands]) rfl
  have hruns := vertical_operations_run_like_patterns (n := 2) hG.isGraph.1.isDag
  refine ⟨hruns, ?_⟩
  have hcut := hruns.vertsplit (mem_nodesOf (List.mem_cons_self (a := t))) [0, 1, 4]
  have hpatterns : t.pattern.vertsplit [0, 1, 4] = .ok [.dense 1 3, .dense 3 3] := rfl
  unfold RunsLike at hcut
  rw [hpatterns] at hcut
  split at hcut
  · rename_i parts n hstep
    obtain hparts | ⟨hrefused, -⟩ := hcut
    · exact ⟨parts, n, hstep, (Except.ok.inj hparts).symm⟩
    · cases hrefused
  · obtain ⟨flaw, hrefused⟩ | ⟨-, hmemory⟩ := hcut
    · cases hrefused
    · exact absurd (fun _ => by decide) hmemory

end DiffGraph
