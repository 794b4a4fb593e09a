import Mathlib
import DiffGraph.Function.Evaluate
import DiffGraph.Proofs.Failure
import DiffGraph.Proofs.Function.Layout
import DiffGraph.Proofs.Graph.Value

/-!
# Running a compiled function

After every instruction the slots of the results computed so far hold their
values (`Layout.Holds`): an instruction reads slots that hold the values of its
operands and writes those of its own results only. So a run on arguments of the
right lengths never fails and returns the values of the outputs (`run_eq`), every
output evaluated like a tree.
-/

namespace DiffGraph

open Element Expr

/-! ## Writing slots -/

section Writes

variable {β : Type} {work : Array β} {pairs : List (Nat × β)} {t : Nat} {x : β}

@[simp] theorem size_foldl_set (pairs : List (Nat × β)) (work : Array β) :
    (pairs.foldl (fun work (s, x) => work.setIfInBounds s x) work).size = work.size := by
  induction pairs generalizing work with
  | nil => rfl
  | cons p pairs ih => rw [List.foldl_cons, ih, Array.size_setIfInBounds]

theorem getElem?_foldl_set_of_not_mem (h : ∀ x, (t, x) ∉ pairs) :
    (pairs.foldl (fun work (s, x) => work.setIfInBounds s x) work)[t]? = work[t]? := by
  induction pairs generalizing work with
  | nil => rfl
  | cons p pairs ih =>
    have hp : p.1 ≠ t := fun heq => h p.2 (by simp [← heq])
    rw [List.foldl_cons, ih fun x hx => h x (List.mem_cons_of_mem _ hx),
      Array.getElem?_setIfInBounds_ne hp]

theorem getElem?_foldl_set_of_mem (hmem : (t, x) ∈ pairs) (h : ∀ y, (t, y) ∈ pairs → y = x)
    (ht : t < work.size) :
    (pairs.foldl (fun work (s, x) => work.setIfInBounds s x) work)[t]? = some x := by
  induction pairs generalizing work with
  | nil => cases hmem
  | cons p pairs ih =>
    rw [List.foldl_cons]
    by_cases hrest : (t, x) ∈ pairs
    · exact ih hrest (fun y hy => h y (List.mem_cons_of_mem _ hy)) (by simpa using ht)
    · obtain rfl : (t, x) = p := (List.mem_cons.1 hmem).resolve_right hrest
      rw [getElem?_foldl_set_of_not_mem, Array.getElem?_setIfInBounds_self_of_lt ht]
      exact fun y hy => hrest (h y (List.mem_cons_of_mem _ hy) ▸ hy)

theorem getElem?_foldl_set_range {xs : List β} (h : xs.length ≤ work.size) (t : Nat) :
    (((List.range xs.length).zip xs).foldl (fun work (s, x) => work.setIfInBounds s x) work)[t]? =
      xs[t]?.or work[t]? := by
  have hat (x : β) : (t, x) ∈ (List.range xs.length).zip xs ↔ xs[t]? = some x := by
    rw [List.mem_iff_getElem?]
    simp only [List.getElem?_zip_eq_some]
    constructor
    · rintro ⟨i, hi, hx⟩
      rw [List.getElem?_range (List.getElem?_eq_some_iff.1 hx).1] at hi
      exact Option.some.inj hi ▸ hx
    · exact fun hx => ⟨t, List.getElem?_range (List.getElem?_eq_some_iff.1 hx).1, hx⟩
  cases hx : xs[t]? with
  | none =>
    rw [getElem?_foldl_set_of_not_mem fun x hmem => by simp [(hat x).1 hmem] at hx, Option.none_or]
  | some x =>
    refine getElem?_foldl_set_of_mem ((hat x).2 hx) (fun y hy => ?_) ?_
    · exact Option.some.inj (((hat y).1 hy).symm.trans hx)
    · exact Nat.lt_of_lt_of_le (List.getElem?_eq_some_iff.1 hx).1 h

theorem foldl_results_eq {γ : Type} (g : γ → β) (rs : List (Option Nat)) (xs : List γ)
    (work : Array β) :
    (rs.zip xs).foldl (fun work (r, x) => r.elim work fun s => work.setIfInBounds s (g x)) work =
      ((rs.zip xs).filterMap fun (r, x) => r.map fun s => (s, g x)).foldl
        (fun work (s, x) => work.setIfInBounds s x) work := by
  rw [List.foldl_filterMap]
  congr 1
  funext work ⟨r, x⟩
  cases r <;> rfl

theorem mem_results_iff {γ : Type} {g : γ → β} {rs : List (Option Nat)} {xs : List γ} :
    (t, x) ∈ ((rs.zip xs).filterMap fun (r, x) => r.map fun s => (s, g x)) ↔
      ∃ (i : Nat) (y : γ), rs[i]? = some (some t) ∧ xs[i]? = some y ∧ x = g y := by
  rw [List.mem_filterMap]
  constructor
  · rintro ⟨⟨r, y⟩, hmem, heq⟩
    obtain ⟨i, hi⟩ := List.mem_iff_getElem?.1 hmem
    obtain ⟨hr, hy⟩ := List.getElem?_zip_eq_some.1 hi
    obtain ⟨t', rfl, hpair⟩ := Option.map_eq_some_iff.1 heq
    obtain ⟨rfl, rfl⟩ := Prod.mk.inj hpair
    exact ⟨i, y, hr, hy, rfl⟩
  · rintro ⟨i, y, hr, hy, rfl⟩
    exact ⟨(some t, y), List.mem_iff_getElem?.2 ⟨i, List.getElem?_zip_eq_some.2 ⟨hr, hy⟩⟩, rfl⟩

end Writes

namespace Function

variable {α T : Type}

theorem store_eq_foldl (work : Array (List T)) (slots : List (Option Nat))
    (results : List (Option (List T))) :
    store work slots results =
      ((slots.zip results).filterMap fun (s, r) => s.bind fun s => r.map fun r => (s, r)).foldl
        (fun work (s, x) => work.setIfInBounds s x) work := by
  rw [List.foldl_filterMap]
  unfold store
  congr 1
  funext work ⟨s, r⟩
  cases s <;> cases r <;> rfl

theorem getElem?_storeArgs {work : Array (List T)} {args : List (List T)}
    (h : args.length ≤ work.size) {t : Nat} {a : List T} (ha : args[t]? = some a) :
    (storeArgs work (List.range args.length) args)[t]? = some a := by
  unfold storeArgs
  rw [getElem?_foldl_set_range h, ha, Option.some_or]

theorem mem_writes {ins : Instruction α} {vs : List (List T)} {t : Nat} {r : List T} :
    (t, r) ∈ ((ins.results.zip (vs.zipIdx.map fun (r, i) =>
        if (ins.results[i]?.getD none).isSome then some r else none)).filterMap
      fun (s, r) => s.bind fun s => r.map fun r => (s, r)) ↔
    ∃ i : Nat, ins.results[i]? = some (some t) ∧ vs[i]? = some r := by
  rw [List.mem_filterMap]
  constructor
  · rintro ⟨⟨s, r'⟩, hmem, heq⟩
    obtain ⟨i, hi⟩ := List.mem_iff_getElem?.1 hmem
    simp only [List.getElem?_zip_eq_some, List.getElem?_map, List.getElem?_zipIdx,
      Option.map_map, Option.map_eq_some_iff, Nat.zero_add, Function.comp_apply] at hi
    obtain ⟨hs, v, hv, rfl⟩ := hi
    simp only [hs, Option.getD_some, Option.bind_eq_some_iff, Option.map_eq_some_iff,
      Prod.mk.injEq] at heq
    obtain ⟨t, rfl, r, hr, rfl, rfl⟩ := heq
    exact ⟨i, hs, by simpa [hv] using hr⟩
  · rintro ⟨i, hs, hv⟩
    refine ⟨(some t, some r), List.mem_iff_getElem?.2 ⟨i, ?_⟩, rfl⟩
    simp [List.getElem?_zip_eq_some, hs, hv]

theorem checkLengths_eq_ok {inputs : List (Expr α)} {lengths : List Nat}
    (h : lengths = inputs.map nnz) : checkLengths inputs lengths = .ok () := by
  have hlen : lengths.length = inputs.length := by simpa using congrArg List.length h
  have hfind : ((lengths.zip inputs).zipIdx.find? fun s => s.1.1 ≠ s.1.2.nnz) = none :=
    (find?_sizes_eq_none_iff (fun n => n) nnz hlen).2 ((List.map_id' _).trans h)
  unfold checkLengths
  rw [hfind, if_neg (not_not.2 hlen)]
  rfl

variable [Scalar α] [Element Id α T]

/-- The assignment that gives the symbols among the inputs the nonzeros of the arguments; the last
argument of a symbol counts. -/
def assign (inputs : List (Expr α)) (args : List (List T)) : Nat → Nat → T := fun id k =>
  match (inputs.zip args).reverse.find? fun (x, _) => x.id = id with
  | some (_, a) => nth a k
  | none => ofNumber 0

theorem assign_of_isLast {n : Nat} {S : Set (Expr α)} (hS : IsGraph n S) {inputs : List (Expr α)}
    (hin : ∀ x ∈ inputs, x ∈ S) {args : List (List T)} (hlen : args.length = inputs.length)
    {t : Nat} {x : Expr α} (ht : IsLast inputs t x) {a : List T} (ha : args[t]? = some a) :
    assign inputs args x.id = nth a := by
  have hfind : (inputs.zip args).reverse.find? (fun (y, _) => y.id = x.id) = some (x, a) := by
    induction inputs using List.reverseRecOn generalizing args with
    | nil => cases ht.1
    | append_singleton xs y ih =>
      obtain ⟨as, b, rfl⟩ : ∃ as b, args = as ++ [b] := by
        rcases List.eq_nil_or_concat args with rfl | ⟨as, b, rfl⟩
        · simp at hlen
        · exact ⟨as, b, List.concat_eq_append⟩
      have hlen' : as.length = xs.length := by simpa using hlen
      rw [List.zip_append hlen'.symm, List.reverse_append]
      by_cases hyx : y = x
      · subst hyx
        obtain rfl := isLast_concat_self.1 ht
        rw [← hlen', List.getElem?_concat_length] at ha
        obtain rfl := Option.some.inj ha
        simp
      · have hxS : x ∈ S := hin x (List.mem_of_getElem? ht.1)
        have hid : y.id ≠ x.id := fun h => hyx (hS.unique y (hin y (by simp)) x hxS h)
        have ht' := (isLast_concat_of_ne hyx).1 ht
        have hlt : t < as.length := by
          rw [hlen']
          exact (List.getElem?_eq_some_iff.1 ht'.1).1
        rw [List.getElem?_append_left hlt] at ha
        simpa [hid] using ih (fun z hz => hin z (by simp [hz])) hlen' ht' ha
  funext k
  rw [assign, hfind]

theorem nonzeros_assign {n : Nat} {S : Set (Expr α)} (hS : IsGraph n S) {inputs : List (Expr α)}
    (hin : ∀ x ∈ inputs, x ∈ S) {args : List (List T)}
    (hargs : args.map List.length = inputs.map nnz) {t : Nat} {x : Expr α} (ht : IsLast inputs t x)
    (hsym : x.isSymbol = true) {a : List T} (ha : args[t]? = some a) :
    nonzeros (assign inputs args) x = a := by
  have hlength : a.length = x.nnz := by
    have := congrArg (·[t]?) hargs
    simpa [ha, ht.1] using this
  rw [hS.nonzeros_of_isSymbol (hin x (List.mem_of_getElem? ht.1)) hsym,
    assign_of_isLast hS hin (by simpa using congrArg List.length hargs) ht ha]
  exact map_nth_range a hlength

variable {f : Function α} {n : Nat} {S : Set (Expr α)} {slot : Expr α × Nat → Nat}

namespace Layout

/-- The slots of all results that are ready after `done` hold their values. -/
def Holds (f : Function α) (S : Set (Expr α)) (slot : Expr α × Nat → Nat) (env : Nat → Nat → T)
    (done : List (Instruction α)) (work : Array (List T)) : Prop :=
  work.size = f.slots.size ∧
    ∀ e ∈ S, e.isOutput = false → ∀ i < e.resultCount, Ready slot done (e, i) →
      work[slot (e, i)]? = some (result env (e, i))

theorem holds_start (h : f.Layout S slot) (hS : IsGraph n S) {args : List (List T)}
    (hargs : args.map List.length = f.inputs.map nnz) {start : Array (List T)}
    (hstart : start.size = f.slots.size) :
    Holds f S slot (assign f.inputs args) [] (storeArgs start f.inputSlots args) := by
  have hlen : args.length = f.inputs.length := by simpa using congrArg List.length hargs
  refine ⟨?_, ?_⟩
  · exact (size_foldl_set _ _).trans hstart
  · rintro e he ho i hi (⟨hsym, hi0⟩ | ⟨ins, hins, -⟩)
    · obtain rfl : i = 0 := hi0
      obtain ⟨-, -, hlast⟩ := h.input e (h.symbols e he hsym)
      obtain ⟨a, ha⟩ : ∃ a, args[slot (e, 0)]? = some a :=
        ⟨_, List.getElem?_eq_getElem (hlen ▸ (List.getElem?_eq_some_iff.1 hlast.1).1)⟩
      have hnz : nonzeros (assign f.inputs args) e = a :=
        nonzeros_assign hS (fun x hx => (h.input x hx).1) hargs hlast hsym ha
      rw [← nonzeros_eq_result, hnz, h.inputSlots, ← hlen]
      exact getElem?_storeArgs (by rw [hstart, hlen]; exact h.inputs_le_size) ha
    · cases hins

/-- The operands of the next instruction are read from slots that hold them. -/
theorem buffers_args (h : f.Layout S slot) (hS : IsGraph n S) {env : Nat → Nat → T}
    {done rest : List (Instruction α)} {ins : Instruction α}
    (hsplit : f.instructions = done ++ ins :: rest) {work : Array (List T)}
    (hwork : Holds f S slot env done work) :
    buffers work ins.args = ins.node.deps.map (nonzeros env) := by
  have hfits := h.fits done ins rest hsplit
  rw [buffers, hfits.args, List.map_map]
  refine List.map_congr_left fun d hd => ?_
  have hdS := hS.closed _ hfits.mem d hd
  obtain ⟨hmem, hno, hlt⟩ := hS.source_spec hdS
  rw [Function.comp_apply, hwork.2 _ hmem hno _ hlt (hfits.ready d hd), hS.nonzeros_eq_source hdS]
  rfl

/-- An instruction writes the results of its node and leaves all others. -/
theorem holds_execute (h : f.Layout S slot) (hS : IsGraph n S) {env : Nat → Nat → T}
    {done rest : List (Instruction α)} {ins : Instruction α}
    (hsplit : f.instructions = done ++ ins :: rest) {work : Array (List T)}
    (hwork : Holds f S slot env done work) :
    ∃ work', (execute ins work : ExceptT GraphError Id _) = pure work' ∧
      Holds f S slot env (done ++ [ins]) work' := by
  have hfits := h.fits done ins rest hsplit
  have hlen : (ins.node.deps.map (nonzeros env)).map List.length = ins.node.deps.map nnz :=
    hS.map_length_operands hfits.mem
  have heval := (hS.wellFormed _ hfits.mem).evaluate_eq hfits.isOperation hlen
    fun i => (ins.results[i]?.getD none).isSome
  rw [← h.buffers_args hS hsplit hwork] at heval
  have hvalues : compute ins.node (buffers work ins.args) = values env ins.node := by
    rw [h.buffers_args hS hsplit hwork, hS.values_eq_compute hfits.mem hfits.isOperation]
  rw [hvalues] at heval
  refine ⟨_, (congrArg (· >>= fun r => pure (store work ins.results r)) heval).trans
    (pure_bind _ _), ?_⟩
  rw [store_eq_foldl]
  refine ⟨(size_foldl_set _ _).trans hwork.1, fun e he ho i hi hready => ?_⟩
  by_cases hwritten : ∃ j : Nat, ins.results[j]? = some (some (slot (e, i)))
  · obtain ⟨j, hj⟩ := hwritten
    have own (k : Nat) (hk : ins.results[k]? = some (some (slot (e, i)))) :
        (e, i) = (ins.node, k) :=
      h.injective e he ins.node hfits.mem ho (not_isOutput_of_isOperation hfits.isOperation) i hi k
        (hfits.length ▸ (List.getElem?_eq_some_iff.1 hk).1) (hfits.results k _ hk)
    obtain ⟨rfl, rfl⟩ := Prod.mk.inj (own j hj)
    refine getElem?_foldl_set_of_mem (mem_writes.2 ⟨i, hj, hS.getElem?_values hfits.mem hi⟩) ?_
      (hwork.1 ▸ h.lt_size he ho hi)
    intro r hr
    obtain ⟨k, hk, hkr⟩ := mem_writes.1 hr
    obtain rfl := (Prod.mk.inj (own k hk)).2
    exact Option.some.inj (hkr.symm.trans (hS.getElem?_values hfits.mem hi))
  · rw [getElem?_foldl_set_of_not_mem fun r hr => hwritten (by
      obtain ⟨j, hj, -⟩ := mem_writes.1 hr
      exact ⟨j, hj⟩)]
    refine hwork.2 e he ho i hi (hready.imp_right ?_)
    rintro ⟨ins', hins', hnode, hres⟩
    rcases List.mem_append.1 hins' with hins' | hins'
    · exact ⟨ins', hins', hnode, hres⟩
    · exact absurd ⟨i, List.mem_singleton.1 hins' ▸ hres⟩ hwritten

theorem holds_foldlM (h : f.Layout S slot) (hS : IsGraph n S) {env : Nat → Nat → T}
    {done rest : List (Instruction α)} (hsplit : f.instructions = done ++ rest)
    {work : Array (List T)} (hwork : Holds f S slot env done work) :
    ∃ work', (rest.foldlM (fun work ins => execute ins work) work : ExceptT GraphError Id _) =
        pure work' ∧ Holds f S slot env f.instructions work' := by
  induction rest generalizing done work with
  | nil => exact ⟨work, rfl, by rwa [hsplit, List.append_nil]⟩
  | cons ins rest ih =>
    obtain ⟨next, hnext, hholds⟩ := h.holds_execute hS hsplit hwork
    obtain ⟨work', hwork', hholds'⟩ := ih (by simpa using hsplit) hholds
    refine ⟨work', ?_, hholds'⟩
    rw [List.foldlM_cons, hnext, pure_bind, hwork']

end Layout

/-- A run on arguments of the declared lengths never fails and gives the outputs their values. -/
theorem run_eq (h : f.Layout S slot) (hS : IsGraph n S) {args : List (List T)}
    (hargs : args.map List.length = f.inputs.map nnz) :
    (f.run args : ExceptT GraphError Id _) =
      pure (f.outputs.map (nonzeros (assign f.inputs args))) := by
  have hstart : Layout.Holds f S slot (assign f.inputs args) [] (storeArgs (f.slots.map fun p =>
      List.replicate p.nnz (Id.run (Expr.zeroElement : Id T))) f.inputSlots args) :=
    h.holds_start hS hargs Array.size_map
  obtain ⟨work, hrun, hholds⟩ := h.holds_foldlM hS (List.nil_append _).symm hstart
  have houts : buffers work f.outputSlots = f.outputs.map (nonzeros (assign f.inputs args)) := by
    rw [buffers, h.outputSlots, List.map_map]
    refine List.map_congr_left fun o ho => ?_
    obtain ⟨hoS, -, hready⟩ := h.outputs o ho
    obtain ⟨hmem, hno, hlt⟩ := hS.source_spec hoS
    rw [Function.comp_apply, hholds.2 _ hmem hno _ hlt hready, hS.nonzeros_eq_source hoS]
    rfl
  rw [← houts]
  unfold run
  rw [checkLengths_eq_ok hargs]
  exact (congrArg (· >>= fun work => pure (buffers work f.outputSlots)) hrun).trans (pure_bind _ _)

end Function

end DiffGraph
