import Mathlib
import DiffGraph.Proofs.Derivative.Adjoint
import DiffGraph.Proofs.Derivative.Seeds
import DiffGraph.Proofs.Derivative.Slots

/-!
# Reverse derivatives

The sweep against the order of the instructions keeps the inner product of the
adjoints in the slots with the derivatives of their results (`HasAdjoints`): an
instruction takes the adjoints of its results out of their slots and hands the
same inner product to the slots of its operands (`grows_reverseStep`). It starts
with the inner product of the output seeds and ends with that of the adjoints of
the inputs, so the reverse derivative function is the transpose of the derivative
that dual numbers give, for every direction alone (`reverse_correct`).
-/

namespace DiffGraph

open Element Expr

variable {α : Type} [ExactField α] {refused : GraphError → Prop} {n n' : Nat}
  {S S' S'' : Set (Expr α)} {f : Function α} {slot : Expr α × Nat → Nat}
  {done rest : List (Instruction α)} {ins : Instruction α} {s : Expr α × Nat} {t : Nat}
  {env tan : Nat → Nat → α} {v : (Nat → Nat → α) → (Nat → Nat → α) → α}

namespace Function

/-! ## Inner products over the slots -/

open Classical in
/-- The derivative of the result that a slot belongs to. -/
noncomputable def slotTangent (S : Set (Expr α)) (slot : Expr α × Nat → Nat)
    (env tan : Nat → Nat → α) (t : Nat) : Nat → Nat → α :=
  if h : ∃ s, IsResult S s ∧ slot s = t then sourceTangent env tan h.choose else fun _ _ => 0

theorem Layout.slotTangent_slot (h : f.Layout S slot) (hs : IsResult S s) :
    slotTangent S slot env tan (slot s) = sourceTangent env tan s := by
  have hex : ∃ s', IsResult S s' ∧ slot s' = slot s := ⟨s, hs, rfl⟩
  have hchoose := hex.choose_spec
  rw [slotTangent, dif_pos hex, h.eq_of_slot hchoose.1 hs hchoose.2]

noncomputable def slotPairing (f : Function α) (S : Set (Expr α)) (slot : Expr α × Nat → Nat)
    (env tan : Nat → Nat → α) (t : Nat) (c : Option (Expr α)) : α :=
  pairing env (f.slots[t]?.getD default) c (slotTangent S slot env tan t)

@[simp] theorem slotPairing_none : f.slotPairing S slot env tan t none = 0 :=
  pairing_none

theorem Layout.slotPairing_slot (h : f.Layout S slot) (hs : IsResult S s)
    (c : Option (Expr α)) : f.slotPairing S slot env tan (slot s) c =
      pairing env (sourcePattern s) c (sourceTangent env tan s) := by
  rw [slotPairing, h.slotTangent_slot hs, h.getElem?_slots hs]
  rfl

noncomputable def totalPairing (f : Function α) (S : Set (Expr α)) (slot : Expr α × Nat → Nat)
    (env tan : Nat → Nat → α) (ds : SlotDerivatives α) : α :=
  ∑ t ∈ Finset.range f.slots.size, f.slotPairing S slot env tan t (derivativeAt ds t)

variable {ds : SlotDerivatives α} {c x : Expr α} {rs : List (Option Nat)}

theorem totalPairing_set (hsize : ds.size = f.slots.size) (ht : t < f.slots.size)
    (d : Option (Expr α)) : f.totalPairing S slot env tan (ds.setIfInBounds t d) =
      f.totalPairing S slot env tan ds - f.slotPairing S slot env tan t (derivativeAt ds t) +
        f.slotPairing S slot env tan t d := by
  have hchange : f.totalPairing S slot env tan (ds.setIfInBounds t d) -
      f.totalPairing S slot env tan ds = f.slotPairing S slot env tan t d -
        f.slotPairing S slot env tan t (derivativeAt ds t) := by
    rw [totalPairing, totalPairing, ← Finset.sum_sub_distrib, Finset.sum_eq_single t]
    · rw [derivativeAt_set_self (hsize ▸ ht)]
    · intro u _ hu
      rw [derivativeAt_set_ne (Ne.symm hu), sub_self]
    · exact fun h => absurd (Finset.mem_range.2 ht) h
  rw [sub_eq_iff_eq_add.1 hchange]
  ring

/-! ## Adjoints in slots -/

/-- The slots hold adjoints of results that are ready after `done`, on the patterns of the results,
with the inner product `v` altogether. -/
structure HasAdjoints (f : Function α) (S : Set (Expr α)) (slot : Expr α × Nat → Nat)
    (done : List (Instruction α)) (S' : Set (Expr α)) (ds : SlotDerivatives α)
    (v : (Nat → Nat → α) → (Nat → Nat → α) → α) : Prop where
  size : ds.size = f.slots.size
  usable : ∀ t x, derivativeAt ds t = some x →
    Usable S' x ∧ x.pattern = f.slots[t]?.getD default
  ready : ∀ t x, derivativeAt ds t = some x → ∃ s, IsResult S s ∧ Ready slot done s ∧ slot s = t
  products : ∀ env tan, f.totalPairing S slot env tan ds = v env tan

theorem HasAdjoints.mono (h : f.HasAdjoints S slot done S' ds v) (hsub : S' ⊆ S'') :
    f.HasAdjoints S slot done S'' ds v :=
  { h with usable := fun t x hx => ⟨(h.usable t x hx).1.mono hsub, (h.usable t x hx).2⟩ }

theorem hasAdjoints_none : f.HasAdjoints S slot done S' f.noDerivatives fun _ _ => 0 where
  size := Array.size_replicate
  usable t x hx := by simp [derivativeAt_noDerivatives] at hx
  ready t x hx := by simp [derivativeAt_noDerivatives] at hx
  products env tan := Finset.sum_eq_zero fun t _ => by
    rw [derivativeAt_noDerivatives, slotPairing_none]

theorem grows_accumulateAt (h : f.Layout S slot) (hS' : IsGraph n' S')
    (hA : f.HasAdjoints S slot done S' ds v) (hs : IsResult S s) (hr : Ready slot done s)
    (hc : Usable S' c) (hp : c.pattern = sourcePattern s) :
    Grows refused n' S' (f.accumulateAt ds (slot s) c) fun S'' ds' =>
      f.HasAdjoints S slot done S'' ds' fun env tan =>
        v env tan + pairing env (sourcePattern s) (some c) (sourceTangent env tan s) := by
  have hslot : f.slots[slot s]?.getD default = sourcePattern s := by
    rw [h.getElem?_slots hs]
    rfl
  unfold accumulateAt
  rw [hslot]
  refine .bind (grows_accumulate hS' (t := derivativeAt ds (slot s)) (fun x hx => ?_) hc
    (congrArg Pattern.shape hp)) ?_
  · exact ⟨(hA.usable _ x hx).1, (hA.usable _ x hx).2.trans hslot⟩
  rintro n₁ S₁ r h₁ ⟨hr', hrp, hrv⟩
  have hlt := hA.size ▸ h.slot_lt hs
  refine .pure h₁.graph ⟨?_, fun t x hx => ?_, fun t x hx => ?_, fun env tan => ?_⟩
  · rw [Array.size_setIfInBounds, hA.size]
  · by_cases ht : slot s = t
    · subst ht
      rw [derivativeAt_set_self hlt] at hx
      obtain rfl := Option.some.inj hx
      exact ⟨hr', hrp.trans hslot.symm⟩
    · rw [derivativeAt_set_ne ht] at hx
      exact ⟨(hA.usable t x hx).1.mono h₁.subset, (hA.usable t x hx).2⟩
  · by_cases ht : slot s = t
    · exact ⟨s, hs, hr, ht⟩
    · rw [derivativeAt_set_ne ht] at hx
      exact hA.ready t x hx
  · rw [totalPairing_set hA.size (h.slot_lt hs), hA.products, h.slotPairing_slot hs,
      h.slotPairing_slot hs, pairing_accumulate hrp (hrv inferInstance env)]
    show _ = v env tan + total _ fun i j => entry env c i j * _
    ring

theorem grows_accumulateAll (h : f.Layout S slot) (hS : IsGraph n S) (hS' : IsGraph n' S')
    (hA : f.HasAdjoints S slot done S' ds v) {xs : List (Expr α)} {cs : Adjoints α}
    (hxs : ∀ d ∈ xs, d ∈ S ∧ Ready slot done d.source)
    (hcs : OnPatterns S' (xs.map pattern) cs) :
    Grows refused n' S' (((xs.map fun d => slot d.source).zip cs).foldlM (fun ds (s, c) =>
        match c with
        | some c => f.accumulateAt ds s c
        | none => return ds) ds) fun S'' ds' =>
      f.HasAdjoints S slot done S'' ds' fun env tan => v env tan + pairings xs cs env tan := by
  induction xs generalizing cs n' S' ds v with
  | nil =>
    obtain rfl := List.forall₂_nil_left_iff.1 hcs
    refine .pure hS' { hA with products := fun env tan => ?_ }
    exact (hA.products env tan).trans (add_zero _).symm
  | cons d xs ih =>
    obtain ⟨⟨hdS, hdr⟩, hxs⟩ := List.forall_mem_cons.1 hxs
    cases hcs with
    | @cons _ c _ cs hc hcs =>
      have hsum (env tan : Nat → Nat → α) : v env tan + pairings (d :: xs) (c :: cs) env tan =
          v env tan + pairing env d.pattern c (tangentEntry env tan d) +
            pairings xs cs env tan := by
        rw [pairings, List.zipWith_cons_cons, List.sum_cons, ← pairings, add_assoc]
      simp only [hsum]
      rw [List.map_cons, List.zip_cons_cons, List.foldlM_cons]
      cases c with
      | none =>
        simp only [pairing_none, add_zero]
        refine .bind (Q := fun S₁ ds₁ => f.HasAdjoints S slot done S₁ ds₁ v) (.pure hS' hA)
          fun n₁ S₁ ds₁ h₁ hA₁ => ?_
        exact ih h₁.graph hA₁ hxs (hcs.imp fun p c hc x hx => ⟨(hc x hx).1.mono h₁.subset,
          (hc x hx).2⟩)
      | some c =>
        obtain ⟨hcu, hcp⟩ := hc c rfl
        refine .bind (grows_accumulateAt h hS' hA (hS.source_spec hdS) hdr hcu
          (hcp.trans (hS.pattern_eq_source hdS))) fun n₁ S₁ ds₁ h₁ hA₁ => ?_
        have htangent (env tan : Nat → Nat → α) :
            pairing env (sourcePattern d.source) (some c) (sourceTangent env tan d.source) =
              pairing env d.pattern (some c) (tangentEntry env tan d) := by
          rw [hS.pattern_eq_source hdS]
          exact pairing_congr fun i j _ => (hS.tangentEntry_eq_source hdS env tan i j).symm
        simp only [htangent] at hA₁
        exact ih h₁.graph hA₁ hxs (hcs.imp fun p c hc x hx => ⟨(hc x hx).1.mono h₁.subset,
          (hc x hx).2⟩)

/-! ## One instruction -/

/-- The slots without the adjoints of the given results. -/
def withoutResults (rs : List (Option Nat)) (ds : SlotDerivatives α) : SlotDerivatives α :=
  rs.foldl (fun ds r => r.elim ds fun s => ds.setIfInBounds s none) ds

omit [ExactField α] in
theorem derivativeAt_withoutResults (rs : List (Option Nat)) (ds : SlotDerivatives α) (t : Nat) :
    derivativeAt (withoutResults rs ds) t = if some t ∈ rs then none else derivativeAt ds t := by
  induction rs generalizing ds with
  | nil => rfl
  | cons r rs ih =>
    rw [withoutResults, List.foldl_cons, ← withoutResults, ih]
    cases r with
    | none => simp
    | some u =>
      by_cases hut : u = t
      · subst hut
        by_cases hlt : u < ds.size
        · simp [derivativeAt_set_self hlt]
        · simp [derivativeAt, Nat.le_of_not_lt hlt]
      · simp [derivativeAt_set_ne hut, Ne.symm hut]

theorem totalPairing_withoutResults (hsize : ds.size = f.slots.size)
    (hlt : ∀ t, some t ∈ rs → t < f.slots.size)
    (hne : rs.Pairwise fun r r' => ∀ t ∈ r, t ∉ r') :
    f.totalPairing S slot env tan ds = f.totalPairing S slot env tan (withoutResults rs ds) +
      (rs.map fun r => r.elim 0 fun t =>
        f.slotPairing S slot env tan t (derivativeAt ds t)).sum := by
  induction rs generalizing ds with
  | nil => exact (add_zero _).symm
  | cons r rs ih =>
    obtain ⟨hr, hrest⟩ := List.pairwise_cons.1 hne
    have hlt' : ∀ t, some t ∈ rs → t < f.slots.size := fun t ht => hlt t (by simp [ht])
    rw [withoutResults, List.foldl_cons, ← withoutResults, List.map_cons, List.sum_cons]
    cases r with
    | none => simpa using ih hsize hlt' hrest
    | some u =>
      have hkeep : (rs.map fun r => r.elim 0 fun t => f.slotPairing S slot env tan t
          (derivativeAt (ds.setIfInBounds u none) t)).sum = (rs.map fun r => r.elim 0 fun t =>
            f.slotPairing S slot env tan t (derivativeAt ds t)).sum := by
        refine congrArg List.sum (List.map_congr_left fun r hrs => ?_)
        cases r with
        | none => rfl
        | some t =>
          have hut : u ≠ t := fun h => hr _ hrs u rfl (h ▸ rfl)
          exact congrArg (f.slotPairing S slot env tan t) (derivativeAt_set_ne hut)
      have hsize' : (ds.setIfInBounds u none).size = f.slots.size := by simpa using hsize
      have hnext := ih hsize' hlt' hrest
      rw [hkeep, totalPairing_set hsize (hlt u (by simp)), slotPairing_none, add_zero,
        sub_eq_iff_eq_add] at hnext
      rw [hnext, add_right_comm, add_assoc]
      rfl

/-- The adjoints of the results of an instruction are on the patterns of the results. -/
theorem HasAdjoints.onPatterns (h : f.Layout S slot)
    (hsplit : f.instructions = done ++ ins :: rest)
    (hA : f.HasAdjoints S slot (done ++ [ins]) S' ds v) :
    OnPatterns S' ins.node.patterns (resultAdjoints ins ds) := by
  have hfits := h.fits done ins rest hsplit
  refine forall₂_of_getElem? ?_ fun i p c hp hc x hx => ?_
  · rw [resultAdjoints, List.length_map, hfits.length]
    rfl
  rw [resultAdjoints, List.getElem?_map, Option.map_eq_some_iff] at hc
  obtain ⟨r, hr, rfl⟩ := hc
  obtain ⟨t, rfl, ht⟩ := Option.bind_eq_some_iff.1 hx
  obtain rfl := hfits.results i t hr
  have hi : i < ins.node.resultCount := (List.getElem?_eq_some_iff.1 hp).1
  refine ⟨(hA.usable _ x ht).1, (hA.usable _ x ht).2.trans ?_⟩
  rw [h.patterns _ hfits.mem (h.isResult_node hsplit hi).2.1 i p hp]
  rfl

theorem HasAdjoints.withoutResults (h : f.Layout S slot)
    (hsplit : f.instructions = done ++ ins :: rest)
    (hA : f.HasAdjoints S slot (done ++ [ins]) S' ds v) :
    f.HasAdjoints S slot done S' (withoutResults ins.results ds) fun env tan =>
      v env tan - ins.node.resultPairing (resultAdjoints ins ds) env tan := by
  have hfits := h.fits done ins rest hsplit
  have hat {i t : Nat} (hi : ins.results[i]? = some (some t)) :
      IsResult S (ins.node, i) ∧ t = slot (ins.node, i) := by
    refine ⟨h.isResult_node hsplit ?_, hfits.results i t hi⟩
    exact hfits.length ▸ (List.getElem?_eq_some_iff.1 hi).1
  have hold {t : Nat} {x : Expr α} (hx : derivativeAt (Function.withoutResults ins.results ds) t =
      some x) : some t ∉ ins.results ∧ derivativeAt ds t = some x := by
    rw [derivativeAt_withoutResults] at hx
    split at hx
    · cases hx
    · exact ⟨‹_›, hx⟩
  refine ⟨?_, fun t x hx => hA.usable t x (hold hx).2, fun t x hx => ?_, fun env tan => ?_⟩
  · rw [← hA.size]
    clear hfits hat hold hA
    generalize ins.results = rs
    induction rs generalizing ds with
    | nil => rfl
    | cons r rs ih =>
      refine ih.trans ?_
      cases r <;> simp
  · obtain ⟨s, hs, hr, rfl⟩ := hA.ready t x (hold hx).2
    refine ⟨s, hs, (ready_concat.1 hr).resolve_right fun hres => ?_, rfl⟩
    exact (hold hx).1 (List.mem_of_getElem? hres.2)
  · have hresults : ins.node.resultPairing (resultAdjoints ins ds) env tan =
        (ins.results.map fun r => r.elim 0 fun t =>
          f.slotPairing S slot env tan t (derivativeAt ds t)).sum := by
      refine congrArg List.sum (List.ext_getElem (by simp [resultAdjoints]) fun i hi _ => ?_)
      have hlt : i < ins.results.length := by simpa [resultAdjoints] using hi
      simp only [resultAdjoints, List.getElem_map, List.getElem_zipIdx, Nat.zero_add]
      cases hr : ins.results[i] with
      | none => exact pairing_none
      | some t =>
        obtain ⟨hres, rfl⟩ := hat (List.getElem?_eq_some_iff.2 ⟨hlt, hr⟩)
        exact (h.slotPairing_slot hres _).symm
    have hlt (t : Nat) (ht : some t ∈ ins.results) : t < f.slots.size := by
      obtain ⟨i, hi⟩ := List.mem_iff_getElem?.1 ht
      obtain ⟨hres, rfl⟩ := hat hi
      exact h.slot_lt hres
    have hne : ins.results.Pairwise fun r r' => ∀ t ∈ r, t ∉ r' := by
      refine List.pairwise_iff_getElem.2 fun i j hi hj hij t hti htj => ?_
      have hti' := hat (List.getElem?_eq_some_iff.2 ⟨hi, hti⟩)
      have htj' := hat (List.getElem?_eq_some_iff.2 ⟨hj, htj⟩)
      have := congrArg Prod.snd (h.eq_of_slot hti'.1 htj'.1 (hti'.2.symm.trans htj'.2))
      exact Nat.ne_of_lt hij this
    rw [← hA.products env tan, totalPairing_withoutResults hA.size hlt hne, hresults,
      add_sub_cancel_right]

/-- An instruction hands the adjoints of its results to its operands. -/
theorem grows_reverseStep (h : f.Layout S slot) (hS : IsGraph n S) (hS' : IsGraph n' S')
    (hsub : S ⊆ S') (hsplit : f.instructions = done ++ ins :: rest)
    (hA : f.HasAdjoints S slot (done ++ [ins]) S' ds v) {outputs : List (Expr α)}
    (houtputs : ins.node.op.isSplit = false → outputs = [ins.node]) :
    Grows (OutOf f.FitsMemory) n' S' (f.reverseStep ins outputs ds) fun S'' ds' =>
      f.HasAdjoints S slot done S'' ds' v := by
  have hfits := h.fits done ins rest hsplit
  have hmem : ins ∈ f.instructions := hsplit ▸ List.mem_append_right _ List.mem_cons_self
  have hslot {s : Expr α × Nat} (hs : IsResult S s) :
      ¬ Size.Fits (sourcePattern s).shape → OutOf f.FitsMemory .misuse :=
    fun hlarge => ⟨rfl, fun hm => hlarge (hm.slots _ _ (h.getElem?_slots hs))⟩
  have hargs : (ins.args.map fun _ => (none : Option (Expr α))) =
      ins.node.deps.map fun _ => none := by
    rw [hfits.args, List.map_map]
    rfl
  unfold reverseStep
  simp only [hargs]
  refine .bind (grows_adjoint hS' (hsub hfits.mem) hfits.isOperation houtputs
    (hA.onPatterns h hsplit) ?_ (fun d hd => ?_)
    (fun hlarge => ⟨rfl, fun hm => hlarge (hm.operands ins hmem)⟩)
    fun hlarge => ⟨rfl, fun hm => hlarge (hm.results ins hmem)⟩) ?_
  · have := hslot (h.isResult_node hsplit ins.node.resultCount_pos)
    rwa [sourcePattern_zero] at this
  · have hdS := hS.closed _ hfits.mem d hd
    have := hslot (hS.source_spec hdS)
    rwa [← hS.pattern_eq_source hdS] at this
  rintro n₁ S₁ ⟨left, sens⟩ h₁ htrans
  rw [hfits.args]
  refine (grows_accumulateAll h hS h₁.graph ((hA.withoutResults h hsplit).mono h₁.subset)
    (fun d hd => ⟨hS.closed _ hfits.mem d hd, hfits.ready d hd⟩) htrans.operands).mono ?_
  intro n₂ S₂ ds₂ _ hA₂
  have hsame (env tan : Nat → Nat → α) :
      v env tan - ins.node.resultPairing (resultAdjoints ins ds) env tan +
        pairings ins.node.deps sens env tan = v env tan := by
    rw [htrans.products, sub_add_cancel]
  simpa only [hsame] using hA₂

/-- An instruction none of whose results has an adjoint may be skipped. -/
theorem HasAdjoints.skip (hA : f.HasAdjoints S slot (done ++ [ins]) S' ds v)
    (hnone : ∀ c ∈ resultAdjoints ins ds, c = none) : f.HasAdjoints S slot done S' ds v := by
  refine { hA with ready := fun t x hx => ?_ }
  obtain ⟨s, hs, hr, rfl⟩ := hA.ready t x hx
  refine ⟨s, hs, (ready_concat.1 hr).resolve_right fun hres => ?_, rfl⟩
  have hmem : derivativeAt ds (slot s) ∈ resultAdjoints ins ds :=
    List.mem_map.2 ⟨_, List.mem_of_getElem? hres.2, rfl⟩
  rw [hnone _ hmem] at hx
  cases hx

theorem grows_reverseAll (h : f.Layout S slot) (hS : IsGraph n S) (hS' : IsGraph n' S')
    (hsub : S ⊆ S') (hsplit : f.instructions = done ++ ins :: rest)
    {seeds : List (List (Expr α))} {directions : List (SlotDerivatives α)}
    {w : List (Expr α) → (Nat → Nat → α) → (Nat → Nat → α) → α}
    (hA : List.Forall₂ (fun ys ds => f.HasAdjoints S slot (done ++ [ins]) S' ds (w ys)) seeds
      directions) :
    Grows (OutOf f.FitsMemory) n' S' (f.reverseAll ins directions) fun S'' directions' =>
      List.Forall₂ (fun ys ds => f.HasAdjoints S slot done S'' ds (w ys)) seeds directions' := by
  have hfits := h.fits done ins rest hsplit
  unfold reverseAll
  split
  · refine .bind (grows_results hS' (hsub hfits.mem)) ?_
    intro n₁ S₁ outputs h₁ houtputs
    refine Grows.mapM_forall₂
      (P := fun S₁ ys ds => f.HasAdjoints S slot (done ++ [ins]) S₁ ds (w ys))
      h₁.graph (hA.imp fun ys ds hds => hds.mono h₁.subset) ?_ ?_ ?_
    · exact fun ys ds n₂ S₂ h₂ hds => grows_reverseStep h hS h₂.graph
        (hsub.trans (h₁.trans h₂).subset) hsplit hds houtputs
    · exact fun S₁ S₂ ys ds hsub hds => hds.mono hsub
    · exact fun S₁ S₂ ys ds hsub hds => hds.mono hsub
  · rename_i hskip
    have hnone : ∀ ds ∈ directions, ∀ c ∈ resultAdjoints ins ds, c = none := by
      simpa using hskip
    have hboth := (List.forall₂_and_left _ _).2 ⟨hnone, hA.flip⟩
    exact .pure hS' (hboth.flip.imp fun ys ds hds => hds.2.skip hds.1)

theorem grows_foldlM_reverseAll (h : f.Layout S slot) (hS : IsGraph n S) (hS' : IsGraph n' S')
    (hsub : S ⊆ S') (hsplit : f.instructions = done ++ rest)
    {seeds : List (List (Expr α))} {directions : List (SlotDerivatives α)}
    {w : List (Expr α) → (Nat → Nat → α) → (Nat → Nat → α) → α}
    (hA : List.Forall₂ (fun ys ds => f.HasAdjoints S slot done S' ds (w ys)) seeds directions) :
    Grows (OutOf f.FitsMemory) n' S'
      (done.reverse.foldlM (fun ds ins => f.reverseAll ins ds) directions)
      fun S'' directions' => List.Forall₂
        (fun ys ds => f.HasAdjoints S slot [] S'' ds (w ys)) seeds directions' := by
  induction done using List.reverseRecOn generalizing rest n' S' directions with
  | nil => exact .pure hS' hA
  | append_singleton done ins ih =>
    rw [List.reverse_append, List.reverse_singleton, List.singleton_append, List.foldlM_cons]
    rw [List.append_assoc, List.singleton_append] at hsplit
    refine .bind (grows_reverseAll h hS hS' hsub hsplit hA) fun n₁ S₁ next h₁ hnext => ?_
    exact ih h₁.graph (hsub.trans h₁.subset) hsplit hnext

/-! ## From the outputs to the inputs -/

def reverseStart (f : Function α) (ys : List (Expr α)) : Build (SlotDerivatives α) :=
  (f.outputSlots.zip ys).foldlM (fun ds (s, y) => f.accumulateAt ds s y) f.noDerivatives

def seedPairing (f : Function α) (ys : List (Expr α)) : (Nat → Nat → α) → (Nat → Nat → α) → α :=
  pairings f.outputs (ys.map some)

theorem grows_reverseStart (h : f.Layout S slot) (hS : IsGraph n S) (hS' : IsGraph n' S')
    {ys : List (Expr α)} (hys : ∀ y ∈ ys, y ∈ S' ∧ y.isSymbol = true)
    (hp : ys.map pattern = f.outputs.map pattern) :
    Grows refused n' S' (f.reverseStart ys) fun S'' ds =>
      f.HasAdjoints S slot f.instructions S'' ds (f.seedPairing ys) := by
  have hcs : OnPatterns S' (f.outputs.map pattern) (ys.map some) := by
    rw [← hp]
    refine List.forall₂_map_left_iff.2 (List.forall₂_map_right_iff.2 (List.forall₂_same.2 ?_))
    intro y hy x hx
    obtain rfl := Option.some.inj hx
    exact ⟨hS'.usable_of_isSymbol (hys y hy).1 (hys y hy).2, rfl⟩
  have hall : Grows refused n' S' _ _ := grows_accumulateAll h hS hS' hasAdjoints_none
    (fun o ho => ⟨(h.outputs o ho).1, (h.outputs o ho).2.2⟩) hcs
  rw [← h.outputSlots, List.zip_map_right, List.foldlM_map] at hall
  simp only [zero_add] at hall
  exact hall

def adjoints (f : Function α) (seeds : List (List (Expr α))) : Build (List (List (Expr α))) := do
  let start ← seeds.mapM f.reverseStart
  let directions ← f.instructions.reverse.foldlM (fun ds ins => f.reverseAll ins ds) start
  directions.mapM f.inputAdjoints

theorem reverse_eq (f : Function α) (k : Nat) :
    f.reverse k = f.derivativeOf s!"adj{k}_{f.name}" k f.reverseSeeds f.adjoints := by
  unfold reverse derivativeOf adjoints
  simp only [bind_assoc]
  rfl

theorem sumProducts_gather_zero (p : Pattern) (a : List α) :
    sumProducts (p.gather fun _ _ => 0) a = 0 := by
  rw [sumProducts, Pattern.gather, List.map_const', ← List.map_uncurry_zip_eq_zipWith]
  refine List.sum_eq_zero fun v hv => ?_
  obtain ⟨⟨x, y⟩, hxy, rfl⟩ := List.mem_map.1 hv
  obtain rfl := List.eq_of_mem_replicate (List.of_mem_zip hxy).1
  exact zero_mul y

/-- Adjoints of the inputs have the inner product of the slots with the derivatives of the
inputs. -/
theorem HasAdjoints.sum_inputs (h : f.Layout S slot) (hS : IsGraph n S)
    (hA : f.HasAdjoints S slot [] S' ds v) {xdot : List (List α)}
    (hxdot : xdot.map List.length = f.inputs.map nnz)
    (htan : ∀ (t : Nat) x a, IsLast f.inputs t x → xdot[t]? = some a → tan x.id = nth a)
    {xbars : List (List α)} (hlen : xbars.length = f.inputs.length)
    (hxbars : ∀ (t : Nat) x b, f.inputs[t]? = some x → xbars[t]? = some b →
      b = x.pattern.gather (partialEntry env (derivativeAt ds t))) :
    (List.zipWith sumProducts xbars xdot).sum = v env tan := by
  have hcount : xdot.length = f.inputs.length := by simpa using congrArg List.length hxdot
  -- only the last place of an input has an adjoint
  have hinput {t : Nat} {x : Expr α} (hx : derivativeAt ds t = some x) :
      ∃ e ∈ S, e.isSymbol = true ∧ slot (e, 0) = t ∧ IsLast f.inputs t e := by
    obtain ⟨⟨e, i⟩, hs, hr, rfl⟩ := hA.ready t x hx
    obtain ⟨hsym, rfl⟩ : e.isSymbol = true ∧ i = 0 := hr.resolve_right (by simp)
    exact ⟨e, hs.1, hsym, rfl, (h.input e (h.symbols e hs.1 hsym)).2.2⟩
  have hat (t : Nat) (x : Expr α) (b a : List α) (hx : f.inputs[t]? = some x)
      (hb : xbars[t]? = some b) (ha : xdot[t]? = some a) :
      sumProducts b a = f.slotPairing S slot env tan t (derivativeAt ds t) := by
    rw [hxbars t x b hx hb]
    cases hd : derivativeAt ds t with
    | none => exact (sumProducts_gather_zero x.pattern a).trans slotPairing_none.symm
    | some c =>
      obtain ⟨e, he, hsym, rfl, hlast⟩ := hinput hd
      obtain rfl := Option.some.inj (hx.symm.trans hlast.1)
      have halen : a.length = x.nnz := by
        have := congrArg (·[slot (x, 0)]?) hxdot
        simpa [ha, hx] using this
      have hgather : a = x.pattern.gather (tangentEntry env tan x) := by
        rw [← hS.derivs_nonzeros he, hS.nonzeros_of_isSymbol he hsym, Dual.derivs, List.map_map,
          ← map_nth_range a halen, ← htan _ x a hlast ha]
        rfl
      have ho : x.isOutput = false := by
        obtain ⟨id, name, p, rfl⟩ := (hS.wellFormed x he).exists_of_isSymbol hsym
        rfl
      rw [h.slotPairing_slot ⟨he, ho, x.resultCount_pos⟩, sourcePattern_zero, hgather,
        sumProducts_gather]
      refine pairing_congr fun i j _ => ?_
      rw [sourceTangent_zero]
  rw [← hA.products env tan, totalPairing]
  have hinputs : ∑ t ∈ Finset.range f.slots.size, f.slotPairing S slot env tan t
      (derivativeAt ds t) = ∑ t ∈ Finset.range f.inputs.length, f.slotPairing S slot env tan t
        (derivativeAt ds t) := by
    refine (Finset.sum_subset (Finset.range_mono h.inputs_le_size) fun t _ ht => ?_).symm
    cases hd : derivativeAt ds t with
    | none => exact slotPairing_none
    | some c =>
      obtain ⟨e, -, -, -, hlast⟩ := hinput hd
      exact absurd (Finset.mem_range.2 (List.getElem?_eq_some_iff.1 hlast.1).1) ht
  rw [hinputs]
  refine congrArg List.sum (List.ext_getElem (by simp [hlen, hcount]) fun t ht _ => ?_)
  rw [List.length_zipWith, hlen, hcount, Nat.min_self] at ht
  rw [List.getElem_zipWith, List.getElem_map, List.getElem_range]
  exact hat t _ _ _ (List.getElem?_eq_getElem ht) (List.getElem?_eq_getElem (hlen ▸ ht))
    (List.getElem?_eq_getElem (hcount ▸ ht))

/-- Adjoints of the inputs that have the inner product `v` with the derivatives of the inputs. -/
structure Transposed (f : Function α) (rs : List (Expr α))
    (v : (Nat → Nat → α) → (Nat → Nat → α) → α) : Prop where
  lengths : ∀ env : Nat → Nat → α, (rs.map (nonzeros env)).map List.length = f.inputs.map nnz
  products : ∀ (env tan : Nat → Nat → α) xdot, xdot.map List.length = f.inputs.map nnz →
    (∀ (t : Nat) x a, IsLast f.inputs t x → xdot[t]? = some a → tan x.id = nth a) →
    (List.zipWith sumProducts (rs.map (nonzeros env)) xdot).sum = v env tan

theorem grows_inputAdjoints (h : f.Layout S slot) (hS : IsGraph n S) (hS' : IsGraph n' S')
    (hA : f.HasAdjoints S slot [] S' ds v) :
    Grows refused n' S' (f.inputAdjoints ds) fun S'' rs =>
      (∀ r ∈ rs, Usable S'' r) ∧ f.Transposed rs v := by
  have hslots : ∀ (t : Nat) x, f.inputs[t]? = some x → ∀ c, derivativeAt ds t = some c →
      Usable S' c ∧ c.shape = x.pattern.shape := by
    intro t x hx c hc
    refine ⟨(hA.usable t c hc).1, ?_⟩
    rw [shape, (hA.usable t c hc).2, h.inputPatterns t x hx]
    rfl
  unfold inputAdjoints
  rw [h.inputSlots]
  refine (Grows.mapM (P := fun S'' (tx : Nat × Expr α) r => Usable S'' r ∧
    ∀ env : Nat → Nat → α, nonzeros env r =
      tx.2.pattern.gather (partialEntry env (derivativeAt ds tx.1))) hS' ?_ ?_).mono ?_
  · rintro ⟨t, x⟩ htx n₁ S₁ h₁
    obtain ⟨i, hi⟩ := List.mem_iff_getElem?.1 htx
    obtain ⟨ht, hx⟩ := List.getElem?_zip_eq_some.1 hi
    rw [List.getElem?_range (List.getElem?_eq_some_iff.1 hx).1] at ht
    obtain rfl := Option.some.inj ht
    refine (grows_portDerivative h₁.graph fun c hc => ?_).mono ?_
    · exact ⟨(hslots i x hx c hc).1.mono h₁.subset, (hslots i x hx c hc).2⟩
    · exact fun n₂ S₂ r _ hr => ⟨hr.1, hr.2.2⟩
  · exact fun S₁ S₂ tx r hsub hr => ⟨hr.1.mono hsub, hr.2⟩
  intro n₁ S₁ rs _ hrs
  have hlen : rs.length = f.inputs.length := by
    rw [← hrs.length_eq, List.length_zip, List.length_range, Nat.min_self]
  have hat {t : Nat} {x r : Expr α} (hx : f.inputs[t]? = some x) (hr : rs[t]? = some r)
      (env : Nat → Nat → α) :
      nonzeros env r = x.pattern.gather (partialEntry env (derivativeAt ds t)) := by
    obtain ⟨⟨u, y⟩, huy, -, hval⟩ := exists_of_forall₂ hrs hr
    obtain ⟨hu, hy⟩ := List.getElem?_zip_eq_some.1 huy
    rw [List.getElem?_range (List.getElem?_eq_some_iff.1 hx).1] at hu
    obtain rfl := Option.some.inj hu
    obtain rfl := Option.some.inj (hx.symm.trans hy)
    exact hval env
  refine ⟨fun r hr => ?_, fun env => ?_, fun env tan xdot hxdot htan => ?_⟩
  · obtain ⟨t, ht⟩ := List.mem_iff_getElem?.1 hr
    obtain ⟨-, -, hus, -⟩ := exists_of_forall₂ hrs ht
    exact hus
  · have hlengths : List.Forall₂ (fun r x => (nonzeros env r).length = x.nnz) rs f.inputs :=
      forall₂_of_getElem? hlen fun t r x hr hx => by rw [hat hx hr, Pattern.length_gather]; rfl
    rw [List.map_map]
    exact map_eq_of_forall₂ hlengths fun r x hrx => hrx
  · refine hA.sum_inputs h hS hxdot htan (by rw [List.length_map, hlen]) fun t x b hx hb => ?_
    rw [List.getElem?_map, Option.map_eq_some_iff] at hb
    obtain ⟨r, hr, rfl⟩ := hb
    exact hat hx hr env

/-- The adjoints of the inputs have, for the seeds of every direction, the inner product of the
seeds with the derivatives of the outputs. -/
theorem grows_adjoints (h : f.Layout S slot) (hS : IsGraph n S) {seeds : List (List (Expr α))}
    (hadd : AddsSymbols n S n' S' seeds.flatten)
    (hp : ∀ ys ∈ seeds, ys.map pattern = f.outputs.map pattern) :
    Grows (OutOf f.FitsMemory) n' S' (f.adjoints seeds) fun S'' outs =>
      (∀ r ∈ outs.flatten, Usable S'' r) ∧
        List.Forall₂ (fun ys rs => f.Transposed rs (f.seedPairing ys)) seeds outs := by
  have hsame : List.Forall₂ (fun ys ys' => ys = ys' ∧ ys ∈ seeds) seeds seeds :=
    List.forall₂_same.2 fun ys hys => ⟨rfl, hys⟩
  unfold adjoints
  refine .bind (Grows.mapM_forall₂ (P := fun _ ys ys' => ys = ys' ∧ ys ∈ seeds)
    (Q := fun S₁ ys ds => f.HasAdjoints S slot f.instructions S₁ ds (f.seedPairing ys))
    hadd.graph hsame ?_ (fun _ _ _ _ _ h => h) fun S₁ S₂ ys ds hsub hds => hds.mono hsub) ?_
  · rintro ys _ n₁ S₁ h₁ ⟨rfl, hys⟩
    refine grows_reverseStart h hS h₁.graph (fun y hy => ?_) (hp ys hys)
    obtain ⟨hmem, hsym, -⟩ := hadd.mem y (List.mem_flatten_of_mem hys hy)
    exact ⟨h₁.subset hmem, hsym⟩
  intro n₁ S₁ start h₁ hstart
  refine .bind (grows_foldlM_reverseAll h hS h₁.graph (hadd.subset.trans h₁.subset)
    (List.append_nil _).symm hstart) ?_
  intro n₂ S₂ directions h₂ hA
  refine (Grows.mapM_forall₂
    (P := fun S₂ ys ds => f.HasAdjoints S slot [] S₂ ds (f.seedPairing ys))
    (Q := fun S₃ ys rs => (∀ r ∈ rs, Usable S₃ r) ∧ f.Transposed rs (f.seedPairing ys))
    h₂.graph hA ?_ (fun S₂ S₃ ys ds hsub hds => hds.mono hsub) ?_).mono ?_
  · exact fun ys ds n₃ S₃ h₃ hds => grows_inputAdjoints h hS h₃.graph hds
  · exact fun S₃ S₄ ys rs hsub hrs => ⟨fun r hr => (hrs.1 r hr).mono hsub, hrs.2⟩
  · intro n₃ S₃ outs _ houts
    refine ⟨fun r hr => ?_, houts.imp fun ys rs hrs => hrs.2⟩
    obtain ⟨rs, hrs, hr⟩ := List.mem_flatten.1 hr
    obtain ⟨i, hi⟩ := List.mem_iff_getElem?.1 hrs
    obtain ⟨ys, -, hys⟩ := exists_of_forall₂ houts hi
    exact hys.1 r hr

theorem seedPairing_eq (hS : IsGraph n S) (hout : ∀ o ∈ f.outputs, o ∈ S) (hS' : IsGraph n' S')
    {ys : List (Expr α)} (hys : ∀ y ∈ ys, y ∈ S' ∧ y.isSymbol = true)
    (hp : ys.map pattern = f.outputs.map pattern) {ybars : List (List α)}
    (hlen : ybars.map List.length = f.outputs.map nnz)
    (henv : ∀ (t : Nat) y b, ys[t]? = some y → ybars[t]? = some b → env y.id = nth b) :
    f.seedPairing ys env tan = (List.zipWith sumProducts ybars
      (f.outputs.map fun o => Dual.derivs (nonzeros (dualEnv env tan) o))).sum := by
  have hcount : ys.length = f.outputs.length := by simpa using congrArg List.length hp
  have hbars : ybars.length = f.outputs.length := by simpa using congrArg List.length hlen
  refine congrArg List.sum (List.ext_getElem (by simp [hcount, hbars]) fun t ht _ => ?_)
  rw [List.length_zipWith, List.length_map, hcount, Nat.min_self] at ht
  have hyt : ys[t]? = some ys[t] := List.getElem?_eq_getElem (hcount ▸ ht)
  have hbt : ybars[t]? = some ybars[t] := List.getElem?_eq_getElem (hbars ▸ ht)
  have hot : f.outputs[t]? = some f.outputs[t] := List.getElem?_eq_getElem ht
  obtain ⟨hy, hsym⟩ := hys _ (List.mem_of_getElem? hyt)
  have hpt : ys[t].pattern = f.outputs[t].pattern := by
    simpa [hyt, hot] using congrArg (·[t]?) hp
  have hbl : ybars[t].length = ys[t].nnz := by
    rw [nnz, hpt]
    simpa [hbt, hot, nnz] using congrArg (·[t]?) hlen
  simp only [List.getElem_zipWith, List.getElem_map]
  rw [← hpt, pairing_some hS' hy, hS'.nonzeros_of_isSymbol hy hsym, henv t _ _ hyt hbt,
    map_nth_range _ hbl, hpt, hS.derivs_nonzeros (hout _ (List.mem_of_getElem? hot))]

/-- The reverse derivative function is the transpose of the forward derivative: it can be built
unless the memory does not suffice, and at a point and the output seeds of every direction it
returns, direction by direction, adjoints of the inputs whose inner product with any input
derivatives is that of the output seeds with the derivatives that dual numbers give the outputs. -/
theorem reverse_correct (hS : IsGraph n S) (h : f.Compiled S) (k : Nat) :
    match f.reverse k n with
    | .error e => OutOf (k < Size.listLimit ∧ f.FitsMemory) e
    | .ok (g, n') => (∃ S', IsGraph n' S' ∧ g.Compiled S') ∧ ∀ point directions,
        point.map List.length = f.inputs.map nnz → directions.length = k →
        (∀ ybars ∈ directions, ybars.map List.length = f.outputs.map nnz) →
        ∃ sens, g.evaluate (point ++ directions.flatten) = .ok sens.flatten ∧
          List.Forall₂ (fun ybars xbars => xbars.map List.length = f.inputs.map nnz ∧
            ∀ xdot, xdot.map List.length = f.inputs.map nnz → ∃ duals,
              f.evaluateDual (List.zipWith Dual.seeded point xdot) = .ok duals ∧
              (List.zipWith sumProducts xbars xdot).sum =
                (List.zipWith sumProducts ybars (duals.map Dual.derivs)).sum)
            directions sens := by
  obtain ⟨hgraph, slot, hlayout⟩ := h.exists_layout hS
  have hspec := derivativeOf_spec (k := k) hgraph
    (fun x hx => ⟨(hlayout.input x hx).1, (hlayout.input x hx).2.1⟩) hlayout.symbols
    f.exists_reverseSeeds (fun _ _ _ hadd hp => grows_adjoints hlayout hgraph hadd hp)
    s!"adj{k}_{f.name}"
  rw [reverse_eq]
  split
  · rename_i e he
    simpa only [he] using hspec
  · rename_i g n₂ hg
    simp only [hg] at hspec
    obtain ⟨n₁, S₁, S₂, seeds, outs, hadd, hext, hp, houts, hcompiled, heval⟩ := hspec
    refine ⟨⟨S₂, hext.graph, hcompiled⟩, fun point directions hpoint hcount hdirections => ?_⟩
    have hnnz : (f.outputs.map pattern).map Pattern.nnz = f.outputs.map nnz := List.map_map
    obtain ⟨hlen, env, hassigns, hrun⟩ := heval point directions hpoint hcount (hnnz ▸ hdirections)
    refine ⟨outs.map (List.map (nonzeros env)), by rw [hrun, List.map_flatten], ?_⟩
    refine forall₂_of_getElem? ?_ fun i ybars xbars hybars hxbars => ?_
    · rw [List.length_map, ← houts.length_eq, hlen]
    rw [List.getElem?_map, Option.map_eq_some_iff] at hxbars
    obtain ⟨rs, hrs, rfl⟩ := hxbars
    obtain ⟨ys, hys, htransposed⟩ := exists_of_forall₂ houts hrs
    have hyseeds : ys ∈ seeds := List.mem_of_getElem? hys
    refine ⟨htransposed.lengths env, fun xdot hxdot => ?_⟩
    obtain ⟨tan, htan, hdual⟩ := evaluateDual_eq hlayout hgraph hpoint hxdot hassigns.input
    refine ⟨_, hdual, ?_⟩
    rw [htransposed.products env tan xdot hxdot htan, seedPairing_eq hgraph
      (fun o ho => (hlayout.outputs o ho).1) hadd.graph (fun y hy => ?_) (hp ys hyseeds)
      (hdirections ybars (List.mem_of_getElem? hybars))
      (fun t y b hy hb => hassigns.seed i ys ybars hys hybars t y b hy hb), List.map_map]
    · rfl
    · obtain ⟨hmem, hsym, -⟩ := hadd.mem y (List.mem_flatten_of_mem hyseeds hy)
      exact ⟨hmem, hsym⟩

/-- The gradient of the first square at (3, 5). -/
theorem reverse_correct_square :
    let x : Expr Rat := .node 0 (.symbol "x") [] (.column 2) []
    let p : Expr Rat := .node 1 (.binary .mul .none) [x, x] (.column 2) []
    ∃ f g n', compile "f" [x] [p] = .ok f ∧ f.reverse 1 2 = .ok (g, n') ∧
      g.evaluate [[3, 5], [1, 0]] = .ok [[6, 0]] := by
  intro x p
  obtain ⟨f, hf, hin, hout, hmemory, ⟨S, hS, hcompiled⟩, hdual⟩ := compile_square
  have h := reverse_correct hS hcompiled 1
  cases hg : f.reverse 1 2 with
  | error e =>
    simp only [hg] at h
    exact absurd ⟨by decide, hmemory⟩ h.2
  | ok out =>
    obtain ⟨g, n'⟩ := out
    simp only [hg] at h
    have hnnz : f.inputs.map nnz = [2] := by rw [hin]; rfl
    obtain ⟨sens, heval, hall⟩ := h.2 [[3, 5]] [[[1, 0]]] hnnz.symm rfl
      (by rw [hout]; simp only [List.mem_singleton, forall_eq]; rfl)
    obtain ⟨xbars, rfl, hlen, hproducts⟩ := exists_singleton_of_forall₂ hall
    obtain ⟨a, b, rfl⟩ : ∃ a b, xbars = [[a, b]] := by
      rw [hnnz] at hlen
      match xbars, hlen with
      | [[a, b]], _ => exact ⟨a, b, rfl⟩
    have hgradient (c d : Rat) : a * c + (b * d + 0) + 0 =
        1 * (3 * c + c * 3) + (0 * (5 * d + d * 5) + 0) + 0 := by
      obtain ⟨duals, hduals, heq⟩ := hproducts [[c, d]] hnnz.symm
      obtain rfl := Except.ok.inj ((hdual 3 5 c d).symm.trans hduals)
      exact heq
    have ha : a = 6 := by linarith [hgradient 1 0]
    have hb : b = 0 := by linarith [hgradient 0 1]
    exact ⟨f, g, n', hf, hg, ha ▸ hb ▸ heval⟩

end Function

end DiffGraph
