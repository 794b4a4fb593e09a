import Mathlib
import DiffGraph.Proofs.System.Jacobian
import DiffGraph.Proofs.System.Soundness
import DiffGraph.Proofs.System.Wires

/-!
# Reverse sweeps

A reverse dependency sweep takes the instructions of a function backwards. Every instruction
keeps whether marks of the forward sweep and marks of the reverse sweep meet in some slot
(`taintReverseStep_spec`), so marked inputs reach marked outputs forwards exactly if these
reach them backwards (`Typed.taintReverse_spec`). Hence both sweeps join marks over one
relation between outputs and inputs (`taint_transpose`).
-/

namespace DiffGraph

open Element Expr DiffGraph.System

namespace Function

variable {α : Type} {b c : Nat} {u work : Array (List Taint)}

/-! ## Marks on slots -/

theorem hasMark_toList_iff {t k : Nat} : HasMark b work.toList (t, k) ↔
    ∃ xs x, work[t]? = some xs ∧ xs[k]? = some x ∧ x.toNat.testBit b = true := by
  rw [hasMark_iff]
  simp only [Array.getElem?_toList]

theorem hasMark_buffers_iff {ts : List Nat} {j k : Nat} : HasMark b (buffers work ts) (j, k) ↔
    ∃ t, ts[j]? = some t ∧ HasMark b work.toList (t, k) := by
  rw [hasMark_iff]
  simp only [hasMark_toList_iff, buffers, List.getElem?_map, Option.map_eq_some_iff]
  constructor
  · rintro ⟨_, x, ⟨t, ht, rfl⟩, hx, hbit⟩
    cases hw : work[t]? with
    | none => simp [hw] at hx
    | some xs =>
      rw [hw] at hx
      exact ⟨t, ht, xs, x, hw, hx, hbit⟩
  · rintro ⟨t, ht, xs, x, hxs, hx, hbit⟩
    exact ⟨xs, x, ⟨t, ht, by rw [hxs]; rfl⟩, hx, hbit⟩

theorem hasMark_congr {work' : Array (List Taint)} {t : Nat} (h : work[t]? = work'[t]?) (k : Nat) :
    HasMark b work.toList (t, k) ↔ HasMark b work'.toList (t, k) := by
  rw [hasMark_toList_iff, hasMark_toList_iff, h]

/-! ## Adding marks to slots -/

@[simp] theorem length_joinTaint (xs ys : List Taint) : (joinTaint xs ys).length = xs.length := by
  induction xs generalizing ys with
  | nil => cases ys <;> rfl
  | cons x xs ih =>
    cases ys with
    | nil => rfl
    | cons y ys => exact congrArg Nat.succ (ih ys)

theorem getElem?_joinTaint (xs ys : List Taint) (k : Nat) :
    (joinTaint xs ys)[k]? = xs[k]?.map (· ||| ys[k]?.getD 0) := by
  induction xs generalizing ys k with
  | nil => cases ys <;> rfl
  | cons x xs ih =>
    cases ys with
    | nil => cases k <;> simp [joinTaint]
    | cons y ys =>
      cases k with
      | zero => rfl
      | succ k => exact ih ys k

theorem Sized.addTaint {slots : Array Pattern} (h : Sized slots work) (ts : List Nat)
    (marks : List (List Taint)) : Sized slots (addTaint work ts marks) := by
  unfold Function.addTaint
  induction ts.zip marks generalizing work with
  | nil => exact h
  | cons x xs ih =>
    refine ih (Eq.trans (Array.ext_getElem? fun t => ?_) h)
    rw [Array.getElem?_map, Array.getElem?_modify, Array.getElem?_map]
    cases work[t]? with
    | none => simp
    | some ys => by_cases hx : x.1 = t <;> simp [hx]

theorem nonzeroAt_addTaint (ts : List Nat) (marks : List (List Taint)) {s k : Nat} {t : Taint}
    (ht : nonzeroAt work.toList (s, k) = some t) :
    ∃ t', nonzeroAt (addTaint work ts marks).toList (s, k) = some t' ∧
      ∀ c, t'.toNat.testBit c = true ↔ t.toNat.testBit c = true ∨
        ∃ x ∈ ts.zip marks, x.1 = s ∧ ∃ m, x.2[k]? = some m ∧ m.toNat.testBit c = true := by
  unfold addTaint
  induction ts.zip marks generalizing work t with
  | nil => exact ⟨t, ht, by simp⟩
  | cons x xs ih =>
    obtain ⟨ys, hys, hy⟩ := Option.bind_eq_some_iff.1 ht
    rw [Array.getElem?_toList] at hys
    by_cases hx : x.1 = s
    · have hstep : nonzeroAt (work.modify x.1 (joinTaint · x.2)).toList (s, k) =
          some (t ||| x.2[k]?.getD 0) := by
        simp [nonzeroAt, hx, hys, getElem?_joinTaint, hy]
      obtain ⟨t', ht', hbits⟩ := ih hstep
      refine ⟨t', ht', fun c => (hbits c).trans ?_⟩
      rw [List.exists_mem_cons_iff, UInt64.toNat_or, Nat.testBit_or, Bool.or_eq_true, or_assoc]
      refine or_congr Iff.rfl (or_congr ?_ Iff.rfl)
      cases hm : x.2[k]? <;> simp [hx]
    · have hstep : nonzeroAt (work.modify x.1 (joinTaint · x.2)).toList (s, k) = some t := by
        simp [nonzeroAt, hx, hys, hy]
      obtain ⟨t', ht', hbits⟩ := ih hstep
      refine ⟨t', ht', fun c => (hbits c).trans ?_⟩
      simp [hx]

/-- Marks meet after marks have been added to slots if they met before, or if they meet those that
are added. -/
theorem meet_addTaint (hlen : u.toList.map List.length = work.toList.map List.length)
    (ts : List Nat) (marks : List (List Taint)) :
    Meet b c u.toList (addTaint work ts marks).toList ↔
      Meet b c u.toList work.toList ∨ Meet b c (buffers u ts) marks := by
  constructor
  · rintro ⟨⟨s, k⟩, hu, t', ht', hbit⟩
    obtain ⟨t, ht⟩ := hu.exists_nonzeroAt hlen
    obtain ⟨t'', ht'', hbits⟩ := nonzeroAt_addTaint ts marks ht
    obtain rfl := Option.some.inj (ht''.symm.trans ht')
    obtain hold | ⟨⟨s', ms⟩, hx, rfl, m, hm, hbit⟩ := (hbits c).1 hbit
    · exact .inl ⟨(s, k), hu, t, ht, hold⟩
    · obtain ⟨j, hj⟩ := List.mem_iff_getElem?.1 hx
      obtain ⟨hs, hms⟩ := List.getElem?_zip_eq_some.1 hj
      exact .inr ⟨(j, k), hasMark_buffers_iff.2 ⟨s', hs, hu⟩, hasMark_iff.2 ⟨ms, m, hms, hm, hbit⟩⟩
  · rintro (⟨⟨s, k⟩, hu, t, ht, hbit⟩ | ⟨⟨j, k⟩, hu, hm⟩)
    · obtain ⟨t', ht', hbits⟩ := nonzeroAt_addTaint ts marks ht
      exact ⟨(s, k), hu, t', ht', (hbits c).2 (.inl hbit)⟩
    · obtain ⟨s, hs, hmark⟩ := hasMark_buffers_iff.1 hu
      obtain ⟨ms, m, hms, hm, hbit⟩ := hasMark_iff.1 hm
      obtain ⟨t, ht⟩ := hmark.exists_nonzeroAt hlen
      obtain ⟨t', ht', hbits⟩ := nonzeroAt_addTaint ts marks ht
      refine ⟨(s, k), hmark, t', ht', (hbits c).2 (.inr ⟨(s, ms), ?_, rfl, m, hm, hbit⟩)⟩
      exact List.mem_iff_getElem?.2 ⟨j, List.getElem?_zip_eq_some.2 ⟨hs, hms⟩⟩

/-! ## Taking marks from slots -/

def clear (work : Array (List Taint)) (blank : Nat → List Taint) (rs : List (Option Nat)) :
    Array (List Taint) :=
  rs.foldl (fun work r => r.elim work fun s => work.setIfInBounds s (blank s)) work

theorem getElem?_clear (blank : Nat → List Taint) (rs : List (Option Nat)) (t : Nat) :
    (clear work blank rs)[t]? =
      if some t ∈ rs then work[t]?.map fun _ => blank t else work[t]? := by
  unfold clear
  induction rs generalizing work with
  | nil => simp
  | cons r rs ih =>
    rw [List.foldl_cons, ih]
    cases r with
    | none => simp
    | some s =>
      by_cases hst : s = t
      · subst hst
        simp only [Option.elim_some, Array.getElem?_setIfInBounds, if_true, List.mem_cons_self]
        by_cases hlt : s < work.size
        · simp [hlt]
        · simp [hlt]
      · simp [Array.getElem?_setIfInBounds_ne hst, Ne.symm hst]

theorem Sized.clear {slots : Array Pattern} (h : Sized slots work) {blank : Nat → List Taint}
    (hblank : ∀ (t : Nat) p, slots[t]? = some p → (blank t).length = p.nnz)
    (rs : List (Option Nat)) : Sized slots (clear work blank rs) := by
  refine Eq.trans (Array.ext_getElem? fun t => ?_) h
  rw [Array.getElem?_map, getElem?_clear, Array.getElem?_map]
  split
  · have ht := congrArg (·[t]?) h
    simp only [Array.getElem?_map] at ht
    cases hp : slots[t]? with
    | none =>
      rw [hp] at ht
      cases hw : work[t]? with
      | none => rfl
      | some v => simp [hw] at ht
    | some p =>
      obtain ⟨v, hv, hlen⟩ := h.exists_buffer hp
      simp [hv, hlen, hblank t p hp]
  · rfl

theorem hasMark_clear {blank : Nat → List Taint} (hblank : ∀ t, ∀ m ∈ blank t, m = 0)
    {rs : List (Option Nat)} {t k : Nat} :
    HasMark b (clear work blank rs).toList (t, k) ↔
      some t ∉ rs ∧ HasMark b work.toList (t, k) := by
  by_cases hmem : some t ∈ rs
  · refine iff_of_false (fun hmark => ?_) fun h => h.1 hmem
    obtain ⟨xs, x, hxs, hx, hbit⟩ := hasMark_toList_iff.1 hmark
    rw [getElem?_clear, if_pos hmem] at hxs
    obtain ⟨_, -, rfl⟩ := Option.map_eq_some_iff.1 hxs
    simp [hblank t x (List.mem_of_getElem? hx)] at hbit
  · rw [hasMark_congr ((getElem?_clear blank rs t).trans (if_neg hmem))]
    exact (and_iff_right hmem).symm

/-- Results that are written meet marks on their slots as if those marks were taken from the slots
first. -/
theorem meet_put {rs : List (Option Nat)} {vs : List (List Taint)} (hlen : vs.length = rs.length)
    (hdistinct : ∀ (i j t : Nat), rs[i]? = some (some t) → rs[j]? = some (some t) → i = j)
    (hlt : ∀ (i t : Nat), rs[i]? = some (some t) → t < u.size) {blank : Nat → List Taint}
    (hblank : ∀ t, ∀ m ∈ blank t, m = 0) :
    Meet b c (put u rs vs).toList work.toList ↔
      Meet b c u.toList (clear work blank rs).toList ∨
        Meet b c ((vs.zipIdx.map fun (v, i) =>
            if (rs[i]?.getD none).isSome then some v else none).map (·.getD []))
          ((rs.map (·.map fun t => work[t]?.getD [])).map (·.getD [])) := by
  have houter {t : Nat} (hmem : some t ∉ rs) : (put u rs vs)[t]? = u[t]? :=
    getElem?_put_of_forall_ne fun i hi => hmem (List.mem_of_getElem? hi)
  have hresult {i t : Nat} (hi : rs[i]? = some (some t)) :
      ∃ v, vs[i]? = some v ∧ (put u rs vs)[t]? = some v := by
    have hv := List.getElem?_eq_getElem (hlen ▸ (List.getElem?_eq_some_iff.1 hi).1)
    exact ⟨_, hv, getElem?_put_of_result (fun i j => hdistinct i j t) hi hv (hlt i t hi)⟩
  constructor
  · rintro ⟨⟨t, k⟩, hput, hwork⟩
    by_cases hmem : some t ∈ rs
    · obtain ⟨i, hi⟩ := List.mem_iff_getElem?.1 hmem
      obtain ⟨v, hv, hat⟩ := hresult hi
      obtain ⟨xs, x, hxs, hx, hbit⟩ := hasMark_toList_iff.1 hput
      obtain ⟨ys, y, hys, hy, hbit'⟩ := hasMark_toList_iff.1 hwork
      obtain rfl := Option.some.inj (hat.symm.trans hxs)
      refine .inr ⟨(i, k), hasMark_iff.2 ⟨v, x, ?_, hx, hbit⟩, hasMark_iff.2 ⟨ys, y, ?_, hy, hbit'⟩⟩
      · simp [hv, hi]
      · simp [hi, hys]
    · exact .inl ⟨(t, k), (hasMark_congr (houter hmem) k).1 hput,
        (hasMark_clear hblank).2 ⟨hmem, hwork⟩⟩
  · rintro (⟨⟨t, k⟩, hu, hclear⟩ | ⟨⟨i, k⟩, hout, hres⟩)
    · obtain ⟨hmem, hwork⟩ := (hasMark_clear hblank).1 hclear
      exact ⟨(t, k), (hasMark_congr (houter hmem) k).2 hu, hwork⟩
    · obtain ⟨xs, x, hxs, hx, hbit⟩ := hasMark_iff.1 hout
      obtain ⟨ys, y, hys, hy, hbit'⟩ := hasMark_iff.1 hres
      simp only [List.getElem?_map, Option.map_eq_some_iff] at hys
      obtain ⟨_, ⟨r, hr, rfl⟩, rfl⟩ := hys
      cases r with
      | none => cases hy
      | some t =>
        obtain ⟨v, hv, hat⟩ := hresult hr
        obtain rfl : v = xs := by simpa [hv, hr] using hxs
        refine ⟨(t, k), hasMark_toList_iff.2 ⟨v, x, hat, hx, hbit⟩, ?_⟩
        cases hw : work[t]? with
        | none => simp [hw] at hy
        | some ws =>
          simp only [hw, Option.map_some, Option.getD_some] at hy
          exact hasMark_toList_iff.2 ⟨ws, y, hw, hy, hbit'⟩

/-! ## Steps of the reverse sweep -/

theorem Sized.blank_eq {slots : Array Pattern} (h : Sized slots work) (t : Nat) :
    List.replicate ((slots[t]?.map Pattern.nnz).getD 0) (0 : Taint) =
      List.replicate (work[t]?.getD []).length 0 := by
  have ht := congrArg (·[t]?) h
  simp only [Array.getElem?_map] at ht
  rw [← ht]
  cases work[t]? <;> rfl

theorem Sized.lengths_eq {slots : Array Pattern} (hu : Sized slots u) (hwork : Sized slots work) :
    u.toList.map List.length = work.toList.map List.length := by
  rw [← Array.toList_map, ← Array.toList_map, hu.trans hwork.symm]

variable [Scalar α] {f : Function α}

/-- An instruction of the reverse sweep never fails, and marks meet on its results exactly if they
meet on its operands afterwards. -/
theorem taintReverseStep_spec {ins : Instruction α} (hins : ins.Typed f.slots)
    {u : Array (List (Marked α Taint))} (hu : Sized f.slots u) (hwork : Sized f.slots work) :
    ∃ work', f.taintReverseStep work ins = .ok work' ∧ Sized f.slots work' ∧
      ∀ b c, Meet b c (effect u ins).toList work.toList ↔ Meet b c u.toList work'.toList := by
  let blank (t : Nat) := List.replicate ((f.slots[t]?.map Pattern.nnz).getD 0) (0 : Taint)
  have hargs := hu.map_length_buffers hins.args
  have hsweep := hins.wellFormed.sweepTaint_eq hins.isOperation hargs
    fun i => (ins.results[i]?.getD none).isSome
  have hresults : (ins.results.map (·.map blank)) =
      (ins.results.map (·.map fun t => work[t]?.getD [])).map
        (·.map fun r => List.replicate r.length (0 : Taint)) := by
    rw [List.map_map]
    refine List.map_congr_left fun r _ => ?_
    cases r with
    | none => rfl
    | some t => exact congrArg some (hwork.blank_eq t)
  have hblanks : ins.args.map blank =
      (buffers u ins.args).map fun a => List.replicate a.length (0 : Taint) := by
    rw [buffers, List.map_map]
    exact List.map_congr_left fun t _ => hu.blank_eq t
  rw [← blanks_eq hins, hresults] at hsweep
  obtain ⟨marks, cleared, hreverse, hlen, hdual⟩ := sweepTaint_dual hsweep
  have hreverse' : ins.node.sweepTaint .reverse (ins.args.map blank)
      (ins.results.map (·.map fun t => work[t]?.getD [])) = .ok (marks, cleared) :=
    (congrArg (ins.node.sweepTaint .reverse · _) hblanks).trans hreverse
  have hblank (t : Nat) p (hp : f.slots[t]? = some p) : (blank t).length = p.nnz := by
    simp [blank, hp]
  refine ⟨addTaint (clear work blank ins.results) ins.args marks, ?_, ?_, fun b c => ?_⟩
  · unfold taintReverseStep
    exact congrArg (fun r : Except GraphError (List (List Taint) × List (Option (List Taint))) =>
      r >>= fun r => pure (addTaint (clear work blank ins.results) ins.args r.1)) hreverse'
  · exact (hwork.clear hblank ins.results).addTaint ins.args marks
  · have hcount : (compute (T := Marked α Taint) ins.node (buffers u ins.args)).length =
        ins.results.length := by
      have hlengths := congrArg List.length
        (hins.wellFormed.map_length_compute (T := Marked α Taint) hins.isOperation hargs)
      rw [List.length_map, List.length_map] at hlengths
      exact hlengths.trans hins.length.symm
    have hlt (i t : Nat) (hi : ins.results[i]? = some (some t)) : t < u.size := by
      have hpat := hins.results i t hi
      rw [List.getElem?_eq_getElem (hins.length.symm.trans_ge
        (List.getElem?_eq_some_iff.1 hi).1 : i < ins.node.patterns.length)] at hpat
      exact hu.size_eq ▸ (Array.getElem?_eq_some_iff.1 hpat).1
    have hadd := meet_addTaint (b := b) (c := c)
      (hu.lengths_eq (hwork.clear hblank ins.results)) ins.args marks
    refine Iff.trans ?_ (hadd.trans (or_congr Iff.rfl (hdual b c).symm)).symm
    exact meet_put hcount hins.distinct hlt fun t m hm => (List.mem_replicate.1 hm).2

theorem foldlM_taintReverseStep_spec {instructions : List (Instruction α)}
    (hins : ∀ ins ∈ instructions, ins.Typed f.slots) {u : Array (List (Marked α Taint))}
    (hu : Sized f.slots u) (hwork : Sized f.slots work) :
    ∃ work', instructions.reverse.foldlM f.taintReverseStep work = .ok work' ∧
      Sized f.slots work' ∧ ∀ b c, Meet b c (instructions.foldl effect u).toList work.toList ↔
        Meet b c u.toList work'.toList := by
  induction instructions generalizing u with
  | nil => exact ⟨work, rfl, hwork, fun b c => Iff.rfl⟩
  | cons ins rest ih =>
    have hfirst := hins ins List.mem_cons_self
    obtain ⟨next, hnext, hsized, hmeet⟩ :=
      ih (fun i hi => hins i (List.mem_cons_of_mem _ hi)) (hu.effect hfirst)
    obtain ⟨work', hwork', hsized', hmeet'⟩ := taintReverseStep_spec hfirst hu hsized
    refine ⟨work', ?_, hsized', fun b c => (hmeet b c).trans (hmeet' b c)⟩
    rw [List.reverse_cons, List.foldlM_append, hnext]
    show (f.taintReverseStep next ins >>= pure) = _
    rw [bind_pure, hwork']

/-! ## The reverse sweep -/

/-- The slots carry the marks of the inputs before the first instruction, and no others. -/
theorem Typed.hasMark_start_iff (hf : f.Typed) {seeds : List (List (Marked α Taint))}
    (hseeds : seeds.map List.length = f.inputs.map nnz) {t k : Nat} :
    HasMark b (f.start seeds).toList (t, k) ↔ HasMark b (seeds : List (List Taint)) (t, k) := by
  have hlen : seeds.length = f.inputs.length := by simpa using congrArg List.length hseeds
  have hslots : seeds.length ≤ f.slots.size := by
    by_contra hlt
    obtain ⟨x, hx⟩ : ∃ x, f.inputs[f.slots.size]? = some x :=
      ⟨_, List.getElem?_eq_getElem (by omega)⟩
    exact Nat.lt_irrefl _ (Array.getElem?_eq_some_iff.1 (hf.inputs _ x hx)).1
  have hat : (f.start seeds)[t]? = seeds[t]?.or (f.slots[t]?.map fun p =>
      List.replicate p.nnz (ofNumber (0 : α) : Marked α Taint)) := by
    unfold start storeArgs
    rw [hf.inputSlots, ← hlen, getElem?_foldl_set_range (by simpa using hslots), Array.getElem?_map]
  constructor
  · intro hmark
    obtain ⟨xs, x, hxs, hx, hbit⟩ := hasMark_toList_iff.1 hmark
    replace hxs := hat.symm.trans hxs
    cases hs : seeds[t]? with
    | some ys =>
      rw [hs, Option.some_or] at hxs
      exact hasMark_iff.2 ⟨ys, x, hs, Option.some.inj hxs ▸ hx, hbit⟩
    | none =>
      rw [hs, Option.none_or] at hxs
      obtain ⟨p, -, rfl⟩ := Option.map_eq_some_iff.1 hxs
      have hzero : x = (0 : Taint) := (List.mem_replicate.1 (List.mem_of_getElem? hx)).2
      simp [hzero] at hbit
  · intro hmark
    obtain ⟨xs, x, hxs, hx, hbit⟩ := hasMark_iff.1 hmark
    refine hasMark_toList_iff.2 ⟨xs, x, hat.trans ?_, hx, hbit⟩
    exact congrArg (Option.or · _) hxs

/-- A reverse sweep never fails, and the marks it starts from meet those of a forward sweep exactly
if the marks that it ends with meet those that the forward sweep starts from. -/
theorem Typed.taintReverse_spec (hf : f.Typed) {seeds : List (List Taint)}
    (hseeds : seeds.map List.length = f.outputs.map nnz) :
    ∃ marks, f.taintReverse seeds = .ok marks ∧ marks.map List.length = f.inputs.map nnz ∧
      ∀ starts : List (List (Marked α Taint)), starts.map List.length = f.inputs.map nnz →
        ∀ b c, Meet b c (f.flow (T := Marked α Taint) starts) seeds ↔
          Meet b c (starts : List (List Taint)) marks := by
  have hblank : Sized f.slots f.unmarked := Sized.blank 0
  have hfirst := hblank.addTaint f.outputSlots seeds
  obtain ⟨work, hwork, hsized, -⟩ := foldlM_taintReverseStep_spec hf.instructions
    (Sized.blank (0 : Taint) : Sized f.slots (_ : Array (List (Marked α Taint)))) hfirst
  have hinputs : List.Forall₂ (fun t x => f.slots[t]? = some x.pattern) f.inputSlots f.inputs := by
    rw [hf.inputSlots]
    refine forall₂_of_getElem? List.length_range fun i t x ht hx => ?_
    obtain ⟨hlt, rfl⟩ := List.getElem?_eq_some_iff.1 ht
    rw [List.getElem_range]
    exact hf.inputs i x hx
  refine ⟨buffers work f.inputSlots, ?_, hsized.map_length_buffers hinputs,
    fun starts hstarts b c => ?_⟩
  · have hlen : seeds.length = f.outputs.length := by simpa using congrArg List.length hseeds
    have hfind : (seeds.zip f.outputs).zipIdx.find? (fun s => s.1.1.length ≠ s.1.2.nnz) =
        none := by
      rw [List.find?_eq_none]
      rintro ⟨⟨s, o⟩, i⟩ hmem
      obtain ⟨k, hk⟩ := List.mem_iff_getElem?.1 (List.fst_mem_of_mem_zipIdx hmem)
      obtain ⟨hs, ho⟩ := List.getElem?_zip_eq_some.1 hk
      simpa [hs, ho] using congrArg (·[k]?) hseeds
    unfold taintReverse
    rw [if_neg (not_not.2 hlen), hfind]
    exact congrArg (fun r : Except GraphError (Array (List Taint)) =>
      r >>= fun work => pure (buffers work f.inputSlots)) hwork
  · have hstart := hf.sized_start hstarts
    obtain ⟨work', hwork', -, hmeet⟩ := foldlM_taintReverseStep_spec hf.instructions hstart hfirst
    obtain rfl := Except.ok.inj (hwork.symm.trans hwork')
    have hout := meet_addTaint (b := b) (c := c)
      ((Sized.foldl_effect hf.instructions hstart).lengths_eq hblank) f.outputSlots seeds
    have hnone : ¬ Meet b c (f.instructions.foldl (effect (T := Marked α Taint))
        (f.start starts)).toList f.unmarked.toList := by
      rintro ⟨w, -, hmark⟩
      refine not_hasMark_of_forall_zero (fun xs hxs t ht => ?_) w hmark
      obtain ⟨p, -, rfl⟩ := Array.mem_map.1 (Array.mem_toList_iff.1 hxs)
      exact (List.mem_replicate.1 ht).2
    refine (((hout.trans (or_iff_right hnone)).symm).trans (hmeet b c)).trans ⟨?_, ?_⟩
    · rintro ⟨⟨t, k⟩, hleft, hright⟩
      have hmark := (hf.hasMark_start_iff hstarts).1 hleft
      refine ⟨(t, k), hmark, hasMark_buffers_iff.2 ⟨t, ?_, hright⟩⟩
      obtain ⟨xs, x, hxs, -⟩ := hasMark_iff.1 hmark
      have hlen : starts.length = f.inputs.length := by simpa using congrArg List.length hstarts
      rw [hf.inputSlots]
      exact List.getElem?_range (hlen ▸ (List.getElem?_eq_some_iff.1 hxs).1)
    · rintro ⟨⟨j, k⟩, hleft, hright⟩
      obtain ⟨t, ht, hmark⟩ := hasMark_buffers_iff.1 hright
      rw [hf.inputSlots] at ht
      obtain ⟨hlt, rfl⟩ := List.getElem?_eq_some_iff.1 ht
      rw [List.getElem_range] at hmark
      exact ⟨(j, k), (hf.hasMark_start_iff hstarts).2 hleft, hmark⟩

end Function

/-! ## The two sweeps -/

namespace System

variable {α : Type}

def joinOver (select : Nat × Nat → Bool) (marks : List (List Taint)) : Taint :=
  (marks.zipIdx.flatMap fun (xs, i) => xs.zipIdx.map fun (t, k) =>
    if select (i, k) then t else 0).foldl (· ||| ·) 0

theorem testBit_joinOver {b : Nat} {select : Nat × Nat → Bool} {marks : List (List Taint)} :
    (joinOver select marks).toNat.testBit b = true ↔
      ∃ w, select w = true ∧ HasMark b marks w := by
  rw [joinOver, testBit_foldl_or]
  simp only [UInt64.toNat_zero, Nat.zero_testBit, Bool.false_eq_true, false_or, List.mem_flatMap,
    List.mem_map, Prod.exists]
  constructor
  · rintro ⟨_, ⟨xs, i, hxs, t, k, ht, rfl⟩, hbit⟩
    split at hbit
    · rename_i hsel
      exact ⟨i, k, hsel, hasMark_iff.2 ⟨xs, t, List.mem_zipIdx_iff_getElem?.1 hxs,
        List.mem_zipIdx_iff_getElem?.1 ht, hbit⟩⟩
    · simp at hbit
  · rintro ⟨i, k, hsel, hmark⟩
    obtain ⟨xs, t, hxs, ht, hbit⟩ := hasMark_iff.1 hmark
    exact ⟨t, ⟨xs, i, List.mem_zipIdx_iff_getElem?.2 hxs, t, k, List.mem_zipIdx_iff_getElem?.2 ht,
      if_pos hsel⟩, hbit⟩

theorem hasMark_soleMark {ps : List Pattern} {v w : Nat × Nat} {t : Taint}
    (hv : nonzeroAt (tabulate ps (soleMark v 1)) v = some t) :
    HasMark 0 (tabulate ps (soleMark v 1)) w ↔ w = v := by
  constructor
  · rintro ⟨u, hu, hbit⟩
    by_contra hne
    rw [← eq_of_nonzeroAt_tabulate hu, soleMark, if_neg hne] at hbit
    simp at hbit
  · rintro rfl
    have ht : soleMark w 1 w = t := eq_of_nonzeroAt_tabulate hv
    refine ⟨t, hv, ?_⟩
    rw [← ht, soleMark, if_pos rfl]
    decide

/-- Forward and reverse sweeps are transposes of each other: both join marks over one relation
between the nonzeros of the outputs and those of the inputs. -/
theorem taint_transpose [Scalar α] {S : Set (Expr α)} {f : Function α} (hS : IsDag S)
    (hf : f.CompiledFrom S) : ∃ D : Nat × Nat → Nat × Nat → Bool,
      (∀ seeds, seeds.map List.length = f.inputs.map nnz → ∃ marks,
        f.taintForward seeds = .ok marks ∧ marks.map List.length = f.outputs.map nnz ∧
          ∀ w t, nonzeroAt marks w = some t → t = joinOver (D w) seeds) ∧
      ∀ seeds, seeds.map List.length = f.outputs.map nnz → ∃ marks,
        f.taintReverse seeds = .ok marks ∧ marks.map List.length = f.inputs.map nnz ∧
          ∀ v t, nonzeroAt marks v = some t → t = joinOver (fun w => D w v) seeds := by
  classical
  have htyped := hf.typed hS
  let h := htyped.semantics
  have hbit (b : Nat) {starts : List (List (Marked α Taint))}
      (hstarts : starts.map List.length = f.inputs.map nnz) (w : Nat × Nat) {t : Taint}
      (ht : nonzeroAt (f.flow (T := Marked α Taint) starts) w = some t) :
      t.toNat.testBit b = true ↔ ∃ v ∈ h.sources w, HasMark b (starts : List (List Taint)) v :=
    h.testBit_run b (hstarts.trans f.map_nnz_inputs.symm) ht
  refine ⟨fun w v => v ∈ h.sources w, fun seeds hseeds => ?_, fun seeds hseeds => ?_⟩
  · refine ⟨_, htyped.taintForward_eq_flow hseeds,
      htyped.map_length_flow (T := Marked α Taint) hseeds, fun w t ht => taint_ext fun b => ?_⟩
    rw [hbit b hseeds w ht, testBit_joinOver]
    simp only [decide_eq_true_eq]
  · obtain ⟨marks, hmarks, hlen, hmeet⟩ := htyped.taintReverse_spec hseeds
    refine ⟨marks, hmarks, hlen, fun v t ht => taint_ext fun c => ?_⟩
    -- forwards, a mark on the nonzero alone finds what the nonzero is a source of
    let starts : List (List (Marked α Taint)) := tabulate (f.inputs.map pattern) (soleMark v 1)
    have hstarts : starts.map List.length = f.inputs.map nnz :=
      (map_length_tabulate _ _).trans f.map_nnz_inputs
    obtain ⟨u, hu⟩ := exists_nonzeroAt_of_lengths (hlen.trans hstarts.symm) ht
    have hsole (w : Nat × Nat) : HasMark 0 (starts : List (List Taint)) w ↔ w = v :=
      hasMark_soleMark hu
    have hleft : t.toNat.testBit c = true ↔ Meet 0 c (starts : List (List Taint)) marks := by
      constructor
      · exact fun hc => ⟨v, (hsole v).2 rfl, t, ht, hc⟩
      · rintro ⟨w, hw, t', ht', hc⟩
        obtain rfl := (hsole w).1 hw
        exact Option.some.inj (ht'.symm.trans ht) ▸ hc
    rw [hleft, ← hmeet starts hstarts, testBit_joinOver]
    simp only [decide_eq_true_eq]
    refine exists_congr fun w => and_congr_left fun hw => ⟨?_, fun hv => ?_⟩
    · rintro ⟨u, hu, hmark⟩
      obtain ⟨v', hv', hstart⟩ := (hbit 0 hstarts w hu).1 hmark
      exact (hsole v').1 hstart ▸ hv'
    · obtain ⟨u, hu⟩ := hw.exists_nonzeroAt (hseeds.trans
        (htyped.map_length_flow (T := Marked α Taint) hstarts).symm)
      exact ⟨u, hu, (hbit 0 hstarts w hu).2 ⟨v, hv, (hsole v).2 rfl⟩⟩

/-- The squares of two numbers: every square depends on its own number. -/
theorem taint_transpose_square :
    let x : Expr Rat := .node 0 (.symbol "x") [] (.column 2) []
    let p : Expr Rat := .node 1 (.binary .mul .none) [x, x] (.column 2) []
    ∃ (f : Function Rat) (D : Nat × Nat → Nat × Nat → Bool),
      Function.compile "f" [x] [p] = .ok f ∧
      f.taintForward [[1, 2]] = .ok [[1, 2]] ∧ f.taintReverse [[4, 8]] = .ok [[4, 8]] ∧
      joinOver (D (0, 0)) [[1, 2]] = 1 ∧ joinOver (D (0, 1)) [[1, 2]] = 2 ∧
      joinOver (fun w => D w (0, 0)) [[4, 8]] = 4 ∧
      joinOver (fun w => D w (0, 1)) [[4, 8]] = 8 := by
  intro x p
  obtain ⟨hf, hS, hcompiled⟩ := Function.compile_squares
  let f : Function Rat :=
    ⟨"f", [x], [p], [⟨p, [0, 0], [some 1]⟩], #[.column 2, .column 2], [0], [1]⟩
  have hforward : f.taintForward [[1, 2]] = .ok [[1, 2]] := by cbv
  have hreverse : f.taintReverse [[4, 8]] = .ok [[4, 8]] := by cbv
  obtain ⟨D, hout, hin⟩ := taint_transpose hS.isDag hcompiled.compiledFrom
  obtain ⟨marks, hmarks, -, hjoin⟩ := hout [[1, 2]] rfl
  obtain ⟨marks', hmarks', -, hjoin'⟩ := hin [[4, 8]] rfl
  obtain rfl := Except.ok.inj (hmarks.symm.trans hforward)
  obtain rfl := Except.ok.inj (hmarks'.symm.trans hreverse)
  exact ⟨f, D, hf, hforward, hreverse, (hjoin (0, 0) 1 rfl).symm, (hjoin (0, 1) 2 rfl).symm,
    (hjoin' (0, 0) 4 rfl).symm, (hjoin' (0, 1) 8 rfl).symm⟩

end System

end DiffGraph
