import Mathlib
import DiffGraph.Proofs.Function.Run
import DiffGraph.Proofs.Function.Typing

/-!
# Data flow through the slots

An instruction of a typed function takes the buffers of its operands to those of its
results (`effect`) and leaves every slot as long as its pattern says (`Sized.effect`). So a
run on arguments of the right lengths never fails, and is one effect after the other
(`Typed.run_eq_flow`). Maps between element types commute with it (`flow_map`).
-/

namespace DiffGraph.Function

open Element Expr

variable {α T U : Type}

/-! ## Writing results -/

/-- Stores every result that has a slot. -/
def put (work : Array (List T)) (rs : List (Option Nat)) (vs : List (List T)) :
    Array (List T) :=
  (rs.zip vs).foldl (fun work (r, v) => r.elim work fun t => work.setIfInBounds t v) work

section Put

variable {work : Array (List T)} {rs : List (Option Nat)} {vs : List (List T)} {t i : Nat}
  {v : List T}

/-- Results that nobody reads are not stored, whether they are there or not. -/
theorem store_eq_put (work : Array (List T)) (rs : List (Option Nat)) (vs : List (List T)) :
    store work rs (vs.zipIdx.map fun (v, i) =>
      if (rs[i]?.getD none).isSome then some v else none) = put work rs vs := by
  have hzip : rs.zip vs = (rs.zip vs.zipIdx).map (Prod.map (fun r => r) Prod.fst) := by
    exact (congrArg rs.zip (List.zipIdx_map_fst 0 vs).symm).trans List.zip_map_right
  unfold store put
  rw [hzip, List.zip_map_right, List.foldl_map, List.foldl_map]
  refine List.foldl_ext _ _ _ fun work ⟨r, v, i⟩ hmem => ?_
  obtain ⟨k, hk⟩ := List.mem_iff_getElem?.1 hmem
  obtain ⟨hr, hvi⟩ := List.getElem?_zip_eq_some.1 hk
  have hik : k = i := by
    rw [List.getElem?_zipIdx, Option.map_eq_some_iff] at hvi
    obtain ⟨_, -, heq⟩ := hvi
    simpa using (Prod.mk.inj heq).2
  subst hik
  cases r with
  | none => rfl
  | some t => simp [hr]

theorem put_eq_foldl (work : Array (List T)) (rs : List (Option Nat)) (vs : List (List T)) :
    put work rs vs = ((rs.zip vs).filterMap fun (r, v) => r.map fun t => (t, v)).foldl
      (fun work (t, v) => work.setIfInBounds t v) work :=
  foldl_results_eq (fun v => v) rs vs work

theorem mem_writes_iff : (t, v) ∈ ((rs.zip vs).filterMap fun (r, v) => r.map fun t => (t, v)) ↔
    ∃ i : Nat, rs[i]? = some (some t) ∧ vs[i]? = some v := by
  refine (mem_results_iff (g := fun v => v)).trans ⟨?_, ?_⟩
  · rintro ⟨i, w, hi, hw, rfl⟩
    exact ⟨i, hi, hw⟩
  · rintro ⟨i, hi, hv⟩
    exact ⟨i, v, hi, hv, rfl⟩

theorem getElem?_put_of_result (hdistinct : ∀ i j : Nat, rs[i]? = some (some t) →
    rs[j]? = some (some t) → i = j) (hr : rs[i]? = some (some t)) (hv : vs[i]? = some v)
    (ht : t < work.size) : (put work rs vs)[t]? = some v := by
  rw [put_eq_foldl]
  refine getElem?_foldl_set_of_mem (mem_writes_iff.2 ⟨i, hr, hv⟩) (fun u hu => ?_) ht
  obtain ⟨j, hj, hu⟩ := mem_writes_iff.1 hu
  obtain rfl := hdistinct i j hr hj
  exact Option.some.inj (hu.symm.trans hv)

theorem getElem?_put_of_forall_ne (h : ∀ i : Nat, rs[i]? ≠ some (some t)) :
    (put work rs vs)[t]? = work[t]? := by
  rw [put_eq_foldl]
  refine getElem?_foldl_set_of_not_mem fun u hu => ?_
  obtain ⟨j, hj, -⟩ := mem_writes_iff.1 hu
  exact h j hj

theorem put_map (h : T → U) (work : Array (List T)) (rs : List (Option Nat))
    (vs : List (List T)) :
    put (work.map (List.map h)) rs (vs.map (List.map h)) = (put work rs vs).map (List.map h) := by
  unfold put
  rw [List.zip_map_right, List.foldl_map]
  refine List.foldl_hom (Array.map (List.map h)) fun work ⟨r, v⟩ => ?_
  cases r with
  | none => rfl
  | some t => exact Array.map_setIfInBounds.symm

theorem storeArgs_map (h : T → U) (work : Array (List T)) (slots : List Nat)
    (args : List (List T)) :
    storeArgs (work.map (List.map h)) slots (args.map (List.map h)) =
      (storeArgs work slots args).map (List.map h) := by
  unfold storeArgs
  rw [List.zip_map_right, List.foldl_map]
  exact List.foldl_hom (Array.map (List.map h)) fun work _ => Array.map_setIfInBounds.symm

theorem buffers_map (h : T → U) (work : Array (List T)) (slots : List Nat) :
    buffers (work.map (List.map h)) slots = (buffers work slots).map (List.map h) := by
  unfold buffers
  rw [List.map_map]
  refine List.map_congr_left fun t _ => ?_
  rw [Array.getElem?_map, Function.comp_apply]
  cases work[t]? <;> rfl

end Put

/-! ## The lengths of the slots -/

/-- Every slot holds a buffer of the length of its pattern. -/
def Sized (slots : Array Pattern) (work : Array (List T)) : Prop :=
  work.map List.length = slots.map Pattern.nnz

namespace Sized

variable {slots : Array Pattern} {work : Array (List T)} {t : Nat} {p : Pattern}

theorem size_eq (h : Sized slots work) : work.size = slots.size := by
  simpa using congrArg Array.size h

theorem exists_buffer (h : Sized slots work) (hp : slots[t]? = some p) :
    ∃ v, work[t]? = some v ∧ v.length = p.nnz := by
  have ht := congrArg (·[t]?) h
  simpa [hp] using ht

theorem map_length_buffers (h : Sized slots work) {ts : List Nat} {ds : List (Expr α)}
    (hts : List.Forall₂ (fun t d => slots[t]? = some d.pattern) ts ds) :
    (buffers work ts).map List.length = ds.map nnz := by
  rw [buffers, List.map_map]
  refine map_eq_of_forall₂ (hts.imp fun t d hd => ?_) fun _ _ h => h
  obtain ⟨v, hv, hlen⟩ := h.exists_buffer hd
  rw [Function.comp_apply, hv]
  exact hlen

theorem blank (x : T) : Sized slots (slots.map fun p => List.replicate p.nnz x) := by
  unfold Sized
  rw [Array.map_map]
  exact congrArg (slots.map ·) (funext fun p => List.length_replicate)

theorem set (h : Sized slots work) {v : List T} (hp : slots[t]? = some p) (hv : v.length = p.nnz) :
    Sized slots (work.setIfInBounds t v) := by
  unfold Sized at *
  rw [Array.map_setIfInBounds, h, hv]
  refine Array.ext_getElem? fun u => ?_
  rw [Array.getElem?_setIfInBounds]
  split
  · rename_i htu
    subst htu
    obtain ⟨hlt, rfl⟩ := Array.getElem?_eq_some_iff.1 hp
    simp [hlt]
  · rfl

theorem foldl_set (h : Sized slots work) {pairs : List (Nat × List T)}
    (hpairs : ∀ w ∈ pairs, ∃ p, slots[w.1]? = some p ∧ w.2.length = p.nnz) :
    Sized slots (pairs.foldl (fun work (t, v) => work.setIfInBounds t v) work) := by
  induction pairs generalizing work with
  | nil => exact h
  | cons w pairs ih =>
    obtain ⟨p, hp, hv⟩ := hpairs w List.mem_cons_self
    exact ih (h.set hp hv) fun w hw => hpairs w (List.mem_cons_of_mem _ hw)

theorem storeArgs (h : Sized slots work) {inputs : List (Expr α)} {args : List (List T)}
    (hinputs : ∀ (t : Nat) (x : Expr α), inputs[t]? = some x → slots[t]? = some x.pattern)
    (hargs : args.map List.length = inputs.map nnz) :
    Sized slots (storeArgs work (List.range inputs.length) args) := by
  refine h.foldl_set fun ⟨t, v⟩ hmem => ?_
  obtain ⟨k, hk⟩ := List.mem_iff_getElem?.1 hmem
  obtain ⟨ht, hv⟩ := List.getElem?_zip_eq_some.1 hk
  obtain ⟨hlt, rfl⟩ := List.getElem?_eq_some_iff.1 ht
  rw [List.length_range] at hlt
  rw [List.getElem_range]
  refine ⟨_, hinputs k _ (List.getElem?_eq_getElem hlt), ?_⟩
  have hlen := congrArg (·[k]?) hargs
  simp only [List.getElem?_map, hv, List.getElem?_eq_getElem hlt, Option.map_some] at hlen
  exact Option.some.inj hlen

end Sized

/-! ## Instructions -/

variable [Scalar α] [Element Id α T] [Element Id α U] {ins : Instruction α} {slots : Array Pattern}
  {work : Array (List T)}

def effect (work : Array (List T)) (ins : Instruction α) : Array (List T) :=
  put work ins.results (compute ins.node (buffers work ins.args))

theorem execute_eq_effect (hins : ins.Typed slots) (hwork : Sized slots work) :
    (execute ins work : ExceptT GraphError Id _) = pure (effect work ins) := by
  have heval := hins.wellFormed.evaluate_eq hins.isOperation (hwork.map_length_buffers hins.args)
    fun i => (ins.results[i]?.getD none).isSome
  refine (congrArg (· >>= fun r => pure (store work ins.results r)) heval).trans
    ((pure_bind _ _).trans ?_)
  exact congrArg pure (store_eq_put work ins.results _)

theorem Sized.effect (hwork : Sized slots work) (hins : ins.Typed slots) :
    Sized slots (effect work ins) := by
  have hlen := hins.wellFormed.map_length_compute hins.isOperation
    (hwork.map_length_buffers hins.args)
  unfold Function.effect
  rw [put_eq_foldl]
  refine hwork.foldl_set fun ⟨t, v⟩ hmem => ?_
  obtain ⟨i, hi, hv⟩ := mem_writes_iff.1 hmem
  have hp := hins.results i t hi
  have hat := congrArg (·[i]?) hlen
  simp only [List.getElem?_map, hv, Option.map_some] at hat
  obtain ⟨p, hpat, hlength⟩ := Option.map_eq_some_iff.1 hat.symm
  exact ⟨p, hp.trans hpat, hlength.symm⟩

theorem effect_map {h : T → U} (hh : IsElementMap h) (work : Array (List T))
    (ins : Instruction α) :
    effect (work.map (List.map h)) ins = (effect work ins).map (List.map h) := by
  unfold effect
  rw [buffers_map, hh.compute_map, put_map]

theorem Sized.foldl_effect {instructions : List (Instruction α)}
    (hins : ∀ ins ∈ instructions, ins.Typed slots) (hwork : Sized slots work) :
    Sized slots (instructions.foldl Function.effect work) := by
  induction instructions generalizing work with
  | nil => exact hwork
  | cons ins rest ih =>
    exact ih (fun i hi => hins i (List.mem_cons_of_mem _ hi))
      (hwork.effect (hins ins List.mem_cons_self))

theorem foldlM_execute_eq {instructions : List (Instruction α)}
    (hins : ∀ ins ∈ instructions, ins.Typed slots) (hwork : Sized slots work) :
    (instructions.foldlM (fun work ins => execute ins work) work : ExceptT GraphError Id _) =
      pure (instructions.foldl effect work) := by
  induction instructions generalizing work with
  | nil => rfl
  | cons ins rest ih =>
    have hfirst := hins ins List.mem_cons_self
    rw [List.foldlM_cons, execute_eq_effect hfirst hwork, pure_bind, List.foldl_cons]
    exact ih (fun i hi => hins i (List.mem_cons_of_mem _ hi)) (hwork.effect hfirst)

/-! ## Runs -/

def start (f : Function α) (args : List (List T)) : Array (List T) :=
  storeArgs (f.slots.map fun p => List.replicate p.nnz (ofNumber (0 : α))) f.inputSlots args

def flow (f : Function α) (args : List (List T)) : List (List T) :=
  buffers (f.instructions.foldl effect (f.start args)) f.outputSlots

theorem flow_map {h : T → U} (hh : IsElementMap h) (f : Function α) (args : List (List T)) :
    f.flow (args.map (List.map h)) = (f.flow args).map (List.map h) := by
  have hblank : f.slots.map (fun p => List.replicate p.nnz (ofNumber (0 : α) : U)) =
      (f.slots.map fun p => List.replicate p.nnz (ofNumber (0 : α) : T)).map (List.map h) := by
    rw [Array.map_map]
    refine congrArg (f.slots.map ·) (funext fun p => ?_)
    rw [Function.comp_apply, List.map_replicate, hh.ofNumber]
  unfold flow start
  rw [hblank, storeArgs_map, List.foldl_hom _ (effect_map hh), buffers_map]

variable {f : Function α} {args : List (List T)}

theorem Typed.sized_start (hf : f.Typed) (hargs : args.map List.length = f.inputs.map nnz) :
    Sized f.slots (f.start args) := by
  unfold start
  rw [hf.inputSlots]
  exact (Sized.blank _).storeArgs hf.inputs hargs

theorem Typed.map_length_flow (hf : f.Typed) (hargs : args.map List.length = f.inputs.map nnz) :
    (f.flow args).map List.length = f.outputs.map nnz :=
  (Sized.foldl_effect hf.instructions (hf.sized_start hargs)).map_length_buffers hf.outputs

/-- A run of a typed function on arguments of the declared lengths never fails. -/
theorem Typed.run_eq_flow (hf : f.Typed) (hargs : args.map List.length = f.inputs.map nnz) :
    (f.run args : ExceptT GraphError Id _) = pure (f.flow args) := by
  have hsteps := foldlM_execute_eq hf.instructions (hf.sized_start hargs)
  unfold run
  rw [checkLengths_eq_ok hargs]
  exact (congrArg (· >>= fun work => pure (buffers work f.outputSlots)) hsteps).trans
    (pure_bind _ _)

end DiffGraph.Function
