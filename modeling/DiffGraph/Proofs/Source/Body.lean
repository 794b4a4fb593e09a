import Mathlib
import DiffGraph.Decimal.Reading
import DiffGraph.Decimal.Text
import DiffGraph.Proofs.Derivative.Slots
import DiffGraph.Proofs.Source.Node

/-!
# The body of a generated function

After the statements of every instruction the arrays of the results computed so
far begin with their values (`Mirrors`): the invariant of a run of the
instructions on slots, on the memory of the generated code. So the statements of
a compiled function never fail and leave in the results what evaluation returns.
-/

namespace DiffGraph

open Element Expr Function

namespace Source

variable {α : Type}

/-! ## The arrays of slots -/

theorem slotArray_injective {s t : Nat} (h : slotArray s = slotArray t) : s = t := by
  have hchars := congrArg String.toList h
  simp only [slotArray, String.toList_append] at hchars
  exact Nat.repr_injective (String.toList_inj.1 (List.append_cancel_left hchars))

theorem slotArray_ne_zero (s : Nat) : slotArray s ≠ "0" := by
  intro h
  have hchars := congrArg String.toList h
  simp only [slotArray, String.toList_append] at hchars
  have hcons : 'w' :: (toString s).toList = ['0'] := hchars
  exact absurd (List.cons.inj hcons).1 (by decide)

def Memory.start (f : Function α) (pointers : Pointers α) : Memory α
  | .work array =>
    ((declared f).find? fun d => d.1 = array).map fun d => List.replicate d.2 none
  | .result k => pointers.results[k]?.join

theorem mem_declared {f : Function α} {array : String} {size : Nat} :
    (array, size) ∈ declared f ↔
      ∃ s p, f.slots[s]? = some p ∧ array = slotArray s ∧ size = max p.nnz 1 := by
  rw [declared, List.mem_map]
  constructor
  · rintro ⟨⟨p, s⟩, hmem, heq⟩
    obtain ⟨rfl, rfl⟩ := Prod.mk.inj heq
    exact ⟨s, p, by simpa using List.mem_zipIdx_iff_getElem?.1 hmem, rfl, rfl⟩
  · rintro ⟨s, p, hp, rfl, rfl⟩
    exact ⟨(p, s), List.mem_zipIdx_iff_getElem?.2 (by simpa using hp), rfl⟩

theorem Memory.length?_start {f : Function α} {pointers : Pointers α} {array : String} {size : Nat}
    (h : (array, size) ∈ declared f) :
    (Memory.start f pointers).length? (.work array) = some size := by
  obtain ⟨⟨array', size'⟩, hfind⟩ := Option.isSome_iff_exists.1
    (List.find?_isSome.2 ⟨_, h, decide_eq_true rfl⟩ :
      ((declared f).find? fun d => d.1 = array).isSome = true)
  obtain ⟨s, p, hp, rfl, rfl⟩ := mem_declared.1 h
  obtain ⟨t, q, hq, rfl, rfl⟩ := mem_declared.1 (List.mem_of_find?_eq_some hfind)
  have harray : slotArray t = slotArray s := by simpa using List.find?_some hfind
  obtain rfl := slotArray_injective harray
  obtain rfl := Option.some.inj (hp.symm.trans hq)
  simp [Memory.length?, Memory.start, hfind]

theorem Memory.start_hasRoom {f : Function α} {pointers : Pointers α} {s : Nat} {p : Pattern}
    (h : f.slots[s]? = some p) :
    (Memory.start f pointers).HasRoom (.work (slotArray s)) p.nnz :=
  ⟨_, Memory.length?_start (mem_declared.2 ⟨s, p, h, rfl, rfl⟩), Nat.le_max_left _ _⟩

/-- The results of an instruction with the arrays that they are assigned to. -/
def written (slots : List (Option Nat)) (results : List (List α)) : List (Place × List α) :=
  ((slots.zip results).filterMap fun (r, v) => r.map fun s => (s, v)).map
    fun (s, v) => (.work (slotArray s), v)

theorem mem_written {slots : List (Option Nat)} {results : List (List α)} {p : Place}
    {v : List α} :
    (p, v) ∈ written slots results ↔ ∃ (i s : Nat), slots[i]? = some (some s) ∧
      results[i]? = some v ∧ p = .work (slotArray s) := by
  rw [written, List.mem_map]
  constructor
  · rintro ⟨⟨s, v⟩, hmem, heq⟩
    obtain ⟨rfl, rfl⟩ := Prod.mk.inj heq
    obtain ⟨i, v, hslot, hv, rfl⟩ := (mem_results_iff (g := fun v => v)).1 hmem
    exact ⟨i, s, hslot, hv, rfl⟩
  · rintro ⟨i, s, hslot, hv, rfl⟩
    exact ⟨(s, v), (mem_results_iff (g := fun v => v)).2 ⟨i, v, hslot, hv, rfl⟩, rfl⟩

theorem map_filter_names (slots : List (Option Nat)) (results : List (List α)) :
    (((slots.map fun r => r.elim "0" slotArray).zip results).filter fun w => w.1 ≠ "0").map
      (fun (r, v) => (Place.work r, v)) = written slots results := by
  induction slots generalizing results with
  | nil => rfl
  | cons slot slots ih =>
    cases results with
    | nil => rfl
    | cons v results =>
      cases slot with
      | none => exact ih results
      | some s =>
        rw [List.map_cons, List.zip_cons_cons, List.filter_cons_of_pos]
        · exact congrArg (List.cons _) (ih results)
        · exact decide_eq_true (slotArray_ne_zero s)

variable {pointers : Pointers α} {m : Memory α} {f : Function α} {n : Nat} {S : Set (Expr α)}
  {slot : Expr α × Nat → Nat} {done rest : List (Instruction α)} {ins : Instruction α}

/-! ## Inputs and outputs -/

section Ports

variable (hf : f.Layout S slot) {s i k : Nat}

include hf

theorem exists_input (hmem : (s, i) ∈ f.inputSlots.zipIdx) :
    s = i ∧ ∃ x, f.inputs[i]? = some x ∧ slotSize f s = x.nnz := by
  have hget := List.mem_zipIdx_iff_getElem?.1 hmem
  rw [hf.inputSlots] at hget
  obtain ⟨hlt, rfl⟩ : i < f.inputs.length ∧ i = s := by
    simpa [List.getElem?_eq_some_iff] using hget
  refine ⟨rfl, _, List.getElem?_eq_getElem hlt, ?_⟩
  rw [slotSize, hf.inputPatterns i _ (List.getElem?_eq_getElem hlt)]
  rfl

theorem exists_output (hS : IsGraph n S) (hmem : (s, k) ∈ f.outputSlots.zipIdx) :
    ∃ o, f.outputs[k]? = some o ∧ s = slot o.source ∧ slotSize f s = o.nnz := by
  have hget := List.mem_zipIdx_iff_getElem?.1 hmem
  rw [hf.outputSlots] at hget
  obtain ⟨o, ho, hs⟩ := Option.map_eq_some_iff.1 (List.getElem?_map.symm.trans hget)
  obtain rfl : slot o.source = s := hs
  refine ⟨o, ho, rfl, ?_⟩
  have hoS := (hf.outputs o (List.mem_of_getElem? ho)).1
  rw [slotSize, hf.getElem?_slots (hS.source_spec hoS), ← hS.pattern_eq_source hoS]
  rfl

end Ports

/-- The caller hands over arrays that fit the function: as many numbers as an input has nonzeros,
and room for those of an output. -/
structure Pointers.Fits (pointers : Pointers α) (f : Function α) : Prop where
  args : List.Forall₂ (fun a x => ∀ xs ∈ a, xs.length = x.nnz) pointers.args f.inputs
  results : List.Forall₂ (fun r o => ∀ ys ∈ r, o.nnz ≤ ys.length) pointers.results f.outputs

variable [Scalar α] {env : Nat → Nat → α}

/-- The arguments that the pointers stand for; a null pointer stands for zeros. -/
def Pointers.arguments (pointers : Pointers α) (f : Function α) : List (List α) :=
  List.zipWith (fun a x => a.getD (List.replicate x.nnz 0)) pointers.args f.inputs

namespace Pointers.Fits

theorem exists_argument (h : pointers.Fits f) {i : Nat} {x : Expr α}
    (hx : f.inputs[i]? = some x) : ∃ a, pointers.args[i]? = some a ∧
      (∀ xs ∈ a, xs.length = x.nnz) ∧
      (pointers.arguments f)[i]? = some (a.getD (List.replicate x.nnz 0)) := by
  obtain ⟨a, ha, hlen⟩ := exists_of_forall₂ h.args hx
  refine ⟨a, ha, hlen, ?_⟩
  rw [Pointers.arguments, List.getElem?_zipWith, ha, hx]

theorem map_length_arguments (h : pointers.Fits f) :
    (pointers.arguments f).map List.length = f.inputs.map nnz := by
  refine List.ext_getElem? fun i => ?_
  rw [List.getElem?_map, List.getElem?_map]
  cases hx : f.inputs[i]? with
  | none => simp [Pointers.arguments, List.getElem?_zipWith, hx]
  | some x =>
    obtain ⟨a, -, hlen, hi⟩ := h.exists_argument hx
    rw [hi]
    cases a with
    | none => simp
    | some xs => simp [hlen]

end Pointers.Fits

def Pointers.loaded (pointers : Pointers α) (f : Function α) (b : Nat × Nat) : Place × List α :=
  (.work (slotArray b.1), (pointers.arguments f)[b.2]?.getD [])

/-- The nonzeros of an output with the array that they are stored to; none for a null pointer. -/
def Pointers.stored (pointers : Pointers α) (outs : List (List α)) (b : Nat × Nat) :
    Place × List α :=
  (.result b.2, pointers.results[b.2]?.join.elim [] fun _ => outs[b.2]?.getD [])

/-! ## The memory between the instructions -/

/-- The memory after the instructions `done`: room in the arrays of all slots, the values of the
results that are ready, and the caller's arrays as they were. -/
structure Mirrors (f : Function α) (pointers : Pointers α) (S : Set (Expr α))
    (slot : Expr α × Nat → Nat) (env : Nat → Nat → α) (done : List (Instruction α))
    (m : Memory α) : Prop where
  room : ∀ (s : Nat) (p : Pattern), f.slots[s]? = some p → m.HasRoom (.work (slotArray s)) p.nnz
  ready : ∀ s, IsResult S s → Ready slot done s →
    m.Contains (.work (slotArray (slot s))) (result env s)
  results : ∀ k, m (.result k) = pointers.results[k]?.join

namespace Mirrors

theorem contains (h : Mirrors f pointers S slot env done m) (hS : IsGraph n S) {d : Expr α}
    (hd : d ∈ S) (hready : Ready slot done d.source) :
    m.Contains (.work (slotArray (slot d.source))) (nonzeros env d) := by
  rw [hS.nonzeros_eq_source hd]
  exact h.ready _ (hS.source_spec hd) hready

theorem hasRoom (h : Mirrors f pointers S slot env done m) (hf : f.Layout S slot)
    {s : Expr α × Nat} (hs : IsResult S s) :
    m.HasRoom (.work (slotArray (slot s))) (sourcePattern s).nnz :=
  h.room _ _ (hf.getElem?_slots hs)

/-- The results of an instruction are ready once they are assigned, and nothing else changes. -/
theorem fillAll_written (h : Mirrors f pointers S slot env done m) (hf : f.Layout S slot)
    (hS : IsGraph n S) (hsplit : f.instructions = done ++ ins :: rest) :
    Mirrors f pointers S slot env (done ++ [ins])
      (m.fillAll (written ins.results (values env ins.node))) := by
  have hfits := hf.fits done ins rest hsplit
  have hvalue {i : Nat} (hi : i < ins.node.resultCount) :
      (values env ins.node)[i]? = some (result env (ins.node, i)) :=
    hS.getElem?_values hfits.mem hi
  refine ⟨fun s p hp => (h.room s p hp).fillAll, fun s hs hready => ?_, fun k => ?_⟩
  · by_cases hwritten : ∃ i : Nat, ins.results[i]? = some (some (slot s))
    · obtain ⟨i, hi⟩ := hwritten
      obtain rfl := hf.eq_of_results hsplit hs hi
      have hroom := h.hasRoom hf hs
      have hlen : (result env (ins.node, i)).length = (sourcePattern (ins.node, i)).nnz :=
        hS.length_result hfits.mem hs.2.2
      rw [← hlen] at hroom
      refine hroom.contains_fillAll (mem_written.2 ⟨i, _, hi, hvalue hs.2.2, rfl⟩) fun v hv => ?_
      obtain ⟨k, t, hk, hv, heq⟩ := mem_written.1 hv
      obtain rfl := slotArray_injective (Place.work.inj heq)
      obtain rfl := (Prod.mk.inj (hf.eq_of_results hsplit hs hk)).2
      exact Option.some.inj (hv.symm.trans (hvalue hs.2.2))
    · have hold : Ready slot done s :=
        (ready_concat.1 hready).resolve_right fun hnew => hwritten ⟨_, hnew.2⟩
      refine (h.ready s hs hold).congr (Memory.fillAll_of_forall_ne ?_)
      rintro ⟨p, v⟩ hmem rfl
      obtain ⟨i, t, hi, -, heq⟩ := mem_written.1 hmem
      obtain rfl := slotArray_injective (Place.work.inj heq)
      exact hwritten ⟨i, hi⟩
  · rw [Memory.fillAll_of_forall_ne, h.results]
    rintro ⟨p, v⟩ hmem rfl
    obtain ⟨-, s, -, -, heq⟩ := mem_written.1 hmem
    cases heq

theorem fillAll_stored (h : Mirrors f pointers S slot env f.instructions m)
    (hp : pointers.Fits f) (hf : f.Layout S slot) (hS : IsGraph n S) {k : Nat} {o : Expr α}
    (ho : f.outputs[k]? = some o) :
    m.fillAll (f.outputSlots.zipIdx.map (pointers.stored (f.outputs.map (nonzeros env))))
        (.result k) =
      pointers.results[k]?.join.map fun ys => (nonzeros env o).map some ++ ys.drop o.nnz := by
  set parts := f.outputSlots.zipIdx.map (pointers.stored (f.outputs.map (nonzeros env))) with hparts
  have hmem : pointers.stored (f.outputs.map (nonzeros env)) (slot o.source, k) ∈ parts := by
    refine List.mem_map_of_mem (List.mem_zipIdx_iff_getElem?.2 ?_)
    rw [hf.outputSlots, List.getElem?_map, ho, Option.map_some]
  have hplaces : parts.map Prod.fst = (f.outputSlots.zipIdx.map Prod.snd).map .result := by
    rw [hparts, List.map_map, List.map_map]
    rfl
  have hnodup : (parts.map Prod.fst).Nodup := by
    rw [hplaces, List.zipIdx_map_snd]
    exact List.Nodup.map (fun _ _ h => Place.result.inj h) List.nodup_range'
  obtain ⟨target, htarget, hroom⟩ := exists_of_forall₂ hp.results ho
  have hlen : (nonzeros env o).length = o.nnz :=
    hS.length_nonzeros (hf.outputs o (List.mem_of_getElem? ho)).1
  have hbefore := h.results k
  rw [Memory.fillAll_of_mem hnodup hmem]
  cases target with
  | none => simpa [htarget, Memory.fill] using hbefore
  | some ys =>
    rw [htarget] at hbefore ⊢
    simp only [List.getElem?_map, ho, ← hlen]
    exact Memory.fill_self hbefore (hlen ▸ hroom ys rfl)

end Mirrors

/-- The symbols are ready once the arguments are loaded. -/
theorem mirrors_loaded (hp : pointers.Fits f) (hf : f.Layout S slot) (hS : IsGraph n S) :
    Mirrors f pointers S slot (assign f.inputs (pointers.arguments f)) []
      ((Memory.start f pointers).fillAll (f.inputSlots.zipIdx.map (pointers.loaded f))) := by
  refine ⟨fun s p hp => (Memory.start_hasRoom hp).fillAll, ?_, fun k => ?_⟩
  · rintro ⟨e, i⟩ ⟨he, -, -⟩ (⟨hsym, hi⟩ | ⟨ins, hins, -⟩)
    · obtain rfl : i = 0 := hi
      obtain ⟨-, -, hlast⟩ := hf.input e (hf.symbols e he hsym)
      obtain ⟨_, -, -, ha⟩ := hp.exists_argument hlast.1
      have hvalue := nonzeros_assign hS (fun x hx => (hf.input x hx).1) hp.map_length_arguments
        hlast hsym ha
      have hlen : (nonzeros (assign f.inputs (pointers.arguments f)) e).length = e.pattern.nnz :=
        hS.length_nonzeros he
      have hroom : (Memory.start f pointers).HasRoom (.work (slotArray (slot (e, 0))))
          e.pattern.nnz := Memory.start_hasRoom (hf.inputPatterns _ e hlast.1)
      rw [← nonzeros_eq_result]
      rw [← hlen] at hroom
      rw [← hvalue] at ha
      refine hroom.contains_fillAll (List.mem_map.2 ⟨(slot (e, 0), slot (e, 0)), ?_, ?_⟩) ?_
      · rw [hf.inputSlots, List.mem_zipIdx_iff_getElem?]
        exact List.getElem?_range (List.getElem?_eq_some_iff.1 hlast.1).1
      · simp only [Pointers.loaded, ha, Option.getD_some]
      · intro ys hys
        obtain ⟨⟨s, t⟩, hmem, heq⟩ := List.mem_map.1 hys
        obtain ⟨hplace, rfl⟩ := Prod.mk.inj heq
        obtain rfl := (exists_input hf hmem).1
        obtain rfl := slotArray_injective (Place.work.inj hplace)
        rw [ha, Option.getD_some]
    · cases hins
  · rw [Memory.fillAll_of_forall_ne]
    · rfl
    · intro w hw heq
      obtain ⟨b, -, rfl⟩ := List.mem_map.1 hw
      cases heq

/-! ## Runs -/

variable [Numeral α] {literal : String → Option α}

/-- Whatever has run, the arrays have the sizes of their declarations: these are the bounds that a
run keeps to. -/
theorem length?_of_declared {statements : List (Statement α)} {array : String} {size : Nat}
    (hrun : runAll literal pointers statements (Memory.start f pointers) = some m)
    (h : (array, size) ∈ declared f) : m.length? (.work array) = some size :=
  (length?_runAll hrun).trans (Memory.length?_start h)

/-- The statements of an instruction assign the results of its node to their arrays. -/
theorem run_ofInstruction {xs : List (List α)} (hwf : ins.node.WellFormed)
    (ho : ins.node.isOperation = true) (hcount : ins.results.length = ins.node.resultCount)
    (hsingle : ins.node.op.isSplit = false → ∃ s, ins.results = [some s])
    (hargs : List.Forall₂ (fun s x => m.Contains (.work (slotArray s)) x) ins.args xs)
    (hlen : xs.map List.length = ins.node.deps.map nnz)
    (hresults : ∀ (i s : Nat) (p : Pattern), ins.results[i]? = some (some s) →
      ins.node.patterns[i]? = some p → s ∉ ins.args ∧ m.HasRoom (.work (slotArray s)) p.nnz)
    (hread : ReadsConstants literal ins.node) :
    runAll literal pointers (ofInstruction ins) m =
      some (m.fillAll (written ins.results (compute ins.node xs))) := by
  obtain ⟨e, args, results⟩ := ins
  dsimp only at *
  by_cases hs : e.op.isSplit = true
  · have hnames (i : Nat) (r : String) (p : Pattern)
        (hr : (results.map fun r => r.elim "0" slotArray)[i]? = some r) (hne : r ≠ "0")
        (hp : e.patterns[i]? = some p) :
        r ∉ args.map slotArray ∧ m.HasRoom (.work r) p.nnz := by
      obtain ⟨slot, hslot, rfl⟩ := Option.map_eq_some_iff.1 (List.getElem?_map.symm.trans hr)
      cases slot with
      | none => exact absurd rfl hne
      | some s =>
        obtain ⟨hfresh, hroom⟩ := hresults i s p hslot hp
        refine ⟨fun hmem => ?_, hroom⟩
        obtain ⟨t, ht, heq⟩ := List.mem_map.1 hmem
        exact hfresh (slotArray_injective heq ▸ ht)
    obtain ⟨ss, hcode, hrun⟩ := run_ofNode_split literal pointers hwf hs
      (List.forall₂_map_left_iff.2 hargs) hlen ((List.length_map _).trans hcount) hnames
    have hbody : ofInstruction ⟨e, args, results⟩ = ss := congrArg (·.getD []) hcode
    rw [hbody, hrun, map_filter_names]
  · have hs : e.op.isSplit = false := by simpa using hs
    obtain ⟨s, rfl⟩ := hsingle hs
    obtain ⟨ps, hps⟩ := e.exists_patterns
    obtain ⟨hfresh, hroom⟩ := hresults 0 s e.pattern rfl (by rw [hps]; rfl)
    have hoperands : Operands m (slotArray s) (args.map slotArray) xs := by
      refine List.forall₂_map_left_iff.2 ((List.forall₂_and_left _ _).2 ⟨fun t ht heq => ?_, hargs⟩)
      exact hfresh (slotArray_injective heq ▸ ht)
    obtain ⟨ss, v, hcode, hv, hrun⟩ := run_ofNode_single pointers hwf ho hs hoperands
      hlen hroom hread
    have hbody : ofInstruction ⟨e, args, [some s]⟩ = ss := congrArg (·.getD []) hcode
    rw [hbody, hv]
    exact hrun

theorem run_loads (hp : pointers.Fits f) (hf : f.Layout S slot) :
    runAll literal pointers (f.inputSlots.zipIdx.map fun (s, i) =>
        .load (slotSize f s) (slotArray s) i) (Memory.start f pointers) =
      some ((Memory.start f pointers).fillAll (f.inputSlots.zipIdx.map (pointers.loaded f))) := by
  refine runAll_fills (P := fun m => ∀ (s : Nat) (p : Pattern), f.slots[s]? = some p →
    m.HasRoom (.work (slotArray s)) p.nnz) ?_ fun s p hp => Memory.start_hasRoom hp
  rintro ⟨s, i⟩ hmem m hm
  obtain ⟨rfl, x, hx, hsize⟩ := exists_input hf hmem
  obtain ⟨a, ha, hlen, hi⟩ := hp.exists_argument hx
  have hroom : m.HasRoom (.work (slotArray s)) (slotSize f s) :=
    hsize ▸ hm s _ (hf.inputPatterns s x hx)
  refine ⟨(run_load ha (hsize ▸ hlen) hroom).trans ?_, fun t q hq => (hm t q hq).fill⟩
  simp only [Pointers.loaded, hi, hsize, Option.getD_some]

namespace Mirrors

theorem run_ofInstruction (h : Mirrors f pointers S slot env done m) (hf : f.Layout S slot)
    (hS : IsGraph n S) (hsplit : f.instructions = done ++ ins :: rest)
    (hread : ReadsConstants literal ins.node) :
    runAll literal pointers (ofInstruction ins) m =
      some (m.fillAll (written ins.results (values env ins.node))) := by
  have hfits := hf.fits done ins rest hsplit
  have hargs : List.Forall₂ (fun s x => m.Contains (.work (slotArray s)) x) ins.args
      (ins.node.deps.map (nonzeros env)) := by
    rw [hfits.args, List.forall₂_map_left_iff, List.forall₂_map_right_iff, List.forall₂_same]
    exact fun d hd => h.contains hS (hS.closed _ hfits.mem d hd) (hfits.ready d hd)
  have hresults (i s : Nat) (p : Pattern) (hs : ins.results[i]? = some (some s))
      (hp : ins.node.patterns[i]? = some p) :
      s ∉ ins.args ∧ m.HasRoom (.work (slotArray s)) p.nnz := by
    have hresult := hf.isResult_node hsplit (List.getElem?_eq_some_iff.1 hp).1
    obtain rfl := hfits.results i s hs
    refine ⟨fun hmem => ?_, eq_sourcePattern hp ▸ h.hasRoom hf hresult⟩
    -- an operand that is ready is no result of the instruction
    rw [hfits.args] at hmem
    obtain ⟨d, hd, heq⟩ := List.mem_map.1 hmem
    have hsame := hf.eq_of_slot (hS.source_spec (hS.closed _ hfits.mem d hd)) hresult heq
    exact hf.not_ready hsplit i (hsame ▸ hfits.ready d hd)
  rw [hS.values_eq_compute hfits.mem hfits.isOperation]
  exact Source.run_ofInstruction (hS.wellFormed _ hfits.mem) hfits.isOperation hfits.length
    (fun hs => ⟨_, hfits.single hs⟩) hargs (hS.map_length_operands hfits.mem) hresults hread

theorem run_instructions (h : Mirrors f pointers S slot env done m) (hf : f.Layout S slot)
    (hS : IsGraph n S) (hsplit : f.instructions = done ++ rest)
    (hread : ∀ ins ∈ f.instructions, ReadsConstants literal ins.node) :
    ∃ m', runAll literal pointers (rest.flatMap ofInstruction) m = some m' ∧
      Mirrors f pointers S slot env f.instructions m' := by
  induction rest generalizing done m with
  | nil => exact ⟨m, rfl, by rwa [hsplit, List.append_nil]⟩
  | cons ins rest ih =>
    have hfirst := h.run_ofInstruction hf hS hsplit (hread ins (by simp [hsplit]))
    obtain ⟨m', hrun, hmirrors⟩ := ih (h.fillAll_written hf hS hsplit) (by simpa using hsplit)
    refine ⟨m', ?_, hmirrors⟩
    rw [List.flatMap_cons, runAll_append hfirst, hrun]

variable (literal) in
theorem run_stores (h : Mirrors f pointers S slot env f.instructions m)
    (hp : pointers.Fits f) (hf : f.Layout S slot) (hS : IsGraph n S) :
    runAll literal pointers (f.outputSlots.zipIdx.map fun (s, k) =>
        .store (slotSize f s) (slotArray s) k) m =
      some (m.fillAll (f.outputSlots.zipIdx.map
        (pointers.stored (f.outputs.map (nonzeros env))))) := by
  refine runAll_fills (P := fun m =>
    (∀ o ∈ f.outputs, m.Contains (.work (slotArray (slot o.source))) (nonzeros env o)) ∧
      ∀ (k : Nat) (o : Expr α) (ys : List (Option α)), f.outputs[k]? = some o →
        pointers.results[k]? = some (some ys) → m.HasRoom (.result k) o.nnz) ?_ ⟨?_, ?_⟩
  · rintro ⟨s, k⟩ hmem m ⟨hvalues, hroom⟩
    obtain ⟨o, ho, rfl, hsize⟩ := exists_output hf hS hmem
    obtain ⟨target, htarget, -⟩ := exists_of_forall₂ hp.results ho
    have hmem := List.mem_of_getElem? ho
    have hlen : (nonzeros env o).length = slotSize f (slot o.source) :=
      (hS.length_nonzeros (hf.outputs o hmem).1).trans hsize.symm
    refine ⟨(run_store htarget (hvalues o hmem) hlen fun hsome => ?_).trans ?_, ?_, ?_⟩
    · obtain ⟨ys, rfl⟩ := Option.isSome_iff_exists.1 hsome
      exact hsize ▸ hroom k o ys ho htarget
    · simp [Pointers.stored, htarget, ho]
    · exact fun o ho => (hvalues o ho).congr (Memory.fill_of_ne (by simp [Pointers.stored]))
    · exact fun k o ys ho hys => (hroom k o ys ho hys).fill
  · exact fun o ho => h.contains hS (hf.outputs o ho).1 (hf.outputs o ho).2.2
  · intro k o ys ho hys
    obtain ⟨target, htarget, hlen⟩ := exists_of_forall₂ hp.results ho
    obtain rfl := Option.some.inj (htarget.symm.trans hys)
    refine ⟨ys.length, ?_, hlen ys rfl⟩
    rw [Memory.length?, h.results, hys]
    rfl

end Mirrors

/-- The statements of a compiled function agree with its evaluation. Whatever arrays and null
pointers of the declared sizes they are called with, they never leave an array and never read an
element without a value, every array keeps its declared size, and the nonzeros of every output
stand at the beginning of the array for it. -/
theorem run_ofFunction (hS : IsGraph n S) (h : f.Compiled S)
    (hread : ∀ ins ∈ f.instructions, ReadsConstants literal ins.node) (hp : pointers.Fits f) :
    ∃ outs m, f.evaluate (pointers.arguments f) = .ok outs ∧ outs.length = f.outputs.length ∧
      runAll literal pointers (ofFunction f) (Memory.start f pointers) = some m ∧
      (∀ array size, (array, size) ∈ declared f → m.length? (.work array) = some size) ∧
      ∀ (k : Nat) (out : List α), outs[k]? = some out → m (.result k) =
        pointers.results[k]?.join.map fun ys => out.map some ++ ys.drop out.length := by
  obtain ⟨hgraph, slot, hlayout⟩ := h.exists_layout hS
  obtain ⟨m, hbody, hmirrors⟩ := (mirrors_loaded hp hlayout hgraph).run_instructions hlayout hgraph
    (List.nil_append _).symm hread
  have hrun := hmirrors.run_stores literal hp hlayout hgraph
  rw [← runAll_append ((runAll_append (run_loads hp hlayout)).trans hbody)] at hrun
  refine ⟨_, _, run_eq hlayout hgraph hp.map_length_arguments, List.length_map _, hrun,
    fun _ _ => length?_of_declared hrun, fun k out hout => ?_⟩
  obtain ⟨o, ho, rfl⟩ := Option.map_eq_some_iff.1 (List.getElem?_map.symm.trans hout)
  rw [hmirrors.fillAll_stored hp hlayout hgraph ho,
    hgraph.length_nonzeros (hlayout.outputs o (List.mem_of_getElem? ho)).1]

/-- The half of one argument and a null pointer for the other one. -/
theorem run_ofFunction_scaled :
    let x : Expr Float := .node 0 (.symbol "x") [] (.column 2) []
    let y : Expr Float := .node 1 (.symbol "y") [] (.column 2) []
    let c : Expr Float := .node 2 (.constant [0.5]) [] .scalar []
    let p : Expr Float := .node 3 (.binary .mul .left) [c, x] (.column 2) []
    let s : Expr Float := .node 4 (.binary .add .none) [p, y] (.column 2) []
    let literal (text : String) : Option Float :=
      (Decimal.read? text.toList).map fun d => OrderedScalar.ofDecimal d.digits d.exponent
    let pointers : Pointers Float := ⟨[some [3, 4], none], [some [none, none, none]]⟩
    ∃ f m, compile "f" [x, y] [s] = .ok f ∧ f.evaluate [[3, 4], [0, 0]] = .ok [[1.5, 2]] ∧
      runAll literal pointers (ofFunction f) (Memory.start f pointers) = some m ∧
      m (.result 0) = some [some 1.5, some 2, none] := by
  intro x y c p s literal pointers
  have hx : Built 1 [x] := .symbol "x" _ .start
  have hy : Built 2 [y, x] := .symbol "y" _ hx
  have hc : Built 3 [c, y, x] :=
    .make (.constant [0.5] .scalar) hy (by simp [Construction.operands]) rfl
  have hp : Built 4 [p, c, y, x] :=
    .make (.binary .mul c x) hc (by simp [Construction.operands]) rfl
  have hG : Built 5 [s, p, c, y, x] :=
    .make (.binary .add p y) hp (by simp [Construction.operands]) rfl
  let f : Function Float := ⟨"f", [x, y], [s],
    [⟨c, [], [some 2]⟩, ⟨p, [2, 0], [some 3]⟩, ⟨s, [3, 1], [some 4]⟩],
    #[.column 2, .column 2, .scalar, .column 2, .column 2], [0, 1], [4]⟩
  have hf : compile "f" [x, y] [s] = .ok f := by
    simp [compile, placeInputs, x, y, c, p, s, f, isSymbol, name?, Expr.op, bind, Except.bind, pure,
      Except.pure, Sorter.visitAll, Sorter.visit, Sorter.addInput, Sorter.allocate, Sorter.empty,
      Sorter.place, patterns, deps, Expr.id, resultCount, Sorter.slotFor, Sorter.slotsFor,
      Std.HashMap.getElem_insert, List.findIdx?_cons]
    rfl
  obtain ⟨hS, hcompiled⟩ := compiled_of_built hG (by simp) (by simp) hf
  have hread : ∀ ins ∈ f.instructions, ReadsConstants literal ins.node := by
    intro ins hins nz hop a ha
    obtain rfl : nz = [0.5] := by
      rcases List.mem_cons.1 hins with rfl | hins
      · exact (Op.constant.inj hop).symm
      · rcases List.mem_cons.1 hins with rfl | hins
        · cases hop
        · obtain rfl := List.mem_singleton.1 hins
          cases hop
    obtain rfl := List.mem_singleton.1 ha
    have htext : Numeral.marked (0.5 : Float) = "0.5" := by decide +kernel
    have hvalue : Decimal.read? "0.5".toList = some ⟨5, -1⟩ := by decide +kernel
    have hnumber : (OrderedScalar.ofDecimal 5 (-1) : Float) = 0.5 := by decide +kernel
    simp only [literal, htext, hvalue, Option.map_some, hnumber]
  have hfits : pointers.Fits f := by
    have hnnz : (Pattern.column 2).nnz = 2 := by decide
    constructor <;> simp [pointers, f, x, y, s, nnz, Expr.pattern, hnnz]
  obtain ⟨outs, m, heval, -, hrun, -, hresults⟩ := run_ofFunction hS hcompiled hread hfits
  have hargs : pointers.arguments f = [[3, 4], [0, 0]] := rfl
  have houts : f.evaluate [[3, 4], [0, 0]] = .ok [[1.5, 2]] := by
    have hvalues : f.evaluate [[3, 4], [0, 0]] = .ok [[0.5 * 3 + 0, 0.5 * 4 + 0]] := by
      simp [Function.evaluate, Function.run, f, checkLengths, x, y, p, s, c, nnz, Expr.pattern,
        Pattern.column, Pattern.nnz]
      rfl
    have h1 : (0.5 * 3 + 0 : Float) = 1.5 := by decide +kernel
    have h2 : (0.5 * 4 + 0 : Float) = 2 := by decide +kernel
    rw [hvalues, h1, h2]
  rw [hargs, houts] at heval
  obtain rfl := Except.ok.inj heval
  exact ⟨f, m, hf, houts, hrun, hresults 0 _ rfl⟩

end Source

end DiffGraph
