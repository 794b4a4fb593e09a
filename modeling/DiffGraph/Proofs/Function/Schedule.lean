import Mathlib
import DiffGraph.Proofs.Function.Run
import DiffGraph.Proofs.Graph.Built

/-!
# Compiled functions

The instructions of a compiled function are a schedule of its graph
(`Function.Scheduled`): every operation that an output needs once and after all
that it is built from, every slot written at most once and before it is read.
Running them gives each output the value of its expression evaluated like a tree
(`compile_correct`).
-/

namespace DiffGraph

open Expr

variable {α : Type}

def Instruction.written (ins : Instruction α) : List Nat :=
  ins.results.filterMap fun r => r

theorem Instruction.mem_written {ins : Instruction α} {t : Nat} :
    t ∈ ins.written ↔ ∃ i : Nat, ins.results[i]? = some (some t) := by
  rw [written, List.mem_filterMap]
  simp [List.mem_iff_getElem?]

namespace Function

/-- The slots that have been written when the instructions `done` have run. -/
def filled (f : Function α) (done : List (Instruction α)) : List Nat :=
  f.inputSlots ++ done.flatMap Instruction.written

/-- The instructions are a schedule of the graph of the outputs. -/
structure Scheduled (f : Function α) : Prop where
  once : (f.instructions.map Instruction.node).Nodup
  complete : ∀ e, e ∈ f.instructions.map Instruction.node ↔
    e.isOperation = true ∧ ∃ o ∈ f.outputs, o.Reaches e
  after : ∀ done ins rest, f.instructions = done ++ ins :: rest →
    ∀ d ∈ ins.node.deps, ∀ e, d.Reaches e → e.isOperation = true → e ∈ done.map Instruction.node
  writtenOnce : (f.filled f.instructions).Nodup
  inRange : ∀ t ∈ f.filled f.instructions, t < f.slots.size
  reads : ∀ done ins rest, f.instructions = done ++ ins :: rest → ∀ t ∈ ins.args, t ∈ f.filled done
  outputs : ∀ t ∈ f.outputSlots, t ∈ f.filled f.instructions

end Function

theorem IsGraph.eq_of_isSymbol_reaches {n : Nat} {S : Set (Expr α)} (hS : IsGraph n S)
    {x e : Expr α} (hx : x ∈ S) (hsym : x.isSymbol = true) (h : x.Reaches e) : e = x := by
  obtain ⟨id, name, p, rfl⟩ := (hS.wellFormed x hx).exists_of_isSymbol hsym
  cases h with
  | refl => rfl
  | dep hd => simp [deps] at hd

/-- An operation in an expression is part of the node that the expression stands for. -/
theorem Expr.Reaches.source {d e : Expr α} (h : d.Reaches e) (ho : e.isOperation = true)
    (hd : d.WellFormed) : d.source.1.Reaches e := by
  by_cases hout : d.isOutput = true
  · obtain ⟨id, i, q, p, rfl, -⟩ := hd.exists_of_isOutput hout
    cases h with
    | refl => cases ho
    | dep hq hreach =>
      obtain rfl := List.mem_singleton.1 hq
      exact hreach
  · rwa [source_of_not_isOutput (by simpa using hout)]

namespace Function.Layout

variable {f : Function α} {n : Nat} {S : Set (Expr α)} {slot : Expr α × Nat → Nat}

theorem mem_filled_of_ready (h : f.Layout S slot) {done : List (Instruction α)}
    {source : Expr α × Nat} (hsource : source.1 ∈ S) (hr : Ready slot done source) :
    slot source ∈ f.filled done := by
  obtain ⟨e, i⟩ := source
  rcases hr with ⟨hsym, rfl⟩ | ⟨ins, hins, -, hres⟩
  · obtain ⟨hlast, -⟩ := (h.input e (h.symbols e hsource hsym)).2.2
    have hlt : slot (e, 0) < f.inputs.length := (List.getElem?_eq_some_iff.1 hlast).1
    rw [filled, h.inputSlots]
    exact List.mem_append_left _ (List.mem_range.2 hlt)
  · exact List.mem_append_right _
      (List.mem_flatMap.2 ⟨ins, hins, Instruction.mem_written.2 ⟨i, hres⟩⟩)

theorem exists_of_mem_written (h : f.Layout S slot) {ins : Instruction α}
    (hins : ins ∈ f.instructions) {t : Nat} (ht : t ∈ ins.written) :
    ins.node ∈ S ∧ ins.node.isOperation = true ∧
      ∃ i < ins.node.resultCount, t = slot (ins.node, i) := by
  obtain ⟨done, rest, hsplit⟩ := List.append_of_mem hins
  have hfits := h.fits done ins rest hsplit
  obtain ⟨i, hi⟩ := Instruction.mem_written.1 ht
  refine ⟨hfits.mem, hfits.isOperation, i, ?_, hfits.results i t hi⟩
  rw [← hfits.length]
  exact (List.getElem?_eq_some_iff.1 hi).1

theorem nodup_written (h : f.Layout S slot) {ins : Instruction α} (hins : ins ∈ f.instructions) :
    ins.written.Nodup := by
  obtain ⟨done, rest, hsplit⟩ := List.append_of_mem hins
  have hfits := h.fits done ins rest hsplit
  have hno := not_isOutput_of_isOperation hfits.isOperation
  refine List.pairwise_filterMap.2 (List.pairwise_iff_getElem.2 ?_)
  intro i j hi hj hij t ht u hu htu
  have hti := hfits.results i t (by rw [List.getElem?_eq_getElem hi, ht])
  have huj := hfits.results j u (by rw [List.getElem?_eq_getElem hj, hu])
  rw [hfits.length] at hi hj
  have heq := h.injective _ hfits.mem _ hfits.mem hno hno i hi j hj (hti.symm.trans (htu.trans huj))
  exact absurd (congrArg Prod.snd heq) (Nat.ne_of_lt hij)

theorem nodup_filled (h : f.Layout S slot) : (f.filled f.instructions).Nodup := by
  rw [filled, h.inputSlots]
  refine List.nodup_append'.2 ⟨List.nodup_range, List.nodup_flatMap.2 ⟨?_, ?_⟩, ?_⟩
  · exact fun ins hins => h.nodup_written hins
  · have hnodup := List.pairwise_map.1 h.nodup
    refine hnodup.imp_of_mem ?_
    intro a b ha hb hne t hta htb
    obtain ⟨haS, hao, i, hi, hti⟩ := h.exists_of_mem_written ha hta
    obtain ⟨hbS, hbo, j, hj, htj⟩ := h.exists_of_mem_written hb htb
    have heq := h.injective _ haS _ hbS (not_isOutput_of_isOperation hao)
      (not_isOutput_of_isOperation hbo) i hi j hj (hti.symm.trans htj)
    exact hne (congrArg (Expr.id ∘ Prod.fst) heq)
  · intro t ht ht'
    obtain ⟨ins, hins, hw⟩ := List.mem_flatMap.1 ht'
    obtain ⟨hmem, ho, i, hi, rfl⟩ := h.exists_of_mem_written hins hw
    have := h.above _ hmem ho i hi
    have := List.mem_range.1 ht
    omega

theorem lt_size_of_mem_filled (h : f.Layout S slot) {t : Nat} (ht : t ∈ f.filled f.instructions) :
    t < f.slots.size := by
  rcases List.mem_append.1 ht with ht | ht
  · rw [h.inputSlots] at ht
    exact Nat.lt_of_lt_of_le (List.mem_range.1 ht) h.inputs_le_size
  · obtain ⟨ins, hins, hw⟩ := List.mem_flatMap.1 ht
    obtain ⟨hmem, ho, i, hi, rfl⟩ := h.exists_of_mem_written hins hw
    exact h.lt_size hmem (not_isOutput_of_isOperation ho) hi

/-- All operations in an operand come before the instruction: by induction on the number of the
instructions that are done. -/
theorem mem_done_of_reaches (h : f.Layout S slot) (hS : IsGraph n S)
    {done rest : List (Instruction α)} {ins : Instruction α}
    (hsplit : f.instructions = done ++ ins :: rest) {d e : Expr α} (hd : d ∈ ins.node.deps)
    (hreach : d.Reaches e) (ho : e.isOperation = true) :
    e ∈ done.map Instruction.node := by
  induction hk : done.length using Nat.strong_induction_on generalizing done rest ins d with
  | _ k ih =>
    have hfits := h.fits done ins rest hsplit
    have hdS := hS.closed _ hfits.mem d hd
    have hsource := hreach.source ho (hS.wellFormed d hdS)
    rcases hfits.ready d hd with ⟨hsym, -⟩ | ⟨ins', hins', hnode, -⟩
    · obtain rfl := hS.eq_of_isSymbol_reaches (hS.source_spec hdS).1 hsym hsource
      obtain ⟨id, name, p, hx⟩ := (hS.wellFormed _ (hS.source_spec hdS).1).exists_of_isSymbol hsym
      rw [hx] at ho
      cases ho
    · rw [← hnode] at hsource
      obtain ⟨done', rest', rfl⟩ := List.append_of_mem hins'
      cases hsource with
      | refl => exact List.mem_map_of_mem hins'
      | dep hd' hreach' =>
        have hlt : done'.length < k := by
          simp only [List.length_append, List.length_cons] at hk
          omega
        have hsplit' : f.instructions = done' ++ ins' :: (rest' ++ ins :: rest) := by
          simp [hsplit]
        have hmem := ih done'.length hlt hsplit' hd' hreach' rfl
        exact List.map_subset _ (List.subset_append_left _ _) hmem

theorem scheduled (h : f.Layout (nodesOf (f.inputs ++ f.outputs)) slot)
    (hS : IsGraph n (nodesOf (f.inputs ++ f.outputs))) : f.Scheduled where
  once := (List.Nodup.of_map Expr.id (by rw [List.map_map]; exact h.nodup))
  complete e := by
    constructor
    · intro he
      obtain ⟨ins, hins, rfl⟩ := List.mem_map.1 he
      obtain ⟨done, rest, hsplit⟩ := List.append_of_mem hins
      have hfits := h.fits done ins rest hsplit
      obtain ⟨root, hroot, hreach⟩ := hfits.mem
      refine ⟨hfits.isOperation, ?_⟩
      rcases List.mem_append.1 hroot with hroot | hroot
      · have hsym := (h.input root hroot).2.1
        have heq := hS.eq_of_isSymbol_reaches (h.input root hroot).1 hsym hreach
        obtain ⟨id, name, p, hx⟩ := (hS.wellFormed _ (h.input root hroot).1).exists_of_isSymbol hsym
        have ho := hfits.isOperation
        rw [heq, hx] at ho
        cases ho
      · exact ⟨root, hroot, hreach⟩
    · rintro ⟨ho, o, hout, hreach⟩
      obtain ⟨ins, hins, rfl⟩ := h.complete e ⟨o, List.mem_append_right _ hout, hreach⟩ ho
      exact List.mem_map_of_mem hins
  after done ins rest hsplit d hd e hreach ho := h.mem_done_of_reaches hS hsplit hd hreach ho
  writtenOnce := h.nodup_filled
  inRange t ht := h.lt_size_of_mem_filled ht
  reads done ins rest hsplit t ht := by
    have hfits := h.fits done ins rest hsplit
    rw [hfits.args] at ht
    obtain ⟨d, hd, rfl⟩ := List.mem_map.1 ht
    exact h.mem_filled_of_ready (hS.source_spec (hS.closed _ hfits.mem d hd)).1 (hfits.ready d hd)
  outputs t ht := by
    rw [h.outputSlots] at ht
    obtain ⟨o, ho, rfl⟩ := List.mem_map.1 ht
    obtain ⟨hoS, -, hready⟩ := h.outputs o ho
    exact h.mem_filled_of_ready (hS.source_spec hoS).1 hready

end Function.Layout

namespace Function

variable [Scalar α] {n : Nat} {G inputs outputs : List (Expr α)}

/-- Compilation is correct: for outputs that constructors built over input symbols that cover
theirs, it gives a function whose instructions are a schedule of the outputs, and whose runs, on
elements of any type, never fail and give the outputs their values as trees. -/
theorem compile_correct (hG : Built n G) (name : String)
    (hin : ∀ x ∈ inputs, x ∈ G ∧ x.isSymbol = true) (hout : ∀ o ∈ outputs, o ∈ G)
    (hcover : ∀ o ∈ outputs, ∀ x, o.Reaches x → x.isSymbol = true → x ∈ inputs) :
    ∃ f, compile name inputs outputs = .ok f ∧ f.Scheduled ∧
      ∀ (T : Type) [Element Id α T] (args : List (List T)),
        args.map List.length = inputs.map nnz → ∃ outs,
          (f.run args : ExceptT GraphError Id _) = pure outs ∧ List.Forall₂
            (fun o out => evalTree (assign inputs args) o = .ok [out]) outputs outs := by
  obtain ⟨hpool, hsplit⟩ := hG.isGraph
  have hS : IsGraph n (nodesOf (inputs ++ outputs)) := by
    refine hpool.nodesOf fun e he => mem_nodesOf ?_
    rcases List.mem_append.1 he with he | he
    · exact (hin e he).1
    · exact hout e he
  obtain ⟨f, hf⟩ := @compile_eq_ok _ _ _ _ name hS (fun x hx => (hin x hx).2) (by
    rintro e ⟨root, hroot, hreach⟩ hsym
    rcases List.mem_append.1 hroot with hroot | hroot
    · have hmem : root ∈ nodesOf (inputs ++ outputs) := mem_nodesOf (List.mem_append_left _ hroot)
      rwa [hS.eq_of_isSymbol_reaches hmem (hin root hroot).2 hreach]
    · exact hcover root hroot e hreach hsym)
  obtain ⟨-, rfl, rfl, slot, hlayout⟩ := exists_layout hS (fun o ho => hsplit o (hout o ho)) hf
  refine ⟨f, hf, hlayout.scheduled hS, ?_⟩
  intro T _ args hargs
  refine ⟨_, run_eq hlayout hS hargs, ?_⟩
  refine List.forall₂_map_right_iff.2 (List.forall₂_same.2 fun o ho => ?_)
  have hoS : o ∈ nodesOf (f.inputs ++ f.outputs) := mem_nodesOf (List.mem_append_right _ ho)
  rw [(hS.evalTree_eq hoS).1, hS.values_of_not_isSplit hoS (hsplit o (hout o ho))]

/-- The product of the two entries of a column, and the first entry. -/
theorem compile_correct_product :
    let x : Expr Rat := .node 0 (.symbol "x") [] (.column 2) []
    let s : Expr Rat := .node 1 (.split .vertical [0, 1, 2]) [x] .scalar [.scalar]
    let a : Expr Rat := .node 2 (.output 0) [s] .scalar []
    let b : Expr Rat := .node 3 (.output 1) [s] .scalar []
    let p : Expr Rat := .node 4 (.binary .mul .none) [a, b] .scalar []
    ∃ f, compile "f" [x] [p, a] = .ok f ∧ f.Scheduled ∧ ∃ outs,
      f.evaluate [[2, 3]] = .ok outs ∧ List.Forall₂
        (fun o out => evalTree (assign [x] [[(2 : Rat), 3]]) o = .ok [out]) [p, a] outs := by
  intro x s a b p
  have hx : Built 1 [x] := .symbol "x" _ .start
  have hsplit : Built 4 [a, b, x] :=
    .make (.split .vertical x [0, 1, 2] []) hx (by simp [Construction.operands]) rfl
  have hG : Built 5 [p, a, b, x] :=
    .make (.binary .mul a b) hsplit (by simp [Construction.operands]) rfl
  have hclosed : ∀ e ∈ ({p, a, b, s, x} : Set (Expr Rat)), ∀ d ∈ e.deps,
      d ∈ ({p, a, b, s, x} : Set (Expr Rat)) := by
    rintro e (rfl | rfl | rfl | rfl | rfl) <;> simp [deps, p, a, b, s, x]
  obtain ⟨f, hf, hsched, hrun⟩ := @compile_correct Rat _ _ _ [x] [p, a] hG "f"
    (by simp [x, isSymbol, name?, op]) (by simp) (by
      intro o ho y hreach hsym
      have hmem : o ∈ ({p, a, b, s, x} : Set (Expr Rat)) := by
        rcases List.mem_pair.1 ho with rfl | rfl <;> simp
      rcases hreach.mem hclosed hmem with rfl | rfl | rfl | rfl | rfl
      iterate 4 simp [isSymbol, name?, op, p, a, b, s] at hsym
      simp)
  exact ⟨f, hf, hsched, hrun Rat [[2, 3]] rfl⟩

end Function

end DiffGraph
