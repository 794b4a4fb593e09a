import Mathlib
import DiffGraph.Proofs.Function.Layout
import DiffGraph.Proofs.Graph.Handle

/-!
# The patterns of the slots

Every slot has a pattern, and the instructions keep to it: they read their operands from
slots of the operands' patterns and write their results to different slots of the results'
patterns (`Function.Typed`). The sort keeps this at every node that it places
(`Sorter.Typed.place`), so it holds of every compiled function (`Function.typed_of_compile`),
also if a split with several results is an operand itself.
-/

namespace DiffGraph

open Expr

variable {α : Type}

/-- The instruction reads and writes slots of its node's patterns. -/
structure Instruction.Typed (slots : Array Pattern) (ins : Instruction α) : Prop where
  wellFormed : ins.node.WellFormed
  isOperation : ins.node.isOperation = true
  args : List.Forall₂ (fun t d => slots[t]? = some d.pattern) ins.args ins.node.deps
  length : ins.results.length = ins.node.resultCount
  results : ∀ (i t : Nat), ins.results[i]? = some (some t) → slots[t]? = ins.node.patterns[i]?
  distinct : ∀ (i j t : Nat),
    ins.results[i]? = some (some t) → ins.results[j]? = some (some t) → i = j

/-- All slots that the function reads and writes have the patterns that are expected there. -/
structure Function.Typed (f : Function α) : Prop where
  inputSlots : f.inputSlots = List.range f.inputs.length
  inputs : ∀ (t : Nat) (x : Expr α), f.inputs[t]? = some x → f.slots[t]? = some x.pattern
  instructions : ∀ ins ∈ f.instructions, ins.Typed f.slots
  outputs : List.Forall₂ (fun t o => f.slots[t]? = some o.pattern) f.outputSlots f.outputs

namespace Sorter

variable {s : Sorter α} {e x : Expr α} {S : Set (Expr α)}

/-- The node has a slot for every result, of the pattern of the result. -/
structure HasSlots (s : Sorter α) (e : Expr α) : Prop where
  patterns : List.Forall₂ (fun t p => s.slots[t]? = some p) (s.slotsFor e) e.patterns
  nodup : (s.slotsFor e).Nodup

theorem HasSlots.slotFor (h : s.HasSlots e) : s.slots[s.slotFor e]? = some e.pattern := by
  obtain ⟨ps, hps⟩ := e.exists_patterns
  obtain ⟨t, ts, ht, -, hslots⟩ := List.forall₂_cons_right_iff.1 (hps ▸ h.patterns)
  rwa [Sorter.slotFor, hslots]

/-- The instruction reads slots of its node's operands and writes slots of its node. -/
structure Places (S : Set (Expr α)) (s : Sorter α) (ins : Instruction α) : Prop where
  mem : ins.node ∈ S
  known : s.knows ins.node = true
  isOperation : ins.node.isOperation = true
  args : List.Forall₂ (fun t d => s.slots[t]? = some d.pattern) ins.args ins.node.deps
  length : ins.results.length = ins.node.resultCount
  results : ∀ (i t : Nat), ins.results[i]? = some (some t) → (s.slotsFor ins.node)[i]? = some t

/-- What holds of the slots after every step of the sort. -/
structure Typed (S : Set (Expr α)) (s : Sorter α) : Prop where
  slots : ∀ e ∈ S, s.knows e = true → s.HasSlots e
  instructed : ∀ e ∈ S, s.knows e = true → e.isOperation = true →
    ∃ (k : Nat) (ins : Instruction α), s.instructionOf[e.id]? = some k ∧
      s.instructions.toList[k]? = some ins ∧ ins.node = e
  instructions : ∀ ins ∈ s.instructions.toList, s.Places S ins

theorem Typed.instruction (h : Typed S s) (hS : IsDag S) {ins : Instruction α}
    (hins : ins ∈ s.instructions.toList) : ins.Typed s.slots := by
  have hplaces := h.instructions ins hins
  have hslots := h.slots _ hplaces.mem hplaces.known
  refine ⟨hS.wellFormed _ hplaces.mem, hplaces.isOperation, hplaces.args, hplaces.length,
    fun i t ht => ?_, fun i j t hi hj => ?_⟩
  · obtain ⟨p, hp, hslot⟩ := exists_of_forall₂ hslots.patterns.flip (hplaces.results i t ht)
    rw [hp]
    exact hslot
  · have hi := hplaces.results i t hi
    exact (List.getElem?_inj (List.getElem?_eq_some_iff.1 hi).1 hslots.nodup).1
      (hi.trans (hplaces.results j t hj).symm)

/-! ## What placing a node keeps -/

theorem ne_of_knows (hnew : ¬ s.knows e = true) (hx : s.knows x = true) : x.id ≠ e.id := by
  intro hid
  rw [knows_iff, hid, ← knows_iff] at hx
  exact hnew hx

theorem HasSlots.place (h : s.HasSlots x) (hne : x.id ≠ e.id) : (s.place e).HasSlots x where
  patterns := by
    rw [slotsFor_place_of_ne hne]
    exact h.patterns.imp fun _ _ => getElem?_slots_place
  nodup := by
    rw [slotsFor_place_of_ne hne]
    exact h.nodup

theorem Places.place {ins : Instruction α} (h : s.Places S ins) (hnew : ¬ s.knows e = true) :
    (s.place e).Places S ins where
  mem := h.mem
  known := knows_place.2 (.inr h.known)
  isOperation := h.isOperation
  args := h.args.imp fun _ _ => getElem?_slots_place
  length := h.length
  results i t ht := by
    rw [slotsFor_place_of_ne (ne_of_knows hnew h.known)]
    exact h.results i t ht

theorem hasSlots_place_self (ho : e.isOutput = false) : (s.place e).HasSlots e where
  patterns := by
    rw [slotsFor_place_self ho, slots_place ho]
    refine forall₂_of_getElem? List.length_range' fun i t p ht hp => ?_
    obtain ⟨hi, rfl⟩ := List.getElem?_eq_some_iff.1 ht
    rw [List.getElem_range', Nat.one_mul, Array.getElem?_append_right (Nat.le_add_right ..),
      Nat.add_sub_cancel_left, List.getElem?_toArray]
    exact hp
  nodup := by
    rw [slotsFor_place_self ho]
    exact List.nodup_range'

theorem Typed.hasSlots_place_output (h : Typed S s) (hS : IsDag S) (he : e ∈ S)
    (hdeps : ∀ d ∈ e.deps, s.knows d = true) (ho : e.isOutput = true) :
    (s.place e).HasSlots e := by
  obtain ⟨id, i, q, p, rfl, hsplit, hp⟩ := (hS.wellFormed e he).exists_of_isOutput ho
  have hq := List.mem_singleton_self q
  obtain ⟨t, ht, hslot⟩ :=
    exists_of_forall₂ (h.slots q (hS.closed _ he q hq) (hdeps q hq)).patterns hp
  have hself : (s.place (.node id (.output i) [q] p [])).slotsFor (.node id (.output i) [q] p []) =
      [t] := by
    rw [slotsFor_place_output, slotAt, ht, Option.getD_some]
  refine ⟨?_, ?_⟩
  · rw [hself]
    exact .cons (getElem?_slots_place hslot) .nil
  · rw [hself]
    exact List.nodup_singleton t

theorem exists_instruction_place (e : Expr α) {k : Nat} {ins : Instruction α}
    (h : s.instructions.toList[k]? = some ins) :
    ∃ ins' : Instruction α, (s.place e).instructions.toList[k]? = some ins' ∧
      ins'.node = ins.node := by
  have hk := (List.getElem?_eq_some_iff.1 h).1
  unfold place require
  split
  · exact ⟨ins, h, rfl⟩
  · dsimp only
    split
    · exact ⟨ins, h, rfl⟩
    · dsimp only
      rw [Array.toList_modify, List.getElem?_modify, h]
      refine ⟨_, rfl, ?_⟩
      dsimp only
      split <;> rfl
  · refine ⟨ins, ?_, rfl⟩
    dsimp only
    rw [Array.toList_push, List.getElem?_append_left hk, h]

theorem getElem?_instructionOf_place (h : x.id ≠ e.id) :
    (s.place e).instructionOf[x.id]? = s.instructionOf[x.id]? := by
  unfold place require
  split
  · rfl
  · dsimp only
    split <;> rfl
  · exact (Std.HashMap.getElem?_insert ..).trans (if_neg (by simpa using Ne.symm h))

theorem places_operation (hslots : ∀ d ∈ e.deps, s.HasSlots d) (he : e ∈ S)
    (ho : e.isOperation = true) :
    (s.place e).Places S ⟨e, e.deps.map s.slotFor,
      if e.resultCount = 1 then [some s.slots.size] else List.replicate e.resultCount none⟩ where
  mem := he
  known := knows_place.2 (.inl rfl)
  isOperation := ho
  args := List.forall₂_map_left_iff.2 (List.forall₂_same.2 fun d hd =>
    getElem?_slots_place (hslots d hd).slotFor)
  length := by
    dsimp only
    split
    · rename_i hcount
      exact hcount.symm
    · exact List.length_replicate
  results i t ht := by
    dsimp only at ht ⊢
    rw [slotsFor_place_self (not_isOutput_of_isOperation ho)]
    split at ht
    · rename_i hcount
      rw [List.getElem?_singleton] at ht
      split at ht
      · rename_i hi
        subst hi
        rw [hcount]
        exact Option.some.inj ht
      · cases ht
    · rw [List.getElem?_replicate] at ht
      split at ht <;> cases ht

theorem Places.require {ins : Instruction α} (h : s.Places S ins) {i t : Nat}
    (ht : (s.slotsFor ins.node)[i]? = some t) :
    s.Places S { ins with results := ins.results.set i (some t) } where
  mem := h.mem
  known := h.known
  isOperation := h.isOperation
  args := h.args
  length := (List.length_set ..).trans h.length
  results j u hj := by
    dsimp only at hj ⊢
    rw [List.getElem?_set] at hj
    split at hj
    · rename_i hij
      split at hj
      · cases Option.some.inj hj
        exact hij ▸ ht
      · cases hj
    · exact h.results j u hj

theorem Typed.instructions_place (h : Typed S s) (hS : IsDag S) (he : e ∈ S)
    (hnew : ¬ s.knows e = true) (hdeps : ∀ d ∈ e.deps, s.knows d = true) :
    ∀ ins ∈ (s.place e).instructions.toList, (s.place e).Places S ins := by
  intro ins hins
  have hslots (d : Expr α) (hd : d ∈ e.deps) : s.HasSlots d :=
    h.slots d (hS.closed e he d hd) (hdeps d hd)
  by_cases hop : e.isOperation = true
  · rw [(Sorted.place_operation s hop).1, Array.toList_push, List.mem_append,
      List.mem_singleton] at hins
    rcases hins with hins | rfl
    · exact (h.instructions ins hins).place hnew
    · exact places_operation hslots he hop
  · rcases isSymbol_or_isOutput (by simpa using hop) with hsym | hout
    · obtain ⟨id, name, p, rfl⟩ := (hS.wellFormed e he).exists_of_isSymbol hsym
      exact (h.instructions ins hins).place hnew
    · obtain ⟨id, i, q, p, rfl, hsplit, hp⟩ := (hS.wellFormed e he).exists_of_isOutput hout
      have hq := List.mem_singleton_self q
      have hqS : q ∈ S := hS.closed _ he q hq
      obtain ⟨k, jns, hk, hjns, rfl⟩ :=
        h.instructed q hqS (hdeps q hq) (isOperation_of_isSplit hsplit)
      obtain ⟨t, ht, -⟩ := exists_of_forall₂ (hslots _ hq).patterns hp
      have hslot : s.slotAt (jns.node, i) = t := by rw [slotAt, ht, Option.getD_some]
      rw [Sorted.place_output hk, Array.toList_modify, hslot] at hins
      obtain ⟨j, hj⟩ := List.mem_iff_getElem?.1 hins
      rw [List.getElem?_modify, Option.map_eq_map, Option.map_eq_some_iff] at hj
      obtain ⟨old, hold, rfl⟩ := hj
      have hplaces := h.instructions old (List.mem_of_getElem? hold)
      split
      · rename_i hkj
        subst hkj
        obtain rfl := Option.some.inj (hjns.symm.trans hold)
        exact (hplaces.require ht).place hnew
      · exact hplaces.place hnew

/-- Placing a node whose operands are known keeps the slots in order. -/
theorem Typed.place (h : Typed S s) (hS : IsDag S) (he : e ∈ S) (hnew : ¬ s.knows e = true)
    (hdeps : ∀ d ∈ e.deps, s.knows d = true) : Typed S (s.place e) where
  slots x hx hk := by
    by_cases hid : x.id = e.id
    · obtain rfl := hS.unique x hx e he hid
      cases ho : x.isOutput with
      | false => exact hasSlots_place_self ho
      | true => exact h.hasSlots_place_output hS he hdeps ho
    · exact (h.slots x hx ((knows_place.1 hk).resolve_left hid)).place hid
  instructed x hx hk hop := by
    by_cases hid : x.id = e.id
    · obtain rfl := hS.unique x hx e he hid
      obtain ⟨hins, hof⟩ := Sorted.place_operation s hop
      rw [hins, hof, Std.HashMap.getElem?_insert_self]
      exact ⟨_, _, rfl, by rw [Array.getElem?_toList, Array.getElem?_push_size], rfl⟩
    · obtain ⟨k, ins, hof, hins, rfl⟩ :=
        h.instructed x hx ((knows_place.1 hk).resolve_left hid) hop
      obtain ⟨ins', hins', hnode⟩ := exists_instruction_place e hins
      exact ⟨k, ins', (getElem?_instructionOf_place hid).trans hof, hins', hnode⟩
  instructions := h.instructions_place hS he hnew hdeps

theorem typed_addInputs (hS : IsDag S) {inputs : List (Expr α)}
    (hin : ∀ x ∈ inputs, x ∈ S ∧ x.isSymbol = true) :
    Typed S (inputs.foldl addInput empty) ∧
      (∀ (t : Nat) x, inputs[t]? = some x →
        (inputs.foldl addInput empty).slots[t]? = some x.pattern) := by
  have hsym (x : Expr α) (hx : x ∈ inputs) : ∃ id name p, x = .node id (.symbol name) [] p [] :=
    (hS.wellFormed x (hin x hx).1).exists_of_isSymbol (hin x hx).2
  have hone (x : Expr α) (hx : x ∈ inputs) : x.patterns = [x.pattern] := by
    obtain ⟨id, name, p, rfl⟩ := hsym x hx
    rfl
  have hinput {x : Expr α} (hx : x ∈ S) := known_addInputs hS hin hx
  obtain ⟨hslots, hins, -, -, -⟩ := addInputs_spec inputs hone
  set s := inputs.foldl addInput empty
  have hslot (t : Nat) (x : Expr α) (hx : inputs[t]? = some x) : s.slots[t]? = some x.pattern := by
    rw [← Array.getElem?_toList, hslots, List.getElem?_map, hx]
    rfl
  refine ⟨⟨fun x hx hk => ?_, fun x hx hk hop => ?_, by simp [hins]⟩, hslot⟩
  · have hmem := (hinput hx).1.1 hk
    obtain ⟨t, ht, hlast⟩ := (hinput hx).2 hmem
    refine ⟨?_, ?_⟩
    · rw [ht, hone x hmem]
      exact .cons (hslot t x hlast.1) .nil
    · rw [ht]
      exact List.nodup_singleton t
  · obtain ⟨id, name, p, rfl⟩ := hsym x ((hinput hx).1.1 hk)
    cases hop

end Sorter

namespace Function

/-- The function is compiled from nodes of `S`. -/
structure CompiledFrom (S : Set (Expr α)) (f : Function α) : Prop where
  inputs : ∀ x ∈ f.inputs, x ∈ S
  outputs : ∀ o ∈ f.outputs, o ∈ S
  compile : compile f.name f.inputs f.outputs = .ok f

variable {S : Set (Expr α)} {f : Function α} {name : String} {inputs outputs : List (Expr α)}

theorem typed_of_compile (hS : IsDag S) (hin : ∀ x ∈ inputs, x ∈ S) (hout : ∀ o ∈ outputs, o ∈ S)
    (h : compile name inputs outputs = .ok f) : f.Typed := by
  obtain ⟨hsym, -, rfl⟩ := eq_of_compile h
  obtain ⟨hstart, hinputs⟩ := Sorter.typed_addInputs hS fun x hx => ⟨hin x hx, hsym x hx⟩
  obtain ⟨⟨htyped, hpatterns⟩, hknown, -, -⟩ := Sorter.visitAll_induction
    (P := fun s => Sorter.Typed S s ∧
      ∀ (t : Nat) x, inputs[t]? = some x → s.slots[t]? = some x.pattern) hS
    (fun s e hs he hnew hdeps => ⟨hs.1.place hS he hnew hdeps, fun t x hx =>
      Sorter.getElem?_slots_place (hs.2 t x hx)⟩) outputs _ hout ⟨hstart, hinputs⟩
  refine ⟨rfl, hpatterns, fun ins hins => htyped.instruction hS hins, ?_⟩
  exact List.forall₂_map_left_iff.2 (List.forall₂_same.2 fun o ho =>
    (htyped.slots o (hout o ho) (hknown o ho)).slotFor)

/-- A function of expressions at hand, which may be splits. -/
theorem compiledFrom_of_built [Scalar α] {n : Nat} {G : List (Expr α)} (hG : BuiltWithHandles n G)
    (hin : ∀ x ∈ inputs, x ∈ G) (hout : ∀ o ∈ outputs, o ∈ G)
    (h : compile name inputs outputs = .ok f) :
    IsDag (nodesOf G) ∧ f.CompiledFrom (nodesOf G) := by
  obtain ⟨-, -, rfl⟩ := eq_of_compile h
  exact ⟨hG.isDag, fun x hx => mem_nodesOf (hin x hx), fun o ho => mem_nodesOf (hout o ho), h⟩

theorem CompiledFrom.typed (h : f.CompiledFrom S) (hS : IsDag S) : f.Typed :=
  typed_of_compile hS h.inputs h.outputs h.compile

end Function

end DiffGraph
