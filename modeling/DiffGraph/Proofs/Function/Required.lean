import Mathlib
import DiffGraph.Proofs.Function.Flow
import DiffGraph.Proofs.Function.Schedule

/-!
# Results that nobody asked for

A split writes the results that references ask for and no others. The split itself can also be
an operand or an output: there it stands for its first result, but it does not ask for it. So the
slot that is read is filled by then exactly if some output contains a reference to the first
result (`Function.filled_iff_requires`); an output that is a split and is never asked for is
zeros. What reads anything else than a split always reads a filled slot.

The sort keeps the order and the notes at every node that it places (`Sorter.Noted.place`).
-/

namespace DiffGraph

open Element Expr

variable {α : Type}

def Expr.RefersTo (r : Expr α) (source : Expr α × Nat) : Prop :=
  r.isOutput = true ∧ r.source = source

/-- Some output contains a reference to the result. -/
def Function.Requires (f : Function α) (source : Expr α × Nat) : Prop :=
  ∃ o ∈ f.outputs, ∃ r : Expr α, o.Reaches r ∧ r.RefersTo source

theorem Expr.WellFormed.mem_deps_of_refersTo {r : Expr α} {source : Expr α × Nat}
    (h : r.WellFormed) (hr : r.RefersTo source) :
    source.1 ∈ r.deps ∧ source.1.isOperation = true := by
  obtain ⟨ho, rfl⟩ := hr
  obtain ⟨id, i, q, p, rfl, hsplit, -⟩ := h.exists_of_isOutput ho
  exact ⟨List.mem_singleton_self q, isOperation_of_isSplit hsplit⟩

namespace Sorter

variable {s : Sorter α} {e x : Expr α} {S : Set (Expr α)} {inputs : List (Expr α)}

/-- A node that the sorter knows refers to the result. -/
def Required (S : Set (Expr α)) (s : Sorter α) (source : Expr α × Nat) : Prop :=
  ∃ r ∈ S, s.knows r = true ∧ r.RefersTo source

/-- What holds of the order of the instructions, of the slots and of the notes after every step of
the sort. -/
structure Noted (S : Set (Expr α)) (inputs : List (Expr α)) (s : Sorter α) : Prop where
  closed : ∀ e ∈ S, s.knows e = true → ∀ d ∈ e.deps, s.knows d = true
  disjoint : s.Apart S
  reference : ∀ e ∈ S, s.knows e = true → e.isOutput = true →
    s.slotsFor e = [s.slotAt e.source]
  numbered : ∀ (k : Nat) (ins : Instruction α), s.instructions.toList[k]? = some ins →
    s.instructionOf[ins.node.id]? = some k
  args : ∀ ins ∈ s.instructions.toList, ins.args = ins.node.deps.map s.slotFor
  earlier : ∀ (k : Nat) (ins : Instruction α), s.instructions.toList[k]? = some ins →
    ∀ d ∈ ins.node.deps, d.source.1.isOperation = true →
      ∃ j < k, s.instructionOf[d.source.1.id]? = some j
  notes : ∀ ins ∈ s.instructions.toList, ∀ i t : Nat, ins.results[i]? = some (some t) ↔
    (s.slotsFor ins.node)[i]? = some t ∧
      (ins.node.op.isSplit = true → s.Required S (ins.node, i))
  symbols : ∀ e ∈ S, s.knows e = true → e.isSymbol = true → e ∈ inputs ∨ s.free ≠ #[]
  room : inputs.length ≤ s.slots.size
  input : ∀ x ∈ inputs, s.knows x = true ∧ ∃ t < inputs.length, s.slotsFor x = [t]
  above : ∀ e ∈ S, s.knows e = true → e.isOutput = false → e ∉ inputs →
    ∀ t ∈ s.slotsFor e, inputs.length ≤ t

/-! ## What placing a node keeps -/

theorem HasSlots.lt_size (h : s.HasSlots e) {t : Nat} (ht : t ∈ s.slotsFor e) :
    t < s.slots.size := by
  obtain ⟨i, hi⟩ := List.mem_iff_getElem?.1 ht
  obtain ⟨p, -, hslot⟩ := exists_of_forall₂ h.patterns.flip hi
  exact (Array.getElem?_eq_some_iff.1 hslot).1

theorem slotFor_place (hnew : ¬ s.knows e = true) (hx : s.knows x = true) :
    (s.place e).slotFor x = s.slotFor x := by
  rw [slotFor, slotFor, slotsFor_place_of_ne (ne_of_knows hnew hx)]

theorem getElem?_set_iff {rs : List (Option Nat)} {i u : Nat} (hi : i < rs.length)
    (hsame : ∀ t, rs[i]? = some (some t) → t = u) {a t : Nat} :
    (rs.set i (some u))[a]? = some (some t) ↔ rs[a]? = some (some t) ∨ i = a ∧ t = u := by
  by_cases hia : i = a
  · subst hia
    rw [List.getElem?_set_self hi, Option.some_inj, Option.some_inj]
    exact ⟨fun h => .inr ⟨rfl, h.symm⟩, fun h => (h.elim (hsame t) And.right).symm⟩
  · rw [List.getElem?_set_ne hia]
    exact (or_iff_left fun h => hia h.1).symm

/-- A reference adds the result that it names to the instruction of its split. -/
theorem instruction_place_output (hS : IsDag S) (htyped : Typed S s) (h : Noted S inputs s)
    (he : e ∈ S) (hdeps : ∀ d ∈ e.deps, s.knows d = true) (hout : e.isOutput = true) {k : Nat}
    {ins : Instruction α} (hins : (s.place e).instructions.toList[k]? = some ins) :
    ∃ old, s.instructions.toList[k]? = some old ∧ ins.node = old.node ∧ ins.args = old.args ∧
      ∀ i t : Nat, ins.results[i]? = some (some t) ↔ old.results[i]? = some (some t) ∨
        e.RefersTo (old.node, i) ∧ (s.slotsFor old.node)[i]? = some t := by
  obtain ⟨id, i, q, p, rfl, hsplit, hp⟩ := (hS.wellFormed e he).exists_of_isOutput hout
  have hq := List.mem_singleton_self q
  obtain ⟨j, jns, hj, hjns, rfl⟩ :=
    htyped.instructed q (hS.closed _ he q hq) (hdeps q hq) (isOperation_of_isSplit hsplit)
  rw [Sorted.place_output hj, Array.toList_modify, List.getElem?_modify, Option.map_eq_map,
    Option.map_eq_some_iff] at hins
  obtain ⟨old, hold, rfl⟩ := hins
  have hplaces := htyped.instructions old (List.mem_of_getElem? hold)
  refine ⟨old, hold, ?_⟩
  split
  · -- the instruction of the split that is referred to
    rename_i hjk
    subst hjk
    obtain rfl := Option.some.inj (hjns.symm.trans hold)
    obtain ⟨u, hu⟩ : ∃ u, (s.slotsFor jns.node)[i]? = some u := by
      refine ⟨_, List.getElem?_eq_getElem ?_⟩
      rw [(htyped.slots _ hplaces.mem hplaces.known).patterns.length_eq]
      exact (List.getElem?_eq_some_iff.1 hp).1
    have hi : i < jns.results.length :=
      hplaces.length.symm ▸ (List.getElem?_eq_some_iff.1 hp).1
    have hsame (t : Nat) (ht : jns.results[i]? = some (some t)) : t = u :=
      Option.some.inj ((hplaces.results i t ht).symm.trans hu)
    refine ⟨rfl, rfl, fun a t => ?_⟩
    rw [slotAt, hu, Option.getD_some, getElem?_set_iff hi hsame]
    refine or_congr_right ⟨?_, ?_⟩
    · rintro ⟨rfl, rfl⟩
      exact ⟨⟨rfl, rfl⟩, hu⟩
    · rintro ⟨href, ht⟩
      obtain rfl : i = a := congrArg Prod.snd href.2
      exact ⟨rfl, Option.some.inj (ht.symm.trans hu)⟩
  · rename_i hjk
    refine ⟨rfl, rfl, fun a t => (or_iff_left fun hr => hjk ?_).symm⟩
    have hnode : jns.node = old.node := congrArg Prod.fst hr.1.2
    have hnumber := h.numbered k old hold
    rw [← hnode] at hnumber
    exact Option.some.inj (hj.symm.trans hnumber)

/-- The instructions after placing a node: those before, where a reference adds the result that
it names, and one for a new operation. -/
theorem instruction_place_cases (hS : IsDag S) (htyped : Typed S s) (h : Noted S inputs s)
    (he : e ∈ S) (hdeps : ∀ d ∈ e.deps, s.knows d = true) {k : Nat} {ins : Instruction α}
    (hins : (s.place e).instructions.toList[k]? = some ins) :
    (∃ old, s.instructions.toList[k]? = some old ∧ ins.node = old.node ∧ ins.args = old.args ∧
      ∀ i t : Nat, ins.results[i]? = some (some t) ↔ old.results[i]? = some (some t) ∨
        e.RefersTo (old.node, i) ∧ (s.slotsFor old.node)[i]? = some t) ∨
    e.isOperation = true ∧ k = s.instructions.size ∧ ins = ⟨e, e.deps.map s.slotFor,
      if e.resultCount = 1 then [some s.slots.size] else List.replicate e.resultCount none⟩ := by
  have same (hno : e.isOutput = false) (old : Instruction α) (i t : Nat) :
      old.results[i]? = some (some t) ↔ old.results[i]? = some (some t) ∨
        e.RefersTo (old.node, i) ∧ (s.slotsFor old.node)[i]? = some t := by
    refine (or_iff_left fun hr => ?_).symm
    rw [hr.1.1] at hno
    cases hno
  by_cases hop : e.isOperation = true
  · rw [(Sorted.place_operation s hop).1, Array.toList_push] at hins
    rcases Nat.lt_trichotomy k s.instructions.toList.length with hlt | rfl | hgt
    · rw [List.getElem?_append_left hlt] at hins
      exact .inl ⟨ins, hins, rfl, rfl, same (not_isOutput_of_isOperation hop) ins⟩
    · rw [List.getElem?_concat_length] at hins
      exact .inr ⟨hop, rfl, (Option.some.inj hins).symm⟩
    · rw [List.getElem?_eq_none (by simpa [Nat.succ_le_iff] using hgt)] at hins
      cases hins
  · rcases isSymbol_or_isOutput (by simpa using hop) with hsym | hout
    · obtain ⟨id, name, p, rfl⟩ := (hS.wellFormed e he).exists_of_isSymbol hsym
      exact .inl ⟨ins, hins, rfl, rfl, same rfl ins⟩
    · exact .inl (instruction_place_output hS htyped h he hdeps hout hins)

namespace Noted

theorem knows_source (h : Noted S inputs s) (hS : IsDag S) (he : e ∈ S)
    (hk : s.knows e = true) : e.source.1 ∈ S ∧ s.knows e.source.1 = true :=
  ⟨(hS.source_spec he).1, knows_source_of_deps (h.closed e he hk) hk⟩

/-- Placing a node asks for the results that were asked for, and for the one that it names. -/
theorem required_place_iff (hS : IsDag S) (he : e ∈ S) {source : Expr α × Nat} :
    (s.place e).Required S source ↔ s.Required S source ∨ e.RefersTo source := by
  constructor
  · rintro ⟨r, hr, hk, href⟩
    rcases knows_place.1 hk with hid | hk
    · exact .inr (hS.unique r hr e he hid ▸ href)
    · exact .inl ⟨r, hr, hk, href⟩
  · rintro (⟨r, hr, hk, href⟩ | href)
    · exact ⟨r, hr, knows_place.2 (.inr hk), href⟩
    · exact ⟨e, he, knows_place.2 (.inl rfl), href⟩

theorem not_required (hS : IsDag S) (h : Noted S inputs s) (hnew : ¬ s.knows e = true) {i : Nat} :
    ¬ s.Required S (e, i) := by
  rintro ⟨r, hr, hk, href⟩
  exact hnew (h.closed r hr hk e ((hS.wellFormed r hr).mem_deps_of_refersTo href).1)

theorem notes_place (hS : IsDag S) (htyped : Typed S s) (h : Noted S inputs s) (he : e ∈ S)
    (hnew : ¬ s.knows e = true) (hdeps : ∀ d ∈ e.deps, s.knows d = true) {ins : Instruction α}
    (hins : ins ∈ (s.place e).instructions.toList) (i t : Nat) :
    ins.results[i]? = some (some t) ↔ ((s.place e).slotsFor ins.node)[i]? = some t ∧
      (ins.node.op.isSplit = true → (s.place e).Required S (ins.node, i)) := by
  obtain ⟨k, hk⟩ := List.mem_iff_getElem?.1 hins
  rcases instruction_place_cases hS htyped h he hdeps hk with
    ⟨old, hold, hnode, -, hresults⟩ | ⟨hop, -, rfl⟩
  · have hmem := List.mem_of_getElem? hold
    have hplaces := htyped.instructions old hmem
    rw [hresults, h.notes old hmem, hnode, required_place_iff hS he,
      slotsFor_place_of_ne (ne_of_knows hnew hplaces.known)]
    have hsplit (href : e.RefersTo (old.node, i)) : old.node.op.isSplit = true := by
      obtain ⟨id, j, q, p, rfl, hq, -⟩ := (hS.wellFormed e he).exists_of_isOutput href.1
      rw [← show q = old.node from congrArg Prod.fst href.2]
      exact hq
    tauto
  · have hno := not_isOutput_of_isOperation hop
    have hcount := (hS.wellFormed e he).resultCount_eq
    have hnone : ¬ (s.place e).Required S (e, i) := by
      rw [required_place_iff hS he]
      rintro (hr | hr)
      · exact h.not_required hS hnew hr
      · rw [hr.1] at hno
        cases hno
    rw [slotsFor_place_self hno]
    dsimp only
    cases hs : e.op.isSplit with
    | false => simp [hcount.2 hs, List.getElem?_singleton]
    | true =>
      have hne : e.resultCount ≠ 1 := by simp [hcount, hs]
      simp [hne, hnone, List.getElem?_replicate]

/-- Placing a node whose operands are known keeps the order and the notes. -/
theorem place (hS : IsDag S) (htyped : Typed S s) (h : Noted S inputs s) (he : e ∈ S)
    (hnew : ¬ s.knows e = true) (hdeps : ∀ d ∈ e.deps, s.knows d = true) :
    Noted S inputs (s.place e) where
  closed x hx hk d hd := by
    rcases knows_place.1 hk with hid | hk
    · obtain rfl := hS.unique x hx e he hid
      exact knows_place.2 (.inr (hdeps d hd))
    · exact knows_place.2 (.inr (h.closed x hx hk d hd))
  disjoint := h.disjoint.place hS.unique (fun x hx hk _ _ => (htyped.slots x hx hk).lt_size) he
  reference x hx hk ho := by
    by_cases hid : x.id = e.id
    · obtain rfl := hS.unique x hx e he hid
      obtain ⟨id, i, q, p, rfl, -⟩ := (hS.wellFormed x hx).exists_of_isOutput ho
      have hslot : (s.place (.node id (.output i) [q] p [])).slotAt (q, i) = s.slotAt (q, i) :=
        Sorted.slotAt_place hnew (hdeps q (List.mem_singleton_self q))
      rw [slotsFor_place_output]
      exact congrArg (fun t => [t]) hslot.symm
    · have hkx := (knows_place.1 hk).resolve_left hid
      rw [slotsFor_place_of_ne hid, h.reference x hx hkx ho,
        Sorted.slotAt_place hnew (h.knows_source hS hx hkx).2]
  numbered k ins hins := by
    rcases instruction_place_cases hS htyped h he hdeps hins with
      ⟨old, hold, hnode, -, -⟩ | ⟨hop, rfl, rfl⟩
    · have hknown := (htyped.instructions old (List.mem_of_getElem? hold)).known
      rw [hnode, getElem?_instructionOf_place (ne_of_knows hnew hknown)]
      exact h.numbered k old hold
    · rw [(Sorted.place_operation s hop).2, Std.HashMap.getElem?_insert_self]
  args ins hins := by
    obtain ⟨k, hk⟩ := List.mem_iff_getElem?.1 hins
    rcases instruction_place_cases hS htyped h he hdeps hk with
      ⟨old, hold, hnode, hargs, -⟩ | ⟨-, -, rfl⟩
    · have hmem := List.mem_of_getElem? hold
      have hplaces := htyped.instructions old hmem
      rw [hargs, hnode, h.args old hmem]
      exact List.map_congr_left fun d hd =>
        (slotFor_place hnew (h.closed _ hplaces.mem hplaces.known d hd)).symm
    · exact List.map_congr_left fun d hd => (slotFor_place hnew (hdeps d hd)).symm
  earlier k ins hins d hd hop := by
    rcases instruction_place_cases hS htyped h he hdeps hins with
      ⟨old, hold, hnode, -, -⟩ | ⟨-, rfl, rfl⟩
    · have hplaces := htyped.instructions old (List.mem_of_getElem? hold)
      rw [hnode] at hd
      obtain ⟨j, hj, hof⟩ := h.earlier k old hold d hd hop
      have hknown := h.knows_source hS (hS.closed _ hplaces.mem d hd)
        (h.closed _ hplaces.mem hplaces.known d hd)
      exact ⟨j, hj, (getElem?_instructionOf_place (ne_of_knows hnew hknown.2)).trans hof⟩
    · obtain ⟨hmem, hknown⟩ := h.knows_source hS (hS.closed e he d hd) (hdeps d hd)
      obtain ⟨j, jns, hof, hj, -⟩ := htyped.instructed _ hmem hknown hop
      exact ⟨j, (List.getElem?_eq_some_iff.1 hj).1,
        (getElem?_instructionOf_place (ne_of_knows hnew hknown)).trans hof⟩
  notes ins hins := h.notes_place hS htyped he hnew hdeps hins
  symbols x hx hk hs := by
    rcases knows_place.1 hk with hid | hk
    · exact .inr (free_place (.inl (hS.unique x hx e he hid ▸ hs)))
    · exact (h.symbols x hx hk hs).imp_right fun hfree => free_place (.inr hfree)
  room := by
    refine Nat.le_trans h.room ?_
    by_contra hgt
    have hlt : (s.place e).slots.size < s.slots.size := Nat.lt_of_not_le hgt
    have hget : (s.place e).slots[(s.place e).slots.size]? = some _ :=
      getElem?_slots_place (Array.getElem?_eq_getElem hlt)
    exact Nat.lt_irrefl _ (Array.getElem?_eq_some_iff.1 hget).1
  input x hx := by
    obtain ⟨hk, t, ht, hslots⟩ := h.input x hx
    exact ⟨knows_place.2 (.inr hk), t, ht,
      (slotsFor_place_of_ne (ne_of_knows hnew hk)).trans hslots⟩
  above x hx hk ho hin t ht := by
    by_cases hid : x.id = e.id
    · obtain rfl := hS.unique x hx e he hid
      rw [slotsFor_place_self ho, List.mem_range'_1] at ht
      exact Nat.le_trans h.room ht.1
    · rw [slotsFor_place_of_ne hid] at ht
      exact h.above x hx ((knows_place.1 hk).resolve_left hid) ho hin t ht

end Noted

theorem noted_addInputs (hS : IsDag S) (hin : ∀ x ∈ inputs, x ∈ S ∧ x.isSymbol = true) :
    Noted S inputs (inputs.foldl addInput empty) := by
  have hsym (x : Expr α) (hx : x ∈ inputs) : ∃ id name p, x = .node id (.symbol name) [] p [] :=
    (hS.wellFormed x (hin x hx).1).exists_of_isSymbol (hin x hx).2
  have hone (x : Expr α) (hx : x ∈ inputs) : x.patterns = [x.pattern] := by
    obtain ⟨id, name, p, rfl⟩ := hsym x hx
    rfl
  have hinput {x : Expr α} (hx : x ∈ S) := known_addInputs hS hin hx
  obtain ⟨hslots, hins, -, -, -⟩ := addInputs_spec inputs hone
  set s := inputs.foldl addInput empty
  have hno {k : Nat} {ins : Instruction α} : s.instructions.toList[k]? ≠ some ins := by simp [hins]
  refine ⟨?_, apart_addInputs hS hin, ?_, fun _ _ h => (hno h).elim, ?_,
    fun _ _ h => (hno h).elim, ?_, ?_, ?_, ?_, ?_⟩
  · intro x hx hk d hd
    obtain ⟨id, name, p, rfl⟩ := hsym x ((hinput hx).1.1 hk)
    cases hd
  · intro x hx hk ho
    obtain ⟨id, name, p, rfl⟩ := hsym x ((hinput hx).1.1 hk)
    cases ho
  · simp [hins]
  · simp [hins]
  · exact fun x hx hk _ => .inl ((hinput hx).1.1 hk)
  · rw [← Array.length_toList, hslots, List.length_map]
  · intro x hx
    obtain ⟨hk, hslot⟩ := hinput (hin x hx).1
    obtain ⟨t, ht, hlast⟩ := hslot hx
    exact ⟨hk.2 hx, t, (List.getElem?_eq_some_iff.1 hlast.1).1, ht⟩
  · exact fun x hx hk _ hnin => absurd ((hinput hx).1.1 hk) hnin

/-! ## What is filled -/

/-- The slot of a known node is one of the slots of the result that it stands for. -/
theorem Noted.getElem?_slotsFor_source (hS : IsDag S) (htyped : Typed S s) (h : Noted S inputs s)
    (he : e ∈ S) (hk : s.knows e = true) :
    (s.slotsFor e.source.1)[e.source.2]? = some (s.slotFor e) := by
  obtain ⟨hmem, hknown⟩ := h.knows_source hS he hk
  have hlt := (hS.source_spec he).2.2
  rw [resultCount, ← (htyped.slots _ hmem hknown).patterns.length_eq] at hlt
  rw [slotFor_eq_slotAt (h.reference e he hk), slotAt, List.getElem?_eq_getElem hlt,
    Option.getD_some]

/-- Once the instruction of the node that an expression stands for is done, the expression's slot
is filled, unless it is that of a split whose first result nobody asked for. -/
theorem Noted.slotFor_mem_iff (hS : IsDag S) (htyped : Typed S s) (h : Noted S inputs s)
    (hfree : s.free = #[]) (hin : ∀ x ∈ inputs, x.isSymbol = true) (he : e ∈ S)
    (hk : s.knows e = true) {done : List (Instruction α)}
    (hdone : ∀ ins ∈ done, ins ∈ s.instructions.toList)
    (hafter : e.source.1.isOperation = true → ∃ ins ∈ done, ins.node = e.source.1) :
    s.slotFor e ∈ List.range inputs.length ++ done.flatMap Instruction.written ↔
      (e.op.isSplit = true → s.Required S (e, 0)) := by
  have hslot := h.getElem?_slotsFor_source hS htyped he hk
  have written {ins : Instruction α} (hins : ins ∈ done) (hnode : ins.node = e.source.1)
      (hasked : ins.node.op.isSplit = true → s.Required S e.source) :
      s.slotFor e ∈ List.range inputs.length ++ done.flatMap Instruction.written := by
    refine List.mem_append_right _ (List.mem_flatMap.2 ⟨ins, hins, Instruction.mem_written.2
      ⟨e.source.2, (h.notes ins (hdone ins hins) _ _).2 ⟨hnode ▸ hslot, ?_⟩⟩⟩)
    rw [hnode] at hasked ⊢
    exact hasked
  by_cases hop : e.isOperation = true
  · have hsource := source_of_not_isOutput (not_isOutput_of_isOperation hop)
    rw [hsource] at hslot hafter written
    obtain ⟨ins, hins, hnode⟩ := hafter hop
    refine ⟨fun hmem hs => ?_, fun hasked => written hins hnode (hnode ▸ hasked)⟩
    rcases List.mem_append.1 hmem with hmem | hmem
    · -- a split is no input, so its slots are above those of the inputs
      have hnin : e ∉ inputs := by
        intro hmem
        obtain ⟨id, name, p, rfl⟩ := (hS.wellFormed e he).exists_of_isSymbol (hin e hmem)
        cases hop
      have hle := h.above e he hk (not_isOutput_of_isOperation hop) hnin _
        (List.mem_of_getElem? hslot)
      exact absurd (List.mem_range.1 hmem) (Nat.not_lt.2 hle)
    · -- the instruction that writes the slot is that of the split, and writes its first result
      obtain ⟨jns, hjns, hw⟩ := List.mem_flatMap.1 hmem
      obtain ⟨i, hi⟩ := Instruction.mem_written.1 hw
      have hplaces := htyped.instructions jns (hdone jns hjns)
      obtain ⟨hat, hasked⟩ := (h.notes jns (hdone jns hjns) i _).1 hi
      obtain rfl := h.disjoint _ hplaces.mem e he hplaces.known hk
        (not_isOutput_of_isOperation hplaces.isOperation) (not_isOutput_of_isOperation hop) _
        (List.mem_of_getElem? hat) (List.mem_of_getElem? hslot)
      have hnodup := (htyped.slots _ he hk).nodup
      obtain rfl := (List.getElem?_inj (List.getElem?_eq_some_iff.1 hat).1 hnodup).1
        (hat.trans hslot.symm)
      exact hasked hs
  · have hns : ¬ e.op.isSplit = true := fun hs => hop (isOperation_of_isSplit hs)
    refine iff_of_true ?_ fun hs => absurd hs hns
    rcases isSymbol_or_isOutput (by simpa using hop) with hsym | hout
    · have hmem := (h.symbols e he hk hsym).resolve_right fun hne => hne hfree
      obtain ⟨-, t, ht, hslots⟩ := h.input e hmem
      rw [slotFor, hslots]
      exact List.mem_append_left _ (List.mem_range.2 ht)
    · obtain ⟨id, i, q, p, rfl, hsplit, -⟩ := (hS.wellFormed e he).exists_of_isOutput hout
      obtain ⟨ins, hins, hnode⟩ := hafter (isOperation_of_isSplit hsplit)
      exact written hins hnode fun _ => ⟨_, he, hk, rfl, rfl⟩

end Sorter

namespace Function

variable {f : Function α} {S : Set (Expr α)}

theorem CompiledFrom.exists_sorter (hS : IsDag S) (hf : f.CompiledFrom S) :
    ∃ s : Sorter α, s.Typed (nodesOf (f.inputs ++ f.outputs)) ∧
      s.Noted (nodesOf (f.inputs ++ f.outputs)) f.inputs ∧
      (∀ e ∈ nodesOf (f.inputs ++ f.outputs), s.knows e = true) ∧ s.free = #[] ∧
      f.instructions = s.instructions.toList ∧ f.inputSlots = List.range f.inputs.length ∧
      f.outputSlots = f.outputs.map s.slotFor := by
  have hT : IsDag (nodesOf (f.inputs ++ f.outputs)) :=
    hS.nodesOf fun e he => (List.mem_append.1 he).elim (hf.inputs e) (hf.outputs e)
  obtain ⟨hsym, hfree, heq⟩ := eq_of_compile hf.compile
  have hin : ∀ x ∈ f.inputs, x ∈ nodesOf (f.inputs ++ f.outputs) ∧ x.isSymbol = true :=
    fun x hx => ⟨mem_nodesOf (List.mem_append_left _ hx), hsym x hx⟩
  have hnoted := Sorter.noted_addInputs hT hin
  obtain ⟨⟨htyped, hend⟩, hall, hmono, -⟩ := Sorter.visitAll_induction
    (P := fun s => s.Typed (nodesOf (f.inputs ++ f.outputs)) ∧
      s.Noted (nodesOf (f.inputs ++ f.outputs)) f.inputs) hT
    (fun s e hs he hnew hdeps =>
      ⟨hs.1.place hT he hnew hdeps, hs.2.place hT hs.1 he hnew hdeps⟩)
    f.outputs _ (fun o ho => mem_nodesOf (List.mem_append_right _ ho))
    ⟨(Sorter.typed_addInputs hT hin).1, hnoted⟩
  refine ⟨_, htyped, hend, ?_, hfree, congrArg Function.instructions heq,
    congrArg Function.inputSlots heq, congrArg Function.outputSlots heq⟩
  rintro e ⟨root, hroot, hreach⟩
  have hk := (List.mem_append.1 hroot).elim
    (fun hx => hmono root (hnoted.input root hx).1) (hall root)
  exact (hreach.mem (T := {x | x ∈ nodesOf (f.inputs ++ f.outputs) ∧ Sorter.knows _ x = true})
    (fun x hx d hd => ⟨hT.closed x hx.1 d hd, hend.closed x hx.1 hx.2 d hd⟩)
    ⟨mem_nodesOf hroot, hk⟩).2

/-- The results that the sorter was asked for are those that outputs contain references to. -/
theorem required_iff {s : Sorter α} (hT : IsDag (nodesOf (f.inputs ++ f.outputs)))
    (hin : ∀ x ∈ f.inputs, x.isSymbol = true)
    (hknown : ∀ e ∈ nodesOf (f.inputs ++ f.outputs), s.knows e = true) {source : Expr α × Nat} :
    s.Required (nodesOf (f.inputs ++ f.outputs)) source ↔ f.Requires source := by
  constructor
  · rintro ⟨r, ⟨root, hroot, hreach⟩, -, href⟩
    rcases List.mem_append.1 hroot with hx | ho
    · obtain ⟨id, name, p, rfl⟩ :=
        (hT.wellFormed root (mem_nodesOf hroot)).exists_of_isSymbol (hin root hx)
      cases hreach with
      | refl => cases href.1
      | dep hd => cases hd
    · exact ⟨root, ho, r, hreach, href⟩
  · rintro ⟨o, ho, r, hreach, href⟩
    have hr : r ∈ nodesOf (f.inputs ++ f.outputs) := ⟨o, List.mem_append_right _ ho, hreach⟩
    exact ⟨r, hr, hknown r hr, href⟩

/-! ## What is read from a slot that nobody has filled -/

section Blank

variable {T : Type} [Scalar α] [Element Id α T] {work : Array (List T)} {t : Nat}

theorem getElem?_effect_of_not_mem {ins : Instruction α} (h : t ∉ ins.written) :
    (effect work ins)[t]? = work[t]? :=
  getElem?_put_of_forall_ne fun i hi => h (Instruction.mem_written.2 ⟨i, hi⟩)

theorem getElem?_foldl_effect_of_not_mem {done : List (Instruction α)}
    (h : t ∉ done.flatMap Instruction.written) : (done.foldl effect work)[t]? = work[t]? := by
  induction done generalizing work with
  | nil => rfl
  | cons ins done ih =>
    rw [List.flatMap_cons, List.mem_append, not_or] at h
    rw [List.foldl_cons, ih h.2, getElem?_effect_of_not_mem h.1]

theorem getElem?_of_not_mem_filled {done : List (Instruction α)} {args : List (List T)}
    {p : Pattern} (h : t ∉ f.filled done) (hp : f.slots[t]? = some p) :
    (done.foldl effect (f.start args))[t]? = some (List.replicate p.nnz (ofNumber (0 : α))) := by
  rw [filled, List.mem_append, not_or] at h
  rw [getElem?_foldl_effect_of_not_mem h.2, start, storeArgs, getElem?_foldl_set_of_not_mem,
    Array.getElem?_map, hp, Option.map_some]
  exact fun v hv => h.1 (List.of_mem_zip hv).1

end Blank

variable [Scalar α]

/-- Which slots are filled when they are read: the slot that an instruction reads for an operand
and the slot of an output are inputs' or written by an earlier instruction, unless the operand or
output is a split whose first result no output contains a reference to. As an output such a
split is zeros, whatever the arguments are. -/
theorem filled_iff_requires (hS : IsDag S) (hf : f.CompiledFrom S) :
    (∀ done ins rest, f.instructions = done ++ ins :: rest →
      List.Forall₂ (fun t d => t ∈ f.filled done ↔ (d.op.isSplit = true → f.Requires (d, 0)))
        ins.args ins.node.deps) ∧
    List.Forall₂ (fun t o => t ∈ f.filled f.instructions ↔
      (o.op.isSplit = true → f.Requires (o, 0))) f.outputSlots f.outputs ∧
    ∀ (T : Type) [Element Id α T] (args : List (List T)),
      args.map List.length = f.inputs.map nnz → ∃ outs,
        (f.run args : ExceptT GraphError Id _) = pure outs ∧ List.Forall₂ (fun o out =>
          o.op.isSplit = true → ¬ f.Requires (o, 0) →
            out = List.replicate o.nnz (ofNumber (0 : α))) f.outputs outs := by
  have hT : IsDag (nodesOf (f.inputs ++ f.outputs)) :=
    hS.nodesOf fun e he => (List.mem_append.1 he).elim (hf.inputs e) (hf.outputs e)
  obtain ⟨hsym, -⟩ := eq_of_compile hf.compile
  obtain ⟨s, htyped, hnoted, hknown, hfree, hins, hinputs, houtputs⟩ := hf.exists_sorter hS
  have hiff {done : List (Instruction α)} {e : Expr α} (he : e ∈ nodesOf (f.inputs ++ f.outputs))
      (hdone : ∀ ins ∈ done, ins ∈ f.instructions)
      (hafter : e.source.1.isOperation = true → ∃ ins ∈ done, ins.node = e.source.1) :
      s.slotFor e ∈ f.filled done ↔ (e.op.isSplit = true → f.Requires (e, 0)) := by
    rw [filled, hinputs, hnoted.slotFor_mem_iff hT htyped hfree hsym he (hknown e he)
      (hins ▸ hdone) hafter, required_iff hT hsym hknown]
  have hfilled (o : Expr α) (ho : o ∈ f.outputs) : s.slotFor o ∈ f.filled f.instructions ↔
      (o.op.isSplit = true → f.Requires (o, 0)) := by
    have hoT : o ∈ nodesOf (f.inputs ++ f.outputs) := mem_nodesOf (List.mem_append_right _ ho)
    refine hiff hoT (fun _ h => h) fun hop => ?_
    obtain ⟨hmem, hk⟩ := hnoted.knows_source hT hoT (hknown o hoT)
    obtain ⟨k, ins, -, hk, hnode⟩ := htyped.instructed _ hmem hk hop
    exact ⟨ins, hins ▸ List.mem_of_getElem? hk, hnode⟩
  refine ⟨?_, houtputs ▸ List.forall₂_map_left_iff.2 (List.forall₂_same.2 hfilled), ?_⟩
  · intro done ins rest hsplit
    have hat : s.instructions.toList[done.length]? = some ins := by
      rw [← hins, hsplit, List.getElem?_append_right (Nat.le_refl _), Nat.sub_self]
      rfl
    have hplaces := htyped.instructions ins (List.mem_of_getElem? hat)
    rw [hnoted.args ins (List.mem_of_getElem? hat)]
    refine List.forall₂_map_left_iff.2 (List.forall₂_same.2 fun d hd => ?_)
    have hdT := hT.closed _ hplaces.mem d hd
    refine hiff hdT (fun i hi => hsplit ▸ List.mem_append_left _ hi) fun hop => ?_
    obtain ⟨j, hj, hof⟩ := hnoted.earlier _ ins hat d hd hop
    obtain ⟨hmem, hk⟩ := hnoted.knows_source hT hdT (hknown d hdT)
    obtain ⟨k, jns, hk, hjns, hnode⟩ := htyped.instructed _ hmem hk hop
    obtain rfl := Option.some.inj (hk.symm.trans hof)
    rw [← hins, hsplit, List.getElem?_append_left hj] at hjns
    exact ⟨jns, List.mem_of_getElem? hjns, hnode⟩
  · intro T _ args hargs
    have htypes := hf.typed hS
    have hslots := htypes.outputs
    rw [houtputs, List.forall₂_map_left_iff, List.forall₂_same] at hslots
    refine ⟨_, htypes.run_eq_flow hargs, ?_⟩
    rw [flow, buffers, houtputs, List.map_map]
    refine List.forall₂_map_right_iff.2 (List.forall₂_same.2 fun o ho hs hno => ?_)
    have hblank : s.slotFor o ∉ f.filled f.instructions :=
      fun hmem => hno ((hfilled o ho).1 hmem hs)
    rw [Function.comp_apply, getElem?_of_not_mem_filled hblank (hslots o ho)]
    rfl

/-- The second entry of a column, and a handle to the split that it comes from: nobody asks for the
first entry. -/
theorem filled_iff_requires_handle :
    let x : Expr Rat := .node 0 (.symbol "x") [] (.column 2) []
    let s : Expr Rat := .node 1 (.split .vertical [0, 1, 2]) [x] .scalar [.scalar]
    let b : Expr Rat := .node 3 (.output 1) [s] .scalar []
    ∃ f, compile "f" [x] [b, s] = .ok f ∧ ¬ f.Requires (s, 0) ∧ f.outputSlots = [2, 1] ∧
      2 ∈ f.filled f.instructions ∧ 1 ∉ f.filled f.instructions ∧
      f.evaluate [[3, 5]] = .ok [[5], [0]] := by
  intro x s b
  have hx : Built 1 [x] := .symbol "x" _ .start
  have hsplit : Built 4 [.node 2 (.output 0) [s] .scalar [], b, x] :=
    .make (.split .vertical x [0, 1, 2] []) hx (by simp [Construction.operands]) rfl
  have hG := hsplit.withHandles.inner (e := b) (x := s) (by simp)
    (.of_dep (List.mem_singleton_self s))
  let f : Function Rat := ⟨"f", [x], [b, s], [⟨s, [0], [none, some 2]⟩],
    #[.column 2, .scalar, .scalar], [0], [2, 1]⟩
  have hf : compile "f" [x] [b, s] = .ok f := by cbv
  obtain ⟨hS, hfrom⟩ := compiledFrom_of_built hG (by simp) (by simp) hf
  obtain ⟨-, hfilled, -⟩ := filled_iff_requires hS hfrom
  obtain ⟨hsecond, hrest⟩ := List.forall₂_cons.1 hfilled
  obtain ⟨hfirst, -⟩ := List.forall₂_cons.1 hrest
  have hnot : 1 ∉ f.filled f.instructions := by decide
  exact ⟨f, hf, fun hasked => hnot (hfirst.2 fun _ => hasked), rfl,
    hsecond.2 (fun hs => by cases hs), hnot, by cbv⟩

end Function

end DiffGraph
