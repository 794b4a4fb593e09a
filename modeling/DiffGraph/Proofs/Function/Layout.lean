import Mathlib
import DiffGraph.Proofs.Function.Sort

/-!
# The layout of a compiled function

The depth first search places every node after its operands
(`Sorter.visit_induction`), starting from the slots of the inputs
(`Sorter.sorted_addInputs`). So a compiled function is laid out on the graph of
its inputs and outputs (`Function.exists_layout`): a `Layout` says where every
result lives and that instructions read what earlier ones have written.
-/

namespace DiffGraph

theorem isLast_concat_self {β : Type} {xs : List β} {t : Nat} {x : β} :
    IsLast (xs ++ [x]) t x ↔ t = xs.length := by
  constructor
  · rintro ⟨ht, hlast⟩
    have := (List.getElem?_eq_some_iff.1 ht).1
    have := hlast xs.length List.getElem?_concat_length
    simp only [List.length_append, List.length_singleton] at *
    omega
  · rintro rfl
    refine ⟨List.getElem?_concat_length, fun u hu => ?_⟩
    have := (List.getElem?_eq_some_iff.1 hu).1
    simp only [List.length_append, List.length_singleton] at this
    omega

theorem isLast_concat_of_ne {β : Type} {xs : List β} {t : Nat} {x y : β} (h : y ≠ x) :
    IsLast (xs ++ [y]) t x ↔ IsLast xs t x := by
  have same (u : Nat) : (xs ++ [y])[u]? = some x ↔ xs[u]? = some x := by
    rcases Nat.lt_trichotomy u xs.length with hlt | rfl | hgt
    · rw [List.getElem?_append_left hlt]
    · simp [h]
    · rw [List.getElem?_eq_none (by simp; omega), List.getElem?_eq_none (by omega)]
  simp only [IsLast, same]

theorem exists_isLast {β : Type} {xs : List β} {x : β} (h : x ∈ xs) : ∃ t, IsLast xs t x := by
  induction xs using List.reverseRecOn with
  | nil => cases h
  | append_singleton xs y ih =>
    by_cases hyx : y = x
    · exact hyx ▸ ⟨xs.length, isLast_concat_self.2 rfl⟩
    · obtain ⟨t, ht⟩ := ih ((List.mem_append.1 h).resolve_right fun hx =>
        hyx (List.mem_singleton.1 hx).symm)
      exact ⟨t, (isLast_concat_of_ne hyx).2 ht⟩

namespace Sorter

variable {α : Type} {s : Sorter α} {e x : Expr α}

/-! ## The depth first search -/

section Search

variable {S : Set (Expr α)} {P : Sorter α → Prop}

mutual

/-- What placing new nodes on known operands keeps is kept by a visit. Afterwards the node is
known, and besides it only what it is built from. -/
theorem visit_induction (hS : IsDag S)
    (step : ∀ s e, P s → e ∈ S → ¬ s.knows e = true → (∀ d ∈ e.deps, s.knows d = true) →
      P (s.place e)) :
    ∀ (e : Expr α) (s : Sorter α), e ∈ S → P s →
      P (visit e s) ∧ (visit e s).knows e = true ∧
        (∀ x : Expr α, s.knows x = true → (visit e s).knows x = true) ∧
        ∀ x : Expr α, (visit e s).knows x = true →
          s.knows x = true ∨ ∃ y, e.Reaches y ∧ y.id = x.id
  | .node id op deps pattern others, s, he, hs => by
    rw [visit]
    split
    · rename_i hk
      exact ⟨hs, hk, fun _ h => h, fun _ h => .inl h⟩
    · rename_i hk
      obtain ⟨hP, hall, hmono, hback⟩ := visitAll_induction hS step deps s (hS.closed _ he) hs
      have hnew : ¬ (visitAll deps s).knows (.node id op deps pattern others) = true := by
        intro hkn
        rcases hback _ hkn with hkn | ⟨d, hd, y, hy, hid⟩
        · exact hk hkn
        · have hyS := hy.mem hS.closed (hS.closed _ he d hd)
          obtain rfl := hS.unique y hyS _ he hid
          have hlt : sizeOf d < sizeOf deps := List.sizeOf_lt_of_mem hd
          have hle := hy.sizeOf_le
          rw [Expr.node.sizeOf_spec] at hle
          omega
      refine ⟨step _ _ hP he hnew hall, knows_place.2 (.inl rfl),
        fun x hx => knows_place.2 (.inr (hmono x hx)), fun x hx => ?_⟩
      rcases knows_place.1 hx with hid | hx
      · exact .inr ⟨_, .refl _, hid.symm⟩
      · rcases hback x hx with hx | ⟨d, hd, y, hy, hid⟩
        · exact .inl hx
        · exact .inr ⟨y, .dep hd hy, hid⟩

theorem visitAll_induction (hS : IsDag S)
    (step : ∀ s e, P s → e ∈ S → ¬ s.knows e = true → (∀ d ∈ e.deps, s.knows d = true) →
      P (s.place e)) :
    ∀ (es : List (Expr α)) (s : Sorter α), (∀ e ∈ es, e ∈ S) → P s →
      P (visitAll es s) ∧ (∀ e ∈ es, (visitAll es s).knows e = true) ∧
        (∀ x : Expr α, s.knows x = true → (visitAll es s).knows x = true) ∧
        ∀ x : Expr α, (visitAll es s).knows x = true →
          s.knows x = true ∨ ∃ e ∈ es, ∃ y, e.Reaches y ∧ y.id = x.id
  | [], s, hes, hs => ⟨hs, by simp, fun _ h => h, fun _ h => .inl h⟩
  | e :: es, s, hes, hs => by
    obtain ⟨hP, hk, hmono, hback⟩ := visit_induction hS step e s (hes e (by simp)) hs
    obtain ⟨hP', hk', hmono', hback'⟩ :=
      visitAll_induction hS step es (visit e s) (fun d hd => hes d (by simp [hd])) hP
    rw [visitAll]
    refine ⟨hP', ?_, fun x hx => hmono' x (hmono x hx), ?_⟩
    · intro d hd
      rcases List.mem_cons.1 hd with rfl | hd
      · exact hmono' _ hk
      · exact hk' d hd
    · intro x hx
      rcases hback' x hx with hx | ⟨d, hd, y, hy, hid⟩
      · rcases hback x hx with hx | ⟨y, hy, hid⟩
        · exact .inl hx
        · exact .inr ⟨e, by simp, y, hy, hid⟩
      · exact .inr ⟨d, by simp [hd], y, hy, hid⟩

end

end Search

theorem mem_slots_place {p : Pattern} (hp : p ∈ (s.place e).slots) :
    p ∈ s.slots ∨ p ∈ e.patterns := by
  unfold place at hp
  split at hp
  · simpa [allocate] using hp
  · refine .inl ?_
    unfold require at hp
    dsimp only at hp
    split at hp <;> exact hp
  · simpa [allocate] using hp

/-! ## The inputs -/

theorem addInputs_spec (inputs : List (Expr α)) (hone : ∀ x ∈ inputs, x.patterns = [x.pattern]) :
    (inputs.foldl addInput empty).slots.toList = inputs.map Expr.pattern ∧
    (inputs.foldl addInput empty).instructions = #[] ∧
    (inputs.foldl addInput empty).instructionOf = ∅ ∧
    (inputs.foldl addInput empty).free = #[] ∧
    ∀ id ts, (inputs.foldl addInput empty).slotsOf[id]? = some ts ↔
      ∃ t, ts = [t] ∧ IsLast (inputs.map Expr.id) t id := by
  induction inputs using List.reverseRecOn with
  | nil => simp [empty, IsLast]
  | append_singleton xs x ih =>
    obtain ⟨hslots, hins, hof, hfree, hget⟩ := ih fun y hy => hone y (by simp [hy])
    have hx := hone x (by simp)
    have hsize : (xs.foldl addInput empty).slots.size = xs.length := by
      rw [← Array.length_toList, hslots, List.length_map]
    simp only [List.foldl_append, List.foldl_cons, List.foldl_nil]
    refine ⟨?_, hins, hof, hfree, fun id ts => ?_⟩
    · simp [addInput, allocate, hslots, hx]
    · have hinsert : ((xs.foldl addInput empty).addInput x).slotsOf =
          (xs.foldl addInput empty).slotsOf.insert x.id [xs.length] := by
        simp [addInput, allocate, hsize, Expr.resultCount, hx]
      rw [hinsert, Std.HashMap.getElem?_insert, List.map_append, List.map_singleton]
      by_cases hid : x.id = id
      · subst hid
        simp [isLast_concat_self, eq_comm]
      · rw [if_neg (by simpa using hid), hget]
        simp only [isLast_concat_of_ne hid]

/-- Only the inputs are known at the start, and each has one slot: the place where it is listed
last. -/
theorem known_addInputs {S : Set (Expr α)} (hS : IsDag S) {inputs : List (Expr α)}
    (hin : ∀ x ∈ inputs, x ∈ S ∧ x.isSymbol = true) (hx : x ∈ S) :
    ((inputs.foldl addInput empty).knows x = true ↔ x ∈ inputs) ∧ (x ∈ inputs →
      ∃ t, (inputs.foldl addInput empty).slotsFor x = [t] ∧ IsLast inputs t x) := by
  have hone (x : Expr α) (hx : x ∈ inputs) : x.patterns = [x.pattern] := by
    obtain ⟨id, name, p, rfl⟩ := (hS.wellFormed x (hin x hx).1).exists_of_isSymbol (hin x hx).2
    rfl
  obtain ⟨-, -, -, -, hget⟩ := addInputs_spec inputs hone
  have hat (t : Nat) : (inputs.map Expr.id)[t]? = some x.id ↔ inputs[t]? = some x := by
    rw [List.getElem?_map, Option.map_eq_some_iff]
    constructor
    · rintro ⟨y, hy, hid⟩
      rw [hy, hS.unique y (hin y (List.mem_of_getElem? hy)).1 x hx hid]
    · exact fun h => ⟨x, h, rfl⟩
  have hslots (t : Nat) : (inputs.foldl addInput empty).slotsOf[x.id]? = some [t] ↔
      IsLast inputs t x := by
    rw [hget]
    simp only [IsLast, hat, List.cons.injEq, and_true, exists_eq_left']
  refine ⟨?_, fun hmem => ?_⟩
  · rw [knows_iff, Std.HashMap.mem_iff_isSome_getElem?, Option.isSome_iff_exists]
    constructor
    · rintro ⟨ts, hts⟩
      obtain ⟨t, rfl, -⟩ := (hget x.id ts).1 hts
      exact List.mem_of_getElem? ((hslots t).1 hts).1
    · intro hmem
      obtain ⟨t, ht⟩ := exists_isLast hmem
      exact ⟨[t], (hslots t).2 ht⟩
  · obtain ⟨t, ht⟩ := exists_isLast hmem
    refine ⟨t, ?_, ht⟩
    rw [slotsFor, (hslots t).2 ht, Option.getD_some]

theorem apart_addInputs {S : Set (Expr α)} (hS : IsDag S) {inputs : List (Expr α)}
    (hin : ∀ x ∈ inputs, x ∈ S ∧ x.isSymbol = true) : (inputs.foldl addInput empty).Apart S := by
  intro a ha b hb hka hkb _ _ t hta htb
  have hinput {x : Expr α} (hx : x ∈ S) := known_addInputs hS hin hx
  obtain ⟨ta, hslota, hlasta⟩ := (hinput ha).2 ((hinput ha).1.1 hka)
  obtain ⟨tb, hslotb, hlastb⟩ := (hinput hb).2 ((hinput hb).1.1 hkb)
  rw [hslota, List.mem_singleton] at hta
  rw [hslotb, List.mem_singleton] at htb
  subst hta htb
  exact Option.some.inj (hlasta.1.symm.trans hlastb.1)

theorem sorted_addInputs {n : Nat} {S : Set (Expr α)} (hS : IsGraph n S) {inputs : List (Expr α)}
    (hin : ∀ x ∈ inputs, x ∈ S ∧ x.isSymbol = true) :
    Sorted S inputs (inputs.foldl addInput empty) := by
  have hsym (x : Expr α) (hx : x ∈ inputs) : ∃ id name p, x = .node id (.symbol name) [] p [] :=
    (hS.wellFormed x (hin x hx).1).exists_of_isSymbol (hin x hx).2
  have hone (x : Expr α) (hx : x ∈ inputs) : x.patterns = [x.pattern] := by
    obtain ⟨id, name, p, rfl⟩ := hsym x hx
    rfl
  have hinput {x : Expr α} (hx : x ∈ S) := known_addInputs hS.isDag hin hx
  obtain ⟨hslots, hins, -, hfree, -⟩ := addInputs_spec inputs hone
  set s := inputs.foldl addInput empty with hs
  have hknown {x : Expr α} (hx : x ∈ S) (hk : s.knows x = true) :
      x ∈ inputs ∧ ∃ t, s.slotsFor x = [t] ∧ IsLast inputs t x :=
    ⟨(hinput hx).1.1 hk, (hinput hx).2 ((hinput hx).1.1 hk)⟩
  have hnot {x : Expr α} (hx : x ∈ inputs) : x.isOutput = false ∧ x.isOperation = false := by
    obtain ⟨id, name, p, rfl⟩ := hsym x hx
    exact ⟨rfl, rfl⟩
  have hslot (t : Nat) (x : Expr α) (hx : inputs[t]? = some x) : s.slots[t]? = some x.pattern := by
    rw [← Array.getElem?_toList, hslots, List.getElem?_map, hx]
    rfl
  refine ⟨?_, ?_, apart_addInputs hS.isDag hin, ?_, ?_, ?_, ?_, ?_, fun h => absurd hfree h, ?_,
    hslot, ?_⟩
  · intro x hx hk d hd
    obtain ⟨id, name, p, rfl⟩ := hsym x (hknown hx hk).1
    cases hd
  · intro x hx hk _
    obtain ⟨hmem, t, ht, hlast⟩ := hknown hx hk
    refine ⟨t, ?_, fun i p hp => ?_⟩
    · rw [ht, Expr.resultCount, hone x hmem]
      rfl
    · rw [hone x hmem, List.getElem?_singleton] at hp
      split at hp
      · rename_i hi
        subst hi
        exact hp ▸ hslot t x hlast.1
      · cases hp
  · intro x hx hk ho
    rw [(hnot (hknown hx hk).1).1] at ho
    cases ho
  · intro k ins hk
    simp [hins] at hk
  · intro x hx hk ho
    rw [(hnot (hknown hx hk).1).2] at ho
    cases ho
  · simp [hins]
  · exact fun x hx hk _ => .inl (hknown hx hk).1
  · intro x hx
    obtain ⟨hk, hlast⟩ := hinput (hin x hx).1
    exact ⟨hk.2 hx, hlast hx⟩
  · exact fun x hx hk _ hnin => absurd (hknown hx hk).1 hnin

end Sorter

/-! ## Layouts -/

namespace Function

variable {α : Type} {f : Function α} {n : Nat} {S : Set (Expr α)} {inputs outputs : List (Expr α)}
  {name : String}

/-- How a function's slots hold the results of the nodes of its graph: `slot` gives the place of
every result. -/
structure Layout (f : Function α) (S : Set (Expr α)) (slot : Expr α × Nat → Nat) : Prop where
  inputSlots : f.inputSlots = List.range f.inputs.length
  outputSlots : f.outputSlots = f.outputs.map fun o => slot o.source
  input : ∀ x ∈ f.inputs, x ∈ S ∧ x.isSymbol = true ∧ IsLast f.inputs (slot (x, 0)) x
  symbols : ∀ e ∈ S, e.isSymbol = true → e ∈ f.inputs
  above : ∀ e ∈ S, e.isOperation = true → ∀ i < e.resultCount, f.inputs.length ≤ slot (e, i)
  inputPatterns : ∀ (t : Nat) (x : Expr α), f.inputs[t]? = some x → f.slots[t]? = some x.pattern
  patterns : ∀ e ∈ S, e.isOutput = false → ∀ i p, e.patterns[i]? = some p →
    f.slots[slot (e, i)]? = some p
  injective : ∀ a ∈ S, ∀ b ∈ S, a.isOutput = false → b.isOutput = false →
    ∀ i < a.resultCount, ∀ j < b.resultCount, slot (a, i) = slot (b, j) → (a, i) = (b, j)
  fits : ∀ done ins rest, f.instructions = done ++ ins :: rest → ins.Fits S slot done
  nodup : (f.instructions.map fun ins => ins.node.id).Nodup
  complete : ∀ e ∈ S, e.isOperation = true → ∃ ins ∈ f.instructions, ins.node = e
  outputs : ∀ o ∈ f.outputs, o ∈ S ∧ o.op.isSplit = false ∧ Ready slot f.instructions o.source

namespace Layout

variable {slot : Expr α × Nat → Nat}

theorem lt_size (h : f.Layout S slot) {e : Expr α} (he : e ∈ S) (ho : e.isOutput = false) {i : Nat}
    (hi : i < e.resultCount) : slot (e, i) < f.slots.size := by
  obtain ⟨p, hp⟩ : ∃ p, e.patterns[i]? = some p := ⟨_, List.getElem?_eq_getElem hi⟩
  exact (Array.getElem?_eq_some_iff.1 (h.patterns e he ho i p hp)).1

theorem inputs_le_size (h : f.Layout S slot) : f.inputs.length ≤ f.slots.size := by
  by_contra hlt
  obtain ⟨x, hx⟩ : ∃ x, f.inputs[f.slots.size]? = some x :=
    ⟨_, List.getElem?_eq_getElem (by omega)⟩
  exact Nat.lt_irrefl _ (Array.getElem?_eq_some_iff.1 (h.inputPatterns _ x hx)).1

end Layout

theorem sorted_visitAll (hS : IsGraph n (nodesOf (inputs ++ outputs)))
    (hin : ∀ x ∈ inputs, x.isSymbol = true) :
    Sorter.Sorted (nodesOf (inputs ++ outputs)) inputs
        (Sorter.visitAll outputs (inputs.foldl Sorter.addInput .empty)) ∧
      ∀ e ∈ nodesOf (inputs ++ outputs),
        (Sorter.visitAll outputs (inputs.foldl Sorter.addInput .empty)).knows e = true := by
  have hmem (e : Expr α) (he : e ∈ inputs ++ outputs) : e ∈ nodesOf (inputs ++ outputs) :=
    ⟨e, he, .refl e⟩
  have hstart : Sorter.Sorted (nodesOf (inputs ++ outputs)) inputs
      (inputs.foldl Sorter.addInput .empty) :=
    Sorter.sorted_addInputs hS fun x hx => ⟨hmem x (List.mem_append_left _ hx), hin x hx⟩
  obtain ⟨hsorted, hall, hmono, -⟩ := Sorter.visitAll_induction hS.isDag
    (fun s e hs he hnew hdeps => hs.place hS he hnew hdeps) outputs _
    (fun o ho => hmem o (List.mem_append_right _ ho)) hstart
  refine ⟨hsorted, ?_⟩
  rintro e ⟨root, hroot, hreach⟩
  have hknown :
      (Sorter.visitAll outputs (inputs.foldl Sorter.addInput .empty)).knows root = true := by
    rcases List.mem_append.1 hroot with hroot | hroot
    · exact hmono root (hstart.input root hroot).1
    · exact hall root hroot
  have hrootS := hmem root hroot
  clear hroot
  induction hreach with
  | refl => exact hknown
  | dep hd _ ih =>
    exact ih (hsorted.closed _ hrootS hknown _ hd) (hS.closed _ hrootS _ hd)

theorem placeInputs_eq (hin : ∀ x ∈ inputs, x.isSymbol = true) :
    placeInputs inputs = .ok (inputs.foldl Sorter.addInput .empty, List.range inputs.length) := by
  unfold placeInputs
  rw [List.findIdx?_eq_none_iff.2 fun x hx => by simp [hin x hx]]

theorem isSymbol_of_placeInputs {start : Sorter α × List Nat}
    (h : placeInputs inputs = .ok start) : ∀ x ∈ inputs, x.isSymbol = true := by
  unfold placeInputs at h
  split at h
  · cases h
  · rename_i hnone
    intro x hx
    simpa using List.findIdx?_eq_none_iff.1 hnone x hx

/-- A sorter that knows the whole graph and met no other symbols than the inputs lays out a
function. -/
theorem layout_of_sorted {s : Sorter α} (hS : IsGraph n S) (hs : Sorter.Sorted S inputs s)
    (hknown : ∀ e ∈ S, s.knows e = true) (hfree : s.free = #[])
    (hin : ∀ x ∈ inputs, x ∈ S ∧ x.isSymbol = true)
    (hout : ∀ o ∈ outputs, o ∈ S ∧ o.op.isSplit = false) :
    Layout ⟨name, inputs, outputs, s.instructions.toList, s.slots, List.range inputs.length,
      outputs.map s.slotFor⟩ S s.slotAt := by
  have hsym (e : Expr α) (he : e ∈ S) (h : e.isSymbol = true) : e ∈ inputs :=
    (hs.symbols e he (hknown e he) h).resolve_right fun h => h hfree
  have hslot (e : Expr α) (he : e ∈ S) (ho : e.isOutput = false) :
      ∃ first, (∀ i < e.resultCount, s.slotAt (e, i) = first + i ∧ first + i ∈ s.slotsFor e) ∧
        ∀ i p, e.patterns[i]? = some p → s.slots[first + i]? = some p := by
    obtain ⟨first, hslots, hpat⟩ := hs.allocated e he (hknown e he) ho
    refine ⟨first, fun i hi => ⟨?_, ?_⟩, hpat⟩
    · rw [Sorter.slotAt, hslots, List.getElem?_range' hi, Option.getD_some, Nat.one_mul]
    · rw [hslots, List.mem_range'_1]
      omega
  refine ⟨rfl, ?_, ?_, hsym, ?_, hs.inputSlots, ?_, ?_, ?_, hs.nodup, ?_, ?_⟩
  · exact List.map_congr_left fun o ho => hs.slotFor_eq (hout o ho).1 (hknown o (hout o ho).1)
  · intro x hx
    obtain ⟨-, t, hslots, hlast⟩ := hs.input x hx
    refine ⟨(hin x hx).1, (hin x hx).2, ?_⟩
    rw [Sorter.slotAt, hslots]
    exact hlast
  · intro e he ho i hi
    have hno := Expr.not_isOutput_of_isOperation ho
    obtain ⟨first, hat, -⟩ := hslot e he hno
    rw [(hat i hi).1]
    refine hs.above e he (hknown e he) hno (fun hin' => ?_) _ (hat i hi).2
    obtain ⟨id, name, p, rfl⟩ := (hS.wellFormed e he).exists_of_isSymbol (hin e hin').2
    cases ho
  · intro e he ho i p hp
    obtain ⟨first, hat, hpat⟩ := hslot e he ho
    rw [(hat i (List.getElem?_eq_some_iff.1 hp).1).1]
    exact hpat i p hp
  · intro a ha b hb hoa hob i hi j hj heq
    obtain ⟨first, hat, -⟩ := hslot a ha hoa
    obtain ⟨first', hat', -⟩ := hslot b hb hob
    rw [(hat i hi).1, (hat' j hj).1] at heq
    obtain rfl := hs.disjoint a ha b hb (hknown a ha) (hknown b hb) hoa hob _ (hat i hi).2
      (heq ▸ (hat' j hj).2)
    have := (hat i hi).1.symm.trans (hat' i hi).1
    exact congrArg (Prod.mk a) (by omega)
  · intro done ins rest h
    have hk : s.instructions.toList[done.length]? = some ins := by
      rw [show s.instructions.toList = done ++ ins :: rest from h,
        List.getElem?_append_right (Nat.le_refl _), Nat.sub_self]
      rfl
    have hfits := (hs.fits _ ins hk).2
    rwa [show s.instructions.toList = done ++ ins :: rest from h, List.take_left' rfl] at hfits
  · intro e he ho
    obtain ⟨k, ins, -, hins, hnode⟩ := hs.instructed e he (hknown e he) ho
    exact ⟨ins, List.mem_of_getElem? hins, hnode⟩
  · exact fun o ho => ⟨(hout o ho).1, (hout o ho).2,
      hs.ready (hout o ho).1 (hknown o (hout o ho).1) (hout o ho).2⟩

/-- Compiling a graph succeeds if the inputs are symbols and all symbols of the outputs are
inputs. -/
theorem compile_eq_ok (hS : IsGraph n (nodesOf (inputs ++ outputs)))
    (hin : ∀ x ∈ inputs, x.isSymbol = true)
    (hcover : ∀ e ∈ nodesOf (inputs ++ outputs), e.isSymbol = true → e ∈ inputs) :
    ∃ f, compile name inputs outputs = .ok f := by
  have hfree : (Sorter.visitAll outputs (inputs.foldl Sorter.addInput .empty)).free.size = 0 := by
    by_contra hne
    obtain ⟨e, he, hsym, hnin⟩ := (sorted_visitAll hS hin).1.free fun h => hne (by simp [h])
    exact hnin (hcover e he hsym)
  unfold compile
  rw [placeInputs_eq hin]
  simp [bind, Except.bind, pure, Except.pure, hfree]

/-- What compiles: functions of symbols whose sort met no other symbol. They are what the sort has
collected. -/
theorem eq_of_compile (h : compile name inputs outputs = .ok f) :
    (∀ x ∈ inputs, x.isSymbol = true) ∧
      (Sorter.visitAll outputs (inputs.foldl Sorter.addInput .empty)).free = #[] ∧
      f = ⟨name, inputs, outputs,
        (Sorter.visitAll outputs (inputs.foldl Sorter.addInput .empty)).instructions.toList,
        (Sorter.visitAll outputs (inputs.foldl Sorter.addInput .empty)).slots,
        List.range inputs.length,
        outputs.map (Sorter.visitAll outputs (inputs.foldl Sorter.addInput .empty)).slotFor⟩ := by
  unfold compile at h
  cases hplace : placeInputs inputs with
  | error e => simp [hplace, bind, Except.bind] at h
  | ok start =>
    have hin := isSymbol_of_placeInputs hplace
    obtain rfl := Except.ok.inj (hplace.symm.trans (placeInputs_eq hin))
    by_cases hfree : (Sorter.visitAll outputs (inputs.foldl Sorter.addInput .empty)).free.size = 0
    · simp only [hplace, bind, Except.bind, pure, Except.pure, hfree, ne_eq, not_true_eq_false,
        if_false, Except.ok.injEq] at h
      exact ⟨hin, Array.eq_empty_of_size_eq_zero hfree, h.symm⟩
    · simp [hplace, bind, Except.bind, hfree, throw, throwThe, MonadExceptOf.throw] at h

/-- A compiled function is laid out on the graph of its inputs and outputs. -/
theorem exists_layout (hS : IsGraph n (nodesOf (inputs ++ outputs)))
    (hout : ∀ o ∈ outputs, o.op.isSplit = false) (h : compile name inputs outputs = .ok f) :
    f.name = name ∧ f.inputs = inputs ∧ f.outputs = outputs ∧
      ∃ slot, f.Layout (nodesOf (inputs ++ outputs)) slot := by
  have hmem (e : Expr α) (he : e ∈ inputs ++ outputs) : e ∈ nodesOf (inputs ++ outputs) :=
    ⟨e, he, .refl e⟩
  obtain ⟨hin, hfree, rfl⟩ := eq_of_compile h
  obtain ⟨hsorted, hknown⟩ := sorted_visitAll hS hin
  exact ⟨rfl, rfl, rfl, _, layout_of_sorted hS hsorted hknown hfree
    (fun x hx => ⟨hmem x (List.mem_append_left _ hx), hin x hx⟩)
    fun o ho => ⟨hmem o (List.mem_append_right _ ho), hout o ho⟩⟩

theorem exists_of_mem_slots (hS : IsGraph n (nodesOf (inputs ++ outputs)))
    (h : compile name inputs outputs = .ok f) {p : Pattern} (hp : p ∈ f.slots) :
    ∃ e ∈ nodesOf (inputs ++ outputs), p ∈ e.patterns := by
  have hmem (e : Expr α) (he : e ∈ inputs ++ outputs) : e ∈ nodesOf (inputs ++ outputs) :=
    ⟨e, he, .refl e⟩
  obtain ⟨hin, -, rfl⟩ := eq_of_compile h
  have hone (x : Expr α) (hx : x ∈ inputs) : x.patterns = [x.pattern] := by
    obtain ⟨id, name, q, rfl⟩ :=
      (hS.wellFormed x (hmem x (List.mem_append_left _ hx))).exists_of_isSymbol (hin x hx)
    rfl
  have hstart : ∀ p ∈ (inputs.foldl Sorter.addInput .empty).slots,
      ∃ e ∈ nodesOf (inputs ++ outputs), p ∈ e.patterns := by
    intro p hp
    rw [← Array.mem_toList_iff, (Sorter.addInputs_spec inputs hone).1] at hp
    obtain ⟨x, hx, rfl⟩ := List.mem_map.1 hp
    exact ⟨x, hmem x (List.mem_append_left _ hx), by simp [hone x hx]⟩
  have hvisit := Sorter.visitAll_induction
    (P := fun s => ∀ p ∈ s.slots, ∃ e ∈ nodesOf (inputs ++ outputs), p ∈ e.patterns) hS.isDag
    (fun s e hs he _ _ p hp => (Sorter.mem_slots_place hp).elim (hs p) fun hp => ⟨e, he, hp⟩)
    outputs _ (fun o ho => hmem o (List.mem_append_right _ ho)) hstart
  exact hvisit.1 p hp

end Function

end DiffGraph
