import Mathlib
import DiffGraph.Function.Basic
import DiffGraph.Proofs.Graph.Node

/-!
# The order of the instructions

What the sorter knows after every step (`Sorter.Sorted`): which slots the results
of the nodes met so far have, that different results have different slots, that a
reference stands for the slot of the result that it names, and that an
instruction reads slots of symbols and of earlier instructions only. Placing a
node whose operands are known keeps all of it (`Sorted.place`).
-/

namespace DiffGraph

/-- The slot of the result holds its value after the instructions `done`: it belongs to a symbol
or is written by one of them. -/
def Ready {α : Type} (slot : Expr α × Nat → Nat) (done : List (Instruction α))
    (source : Expr α × Nat) : Prop :=
  (source.1.isSymbol = true ∧ source.2 = 0) ∨
    ∃ ins ∈ done, ins.node = source.1 ∧ ins.results[source.2]? = some (some (slot source))

/-- The instruction reads the slots of its node's operands, which are ready after `done`, and
writes slots of its node's results only. -/
structure Instruction.Fits {α : Type} (S : Set (Expr α)) (slot : Expr α × Nat → Nat)
    (done : List (Instruction α)) (ins : Instruction α) : Prop where
  mem : ins.node ∈ S
  isOperation : ins.node.isOperation = true
  args : ins.args = ins.node.deps.map fun d => slot d.source
  ready : ∀ d ∈ ins.node.deps, Ready slot done d.source
  length : ins.results.length = ins.node.resultCount
  results : ∀ i t, ins.results[i]? = some (some t) → t = slot (ins.node, i)
  single : ins.node.op.isSplit = false → ins.results = [some (slot (ins.node, 0))]

/-- The same instructions with at least the same results, and perhaps more of them. -/
def Keeps {α : Type} (old new : List (Instruction α)) : Prop :=
  ∀ (k : Nat) (ins : Instruction α), old[k]? = some ins → ∃ ins' : Instruction α,
    new[k]? = some ins' ∧ ins'.node = ins.node ∧ ins'.args = ins.args ∧
      ∀ (i t : Nat), ins.results[i]? = some (some t) → ins'.results[i]? = some (some t)

theorem Instruction.Fits.keep {α : Type} {S : Set (Expr α)} {slot slot' : Expr α × Nat → Nat}
    {done done' : List (Instruction α)} {ins : Instruction α} (h : ins.Fits S slot done)
    (hnode : ∀ i, slot' (ins.node, i) = slot (ins.node, i))
    (hdeps : ∀ d ∈ ins.node.deps, slot' d.source = slot d.source)
    (hready : ∀ d ∈ ins.node.deps, Ready slot done d.source → Ready slot' done' d.source) :
    ins.Fits S slot' done' where
  mem := h.mem
  isOperation := h.isOperation
  args := h.args.trans (List.map_congr_left fun d hd => (hdeps d hd).symm)
  ready d hd := hready d hd (h.ready d hd)
  length := h.length
  results i t ht := (h.results i t ht).trans (hnode i).symm
  single hs := by rw [h.single hs, hnode]

namespace Keeps

variable {α : Type} {old new : List (Instruction α)}

theorem refl (old : List (Instruction α)) : Keeps old old :=
  fun _ ins h => ⟨ins, h, rfl, rfl, fun _ _ h => h⟩

theorem append (old more : List (Instruction α)) : Keeps old (old ++ more) := by
  intro k ins h
  have hk := (List.getElem?_eq_some_iff.1 h).1
  exact ⟨ins, by rw [List.getElem?_append_left hk, h], rfl, rfl, fun _ _ h => h⟩

theorem take (h : Keeps old new) (k : Nat) : Keeps (old.take k) (new.take k) := by
  intro j ins hj
  rw [List.getElem?_take] at hj
  split at hj
  · rename_i hjk
    obtain ⟨ins', hj', rest⟩ := h j ins hj
    exact ⟨ins', by rw [List.getElem?_take, if_pos hjk, hj'], rest⟩
  · cases hj

theorem ready (h : Keeps old new) {slot slot' : Expr α × Nat → Nat} {source : Expr α × Nat}
    (hslot : slot' source = slot source) (hr : Ready slot old source) : Ready slot' new source := by
  rcases hr with hsym | ⟨ins, hins, hnode, hres⟩
  · exact .inl hsym
  · obtain ⟨k, hk⟩ := List.mem_iff_getElem?.1 hins
    obtain ⟨ins', hk', hnode', -, hres'⟩ := h k ins hk
    exact .inr ⟨ins', List.mem_of_getElem? hk', hnode'.trans hnode, hslot ▸ hres' _ _ hres⟩

end Keeps

def IsLast {β : Type} (xs : List β) (t : Nat) (x : β) : Prop :=
  xs[t]? = some x ∧ ∀ u : Nat, xs[u]? = some x → u ≤ t

theorem isLast_of_nodup {β : Type} {xs : List β} (h : xs.Nodup) {i : Nat} {x : β}
    (hx : xs[i]? = some x) : IsLast xs i x :=
  ⟨hx, fun _ hu => Nat.le_of_eq ((List.getElem?_inj (List.getElem?_eq_some_iff.1 hu).1 h).1
    (hu.trans hx.symm))⟩

namespace Sorter

variable {α : Type} {s : Sorter α} {e x : Expr α}

def slotAt (s : Sorter α) (source : Expr α × Nat) : Nat :=
  (s.slotsFor source.1)[source.2]?.getD 0

/-! ## What placing a node changes -/

theorem knows_iff : s.knows e = true ↔ e.id ∈ s.slotsOf :=
  Std.HashMap.contains_iff_mem

theorem slotsOf_require (s : Sorter α) (producer index slot : Nat) :
    (s.require producer index slot).slotsOf = s.slotsOf := by
  unfold require
  split <;> rfl

theorem slotsOf_place (s : Sorter α) (e : Expr α) :
    (s.place e).slotsOf = s.slotsOf.insert e.id
      (match e.op, e.deps with
        | .output index, producer :: _ => [s.slotAt (producer, index)]
        | _, _ => List.range' s.slots.size e.resultCount) := by
  unfold place
  split
  · rename_i name _ hop
    simp only [hop]
    rfl
  · rename_i index producer _ hop hdeps
    simp only [hop, hdeps, slotsOf_require]
    rfl
  · rename_i hsym hout
    split
    · rename_i index producer rest hop hdeps
      exact absurd hdeps (hout index producer rest hop)
    · rfl

theorem knows_place : (s.place e).knows x = true ↔ x.id = e.id ∨ s.knows x = true := by
  rw [knows_iff, knows_iff, slotsOf_place, Std.HashMap.mem_insert]
  rw [beq_iff_eq, eq_comm]

theorem slotsFor_place_of_ne (h : x.id ≠ e.id) : (s.place e).slotsFor x = s.slotsFor x := by
  simp [slotsFor, slotsOf_place, Std.HashMap.getElem?_insert, Ne.symm h]

theorem slotsFor_place_self (ho : e.isOutput = false) :
    (s.place e).slotsFor e = List.range' s.slots.size e.resultCount := by
  unfold Expr.isOutput at ho
  simp only [slotsFor, slotsOf_place, Std.HashMap.getElem?_insert_self, Option.getD_some]
  split
  · rename_i hop _
    simp [hop] at ho
  · rfl

theorem slotsFor_place_output (s : Sorter α) (id i : Nat) (q : Expr α) (p : Pattern) :
    (s.place (.node id (.output i) [q] p [])).slotsFor (.node id (.output i) [q] p []) =
      [s.slotAt (q, i)] := by
  simp only [slotsFor, slotsOf_place, Std.HashMap.getElem?_insert_self, Option.getD_some]
  rfl

theorem getElem?_slots_place {t : Nat} {p : Pattern} (h : s.slots[t]? = some p) :
    (s.place e).slots[t]? = some p := by
  have grown (more : Array Pattern) : (s.slots ++ more)[t]? = some p := by
    rw [Array.getElem?_append_left (Array.getElem?_eq_some_iff.1 h).1, h]
  unfold place require
  split
  · exact grown _
  · dsimp only
    split <;> exact h
  · exact grown _

theorem slots_place (ho : e.isOutput = false) :
    (s.place e).slots = s.slots ++ e.patterns.toArray := by
  unfold Expr.isOutput at ho
  unfold place
  split
  · rfl
  · rename_i hop _
    simp [hop] at ho
  · rfl

theorem free_place (h : e.isSymbol = true ∨ s.free ≠ #[]) : (s.place e).free ≠ #[] := by
  unfold place require
  split
  · simp
  · rename_i hop _
    have hfree := h.resolve_left (by simp [Expr.isSymbol, Expr.name?, hop])
    dsimp only
    split <;> exact hfree
  · rename_i hsym _
    refine h.resolve_left fun hs => ?_
    unfold Expr.isSymbol Expr.name? at hs
    split at hs
    · rename_i hop
      exact hsym _ hop
    · cases hs

/-- With a node and its operands the node is known that it stands for. -/
theorem knows_source_of_deps (hdeps : ∀ d ∈ e.deps, s.knows d = true) (hk : s.knows e = true) :
    s.knows e.source.1 = true := by
  unfold Expr.source
  split
  · rename_i hd
    exact hdeps _ (by simp [hd])
  · exact hk

theorem slotFor_eq_slotAt (h : e.isOutput = true → s.slotsFor e = [s.slotAt e.source]) :
    s.slotFor e = s.slotAt e.source := by
  by_cases ho : e.isOutput = true
  · rw [slotFor, h ho]
    rfl
  · rw [slotFor, Expr.source_of_not_isOutput (by simpa using ho), slotAt]
    cases s.slotsFor e <;> rfl

/-- Different nodes have different slots, unless they are references. -/
def Apart (S : Set (Expr α)) (s : Sorter α) : Prop :=
  ∀ a ∈ S, ∀ b ∈ S, s.knows a = true → s.knows b = true → a.isOutput = false →
    b.isOutput = false → ∀ t ∈ s.slotsFor a, t ∈ s.slotsFor b → a = b

/-- The slots of a new node are above all others. -/
theorem Apart.place {S : Set (Expr α)} (h : s.Apart S)
    (unique : ∀ a ∈ S, ∀ b ∈ S, a.id = b.id → a = b)
    (hlt : ∀ x ∈ S, s.knows x = true → x.isOutput = false →
      ∀ t ∈ s.slotsFor x, t < s.slots.size) (he : e ∈ S) : (s.place e).Apart S := by
  have above {y z : Expr α} (hy : y.id = e.id) (hz : z.id ≠ e.id) (hyS : y ∈ S) (hzS : z ∈ S)
      (hkz : (s.place e).knows z = true) (hoy : y.isOutput = false) (hoz : z.isOutput = false)
      {t : Nat} (hty : t ∈ (s.place e).slotsFor y) (htz : t ∈ (s.place e).slotsFor z) : False := by
    obtain rfl := unique y hyS e he hy
    rw [slotsFor_place_self hoy, List.mem_range'_1] at hty
    rw [slotsFor_place_of_ne hz] at htz
    have := hlt z hzS ((knows_place.1 hkz).resolve_left hz) hoz t htz
    omega
  intro a ha b hb hka hkb hoa hob t hta htb
  by_cases hae : a.id = e.id <;> by_cases hbe : b.id = e.id
  · exact unique a ha b hb (hae.trans hbe.symm)
  · exact (above hae hbe ha hb hkb hoa hob hta htb).elim
  · exact (above hbe hae hb ha hka hob hoa htb hta).elim
  · rw [slotsFor_place_of_ne hae] at hta
    rw [slotsFor_place_of_ne hbe] at htb
    exact h a ha b hb ((knows_place.1 hka).resolve_left hae)
      ((knows_place.1 hkb).resolve_left hbe) hoa hob t hta htb

/-- What holds of the sorter after every step. -/
structure Sorted (S : Set (Expr α)) (inputs : List (Expr α)) (s : Sorter α) : Prop where
  closed : ∀ e ∈ S, s.knows e = true → ∀ d ∈ e.deps, s.knows d = true
  allocated : ∀ e ∈ S, s.knows e = true → e.isOutput = false →
    ∃ first, s.slotsFor e = List.range' first e.resultCount ∧
      ∀ i p, e.patterns[i]? = some p → s.slots[first + i]? = some p
  disjoint : ∀ a ∈ S, ∀ b ∈ S, s.knows a = true → s.knows b = true → a.isOutput = false →
    b.isOutput = false → ∀ t ∈ s.slotsFor a, t ∈ s.slotsFor b → a = b
  reference : ∀ e ∈ S, s.knows e = true → e.isOutput = true →
    s.slotsFor e = [s.slotAt e.source] ∧ Ready s.slotAt s.instructions.toList e.source
  fits : ∀ (k : Nat) (ins : Instruction α), s.instructions.toList[k]? = some ins →
    s.knows ins.node = true ∧ ins.Fits S s.slotAt (s.instructions.toList.take k)
  instructed : ∀ e ∈ S, s.knows e = true → e.isOperation = true →
    ∃ (k : Nat) (ins : Instruction α), s.instructionOf[e.id]? = some k ∧
      s.instructions.toList[k]? = some ins ∧ ins.node = e
  nodup : (s.instructions.toList.map fun ins => ins.node.id).Nodup
  symbols : ∀ e ∈ S, s.knows e = true → e.isSymbol = true → e ∈ inputs ∨ s.free ≠ #[]
  free : s.free ≠ #[] → ∃ e ∈ S, e.isSymbol = true ∧ e ∉ inputs
  input : ∀ x ∈ inputs, s.knows x = true ∧ ∃ t, s.slotsFor x = [t] ∧ IsLast inputs t x
  inputSlots : ∀ (t : Nat) (x : Expr α), inputs[t]? = some x → s.slots[t]? = some x.pattern
  above : ∀ e ∈ S, s.knows e = true → e.isOutput = false → e ∉ inputs →
    ∀ t ∈ s.slotsFor e, inputs.length ≤ t

namespace Sorted

variable {n : Nat} {S : Set (Expr α)} {inputs : List (Expr α)}

theorem place_output {id i k : Nat} {q : Expr α} {p : Pattern}
    (hk : s.instructionOf[q.id]? = some k) :
    (s.place (.node id (.output i) [q] p [])).instructions =
      s.instructions.modify k fun ins =>
        { ins with results := ins.results.set i (some (s.slotAt (q, i))) } := by
  unfold place require
  simp only [Expr.op, Expr.deps, hk]
  rfl

theorem place_operation (s : Sorter α) (ho : e.isOperation = true) :
    (s.place e).instructions = s.instructions.push ⟨e, e.deps.map s.slotFor,
        if e.resultCount = 1 then [some s.slots.size] else List.replicate e.resultCount none⟩ ∧
      (s.place e).instructionOf = s.instructionOf.insert e.id s.instructions.size := by
  have hself := slotsFor_place_self (s := s) (Expr.not_isOutput_of_isOperation ho)
  have hslots : (s.allocate e).slotsFor e = List.range' s.slots.size e.resultCount := by
    simp [allocate, slotsFor]
  unfold Expr.isOperation Op.isReference at ho
  unfold place
  split
  · rename_i hop
    simp [hop] at ho
  · rename_i hop _
    simp [hop] at ho
  · dsimp only
    rw [hslots, List.length_range']
    refine ⟨?_, rfl⟩
    split
    · rename_i hcount
      simp [hcount]
    · simp

theorem keeps_place (h : Sorted S inputs s) (hS : IsGraph n S) (he : e ∈ S)
    (hdeps : ∀ d ∈ e.deps, s.knows d = true) :
    Keeps s.instructions.toList (s.place e).instructions.toList := by
  by_cases ho : e.isOutput = true
  · obtain ⟨id, i, q, p, rfl, hsplit, -⟩ := (hS.wellFormed e he).exists_of_isOutput ho
    have hq : q ∈ S := hS.closed _ he q (List.mem_singleton_self q)
    obtain ⟨k, ins, hk, hins, hnode⟩ := h.instructed q hq
      (hdeps q (List.mem_singleton_self q)) (Expr.isOperation_of_isSplit hsplit)
    rw [place_output hk, Array.toList_modify]
    intro j jns hj
    by_cases hjk : k = j
    · subst hjk
      obtain rfl : ins = jns := Option.some.inj (hins.symm.trans hj)
      refine ⟨{ ins with results := ins.results.set i (some (s.slotAt (q, i))) },
        by rw [List.getElem?_modify_eq, hins]; rfl, rfl, rfl, fun a t ha => ?_⟩
      by_cases hia : i = a
      · subst hia
        have ht := (h.fits k ins hins).2.results i t ha
        rw [List.getElem?_set_self (List.getElem?_eq_some_iff.1 ha).1, ht, hnode]
      · rw [List.getElem?_set_ne hia, ha]
    · exact ⟨jns, by rw [List.getElem?_modify_ne _ _ hjk, hj], rfl, rfl, fun _ _ h => h⟩
  · have : ∃ more, (s.place e).instructions = s.instructions ++ more := by
      unfold place
      split
      · exact ⟨#[], by simp; rfl⟩
      · rename_i hop _
        simp [Expr.isOutput, hop] at ho
      · exact ⟨#[_], rfl⟩
    obtain ⟨more, hmore⟩ := this
    rw [hmore, Array.toList_append]
    exact Keeps.append _ _

theorem slotAt_place (h : ¬ s.knows e = true) {source : Expr α × Nat}
    (hx : s.knows source.1 = true) : (s.place e).slotAt source = s.slotAt source := by
  have hne : source.1.id ≠ e.id := by
    intro heq
    rw [knows_iff, heq, ← knows_iff] at hx
    exact h hx
  rw [slotAt, slotAt, slotsFor_place_of_ne hne]

theorem knows_source (h : Sorted S inputs s) (he : e ∈ S) (hk : s.knows e = true) :
    s.knows e.source.1 = true :=
  knows_source_of_deps (h.closed e he hk) hk

theorem slotFor_eq (h : Sorted S inputs s) (he : e ∈ S) (hk : s.knows e = true) :
    s.slotFor e = s.slotAt e.source :=
  slotFor_eq_slotAt fun ho => (h.reference e he hk ho).1

theorem ready (h : Sorted S inputs s) (he : e ∈ S) (hk : s.knows e = true)
    (hs : e.op.isSplit = false) : Ready s.slotAt s.instructions.toList e.source := by
  by_cases hout : e.isOutput = true
  · exact (h.reference e he hk hout).2
  rw [Expr.source_of_not_isOutput (by simpa using hout)]
  by_cases hop : e.isOperation = true
  · obtain ⟨k, ins, -, hins, rfl⟩ := h.instructed e he hk hop
    refine .inr ⟨ins, List.mem_of_getElem? hins, rfl, ?_⟩
    rw [(h.fits k ins hins).2.single hs]
    rfl
  · rcases Expr.isSymbol_or_isOutput (by simpa using hop) with hsym | hout'
    · exact .inl ⟨hsym, rfl⟩
    · exact absurd hout' hout

theorem lt_size (h : Sorted S inputs s) (he : e ∈ S) (hk : s.knows e = true)
    (ho : e.isOutput = false) {t : Nat} (ht : t ∈ s.slotsFor e) : t < s.slots.size := by
  obtain ⟨first, hslots, hpat⟩ := h.allocated e he hk ho
  rw [hslots, List.mem_range'_1] at ht
  obtain ⟨p, hp⟩ : ∃ p, e.patterns[t - first]? = some p :=
    ⟨_, List.getElem?_eq_getElem (by unfold Expr.resultCount at ht; omega)⟩
  have := hpat _ p hp
  rw [Nat.add_sub_cancel' ht.1] at this
  exact (Array.getElem?_eq_some_iff.1 this).1

theorem allocated_place (hS : IsGraph n S) (h : Sorted S inputs s) (he : e ∈ S)
    (hx : x ∈ S) (hk : (s.place e).knows x = true) (ho : x.isOutput = false) :
    ∃ first, (s.place e).slotsFor x = List.range' first x.resultCount ∧
      ∀ i p, x.patterns[i]? = some p → (s.place e).slots[first + i]? = some p := by
  by_cases hid : x.id = e.id
  · obtain rfl := hS.unique x hx e he hid
    refine ⟨s.slots.size, slotsFor_place_self ho, fun i p hp => ?_⟩
    rw [slots_place ho, Array.getElem?_append_right (by omega)]
    simpa using hp
  · obtain ⟨first, hslots, hpat⟩ := h.allocated x hx ((knows_place.1 hk).resolve_left hid) ho
    exact ⟨first, (slotsFor_place_of_ne hid).trans hslots, fun i p hp =>
      getElem?_slots_place (hpat i p hp)⟩

theorem knows_dep_source (h : Sorted S inputs s) (hS : IsGraph n S) {d : Expr α} (hx : x ∈ S)
    (hk : s.knows x = true) (hd : d ∈ x.deps) : s.knows d.source.1 = true :=
  h.knows_source (hS.closed x hx d hd) (h.closed x hx hk d hd)

theorem fits_keep (h : Sorted S inputs s) (hS : IsGraph n S) (he : ¬ s.knows e = true) {k : Nat}
    {ins : Instruction α} (hins : s.instructions.toList[k]? = some ins)
    {done : List (Instruction α)} (hkeep : Keeps (s.instructions.toList.take k) done) :
    (s.place e).knows ins.node = true ∧ ins.Fits S (s.place e).slotAt done := by
  obtain ⟨hk, hfits⟩ := h.fits k ins hins
  have hdep (d : Expr α) (hd : d ∈ ins.node.deps) :
      (s.place e).slotAt d.source = s.slotAt d.source :=
    slotAt_place he (h.knows_dep_source hS hfits.mem hk hd)
  exact ⟨knows_place.2 (.inr hk), hfits.keep (fun i => slotAt_place he hk) hdep
    fun d hd hr => hkeep.ready (hdep d hd) hr⟩

theorem fits_place (h : Sorted S inputs s) (hS : IsGraph n S) (he : e ∈ S)
    (hnew : ¬ s.knows e = true) (hdeps : ∀ d ∈ e.deps, s.knows d = true) {k : Nat}
    {ins : Instruction α} (hins : (s.place e).instructions.toList[k]? = some ins) :
    (s.place e).knows ins.node = true ∧
      ins.Fits S (s.place e).slotAt ((s.place e).instructions.toList.take k) := by
  have hkeeps := (h.keeps_place hS he hdeps).take k
  by_cases hop : e.isOperation = true
  · have hout := Expr.not_isOutput_of_isOperation hop
    rw [(place_operation s hop).1, Array.toList_push] at hins hkeeps ⊢
    rcases Nat.lt_trichotomy k s.instructions.toList.length with hlt | rfl | hgt
    · rw [List.getElem?_append_left hlt] at hins
      exact h.fits_keep hS hnew hins hkeeps
    · rw [List.getElem?_concat_length] at hins
      obtain rfl := Option.some.inj hins
      rw [List.take_left' rfl]
      have hwf := hS.wellFormed e he
      have hslots := slotsFor_place_self (s := s) hout
      have hdep (d : Expr α) (hd : d ∈ e.deps) :
          (s.place e).slotAt d.source = s.slotAt d.source :=
        slotAt_place hnew (h.knows_source (hS.closed e he d hd) (hdeps d hd))
      refine ⟨knows_place.2 (.inl rfl), ⟨he, hop, ?_, ?_, ?_, ?_, ?_⟩⟩
      · refine List.map_congr_left fun d hd => ?_
        rw [h.slotFor_eq (hS.closed e he d hd) (hdeps d hd), hdep d hd]
      · intro d hd
        exact (Keeps.refl _).ready (hdep d hd)
          (h.ready (hS.closed e he d hd) (hdeps d hd) (hS.proper e he hout d hd))
      · dsimp only
        split
        · rename_i hcount
          rw [hcount]
          rfl
        · exact List.length_replicate
      · intro i t ht
        dsimp only at ht ⊢
        split at ht
        · rename_i hcount
          rw [List.getElem?_singleton] at ht
          split at ht
          · rename_i hi
            subst hi
            rw [slotAt, hslots, hcount]
            exact (Option.some.inj (Option.some.inj ht)).symm
          · cases ht
        · rw [List.getElem?_replicate] at ht
          split at ht <;> cases ht
      · intro hs
        dsimp only
        rw [if_pos (hwf.resultCount_eq.2 hs), slotAt, hslots, hwf.resultCount_eq.2 hs]
        rfl
    · rw [List.getElem?_eq_none (by simpa [Nat.succ_le_iff] using hgt)] at hins
      cases hins
  · rcases Expr.isSymbol_or_isOutput (by simpa using hop) with hsym | hout
    · obtain ⟨id, name, p, rfl⟩ := (hS.wellFormed e he).exists_of_isSymbol hsym
      exact h.fits_keep hS hnew hins hkeeps
    · obtain ⟨id, i, q, p, rfl, hsplit, -⟩ := (hS.wellFormed e he).exists_of_isOutput hout
      have hq : q ∈ S := hS.closed _ he q (List.mem_singleton_self q)
      obtain ⟨j, jns, hj, hjns, hnode⟩ := h.instructed q hq
        (hdeps q (List.mem_singleton_self q)) (Expr.isOperation_of_isSplit hsplit)
      rw [place_output hj, Array.toList_modify] at hins
      by_cases hjk : j = k
      · subst hjk
        rw [List.getElem?_modify_eq, hjns] at hins
        obtain rfl := Option.some.inj hins
        obtain ⟨hk, hfits⟩ := h.fits_keep hS hnew hjns hkeeps
        refine ⟨hk, { hfits with length := ?_, results := ?_, single := ?_ }⟩
        · exact (List.length_set ..).trans hfits.length
        · intro a t ha
          dsimp only at ha ⊢
          by_cases hia : i = a
          · subst hia
            rw [List.getElem?_set] at ha
            simp only [if_true] at ha
            split at ha
            · rw [slotAt_place hnew (h.fits j jns hjns).1, hnode]
              exact (Option.some.inj (Option.some.inj ha)).symm
            · cases ha
          · rw [List.getElem?_set_ne hia] at ha
            exact hfits.results a t ha
        · intro hs
          exact absurd hsplit (by simp [← hnode, hs])
      · rw [List.getElem?_modify_ne _ _ hjk] at hins
        exact h.fits_keep hS hnew hins hkeeps

theorem nodup_place (h : Sorted S inputs s) (hS : IsGraph n S) (he : e ∈ S)
    (hnew : ¬ s.knows e = true) (hdeps : ∀ d ∈ e.deps, s.knows d = true) :
    ((s.place e).instructions.toList.map fun ins => ins.node.id).Nodup := by
  by_cases hop : e.isOperation = true
  · rw [(place_operation s hop).1, Array.toList_push, List.map_append, List.map_singleton]
    refine List.nodup_append.2 ⟨h.nodup, List.nodup_singleton _, ?_⟩
    rintro i hi j hj rfl
    obtain ⟨ins, hins, hid⟩ := List.mem_map.1 hi
    obtain ⟨k, hk⟩ := List.mem_iff_getElem?.1 hins
    have hknows := (h.fits k ins hk).1
    rw [knows_iff, hid, List.mem_singleton.1 hj, ← knows_iff] at hknows
    exact hnew hknows
  · rcases Expr.isSymbol_or_isOutput (by simpa using hop) with hsym | hout
    · obtain ⟨id, name, p, rfl⟩ := (hS.wellFormed e he).exists_of_isSymbol hsym
      exact h.nodup
    · obtain ⟨id, i, q, p, rfl, hsplit, -⟩ := (hS.wellFormed e he).exists_of_isOutput hout
      have hq : q ∈ S := hS.closed _ he q (List.mem_singleton_self q)
      obtain ⟨j, jns, hj, hjns, hnode⟩ := h.instructed q hq
        (hdeps q (List.mem_singleton_self q)) (Expr.isOperation_of_isSplit hsplit)
      have hsame : (s.place (.node id (.output i) [q] p [])).instructions.toList.map
          (fun ins => ins.node.id) = s.instructions.toList.map fun ins => ins.node.id := by
        refine List.ext_getElem? fun k => ?_
        rw [place_output hj, Array.toList_modify, List.getElem?_map, List.getElem?_map,
          List.getElem?_modify]
        by_cases hjk : j = k
        · simp [hjk, Option.map_map, Function.comp_def]
        · simp [hjk]
      rw [hsame]
      exact h.nodup

theorem instructed_place (h : Sorted S inputs s) (hS : IsGraph n S) (he : e ∈ S)
    (hdeps : ∀ d ∈ e.deps, s.knows d = true) (hx : x ∈ S) (hk : (s.place e).knows x = true)
    (hop : x.isOperation = true) :
    ∃ (k : Nat) (ins : Instruction α), (s.place e).instructionOf[x.id]? = some k ∧
      (s.place e).instructions.toList[k]? = some ins ∧ ins.node = x := by
  by_cases hid : x.id = e.id
  · obtain rfl := hS.unique x hx e he hid
    obtain ⟨hins, hof⟩ := place_operation s hop
    rw [hins, hof, Std.HashMap.getElem?_insert_self]
    exact ⟨_, _, rfl, by rw [Array.getElem?_toList, Array.getElem?_push_size], rfl⟩
  · obtain ⟨k, ins, hof, hins, rfl⟩ := h.instructed x hx ((knows_place.1 hk).resolve_left hid) hop
    obtain ⟨ins', hins', hnode, -⟩ := h.keeps_place hS he hdeps k ins hins
    refine ⟨k, ins', ?_, hins', hnode⟩
    rw [← hof]
    unfold place require
    split
    · rfl
    · dsimp only
      split <;> rfl
    · exact (Std.HashMap.getElem?_insert ..).trans (if_neg (by simpa using Ne.symm hid))

theorem reference_place (h : Sorted S inputs s) (hS : IsGraph n S) (he : e ∈ S)
    (hnew : ¬ s.knows e = true) (hdeps : ∀ d ∈ e.deps, s.knows d = true) (hx : x ∈ S)
    (hk : (s.place e).knows x = true) (hout : x.isOutput = true) :
    (s.place e).slotsFor x = [(s.place e).slotAt x.source] ∧
      Ready (s.place e).slotAt (s.place e).instructions.toList x.source := by
  by_cases hid : x.id = e.id
  · obtain rfl := hS.unique x hx e he hid
    obtain ⟨id, i, q, p, rfl, hsplit, hp⟩ := (hS.wellFormed x he).exists_of_isOutput hout
    have hq : q ∈ S := hS.closed _ he q (List.mem_singleton_self q)
    have hkq : s.knows q = true := hdeps q (List.mem_singleton_self q)
    obtain ⟨j, jns, hj, hjns, hnode⟩ := h.instructed q hq hkq (Expr.isOperation_of_isSplit hsplit)
    have hslot : (s.place (.node id (.output i) [q] p [])).slotAt (q, i) = s.slotAt (q, i) :=
      slotAt_place hnew hkq
    refine ⟨?_, .inr ⟨{ jns with results := jns.results.set i (some (s.slotAt (q, i))) }, ?_,
      hnode, ?_⟩⟩
    · rw [slotsFor_place_output]
      exact congrArg (fun t => [t]) hslot.symm
    · refine List.mem_iff_getElem?.2 ⟨j, ?_⟩
      rw [place_output hj, Array.toList_modify, List.getElem?_modify_eq, hjns]
      rfl
    · have hlen : i < jns.results.length := by
        rw [(h.fits j jns hjns).2.length, hnode]
        exact (List.getElem?_eq_some_iff.1 hp).1
      show (jns.results.set i (some (s.slotAt (q, i))))[i]? = _
      rw [List.getElem?_set_self hlen]
      exact congrArg (fun t => some (some t)) hslot.symm
  · have hkx := (knows_place.1 hk).resolve_left hid
    have hslot : (s.place e).slotAt x.source = s.slotAt x.source :=
      slotAt_place hnew (h.knows_source hx hkx)
    obtain ⟨hslots, hready⟩ := h.reference x hx hkx hout
    exact ⟨by rw [slotsFor_place_of_ne hid, hslots, hslot],
      (h.keeps_place hS he hdeps).ready hslot hready⟩

/-- Placing a node whose operands are known keeps what holds of the sorter. -/
theorem place (h : Sorted S inputs s) (hS : IsGraph n S) (he : e ∈ S)
    (hnew : ¬ s.knows e = true) (hdeps : ∀ d ∈ e.deps, s.knows d = true) :
    Sorted S inputs (s.place e) where
  closed x hx hk d hd := by
    rcases knows_place.1 hk with hid | hk
    · obtain rfl := hS.unique x hx e he hid
      exact knows_place.2 (.inr (hdeps d hd))
    · exact knows_place.2 (.inr (h.closed x hx hk d hd))
  allocated x hx hk ho := h.allocated_place hS he hx hk ho
  disjoint := Apart.place h.disjoint hS.unique (fun x hx hk ho _ => h.lt_size hx hk ho) he
  reference x hx hk ho := h.reference_place hS he hnew hdeps hx hk ho
  fits k ins hins := h.fits_place hS he hnew hdeps hins
  instructed x hx hk ho := h.instructed_place hS he hdeps hx hk ho
  nodup := h.nodup_place hS he hnew hdeps
  symbols x hx hk hs := by
    rcases knows_place.1 hk with hid | hk
    · exact .inr (free_place (.inl (hS.unique x hx e he hid ▸ hs)))
    · exact (h.symbols x hx hk hs).imp_right fun hfree => free_place (.inr hfree)
  free hfree := by
    by_cases hsym : e.isSymbol = true
    · exact ⟨e, he, hsym, fun hin => hnew (h.input e hin).1⟩
    · refine h.free fun hempty => hfree ?_
      unfold Sorter.place require
      split
      · rename_i hop
        simp [Expr.isSymbol, Expr.name?, hop] at hsym
      · dsimp only
        split <;> exact hempty
      · exact hempty
  input x hx := by
    obtain ⟨hk, t, hslots, hlast⟩ := h.input x hx
    have hne : x.id ≠ e.id := by
      intro hid
      rw [knows_iff, hid, ← knows_iff] at hk
      exact hnew hk
    exact ⟨knows_place.2 (.inr hk), t, (slotsFor_place_of_ne hne).trans hslots, hlast⟩
  inputSlots t x hx := getElem?_slots_place (h.inputSlots t x hx)
  above x hx hk ho hin t ht := by
    rcases knows_place.1 hk with hid | hk'
    · obtain rfl := hS.unique x hx e he hid
      rw [slotsFor_place_self ho, List.mem_range'_1] at ht
      by_contra hlt
      obtain ⟨y, hy⟩ : ∃ y, inputs[s.slots.size]? = some y :=
        ⟨_, List.getElem?_eq_getElem (by omega)⟩
      have := (Array.getElem?_eq_some_iff.1 (h.inputSlots _ y hy)).1
      omega
    · have hne : x.id ≠ e.id := by
        intro hid
        rw [knows_iff, hid, ← knows_iff] at hk'
        exact hnew hk'
      rw [slotsFor_place_of_ne hne] at ht
      exact h.above x hx hk' ho hin t ht

end Sorted

end Sorter

end DiffGraph
