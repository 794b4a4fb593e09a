import Mathlib
import DiffGraph.Proofs.Pattern.Coloring
import DiffGraph.Proofs.System.Sources
import DiffGraph.System.Jacobian

/-!
# Patterns of Jacobians

The pattern of a Jacobian holds a column in a row exactly if the column is among
the sources of the row (`Semantics.jacobianPattern_spec`): each dependency sweep
tells 64 columns apart by their marks, and the sweeps cover all columns.
-/

namespace DiffGraph

open Element

namespace System

/-! ## Marks -/

theorem toNat_mark {b : Nat} (hb : b < markCount) : (mark b).toNat = 2 ^ b := by
  have hb : b < 64 := hb
  have hpow : 2 ^ b < 2 ^ 64 := Nat.pow_lt_pow_right (by omega) hb
  have hbit : b.toUInt64.toNat % 64 = b := by
    simp
    omega
  rw [mark, UInt64.toNat_shiftLeft, hbit, UInt64.toNat_one, Nat.one_shiftLeft,
    Nat.mod_eq_of_lt hpow]

theorem and_mark_ne_zero (t : Taint) {b : Nat} (hb : b < markCount) :
    (t &&& mark b != 0) = t.toNat.testBit b := by
  have hand : (t &&& mark b).toNat = (t.toNat.testBit b).toNat * 2 ^ b := by
    rw [UInt64.toNat_and, toNat_mark hb, Nat.and_two_pow]
  have hpos := Nat.two_pow_pos b
  cases hbit : t.toNat.testBit b with
  | false =>
    have hzero : t &&& mark b = 0 := UInt64.toNat_inj.1 (by simp [hand, hbit])
    simp [hzero]
  | true =>
    have hne : t &&& mark b ≠ 0 := fun hzero => by
      simp only [hzero, hbit, UInt64.toNat_zero, Bool.toNat_true] at hand
      omega
    simp [hne]

namespace Semantics

variable {α : Type} [Scalar α] {s : System α} {memory : Prop} {iind oind : Nat} {x y : Pattern}

/-- The mark of an argument nonzero in the sweep over some columns. -/
def columnMark (iind start count : Nat) (v : Nat × Nat) : Taint :=
  if v.1 = iind ∧ start ≤ v.2 ∧ v.2 < start + count then mark (v.2 - start) else 0

theorem columnSeeds_eq (inputs : List Pattern) (iind start count : Nat) :
    columnSeeds inputs iind start count = tabulate inputs (columnMark iind start count) := rfl

/-- An output nonzero gets the mark of a column if the column is one of its sources. -/
theorem mark_columnSeeds (h : s.Semantics memory) (hx : s.inputs[iind]? = some x)
    {start count : Nat} (hcount : start + count ≤ x.nnz) (hle : count ≤ markCount) {b : Nat}
    (hb : b < count) {w : Nat × Nat} {t : Taint}
    (ht : nonzeroAt (h.run (T := Marked α Taint) (columnSeeds s.inputs iind start count)) w =
      some t) :
    (t &&& mark b != 0) = true ↔ (iind, start + b) ∈ h.sources w := by
  rw [and_mark_ne_zero t (Nat.lt_of_lt_of_le hb hle)]
  rw [columnSeeds_eq] at ht
  refine (h.mark_run (Q := fun t => t.toNat.testBit b = true) (by simp)
    (fun a c => by simp [UInt64.toNat_or]) (map_length_tabulate _ _) ht).trans ⟨?_, fun hv => ?_⟩
  · rintro ⟨v, hv, u, hu, hbit⟩
    obtain rfl := eq_of_nonzeroAt_tabulate hu
    unfold columnMark at hbit
    split at hbit
    · rename_i hrange
      rw [toNat_mark (by omega), Nat.testBit_two_pow, decide_eq_true_eq] at hbit
      obtain rfl : v = (iind, start + b) := Prod.ext hrange.1 (by dsimp only; omega)
      exact hv
    · simp at hbit
  · refine ⟨(iind, start + b), hv, mark b, ?_, ?_⟩
    · refine (nonzeroAt_tabulate s.inputs (columnMark iind start count) _).trans ?_
      have hlt : start + b < x.nnz := by omega
      have hrange : start ≤ start + b ∧ start + b < start + count := by omega
      rw [hx, Option.map_some, Option.getD_some, if_pos hlt, columnMark, if_pos ⟨rfl, hrange⟩,
        Nat.add_sub_cancel_left]
      rfl
    · rw [toNat_mark (Nat.lt_of_lt_of_le hb hle), Nat.testBit_two_pow_self]

omit [Scalar α] in
theorem entriesFrom_eq {start count : Nat} {out : List (List Taint)} {rows : List Taint}
    (ht : s.taint (columnSeeds s.inputs iind start count) = .ok out)
    (hrows : out[oind]? = some rows) :
    s.entriesFrom iind oind start count = .ok (rows.zipIdx.flatMap fun (t, r) =>
      (marksOf t count).map fun bit => (r, start + bit)) := by
  unfold entriesFrom
  rw [ht]
  dsimp only [bind, Except.bind]
  rw [hrows]
  rfl

/-- One sweep finds the entries of its columns. -/
theorem entriesFrom_spec (h : s.Semantics memory) (hx : s.inputs[iind]? = some x)
    (hy : s.outputs[oind]? = some y) {start count : Nat} (hcount : start + count ≤ x.nnz)
    (hle : count ≤ markCount) :
    (memory → ∃ entries, s.entriesFrom iind oind start count = .ok entries ∧
      ∀ r c, (r, c) ∈ entries ↔
        r < y.nnz ∧ start ≤ c ∧ c < start + count ∧ (iind, c) ∈ h.sources (oind, r)) ∧
    (¬ memory → s.entriesFrom iind oind start count = .error .misuse) := by
  have hlen : (columnSeeds s.inputs iind start count).map List.length =
      s.inputs.map Pattern.nnz := by
    rw [columnSeeds_eq, map_length_tabulate]
  refine ⟨fun hm => ?_, fun hm => ?_⟩
  · have htaint := (h.taint hlen).1 hm
    have houts := h.map_length_run (T := Marked α Taint) hlen
    obtain ⟨rows, hrows, hrowsLen⟩ : ∃ rows,
        (h.run (T := Marked α Taint) (columnSeeds s.inputs iind start count))[oind]? = some rows ∧
          rows.length = y.nnz := by
      have hat := congrArg (·[oind]?) houts
      simp only [List.getElem?_map, hy, Option.map_some, Option.map_eq_some_iff] at hat
      exact hat
    have hat (r : Nat) : nonzeroAt (h.run (T := Marked α Taint)
        (columnSeeds s.inputs iind start count)) (oind, r) = rows[r]? := by
      unfold nonzeroAt
      rw [hrows]
      rfl
    refine ⟨rows.zipIdx.flatMap fun (t, r) => (marksOf t count).map fun bit => (r, start + bit),
      ?_, fun r c => ?_⟩
    · exact entriesFrom_eq htaint hrows
    · have hmark {t : Taint} (ht : rows[r]? = some t) {bit : Nat} (hbit : bit < count) :=
        h.mark_columnSeeds hx hcount hle hbit ((hat r).trans ht)
      simp only [List.mem_flatMap, List.mem_map, marksOf, List.mem_filter, List.mem_range]
      constructor
      · rintro ⟨⟨t, r'⟩, ht, bit, ⟨hbit, hset⟩, heq⟩
        obtain ⟨rfl, rfl⟩ := Prod.mk.inj heq
        have ht := List.mem_zipIdx_iff_getElem?.1 ht
        exact ⟨hrowsLen ▸ (List.getElem?_eq_some_iff.1 ht).1, by omega, by omega,
          (hmark ht hbit).1 hset⟩
      · rintro ⟨hr, hstart, hstop, hsource⟩
        obtain ⟨t, ht⟩ : ∃ t, rows[r]? = some t := ⟨_, List.getElem?_eq_getElem (hrowsLen ▸ hr)⟩
        have hbit : c - start < count := by omega
        have hc : start + (c - start) = c := by omega
        exact ⟨(t, r), List.mem_zipIdx_iff_getElem?.2 ht, c - start,
          ⟨hbit, (hmark ht hbit).2 (hc.symm ▸ hsource)⟩, Prod.ext rfl hc⟩
  · have htaint := (h.taint hlen).2 hm
    unfold entriesFrom
    rw [htaint]
    rfl

def chunkStarts (n : Nat) : List Nat :=
  (List.range ((n + markCount - 1) / markCount)).map (· * markCount)

theorem lt_of_mem_chunkStarts {n start : Nat} (h : start ∈ chunkStarts n) : start < n := by
  obtain ⟨k, hk, rfl⟩ := List.mem_map.1 h
  have hk := List.mem_range.1 hk
  dsimp only [markCount] at hk ⊢
  omega

theorem exists_mem_chunkStarts {n c : Nat} (h : c < n) :
    ∃ start ∈ chunkStarts n, start ≤ c ∧ c < start + min markCount (n - start) := by
  refine ⟨c / markCount * markCount, List.mem_map_of_mem (List.mem_range.2 ?_), ?_⟩ <;>
    dsimp only [markCount] <;> omega

theorem mapM_ok_of_forall {β γ : Type} {f : β → Except FunctionError γ} {xs : List β}
    {P : β → γ → Prop} (h : ∀ x ∈ xs, ∃ y, f x = .ok y ∧ P x y) :
    ∃ ys, xs.mapM f = .ok ys ∧ List.Forall₂ P xs ys := by
  induction xs with
  | nil => exact ⟨[], rfl, .nil⟩
  | cons x xs ih =>
    obtain ⟨y, hy, hP⟩ := h x List.mem_cons_self
    obtain ⟨ys, hys, hrest⟩ := ih fun z hz => h z (List.mem_cons_of_mem _ hz)
    refine ⟨y :: ys, ?_, .cons hP hrest⟩
    rw [List.mapM_cons, hy, hys]
    rfl

/-- The pattern of a Jacobian holds exactly the sources of every row. -/
theorem jacobianPattern_spec (h : s.Semantics memory) (hx : s.inputs[iind]? = some x)
    (hy : s.outputs[oind]? = some y) :
    match s.jacobianPattern iind oind with
    | .error e => e = .misuse ∧ ¬ (memory ∧ x.nnz < Size.listLimit)
    | .ok p => (x.nnz = 0 ∨ memory) ∧ x.nnz < Size.listLimit ∧ p.shape = (y.nnz, x.nnz) ∧
        ∀ r c, (r, c) ∈ p.triplets ↔
          r < y.nnz ∧ c < x.nnz ∧ (iind, c) ∈ h.sources (oind, r) := by
  have hpattern : s.jacobianPattern iind oind = (do
      let entries ← (chunkStarts x.nnz).mapM fun start =>
        s.entriesFrom iind oind start (min markCount (x.nnz - start))
      (Pattern.ofTriplets y.nnz x.nnz entries.flatten : Except GraphError Pattern)) := by
    unfold jacobianPattern
    rw [hx, hy]
    rfl
  have hstop {start : Nat} (hs : start ∈ chunkStarts x.nnz) :
      start + min markCount (x.nnz - start) ≤ x.nnz := by
    have := lt_of_mem_chunkStarts hs
    omega
  have hchunk {start : Nat} (hs : start ∈ chunkStarts x.nnz) :=
    h.entriesFrom_spec hx hy (hstop hs) (Nat.min_le_left _ _)
  by_cases hmemory : x.nnz = 0 ∨ memory
  · obtain ⟨entries, hentries, hspec⟩ := mapM_ok_of_forall fun start hs =>
      (hchunk hs).1 (hmemory.resolve_left (by have := lt_of_mem_chunkStarts hs; omega))
    have hmem (r c : Nat) : (r, c) ∈ entries.flatten ↔
        r < y.nnz ∧ c < x.nnz ∧ (iind, c) ∈ h.sources (oind, r) := by
      rw [List.mem_flatten]
      constructor
      · rintro ⟨es, hes, hrc⟩
        obtain ⟨i, hi⟩ := List.mem_iff_getElem?.1 hes
        obtain ⟨start, -, hes⟩ := exists_of_forall₂ hspec hi
        obtain ⟨hr, hle, hlt, hsource⟩ := (hes r c).1 hrc
        exact ⟨hr, by omega, hsource⟩
      · rintro ⟨hr, hc, hsource⟩
        obtain ⟨start, hs, hle, hlt⟩ := exists_mem_chunkStarts hc
        obtain ⟨i, hi⟩ := List.mem_iff_getElem?.1 hs
        obtain ⟨es, hes, hspec⟩ := exists_of_forall₂ hspec.flip hi
        exact ⟨es, List.mem_of_getElem? hes, (hspec r c).2 ⟨hr, hle, hlt, hsource⟩⟩
    have hinside (e : Nat × Nat) (he : e ∈ entries.flatten) : e.1 < y.nnz ∧ e.2 < x.nnz :=
      ⟨((hmem e.1 e.2).1 he).1, ((hmem e.1 e.2).1 he).2.1⟩
    have hresult : s.jacobianPattern iind oind =
        (Pattern.ofTriplets y.nnz x.nnz entries.flatten).mapError .graph := by
      rw [hpattern, hentries]
      rfl
    have htriplets := Pattern.ofTriplets_spec hinside
    by_cases hn : x.nnz < Size.listLimit
    · rw [if_pos hn] at htriplets
      obtain ⟨p, hp, hshape, htriplets⟩ := htriplets
      rw [hresult, hp]
      exact ⟨hmemory, hn, hshape, fun r c => (htriplets r c).trans (hmem r c)⟩
    · rw [if_neg hn] at htriplets
      rw [hresult, htriplets]
      exact ⟨rfl, fun hboth => hn hboth.2⟩
  · obtain ⟨hzero, hmemory⟩ := not_or.1 hmemory
    obtain ⟨start, hs, -⟩ := exists_mem_chunkStarts (Nat.pos_of_ne_zero hzero)
    have herror : ((chunkStarts x.nnz).mapM fun start =>
        s.entriesFrom iind oind start (min markCount (x.nnz - start))) = .error .misuse := by
      cases hstarts : chunkStarts x.nnz with
      | nil =>
        rw [hstarts] at hs
        cases hs
      | cons start rest =>
        rw [List.mapM_cons, (hchunk (hstarts ▸ List.mem_cons_self)).2 hmemory]
        rfl
    rw [hpattern, herror]
    exact ⟨rfl, fun hboth => hmemory hboth.1⟩

end Semantics

end System

end DiffGraph
