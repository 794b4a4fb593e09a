import Mathlib
import DiffGraph.Proofs.System.Sources

/-!
# Marks along wires

A forward sweep over a node collects marks along the wires, a reverse sweep hands them back
along the same wires (`resultWires_reverse`). So marks of the operands that reach marked
results forwards are those that marks of the results reach backwards (`sweepTaint_dual`).
-/

namespace DiffGraph

open Expr

namespace System

/-- The nonzero carries the mark `b`. -/
def HasMark (b : Nat) (marks : List (List Taint)) (w : Nat × Nat) : Prop :=
  ∃ t, nonzeroAt marks w = some t ∧ t.toNat.testBit b = true

/-- Some nonzero carries the mark `b` on one side and the mark `c` on the other. -/
def Meet (b c : Nat) (xs ys : List (List Taint)) : Prop :=
  ∃ w, HasMark b xs w ∧ HasMark c ys w

theorem hasMark_iff {b i k : Nat} {marks : List (List Taint)} :
    HasMark b marks (i, k) ↔
      ∃ xs t, marks[i]? = some xs ∧ xs[k]? = some t ∧ t.toNat.testBit b = true := by
  constructor
  · rintro ⟨t, ht, hbit⟩
    obtain ⟨xs, hxs, ht⟩ := Option.bind_eq_some_iff.1 ht
    exact ⟨xs, t, hxs, ht, hbit⟩
  · rintro ⟨xs, t, hxs, ht, hbit⟩
    exact ⟨t, Option.bind_eq_some_iff.2 ⟨xs, hxs, ht⟩, hbit⟩

theorem HasMark.exists_nonzeroAt {T : Type} {b : Nat} {marks : List (List Taint)} {w : Nat × Nat}
    (h : HasMark b marks w) {xs : List (List T)}
    (hlen : marks.map List.length = xs.map List.length) : ∃ x, nonzeroAt xs w = some x := by
  obtain ⟨t, ht, -⟩ := h
  exact exists_nonzeroAt_of_lengths hlen ht

theorem not_hasMark_of_forall_zero {b : Nat} {marks : List (List Taint)}
    (h : ∀ xs ∈ marks, ∀ t ∈ xs, t = 0) (w : Nat × Nat) : ¬ HasMark b marks w := by
  rintro ⟨t, ht, hbit⟩
  obtain ⟨xs, hxs, ht⟩ := Option.bind_eq_some_iff.1 ht
  rw [h xs (List.mem_of_getElem? hxs) t (List.mem_of_getElem? ht)] at hbit
  simp at hbit

end System

namespace Expr

open DiffGraph.System

variable {α : Type}

/-! ## Both sweeps use the same wires -/

theorem wires_reverse {op : Op α} {sizes : List Nat} {size : Nat} {ws : List (List Wire)}
    (h : wires .forward op sizes size = some ws) : wires .reverse op sizes size = some ws := by
  cases op with
  | unary op =>
    simp only [wires, Option.bind_eq_bind, Option.bind_eq_some_iff] at h ⊢
    obtain ⟨n, hn, h⟩ := h
    refine ⟨n, hn, ?_⟩
    split at h
    · cases h
    · simpa using h
  | _ => exact h

theorem splitWires_reverse {offsets : List Nat} {n i size : Nat} {ws : List (List Wire)}
    (h : splitWires .forward offsets n i size = some ws) :
    splitWires .reverse offsets n i size = some ws := by
  simp only [splitWires, Option.bind_eq_bind, Option.bind_eq_some_iff] at h ⊢
  obtain ⟨a, ha, b, hb, h⟩ := h
  refine ⟨a, ha, b, hb, ?_⟩
  split at h
  · cases h
  · rename_i hfits
    rw [if_neg (by simp at hfits ⊢; omega)]
    exact h

theorem mapM_mono {β γ : Type} {f g : β → Option γ} (h : ∀ x y, f x = some y → g x = some y)
    {xs : List β} {ys : List γ} (hf : xs.mapM f = some ys) : xs.mapM g = some ys := by
  induction xs generalizing ys with
  | nil => exact hf
  | cons x xs ih =>
    simp only [List.mapM_cons, Option.bind_eq_bind, Option.bind_eq_some_iff] at hf ⊢
    obtain ⟨y, hy, zs, hzs, heq⟩ := hf
    exact ⟨y, h x y hy, zs, ih hzs, heq⟩

theorem resultWires_reverse {op : Op α} {sizes : List Nat} {results : List (Option Nat)}
    {ws : List (List (List Wire))} (h : resultWires .forward op sizes results = some ws) :
    resultWires .reverse op sizes results = some ws := by
  unfold resultWires at h ⊢
  split at h
  · exact h
  · exact h
  · rename_i offsets
    simp only [Option.bind_eq_bind, Option.bind_eq_some_iff] at h ⊢
    obtain ⟨n, hn, h⟩ := h
    refine ⟨n, hn, mapM_mono (fun x y hxy => ?_) h⟩
    obtain ⟨_ | size, i⟩ := x
    · exact hxy
    · exact splitWires_reverse hxy
  · split at h
    · cases h
    · obtain ⟨w, hw, rfl⟩ := Option.map_eq_some_iff.1 h
      rw [wires_reverse hw]
      rfl
    · exact h

/-! ## Collecting marks -/

theorem testBit_gatherMarks {b : Nat} {args : List (List Taint)} {w : List Wire} :
    (gatherMarks args w).toNat.testBit b = true ↔ ∃ p ∈ w, HasMark b args p := by
  have hat (p : Wire) : (markAt args p.1 p.2).toNat.testBit b = true ↔ HasMark b args p := by
    unfold markAt HasMark nonzeroAt
    cases args[p.1]?.bind (·[p.2]?) <;> simp
  have hfold (t : Taint) : ((w.map fun p => markAt args p.1 p.2).foldl (· ||| ·) t).toNat.testBit b
      = true ↔ t.toNat.testBit b = true ∨ ∃ p ∈ w, HasMark b args p := by
    induction w generalizing t with
    | nil => simp
    | cons p w ih =>
      rw [List.map_cons, List.foldl_cons, ih, UInt64.toNat_or, Nat.testBit_or, Bool.or_eq_true,
        hat p, List.exists_mem_cons_iff, or_assoc]
  rw [gatherMarks_eq_foldl, hfold]
  simp

/-- A sweep over a blank result collects at every nonzero along its wires. -/
theorem getElem?_collectTaint (args : List (List Taint)) (ws : List (List Wire)) (n k : Nat) :
    (collectTaint (args.map List.toArray).toArray ws (List.replicate n 0))[k]? =
      if k < n then some ((ws[k]?.map (gatherMarks args)).getD 0) else none := by
  have hhead (w : List Wire) : w.foldl (fun acc p => acc |||
      (((args.map List.toArray).toArray[p.1]?.bind (·[p.2]?)).getD 0)) 0 = gatherMarks args w :=
    List.singleton_inj.1 (collectTaint_eq args (rfl : [w].length = 1))
  induction ws generalizing n k with
  | nil => simp [collectTaint, List.getElem?_replicate]
  | cons w ws ih =>
    cases n with
    | zero => simp [collectTaint]
    | succ n =>
      rw [List.replicate_succ, collectTaint, hhead]
      cases k with
      | zero => simp
      | succ k => simp [ih]

/-! ## Handing marks back -/

theorem nonzeroAt_modify {T : Type} (args : List (List T)) (q p : Nat × Nat) (g : T → T) :
    nonzeroAt (args.modify q.1 (·.modify q.2 g)) p =
      (nonzeroAt args p).map fun x => if q = p then g x else x := by
  unfold nonzeroAt
  rw [List.getElem?_modify]
  cases args[p.1]? with
  | none => rfl
  | some xs =>
    by_cases h₁ : q.1 = p.1
    · by_cases h₂ : q.2 = p.2
      · simp [h₁, h₂, Prod.ext_iff]
      · simp [h₁, h₂, Prod.ext_iff]
    · simp [h₁, Prod.ext_iff]

/-- Adds a mark to the nonzeros at the far ends of wires. -/
def handBack (mark : Taint) (w : List Wire) (args : List (List Taint)) : List (List Taint) :=
  w.foldl (fun args (i, k) => args.modify i (·.modify k (· ||| mark))) args

theorem nonzeroAt_handBack (mark : Taint) (w : List Wire) {args : List (List Taint)} {p : Wire}
    {t : Taint} (ht : nonzeroAt args p = some t) :
    ∃ t', nonzeroAt (handBack mark w args) p = some t' ∧ ∀ c, t'.toNat.testBit c = true ↔
      t.toNat.testBit c = true ∨ (p ∈ w ∧ mark.toNat.testBit c = true) := by
  induction w generalizing args t with
  | nil => exact ⟨t, ht, by simp⟩
  | cons q w ih =>
    have hstep := (nonzeroAt_modify args q p (· ||| mark)).trans (congrArg _ ht)
    obtain ⟨t', ht', hbits⟩ := ih hstep
    refine ⟨t', ht', fun c => (hbits c).trans ?_⟩
    by_cases hqp : q = p
    · simp [hqp]
      tauto
    · simp [hqp, Ne.symm hqp]

theorem nonzeroAt_returnTaint (ws : List (List Wire)) (marks : List Taint)
    {args : List (List Taint)} {p : Wire} {t : Taint} (ht : nonzeroAt args p = some t) :
    ∃ t', nonzeroAt (returnTaint ws marks args) p = some t' ∧ ∀ c, t'.toNat.testBit c = true ↔
      t.toNat.testBit c = true ∨ ∃ x ∈ ws.zip marks, p ∈ x.1 ∧ x.2.toNat.testBit c = true := by
  induction ws generalizing marks args t with
  | nil => exact ⟨t, by rw [returnTaint.eq_def]; exact ht, by simp⟩
  | cons w ws ih =>
    cases marks with
    | nil => exact ⟨t, ht, by simp⟩
    | cons mark marks =>
      obtain ⟨u, hu, hfirst⟩ := nonzeroAt_handBack mark w ht
      obtain ⟨t', ht', hrest⟩ := ih marks hu
      refine ⟨t', ht', fun c => (hrest c).trans ?_⟩
      rw [hfirst, List.zip_cons_cons, List.exists_mem_cons_iff, or_assoc]

def returnAll (ws : List (List (List Wire))) (results : List (Option (List Taint)))
    (args : List (List Taint)) : List (List Taint) :=
  (ws.zip results).foldl (fun args (w, r) => returnTaint w (r.getD []) args) args

theorem nonzeroAt_returnAll (ws : List (List (List Wire))) (results : List (Option (List Taint)))
    {args : List (List Taint)} {p : Wire} {t : Taint} (ht : nonzeroAt args p = some t) :
    ∃ t', nonzeroAt (returnAll ws results args) p = some t' ∧ ∀ c, t'.toNat.testBit c = true ↔
      t.toNat.testBit c = true ∨ ∃ x ∈ ws.zip results, ∃ y ∈ x.1.zip (x.2.getD []),
        p ∈ y.1 ∧ y.2.toNat.testBit c = true := by
  unfold returnAll
  induction ws.zip results generalizing args t with
  | nil => exact ⟨t, ht, by simp⟩
  | cons x xs ih =>
    obtain ⟨u, hu, hfirst⟩ := nonzeroAt_returnTaint x.1 (x.2.getD []) ht
    obtain ⟨t', ht', hrest⟩ := ih hu
    refine ⟨t', ht', fun c => (hrest c).trans ?_⟩
    rw [hfirst, List.exists_mem_cons_iff, or_assoc]

theorem map_length_handBack (mark : Taint) (w : List Wire) (args : List (List Taint)) :
    (handBack mark w args).map List.length = args.map List.length := by
  induction w generalizing args with
  | nil => rfl
  | cons q w ih =>
    refine (ih _).trans (List.ext_getElem? fun i => ?_)
    rw [List.getElem?_map, List.getElem?_modify, List.getElem?_map]
    cases args[i]? with
    | none => rfl
    | some xs => by_cases h : q.1 = i <;> simp [h]

theorem map_length_returnTaint (ws : List (List Wire)) (marks : List Taint)
    (args : List (List Taint)) :
    (returnTaint ws marks args).map List.length = args.map List.length := by
  induction ws generalizing marks args with
  | nil => rw [returnTaint.eq_def]
  | cons w ws ih =>
    cases marks with
    | nil => rfl
    | cons mark marks => exact (ih marks _).trans (map_length_handBack mark w args)

theorem map_length_returnAll (ws : List (List (List Wire))) (results : List (Option (List Taint)))
    (args : List (List Taint)) :
    (returnAll ws results args).map List.length = args.map List.length := by
  unfold returnAll
  induction ws.zip results generalizing args with
  | nil => rfl
  | cons x xs ih => exact (ih _).trans (map_length_returnTaint _ _ _)

/-! ## The two sweeps over a node -/

theorem hasMark_collected {b i k : Nat} {args : List (List Taint)} {ws : List (List (List Wire))}
    {results : List (Option (List Taint))} :
    HasMark b ((List.zipWith (fun w (r : Option (List Taint)) =>
        r.map (collectTaint (args.map List.toArray).toArray w)) ws
          (results.map (·.map fun r => List.replicate r.length 0))).map (·.getD [])) (i, k) ↔
      ∃ w r v, ws[i]? = some w ∧ results[i]? = some (some r) ∧ k < r.length ∧ w[k]? = some v ∧
        ∃ p ∈ v, HasMark b args p := by
  rw [hasMark_iff]
  simp only [List.getElem?_map, List.getElem?_zipWith]
  constructor
  · rintro ⟨xs, t, hxs, ht, hbit⟩
    cases hw : ws[i]? with
    | none => simp [hw] at hxs
    | some w =>
      obtain hr | hr | ⟨r, hr⟩ : results[i]? = none ∨ results[i]? = some none ∨
          ∃ r, results[i]? = some (some r) := by
        rcases results[i]? with _ | _ | r <;> simp
      · simp [hw, hr] at hxs
      · rw [hw, hr] at hxs
        obtain rfl := Option.some.inj hxs
        cases ht
      · rw [hw, hr] at hxs
        obtain rfl := Option.some.inj hxs
        replace ht : (collectTaint (args.map List.toArray).toArray w
          (List.replicate r.length 0))[k]? = some t := ht
        rw [getElem?_collectTaint] at ht
        split at ht
        · rename_i hk
          obtain rfl := Option.some.inj ht
          cases hv : w[k]? with
          | none => simp [hv] at hbit
          | some v =>
            rw [hv] at hbit
            exact ⟨w, r, v, rfl, hr, hk, hv, testBit_gatherMarks.1 hbit⟩
        · cases ht
  · rintro ⟨w, r, v, hw, hr, hk, hv, hmark⟩
    refine ⟨collectTaint (args.map List.toArray).toArray w (List.replicate r.length 0),
      gatherMarks args v, by rw [hw, hr]; rfl, ?_, testBit_gatherMarks.2 hmark⟩
    rw [getElem?_collectTaint, if_pos hk, hv]
    rfl

/-- Marks that reach the results forwards meet marks on the results exactly if they meet the
marks that come back. -/
theorem sweepTaint_dual {e : Expr α} {args args' : List (List Taint)}
    {results outs : List (Option (List Taint))}
    (hf : e.sweepTaint .forward args (results.map (·.map fun r => List.replicate r.length 0)) =
      .ok (args', outs)) :
    ∃ marks cleared,
      e.sweepTaint .reverse (args.map fun a => List.replicate a.length 0) results =
        .ok (marks, cleared) ∧
      marks.map List.length = args.map List.length ∧
      ∀ b c, Meet b c (outs.map (·.getD [])) (results.map (·.getD [])) ↔ Meet b c args marks := by
  have hblanks : (results.map (·.map fun r => List.replicate r.length (0 : Taint))).map
      (·.map List.length) = results.map (·.map List.length) := by
    rw [List.map_map]
    refine List.map_congr_left fun r _ => ?_
    cases r <;> simp
  have hsizes : (args.map fun a => List.replicate a.length (0 : Taint)).map List.length =
      args.map List.length := by
    simp [Function.comp_def]
  unfold sweepTaint at hf ⊢
  rw [hblanks] at hf
  rw [hsizes]
  cases hws : resultWires .forward e.op (args.map List.length)
      (results.map (·.map List.length)) with
  | none => simp [hws] at hf
  | some ws =>
    rw [hws] at hf
    obtain ⟨-, rfl⟩ := Prod.mk.inj (Except.ok.inj hf)
    rw [resultWires_reverse hws]
    refine ⟨_, _, rfl, ?_, fun b c => ⟨?_, ?_⟩⟩
    · exact (map_length_returnAll ws results _).trans hsizes
    · rintro ⟨⟨i, k⟩, hout, hres⟩
      obtain ⟨w, r, v, hw, hr, hk, hv, p, hp, hmark⟩ := hasMark_collected.1 hout
      obtain ⟨r', m, hr', hm, hbit⟩ := hasMark_iff.1 hres
      obtain rfl : r = r' := by simpa [hr] using hr'
      obtain ⟨t₀, ht₀⟩ := hmark.exists_nonzeroAt hsizes.symm
      obtain ⟨t', ht', hbits⟩ := nonzeroAt_returnAll ws results ht₀
      refine ⟨p, hmark, t', ht', (hbits c).2 (.inr ⟨(w, some r), ?_, (v, m), ?_, hp, hbit⟩)⟩
      · exact List.mem_iff_getElem?.2 ⟨i, List.getElem?_zip_eq_some.2 ⟨hw, hr⟩⟩
      · exact List.mem_iff_getElem?.2 ⟨k, List.getElem?_zip_eq_some.2 ⟨hv, hm⟩⟩
    · rintro ⟨p, hmark, t', ht', hbit⟩
      obtain ⟨t₀, ht₀⟩ := hmark.exists_nonzeroAt hsizes.symm
      obtain ⟨t'', ht'', hbits⟩ := nonzeroAt_returnAll ws results ht₀
      obtain rfl := Option.some.inj (ht''.symm.trans ht')
      have hzero : t₀ = 0 := by
        obtain ⟨xs, hxs, hx⟩ := Option.bind_eq_some_iff.1 ht₀
        obtain ⟨a, -, rfl⟩ := List.mem_map.1 (List.mem_of_getElem? hxs)
        exact (List.mem_replicate.1 (List.mem_of_getElem? hx)).2
      obtain hold | ⟨⟨w, r⟩, hwr, ⟨v, m⟩, hvm, hp, hm⟩ := (hbits c).1 hbit
      · simp [hzero] at hold
      · obtain ⟨i, hi⟩ := List.mem_iff_getElem?.1 hwr
        obtain ⟨k, hk⟩ := List.mem_iff_getElem?.1 hvm
        obtain ⟨hw, hr⟩ := List.getElem?_zip_eq_some.1 hi
        obtain ⟨hv, hmk⟩ := List.getElem?_zip_eq_some.1 hk
        cases r with
        | none => cases hmk
        | some r =>
          have hkr := (List.getElem?_eq_some_iff.1 hmk).1
          refine ⟨(i, k), hasMark_collected.2 ⟨w, r, v, hw, hr, hkr, hv, p, hp, hmark⟩,
            hasMark_iff.2 ⟨r, m, ?_, hmk, hm⟩⟩
          rw [List.getElem?_map, hr]
          rfl

end Expr

end DiffGraph
