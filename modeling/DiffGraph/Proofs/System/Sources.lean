import Mathlib
import DiffGraph.Proofs.System.Semantics

/-!
# What outputs are computed from

The sources of an output nonzero are the argument nonzeros that it is computed
from: what a run returns when every argument nonzero carries itself as a mark.
A dependency sweep finds a mark where it finds one among the sources
(`Semantics.mark_run`), and nothing else than the sources has an influence on the
output (`Semantics.run_congr`).
-/

namespace DiffGraph

open Element

namespace System

/-- Argument nonzeros, each the number of an input and that of a nonzero. -/
abbrev Sources := Set (Nat × Nat)

instance : Marking Sources := ⟨∅, (· ∪ ·)⟩

section Buffers

variable {T U : Type}

def nonzeroAt (args : List (List T)) (w : Nat × Nat) : Option T :=
  args[w.1]?.bind (·[w.2]?)

theorem nonzeroAt_map (f : T → U) (args : List (List T)) (w : Nat × Nat) :
    nonzeroAt (args.map (List.map f)) w = (nonzeroAt args w).map f := by
  unfold nonzeroAt
  rw [List.getElem?_map]
  cases args[w.1]? with
  | none => rfl
  | some xs => exact List.getElem?_map

theorem exists_nonzeroAt {ps : List Pattern} {args : List (List T)} {i k : Nat} {p : Pattern}
    (hp : ps[i]? = some p) (hlen : args.map List.length = ps.map Pattern.nnz) (hk : k < p.nnz) :
    ∃ x, nonzeroAt args (i, k) = some x := by
  have hi := congrArg (·[i]?) hlen
  simp only [List.getElem?_map, hp, Option.map_some, Option.map_eq_some_iff] at hi
  obtain ⟨xs, hxs, hlen⟩ := hi
  exact ⟨xs[k], Option.bind_eq_some_iff.2 ⟨xs, hxs, List.getElem?_eq_getElem (hlen ▸ hk)⟩⟩

theorem exists_nonzeroAt_of_lengths {xs : List (List T)} {ys : List (List U)}
    (h : xs.map List.length = ys.map List.length) {w : Nat × Nat} {x : T}
    (hx : nonzeroAt xs w = some x) : ∃ y, nonzeroAt ys w = some y := by
  obtain ⟨us, hus, hx⟩ := Option.bind_eq_some_iff.1 hx
  have hat := congrArg (·[w.1]?) h
  simp only [List.getElem?_map, hus, Option.map_some] at hat
  obtain ⟨vs, hvs, hlen⟩ := Option.map_eq_some_iff.1 hat.symm
  have hlt := (List.getElem?_eq_some_iff.1 hx).1
  exact ⟨vs[w.2], Option.bind_eq_some_iff.2 ⟨vs, hvs, List.getElem?_eq_getElem (hlen ▸ hlt)⟩⟩

theorem exists_nonzeroAt_of_forall₂ {R : T → U → Prop} {args : List (List T)}
    {args' : List (List U)} (h : List.Forall₂ (List.Forall₂ R) args args') {w : Nat × Nat} {y : U}
    (hy : nonzeroAt args' w = some y) : ∃ x, nonzeroAt args w = some x ∧ R x y := by
  obtain ⟨ys, hys, hy⟩ := Option.bind_eq_some_iff.1 hy
  obtain ⟨xs, hxs, hxy⟩ := exists_of_forall₂ h hys
  obtain ⟨x, hx, hR⟩ := exists_of_forall₂ hxy hy
  exact ⟨x, Option.bind_eq_some_iff.2 ⟨xs, hxs, hx⟩, hR⟩

theorem forall₂_of_nonzeroAt {R : T → U → Prop} {args : List (List T)} {args' : List (List U)}
    (hlen : args.map List.length = args'.map List.length)
    (h : ∀ w x y, nonzeroAt args w = some x → nonzeroAt args' w = some y → R x y) :
    List.Forall₂ (List.Forall₂ R) args args' := by
  refine forall₂_of_getElem? (by simpa using congrArg List.length hlen) fun i xs ys hxs hys => ?_
  have hxy : xs.length = ys.length := by simpa [hxs, hys] using congrArg (·[i]?) hlen
  refine forall₂_of_getElem? hxy fun k x y hx hy => ?_
  exact h (i, k) x y (Option.bind_eq_some_iff.2 ⟨xs, hxs, hx⟩)
    (Option.bind_eq_some_iff.2 ⟨ys, hys, hy⟩)

def tabulate (ps : List Pattern) (f : Nat × Nat → T) : List (List T) :=
  ps.zipIdx.map fun (p, i) => (List.range p.nnz).map fun k => f (i, k)

@[simp] theorem map_length_tabulate (ps : List Pattern) (f : Nat × Nat → T) :
    (tabulate ps f).map List.length = ps.map Pattern.nnz := by
  have hlen : (fun w : Pattern × Nat => ((List.range w.1.nnz).map fun k => f (w.2, k)).length) =
      Pattern.nnz ∘ Prod.fst := by
    funext w
    simp
  rw [tabulate, List.map_map]
  exact (congrArg (fun g => ps.zipIdx.map g) hlen).trans
    (List.map_map.symm.trans (congrArg (List.map Pattern.nnz) (List.zipIdx_map_fst 0 ps)))

theorem nonzeroAt_tabulate (ps : List Pattern) (f : Nat × Nat → T) (w : Nat × Nat) :
    nonzeroAt (tabulate ps f) w =
      if w.2 < (ps[w.1]?.map Pattern.nnz).getD 0 then some (f w) else none := by
  unfold nonzeroAt tabulate
  rw [List.getElem?_map, List.getElem?_zipIdx]
  cases ps[w.1]? with
  | none => rfl
  | some p =>
    by_cases hk : w.2 < p.nnz
    · simp [hk]
    · simp [hk]

theorem eq_of_nonzeroAt_tabulate {ps : List Pattern} {f : Nat × Nat → T} {w : Nat × Nat} {x : T}
    (h : nonzeroAt (tabulate ps f) w = some x) : f w = x := by
  rw [nonzeroAt_tabulate] at h
  split at h
  · exact Option.some.inj h
  · cases h

end Buffers

variable {α T : Type}

namespace Semantics

variable [Scalar α] [Element Id α T] {s : System α} {memory : Prop}

/-- What an output nonzero is computed from. -/
def sources (h : s.Semantics memory) (w : Nat × Nat) : Sources :=
  (nonzeroAt (T := Sources)
    (h.run (T := Marked α Sources) (tabulate s.inputs fun v => ({v} : Sources))) w).getD ∅

/-- A relation between sources and elements that holds of the arguments and is preserved by the
operations holds of the outputs. -/
theorem of_sources (h : s.Semantics memory) {R : Sources → T → Prop}
    (hR : IsElementProperty fun p : Marked α Sources × T => R p.1 p.2) {args : List (List T)}
    (hlen : args.map List.length = s.inputs.map Pattern.nnz)
    (hargs : ∀ w x, nonzeroAt args w = some x → R {w} x) {w : Nat × Nat} {x : T}
    (hx : nonzeroAt (h.run args) w = some x) : R (h.sources w) x := by
  have hrel : List.Forall₂ (List.Forall₂ fun (D : Marked α Sources) x => R D x)
      (tabulate s.inputs fun v => ({v} : Sources)) args := by
    refine forall₂_of_nonzeroAt ((map_length_tabulate _ _).trans hlen.symm) fun w D x hD hx => ?_
    obtain rfl : ({w} : Sources) = D := eq_of_nonzeroAt_tabulate hD
    exact hargs w x hx
  obtain ⟨D, hD, hDx⟩ := exists_nonzeroAt_of_forall₂ (h.forall₂_run hR hrel) hx
  obtain rfl : h.sources w = D := congrArg (fun o : Option Sources => o.getD ∅) hD
  exact hDx

/-- A dependency sweep marks an output nonzero if it marks one of its sources. -/
theorem mark_run (h : s.Semantics memory) {Q : Taint → Prop} (hnone : ¬ Q 0)
    (hjoin : ∀ a b : Taint, Q (a ||| b) ↔ Q a ∨ Q b) {seeds : List (List (Marked α Taint))}
    (hlen : seeds.map List.length = s.inputs.map Pattern.nnz) {w : Nat × Nat} {t : Taint}
    (ht : nonzeroAt (h.run seeds) w = some t) :
    Q t ↔ ∃ v ∈ h.sources w, ∃ u, nonzeroAt seeds v = some u ∧ Q u := by
  refine h.of_sources (T := Marked α Taint)
    (R := fun D t => Q t ↔ ∃ v ∈ D, ∃ u, nonzeroAt seeds v = some u ∧ Q u)
    ⟨fun x => ?_, fun op p hp => hp, fun op p q hp hq => ?_⟩ hlen (fun v u hu => ?_) ht
  · refine iff_of_false hnone ?_
    rintro ⟨v, hv, -⟩
    exact hv
  · refine (hjoin p.2 q.2).trans ((or_congr hp hq).trans ?_)
    rw [← exists_or]
    exact exists_congr fun v => or_and_right.symm
  · simp [hu]

/-- Arguments that agree on the sources of an output nonzero give it the same value. -/
theorem run_congr (h : s.Semantics memory) {args args' : List (List T)}
    (hlen : args.map List.length = s.inputs.map Pattern.nnz)
    (hlen' : args'.map List.length = s.inputs.map Pattern.nnz) {w : Nat × Nat}
    (hagree : ∀ v ∈ h.sources w, nonzeroAt args v = nonzeroAt args' v) :
    nonzeroAt (h.run args) w = nonzeroAt (h.run args') w := by
  obtain ⟨pairs, rfl, rfl, -⟩ := exists_pairs (R := fun _ _ => True)
    (forall₂_of_nonzeroAt (hlen.trans hlen'.symm) fun _ _ _ _ _ => trivial)
  have hpairs : pairs.map List.length = s.inputs.map Pattern.nnz := by
    rw [← hlen, List.map_map]
    exact List.map_congr_left fun _ _ => (List.length_map _).symm
  rw [h.map_run isElementMap_fst, h.map_run isElementMap_snd, nonzeroAt_map, nonzeroAt_map]
  cases hp : nonzeroAt (h.run pairs) w with
  | none => rfl
  | some p =>
    refine congrArg some (h.of_sources (R := fun D (p : T × T) => (∀ v ∈ D,
      nonzeroAt (pairs.map (List.map Prod.fst)) v = nonzeroAt (pairs.map (List.map Prod.snd)) v) →
        p.1 = p.2) ⟨fun x _ => rfl, fun op p hp hD => ?_, fun op p q hp hq hD => ?_⟩ hpairs
      (fun v q hq hD => ?_) hp hagree)
    · exact congrArg (apply₁ op) (hp hD)
    · exact congrArg₂ (apply₂ op) (hp fun v hv => hD v (.inl hv)) (hq fun v hv => hD v (.inr hv))
    · simpa [nonzeroAt_map, hq] using hD v rfl

end Semantics

end System

end DiffGraph
