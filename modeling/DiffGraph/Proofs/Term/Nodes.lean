import Mathlib
import DiffGraph.Proofs.Term.Graph
import DiffGraph.Term.Function

/-!
# The nodes of scalar expressions

Terms share subterms. `Term.nodes` lists the different terms that a list of
terms is built from, and `Term.useCount` says how often one of them is used: as a
term of the list itself, or as an operand of a node. The traversal that counts
uses visits exactly these nodes (`visitAll_perm_nodes`) and arrives at these
numbers (`counted_eq_useCount`).
-/

namespace DiffGraph

namespace Term

variable {α : Type} {s t x : Term α} {seen ts : List (Term α)}

def isOperation : Term α → Bool
  | unary .. | binary .. => true
  | constant .. | symbol .. => false

/-- The term and what it is built from, once for every place where it stands. -/
def subterms (t : Term α) : List (Term α) :=
  t :: match t with
    | constant .. | symbol .. => []
    | unary _ _ x => x.subterms
    | binary _ _ x y => x.subterms ++ y.subterms

/-- The different terms that the given terms are built from. -/
def nodes (ts : List (Term α)) : List (Term α) :=
  (ts.flatMap subterms).pwFilter fun s t => s.id ≠ t.id

/-- How often a term is used: among the given terms, and as an operand of their nodes. -/
def useCount (ts : List (Term α)) (id : Nat) : Nat :=
  ((ts ++ (nodes ts).flatMap operands).map Term.id).count id

/-! ## Subterms -/

theorem mem_subterms_iff : s ∈ t.subterms ↔ s = t ∨ ∃ x ∈ t.operands, s ∈ x.subterms := by
  cases t <;> simp [subterms, operands]

theorem mem_subterms_self (t : Term α) : t ∈ t.subterms :=
  mem_subterms_iff.2 (.inl rfl)

theorem sum_sizeOf_operands_lt (t : Term α) : (t.operands.map sizeOf).sum < sizeOf t := by
  cases t <;> simp [operands]

theorem sizeOf_lt_of_operand (hx : x ∈ t.operands) : sizeOf x < sizeOf t :=
  Nat.lt_of_le_of_lt (List.le_sum_of_mem (List.mem_map_of_mem hx)) (sum_sizeOf_operands_lt t)

/-- What holds of a term whenever it holds of its operands holds of all terms. -/
theorem induct_operands {P : Term α → Prop} (h : ∀ t, (∀ x ∈ t.operands, P x) → P t) (t : Term α) :
    P t := by
  induction hsize : sizeOf t using Nat.strong_induction_on generalizing t with
  | _ k ih => exact h t fun x hx => ih _ (hsize ▸ sizeOf_lt_of_operand hx) x rfl

theorem sizeOf_le_of_subterm (hs : s ∈ t.subterms) : sizeOf s ≤ sizeOf t := by
  induction t using induct_operands with
  | h t ih =>
    rcases mem_subterms_iff.1 hs with rfl | ⟨x, hx, hs⟩
    · exact Nat.le_refl _
    · exact Nat.le_trans (ih x hx hs) (Nat.le_of_lt (sizeOf_lt_of_operand hx))

theorem ne_of_mem_subterms_operand (hx : x ∈ t.operands) (hs : s ∈ x.subterms) : s ≠ t := by
  rintro rfl
  exact Nat.not_le_of_lt (sizeOf_lt_of_operand hx) (sizeOf_le_of_subterm hs)

theorem mem_subterms_of_operand (hs : s ∈ t.subterms) (hx : x ∈ s.operands) : x ∈ t.subterms := by
  induction t using induct_operands with
  | h t ih =>
    rcases mem_subterms_iff.1 hs with rfl | ⟨y, hy, hs⟩
    · exact mem_subterms_iff.2 (.inr ⟨x, hx, mem_subterms_self x⟩)
    · exact mem_subterms_iff.2 (.inr ⟨y, hy, ih y hy hs⟩)

theorem subterms_subset {G : Set (Term α)} (hclosed : ∀ t ∈ G, ∀ x ∈ t.operands, x ∈ G)
    (ht : t ∈ G) (hs : s ∈ t.subterms) : s ∈ G := by
  induction t using induct_operands with
  | h t ih =>
    rcases mem_subterms_iff.1 hs with rfl | ⟨x, hx, hs⟩
    · exact ht
    · exact ih x hx (hclosed t ht x hx) hs

/-! ## Visits -/

/-- The identity of the term is that of a term in the list. -/
def Among (t : Term α) (ts : List (Term α)) : Prop :=
  t.id ∈ ts.map Term.id

instance (t : Term α) (ts : List (Term α)) : Decidable (t.Among ts) :=
  inferInstanceAs (Decidable (_ ∈ _))

/-- The terms visited so far, the latest first, after a traversal of more terms that turns back at
terms visited before. -/
def visitAll (seen : List (Term α)) : List (Term α) → List (Term α)
  | [] => seen
  | t :: ts =>
    if t.Among seen then visitAll seen ts else visitAll (t :: seen) (t.operands ++ ts)
termination_by ts => (ts.map sizeOf).sum
decreasing_by
  · cases t <;> simp
  · have := sum_sizeOf_operands_lt t
    simp only [List.map_append, List.sum_append, List.map_cons, List.sum_cons]
    omega

theorem visitAll_append (seen ts us : List (Term α)) :
    visitAll seen (ts ++ us) = visitAll (visitAll seen ts) us := by
  fun_induction visitAll seen ts with
  | case1 seen => rfl
  | case2 seen t ts hseen ih => rw [List.cons_append, visitAll, if_pos hseen, ih]
  | case3 seen t ts hnew ih =>
    rw [List.cons_append, visitAll, if_neg hnew, ← List.append_assoc, ih]

theorem visitAll_cons (seen : List (Term α)) (t : Term α) (ts : List (Term α)) :
    visitAll seen (t :: ts) = visitAll (visitAll seen [t]) ts :=
  visitAll_append seen [t] ts

theorem visitAll_of_seen (h : t.Among seen) : visitAll seen [t] = seen := by
  rw [visitAll, if_pos h, visitAll]

theorem visitAll_of_new (h : ¬ t.Among seen) :
    visitAll seen [t] = visitAll (t :: seen) t.operands := by
  rw [visitAll, if_neg h, List.append_nil]

theorem subset_visitAll (seen ts : List (Term α)) : seen ⊆ visitAll seen ts := by
  fun_induction visitAll seen ts with
  | case1 seen => exact List.Subset.refl _
  | case2 seen t ts hseen ih => exact ih
  | case3 seen t ts hnew ih => exact fun s hs => ih (List.mem_cons_of_mem _ hs)

/-- Only what the terms are built from is visited. -/
theorem mem_of_mem_visitAll (hs : s ∈ visitAll seen ts) : s ∈ seen ∨ ∃ t ∈ ts, s ∈ t.subterms := by
  fun_induction visitAll seen ts with
  | case1 seen => exact .inl hs
  | case2 seen t ts hseen ih =>
    rcases ih hs with hs | ⟨u, hu, hsu⟩
    · exact .inl hs
    · exact .inr ⟨u, List.mem_cons_of_mem _ hu, hsu⟩
  | case3 seen t ts hnew ih =>
    rcases ih hs with hs | ⟨u, hu, hsu⟩
    · rcases List.mem_cons.1 hs with rfl | hs
      · exact .inr ⟨s, List.mem_cons_self, mem_subterms_self s⟩
      · exact .inl hs
    · rcases List.mem_append.1 hu with hu | hu
      · exact .inr ⟨t, List.mem_cons_self, mem_subterms_iff.2 (.inr ⟨u, hu, hsu⟩)⟩
      · exact .inr ⟨u, List.mem_cons_of_mem _ hu, hsu⟩

theorem among_visitAll (ht : t ∈ ts) : t.Among (visitAll seen ts) := by
  fun_induction visitAll seen ts with
  | case1 seen => cases ht
  | case2 seen u ts hseen ih =>
    rcases List.mem_cons.1 ht with rfl | ht
    · exact List.map_subset _ (subset_visitAll seen ts) hseen
    · exact ih ht
  | case3 seen u ts hnew ih =>
    rcases List.mem_cons.1 ht with rfl | ht
    · exact List.mem_map_of_mem (subset_visitAll _ _ List.mem_cons_self)
    · exact ih (List.mem_append_right _ ht)

theorem operands_visited (hs : s ∈ visitAll seen ts) :
    s ∈ seen ∨ ∀ x ∈ s.operands, x.Among (visitAll seen ts) := by
  fun_induction visitAll seen ts with
  | case1 seen => exact .inl hs
  | case2 seen t ts hseen ih => exact ih hs
  | case3 seen t ts hnew ih =>
    rcases ih hs with hs | hops
    · rcases List.mem_cons.1 hs with rfl | hs
      · exact .inr fun x hx => among_visitAll (List.mem_append_left _ hx)
      · exact .inl hs
    · exact .inr hops

theorem nodup_visitAll (h : (seen.map Term.id).Nodup) : ((visitAll seen ts).map Term.id).Nodup := by
  fun_induction visitAll seen ts with
  | case1 seen => exact h
  | case2 seen t ts hseen ih => exact ih h
  | case3 seen t ts hnew ih => exact ih (List.nodup_cons.2 ⟨hnew, h⟩)

section Graph

variable {n : Nat} {G : Set (Term α)}

/-- In a graph a term is known by its identity. -/
theorem Among.mem (hG : IsTermGraph n G) (ht : t ∈ G) (hts : ∀ s ∈ ts, s ∈ G) (h : t.Among ts) :
    t ∈ ts := by
  obtain ⟨s, hs, hid⟩ := List.mem_map.1 h
  exact hG.unique s (hts s hs) t ht hid ▸ hs

theorem mem_nodes_iff (hG : IsTermGraph n G) (hts : ∀ t ∈ ts, t ∈ G) :
    s ∈ nodes ts ↔ ∃ t ∈ ts, s ∈ t.subterms := by
  rw [← List.mem_flatMap]
  refine ⟨fun hs => (List.pwFilter_sublist _).subset hs, fun hs => ?_⟩
  have hmem (u : Term α) (hu : u ∈ ts.flatMap subterms) : u ∈ G := by
    obtain ⟨t, ht, hu⟩ := List.mem_flatMap.1 hu
    exact subterms_subset hG.closed (hts t ht) hu
  by_contra hnot
  have hall : ∀ u ∈ nodes ts, s.id ≠ u.id := fun u hu hid =>
    hnot (hG.unique s (hmem s hs) u (hmem u ((List.pwFilter_sublist _).subset hu)) hid ▸ hu)
  exact (List.forall_mem_pwFilter (fun {x y z} hxz => by
    by_contra h
    rw [not_or, not_not, not_not] at h
    exact hxz (h.1.trans h.2)) s _).1 hall s hs rfl

theorem nodup_nodes (ts : List (Term α)) : ((nodes ts).map Term.id).Nodup :=
  List.pairwise_map.2 (List.pairwise_pwFilter _)

/-- A traversal visits the nodes. -/
theorem visitAll_perm_nodes (hG : IsTermGraph n G) (hts : ∀ t ∈ ts, t ∈ G) :
    (visitAll [] ts).Perm (nodes ts) := by
  have hnodup : ((visitAll [] ts).map Term.id).Nodup := nodup_visitAll List.nodup_nil
  refine (List.perm_ext_iff_of_nodup hnodup.of_map (nodup_nodes ts).of_map).2 fun s => ?_
  rw [mem_nodes_iff hG hts]
  have hvisited (u : Term α) (hu : u ∈ visitAll [] ts) : u ∈ G := by
    obtain ⟨t, ht, hu⟩ := (mem_of_mem_visitAll hu).resolve_left List.not_mem_nil
    exact subterms_subset hG.closed (hts t ht) hu
  refine ⟨fun hs => (mem_of_mem_visitAll hs).resolve_left List.not_mem_nil, ?_⟩
  rintro ⟨t, ht, hs⟩
  have hclosed (u : Term α) (hu : u ∈ visitAll [] ts) (x : Term α) (hx : x ∈ u.operands) :
      x ∈ visitAll [] ts :=
    ((operands_visited hu).resolve_left List.not_mem_nil x hx).mem hG
      (hG.closed u (hvisited u hu) x hx) hvisited
  exact subterms_subset (G := {u | u ∈ visitAll [] ts}) hclosed
    ((among_visitAll ht).mem hG (hts t ht) hvisited) hs

end Graph

/-! ## Uses -/

def counted (uses : Std.HashMap Nat Nat) (id : Nat) : Nat :=
  uses[id]?.getD 0

theorem counted_insert (uses : Std.HashMap Nat Nat) (i : Nat) (id : Nat) :
    counted (uses.insert i (counted uses i + 1)) id = counted uses id + if i = id then 1 else 0 := by
  unfold counted
  rw [Std.HashMap.getElem?_insert]
  by_cases h : i = id
  · subst h
    simp
  · simp [h]

theorem countUses_of_seen {uses : Std.HashMap Nat Nat} (h : counted uses t.id ≠ 0) :
    countUses uses t = uses.insert t.id (counted uses t.id + 1) := by
  cases t <;> (unfold countUses; exact if_neg h)

theorem countUses_of_new {uses : Std.HashMap Nat Nat} (h : counted uses t.id = 0) :
    countUses uses t =
      t.operands.foldl countUses (uses.insert t.id (counted uses t.id + 1)) := by
  cases t <;> (unfold countUses; exact if_pos h)

theorem counted_le_insert (uses : Std.HashMap Nat Nat) (i id : Nat) :
    counted uses id ≤ counted (uses.insert i (counted uses i + 1)) id := by
  rw [counted_insert]
  exact Nat.le_add_right _ _

theorem counted_le_foldl (uses : Std.HashMap Nat Nat) (ts : List (Term α)) (id : Nat) :
    counted uses id ≤ counted (ts.foldl countUses uses) id := by
  have hone (t : Term α) : ∀ uses, counted uses id ≤ counted (countUses uses t) id := by
    induction t using induct_operands with
    | h t ih =>
      intro uses
      by_cases h : counted uses t.id = 0
      · rw [countUses_of_new h]
        exact List.foldlRecOn t.operands countUses (counted_le_insert uses t.id id)
          fun next hnext x hx => Nat.le_trans hnext (ih x hx next)
      · rw [countUses_of_seen h]
        exact counted_le_insert uses t.id id
  exact List.foldlRecOn ts countUses (Nat.le_refl _)
    fun next hnext t _ => Nat.le_trans hnext (hone t next)

/-- One more use of a term leaves the terms without uses that are not visited by then. -/
theorem counted_insert_eq_zero_iff {uses : Std.HashMap Nat Nat}
    (hseen : ∀ id, counted uses id = 0 ↔ id ∉ seen.map Term.id) (t : Term α) (id : Nat) :
    counted (uses.insert t.id (counted uses t.id + 1)) id = 0 ↔
      id ∉ (t :: seen).map Term.id := by
  rw [counted_insert, List.map_cons, List.mem_cons, not_or, ← hseen]
  split
  · rename_i h
    simp [h]
  · rename_i h
    simp [Ne.symm h]

/-- Counting visits a term when it visits it for the first time. -/
theorem counted_foldl (ts : List (Term α)) {uses : Std.HashMap Nat Nat}
    (hseen : ∀ id, counted uses id = 0 ↔ id ∉ seen.map Term.id) :
    (∀ id, counted (ts.foldl countUses uses) id = 0 ↔ id ∉ (visitAll seen ts).map Term.id) ∧
      ∀ id, counted (ts.foldl countUses uses) id + ((seen.flatMap operands).map Term.id).count id =
        counted uses id + (ts.map Term.id).count id +
          (((visitAll seen ts).flatMap operands).map Term.id).count id := by
  fun_induction visitAll seen ts generalizing uses with
  | case1 seen => exact ⟨hseen, fun id => by simp⟩
  | case2 seen t ts ht ih =>
    have hcount : counted uses t.id ≠ 0 := fun h => (hseen t.id).1 h ht
    rw [List.foldl_cons, countUses_of_seen hcount]
    obtain ⟨hzero, hsum⟩ := ih fun id => by
      rw [counted_insert_eq_zero_iff hseen t, List.map_cons, List.mem_cons, not_or]
      exact ⟨And.right, fun hid => ⟨fun h => hid (h ▸ ht), hid⟩⟩
    refine ⟨hzero, fun id => ?_⟩
    have := hsum id
    rw [counted_insert] at this
    rw [List.map_cons, List.count_cons]
    simp only [beq_iff_eq]
    omega
  | case3 seen t ts ht ih =>
    have hcount : counted uses t.id = 0 := (hseen t.id).2 ht
    rw [List.foldl_cons, countUses_of_new hcount, ← List.foldl_append]
    obtain ⟨hzero, hsum⟩ := ih (counted_insert_eq_zero_iff hseen t)
    refine ⟨hzero, fun id => ?_⟩
    have := hsum id
    rw [counted_insert] at this
    simp only [List.flatMap_cons, List.map_append, List.count_append, List.map_cons,
      List.count_cons, beq_iff_eq] at this ⊢
    omega

/-- The uses counted are those of the nodes. -/
theorem counted_eq_useCount {n : Nat} {G : Set (Term α)} (hG : IsTermGraph n G)
    (hts : ∀ t ∈ ts, t ∈ G) (id : Nat) :
    counted (ts.foldl countUses ∅) id = useCount ts id := by
  have hempty : ∀ id, counted ∅ id = 0 ↔ id ∉ ([] : List (Term α)).map Term.id := by simp [counted]
  have hcount := (counted_foldl ts hempty).2 id
  have hperm := (((visitAll_perm_nodes hG hts).flatMap_right operands).map Term.id).count_eq id
  rw [useCount, List.map_append, List.count_append, ← hperm]
  simpa [counted] using hcount

end Term

end DiffGraph
