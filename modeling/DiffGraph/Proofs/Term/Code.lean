import Mathlib
import DiffGraph.Proofs.Term.Compile
import DiffGraph.Proofs.Term.Nodes

/-!
# The code of scalar expressions

What can be read off compiled code without running it. Every temporary is set
once, and only loaded afterwards; the stack is empty after every instruction that
writes an output (`Compiler.orderly_compileOutputs`). The code has an operation for
every node that is one, and a temporary for every such node that is used more than
once (`Compiler.covers_compileOutputs`).
-/

namespace DiffGraph

open Term

variable {α : Type}

namespace OpCode

def stored? : OpCode α → Option Nat
  | storeTemp i => some i
  | _ => none

def isArithmetic : OpCode α → Bool
  | unary _ | binary _ => true
  | _ => false

/-- What an instruction adds to the height of the stack. -/
def effect : OpCode α → Int
  | loadConst _ | loadVar _ | loadTemp _ => 1
  | storeTemp _ | unary _ => 0
  | binary _ | write _ => -1

end OpCode

namespace Program

/-- The height of the stack after the given code. -/
def height (code : List (OpCode α)) : Int :=
  (code.map OpCode.effect).sum

theorem height_concat (code : List (OpCode α)) (op : OpCode α) :
    height (code ++ [op]) = height code + op.effect := by
  simp [height]

/-- The instruction may follow the given code: a temporary that it loads has been set, and an output
that it writes is the only element on the stack. -/
def Follows (before : List (OpCode α)) : OpCode α → Prop
  | .loadTemp i => .storeTemp i ∈ before
  | .write _ => height before = 1
  | _ => True

/-- Every instruction may follow those before it. -/
def IsSequenced (code : List (OpCode α)) : Prop :=
  ∀ (k : Nat) op, code[k]? = some op → Follows (code.take k) op

theorem IsSequenced.concat {code : List (OpCode α)} (h : IsSequenced code) {op : OpCode α}
    (hop : Follows code op) : IsSequenced (code ++ [op]) := by
  intro k op' hk
  rcases Nat.lt_or_ge k code.length with hlt | hge
  · rw [List.getElem?_append_left hlt] at hk
    rw [List.take_append_of_le_length (Nat.le_of_lt hlt)]
    exact h k op' hk
  · obtain rfl : k = code.length := by
      have := (List.getElem?_eq_some_iff.1 hk).1
      simp only [List.length_append, List.length_singleton] at this
      omega
    rw [List.getElem?_concat_length] at hk
    obtain rfl := Option.some.inj hk
    simpa using hop

end Program

open Program

namespace Compiler

variable {c c' : Compiler α} {t : Term α} {h : Int}

/-! ## Temporaries and the stack -/

/-- The code so far is in order and leaves a stack of height `h`. -/
structure Orderly (c : Compiler α) (h : Int) : Prop where
  stores : c.code.toList.filterMap OpCode.stored? = List.range c.tempCount
  sequenced : IsSequenced c.code.toList
  height : height c.code.toList = h
  lt : ∀ id i : Nat, c.tempOf[id]? = some i → i < c.tempCount

theorem orderly_start : (⟨#[], ∅, 0⟩ : Compiler α).Orderly 0 where
  stores := rfl
  sequenced k op hk := by simp at hk
  height := rfl
  lt id i hi := by simp at hi

theorem Orderly.mem_code (hc : c.Orderly h) {id i : Nat} (hi : c.tempOf[id]? = some i) :
    .storeTemp i ∈ c.code.toList := by
  have hmem : i ∈ c.code.toList.filterMap OpCode.stored? :=
    hc.stores ▸ List.mem_range.2 (hc.lt id i hi)
  obtain ⟨op, hop, hstored⟩ := List.mem_filterMap.1 hmem
  cases op with
  | storeTemp j => exact Option.some.inj hstored ▸ hop
  | loadConst x => cases hstored
  | loadVar j => cases hstored
  | loadTemp j => cases hstored
  | unary op => cases hstored
  | binary op => cases hstored
  | write j => cases hstored

theorem Orderly.emit (hc : c.Orderly h) (op : OpCode α) (hstored : op.stored? = none)
    (hfollows : Follows c.code.toList op) : (c.emit op).Orderly (h + op.effect) where
  stores := by simpa [Compiler.emit, hstored] using hc.stores
  sequenced := by simpa [Compiler.emit] using hc.sequenced.concat hfollows
  height := by simpa [Compiler.emit, height_concat] using hc.height
  lt := hc.lt

theorem Orderly.keep (hc : c.Orderly h) (uses : Std.HashMap Nat Nat) (id : Nat) :
    (c.keep uses id).Orderly h := by
  unfold Compiler.keep
  split
  · exact {
      stores := by simpa [Compiler.emit, OpCode.stored?, List.range_succ] using hc.stores
      sequenced := by
        have hfollows : Follows c.code.toList (.storeTemp c.tempCount) := trivial
        simpa [Compiler.emit] using hc.sequenced.concat hfollows
      height := by simpa [Compiler.emit, height_concat, OpCode.effect] using hc.height
      lt := fun id' i hi => by
        rw [Std.HashMap.getElem?_insert] at hi
        split at hi
        · exact Option.some.inj hi ▸ Nat.lt_succ_self _
        · exact Nat.lt_succ_of_lt (hc.lt id' i hi) }
  · exact hc

theorem Orderly.load (hc : c.Orderly h) {table uses : Std.HashMap Nat Nat} {i : Nat}
    (hi : c.tempOf[t.id]? = some i) (hrun : compile table uses t c = .ok c') :
    c'.Orderly (h + 1) := by
  rw [compile_of_stored hi] at hrun
  obtain rfl := Except.ok.inj hrun
  exact hc.emit _ rfl (hc.mem_code hi)

/-- The code for a term leaves one more element on the stack. -/
theorem orderly_compile {table uses : Std.HashMap Nat Nat} (hc : c.Orderly h)
    (hrun : compile table uses t c = .ok c') : c'.Orderly (h + 1) := by
  induction t generalizing c c' h with
  | constant id a =>
    cases hi : c.tempOf[(constant id a).id]? with
    | some i => exact hc.load hi hrun
    | none =>
      unfold compile at hrun
      rw [hi] at hrun
      obtain rfl := Except.ok.inj hrun
      exact hc.emit _ rfl trivial
  | symbol id name =>
    cases hi : c.tempOf[(symbol id name : Term α).id]? with
    | some i => exact hc.load hi hrun
    | none =>
      unfold compile at hrun
      rw [hi] at hrun
      dsimp only at hrun
      split at hrun
      · obtain rfl := Except.ok.inj hrun
        exact hc.emit _ rfl trivial
      · cases hrun
  | unary id op x ih =>
    cases hi : c.tempOf[(unary id op x).id]? with
    | some i => exact hc.load hi hrun
    | none =>
      unfold compile at hrun
      rw [hi] at hrun
      obtain ⟨c₁, hx, hrest⟩ := exists_of_bind_eq_ok hrun
      obtain rfl := Except.ok.inj hrest
      have hemit := (ih hc hx).emit (.unary op) rfl trivial
      exact (show h + 1 + OpCode.effect (.unary op) = h + 1 from Int.add_zero _) ▸
        hemit.keep uses id
  | binary id op x y ihx ihy =>
    cases hi : c.tempOf[(binary id op x y).id]? with
    | some i => exact hc.load hi hrun
    | none =>
      unfold compile at hrun
      rw [hi] at hrun
      obtain ⟨c₁, hx, hrest⟩ := exists_of_bind_eq_ok hrun
      obtain ⟨c₂, hy, hrest⟩ := exists_of_bind_eq_ok hrest
      obtain rfl := Except.ok.inj hrest
      have hemit := (ihy (ihx hc hx) hy).emit (.binary op) rfl trivial
      have hsum : h + 1 + 1 + OpCode.effect (.binary op : OpCode α) = h + 1 := by
        simp only [OpCode.effect]
        omega
      exact hsum ▸ hemit.keep uses id

theorem orderly_compileOutputs {table uses : Std.HashMap Nat Nat} {os : List (Term α)} {k : Nat}
    (hc : c.Orderly 0) (hrun : compileOutputs table uses os k c = .ok c') : c'.Orderly 0 := by
  induction os generalizing k c with
  | nil =>
    obtain rfl := Except.ok.inj hrun
    exact hc
  | cons o os ih =>
    unfold compileOutputs at hrun
    rw [List.zipIdx_cons, List.foldlM_cons] at hrun
    obtain ⟨c₁, hfirst, hrest⟩ := exists_of_bind_eq_ok hrun
    obtain ⟨c₂, ho, hemit⟩ := exists_of_bind_eq_ok hfirst
    obtain rfl := Except.ok.inj hemit
    have hone := orderly_compile hc ho
    exact ih (hone.emit (.write k) rfl hone.height) hrest

/-! ## Operations and temporaries -/

/-- The term is an operation that is used more than once. -/
def isKept (uses : Std.HashMap Nat Nat) (t : Term α) : Bool :=
  t.isOperation && 1 < counted uses t.id

/-- The code from `c` to `c'` computes the operations visited since `seen`, each of them once, and
stores those used more than once. -/
structure Covers (G : Set (Term α)) (uses : Std.HashMap Nat Nat) (seen seen' : List (Term α))
    (c c' : Compiler α) : Prop where
  operations : c'.code.toList.countP OpCode.isArithmetic + seen.countP isOperation =
    c.code.toList.countP OpCode.isArithmetic + seen'.countP isOperation
  temporaries : c'.tempCount + seen.countP (isKept uses) =
    c.tempCount + seen'.countP (isKept uses)
  stored : ∀ s ∈ G, s.id ∈ c'.tempOf ↔
    s.id ∈ c.tempOf ∨ isKept uses s = true ∧ s ∈ seen' ∧ s ∉ seen

section Covers

variable {n : Nat} {G : Set (Term α)} {uses before table : Std.HashMap Nat Nat}
  {ts seen seen' seen'' : List (Term α)} {c'' : Compiler α} {op : OpCode α}

theorem Covers.trans (h : Covers G uses seen seen' c c') (h' : Covers G uses seen' seen'' c' c'')
    (hsub : seen ⊆ seen') (hsub' : seen' ⊆ seen'') : Covers G uses seen seen'' c c'' where
  operations := by
    have := h.operations
    have := h'.operations
    omega
  temporaries := by
    have := h.temporaries
    have := h'.temporaries
    omega
  stored s hs := by
    rw [h'.stored s hs, h.stored s hs]
    have := @hsub s
    have := @hsub' s
    tauto

theorem covers_emit (hop : op.isArithmetic = false) : Covers G uses seen seen c (c.emit op) where
  operations := by simp [emit, hop]
  temporaries := rfl
  stored s hs := by simp [emit]

theorem covers_leaf (hop : op.isArithmetic = false) (ht : t.isOperation = false) :
    Covers G uses seen (t :: seen) c (c.emit op) where
  operations := by simp [emit, hop, ht]
  temporaries := by simp [emit, isKept, ht]
  stored s hs := by
    have hne (hkept : isKept uses s = true) : s ≠ t := by
      rintro rfl
      simp [isKept, ht] at hkept
    simp only [emit, List.mem_cons]
    tauto

theorem countP_keep (c : Compiler α) (uses : Std.HashMap Nat Nat) (id : Nat) :
    (c.keep uses id).code.toList.countP OpCode.isArithmetic =
      c.code.toList.countP OpCode.isArithmetic := by
  unfold keep
  split
  · simp [emit, OpCode.isArithmetic]
  · rfl

theorem tempCount_keep (c : Compiler α) (uses : Std.HashMap Nat Nat) (id : Nat) :
    (c.keep uses id).tempCount = c.tempCount + if 1 < counted uses id then 1 else 0 := by
  unfold keep counted
  split <;> rfl

theorem mem_tempOf_keep {id i : Nat} :
    i ∈ (c.keep uses id).tempOf ↔ i ∈ c.tempOf ∨ 1 < counted uses id ∧ id = i := by
  unfold keep counted
  split
  · rename_i h
    rw [Std.HashMap.mem_insert, beq_iff_eq]
    tauto
  · rename_i h
    tauto

/-- The operation comes after the code for its operands. -/
theorem Covers.operation (hG : IsTermGraph n G) (h : Covers G uses (t :: seen) seen' c c') (ht : t ∈ G)
    (hsub : t :: seen ⊆ seen') (hnew : t ∉ seen) (hop : op.isArithmetic = true)
    (hoperation : t.isOperation = true) :
    Covers G uses seen seen' c ((c'.emit op).keep uses t.id) := by
  have hkept : isKept uses t = decide (1 < counted uses t.id) := by simp [isKept, hoperation]
  refine ⟨?_, ?_, fun s hs => ?_⟩
  · have := h.operations
    rw [List.countP_cons_of_pos hoperation] at this
    simp only [countP_keep, emit, Array.toList_push, List.countP_append, List.countP_singleton, hop,
      if_true]
    omega
  · have := h.temporaries
    rw [List.countP_cons, hkept] at this
    simp only [tempCount_keep, emit, decide_eq_true_eq] at this ⊢
    omega
  · have hid : t.id = s.id ↔ s = t := ⟨fun h => hG.unique s hs t ht h.symm, fun h => h ▸ rfl⟩
    have hmem := @hsub t List.mem_cons_self
    have hstored := h.stored s hs
    rw [mem_tempOf_keep, emit, hid, hstored, List.mem_cons]
    by_cases hst : s = t
    · subst hst
      simp only [hkept, decide_eq_true_eq]
      tauto
    · tauto

/-- A term that is not stored and no operation is loaded from elsewhere. -/
theorem exists_emit_of_leaf (ht : t.isOperation = false) (hi : c.tempOf[t.id]? = none)
    (hrun : compile table uses t c = .ok c') : ∃ op, op.isArithmetic = false ∧ c' = c.emit op := by
  cases t with
  | constant id a =>
    unfold compile at hrun
    rw [hi] at hrun
    exact ⟨_, rfl, (Except.ok.inj hrun).symm⟩
  | symbol id name =>
    unfold compile at hrun
    rw [hi] at hrun
    dsimp only at hrun
    split at hrun
    · exact ⟨_, rfl, (Except.ok.inj hrun).symm⟩
    · cases hrun
  | unary id op x => cases ht
  | binary id op x y => cases ht

theorem covers_compile_leaf (ht : t.isOperation = false)
    (hsync : t.id ∈ c.tempOf ↔ isKept uses t = true ∧ t ∈ seen)
    (hrun : compile table uses t c = .ok c') : Covers G uses seen (visitAll seen [t]) c c' := by
  have hi : c.tempOf[t.id]? = none := by
    rw [Std.HashMap.getElem?_eq_none]
    simp [hsync, isKept, ht]
  obtain ⟨op, hop, rfl⟩ := exists_emit_of_leaf ht hi hrun
  by_cases hagain : t.Among seen
  · rw [visitAll_of_seen hagain]
    exact covers_emit hop
  · rw [visitAll_of_new hagain]
    have hops : t.operands = [] := by cases t <;> first | rfl | cases ht
    rw [hops, visitAll]
    exact covers_leaf hop ht

/-- Compilation stands where a traversal stands that has visited `seen`, has counted the uses `before`
and has the terms `ts` ahead. -/
structure Synced (G : Set (Term α)) (uses : Std.HashMap Nat Nat) (ts seen : List (Term α))
    (before : Std.HashMap Nat Nat) (c : Compiler α) : Prop where
  ahead : ∀ t ∈ ts, t ∈ G
  graph : ∀ s ∈ seen, s ∈ G
  zero : ∀ id, counted before id = 0 ↔ id ∉ seen.map Term.id
  le : ∀ id, counted (ts.foldl countUses before) id ≤ counted uses id
  stored : ∀ t ∈ ts, ∀ s ∈ t.subterms, (s.id ∈ c.tempOf ↔ isKept uses s = true ∧ s ∈ seen)

theorem Synced.head (h : Synced G uses (t :: ts) seen before c) :
    Synced G uses [t] seen before c where
  ahead := fun s hs => h.ahead s (List.mem_singleton.1 hs ▸ List.mem_cons_self)
  graph := h.graph
  zero := h.zero
  le id := Nat.le_trans (counted_le_foldl (countUses before t) ts id) (h.le id)
  stored := fun s hs => h.stored s (List.mem_singleton.1 hs ▸ List.mem_cons_self)

theorem Synced.operands (hG : IsTermGraph n G) (h : Synced G uses [t] seen before c)
    (hnew : ¬ t.Among seen) : Synced G uses t.operands (t :: seen)
      (before.insert t.id (counted before t.id + 1)) c where
  ahead := hG.closed t (h.ahead t List.mem_cons_self)
  graph := List.forall_mem_cons.2 ⟨h.ahead t List.mem_cons_self, h.graph⟩
  zero := counted_insert_eq_zero_iff h.zero t
  le id := by
    have := h.le id
    rwa [List.foldl_cons, List.foldl_nil, countUses_of_new ((h.zero t.id).2 hnew)] at this
  stored x hx s hs := by
    have hne := ne_of_mem_subterms_operand hx hs
    rw [h.stored t List.mem_cons_self s (mem_subterms_iff.2 (.inr ⟨x, hx, hs⟩)), List.mem_cons]
    tauto

theorem Synced.tail (hG : IsTermGraph n G) (h : Synced G uses (t :: ts) seen before c)
    (hcovers : Covers G uses seen (visitAll seen [t]) c c') :
    Synced G uses ts (visitAll seen [t]) (countUses before t) c' where
  ahead s hs := h.ahead s (List.mem_cons_of_mem _ hs)
  graph s hs := by
    rcases mem_of_mem_visitAll hs with hs | ⟨u, hu, hsu⟩
    · exact h.graph s hs
    · obtain rfl := List.mem_singleton.1 hu
      exact subterms_subset hG.closed (h.ahead u List.mem_cons_self) hsu
  zero := (counted_foldl [t] h.zero).1
  le := h.le
  stored u hu s hs := by
    have hsG := subterms_subset hG.closed (h.ahead u (List.mem_cons_of_mem _ hu)) hs
    rw [hcovers.stored s hsG, h.stored u (List.mem_cons_of_mem _ hu) s hs]
    have := @subset_visitAll _ seen [t] s
    tauto

/-- A term that is visited again is stored if it is an operation. -/
theorem Synced.isKept_of_among (h : Synced G uses [t] seen before c) (hagain : t.Among seen) :
    isKept uses t = t.isOperation := by
  have hpos : counted before t.id ≠ 0 := fun hzero => (h.zero t.id).1 hzero hagain
  have hcount := h.le t.id
  rw [List.foldl_cons, List.foldl_nil, countUses_of_seen hpos, counted_insert, if_pos rfl] at hcount
  have hmany : 1 < counted uses t.id := by omega
  simp [isKept, hmany]

theorem covers_compile_again (hG : IsTermGraph n G) (h : Synced G uses [t] seen before c)
    (hoperation : t.isOperation = true) (hagain : t.Among seen)
    (hrun : compile table uses t c = .ok c') : Covers G uses seen (visitAll seen [t]) c c' := by
  rw [visitAll_of_seen hagain]
  have hstored := (h.stored t List.mem_cons_self t (mem_subterms_self t)).2
    ⟨(h.isKept_of_among hagain).trans hoperation,
      hagain.mem hG (h.ahead t List.mem_cons_self) h.graph⟩
  obtain ⟨i, hi⟩ := Option.isSome_iff_exists.1 (Std.HashMap.mem_iff_isSome_getElem?.1 hstored)
  rw [compile_of_stored hi] at hrun
  obtain rfl := Except.ok.inj hrun
  exact covers_emit rfl

theorem Synced.getElem?_eq_none (h : Synced G uses [t] seen before c) (hnew : ¬ t.Among seen) :
    c.tempOf[t.id]? = none := by
  refine Std.HashMap.getElem?_eq_none fun hmem => hnew ?_
  exact List.mem_map_of_mem ((h.stored t List.mem_cons_self t (mem_subterms_self t)).1 hmem).2

/-- The code for a term covers what is visited from it. -/
theorem covers_compile (hG : IsTermGraph n G) (h : Synced G uses [t] seen before c)
    (hrun : compile table uses t c = .ok c') : Covers G uses seen (visitAll seen [t]) c c' := by
  induction t generalizing c c' seen before with
  | constant id a =>
    exact covers_compile_leaf rfl (h.stored _ List.mem_cons_self _ (mem_subterms_self _)) hrun
  | symbol id name =>
    exact covers_compile_leaf rfl (h.stored _ List.mem_cons_self _ (mem_subterms_self _)) hrun
  | unary id op x ih =>
    by_cases hagain : (unary id op x).Among seen
    · exact covers_compile_again hG h rfl hagain hrun
    unfold compile at hrun
    rw [h.getElem?_eq_none hagain] at hrun
    obtain ⟨c₁, hx, hrest⟩ := exists_of_bind_eq_ok hrun
    obtain rfl := Except.ok.inj hrest
    rw [visitAll_of_new hagain]
    exact (ih (h.operands hG hagain) hx).operation hG (h.ahead _ List.mem_cons_self)
      (subset_visitAll _ _) (fun hmem => hagain (List.mem_map_of_mem hmem)) rfl rfl
  | binary id op x y ihx ihy =>
    by_cases hagain : (binary id op x y).Among seen
    · exact covers_compile_again hG h rfl hagain hrun
    unfold compile at hrun
    rw [h.getElem?_eq_none hagain] at hrun
    obtain ⟨c₁, hx, hrest⟩ := exists_of_bind_eq_ok hrun
    obtain ⟨c₂, hy, hrest⟩ := exists_of_bind_eq_ok hrest
    obtain rfl := Except.ok.inj hrest
    have hops := h.operands hG hagain
    have hfirst := ihx hops.head hx
    have hsecond := ihy (hops.tail hG hfirst) hy
    rw [visitAll_of_new hagain, Term.operands, visitAll_cons]
    exact (hfirst.trans hsecond (subset_visitAll _ _) (subset_visitAll _ _)).operation hG
      (h.ahead _ List.mem_cons_self)
      (fun s hs => subset_visitAll _ _ (subset_visitAll _ _ hs))
      (fun hmem => hagain (List.mem_map_of_mem hmem)) rfl rfl

theorem covers_compileOutputs (hG : IsTermGraph n G) {os : List (Term α)} {k : Nat}
    (h : Synced G uses os seen before c) (hrun : compileOutputs table uses os k c = .ok c') :
    Covers G uses seen (visitAll seen os) c c' := by
  induction os generalizing k c seen before with
  | nil =>
    obtain rfl := Except.ok.inj hrun
    rw [visitAll]
    exact ⟨rfl, rfl, fun s _ => by tauto⟩
  | cons o os ih =>
    unfold compileOutputs at hrun
    rw [List.zipIdx_cons, List.foldlM_cons] at hrun
    obtain ⟨c₁, hfirst, hrest⟩ := exists_of_bind_eq_ok hrun
    obtain ⟨c₂, ho, hemit⟩ := exists_of_bind_eq_ok hfirst
    obtain rfl := Except.ok.inj hemit
    have hwrite : (OpCode.write k : OpCode α).isArithmetic = false := rfl
    have hcovers := (covers_compile hG h.head ho).trans
      (covers_emit hwrite) (subset_visitAll _ _) (List.Subset.refl _)
    rw [visitAll_cons]
    exact hcovers.trans (ih (h.tail hG hcovers) hrest) (subset_visitAll _ _) (subset_visitAll _ _)

end Covers

end Compiler

/-! ## Programs -/

/-- What can be read off the program of the given terms. -/
structure Program.Economical (p : Program α) (outputs : List (Term α)) : Prop where
  stores : p.code.filterMap OpCode.stored? = List.range p.tempCount
  sequenced : IsSequenced p.code
  operations : p.code.countP OpCode.isArithmetic = (nodes outputs).countP isOperation
  temporaries : p.tempCount =
    (nodes outputs).countP fun t => t.isOperation && 1 < useCount outputs t.id

theorem TermFunction.economical_assemble {n : Nat} {G : Set (Term α)} (hG : IsTermGraph n G)
    {inputs outputs : List (Term α)} (hos : ∀ o ∈ outputs, o ∈ G) {p : Program α}
    (hp : assemble inputs outputs = .ok p) : p.Economical outputs := by
  rw [assemble_eq] at hp
  obtain ⟨c, hc, hprogram⟩ := exists_of_bind_eq_ok hp
  obtain rfl := Except.ok.inj hprogram
  have horderly := Compiler.orderly_compileOutputs Compiler.orderly_start hc
  have hsynced : Compiler.Synced G (outputs.foldl Term.countUses ∅) outputs [] ∅ ⟨#[], ∅, 0⟩ :=
    ⟨hos, by simp, by simp [counted], fun _ => Nat.le_refl _, by simp⟩
  have hcovers := Compiler.covers_compileOutputs hG hsynced hc
  have hperm := visitAll_perm_nodes hG hos
  have hkept : Compiler.isKept (outputs.foldl Term.countUses ∅) =
      fun t : Term α => t.isOperation && decide (1 < useCount outputs t.id) := by
    funext t
    rw [Compiler.isKept, counted_eq_useCount hG hos]
  exact {
    stores := horderly.stores
    sequenced := horderly.sequenced
    operations := by simpa [hperm.countP_eq] using hcovers.operations
    temporaries := by simpa [hperm.countP_eq, hkept] using hcovers.temporaries }

end DiffGraph
