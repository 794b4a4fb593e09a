import Mathlib
import DiffGraph.Proofs.Function.Run
import DiffGraph.Proofs.Term.Graph
import DiffGraph.Term.Function

/-!
# Compiled scalar expressions

The code for a term leaves its value on the stack of the machine, whatever lies
below it (`Compiler.Pushes`), as long as the temporaries of stored terms hold
their values (`Compiler.Holds`): a stored term is loaded instead of computed
again. So the program of a function over scalar expressions writes the values of
its outputs (`TermFunction.run_eq`), unless the machine has no memory for it.
-/

namespace DiffGraph

open Element Term

variable {α T : Type} [Element Id α T]

theorem exists_of_bind_eq_ok {ε β γ : Type} {x : Except ε β} {f : β → Except ε γ} {r : γ}
    (h : x >>= f = .ok r) : ∃ a, x = .ok a ∧ f a = .ok r := by
  cases x with
  | error e => cases h
  | ok a => exact ⟨a, rfl, h⟩

/-! ## Code -/

def Program.exec (vars : Array T) (code : List (OpCode α)) (s : Machine T) :
    ExceptT FunctionError Id (Machine T) :=
  code.foldlM (fun s op => Program.step vars op s) s

theorem Machine.start_of_not_fits {zero : T} {tempCount outCount : Nat}
    (h : ¬ (tempCount < Size.listLimit ∧ outCount < Size.listLimit)) :
    start zero tempCount outCount = .error .misuse := by
  unfold start Size.checkLength
  by_cases htemps : tempCount < Size.listLimit
  · rw [if_pos htemps, if_neg fun hcount => h ⟨htemps, hcount⟩]
    rfl
  · rw [if_neg htemps]
    rfl

theorem Program.exec_append {vars : Array T} {code code' : List (OpCode α)} {s s' : Machine T}
    (h : exec vars code s = pure s') : exec vars (code ++ code') s = exec vars code' s' := by
  unfold exec at *
  rw [List.foldlM_append, h, pure_bind]

theorem Program.step_storeTemp {vars : Array T} {i : Nat} {v : T} {stack : List T}
    {temps out : Array T} (h : i < temps.size) :
    (step vars (OpCode.storeTemp i) ⟨v :: stack, temps, out⟩ : ExceptT FunctionError Id _) =
      pure ⟨v :: stack, temps.setIfInBounds i v, out⟩ := by
  show (if i < temps.size then _ else _ : Except FunctionError (Machine T)) = _
  rw [if_pos h]
  rfl

theorem Program.step_write {vars : Array T} {k : Nat} {v : T} {stack : List T}
    {temps out : Array T} (h : k < out.size) :
    (step vars (OpCode.write k) ⟨v :: stack, temps, out⟩ : ExceptT FunctionError Id _) =
      pure ⟨stack, temps, out.setIfInBounds k v⟩ := by
  show (if k < out.size then _ else _ : Except FunctionError (Machine T)) = _
  rw [if_pos h]
  rfl

namespace Compiler

variable {n : Nat} {G : Set (Term α)} {env : Nat → T} {vars : Array T} {c c' c'' : Compiler α}
  {t x y : Term α} {u v : T}

/-- The temporaries of stored terms hold their values. -/
structure Holds (env : Nat → T) (G : Set (Term α)) (c : Compiler α) (temps : Array T) : Prop where
  lt : ∀ id i : Nat, c.tempOf[id]? = some i → i < c.tempCount
  value : ∀ t ∈ G, ∀ i : Nat, c.tempOf[t.id]? = some i → temps[i]? = some (t.eval env)

/-- The code emitted from `c` to `c'` pushes the element `v`. -/
def Pushes (vars : Array T) (env : Nat → T) (G : Set (Term α)) (c c' : Compiler α) (v : T) : Prop :=
  c.tempCount ≤ c'.tempCount ∧ ∃ block, c'.code.toList = c.code.toList ++ block ∧
    ∀ s : Machine T, c.Holds env G s.temps → c'.tempCount ≤ s.temps.size → ∃ temps : Array T,
      Program.exec vars block s = pure ⟨v :: s.stack, temps, s.out⟩ ∧
        temps.size = s.temps.size ∧ c'.Holds env G temps

theorem pushes_emit {op : OpCode α}
    (h : ∀ s : Machine T, c.Holds env G s.temps →
      (Program.step vars op s : ExceptT FunctionError Id _) = pure (s.push v)) :
    Pushes vars env G c (c.emit op) v := by
  refine ⟨Nat.le_refl _, [op], by simp [emit], fun s hs _ => ⟨s.temps, ?_, rfl, hs.1, hs.2⟩⟩
  rw [Program.exec, List.foldlM_cons, h s hs, pure_bind]
  rfl

theorem Pushes.unary (h : Pushes vars env G c c' u) (op : UnaryOp) :
    Pushes vars env G c (c'.emit (.unary op)) (apply₁ op u) := by
  obtain ⟨hcount, block, hcode, hrun⟩ := h
  refine ⟨hcount, block ++ [.unary op], by simp [emit, hcode], fun s hs hsize => ?_⟩
  obtain ⟨temps, hexec, htemps, hholds⟩ := hrun s hs hsize
  exact ⟨temps, Program.exec_append hexec, htemps, hholds.1, hholds.2⟩

theorem Pushes.binary (h : Pushes vars env G c c' u) (h' : Pushes vars env G c' c'' v)
    (op : BinaryOp) : Pushes vars env G c (c''.emit (.binary op)) (apply₂ op u v) := by
  obtain ⟨hcount, block, hcode, hrun⟩ := h
  obtain ⟨hcount', block', hcode', hrun'⟩ := h'
  refine ⟨Nat.le_trans hcount hcount', block ++ (block' ++ [.binary op]),
    by simp [emit, hcode, hcode'], fun s hs hsize => ?_⟩
  obtain ⟨temps, hexec, htemps, hholds⟩ := hrun s hs (Nat.le_trans hcount' hsize)
  obtain ⟨temps', hexec', htemps', hholds'⟩ :=
    hrun' ⟨u :: s.stack, temps, s.out⟩ hholds (htemps ▸ hsize)
  refine ⟨temps', ?_, htemps'.trans htemps, hholds'.1, hholds'.2⟩
  rw [Program.exec_append hexec, Program.exec_append hexec']
  rfl

/-- The value on the stack is that of the term, kept if the term is used again. -/
theorem Pushes.keep (hG : IsTermGraph n G) (ht : t ∈ G) (h : Pushes vars env G c c' (t.eval env))
    (uses : Std.HashMap Nat Nat) : Pushes vars env G c (c'.keep uses t.id) (t.eval env) := by
  unfold Compiler.keep
  split
  · obtain ⟨hcount, block, hcode, hrun⟩ := h
    refine ⟨Nat.le_succ_of_le hcount, block ++ [.storeTemp c'.tempCount], by simp [emit, hcode],
      fun s hs hsize => ?_⟩
    obtain ⟨temps, hexec, htemps, hholds⟩ := hrun s hs (Nat.le_of_succ_le hsize)
    have hlt : c'.tempCount < temps.size := htemps ▸ hsize
    refine ⟨temps.setIfInBounds c'.tempCount (t.eval env), ?_, by simpa using htemps, ?_, ?_⟩
    · rw [Program.exec_append hexec, Program.exec, List.foldlM_cons, Program.step_storeTemp hlt]
      rfl
    · intro id i hi
      rw [Std.HashMap.getElem?_insert] at hi
      split at hi
      · exact Option.some.inj hi ▸ Nat.lt_succ_self _
      · exact Nat.lt_succ_of_lt (hholds.lt id i hi)
    · intro t' ht' i hi
      rw [Std.HashMap.getElem?_insert] at hi
      split at hi
      · rename_i hid
        obtain rfl := hG.unique t ht t' ht' (by simpa using hid)
        obtain rfl := Option.some.inj hi
        exact Array.getElem?_setIfInBounds_self_of_lt hlt
      · rw [Array.getElem?_setIfInBounds_ne (Nat.ne_of_gt (hholds.lt _ i hi))]
        exact hholds.value t' ht' i hi
  · exact h

theorem pushes_load {op : OpCode α} (table : Machine T → Array T) {i : Nat}
    (hop : ∀ s : Machine T, (Program.step vars op s : ExceptT FunctionError Id _) =
      (s.load (table s) i : Except FunctionError _))
    (h : ∀ s : Machine T, c.Holds env G s.temps → (table s)[i]? = some v) :
    Pushes vars env G c (c.emit op) v := by
  refine pushes_emit fun s hs => (hop s).trans ?_
  unfold Machine.load
  rw [h s hs]
  rfl

theorem compile_of_stored {table uses : Std.HashMap Nat Nat} {i : Nat}
    (hi : c.tempOf[t.id]? = some i) : compile table uses t c = .ok (c.emit (.loadTemp i)) := by
  cases t <;> (unfold compile; rw [hi])

theorem pushes_of_stored {table uses : Std.HashMap Nat Nat} {i : Nat} (ht : t ∈ G)
    (hi : c.tempOf[t.id]? = some i) (h : compile table uses t c = .ok c') :
    Pushes vars env G c c' (t.eval env) := by
  rw [compile_of_stored hi] at h
  obtain rfl := Except.ok.inj h
  exact pushes_load Machine.temps (fun _ => rfl) fun s hs => hs.value t ht i hi

theorem pushes_compile (hG : IsTermGraph n G) {table uses : Std.HashMap Nat Nat}
    (hvars : ∀ id i : Nat, table[id]? = some i → vars[i]? = some (env id)) (ht : t ∈ G)
    (h : compile table uses t c = .ok c') : Pushes vars env G c c' (t.eval env) := by
  induction t generalizing c c' with
  | constant id a =>
    cases hi : c.tempOf[(constant id a).id]? with
    | some i => exact pushes_of_stored ht hi h
    | none =>
      unfold compile at h
      rw [hi] at h
      obtain rfl := Except.ok.inj h
      exact pushes_emit fun _ _ => rfl
  | symbol id name =>
    cases hi : c.tempOf[(symbol id name : Term α).id]? with
    | some i => exact pushes_of_stored ht hi h
    | none =>
      unfold compile at h
      rw [hi] at h
      dsimp only at h
      split at h
      · rename_i i hi
        obtain rfl := Except.ok.inj h
        exact pushes_load (fun _ => vars) (fun _ => rfl) fun _ _ => hvars id i hi
      · cases h
  | unary id op x ih =>
    cases hi : c.tempOf[(unary id op x).id]? with
    | some i => exact pushes_of_stored ht hi h
    | none =>
      unfold compile at h
      rw [hi] at h
      obtain ⟨c₁, hx, h⟩ := exists_of_bind_eq_ok h
      obtain rfl := Except.ok.inj h
      exact ((ih (hG.closed _ ht x (by simp [operands])) hx).unary op).keep hG ht uses
  | binary id op x y ihx ihy =>
    cases hi : c.tempOf[(binary id op x y).id]? with
    | some i => exact pushes_of_stored ht hi h
    | none =>
      unfold compile at h
      rw [hi] at h
      obtain ⟨c₁, hx, h⟩ := exists_of_bind_eq_ok h
      obtain ⟨c₂, hy, h⟩ := exists_of_bind_eq_ok h
      obtain rfl := Except.ok.inj h
      have hpush := ihx (hG.closed _ ht x (by simp [operands])) hx
      have hpush' := ihy (hG.closed _ ht y (by simp [operands])) hy
      exact (hpush.binary hpush' op).keep hG ht uses

omit [Element Id α T] in
/-- The code for a term whose symbols are variables can be emitted. -/
theorem exists_compile (hclosed : ∀ t ∈ G, ∀ x ∈ t.operands, x ∈ G)
    {table : Std.HashMap Nat Nat} (uses : Std.HashMap Nat Nat)
    (hsym : ∀ t ∈ G, t.isSymbol = true → t.id ∈ table) (ht : t ∈ G) (c : Compiler α) :
    ∃ c', compile table uses t c = .ok c' := by
  induction t generalizing c with
  | constant id a =>
    unfold compile
    split <;> exact ⟨_, rfl⟩
  | symbol id name =>
    unfold compile
    split
    · exact ⟨_, rfl⟩
    · have hid : id ∈ table := hsym _ ht rfl
      dsimp only
      rw [Std.HashMap.getElem?_eq_some_getElem hid]
      exact ⟨_, rfl⟩
  | unary id op x ih =>
    obtain ⟨c₁, hx⟩ := ih (hclosed _ ht x (by simp [operands])) c
    unfold compile
    split
    · exact ⟨_, rfl⟩
    · simp only [hx]
      exact ⟨_, rfl⟩
  | binary id op x y ihx ihy =>
    obtain ⟨c₁, hx⟩ := ihx (hclosed _ ht x (by simp [operands])) c
    obtain ⟨c₂, hy⟩ := ihy (hclosed _ ht y (by simp [operands])) c₁
    unfold compile
    split
    · exact ⟨_, rfl⟩
    · simp only [hx]
      refine ⟨(c₂.emit (.binary op)).keep uses id, ?_⟩
      simp only [bind, Except.bind, hy]
      rfl

/-! ## All outputs -/

/-- The code emitted from `c` to `c'` writes elements to outputs. -/
def Writes (vars : Array T) (env : Nat → T) (G : Set (Term α)) (c c' : Compiler α)
    (pairs : List (Nat × T)) : Prop :=
  c.tempCount ≤ c'.tempCount ∧ ∃ block, c'.code.toList = c.code.toList ++ block ∧
    ∀ s : Machine T, c.Holds env G s.temps → c'.tempCount ≤ s.temps.size →
      (∀ k w, (k, w) ∈ pairs → k < s.out.size) → ∃ temps : Array T,
        Program.exec vars block s = pure ⟨s.stack, temps,
          pairs.foldl (fun out (k, w) => out.setIfInBounds k w) s.out⟩ ∧
        temps.size = s.temps.size ∧ c'.Holds env G temps

theorem writes_nil : Writes vars env G c c [] :=
  ⟨Nat.le_refl _, [], (List.append_nil _).symm, fun s hs _ _ => ⟨s.temps, rfl, rfl, hs⟩⟩

theorem writes_cons {k : Nat} {pairs : List (Nat × T)} (h : Pushes vars env G c c' v)
    (h' : Writes vars env G (c'.emit (.write k)) c'' pairs) :
    Writes vars env G c c'' ((k, v) :: pairs) := by
  obtain ⟨hcount, block, hcode, hrun⟩ := h
  obtain ⟨hcount', block', hcode', hrun'⟩ := h'
  refine ⟨Nat.le_trans hcount hcount', block ++ (.write k :: block'),
    by simp [hcode', hcode, emit], fun s hs hsize hout => ?_⟩
  obtain ⟨temps, hexec, htemps, hholds⟩ := hrun s hs (Nat.le_trans hcount' hsize)
  obtain ⟨temps', hexec', htemps', hholds'⟩ := hrun' ⟨s.stack, temps, s.out.setIfInBounds k v⟩
    ⟨hholds.1, hholds.2⟩ (htemps ▸ hsize) fun j w hj => by
      simpa using hout j w (List.mem_cons_of_mem _ hj)
  refine ⟨temps', ?_, htemps'.trans htemps, hholds'⟩
  rw [Program.exec_append hexec, List.foldl_cons, ← hexec', Program.exec, List.foldlM_cons,
    Program.step_write (hout k v List.mem_cons_self), pure_bind]
  rfl

/-- The code for the outputs from number `k` on. -/
def compileOutputs (table uses : Std.HashMap Nat Nat) (os : List (Term α)) (k : Nat)
    (c : Compiler α) : Except FunctionError (Compiler α) :=
  (os.zipIdx k).foldlM (fun c (o, k) => do return (← compile table uses o c).emit (.write k)) c

theorem writes_compileOutputs (hG : IsTermGraph n G) {table uses : Std.HashMap Nat Nat}
    (hvars : ∀ id i : Nat, table[id]? = some i → vars[i]? = some (env id)) {os : List (Term α)}
    (hos : ∀ o ∈ os, o ∈ G) {k : Nat} (h : compileOutputs table uses os k c = .ok c') :
    Writes vars env G c c' ((os.zipIdx k).map fun (o, k) => (k, o.eval env)) := by
  induction os generalizing k c with
  | nil =>
    obtain rfl := Except.ok.inj h
    exact writes_nil
  | cons o os ih =>
    obtain ⟨ho, hos⟩ := List.forall_mem_cons.1 hos
    unfold compileOutputs at h
    rw [List.zipIdx_cons, List.foldlM_cons] at h
    obtain ⟨c₁, hfirst, hrest⟩ := exists_of_bind_eq_ok h
    obtain ⟨c₂, hc, hemit⟩ := exists_of_bind_eq_ok hfirst
    obtain rfl := Except.ok.inj hemit
    exact writes_cons (pushes_compile hG hvars ho hc) (ih hos hrest)

omit [Element Id α T] in
theorem exists_compileOutputs (hclosed : ∀ t ∈ G, ∀ x ∈ t.operands, x ∈ G)
    {table : Std.HashMap Nat Nat} (uses : Std.HashMap Nat Nat)
    (hsym : ∀ t ∈ G, t.isSymbol = true → t.id ∈ table) {os : List (Term α)}
    (hos : ∀ o ∈ os, o ∈ G) (k : Nat) (c : Compiler α) :
    ∃ c', compileOutputs table uses os k c = .ok c' := by
  induction os generalizing k c with
  | nil => exact ⟨c, rfl⟩
  | cons o os ih =>
    obtain ⟨ho, hos⟩ := List.forall_mem_cons.1 hos
    obtain ⟨c₁, hc⟩ := exists_compile hclosed uses hsym ho c
    obtain ⟨c', hc'⟩ := ih hos (k + 1) (c₁.emit (.write k))
    refine ⟨c', ?_⟩
    unfold compileOutputs
    rw [List.zipIdx_cons, List.foldlM_cons]
    simp only [hc]
    exact hc'

/-- The number of the variable of every symbol: the last one that is the symbol. -/
def varTable (inputs : List (Term α)) : Std.HashMap Nat Nat :=
  inputs.zipIdx.foldl (fun vars (x, i) => vars.insert x.id i) ∅

omit [Element Id α T] in
theorem getElem?_varTable {inputs : List (Term α)} {id i : Nat} :
    (varTable inputs)[id]? = some i ↔ IsLast (inputs.map Term.id) i id := by
  induction inputs using List.reverseRecOn with
  | nil => simp [varTable, IsLast]
  | append_singleton xs x ih =>
    have hfold : varTable (xs ++ [x]) = (varTable xs).insert x.id xs.length := by
      simp [varTable, List.zipIdx_append]
    rw [hfold, Std.HashMap.getElem?_insert, List.map_append, List.map_singleton]
    by_cases hid : x.id = id
    · subst hid
      simp [isLast_concat_self, eq_comm]
    · rw [if_neg (by simpa using hid), ih, isLast_concat_of_ne hid]

end Compiler

namespace TermFunction

variable {n : Nat} {G : Set (Term α)} {g : TermFunction α} {inputs outputs : List (Term α)}

/-- The assignment that gives the symbols among the inputs their values; the last value of a symbol
counts. -/
def assign [Zero α] (inputs : List (Term α)) (vs : List T) (id : Nat) : T :=
  ((inputs.zip vs).reverse.find? fun (x, _) => x.id = id).elim (ofNumber (0 : α)) Prod.snd

theorem assign_of_isLast [Zero α] {vs : List T} (hlen : vs.length = inputs.length) {id i : Nat}
    (hi : IsLast (inputs.map Term.id) i id) : vs[i]? = some (assign inputs vs id) := by
  induction inputs using List.reverseRecOn generalizing vs with
  | nil => cases hi.1
  | append_singleton xs x ih =>
    obtain ⟨us, u, rfl⟩ : ∃ us u, vs = us ++ [u] := by
      rcases List.eq_nil_or_concat vs with rfl | ⟨us, u, rfl⟩
      · simp at hlen
      · exact ⟨us, u, List.concat_eq_append⟩
    have hlen' : us.length = xs.length := by simpa using hlen
    rw [List.map_append, List.map_singleton] at hi
    rw [assign, List.zip_append hlen'.symm, List.reverse_append]
    by_cases hid : x.id = id
    · subst hid
      obtain rfl := isLast_concat_self.1 hi
      rw [List.length_map, ← hlen', List.getElem?_concat_length]
      simp
    · have hi' := (isLast_concat_of_ne hid).1 hi
      have hlt := (List.getElem?_eq_some_iff.1 hi'.1).1
      rw [List.length_map, ← hlen'] at hlt
      rw [List.getElem?_append_left hlt, ih hlen' hi', assign]
      simp [hid]

/-- What running a function asks of the memory: it holds the temporaries and the outputs. -/
def FitsMemory (g : TermFunction α) : Prop :=
  g.program.tempCount < Size.listLimit ∧ g.outputs.flatten.length < Size.listLimit

instance (g : TermFunction α) : Decidable g.FitsMemory :=
  inferInstanceAs (Decidable (_ ∧ _))

/-- The function has been compiled from terms of a graph. -/
structure Compiled (G : Set (Term α)) (g : TermFunction α) : Prop where
  inputs : ∀ x ∈ g.inputs.flatten, x ∈ G
  outputs : ∀ o ∈ g.outputs.flatten, o ∈ G
  compile : compile g.name g.inputs g.inputPatterns g.outputs g.outputPatterns = .ok g

theorem assemble_eq (inputs outputs : List (Term α)) :
    assemble inputs outputs = (do
      let c ← Compiler.compileOutputs (Compiler.varTable inputs)
        (outputs.foldl Term.countUses ∅) outputs 0 ⟨#[], ∅, 0⟩
      return ⟨c.code.toList, c.tempCount⟩) := rfl

theorem map_zipIdx_eq_zip (os : List (Term α)) (env : Nat → T) :
    (os.zipIdx.map fun (o, k) => (k, o.eval env)) =
      (List.range (os.map (Term.eval env)).length).zip (os.map (Term.eval env)) := by
  refine List.ext_getElem (by simp) fun k hk _ => ?_
  simp

/-- A program writes the values of the terms that it was assembled from. -/
theorem run_of_assemble [Zero α] (hG : IsTermGraph n G) (hos : ∀ o ∈ outputs, o ∈ G) {p : Program α}
    (hp : assemble inputs outputs = .ok p) {vs : List T} (hlen : vs.length = inputs.length)
    (htemps : p.tempCount < Size.listLimit) (hout : outputs.length < Size.listLimit) :
    ∃ s : Machine T, (p.run vs outputs.length : ExceptT FunctionError Id _) = pure s ∧
      s.out.toList = outputs.map (Term.eval (assign inputs vs)) := by
  rw [assemble_eq] at hp
  obtain ⟨c, hc, hprogram⟩ := exists_of_bind_eq_ok hp
  obtain rfl := Except.ok.inj hprogram
  have hvars (id i : Nat) (hi : (Compiler.varTable inputs)[id]? = some i) :
      vs.toArray[i]? = some (assign inputs vs id) := by
    rw [List.getElem?_toArray]
    exact assign_of_isLast hlen (Compiler.getElem?_varTable.1 hi)
  obtain ⟨-, block, hcode, hrun⟩ := Compiler.writes_compileOutputs hG hvars hos hc
  obtain ⟨temps, hexec, -, -⟩ := hrun ⟨[], Array.replicate c.tempCount (ofNumber 0),
    Array.replicate outputs.length (ofNumber 0)⟩ ⟨by simp, by simp⟩ (by simp) (by
      intro k w hkw
      obtain ⟨⟨o, j⟩, hoj, heq⟩ := List.mem_map.1 hkw
      obtain ⟨rfl, -⟩ := Prod.mk.inj heq
      simpa using List.snd_lt_of_mem_zipIdx hoj)
  have hstart : (Machine.start (ofNumber 0 : T) c.tempCount outputs.length) =
      .ok ⟨[], Array.replicate c.tempCount (ofNumber 0),
        Array.replicate outputs.length (ofNumber 0)⟩ := by
    unfold Machine.start
    rw [Size.checkLength_eq_ok_iff.2 htemps, Size.checkLength_eq_ok_iff.2 hout]
    rfl
  refine ⟨_, Eq.trans ?_ hexec, ?_⟩
  · show (ExceptT.mk (pure (Machine.start (ofNumber 0 : T) c.tempCount outputs.length)) :
      ExceptT FunctionError Id _) >>= Program.exec vs.toArray c.code.toList = _
    rw [hstart, hcode]
    rfl
  · rw [map_zipIdx_eq_zip]
    refine List.ext_getElem? fun k => ?_
    rw [Array.getElem?_toList, getElem?_foldl_set_range (by simp)]
    by_cases hk : k < outputs.length
    · simp [List.getElem?_eq_getElem hk]
    · simp [hk]

section Compile

variable {name : String} {inputs outputs : List (List (Term α))}
  {inputPatterns outputPatterns : List Pattern}

omit [Element Id α T] in
theorem compile_eq
    (hcounts : ¬ (inputs.length ≠ inputPatterns.length ∨ outputs.length ≠ outputPatterns.length))
    (hin : inputError? inputs inputPatterns = none)
    (hout : outputError? name outputs outputPatterns = none) :
    compile name inputs inputPatterns outputs outputPatterns = (do
      let p ← assemble inputs.flatten outputs.flatten
      return ⟨name, inputs, outputs, inputPatterns, outputPatterns, p⟩) := by
  unfold compile
  rw [if_neg hcounts, hin, hout]

omit [Element Id α T] in
/-- A compiled function has passed all checks and carries the program of its outputs. -/
theorem spec_of_compile (h : compile name inputs inputPatterns outputs outputPatterns = .ok g) :
    ¬ (inputs.length ≠ inputPatterns.length ∨ outputs.length ≠ outputPatterns.length) ∧
      inputError? inputs inputPatterns = none ∧ outputError? name outputs outputPatterns = none ∧
      ∃ p, assemble inputs.flatten outputs.flatten = .ok p ∧
        g = ⟨name, inputs, outputs, inputPatterns, outputPatterns, p⟩ := by
  by_cases hcounts :
      inputs.length ≠ inputPatterns.length ∨ outputs.length ≠ outputPatterns.length
  · unfold compile at h
    rw [if_pos hcounts] at h
    cases h
  cases hin : inputError? inputs inputPatterns with
  | some e =>
    unfold compile at h
    rw [if_neg hcounts, hin] at h
    cases h
  | none =>
    cases hout : outputError? name outputs outputPatterns with
    | some e =>
      unfold compile at h
      rw [if_neg hcounts, hin, hout] at h
      cases h
    | none =>
      rw [compile_eq hcounts hin hout] at h
      obtain ⟨p, hp, hg⟩ := exists_of_bind_eq_ok h
      exact ⟨hcounts, rfl, rfl, p, hp, (Except.ok.inj hg).symm⟩

omit [Element Id α T] in
theorem lengths_of_compile (h : compile name inputs inputPatterns outputs outputPatterns = .ok g) :
    inputs.map List.length = inputPatterns.map Pattern.nnz ∧
      outputs.map List.length = outputPatterns.map Pattern.nnz := by
  obtain ⟨hcounts, hin, hout, -⟩ := spec_of_compile h
  rw [not_or, not_not, not_not] at hcounts
  have hlens {ts : List (List (Term α))} {ps : List Pattern} (hcount : ts.length = ps.length)
      (h : ∀ (i : Nat) t p, ts[i]? = some t → ps[i]? = some p → t.length = p.nnz) :
      ts.map List.length = ps.map Pattern.nnz := by
    refine List.ext_getElem (by simpa using hcount) fun i hi hi' => ?_
    rw [List.length_map] at hi hi'
    simpa using h i _ _ (List.getElem?_eq_getElem hi) (List.getElem?_eq_getElem hi')
  have hmem {ts : List (List (Term α))} {ps : List Pattern} {i : Nat} {t : List (Term α)}
      {p : Pattern} (ht : ts[i]? = some t) (hp : ps[i]? = some p) :
      ((t, p), i) ∈ (ts.zip ps).zipIdx :=
    List.mem_zipIdx_iff_getElem?.2 (List.getElem?_zip_eq_some.2 ⟨ht, hp⟩)
  refine ⟨hlens hcounts.1 fun i t p ht hp => ?_, hlens hcounts.2 fun i t p ht hp => ?_⟩
  · have hnone := List.findSome?_eq_none_iff.1 hin _ (hmem ht hp)
    by_contra hne
    simp [hne] at hnone
  · have hnone := List.findSome?_eq_none_iff.1 hout _ (hmem ht hp)
    by_contra hne
    simp [hne] at hnone

omit [Element Id α T] in
/-- Symbols and terms over them, on patterns of the right sizes, compile. -/
theorem exists_compile (hclosed : ∀ t ∈ G, ∀ x ∈ t.operands, x ∈ G)
    (hin : inputs.map List.length = inputPatterns.map Pattern.nnz)
    (hsym : ∀ x ∈ inputs.flatten, x.isSymbol = true)
    (hout : outputs.map List.length = outputPatterns.map Pattern.nnz)
    (hos : ∀ o ∈ outputs.flatten, o ∈ G)
    (hinputs : ∀ t ∈ G, t.isSymbol = true → t ∈ inputs.flatten) (name : String) :
    ∃ g, compile name inputs inputPatterns outputs outputPatterns = .ok g := by
  have hcounts :
      ¬ (inputs.length ≠ inputPatterns.length ∨ outputs.length ≠ outputPatterns.length) := by
    rw [not_or, not_not, not_not]
    exact ⟨by simpa using congrArg List.length hin, by simpa using congrArg List.length hout⟩
  have hat {ts : List (List (Term α))} {ps : List Pattern}
      (h : ts.map List.length = ps.map Pattern.nnz) {t : List (Term α)} {p : Pattern} {i : Nat}
      (hi : ((t, p), i) ∈ (ts.zip ps).zipIdx) : t ∈ ts ∧ t.length = p.nnz := by
    have hzip := List.mem_iff_getElem?.1 (List.fst_mem_of_mem_zipIdx hi)
    obtain ⟨k, hk⟩ := hzip
    obtain ⟨ht, hp⟩ := List.getElem?_zip_eq_some.1 hk
    exact ⟨List.mem_of_getElem? ht, by simpa [ht, hp] using congrArg (·[k]?) h⟩
  have hnoIn : inputError? inputs inputPatterns = none := by
    refine List.findSome?_eq_none_iff.2 fun ⟨⟨x, p⟩, i⟩ hi => ?_
    obtain ⟨hx, hlen⟩ := hat hin hi
    have hall : x.all Term.isSymbol = true :=
      List.all_eq_true.2 fun t ht => hsym t (List.mem_flatten_of_mem hx ht)
    simp [hlen, hall]
  have hnoOut : outputError? name outputs outputPatterns = none := by
    refine List.findSome?_eq_none_iff.2 fun ⟨⟨o, p⟩, i⟩ hi => ?_
    simp [(hat hout hi).2]
  have htable (t : Term α) (ht : t ∈ G) (hs : t.isSymbol = true) :
      t.id ∈ Compiler.varTable inputs.flatten := by
    obtain ⟨i, hi⟩ := exists_isLast (List.mem_map_of_mem (f := Term.id) (hinputs t ht hs))
    rw [Std.HashMap.mem_iff_isSome_getElem?, Compiler.getElem?_varTable.2 hi]
    rfl
  obtain ⟨c, hc⟩ := Compiler.exists_compileOutputs hclosed
    (outputs.flatten.foldl Term.countUses ∅) htable hos 0 ⟨#[], ∅, 0⟩
  rw [compile_eq hcounts hnoIn hnoOut, assemble_eq, hc]
  exact ⟨_, rfl⟩

end Compile

theorem chunks_flatten {β : Type} (xss : List (List β)) :
    chunks (xss.map List.length) xss.flatten = xss := by
  induction xss with
  | nil => rfl
  | cons xs xss ih => simp [chunks, ih]

/-- Refuses buffers whose number or lengths are not the given ones. -/
def checkCounts (counts lengths : List Nat) : Except GraphError Unit :=
  if lengths.length ≠ counts.length then throw (.argumentCount counts.length lengths.length)
  else ((lengths.zip counts).zipIdx.find? fun ((n, k), _) => n ≠ k).elim (pure ())
    fun ((n, k), i) => throw (.nonzeroCount i k n)

theorem find?_counts {β : Type} (size : β → Nat) (inputs : List β) (lengths : List Nat) :
    ((lengths.zip (inputs.map size)).zipIdx.find? fun ((n, k), _) => n ≠ k) =
      ((lengths.zip inputs).zipIdx.find? fun ((n, x), _) => n ≠ size x).map
        fun ((n, x), i) => ((n, size x), i) := by
  rw [List.zip_map_right, List.zipIdx_map, List.find?_map]
  rfl

omit [Element Id α T] in
theorem checkLengths_eq_checkCounts (g : TermFunction α) (lengths : List Nat) :
    g.checkLengths lengths = checkCounts (g.inputs.map List.length) lengths := by
  unfold checkLengths checkCounts
  rw [find?_counts, List.length_map]
  by_cases hcount : lengths.length ≠ g.inputs.length
  · rw [if_pos hcount, if_pos hcount]
    rfl
  · rw [if_neg hcount, if_neg hcount]
    cases ((lengths.zip g.inputs).zipIdx).find? fun s => s.1.1 ≠ s.1.2.length <;> rfl

theorem function_checkLengths_eq {β : Type} (inputs : List (Expr β)) (lengths : List Nat) :
    Function.checkLengths inputs lengths = checkCounts (inputs.map Expr.nnz) lengths := by
  unfold Function.checkLengths checkCounts
  rw [find?_counts, List.length_map]
  by_cases hcount : lengths.length ≠ inputs.length
  · rw [if_pos hcount, if_pos hcount]
    rfl
  · rw [if_neg hcount, if_neg hcount]
    cases ((lengths.zip inputs).zipIdx).find? fun s => s.1.1 ≠ s.1.2.nnz <;> rfl

omit [Element Id α T] in
/-- Both kinds of functions check the number and the lengths of arguments in the same way. -/
theorem checkLengths_eq {β : Type} {inputs : List (Expr β)}
    (h : g.inputs.map List.length = inputs.map Expr.nnz) (lengths : List Nat) :
    g.checkLengths lengths = Function.checkLengths inputs lengths := by
  rw [checkLengths_eq_checkCounts, function_checkLengths_eq, h]

theorem checkCounts_self (counts : List Nat) : checkCounts counts counts = .ok () := by
  have hfind : ((counts.zip counts).zipIdx.find? fun ((n, k), _) => n ≠ k) = none :=
    (find?_sizes_eq_none_iff (fun n => n) (fun k => k) rfl).2 rfl
  rw [checkCounts, if_neg (not_not.2 rfl), hfind]
  rfl

theorem checkCounts_eq_error {counts lengths : List Nat} (h : lengths ≠ counts) :
    ∃ e, checkCounts counts lengths = .error e ∧ e ≠ .misuse := by
  unfold checkCounts
  by_cases hcount : lengths.length ≠ counts.length
  · rw [if_pos hcount]
    exact ⟨_, rfl, nofun⟩
  · rw [if_neg hcount]
    cases hfind : (lengths.zip counts).zipIdx.find? fun ((n, k), _) => n ≠ k with
    | some bad => exact ⟨_, rfl, nofun⟩
    | none =>
      have hsizes := (find?_sizes_eq_none_iff (fun n => n) (fun k => k)
        (not_not.1 hcount)).1 hfind
      rw [List.map_id', List.map_id'] at hsizes
      exact absurd hsizes h

/-- Without the memory for its temporaries and outputs no program runs. -/
theorem run_of_not_fits [Zero α] {p : Program α} (vs : List T) {count : Nat}
    (h : ¬ (p.tempCount < Size.listLimit ∧ count < Size.listLimit)) :
    (p.run vs count : ExceptT FunctionError Id _) = throw .misuse := by
  show (ExceptT.mk (pure (Machine.start (ofNumber 0 : T) p.tempCount count)) :
    ExceptT FunctionError Id _) >>= Program.exec vs.toArray p.code = _
  rw [Machine.start_of_not_fits h]
  rfl

omit [Element Id α T] in
theorem checkLengths_self (g : TermFunction α) :
    g.checkLengths (g.inputs.map List.length) = .ok () := by
  rw [checkLengths_eq_checkCounts, checkCounts_self]

variable [Scalar α]

theorem Compiled.exists_run (hG : IsTermGraph n G) (h : g.Compiled G) {args : List (List T)}
    (hargs : args.map List.length = g.inputs.map List.length) (hmemory : g.FitsMemory) :
    ∃ s : Machine T, (g.program.run args.flatten g.outputs.flatten.length :
        ExceptT FunctionError Id _) = pure s ∧
      g.cutOutputs s.out =
        g.outputs.map (List.map (Term.eval (assign g.inputs.flatten args.flatten))) := by
  obtain ⟨-, -, -, p, hp, hg⟩ := spec_of_compile h.compile
  have hprogram : g.program = p := by rw [hg]
  have hlen : args.flatten.length = g.inputs.flatten.length := by
    rw [List.length_flatten, List.length_flatten, hargs]
  obtain ⟨s, hrun, hout⟩ := run_of_assemble hG h.outputs hp hlen
    (hprogram ▸ hmemory.1) hmemory.2
  have hlens : g.outputs.map List.length = (g.outputs.map (List.map (Term.eval
      (assign g.inputs.flatten args.flatten)))).map List.length := by
    simp
  refine ⟨s, hprogram ▸ hrun, ?_⟩
  rw [cutOutputs, hout, List.map_flatten, hlens, chunks_flatten]

/-- A run on arguments of the declared lengths gives the values of the outputs, unless the memory
does not suffice. -/
theorem run_eq (hG : IsTermGraph n G) (h : g.Compiled G) {args : List (List T)}
    (hargs : args.map List.length = g.inputs.map List.length) :
    (g.run args : ExceptT FunctionError Id _) =
      if g.FitsMemory then
        pure (g.outputs.map (List.map (Term.eval (assign g.inputs.flatten args.flatten))))
      else throw .misuse := by
  unfold run
  rw [hargs, checkLengths_self]
  by_cases hmemory : g.FitsMemory
  · rw [if_pos hmemory]
    obtain ⟨s, hrun, hcut⟩ := h.exists_run hG hargs hmemory
    exact (congrArg (· >>= fun s => pure (g.cutOutputs s.out)) hrun).trans (congrArg pure hcut)
  · rw [if_neg hmemory]
    exact congrArg (· >>= fun s : Machine T => pure (g.cutOutputs s.out))
      (run_of_not_fits args.flatten hmemory)

end TermFunction

end DiffGraph
