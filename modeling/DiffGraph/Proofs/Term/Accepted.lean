import Mathlib
import DiffGraph.Proofs.Term.Correct

/-!
# Which functions over scalar expressions compile

Compiling a term finds a number for every symbol in it, also where the term is
loaded from a temporary: what is stored has been compiled before
(`Compiler.covered_of_compile`). So a function compiles exactly if the sizes fit,
the inputs are symbols and the outputs contain no others (`TermFunction.compile_iff`).
Nothing asks the inputs to be different symbols: the table of numbers keeps the
last place of a symbol, and the arguments for the other places are not looked at.
-/

namespace DiffGraph

open Element Term

variable {α : Type} {n : Nat} {G : Set (Term α)}

namespace Compiler

variable {table uses : Std.HashMap Nat Nat} {c c' : Compiler α} {t : Term α} {e : FunctionError}

def Covered (table : Std.HashMap Nat Nat) (t : Term α) : Prop :=
  ∀ s ∈ t.subterms, s.isSymbol = true → s.id ∈ table

def StoresCovered (table : Std.HashMap Nat Nat) (G : Set (Term α)) (c : Compiler α) : Prop :=
  ∀ t ∈ G, t.id ∈ c.tempOf → Covered table t

theorem covered_of_operands (hs : t.isSymbol = false) (h : ∀ x ∈ t.operands, Covered table x) :
    Covered table t := by
  intro s hmem hsym
  rcases mem_subterms_iff.1 hmem with rfl | ⟨x, hx, hmem⟩
  · rw [hs] at hsym
    cases hsym
  · exact h x hx s hmem hsym

theorem StoresCovered.keep (hG : IsTermGraph n G) (ht : t ∈ G) (h : StoresCovered table G c)
    (hcovered : Covered table t) (uses : Std.HashMap Nat Nat) :
    StoresCovered table G (c.keep uses t.id) := by
  unfold Compiler.keep
  split
  · intro u hu hmem
    rcases Std.HashMap.mem_insert.1 hmem with hid | hmem
    · exact hG.unique t ht u hu (by simpa using hid) ▸ hcovered
    · exact h u hu hmem
  · exact h

theorem covered_of_compile (hG : IsTermGraph n G) (ht : t ∈ G) (hc : StoresCovered table G c)
    (h : compile table uses t c = .ok c') : Covered table t ∧ StoresCovered table G c' := by
  have stored {t : Term α} {c c' : Compiler α} {i : Nat} (ht : t ∈ G) (hc : StoresCovered table G c)
      (hi : c.tempOf[t.id]? = some i) (h : compile table uses t c = .ok c') :
      Covered table t ∧ StoresCovered table G c' := by
    rw [compile_of_stored hi] at h
    obtain rfl := Except.ok.inj h
    exact ⟨hc t ht (Std.HashMap.mem_iff_isSome_getElem?.2 (by rw [hi]; rfl)), hc⟩
  induction t generalizing c c' with
  | constant id a =>
    cases hi : c.tempOf[(constant id a).id]? with
    | some i => exact stored ht hc hi h
    | none =>
      unfold compile at h
      rw [hi] at h
      obtain rfl := Except.ok.inj h
      exact ⟨covered_of_operands rfl (by simp [operands]), hc⟩
  | symbol id name =>
    cases hi : c.tempOf[(symbol id name : Term α).id]? with
    | some i => exact stored ht hc hi h
    | none =>
      unfold compile at h
      rw [hi] at h
      dsimp only at h
      split at h
      · rename_i i hvar
        obtain rfl := Except.ok.inj h
        refine ⟨fun s hs _ => ?_, hc⟩
        obtain rfl : s = symbol id name := by simpa [subterms] using hs
        exact Std.HashMap.mem_iff_isSome_getElem?.2 (by rw [Term.id, hvar]; rfl)
      · cases h
  | unary id op x ih =>
    cases hi : c.tempOf[(unary id op x).id]? with
    | some i => exact stored ht hc hi h
    | none =>
      unfold compile at h
      rw [hi] at h
      obtain ⟨c₁, hx, h⟩ := exists_of_bind_eq_ok h
      obtain rfl := Except.ok.inj h
      obtain ⟨hcovered, hstores⟩ := ih (hG.closed _ ht x (by simp [operands])) hc hx
      have hterm : Covered table (unary id op x) :=
        covered_of_operands rfl (by simpa [operands] using hcovered)
      have hemit : StoresCovered table G (c₁.emit (.unary op)) := hstores
      exact ⟨hterm, hemit.keep hG ht hterm uses⟩
  | binary id op x y ihx ihy =>
    cases hi : c.tempOf[(binary id op x y).id]? with
    | some i => exact stored ht hc hi h
    | none =>
      unfold compile at h
      rw [hi] at h
      obtain ⟨c₁, hx, h⟩ := exists_of_bind_eq_ok h
      obtain ⟨c₂, hy, h⟩ := exists_of_bind_eq_ok h
      obtain rfl := Except.ok.inj h
      obtain ⟨hcovered, hstores⟩ := ihx (hG.closed _ ht x (by simp [operands])) hc hx
      obtain ⟨hcovered', hstores'⟩ := ihy (hG.closed _ ht y (by simp [operands])) hstores hy
      have hterm : Covered table (binary id op x y) :=
        covered_of_operands rfl (by simpa [operands] using ⟨hcovered, hcovered'⟩)
      have hemit : StoresCovered table G (c₂.emit (.binary op)) := hstores'
      exact ⟨hterm, hemit.keep hG ht hterm uses⟩

theorem error_of_compile (h : compile table uses t c = .error e) :
    ∃ name, e = .unknownSymbol name := by
  induction t generalizing c with
  | constant id a =>
    unfold compile at h
    split at h <;> cases h
  | symbol id name =>
    unfold compile at h
    split at h
    · cases h
    · dsimp only at h
      split at h
      · cases h
      · exact ⟨name, (Except.error.inj h).symm⟩
  | unary id op x ih =>
    unfold compile at h
    split at h
    · cases h
    · cases hx : compile table uses x c with
      | error e' =>
        simp only [hx, bind, Except.bind] at h
        exact ih (hx.trans h)
      | ok c₁ =>
        simp only [hx] at h
        cases h
  | binary id op x y ihx ihy =>
    unfold compile at h
    split at h
    · cases h
    · cases hx : compile table uses x c with
      | error e' =>
        simp only [hx, bind, Except.bind] at h
        exact ihx (hx.trans h)
      | ok c₁ =>
        cases hy : compile table uses y c₁ with
        | error e' =>
          simp only [hx, hy, bind, Except.bind] at h
          exact ihy (hy.trans h)
        | ok c₂ =>
          simp only [hx, hy, bind, Except.bind] at h
          cases h

theorem compileOutputs_cons (o : Term α) (os : List (Term α)) (k : Nat) (c : Compiler α) :
    compileOutputs table uses (o :: os) k c = (do
      compileOutputs table uses os (k + 1) ((← compile table uses o c).emit (.write k))) := by
  unfold compileOutputs
  rw [List.zipIdx_cons, List.foldlM_cons]
  exact bind_assoc _ _ _

theorem covered_of_compileOutputs (hG : IsTermGraph n G) {os : List (Term α)}
    (hos : ∀ o ∈ os, o ∈ G) {k : Nat} (hc : StoresCovered table G c)
    (h : compileOutputs table uses os k c = .ok c') : ∀ o ∈ os, Covered table o := by
  induction os generalizing k c with
  | nil => exact nofun
  | cons o os ih =>
    obtain ⟨ho, hos⟩ := List.forall_mem_cons.1 hos
    rw [compileOutputs_cons] at h
    obtain ⟨c₁, hfirst, hrest⟩ := exists_of_bind_eq_ok h
    obtain ⟨hcovered, hstores⟩ := covered_of_compile hG ho hc hfirst
    have hemit : StoresCovered table G (c₁.emit (.write k)) := hstores
    exact List.forall_mem_cons.2 ⟨hcovered, ih hos hemit hrest⟩

theorem error_of_compileOutputs {os : List (Term α)} {k : Nat}
    (h : compileOutputs table uses os k c = .error e) : ∃ name, e = .unknownSymbol name := by
  induction os generalizing k c with
  | nil => cases h
  | cons o os ih =>
    rw [compileOutputs_cons] at h
    cases ho : compile table uses o c with
    | error e' =>
      rw [ho] at h
      exact error_of_compile (ho.trans h)
    | ok c₁ =>
      rw [ho] at h
      exact ih h

end Compiler

namespace TermFunction

variable {name : String} {inputs outputs : List (List (Term α))}
  {inputPatterns outputPatterns : List Pattern} {g : TermFunction α} {e : FunctionError}

/-- What the terms of a function have to be: of the sizes of the patterns, the inputs symbols, and
the outputs terms over these. -/
structure Acceptable (inputs : List (List (Term α))) (inputPatterns : List Pattern)
    (outputs : List (List (Term α))) (outputPatterns : List Pattern) : Prop where
  inputLengths : inputs.map List.length = inputPatterns.map Pattern.nnz
  outputLengths : outputs.map List.length = outputPatterns.map Pattern.nnz
  symbols : ∀ x ∈ inputs.flatten, x.isSymbol = true
  covered : ∀ o ∈ outputs.flatten, ∀ s ∈ o.subterms, s.isSymbol = true → s ∈ inputs.flatten

theorem isSymbol_of_compile
    (h : compile name inputs inputPatterns outputs outputPatterns = .ok g) :
    ∀ x ∈ inputs.flatten, x.isSymbol = true := by
  obtain ⟨hcounts, hin, -, -⟩ := spec_of_compile h
  rw [not_or, not_not, not_not] at hcounts
  intro x hx
  obtain ⟨xs, hxs, hx⟩ := List.mem_flatten.1 hx
  obtain ⟨i, hi⟩ := List.mem_iff_getElem?.1 hxs
  obtain ⟨p, hp⟩ : ∃ p, inputPatterns[i]? = some p :=
    ⟨_, List.getElem?_eq_getElem (hcounts.1 ▸ (List.getElem?_eq_some_iff.1 hi).1)⟩
  have hnone := List.findSome?_eq_none_iff.1 hin ((xs, p), i)
    (List.mem_zipIdx_iff_getElem?.2 (List.getElem?_zip_eq_some.2 ⟨hi, hp⟩))
  by_contra hsym
  have hall : xs.all Term.isSymbol = false :=
    List.all_eq_false.2 ⟨x, hx, hsym⟩
  by_cases hlen : xs.length = p.nnz <;> simp [hlen, hall] at hnone

theorem mem_of_mem_varTable (hG : IsTermGraph n G) {inputs : List (Term α)}
    (hin : ∀ x ∈ inputs, x ∈ G) {s : Term α} (hs : s ∈ G)
    (h : s.id ∈ Compiler.varTable inputs) : s ∈ inputs := by
  obtain ⟨i, hi⟩ := Option.isSome_iff_exists.1 (Std.HashMap.mem_iff_isSome_getElem?.1 h)
  obtain ⟨x, hx, hid⟩ := List.mem_map.1
    (List.mem_of_getElem? (Compiler.getElem?_varTable.1 hi).1)
  exact hG.unique x (hin x hx) s hs hid ▸ hx

theorem acceptable_of_compile (hG : IsTermGraph n G) (hin : ∀ x ∈ inputs.flatten, x ∈ G)
    (hos : ∀ o ∈ outputs.flatten, o ∈ G)
    (h : compile name inputs inputPatterns outputs outputPatterns = .ok g) :
    Acceptable inputs inputPatterns outputs outputPatterns := by
  obtain ⟨-, -, -, p, hp, -⟩ := spec_of_compile h
  rw [assemble_eq] at hp
  obtain ⟨c, hc, -⟩ := exists_of_bind_eq_ok hp
  have hstart : Compiler.StoresCovered (Compiler.varTable inputs.flatten) G ⟨#[], ∅, 0⟩ :=
    fun t _ hmem => by simp at hmem
  refine ⟨(lengths_of_compile h).1, (lengths_of_compile h).2, isSymbol_of_compile h, ?_⟩
  intro o ho s hs hsym
  refine mem_of_mem_varTable hG hin (subterms_subset hG.closed (hos o ho) hs) ?_
  exact Compiler.covered_of_compileOutputs hG hos hstart hc o ho s hs hsym

theorem Acceptable.exists_compile (hG : IsTermGraph n G) (hin : ∀ x ∈ inputs.flatten, x ∈ G)
    (hos : ∀ o ∈ outputs.flatten, o ∈ G)
    (h : Acceptable inputs inputPatterns outputs outputPatterns) (name : String) :
    ∃ g, compile name inputs inputPatterns outputs outputPatterns = .ok g := by
  have hreached := isTermGraph_reached hG (fun x hx => ⟨hin x hx, h.symbols x hx⟩) hos
  refine TermFunction.exists_compile hreached.closed h.inputLengths h.symbols h.outputLengths
    (fun o ho => .inr ⟨o, ho, mem_subterms_self o⟩) ?_ name
  rintro t (ht | ⟨o, ho, hs⟩) hsym
  · exact ht
  · exact h.covered o ho t hs hsym

/-- A refusal is an ordinary error. -/
theorem ne_misuse_of_compile
    (h : compile name inputs inputPatterns outputs outputPatterns = .error e) : e ≠ .misuse := by
  by_cases hcounts : inputs.length ≠ inputPatterns.length ∨ outputs.length ≠ outputPatterns.length
  · unfold compile at h
    rw [if_pos hcounts] at h
    cases h
    exact nofun
  cases hin : inputError? inputs inputPatterns with
  | some e' =>
    unfold compile at h
    rw [if_neg hcounts, hin] at h
    obtain rfl := Except.error.inj h
    obtain ⟨⟨⟨x, p⟩, i⟩, -, hbad⟩ := List.exists_of_findSome?_eq_some hin
    dsimp only at hbad
    split_ifs at hbad <;> cases hbad <;> exact nofun
  | none =>
    cases hout : outputError? name outputs outputPatterns with
    | some e' =>
      unfold compile at h
      rw [if_neg hcounts, hin, hout] at h
      obtain rfl := Except.error.inj h
      obtain ⟨⟨⟨o, p⟩, j⟩, -, hbad⟩ := List.exists_of_findSome?_eq_some hout
      dsimp only at hbad
      split_ifs at hbad
      cases hbad
      exact nofun
    | none =>
      rw [compile_eq hcounts hin hout, assemble_eq] at h
      cases hc : Compiler.compileOutputs (Compiler.varTable inputs.flatten)
          (outputs.flatten.foldl Term.countUses ∅) outputs.flatten 0 ⟨#[], ∅, 0⟩ with
      | error e' =>
        rw [hc] at h
        obtain rfl := Except.error.inj h
        obtain ⟨symbol, rfl⟩ := Compiler.error_of_compileOutputs hc
        exact nofun
      | ok c =>
        rw [hc] at h
        cases h

/-- Only the last place of an input symbol is looked at. -/
theorem assign_congr {T : Type} [Element Id α T] [Zero α] {inputs : List (Term α)} {vs vs' : List T}
    (hlen : vs.length = inputs.length) (hlen' : vs'.length = inputs.length)
    (h : ∀ i id, IsLast (inputs.map Term.id) i id → vs[i]? = vs'[i]?) {s : Term α}
    (hs : s ∈ inputs) : assign inputs vs s.id = assign inputs vs' s.id := by
  obtain ⟨i, hi⟩ := exists_isLast (List.mem_map_of_mem (f := Term.id) hs)
  have hvalue := (assign_of_isLast hlen hi).symm.trans
    ((h i s.id hi).trans (assign_of_isLast hlen' hi))
  exact Option.some.inj hvalue

/-- Compiling succeeds exactly on acceptable terms and else ends in an ordinary error. That the
inputs are different symbols is not asked: where one of them is repeated, the arguments before its
last place have no influence. -/
theorem compile_iff [Scalar α] (hG : IsTermGraph n G) (hin : ∀ x ∈ inputs.flatten, x ∈ G)
    (hos : ∀ o ∈ outputs.flatten, o ∈ G) (name : String) :
    ((∃ g, compile name inputs inputPatterns outputs outputPatterns = .ok g) ↔
      Acceptable inputs inputPatterns outputs outputPatterns) ∧
    (∀ e, compile name inputs inputPatterns outputs outputPatterns = .error e → e ≠ .misuse) ∧
    ∀ g, compile name inputs inputPatterns outputs outputPatterns = .ok g →
      ∀ args args' : List (List α), args.map List.length = inputs.map List.length →
        args'.map List.length = inputs.map List.length →
        (∀ i id, IsLast (inputs.flatten.map Term.id) i id → args.flatten[i]? = args'.flatten[i]?) →
        g.evaluate args = g.evaluate args' := by
  refine ⟨⟨fun ⟨g, hg⟩ => acceptable_of_compile hG hin hos hg,
    fun h => h.exists_compile hG hin hos name⟩,
    fun e he => ne_misuse_of_compile he, fun g hg args args' hargs hargs' hlast => ?_⟩
  have haccept := acceptable_of_compile hG hin hos hg
  obtain ⟨-, -, -, p, -, rfl⟩ := spec_of_compile hg
  have hcompiled : Compiled G
      (⟨name, inputs, outputs, inputPatterns, outputPatterns, p⟩ : TermFunction α) := ⟨hin, hos, hg⟩
  have hlen {args : List (List α)} (h : args.map List.length = inputs.map List.length) :
      args.flatten.length = inputs.flatten.length := by
    rw [List.length_flatten, List.length_flatten, h]
  refine (run_eq hG hcompiled hargs).trans (Eq.trans ?_ (run_eq hG hcompiled hargs').symm)
  split_ifs
  · refine congrArg pure (List.map_congr_left fun os hos' => List.map_congr_left fun o ho => ?_)
    refine eval_congr fun s hs hsym => assign_congr (hlen hargs) (hlen hargs') hlast ?_
    exact haccept.covered o (List.mem_flatten_of_mem hos' ho) s hs hsym
  · rfl

/-- An input that stands at two places, where the second counts, and a symbol that is no input. -/
theorem compile_iff_repeated :
    let x : Term Rat := .symbol 0 "x"
    let y : Term Rat := .symbol 1 "y"
    (∃ g, compile "f" [[x, x]] [.column 2] [[x]] [.scalar] = .ok g ∧
        g.evaluate [[3, 5]] = g.evaluate [[4, 5]]) ∧
      ¬ ∃ g, compile "f" [[x, x]] [.column 2] [[y]] [.scalar] = .ok g := by
  intro x y
  have hG : IsTermGraph 2 (insert y (insert x ∅)) := by
    refine .insert (.insert (.empty 0) rfl ?_) rfl ?_ <;> simp [Term.operands, x, y]
  obtain ⟨hiff, -, hlast⟩ :=
    @compile_iff Rat 2 _ [[x, x]] [[x]] [.column 2] [.scalar] _ hG (by simp) (by simp) "f"
  obtain ⟨hiff', -, -⟩ :=
    @compile_iff Rat 2 _ [[x, x]] [[y]] [.column 2] [.scalar] _ hG (by simp) (by simp) "f"
  obtain ⟨g, hg⟩ := hiff.2 ⟨rfl, rfl, by simp [x, isSymbol], by simp [x, subterms]⟩
  refine ⟨⟨g, hg, hlast g hg _ _ rfl rfl fun i id hi => ?_⟩, fun h => ?_⟩
  · have hid : ([0, 0] : List Nat)[i]? = some id := hi.1
    have hmax : ([0, 0] : List Nat)[1]? = some id → 1 ≤ i := hi.2 1
    rcases i with _ | _ | i
    · exact absurd (hmax hid) (by decide)
    · rfl
    · simp at hid
  · have hmem := (hiff'.1 h).covered y (by simp) y (mem_subterms_self y) rfl
    simp [x, y] at hmem

end TermFunction

end DiffGraph
