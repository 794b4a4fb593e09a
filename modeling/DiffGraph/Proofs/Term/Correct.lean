import Mathlib
import DiffGraph.Proofs.Term.Execute

/-!
# Compilation of scalar expressions

Terms over symbols compile to a program that is as short as their sharing allows,
runs on every kind of elements without an error, and writes the values of the
terms; on dependency marks it joins those of the symbols in a term
(`TermFunction.compile_faithful`).
-/

namespace DiffGraph

open Element Term

namespace Term

variable {α T : Type} {t : Term α}

/-- A value depends on the symbols in the term only. -/
theorem eval_congr [Element Id α T] {env env' : Nat → T}
    (h : ∀ s ∈ t.subterms, s.isSymbol = true → env s.id = env' s.id) : t.eval env = t.eval env' := by
  induction t with
  | constant id x => rfl
  | symbol id name => exact h _ (mem_subterms_self _) rfl
  | unary id op x ih =>
    rw [eval, eval, ih fun s hs => h s (mem_subterms_iff.2 (.inr ⟨x, by simp [operands], hs⟩))]
  | binary id op x y ihx ihy =>
    rw [eval, eval, ihx fun s hs => h s (mem_subterms_iff.2 (.inr ⟨x, by simp [operands], hs⟩)),
      ihy fun s hs => h s (mem_subterms_iff.2 (.inr ⟨y, by simp [operands], hs⟩))]

/-- On marks a term joins those of its symbols. -/
theorem testBit_eval {b : Nat} {env : Nat → Taint} :
    (UInt64.toNat (t.eval (T := Marked α Taint) env)).testBit b = true ↔
      ∃ s ∈ t.subterms, s.isSymbol = true ∧ (env s.id).toNat.testBit b = true := by
  induction t with
  | constant id x =>
    have heval : UInt64.toNat ((constant id x).eval (T := Marked α Taint) env) = 0 := rfl
    simp [heval, subterms, isSymbol]
  | symbol id name => simp [eval, subterms, isSymbol, Term.id]
  | unary id op x ih =>
    have heval : (unary id op x).eval (T := Marked α Taint) env =
        x.eval (T := Marked α Taint) env := rfl
    rw [heval, ih]
    simp [subterms, isSymbol]
  | binary id op x y ihx ihy =>
    have heval : UInt64.toNat ((binary id op x y).eval (T := Marked α Taint) env) =
        UInt64.toNat (x.eval (T := Marked α Taint) env) |||
          UInt64.toNat (y.eval (T := Marked α Taint) env) := UInt64.toNat_or _ _
    rw [heval, Nat.testBit_or, Bool.or_eq_true, ihx, ihy]
    simp [subterms, isSymbol, or_and_right, exists_or]

def joinOccurring (inputs : List (Term α)) (marks : List Taint) (t : Term α) : Taint :=
  (((inputs.zip marks).filter fun p => p.1.Among t.subterms).map Prod.snd).foldl (· ||| ·) 0

/-- A term whose symbols are inputs joins the marks of those that occur in it. -/
theorem eval_eq_joinOccurring {n : Nat} {G : Set (Term α)} (hG : IsTermGraph n G)
    {inputs : List (Term α)} (hinputs : ∀ x ∈ inputs, x ∈ G ∧ x.isSymbol = true)
    (ht : t ∈ G) (hsymbols : ∀ s ∈ t.subterms, s.isSymbol = true → s ∈ inputs)
    {env : Nat → Taint} {marks : List Taint} (hmarks : marks = inputs.map fun x => env x.id) :
    t.eval (T := Marked α Taint) env = joinOccurring inputs marks t := by
  refine taint_ext fun b => ?_
  have hzip : inputs.zip marks = inputs.map fun x => (x, env x.id) := by
    rw [hmarks, List.zip_map_right]
    simp [List.zip, List.zipWith_self]
  rw [testBit_eval, joinOccurring, testBit_foldl_or, hzip]
  simp only [UInt64.toNat_zero, Nat.zero_testBit, Bool.false_eq_true, false_or, List.mem_map,
    List.mem_filter, decide_eq_true_eq]
  constructor
  · rintro ⟨s, hs, hsymbol, hbit⟩
    exact ⟨env s.id, ⟨(s, env s.id), ⟨⟨s, hsymbols s hs hsymbol, rfl⟩, List.mem_map_of_mem hs⟩, rfl⟩,
      hbit⟩
  · rintro ⟨_, ⟨_, ⟨⟨x, hx, rfl⟩, hamong⟩, rfl⟩, hbit⟩
    refine ⟨x, hamong.mem hG (hinputs x hx).1 (fun s hs => subterms_subset hG.closed ht hs),
      (hinputs x hx).2, hbit⟩

end Term

namespace TermFunction

variable {α : Type}

/-- What compilation promises of a function: its program is as short as the sharing of its outputs
allows, runs on every kind of elements, and computes the values of the outputs. -/
structure Faithful [Scalar α] (g : TermFunction α) : Prop where
  stores : g.program.code.filterMap OpCode.stored? = List.range g.program.tempCount
  loads : ∀ k i : Nat, g.program.code[k]? = some (.loadTemp i) →
    .storeTemp i ∈ g.program.code.take k
  operations : g.program.code.countP OpCode.isArithmetic =
    (nodes g.outputs.flatten).countP isOperation
  temporaries : g.program.tempCount = (nodes g.outputs.flatten).countP fun t =>
    t.isOperation && 1 < useCount g.outputs.flatten t.id
  evaluates : ∀ {m : Type → Type} [Monad m] [LawfulMonad m] {T V : Type} [Element m α T]
    [Element Id α V] {view : T → V}, Interprets m view → ∀ {args : List (List T)} {env : Nat → V},
    args.map (List.map view) = g.inputs.map (List.map fun x => env x.id) → g.FitsMemory →
    SatisfiesM (fun r => ∃ outs, r = .ok outs ∧
      outs.map (List.map view) = g.outputs.map (List.map (Term.eval env)))
      (g.run args : ExceptT FunctionError m (List (List T))).run
  unwinds : ∀ {m : Type → Type} [Monad m] [LawfulMonad m] {T V : Type} [Element m α T]
    [Element Id α V] {view : T → V}, Interprets m view → ∀ {args : List (List T)},
    args.map List.length = g.inputs.map List.length → g.FitsMemory → ∀ k : Nat,
    SatisfiesM (fun r => ∃ s : Machine T, r = .ok s ∧
      ∀ j i : Nat, k = j + 1 → g.program.code[j]? = some (.write i) → s.stack = [])
      ((g.program.take k).run args.flatten g.outputs.flatten.length :
        ExceptT FunctionError m (Machine T)).run
  marks : ∀ {seeds : List (List Taint)}, seeds.map List.length = g.inputs.map List.length →
    g.FitsMemory → g.taintForward seeds =
      .ok (g.outputs.map (List.map (joinOccurring g.inputs.flatten seeds.flatten)))

/-- The graph of the inputs and of what the outputs are built from. -/
def reached (inputs outputs : List (Term α)) : Set (Term α) :=
  {s | s ∈ inputs ∨ ∃ o ∈ outputs, s ∈ o.subterms}

theorem isTermGraph_reached {n : Nat} {G : Set (Term α)} (hG : IsTermGraph n G)
    {inputs outputs : List (Term α)} (hinputs : ∀ x ∈ inputs, x ∈ G ∧ x.isSymbol = true)
    (houtputs : ∀ o ∈ outputs, o ∈ G) : IsTermGraph n (reached inputs outputs) := by
  have hsub (s : Term α) (hs : s ∈ reached inputs outputs) : s ∈ G := by
    rcases hs with hs | ⟨o, ho, hs⟩
    · exact (hinputs s hs).1
    · exact subterms_subset hG.closed (houtputs o ho) hs
  refine ⟨fun t ht x hx => ?_, fun s hs t ht => hG.unique s (hsub s hs) t (hsub t ht),
    fun t ht => hG.below t (hsub t ht)⟩
  rcases ht with ht | ⟨o, ho, ht⟩
  · have hops : t.operands = [] := by
      have hsymbol := (hinputs t ht).2
      cases t <;> first | rfl | cases hsymbol
    rw [hops] at hx
    cases hx
  · exact .inr ⟨o, ho, mem_subterms_of_operand ht hx⟩

/-- The assignment of the values of the inputs agrees with every other one. -/
theorem assign_eq {T : Type} [Element Id α T] [Zero α] {inputs : List (Term α)} {x : Term α}
    (hx : x ∈ inputs) (env : Nat → T) :
    assign inputs (inputs.map fun x => env x.id) x.id = env x.id := by
  obtain ⟨i, hi⟩ := exists_isLast (List.mem_map_of_mem (f := Term.id) hx)
  have hlen : (inputs.map fun x => env x.id).length = inputs.length := List.length_map _
  have hvalue := assign_of_isLast hlen hi
  have hid : (inputs.map Term.id)[i]? = some x.id := hi.1
  rw [List.getElem?_map] at hvalue hid
  obtain ⟨y, hy, hyx⟩ := Option.map_eq_some_iff.1 hid
  rw [hy, ← hyx] at hvalue
  rw [← hyx]
  exact (Option.some.inj hvalue).symm

theorem map_assign {T : Type} [Element Id α T] [Zero α] {inputs : List (Term α)}
    (hdistinct : (inputs.map Term.id).Nodup) {vs : List T} (hlen : vs.length = inputs.length) :
    vs = inputs.map fun x => assign inputs vs x.id := by
  refine List.ext_getElem (by simpa using hlen) fun i hi hi' => ?_
  rw [List.length_map] at hi'
  have hid : (inputs.map Term.id)[i]? = some inputs[i].id := by simp [hi']
  have hvalue := assign_of_isLast hlen (isLast_of_nodup hdistinct hid)
  rw [List.getElem?_eq_getElem hi] at hvalue
  simpa using Option.some.inj hvalue

/-- A run gives the values of the outputs for every assignment of the inputs. -/
theorem run_of_assignment {n : Nat} {G : Set (Term α)} {T : Type} [Element Id α T] [Scalar α]
    (hG : IsTermGraph n G) {g : TermFunction α} (h : g.Compiled G) (hmemory : g.FitsMemory)
    (hsymbols : ∀ o ∈ g.outputs.flatten, ∀ s ∈ o.subterms, s.isSymbol = true →
      s ∈ g.inputs.flatten) {args : List (List T)} {env : Nat → T}
    (hargs : args = g.inputs.map (List.map fun x => env x.id)) :
    (g.run args : ExceptT FunctionError Id _) =
      pure (g.outputs.map (List.map (Term.eval env))) := by
  have hlengths : args.map List.length = g.inputs.map List.length := by
    rw [hargs, List.map_map]
    exact List.map_congr_left fun x _ => by simp
  refine ((run_eq hG h hlengths).trans (if_pos hmemory)).trans (congrArg pure ?_)
  have hflat : args.flatten = g.inputs.flatten.map fun x => env x.id := by
    rw [hargs, List.map_flatten]
  refine List.map_congr_left fun os hos => List.map_congr_left fun o ho => ?_
  refine eval_congr fun x hx hsymbol => ?_
  rw [hflat]
  exact assign_eq (hsymbols o (List.mem_flatten_of_mem hos ho) x hx hsymbol) env

section Effects

variable {m : Type → Type} [Monad m] [LawfulMonad m] {T V : Type} [Element m α T] [Element Id α V]
  [Scalar α] {view : T → V} {g : TermFunction α} {args : List (List T)} {s : Machine V}

theorem resembles_run (hview : Interprets m view) (g : TermFunction α) (args : List (List T)) :
    Resembles (fun outs outs' => outs.map (List.map view) = outs')
      (g.run args : ExceptT FunctionError m (List (List T))) (g.run (args.map (List.map view))) := by
  have hlengths : (args.map (List.map view)).map List.length = args.map List.length := by
    simp [List.map_map, Function.comp_def]
  unfold run
  rw [hlengths]
  cases g.checkLengths (args.map List.length) with
  | error e => exact .throw _
  | ok u =>
    rw [← List.map_flatten]
    refine .bind (Program.resembles_run hview g.program args.flatten _) fun s s' hs => .pure ?_
    subst hs
    simp [cutOutputs, Machine.view, chunks_map]

/-- After the first instructions the stack is as high as they say, and empty after one that writes an
output. -/
theorem satisfies_run_take (hview : Interprets m view) (hsequenced : Program.IsSequenced g.program.code)
    (hrun : (g.program.run (args.flatten.map view) g.outputs.flatten.length :
      ExceptT FunctionError Id _) = pure s) (k : Nat) :
    SatisfiesM (fun r => ∃ s : Machine T, r = .ok s ∧
      ∀ j i : Nat, k = j + 1 → g.program.code[j]? = some (.write i) → s.stack = [])
      ((g.program.take k).run args.flatten g.outputs.flatten.length :
        ExceptT FunctionError m (Machine T)).run := by
  obtain ⟨s', hs', hheight⟩ := Program.exists_run_take hrun k
  refine ((Program.resembles_run hview _ _ _).exists_of_pure hs').imp ?_
  rintro r ⟨s, rfl, rfl⟩
  refine ⟨s, rfl, ?_⟩
  rintro j i rfl hwrite
  have hone : Program.height (g.program.code.take j) = 1 := hsequenced j _ hwrite
  rw [List.take_add_one, hwrite, Option.toList_some, Program.height_concat, hone] at hheight
  have hlength : (s.view view).stack.length = 0 := by
    simp only [OpCode.effect] at hheight
    omega
  simpa [Machine.view] using hlength

end Effects

/-- Terms over symbols compile, whatever their sharing, and the compiled function is faithful. -/
theorem compile_faithful {n : Nat} {G : Set (Term α)} [Scalar α] (hG : IsTermGraph n G)
    {inputs outputs : List (List (Term α))} {inputPatterns outputPatterns : List Pattern}
    (hinputs : ∀ x ∈ inputs.flatten, x ∈ G ∧ x.isSymbol = true)
    (hdistinct : (inputs.flatten.map Term.id).Nodup) (houtputs : ∀ o ∈ outputs.flatten, o ∈ G)
    (hsymbols : ∀ o ∈ outputs.flatten, ∀ s ∈ o.subterms, s.isSymbol = true → s ∈ inputs.flatten)
    (hin : inputs.map List.length = inputPatterns.map Pattern.nnz)
    (hout : outputs.map List.length = outputPatterns.map Pattern.nnz) (name : String) :
    ∃ g, compile name inputs inputPatterns outputs outputPatterns = .ok g ∧
      g.inputs = inputs ∧ g.outputs = outputs ∧ g.Faithful := by
  have hreached := isTermGraph_reached hG hinputs houtputs
  have hos (o : Term α) (ho : o ∈ outputs.flatten) : o ∈ reached inputs.flatten outputs.flatten :=
    .inr ⟨o, ho, mem_subterms_self o⟩
  have hsyms (t : Term α) (ht : t ∈ reached inputs.flatten outputs.flatten)
      (hsymbol : t.isSymbol = true) : t ∈ inputs.flatten := by
    rcases ht with ht | ⟨o, ho, hs⟩
    · exact ht
    · exact hsymbols o ho t hs hsymbol
  obtain ⟨g, hg⟩ := exists_compile hreached.closed hin (fun x hx => (hinputs x hx).2) hout hos
    hsyms name
  obtain ⟨-, -, -, p, hp, hprogram⟩ := spec_of_compile hg
  have hgin : g.inputs = inputs := by rw [hprogram]
  have hgout : g.outputs = outputs := by rw [hprogram]
  have hcompiled : g.Compiled (reached inputs.flatten outputs.flatten) :=
    ⟨hgin ▸ fun x hx => .inl hx, hgout ▸ hos, by rw [hprogram] at hg ⊢; exact hg⟩
  have heconomical : g.program.Economical g.outputs.flatten := by
    rw [hprogram]
    exact economical_assemble hreached hos hp
  refine ⟨g, hg, hgin, hgout, ?_⟩
  subst hgin hgout
  exact {
    stores := heconomical.stores
    loads := fun k i hk => heconomical.sequenced k _ hk
    operations := heconomical.operations
    temporaries := heconomical.temporaries
    evaluates := fun {m _ _ T V _ _ view} hview {args env} hargs hmemory => by
      exact (resembles_run hview g args).exists_of_pure
        (run_of_assignment hreached hcompiled hmemory hsymbols hargs)
    unwinds := fun {m _ _ T V _ _ view} hview {args} hlengths hmemory k => by
      have hviewed : (args.map (List.map view)).map List.length = g.inputs.map List.length := by
        simpa [List.map_map, Function.comp_def] using hlengths
      obtain ⟨s, hrun, -⟩ := hcompiled.exists_run hreached hviewed hmemory
      exact satisfies_run_take hview heconomical.sequenced (by rwa [List.map_flatten]) k
    marks := fun {seeds} hlengths hmemory => by
      have hlen : seeds.flatten.length = g.inputs.flatten.length := by
        rw [List.length_flatten, List.length_flatten, hlengths]
      rw [taintForward_eq hreached hcompiled hlengths, if_pos hmemory]
      refine congrArg Except.ok (List.map_congr_left fun os hos' => List.map_congr_left fun o ho => ?_)
      have ho' : o ∈ g.outputs.flatten := List.mem_flatten_of_mem hos' ho
      exact eval_eq_joinOccurring hG hinputs (houtputs o ho') (hsymbols o ho')
        (map_assign (T := Marked α Taint) hdistinct hlen) }

/-- The square of `-x`, and `y` added to it: the negation and the square are used twice. On symbols
the function gives these terms again, with them in the place of `x` and `y`. -/
theorem compile_faithful_square :
    let x : Term Rat := .symbol 0 "x"
    let y : Term Rat := .symbol 1 "y"
    let p : Term Rat := .binary 3 .mul (.unary 2 .neg x) (.unary 2 .neg x)
    let a : Term Rat := .symbol 10 "a"
    let b : Term Rat := .symbol 11 "b"
    let q : Term Rat := .binary 0 .mul (.unary 0 .neg a) (.unary 0 .neg a)
    ∃ g, compile "f" [[x, y]] [.column 2] [[p, .binary 4 .add p y]] [.column 2] = .ok g ∧
      g.program.code.countP OpCode.isArithmetic = 3 ∧ g.program.tempCount = 2 ∧
      g.evaluate [[3, 5]] = .ok [[9, 14]] ∧ g.taintForward [[1, 2]] = .ok [[1, 3]] ∧
      ∃ outs n, (g.run [[a, b]] : ExceptT FunctionError Fresh (List (List (Term Rat)))).run 12 =
        (.ok outs, n) ∧ outs.map (List.map Term.shape) = [[q, .binary 0 .add q b]] := by
  intro x y p a b q
  have hG : IsTermGraph 5 (insert (.binary 4 .add p y) (insert p (insert (.unary 2 .neg x)
      (insert y (insert x ∅))))) := by
    refine .insert (.insert (.insert (.insert (.insert (.empty 0) rfl ?_) rfl ?_) rfl ?_) rfl ?_)
      rfl ?_ <;> simp [Term.operands, p, x, y]
  obtain ⟨g, hg, hin, hout, hfaithful⟩ : ∃ g,
      compile "f" [[x, y]] [.column 2] [[p, .binary 4 .add p y]] [.column 2] = .ok g ∧
        g.inputs = [[x, y]] ∧ g.outputs = [[p, .binary 4 .add p y]] ∧ g.Faithful :=
    compile_faithful hG (by simp [x, y, isSymbol]) (by decide) (by simp)
      (by simp [subterms, p, x, y, isSymbol]) rfl rfl "f"
  have hcount : g.program.tempCount = 2 := by
    rw [hfaithful.temporaries, hout]
    decide
  have hfits : g.FitsMemory := by
    rw [FitsMemory, hcount, hout]
    decide
  refine ⟨g, hg, ?_, hcount, ?_, ?_, ?_⟩
  · rw [hfaithful.operations, hout]
    decide
  · let env : Nat → Rat := fun id => if id = 0 then 3 else 5
    have hargs : [[(3 : Rat), 5]].map (List.map fun v => v) =
        g.inputs.map (List.map fun x => env x.id) := by
      rw [hin]
      rfl
    obtain ⟨outs, houts, hvalues⟩ :=
      SatisfiesM_Id_eq.1 (hfaithful.evaluates interprets_id hargs hfits)
    rw [hout, List.map_id_fun', List.map_id] at hvalues
    refine (show g.evaluate [[3, 5]] = .ok outs from houts).trans (congrArg Except.ok ?_)
    rw [hvalues]
    show [[-3 * -3, -3 * -3 + 5]] = [[(9 : Rat), 14]]
    norm_num
  · refine (hfaithful.marks (by rw [hin]; rfl) hfits).trans (congrArg Except.ok ?_)
    rw [hin, hout]
    decide
  · let env : Nat → Shape Rat := fun id => ⟨if id = 0 then a else b⟩
    have hargs : [[a, b]].map (List.map fun t => Shape.mk t.shape) =
        g.inputs.map (List.map fun x => env x.id) := by
      rw [hin]
      rfl
    obtain ⟨outs, houts, hshapes⟩ := SatisfiesM_Id_eq.1
      (SatisfiesM_StateT_eq.1 (hfaithful.evaluates interprets_shape hargs hfits) 12)
    rw [hout] at hshapes
    have hterms := congrArg (List.map (List.map Shape.term)) hshapes
    simp only [List.map_map, Function.comp_def] at hterms
    exact ⟨outs, _, Prod.ext houts rfl, hterms⟩

end TermFunction

end DiffGraph
