import Mathlib
import DiffGraph.Proofs.Source.Memory
import DiffGraph.Source.Statement

/-!
# Running statements of generated C

`Statement.run` is what a statement does when its text is read as C. It fails
where C promises nothing: at an index outside of an array, at an element without
a value, at a name that is no function and at text that is no number. A loop that
assigns one element after the other fills that part of the array
(`run_loop`).
-/

namespace DiffGraph.Source

variable {α : Type}

/-! ## What the text means -/

/-- The number of the element; the counter has a value inside of loops only. -/
def Index.at : Index → Option Nat → Option Nat
  | fixed k, _ => some k
  | counter, i => i
  | shifted offset, i => i.map (offset + ·)

def Memory.cell (m : Memory α) (i : Option Nat) (c : Cell) : Option α := do
  m.read (.work c.array) (← c.index.at i)

theorem Memory.Contains.cell {m : Memory α} {c : Cell} {i : Option Nat} {k : Nat} {xs : List α}
    {x : α} (h : m.Contains (.work c.array) xs) (hindex : c.index.at i = some k)
    (hx : xs[k]? = some x) : m.cell i c = some x := by
  simp [Memory.cell, hindex, h.read hx]

variable [Scalar α]

/-- The functions of one number in the mathematical library. -/
def libraryFunction? : String → Option (α → α)
  | "sin" => some Scalar.sin
  | "cos" => some Scalar.cos
  | "exp" => some Scalar.exp
  | "log" => some Scalar.log
  | _ => none

/-- The operators between two numbers. -/
def operator? : String → Option (α → α → α)
  | "+" => some (· + ·)
  | "-" => some (· - ·)
  | "*" => some (· * ·)
  | "/" => some (· / ·)
  | _ => none

theorem libraryFunction?_name {op : UnaryOp} (h : op ≠ .neg) :
    libraryFunction? op.name = some (op.apply : α → α) := by
  cases op with
  | neg => exact absurd rfl h
  | _ => rfl

theorem operator?_sign (op : BinaryOp) : operator? op.sign = some (op.apply : α → α → α) := by
  cases op <;> rfl

section Runs

variable [Numeral α] (literal : String → Option α)

/-- The number that is assigned; `literal` gives the numbers that constants stand for. -/
def Value.eval (i : Option Nat) (m : Memory α) : Value α → Option α
  | .number x => literal (Numeral.marked x)
  | .zero => some 0
  | .cell c => m.cell i c
  | .unary .neg c => return -(← m.cell i c)
  | .unary op c => return (← libraryFunction? op.name) (← m.cell i c)
  | .binary op a b => return (← operator? op.sign) (← m.cell i a) (← m.cell i b)

def assigned (i : Option Nat) (target : Cell) (value : Value α) (m : Memory α) :
    Option (Memory α) := do
  m.write (.work target.array) (← target.index.at i) (← value.eval literal i m)

/-- What a statement does with the arrays and pointers of the caller. -/
def Statement.run (pointers : Pointers α) : Statement α → Memory α → Option (Memory α)
  | .assign target value, m => assigned literal none target value m
  | .loop n target value, m =>
    (List.range n).foldlM (fun m i => assigned literal (some i) target value m) m
  | .accumulate n target value, m =>
    (List.range n).foldlM (fun m i => do
      m.write (.work target.array) (← target.index.at (some i))
        ((← m.cell (some i) target) + (← value.eval literal (some i) m))) m
  | .load n array arg, m => do
    let source ← pointers.args[arg]?
    (List.range n).foldlM (fun m i => do
      m.write (.work array) i (← source.elim (some 0) (·[i]?))) m
  | .store n array res, m => do
    if (← pointers.results[res]?).isNone then return m
    (List.range n).foldlM (fun m i => do m.write (.result res) i (← m.read (.work array) i)) m

def runAll (pointers : Pointers α) (statements : List (Statement α)) (m : Memory α) :
    Option (Memory α) :=
  statements.foldlM (fun m s => s.run literal pointers m) m

end Runs

/-! ## What statements do -/

variable [Numeral α] {literal : String → Option α} {pointers : Pointers α} {m m₀ : Memory α}
  {p : Place} {r a : String} {n start : Nat}

theorem eval_unary (op : UnaryOp) {i : Option Nat} {c : Cell} {x : α} (h : m.cell i c = some x) :
    (Value.unary op c).eval literal i m = some (op.apply x) := by
  cases op <;> simp [Value.eval, h, UnaryOp.apply, libraryFunction?_name]

theorem eval_binary (op : BinaryOp) {i : Option Nat} {c d : Cell} {x y : α}
    (hx : m.cell i c = some x) (hy : m.cell i d = some y) :
    (Value.binary op c d).eval literal i m = some (op.apply x y) := by
  simp [Value.eval, hx, hy, operator?_sign]

/-! ### Bounds -/

/-- No statement changes the length of an array: the bounds are those of the declarations. -/
theorem length?_run {s : Statement α} {m' : Memory α} (h : s.run literal pointers m = some m') :
    m'.length? p = m.length? p := by
  have hassigned (i : Option Nat) (target : Cell) (value : Value α) (m m' : Memory α)
      (h : assigned literal i target value m = some m') : m'.length? p = m.length? p := by
    obtain ⟨k, -, h⟩ := Option.bind_eq_some_iff.1 h
    obtain ⟨x, -, hwrite⟩ := Option.bind_eq_some_iff.1 h
    exact Memory.length?_write hwrite
  cases s with
  | assign target value => exact hassigned _ _ _ _ _ h
  | loop n target value =>
    exact Memory.length?_foldlM (fun i m m' hstep => hassigned _ _ _ _ _ hstep) h
  | accumulate n target value =>
    refine Memory.length?_foldlM (fun i m m' hstep => ?_) h
    obtain ⟨k, -, hstep⟩ := Option.bind_eq_some_iff.1 hstep
    obtain ⟨x, -, hstep⟩ := Option.bind_eq_some_iff.1 hstep
    obtain ⟨y, -, hwrite⟩ := Option.bind_eq_some_iff.1 hstep
    exact Memory.length?_write hwrite
  | load n array arg =>
    obtain ⟨source, -, h⟩ := Option.bind_eq_some_iff.1 h
    refine Memory.length?_foldlM (fun i m m' hstep => ?_) h
    obtain ⟨x, -, hwrite⟩ := Option.bind_eq_some_iff.1 hstep
    exact Memory.length?_write hwrite
  | store n array res =>
    obtain ⟨target, -, h⟩ := Option.bind_eq_some_iff.1 h
    cases target with
    | none =>
      obtain rfl := Option.some.inj h
      rfl
    | some ys =>
      refine Memory.length?_foldlM (fun i m m' hstep => ?_) h
      obtain ⟨x, -, hwrite⟩ := Option.bind_eq_some_iff.1 hstep
      exact Memory.length?_write hwrite

theorem length?_runAll {ss : List (Statement α)} {m' : Memory α}
    (h : runAll literal pointers ss m = some m') : m'.length? p = m.length? p :=
  Memory.length?_foldlM (fun _ _ _ => length?_run) h

/-! ### One statement after the other -/

theorem runAll_cons {s : Statement α} {ss : List (Statement α)} {m' : Memory α}
    (h : s.run literal pointers m = some m') :
    runAll literal pointers (s :: ss) m = runAll literal pointers ss m' :=
  congrArg (·.bind (runAll literal pointers ss)) h

theorem runAll_append {ss ts : List (Statement α)} {m' : Memory α}
    (h : runAll literal pointers ss m = some m') :
    runAll literal pointers (ss ++ ts) m = runAll literal pointers ts m' :=
  List.foldlM_append.trans (congrArg (·.bind (runAll literal pointers ts)) h)

/-- Statements each of which fills one array, as long as `P` holds of the memory. -/
theorem runAll_fills {β : Type} {P : Memory α → Prop} {items : List β} {statement : β → Statement α}
    {part : β → Place × List α}
    (hstep : ∀ b ∈ items, ∀ m, P m →
      (statement b).run literal pointers m = some (m.fill (part b).1 0 (part b).2) ∧
        P (m.fill (part b).1 0 (part b).2)) (hm : P m) :
    runAll literal pointers (items.map statement) m = some (m.fillAll (items.map part)) := by
  induction items generalizing m with
  | nil => rfl
  | cons b items ih =>
    obtain ⟨hrun, hnext⟩ := hstep b List.mem_cons_self m hm
    rw [List.map_cons, runAll_cons hrun, List.map_cons, Memory.fillAll_cons]
    exact ih (fun b hb => hstep b (List.mem_cons_of_mem _ hb)) hnext

theorem run_loop {index : Index} {value : Value α} {xs : List α} (hn : xs.length = n)
    (hindex : ∀ i, index.at (some i) = some (start + i))
    (hvalue : ∀ (i : Nat) (x : α), xs[i]? = some x → ∀ m' : Memory α,
      m'.AgreesOff (.work r) m → value.eval literal (some i) m' = some x)
    (room : m.HasRoom (.work r) (start + n)) :
    (Statement.loop n ⟨r, index⟩ value).run literal pointers m =
      some (m.fill (.work r) start xs) := by
  subst hn
  exact Memory.foldlM_write
    (fun i x hx m' hm' => by simp [assigned, hindex, hvalue i x hx m' hm']) room

theorem run_assigns {values : List (Value α)} {xs : List α}
    (hvalues : List.Forall₂ (fun value x => ∀ m' : Memory α, m'.AgreesOff (.work r) m₀ →
      value.eval literal none m' = some x) values xs)
    (hm : m.AgreesOff (.work r) m₀) (room : m.HasRoom (.work r) (start + xs.length)) :
    runAll literal pointers
        ((values.zipIdx start).map fun (value, k) => .assign ⟨r, .fixed k⟩ value) m =
      some (m.fill (.work r) start xs) := by
  induction hvalues generalizing m start with
  | nil => rfl
  | @cons value x values xs hvalue _ ih =>
    rw [List.length_cons] at room
    have hfirst : Statement.run literal pointers (.assign ⟨r, .fixed start⟩ value) m =
        some (m.put (.work r) start x) := by
      have hwrite : m.HasRoom (.work r) (start + 1) := room.mono (by omega)
      simp [Statement.run, assigned, Index.at, hvalue m hm, hwrite.write]
    have hput : (m.put (.work r) start x).AgreesOff (.work r) m₀ :=
      fun q hq => (Memory.put_of_ne hq).trans (hm q hq)
    have hroom : (m.put (.work r) start x).HasRoom (.work r) (start + 1 + xs.length) := by
      rw [Memory.HasRoom, Memory.length?_put]
      exact room.mono (by omega)
    rw [List.zipIdx_cons, List.map_cons, runAll_cons hfirst]
    exact ih hput hroom

theorem run_accumulate {value : Value α} {xs : List α} {total : α} (hn : xs.length = n)
    (hvalue : ∀ (i : Nat) (x : α), xs[i]? = some x → ∀ m' : Memory α,
      m'.AgreesOff (.work r) m → value.eval literal (some i) m' = some x)
    (room : m.HasRoom (.work r) 1) :
    (Statement.accumulate n ⟨r, .fixed 0⟩ value).run literal pointers (m.put (.work r) 0 total) =
      some (m.put (.work r) 0 (xs.foldl (· + ·) total)) := by
  subst hn
  rw [Statement.run]
  induction xs using List.reverseRecOn with
  | nil => rfl
  | append_singleton xs x ih =>
    -- the values read other arrays only, so they are those of the memory before the loop
    set sum := xs.foldl (· + ·) total with hsum
    have hroom : (m.put (.work r) 0 sum).HasRoom (.work r) 1 := by
      rwa [Memory.HasRoom, Memory.length?_put]
    have hlast : value.eval literal (some xs.length) (m.put (.work r) 0 sum) = some x :=
      hvalue _ x List.getElem?_concat_length _ fun q hq => Memory.put_of_ne hq
    rw [List.length_append, List.length_singleton, List.range_succ, List.foldlM_append,
      ih fun i y hy => hvalue i y (Memory.getElem?_concat_of_some hy), List.foldl_append]
    simp [Index.at, Memory.cell, room.read_put, hlast, hroom.write, Memory.put_put, ← hsum]

/-- An argument is copied; a null pointer stands for zeros. -/
theorem run_load {source : Option (List α)} {arg : Nat}
    (hsource : pointers.args[arg]? = some source)
    (hlen : ∀ xs ∈ source, xs.length = n) (room : m.HasRoom (.work a) n) :
    (Statement.load n a arg).run literal pointers m =
      some (m.fill (.work a) 0 (source.getD (List.replicate n 0))) := by
  obtain ⟨xs, hxs, hn, hvalue⟩ : ∃ xs, source.getD (List.replicate n 0) = xs ∧ xs.length = n ∧
      ∀ (i : Nat) (x : α), xs[i]? = some x → source.elim (some 0) (·[i]?) = some x := by
    cases source with
    | none =>
      refine ⟨_, rfl, List.length_replicate, fun i x hx => ?_⟩
      exact congrArg some (List.eq_of_mem_replicate (List.mem_of_getElem? hx)).symm
    | some xs => exact ⟨xs, rfl, hlen xs rfl, fun i x hx => hx⟩
  subst hn
  rw [Statement.run, hsource, hxs]
  refine Memory.foldlM_write (fun i x hx m' hm' => ?_) (by rwa [Nat.zero_add])
  simp [hvalue i x hx]

/-- A result is copied unless there is no place for it. -/
theorem run_store {target : Option (List (Option α))} {res : Nat} {xs : List α}
    (htarget : pointers.results[res]? = some target) (hxs : m.Contains (.work a) xs)
    (hlen : xs.length = n) (room : target.isSome = true → m.HasRoom (.result res) n) :
    (Statement.store n a res).run literal pointers m =
      some (m.fill (.result res) 0 (target.elim [] fun _ => xs)) := by
  subst hlen
  rw [Statement.run, htarget]
  cases target with
  | none => rfl
  | some ys =>
    refine Memory.foldlM_write (fun i x hx m' hm' => ?_) (by rw [Nat.zero_add]; exact room rfl)
    simp [(hxs.congr (hm' (.work a) (by simp))).read hx]

end DiffGraph.Source
