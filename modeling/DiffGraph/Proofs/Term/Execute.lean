import Mathlib
import DiffGraph.Proofs.Term.Code
import DiffGraph.Proofs.Term.Marks

/-!
# Execution on any kind of elements

Numbers and dual numbers are computed without further effect, symbolic elements
with one: each operation takes a new identity. `Interprets m view` says that the
operations on elements in `m` look, through `view`, like those on plain elements. A
program then does in `m` what it does on plain elements, step by step (`Resembles`), be
it that both machines look alike in the end or that both fail (`Program.resembles_run`).
Symbolic elements are interpreted by terms without identities (`interprets_shape`).
-/

namespace DiffGraph

open Element Term

/-- Through `view`, the operations in `m` are those on plain elements. -/
structure Interprets (m : Type → Type) [Monad m] {α T V : Type} [Element m α T] [Element Id α V]
    (view : T → V) : Prop where
  ofScalar (x : α) : SatisfiesM (fun v : T => view v = ofNumber x) (Element.ofScalar x : m T)
  unary (op : UnaryOp) (x : T) :
    SatisfiesM (fun v => view v = apply₁ op (view x)) (Element.unary op x : m T)
  binary (op : BinaryOp) (x y : T) :
    SatisfiesM (fun v => view v = apply₂ op (view x) (view y)) (Element.binary op x y : m T)

theorem interprets_id {α T : Type} [Element Id α T] : Interprets Id (fun v : T => v) where
  ofScalar _ := SatisfiesM_Id_eq.2 rfl
  unary _ _ := SatisfiesM_Id_eq.2 rfl
  binary _ _ _ := SatisfiesM_Id_eq.2 rfl

/-- The step in `m` fails like the computation on plain elements, or its result is related to that
of the computation. -/
def Resembles {m : Type → Type} [Monad m] {ε β γ : Type} (R : β → γ → Prop) (step : ExceptT ε m β)
    (plain : ExceptT ε Id γ) : Prop :=
  SatisfiesM (fun r => SameResult R r (Id.run plain.run)) step.run

namespace Resembles

variable {m : Type → Type} [Monad m] [LawfulMonad m] {ε β γ δ κ : Type} {R : β → γ → Prop}
  {P : δ → κ → Prop}

theorem settled {r : Except ε β} {r' : Except ε γ} (h : SameResult R r r') :
    Resembles R (ExceptT.mk (Pure.pure r) : ExceptT ε m β) (ExceptT.mk (Pure.pure r')) :=
  SatisfiesM.pure h

theorem pure {b : β} {c : γ} (h : R b c) :
    Resembles R (Pure.pure b : ExceptT ε m β) (Pure.pure c) :=
  settled h

theorem throw (e : ε) :
    Resembles R (MonadExcept.throw e : ExceptT ε m β) (MonadExcept.throw e) :=
  settled rfl

theorem lift {step : m β} {value : Id γ} (h : SatisfiesM (fun b => R b value) step) :
    Resembles R (ExceptT.lift step : ExceptT ε m β) (ExceptT.lift value) := by
  show SatisfiesM _ (Except.ok <$> step)
  exact h.map fun hb => hb

theorem bind {step : ExceptT ε m β} {plain : ExceptT ε Id γ} {f : β → ExceptT ε m δ}
    {g : γ → ExceptT ε Id κ} (h : Resembles R step plain)
    (hf : ∀ b c, R b c → Resembles P (f b) (g c)) : Resembles P (step >>= f) (plain >>= g) := by
  refine SatisfiesM.bind (f := ExceptT.bindCont f) h fun r hr => ?_
  show SatisfiesM (fun r => SameResult P r (ExceptT.bindCont g (Id.run plain.run) : Id _)) _
  generalize Id.run plain.run = v at hr
  cases r with
  | ok b =>
    cases v with
    | ok c => exact hf b c hr
    | error e' => exact hr.elim
  | error e =>
    cases v with
    | ok c => exact hr.elim
    | error e' => exact SatisfiesM.pure hr

theorem foldlM {ι : Type} {f : β → ι → ExceptT ε m β} {g : γ → ι → ExceptT ε Id γ}
    (hf : ∀ i b c, R b c → Resembles R (f b i) (g c i)) {b : β} {c : γ} (h : R b c) (is : List ι) :
    Resembles R (is.foldlM f b) (is.foldlM g c) := by
  induction is generalizing b c with
  | nil => exact .pure h
  | cons i is ih =>
    rw [List.foldlM_cons, List.foldlM_cons]
    exact .bind (hf i b c h) fun b' c' h' => ih h'

theorem exists_of_pure {step : ExceptT ε m β} {plain : ExceptT ε Id γ} (h : Resembles R step plain)
    {c : γ} (hc : plain = Pure.pure c) :
    SatisfiesM (fun r => ∃ b, r = .ok b ∧ R b c) step.run := by
  subst hc
  refine h.imp fun {r} hr => ?_
  cases r with
  | ok b => exact ⟨b, rfl, hr⟩
  | error e => exact hr.elim

end Resembles

/-! ## Symbolic elements -/

section Shapes

variable {α : Type}

/-- The term with all identities but those of its symbols set to zero. -/
def Term.shape : Term α → Term α
  | constant _ x => constant 0 x
  | symbol id name => symbol id name
  | unary _ op x => unary 0 op x.shape
  | binary _ op x y => binary 0 op x.shape y.shape

/-- A term up to the identities of its constants and operations. -/
structure Shape (α : Type) where
  term : Term α

/-- Operations on shapes fold constants like those on terms. -/
instance [Scalar α] : Element Id α (Shape α) where
  ofScalar x := ⟨constant 0 x⟩
  unary op x := ⟨(applyUnary op x.term 0).1.shape⟩
  binary op x y := ⟨(applyBinary op x.term y.term 0).1.shape⟩

@[simp] theorem Term.value?_shape (t : Term α) : t.shape.value? = t.value? := by
  cases t <;> rfl

@[simp] theorem Term.shape_shape (t : Term α) : t.shape.shape = t.shape := by
  induction t with
  | constant id x => rfl
  | symbol id name => rfl
  | unary id op x ih => simp [shape, ih]
  | binary id op x y ihx ihy => simp [shape, ihx, ihy]

theorem Term.negated?_shape (t : Term α) : t.shape.negated? = t.negated?.map shape := by
  cases t with
  | constant id x => rfl
  | symbol id name => rfl
  | unary id op x => cases op <;> rfl
  | binary id op x y => rfl

theorem shape_newUnary (op : UnaryOp) (x : Term α) (n n' : Nat) :
    ((do return unary (← Fresh.identity) op x : Fresh (Term α)) n).1.shape =
      ((do return unary (← Fresh.identity) op x.shape : Fresh (Term α)) n').1.shape := by
  show unary 0 op x.shape = unary 0 op x.shape.shape
  rw [shape_shape]

theorem shape_newBinary (op : BinaryOp) (x y : Term α) (n n' : Nat) :
    ((do return binary (← Fresh.identity) op x y : Fresh (Term α)) n).1.shape =
      ((do return binary (← Fresh.identity) op x.shape y.shape : Fresh (Term α)) n').1.shape := by
  show binary 0 op x.shape y.shape = binary 0 op x.shape.shape y.shape.shape
  rw [shape_shape, shape_shape]

variable [Scalar α]

@[simp] theorem Term.isValue_shape (t : Term α) (v : α) : t.shape.isValue v = t.isValue v := by
  rw [isValue, value?_shape, isValue]

theorem shape_applyUnary (op : UnaryOp) (x : Term α) (n n' : Nat) :
    (applyUnary op x n).1.shape = (applyUnary op x.shape n').1.shape := by
  unfold applyUnary
  rw [value?_shape, negated?_shape]
  cases x.value? with
  | some v => rfl
  | none =>
    cases op <;> cases x.negated? <;>
      first
      | exact shape_newUnary _ x n n'
      | exact (shape_shape _).symm

theorem shape_applyBinary (op : BinaryOp) (x y : Term α) (n n' : Nat) :
    (applyBinary op x y n).1.shape = (applyBinary op x.shape y.shape n').1.shape := by
  unfold applyBinary
  simp only [value?_shape, isValue_shape]
  rcases x.value? with _ | a <;> rcases y.value? with _ | b
  case some.some => rfl
  all_goals
    cases op with
    | add =>
      dsimp only
      split
      · exact (shape_shape y).symm
      · split
        · exact (shape_shape x).symm
        · exact shape_newBinary _ x y n n'
    | sub =>
      dsimp only
      split
      · exact (shape_shape x).symm
      · split
        · exact shape_applyUnary .neg y n n'
        · exact shape_newBinary _ x y n n'
    | mul =>
      dsimp only
      split
      · rfl
      · split
        · exact (shape_shape y).symm
        · split
          · exact (shape_shape x).symm
          · exact shape_newBinary _ x y n n'
    | div =>
      dsimp only
      split
      · exact (shape_shape x).symm
      · exact shape_newBinary _ x y n n'

/-- Symbolic elements, up to identities. -/
theorem interprets_shape : Interprets Fresh (fun t : Term α => Shape.mk t.shape) where
  ofScalar _ := SatisfiesM_StateT_eq.2 fun _ => SatisfiesM_Id_eq.2 rfl
  unary op x := SatisfiesM_StateT_eq.2 fun n => SatisfiesM_Id_eq.2
    (congrArg Shape.mk (shape_applyUnary op x n 0))
  binary op x y := SatisfiesM_StateT_eq.2 fun n => SatisfiesM_Id_eq.2
    (congrArg Shape.mk (shape_applyBinary op x y n 0))

end Shapes

/-! ## Machines -/

namespace Machine

variable {T V : Type}

/-- The machine seen through a function on elements. -/
def view (f : T → V) (s : Machine T) : Machine V :=
  ⟨s.stack.map f, s.temps.map f, s.out.map f⟩

theorem view_start (f : T → V) (zero : T) (tempCount outCount : Nat) :
    (start zero tempCount outCount).map (view f) = start (f zero) tempCount outCount := by
  unfold start
  cases Size.checkLength tempCount with
  | error e => rfl
  | ok u =>
    cases Size.checkLength outCount with
    | error e => rfl
    | ok u =>
      show Except.ok _ = Except.ok _
      simp [view]

theorem view_load (f : T → V) (s : Machine T) (table : Array T) (i : Nat) :
    (s.view f).load (table.map f) i = (s.load table i).map (view f) := by
  unfold load
  rw [Array.getElem?_map]
  cases table[i]? <;> rfl

theorem view_storeTop (f : T → V) (s : Machine T) (i : Nat) :
    (s.view f).storeTop i = (s.storeTop i).map (view f) := by
  obtain ⟨stack, temps, out⟩ := s
  cases stack with
  | nil => rfl
  | cons x rest =>
    show (if i < (temps.map f).size then _ else _) =
      (if i < temps.size then _ else _ : Except FunctionError (Machine T)).map (view f)
    rw [Array.size_map]
    split
    · simp [Except.map, view, pure, Except.pure, Array.map_setIfInBounds]
    · rfl

theorem view_writeTop (f : T → V) (s : Machine T) (i : Nat) :
    (s.view f).writeTop i = (s.writeTop i).map (view f) := by
  obtain ⟨stack, temps, out⟩ := s
  cases stack with
  | nil => rfl
  | cons x rest =>
    show (if i < (out.map f).size then _ else _) =
      (if i < out.size then _ else _ : Except FunctionError (Machine T)).map (view f)
    rw [Array.size_map]
    split
    · simp [Except.map, view, pure, Except.pure, Array.map_setIfInBounds]
    · rfl

end Machine

namespace Program

variable {α : Type}

def take (p : Program α) (k : Nat) : Program α :=
  { p with code := p.code.take k }

section Plain

variable {V : Type} [Element Id α V] {vars : Array V} {s s' : Machine V}

theorem length_stack_load {table : Array V} {i : Nat} (h : s.load table i = .ok s') :
    (s'.stack.length : Int) = s.stack.length + 1 := by
  unfold Machine.load at h
  split at h
  · obtain rfl := Except.ok.inj h
    simp [Machine.push]
  · cases h

/-- An instruction changes the height of the stack as it says. -/
theorem length_stack_step {op : OpCode α}
    (h : (step vars op s : ExceptT FunctionError Id _) = pure s') :
    (s'.stack.length : Int) = s.stack.length + op.effect := by
  cases op with
  | loadConst x =>
    obtain rfl := Except.ok.inj h
    simp [Machine.push, OpCode.effect]
  | loadVar i => exact length_stack_load h
  | loadTemp i => exact length_stack_load h
  | storeTemp i =>
    obtain ⟨stack, temps, out⟩ := s
    cases stack with
    | nil => cases h
    | cons x rest =>
      have h : (if i < temps.size then _ else _ : Except FunctionError (Machine V)) = .ok s' := h
      split at h
      · obtain rfl := Except.ok.inj h
        simp [OpCode.effect]
      · cases h
  | unary op =>
    obtain ⟨stack, temps, out⟩ := s
    cases stack with
    | nil => cases h
    | cons x rest =>
      obtain rfl := Except.ok.inj h
      simp [OpCode.effect]
  | binary op =>
    obtain ⟨stack, temps, out⟩ := s
    cases stack with
    | nil => cases h
    | cons y stack =>
      cases stack with
      | nil => cases h
      | cons x rest =>
        obtain rfl := Except.ok.inj h
        simp [OpCode.effect]
  | write i =>
    obtain ⟨stack, temps, out⟩ := s
    cases stack with
    | nil => cases h
    | cons x rest =>
      have h : (if i < out.size then _ else _ : Except FunctionError (Machine V)) = .ok s' := h
      split at h
      · obtain rfl := Except.ok.inj h
        simp [OpCode.effect]
      · cases h

theorem length_stack_exec {code : List (OpCode α)} (h : exec vars code s = pure s') :
    (s'.stack.length : Int) = s.stack.length + height code := by
  induction code generalizing s with
  | nil =>
    obtain rfl := Except.ok.inj h
    simp [height]
  | cons op code ih =>
    unfold exec at h
    rw [List.foldlM_cons, ← Function.bind_eq_bind] at h
    obtain ⟨next, hnext, hrest⟩ := exists_of_bind_eq_ok h
    rw [ih hrest, length_stack_step hnext]
    simp [height, Int.add_assoc]

/-- A program that runs has run through its first instructions. -/
theorem exists_run_take [Zero α] {p : Program α} {vs : List V} {count : Nat}
    (h : (p.run vs count : ExceptT FunctionError Id _) = pure s) (k : Nat) :
    ∃ s' : Machine V, ((p.take k).run vs count : ExceptT FunctionError Id _) = pure s' ∧
      (s'.stack.length : Int) = height (p.code.take k) := by
  have hrun : (ExceptT.mk (pure (Machine.start (ofNumber (0 : α) : V) p.tempCount count)) :
      ExceptT FunctionError Id _) >>= exec vs.toArray p.code = pure s := h
  generalize hstart : Machine.start (ofNumber (0 : α) : V) p.tempCount count = start at hrun
  cases start with
  | error e => cases hrun
  | ok start =>
    have hcode : exec vs.toArray (p.code.take k ++ p.code.drop k) start = pure s := by
      rw [List.take_append_drop]
      exact hrun
    unfold exec at hcode
    rw [List.foldlM_append, ← Function.bind_eq_bind] at hcode
    obtain ⟨s', hs', -⟩ := exists_of_bind_eq_ok hcode
    refine ⟨s', ?_, ?_⟩
    · exact (congrArg (fun r : Except FunctionError (Machine V) =>
        (ExceptT.mk (pure r) : ExceptT FunctionError Id _) >>= exec vs.toArray (p.code.take k))
          hstart).trans hs'
    · have hempty : start.stack = [] := by
        unfold Machine.start at hstart
        obtain ⟨-, -, hstart⟩ := exists_of_bind_eq_ok hstart
        obtain ⟨-, -, hstart⟩ := exists_of_bind_eq_ok hstart
        exact congrArg Machine.stack (Except.ok.inj hstart).symm
      rw [length_stack_exec hs', hempty]
      simp

end Plain

section Effects

variable {m : Type → Type} [Monad m] [LawfulMonad m] {T V : Type} [Element m α T] [Element Id α V]
  {view : T → V} {vars : Array T}

abbrev SameMachine (view : T → V) (s : Machine T) (s' : Machine V) : Prop :=
  s.view view = s'

theorem resembles_step (hview : Interprets m view) (op : OpCode α) (s : Machine T) :
    Resembles (SameMachine view)
      (step vars op s : ExceptT FunctionError m (Machine T))
      (step (vars.map view) op (s.view view)) := by
  cases op with
  | loadConst x =>
    exact .bind (.lift (hview.ofScalar x)) fun u v huv =>
      .pure (congrArg (fun w => (s.view view).push w) huv)
  | loadVar i => exact .settled (sameResult_map_iff.2 (Machine.view_load view s vars i).symm)
  | loadTemp i => exact .settled (sameResult_map_iff.2 (Machine.view_load view s s.temps i).symm)
  | storeTemp i => exact .settled (sameResult_map_iff.2 (Machine.view_storeTop view s i).symm)
  | write i => exact .settled (sameResult_map_iff.2 (Machine.view_writeTop view s i).symm)
  | unary op =>
    obtain ⟨stack, temps, out⟩ := s
    cases stack with
    | nil => exact .throw _
    | cons x rest =>
      exact .bind (.lift (hview.unary op x)) fun u v huv =>
        .pure (congrArg (fun w => Machine.mk (w :: rest.map view) (temps.map view) (out.map view))
          huv)
  | binary op =>
    obtain ⟨stack, temps, out⟩ := s
    match stack with
    | [] => exact .throw _
    | [y] => exact .throw _
    | y :: x :: rest =>
      exact .bind (.lift (hview.binary op x y)) fun u v huv =>
        .pure (congrArg (fun w => Machine.mk (w :: rest.map view) (temps.map view) (out.map view))
          huv)

/-- A program does what it does on plain elements. -/
theorem resembles_run [Zero α] (hview : Interprets m view) (p : Program α) (vs : List T)
    (count : Nat) :
    Resembles (SameMachine view)
      (p.run vs count : ExceptT FunctionError m (Machine T)) (p.run (vs.map view) count) := by
  refine .bind (.lift (hview.ofScalar 0)) fun zero zero' hzero => ?_
  refine .bind (R := SameMachine view) (.settled (sameResult_map_iff.2 ?_)) fun s s' hs => ?_
  · rw [Machine.view_start]
    exact congrArg (Machine.start · p.tempCount count) hzero
  · rw [← List.map_toArray]
    refine .foldlM (fun op s s' hs => ?_) hs p.code
    subst hs
    exact resembles_step hview op s

end Effects

end Program

end DiffGraph
