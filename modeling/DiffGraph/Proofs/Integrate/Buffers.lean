import Mathlib
import DiffGraph.Proofs.Integrate.Startup
import DiffGraph.Proofs.Pattern.Transpose

/-!
# The buffers of the classical method

The classical method keeps five arrays from step to step: the rates of its four stages, and the
state at which a stage asks for its rates (`Buffers`). A step overwrites them entry by entry
(`Buffers.step`), and every array is written before it is read. So whatever earlier steps have
left there, a step in arrays of the right lengths is `Method.stepRk4`, whether it gets to its end
or not (`Buffers.gives_step`), and an integrator with such arrays is the one without
(`Startup.Equipped.exists_visitIn`).
-/

namespace DiffGraph

variable {α β γ : Type}

/-! ## Overwriting -/

/-- Replaces the first `n` items one after the other, each by what `f` makes of it. -/
def overwrite (f : Nat → β → Option β) (n : Nat) (xs : List β) : Option (List β) :=
  (List.range n).foldlM (fun xs j => do Compressed.write? xs j (← f j (← xs[j]?))) xs

/-- Before an item is replaced it is as it was, so `f` may read it there. -/
theorem overwrite_eq {f : Nat → β → Option β} {xs ys : List β} (hlen : ys.length = xs.length)
    (h : ∀ j x, xs[j]? = some x → f j x = ys[j]?) : overwrite f xs.length xs = some ys := by
  have hoverwritten (n : Nat) (hn : n ≤ xs.length) :
      overwrite f n xs = some (ys.take n ++ xs.drop n) := by
    induction n with
    | zero => rfl
    | succ n ih =>
      have hys : n < ys.length := by omega
      have hdone : (ys.take n).length = n := List.length_take_of_le hys.le
      have hold : (ys.take n ++ xs.drop n)[n]? = some xs[n] := by
        rw [List.getElem?_append_right hdone.le, hdone, Nat.sub_self, List.getElem?_drop,
          Nat.add_zero, List.getElem?_eq_getElem hn]
      have hlt : n < (ys.take n ++ xs.drop n).length := (List.getElem?_eq_some_iff.1 hold).1
      have hnew : f n xs[n] = some ys[n] := by
        rw [h n _ (List.getElem?_eq_getElem hn), List.getElem?_eq_getElem hys]
      unfold overwrite at ih ⊢
      rw [List.range_succ, List.foldlM_append, ih (Nat.le_of_succ_le hn)]
      simp only [List.foldlM_cons, List.foldlM_nil, Option.bind_eq_bind, Option.bind_some,
        Option.pure_def, Option.bind_fun_some, hold, hnew, Compressed.write?, if_pos hlt]
      rw [List.set_append_right _ _ hdone.le, hdone, Nat.sub_self, List.drop_eq_getElem_cons hn,
        List.set_cons_zero, List.take_succ_eq_append_getElem hys, List.append_assoc,
        List.singleton_append]
  rw [hoverwritten _ le_rfl, ← hlen, List.take_length, hlen, List.drop_length, List.append_nil]

/-! ## Steps -/

/-- The rates of the four stages, and the state of a stage. -/
structure Buffers (α : Type) where
  rates : Fin 4 → List α
  point : List α

/-- What is computed in buffers. They keep what was written before a failure. -/
abbrev Buffered (α β : Type) :=
  ExceptT (Failure α) (StateM (Buffers α)) β

theorem buffered_bind_ok {m : Buffered α β} {b b' : Buffers α} {a : β} (h : m b = (.ok a, b'))
    (f : β → Buffered α γ) : (m >>= f) b = f a b' := by
  change ExceptT.bindCont f (m b).1 (m b).2 = _
  rw [h]
  rfl

namespace Buffers

/-- Every buffer has the length for `n` states. -/
structure Fits (b : Buffers α) (n : Nat) : Prop where
  rates : ∀ i, (b.rates i).length = n
  point : b.point.length = n

theorem Fits.setRates {b : Buffers α} {n : Nat} (hb : b.Fits n) (i : Fin 4) {k : List α}
    (hk : k.length = n) : Fits { b with rates := Function.update b.rates i k } n := by
  refine ⟨fun j => ?_, hb.point⟩
  dsimp only
  by_cases h : j = i
  · rwa [h, Function.update_self]
  · rw [Function.update_of_ne h, hb.rates]

theorem Fits.setPoint {b : Buffers α} {n : Nat} (hb : b.Fits n) {point : List α}
    (hpoint : point.length = n) : Fits { b with point } n :=
  ⟨hb.rates, hpoint⟩

variable [OrderedScalar α]

/-- Copies the rates into their array, which must have their length. -/
def fillRates (rate : Method.Rate α (Failure α)) (i : Fin 4) (t : α) (x : List α) :
    Buffered α Unit := do
  let k ← liftM (rate t x)
  let b ← get
  if k.length ≠ (b.rates i).length then throw .misuse
  set { b with rates := Function.update b.rates i k }

/-- Writes the state of the stage that follows stage `i`. -/
def fillPoint (c : α → α) (x : List α) (i : Fin 4) : Buffered α Unit := do
  let b ← get
  match overwrite (fun j _ => return (← x[j]?) + c (← (b.rates i)[j]?)) x.length b.point with
  | some point => set { b with point }
  | none => throw .misuse

def slope? (b : Buffers α) (j : Nat) : Option α := do
  let two : α := OrderedScalar.ofDecimal 2 0
  return (← (b.rates 0)[j]?) + two * (← (b.rates 1)[j]?) + two * (← (b.rates 2)[j]?) +
    (← (b.rates 3)[j]?)

def addRates (dt : α) (x : List α) : Buffered α (List α) := do
  let b ← get
  match overwrite (fun j x => return x + dt / OrderedScalar.ofDecimal 6 0 * (← b.slope? j))
      x.length x with
  | some x => return x
  | none => throw .misuse

def stage (rate : Method.Rate α (Failure α)) (i : Fin 4) (t : α) : Buffered α Unit := do
  fillRates rate i t (← get).point

def step (rate : Method.Rate α (Failure α)) (t : α) (x : List α) (dt : α) :
    Buffered α (List α) := do
  let half : α := OrderedScalar.ofDecimal 5 (-1)
  fillRates rate 0 t x
  fillPoint (fun k => dt * k * half) x 0
  stage rate 1 (t + dt * half)
  fillPoint (fun k => dt * k * half) x 1
  stage rate 2 (t + dt * half)
  fillPoint (fun k => dt * k) x 2
  stage rate 3 (t + dt)
  addRates dt x

/-- Run in buffers, a computation gives `r` and leaves buffers for `n` states. -/
def Gives (n : Nat) (m : Buffered α β) (b : Buffers α) (r : Except (Failure α) β) : Prop :=
  ∃ b', m b = (r, b') ∧ b'.Fits n

variable {rate : Method.Rate α (Failure α)} {n : Nat} {b : Buffers α} {x : List α}
  {next : Buffered α β}

omit [OrderedScalar α] in
/-- Copying rates of the right length goes on with them, and a failure to get them ends the
computation. -/
theorem Fits.gives_fillRates (hb : b.Fits n) (hrate : Method.KeepsLength rate) (i : Fin 4) (t : α)
    (hx : x.length = n) {r : List α → Except (Failure α) β}
    (hnext : ∀ k, Fits { b with rates := Function.update b.rates i k } n →
      Gives n next { b with rates := Function.update b.rates i k } (r k)) :
    Gives n (fillRates rate i t x >>= fun _ => next) b (rate t x >>= r) := by
  cases hk : rate t x with
  | error e =>
    refine ⟨b, ?_, hb⟩
    unfold fillRates
    rw [hk]
    rfl
  | ok k =>
    have hlen := (hrate t x k hk).trans hx
    obtain ⟨b', hrun, hb'⟩ := hnext k (hb.setRates i hlen)
    refine ⟨b', ?_, hb'⟩
    have hfill : fillRates rate i t x b =
        (.ok (), { b with rates := Function.update b.rates i k }) := by
      unfold fillRates
      rw [hk]
      change (ite _ _ _ : Buffered α Unit) b = _
      rw [if_neg (not_not.2 (hlen.trans (hb.rates i).symm))]
      rfl
    rw [buffered_bind_ok hfill]
    exact hrun

omit [OrderedScalar α] in
theorem Fits.gives_stage (hb : b.Fits n) (hrate : Method.KeepsLength rate) (i : Fin 4) (t : α)
    {r : List α → Except (Failure α) β}
    (hnext : ∀ k, Fits { b with rates := Function.update b.rates i k } n →
      Gives n next { b with rates := Function.update b.rates i k } (r k)) :
    Gives n (stage rate i t >>= fun _ => next) b (rate t b.point >>= r) :=
  hb.gives_fillRates hrate i t hb.point hnext

/-- Writing the state of a stage takes no notice of the one that was there. -/
theorem Fits.gives_fillPoint (hb : b.Fits n) (hx : x.length = n) (c : α → α) (i : Fin 4)
    {r : Except (Failure α) β}
    (hnext : Fits { b with point := Method.axpy c x (b.rates i) } n →
      Gives n next { b with point := Method.axpy c x (b.rates i) } r) :
    Gives n (fillPoint c x i >>= fun _ => next) b r := by
  have hlen : (Method.axpy c x (b.rates i)).length = x.length :=
    Method.length_axpy c ((hb.rates i).trans hx.symm)
  obtain ⟨b', hrun, hb'⟩ := hnext (hb.setPoint (hlen.trans hx))
  refine ⟨b', ?_, hb'⟩
  have hpoint : overwrite (fun j _ => return (← x[j]?) + c (← (b.rates i)[j]?)) x.length b.point =
      some (Method.axpy c x (b.rates i)) := by
    rw [hx, ← hb.point]
    refine overwrite_eq (hlen.trans (hx.trans hb.point.symm)) fun j _ _ => ?_
    rw [Method.axpy, List.getElem?_zipWith]
    cases x[j]? <;> cases (b.rates i)[j]? <;> rfl
  have hfill : fillPoint c x i b =
      (.ok (), { b with point := Method.axpy c x (b.rates i) }) := by
    change (match overwrite _ x.length b.point with
      | some point => set { b with point }
      | none => throw .misuse : Buffered α Unit) b = _
    rw [hpoint]
    rfl
  rw [buffered_bind_ok hfill]
  exact hrun

def slopes (b : Buffers α) : List α :=
  let two : α := OrderedScalar.ofDecimal 2 0
  List.zipWith (· + ·) (List.zipWith (fun s k => s + two * k)
    (List.zipWith (fun k₁ k₂ => k₁ + two * k₂) (b.rates 0) (b.rates 1)) (b.rates 2)) (b.rates 3)

theorem getElem?_slopes (b : Buffers α) (j : Nat) : b.slopes[j]? = b.slope? j := by
  unfold slopes slope?
  simp only [List.getElem?_zipWith]
  cases (b.rates 0)[j]? <;> cases (b.rates 1)[j]? <;> cases (b.rates 2)[j]? <;>
    cases (b.rates 3)[j]? <;> rfl

theorem Fits.gives_addRates (hb : b.Fits n) (hx : x.length = n) (dt : α) :
    Gives n (addRates dt x) b
      (.ok (Method.axpy (fun s => dt / OrderedScalar.ofDecimal 6 0 * s) x b.slopes)) := by
  refine ⟨b, ?_, hb⟩
  have hlen : (Method.axpy (fun s => dt / OrderedScalar.ofDecimal 6 0 * s) x b.slopes).length =
      x.length := Method.length_axpy _ (by simp [slopes, hb.rates, hx])
  have hsum := overwrite_eq (f := fun j x => return x + dt / OrderedScalar.ofDecimal 6 0 *
    (← b.slope? j)) hlen fun j x hj => by
      rw [Method.axpy, List.getElem?_zipWith, hj, getElem?_slopes]
      cases b.slope? j <;> rfl
  change (match overwrite _ x.length x with
    | some x => return x
    | none => throw .misuse : Buffered α (List α)) b = _
  rw [hsum]
  rfl

/-- A step in buffers of the right lengths is a step without: what earlier steps have left in
them does not matter. -/
theorem gives_step (hb : b.Fits n) (hrate : Method.KeepsLength rate) (t : α) (hx : x.length = n)
    (dt : α) : Gives n (step rate t x dt) b (Method.stepRk4 rate t x dt) := by
  refine hb.gives_fillRates hrate 0 t hx fun k₁ hb₁ => ?_
  refine hb₁.gives_fillPoint hx (fun k => dt * k * OrderedScalar.ofDecimal 5 (-1)) 0 fun hp₁ => ?_
  refine hp₁.gives_stage hrate 1 (t + dt * OrderedScalar.ofDecimal 5 (-1)) fun k₂ hb₂ => ?_
  refine hb₂.gives_fillPoint hx (fun k => dt * k * OrderedScalar.ofDecimal 5 (-1)) 1 fun hp₂ => ?_
  refine hp₂.gives_stage hrate 2 (t + dt * OrderedScalar.ofDecimal 5 (-1)) fun k₃ hb₃ => ?_
  refine hb₃.gives_fillPoint hx (fun k => dt * k) 2 fun hp₃ => ?_
  refine hp₃.gives_stage hrate 3 (t + dt) fun k₄ hb₄ => ?_
  exact hb₄.gives_addRates hx dt

end Buffers

/-! ## Calls -/

namespace Startup

variable [OrderedScalar α]

def advanceIn (s : Startup α) (dt : α) :
    Nat → Buffers α → (Startup α × Except (Failure α) Unit) × Buffers α
  | 0, b => ((s, .ok ()), b)
  | n + 1, b =>
    match Buffers.step (rate s.f s.p) s.t s.x dt b with
    | (.error e, b) => ((s, .error (.within (.stepping s.name s.t) e)), b)
    | (.ok x, b) => advanceIn { s with t := s.t + dt, x } dt n b

def integrateIn (s : Startup α) (t : α) (b : Buffers α) :
    (Startup α × Except (Failure α) Unit) × Buffers α :=
  let span := t - s.t
  if OrderedScalar.less span 0 then ((s, .error (.backwards s.t t)), b)
  else if span == 0 then ((s, .ok ()), b)
  else
    let n := stepCount span s.options.maxStep
    match s.advanceIn (span / OrderedScalar.ofNat n) n b with
    | ((s, .error e), b) => ((s, .error e), b)
    | ((s, .ok ()), b) => (({ s with t, steps := s.steps + n }, .ok ()), b)

/-- Asks for one time after the other, whatever becomes of the calls before. -/
def visit (s : Startup α) : List α → Startup α × List (Except (Failure α) Unit)
  | [] => (s, [])
  | t :: ts =>
    let (s, r) := s.integrate t
    let (s, rs) := s.visit ts
    (s, r :: rs)

def visitIn (s : Startup α) :
    List α → Buffers α → (Startup α × List (Except (Failure α) Unit)) × Buffers α
  | [], b => ((s, []), b)
  | t :: ts, b =>
    let ((s, r), b) := s.integrateIn t b
    let ((s, rs), b) := s.visitIn ts b
    ((s, r :: rs), b)

/-- The integrator takes classical steps, and the buffers have the lengths for them. -/
structure Equipped (s : Startup α) (b : Buffers α) : Prop where
  method : s.method = .rk4
  fits : b.Fits s.x.length

variable {s : Startup α} {b : Buffers α}

theorem Equipped.exists_advanceIn (h : s.Equipped b) (dt : α) (n : Nat) :
    ∃ b', s.advanceIn dt n b = (s.advance dt n, b') ∧ (s.advance dt n).1.Equipped b' := by
  induction n generalizing s b with
  | zero => exact ⟨b, rfl, h⟩
  | succ n ih =>
    have hrate := keepsLength_rate s.f s.p
    obtain ⟨b', hrun, hb'⟩ := Buffers.gives_step h.fits hrate s.t rfl dt
    have hstep : s.method.step (rate s.f s.p) s.t s.x dt =
        Method.stepRk4 (rate s.f s.p) s.t s.x dt := by rw [h.method, Method.step]
    unfold advanceIn advance
    rw [hrun, hstep]
    cases hx : Method.stepRk4 (rate s.f s.p) s.t s.x dt with
    | error e => exact ⟨b', rfl, h.method, hb'⟩
    | ok x => exact ih ⟨h.method, (Method.length_of_stepRk4 hrate hx).symm ▸ hb'⟩

theorem Equipped.exists_integrateIn (h : s.Equipped b) (t : α) :
    ∃ b', s.integrateIn t b = (s.integrate t, b') ∧ (s.integrate t).1.Equipped b' := by
  unfold integrateIn integrate
  dsimp only
  split
  · exact ⟨b, rfl, h⟩
  split
  · exact ⟨b, rfl, h⟩
  obtain ⟨b', hrun, hb'⟩ := h.exists_advanceIn ((t - s.t) /
    OrderedScalar.ofNat (stepCount (t - s.t) s.options.maxStep))
    (stepCount (t - s.t) s.options.maxStep)
  rw [hrun]
  revert hb'
  rcases s.advance ((t - s.t) / OrderedScalar.ofNat (stepCount (t - s.t) s.options.maxStep))
    (stepCount (t - s.t) s.options.maxStep) with ⟨s₁, e | u⟩
  · exact fun hb' => ⟨b', rfl, hb'⟩
  · exact fun hb' => ⟨b', rfl, hb'.method, hb'.fits⟩

/-- Calls in buffers of the right lengths give what they give without buffers. -/
theorem Equipped.exists_visitIn (h : s.Equipped b) (ts : List α) :
    ∃ b', s.visitIn ts b = (s.visit ts, b') ∧ (s.visit ts).1.Equipped b' := by
  induction ts generalizing s b with
  | nil => exact ⟨b, rfl, h⟩
  | cons t ts ih =>
    obtain ⟨b₁, hint, hb₁⟩ := h.exists_integrateIn t
    obtain ⟨b', hrun, hb'⟩ := ih hb₁
    refine ⟨b', ?_, hb'⟩
    unfold visitIn visit
    rw [hint]
    dsimp only
    rw [hrun]

end Startup

end DiffGraph
