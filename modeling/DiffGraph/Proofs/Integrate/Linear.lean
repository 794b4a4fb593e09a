import Mathlib
import DiffGraph.Proofs.Integrate.Buffers
import DiffGraph.Proofs.Integrate.Follow

/-!
# Linear systems

On a linear system `x' = A x` a classical step of the size `h` multiplies the state by
`R(h A)`, where `R` is the exponential series up to the fourth power (`Method.stability`). A call
takes the least number of equal steps within the step limit (`Startup.StepsOver`), and so its
result is a power of that factor (`Startup.Advances`). `Startup.visit_linear`: this is so from
call to call, whatever is left in the buffers. The harmonic oscillator (`Oscillator.problem`) is an
example.
-/

namespace DiffGraph

open Matrix

/-- Exact numbers in their order that are rounded up to whole numbers and counted in machine
words. -/
class CountingNumerals (α : Type) [ExactNumerals α] [LinearOrder α] : Prop extends
    OrderedNumerals α where
  beq_self (x : α) : (x == x) = true
  max_eq (x y : α) : OrderedScalar.max x y = max x y
  exists_ceil (x : α) : ∃ z : Int, OrderedScalar.ceil x = z ∧ ∀ m : Int, z ≤ m ↔ x ≤ m
  toNat_natCast (n : Nat) : OrderedScalar.toNat (n : α) = min n (Size.wordLimit - 1)

instance : CountingNumerals Rat where
  beq_self x := beq_self_eq_true x
  max_eq x y := by
    show (if x < y then y else x) = max x y
    rw [max_def_lt]
  exists_ceil x := ⟨x.ceil, rfl, fun m => Rat.ceil_le_iff⟩
  toNat_natCast n := by
    show min (n : Rat).floor.toNat (2 ^ 64 - 1) = _
    rw [show (n : Rat).floor = (n : Int) from Rat.floor_intCast n, Int.toNat_natCast]
    rfl

variable {α : Type} [ExactNumerals α] {k : Nat}

/-! ## Steps -/

theorem bind_of_ok {ε β γ : Type} {x : Except ε β} {b : β} (h : x = .ok b)
    (f : β → Except ε γ) : (x >>= f) = f b := by
  rw [h]
  rfl

namespace Method

theorem zipWith_ofFn {β γ δ : Type} (f : β → γ → δ) (x : Fin k → β) (y : Fin k → γ) :
    List.zipWith f (List.ofFn x) (List.ofFn y) = List.ofFn fun i => f (x i) (y i) :=
  List.ext_getElem (by simp) fun i h₁ h₂ => by simp

/-- The factor of a classical step. -/
def stability (z : Matrix (Fin k) (Fin k) α) : Matrix (Fin k) (Fin k) α :=
  1 + z + (1 / 2 : α) • z ^ 2 + (1 / 6 : α) • z ^ 3 + (1 / 24 : α) • z ^ 4

variable {ε : Type} {rate : Rate α ε} {A : Matrix (Fin k) (Fin k) α}

def Linear (rate : Rate α ε) (A : Matrix (Fin k) (Fin k) α) : Prop :=
  ∀ t v, rate t (List.ofFn v) = .ok (List.ofFn (A *ᵥ v))

/-- A step by its stages, which stand at the start, twice in the middle and at the end. -/
theorem Linear.stepRk4_eq_stages (h : Linear rate A) (t : α) (v : Fin k → α) (dt : α) :
    let k₁ := A *ᵥ v
    let k₂ := A *ᵥ (v + (dt / 2) • k₁)
    let k₃ := A *ᵥ (v + (dt / 2) • k₂)
    let k₄ := A *ᵥ (v + dt • k₃)
    stepRk4 rate t (List.ofFn v) dt =
      .ok (List.ofFn (v + (dt / 6) • (k₁ + (2 : α) • k₂ + (2 : α) • k₃ + k₄))) := by
  intro k₁ k₂ k₃ k₄
  have hhalf : (OrderedScalar.ofDecimal 5 (-1) : α) = 1 / 2 := by
    rw [OrderedScalar.ofDecimal_eq_mul]
    norm_num
  have hwhole (n : Nat) : (OrderedScalar.ofDecimal n 0 : α) = n := by
    rw [OrderedScalar.ofDecimal_eq_mul, zpow_zero, mul_one]
  have hmiddle (d : Fin k → α) :
      axpy (fun k => dt * k * OrderedScalar.ofDecimal 5 (-1)) (List.ofFn v) (List.ofFn d) =
        List.ofFn (v + (dt / 2) • d) := by
    rw [axpy, zipWith_ofFn, hhalf]
    refine congrArg List.ofFn (funext fun i => ?_)
    simp only [Pi.add_apply, Pi.smul_apply, smul_eq_mul]
    ring
  have hend : axpy (fun k => dt * k) (List.ofFn v) (List.ofFn k₃) = List.ofFn (v + dt • k₃) :=
    zipWith_ofFn _ v k₃
  have hsum : axpy (fun s => dt / OrderedScalar.ofDecimal 6 0 * s) (List.ofFn v)
      (List.zipWith (· + ·) (List.zipWith (fun s k => s + OrderedScalar.ofDecimal 2 0 * k)
        (List.zipWith (fun a b => a + OrderedScalar.ofDecimal 2 0 * b) (List.ofFn k₁)
          (List.ofFn k₂)) (List.ofFn k₃)) (List.ofFn k₄)) =
      List.ofFn (v + (dt / 6) • (k₁ + (2 : α) • k₂ + (2 : α) • k₃ + k₄)) := by
    simp only [axpy, zipWith_ofFn, hwhole]
    rfl
  refine (bind_of_ok (h t v) _).trans ?_
  refine (bind_of_ok ((congrArg (rate _) (hmiddle k₁)).trans (h _ _)) _).trans ?_
  refine (bind_of_ok ((congrArg (rate _) (hmiddle k₂)).trans (h _ _)) _).trans ?_
  refine (bind_of_ok ((congrArg (rate _) hend).trans (h _ _)) _).trans ?_
  exact congrArg Except.ok hsum

theorem stability_mulVec (A : Matrix (Fin k) (Fin k) α) (dt : α) (v : Fin k → α) :
    stability (dt • A) *ᵥ v = v + dt • (A *ᵥ v) + (dt ^ 2 / 2) • (A *ᵥ A *ᵥ v) +
      (dt ^ 3 / 6) • (A *ᵥ A *ᵥ A *ᵥ v) + (dt ^ 4 / 24) • (A *ᵥ A *ᵥ A *ᵥ A *ᵥ v) := by
  have hpower (j : Nat) : A ^ (j + 1) *ᵥ v = A *ᵥ A ^ j *ᵥ v := by
    rw [mulVec_mulVec, ← pow_succ']
  simp only [stability, add_mulVec, one_mulVec, smul_mulVec, smul_pow, hpower, pow_zero]
  module

theorem Linear.stepRk4_eq (h : Linear rate A) (t : α) (v : Fin k → α) (dt : α) :
    stepRk4 rate t (List.ofFn v) dt = .ok (List.ofFn (stability (dt • A) *ᵥ v)) := by
  rw [h.stepRk4_eq_stages, stability_mulVec]
  simp only [mulVec_add, mulVec_smul]
  refine congrArg (Except.ok ∘ List.ofFn) ?_
  module

end Method

namespace Startup

/-! ## Step counts -/

section Counts

variable [LinearOrder α] [CountingNumerals α]

/-- `n` equal steps go over the span: the least number of them that are no longer than the limit,
as far as a machine word counts, and none where there is nothing to go over. -/
def StepsOver (span limit : α) (n : Nat) : Prop :=
  span = 0 ∧ n = 0 ∨ 0 < span ∧
    ∃ m, IsLeast {m : Nat | 1 ≤ m ∧ span / m ≤ limit} m ∧ n = min m (Size.wordLimit - 1)

theorem stepsOver_stepCount {span limit : α} (hspan : 0 < span) (hlimit : 0 < limit) :
    StepsOver span limit (stepCount span limit) := by
  obtain ⟨z, hz, hceil⟩ := CountingNumerals.exists_ceil (span / limit)
  -- the least count, which is a whole number from one on
  have hleast (m : Nat) (hm : 1 ≤ m) : span / m ≤ limit ↔ (max z 1).toNat ≤ m := by
    have hpos : (0 : α) < m := by exact_mod_cast hm
    rw [div_le_comm₀ hpos hlimit, ← Int.cast_natCast, ← hceil]
    omega
  have hcast : OrderedScalar.max (z : α) 1 = ((max z 1).toNat : α) := by
    rw [CountingNumerals.max_eq, ← Int.cast_natCast, Int.toNat_of_nonneg (by omega), Int.cast_max,
      Int.cast_one]
  have hpos : 1 ≤ (max z 1).toNat := by omega
  refine .inr ⟨hspan, (max z 1).toNat, ⟨⟨hpos, (hleast _ hpos).2 le_rfl⟩, ?_⟩, ?_⟩
  · exact fun m hm => (hleast m hm.1).1 hm.2
  · rw [stepCount, hz, hcast, CountingNumerals.toNat_natCast]

end Counts

/-! ## Calls -/

section Calls

variable {s s' : Startup α} {A : Matrix (Fin k) (Fin k) α}

/-- Classical steps along the linear system of the matrix, whatever the time is. -/
structure FollowsLinear (s : Startup α) (A : Matrix (Fin k) (Fin k) α) : Prop where
  method : s.method = .rk4
  rates : ∀ t v, ∃ rest,
    s.f.evaluate [List.ofFn v, s.p, [t]] = .ok (List.ofFn (A *ᵥ v) :: rest)
  states : s.x.length = k

theorem FollowsLinear.linear (hs : s.FollowsLinear A) : Method.Linear (rate s.f s.p) A := by
  intro t v
  obtain ⟨rest, hout⟩ := hs.rates t v
  rw [rate, hout]
  simp

theorem FollowsLinear.continues (hs : s.FollowsLinear A) (h : s.Continues s') :
    s'.FollowsLinear A := by
  refine ⟨h.method.trans hs.method, ?_, h.states.trans hs.states⟩
  rw [h.f, h.p]
  exact hs.rates

theorem FollowsLinear.exists_state (hs : s.FollowsLinear A) :
    ∃ v : Fin k → α, s.x = List.ofFn v := by
  obtain ⟨-, -, rfl⟩ := hs
  exact ⟨s.x.get, (List.ofFn_get s.x).symm⟩

/-- Every step applies the factor once more. -/
theorem FollowsLinear.advance_eq (hs : s.FollowsLinear A) {v : Fin k → α}
    (hv : s.x = List.ofFn v) (dt : α) (n : Nat) :
    s.advance dt n = ({ s with
      t := s.t + n * dt
      x := List.ofFn (Method.stability (dt • A) ^ n *ᵥ v) }, .ok ()) := by
  induction n generalizing s v with
  | zero =>
    obtain ⟨name, method, f, options, t, x, p, steps⟩ := s
    obtain rfl : x = List.ofFn v := hv
    rw [advance, Nat.cast_zero, zero_mul, add_zero, pow_zero, one_mulVec]
  | succ n ih =>
    have hstep : s.method.step (rate s.f s.p) s.t s.x dt =
        .ok (List.ofFn (Method.stability (dt • A) *ᵥ v)) := by
      rw [hs.method, Method.step, hv, hs.linear.stepRk4_eq]
    have hnext : s.Continues
        { s with t := s.t + dt, x := List.ofFn (Method.stability (dt • A) *ᵥ v) } :=
      ⟨⟨rfl, rfl, rfl, rfl, by rw [hv, List.length_ofFn, List.length_ofFn]⟩, rfl⟩
    rw [advance, hstep]
    dsimp only
    rw [ih (hs.continues hnext) rfl, mulVec_mulVec, ← pow_succ]
    refine congrArg (fun t => (Startup.mk _ _ _ _ t _ _ _, Except.ok ())) ?_
    push_cast
    ring

variable [LinearOrder α] [CountingNumerals α]

structure Advances (A : Matrix (Fin k) (Fin k) α) (t : α) (n : Nat) (s s' : Startup α) : Prop
    extends s.Continues s' where
  count : StepsOver (t - s.t) s.options.maxStep n
  state : ∃ v, s.x = List.ofFn v ∧
    s'.x = List.ofFn (Method.stability (((t - s.t) / n) • A) ^ n *ᵥ v)
  time : s'.t = t
  steps : s'.steps = s.steps + n

/-- The way of an integrator along a linear system, with what the calls return: it advances to
every time that does not lie before its own, and stays where it is for the others. -/
inductive LinearRun (A : Matrix (Fin k) (Fin k) α) :
    Startup α → List α → Startup α → List (Except (Failure α) Unit) → Prop
  | nil (s : Startup α) : LinearRun A s [] s []
  | forward {s s₁ s' : Startup α} {t : α} {n : Nat} {ts : List α} {rs : List _} :
    s.t ≤ t → Advances A t n s s₁ → LinearRun A s₁ ts s' rs →
    LinearRun A s (t :: ts) s' (.ok () :: rs)
  | backward {s s' : Startup α} {t : α} {ts : List α} {rs : List _} :
    t < s.t → LinearRun A s ts s' rs →
    LinearRun A s (t :: ts) s' (.error (.backwards s.t t) :: rs)

theorem integrate_backward {t : α} (h : t < s.t) :
    s.integrate t = (s, .error (.backwards s.t t)) := by
  rw [integrate, if_pos ((less_span_iff s t).2 h)]

theorem FollowsLinear.integrate_forward (hs : s.FollowsLinear A) (hlimit : 0 < s.options.maxStep)
    {t : α} (h : s.t ≤ t) : ∃ n s', s.integrate t = (s', .ok ()) ∧ Advances A t n s s' := by
  obtain ⟨v, hv⟩ := hs.exists_state
  rcases h.eq_or_lt with rfl | hlt
  · refine ⟨0, s, ?_, .refl s, .inl ⟨sub_self s.t, rfl⟩, ⟨v, hv, ?_⟩, rfl, rfl⟩
    · have hzero : (s.t - s.t == 0) = true := by
        rw [sub_self]
        exact CountingNumerals.beq_self 0
      rw [integrate, if_neg (not_less_span h), if_pos hzero]
    · rw [pow_zero, one_mulVec, hv]
  · have hne : ¬ (t - s.t == 0) = true := fun heq =>
      (sub_pos.2 hlt).ne' (ExactField.eq_of_beq _ _ heq)
    let n := stepCount (t - s.t) s.options.maxStep
    let x := List.ofFn (Method.stability (((t - s.t) / n) • A) ^ n *ᵥ v)
    have hsame : s.Continues { s with t, x, steps := s.steps + n } :=
      ⟨⟨rfl, rfl, rfl, rfl, by rw [hv, List.length_ofFn, List.length_ofFn]⟩, rfl⟩
    refine ⟨n, _, ?_, hsame, stepsOver_stepCount (sub_pos.2 hlt) hlimit, ⟨v, hv, rfl⟩, rfl, rfl⟩
    rw [integrate, if_neg (not_less_span h), if_neg hne]
    dsimp only
    rw [OrderedScalar.ofNat_eq_cast, hs.advance_eq hv]

theorem FollowsLinear.linearRun (hs : s.FollowsLinear A) (hlimit : 0 < s.options.maxStep)
    (ts : List α) : LinearRun A s ts (s.visit ts).1 (s.visit ts).2 := by
  induction ts generalizing s with
  | nil => exact .nil s
  | cons t ts ih =>
    rcases le_or_gt s.t t with h | h
    · obtain ⟨n, s₁, hint, hadv⟩ := hs.integrate_forward hlimit h
      rw [visit, hint]
      exact .forward h hadv (ih (hs.continues hadv.toContinues) (hadv.options ▸ hlimit))
    · rw [visit, integrate_backward h]
      exact .backward h (ih hs hlimit)

/-- Along a linear system the classical method multiplies the state by its factor, once for each
of the least number of equal steps within the limit. It does so from call to call, for every
matrix and whatever is left in the buffers; a time before the current one changes nothing. -/
theorem visit_linear (hs : s.FollowsLinear A) (hlimit : 0 < s.options.maxStep) (ts : List α)
    {b : Buffers α} (hb : b.Fits k) :
    (s.visitIn ts b).1 = s.visit ts ∧ LinearRun A s ts (s.visit ts).1 (s.visit ts).2 := by
  obtain ⟨b', hrun, -⟩ := Equipped.exists_visitIn ⟨hs.method, hs.states.symm ▸ hb⟩ ts
  rw [hrun]
  exact ⟨rfl, hs.linearRun hlimit ts⟩

end Calls

end Startup

/-! ## The harmonic oscillator -/

namespace Oscillator

def x : Expr Rat :=
  .node 0 (.symbol "x") [] (.column 2) []

def p : Expr Rat :=
  .node 1 (.symbol "p") [] .scalar []

def t : Expr Rat :=
  .node 2 (.symbol "t") [] .scalar []

def parts : Expr Rat :=
  .node 3 (.split .vertical [0, 1, 2]) [x] .scalar [.scalar]

def place : Expr Rat :=
  .node 4 (.output 0) [parts] .scalar []

def speed : Expr Rat :=
  .node 5 (.output 1) [parts] .scalar []

def force : Expr Rat :=
  .node 6 (.unary .neg) [place] .scalar []

def slope : Expr Rat :=
  .node 7 (.join .vertical) [speed, force] (.column 2) []

def problem : Function Rat :=
  ⟨"oscillator", [x, p, t], [slope],
    [⟨parts, [0], [some 3, some 4]⟩, ⟨force, [3], [some 5]⟩, ⟨slope, [4, 5], [some 6]⟩],
    #[.column 2, .scalar, .scalar, .scalar, .scalar, .scalar, .column 2], [0, 1, 2], [6]⟩

/-- An integrator for it, which starts at the place one. -/
def integrator : Startup Rat :=
  ⟨"rk4", .rk4, problem, ⟨1 / 2⟩, 0, [1, 0], [5], 0⟩

theorem compile_eq : Function.compile "oscillator" [x, p, t] [slope] = .ok problem := by
  cbv

theorem create_eq : (createStartup "rk4" problem ⟨1 / 2⟩ >>= fun s =>
    s.reset 0 [[1, 0], [5], [], []]) = .ok integrator := by
  cbv

theorem followsLinear : integrator.FollowsLinear !![0, 1; -1, 0] := by
  refine ⟨rfl, fun t v => ⟨[], ?_⟩, rfl⟩
  have hout : problem.evaluate [List.ofFn v, [5], [t]] = .ok [[v 1, -v 0]] := by cbv
  have hrate : List.ofFn (!![0, 1; -1, 0] *ᵥ v) = [v 1, -v 0] := by
    simp [dotProduct, Fin.sum_univ_two]
  rw [hrate]
  exact hout

end Oscillator

namespace Startup

/-- Two steps to the time one, then a refusal, a call for the same time, and two more steps. -/
theorem visit_linear_oscillator :
    let s := Oscillator.integrator
    let b : Buffers Rat := ⟨fun _ => [3, 4], [5, 6]⟩
    Function.compile "oscillator" [Oscillator.x, Oscillator.p, Oscillator.t] [Oscillator.slope] =
      .ok Oscillator.problem ∧
    (createStartup "rk4" Oscillator.problem ⟨1 / 2⟩ >>= fun s => s.reset 0 [[1, 0], [5], [], []]) =
      .ok s ∧
    s.FollowsLinear !![0, 1; -1, 0] ∧ 0 < s.options.maxStep ∧ b.Fits 2 ∧
    (s.visit [1, 1 / 2, 1, 7 / 4]).1.t = 7 / 4 ∧ (s.visit [1, 1 / 2, 1, 7 / 4]).1.steps = 4 ∧
    (s.visitIn [1, 1 / 2, 1, 7 / 4] b).1 = s.visit [1, 1 / 2, 1, 7 / 4] ∧
    LinearRun !![0, 1; -1, 0] s [1, 1 / 2, 1, 7 / 4] (s.visit [1, 1 / 2, 1, 7 / 4]).1
      (s.visit [1, 1 / 2, 1, 7 / 4]).2 := by
  intro s b
  have hlimit : 0 < s.options.maxStep := by
    show (0 : Rat) < 1 / 2
    norm_num
  have hb : b.Fits 2 := ⟨fun _ => rfl, rfl⟩
  refine ⟨Oscillator.compile_eq, Oscillator.create_eq, Oscillator.followsLinear, hlimit, hb, by cbv,
    by cbv, ?_⟩
  exact visit_linear Oscillator.followsLinear hlimit [1, 1 / 2, 1, 7 / 4] hb

end Startup

end DiffGraph
