import Mathlib
import DiffGraph.Proofs.Integrate.Startup

/-!
# Following times

An explicit integrator goes to one time after the other (`Startup.follow`). Times that do not
decrease never lie before its own (`time_le_of_follow`), and at arguments of the right lengths it
follows them to the end (`Runs.exists_follow`).
-/

namespace DiffGraph

class OrderedNumerals (α : Type) [ExactNumerals α] [LinearOrder α] : Prop extends
    IsStrictOrderedRing α where
  atMost_iff (x y : α) : OrderedScalar.atMost x y = true ↔ x ≤ y
  less_iff (x y : α) : OrderedScalar.less x y = true ↔ x < y

instance : OrderedNumerals Rat where
  atMost_iff _ _ := decide_eq_true_iff
  less_iff _ _ := decide_eq_true_iff

variable {α : Type}

theorem exists_ok_bind {ε β γ : Type} {x : Except ε β} {f : β → Except ε γ} {P : β → Prop}
    (hx : ∃ b, x = .ok b ∧ P b) (hf : ∀ b, P b → ∃ c, f b = .ok c) : ∃ c, (x >>= f) = .ok c := by
  obtain ⟨b, rfl, hb⟩ := hx
  exact hf b hb

/-! ## Steps -/

namespace Method

variable [OrderedScalar α] {ε : Type} {rate : Rate α ε} {k : Nat} {x : List α}

def Total (rate : Rate α ε) (k : Nat) : Prop :=
  ∀ t x, x.length = k → ∃ y, rate t x = .ok y ∧ y.length = k

theorem Total.exists_stepRk4 (h : Total rate k) (t : α) (hx : x.length = k) (dt : α) :
    ∃ y, stepRk4 rate t x dt = .ok y := by
  have hstage (c : α → α) {s : List α} (hs : s.length = k) : (axpy c x s).length = k :=
    (length_axpy c (hs.trans hx.symm)).trans hx
  unfold stepRk4
  refine exists_ok_bind (h _ _ hx) fun k₁ hk₁ => ?_
  refine exists_ok_bind (h _ _ (hstage _ hk₁)) fun k₂ hk₂ => ?_
  refine exists_ok_bind (h _ _ (hstage _ hk₂)) fun k₃ hk₃ => ?_
  exact exists_ok_bind (h _ _ (hstage _ hk₃)) fun k₄ hk₄ => ⟨_, rfl⟩

theorem Total.exists_stageSlopes (h : Total rate k) (t : α) (hx : x.length = k) (dt : α)
    {stages : List (Stage α)} {done : List (List α)} (hne : done ≠ [])
    (hweights : ∀ s ∈ stages, s.weights ≠ []) (hdone : ∀ s ∈ done, s.length = k) :
    ∃ slopes, stageSlopes rate t x dt stages done = .ok slopes := by
  induction stages generalizing done with
  | nil => exact ⟨done, rfl⟩
  | cons stage stages ih =>
    obtain ⟨hstage, hweights⟩ := List.forall_mem_cons.1 hweights
    have hzip : stage.weights.zip done ≠ [] := by simp [List.zip_eq_nil_iff, hstage, hne]
    have hsum := length_weighted hzip fun s hs => hdone s.2 (List.of_mem_zip hs).2
    have hpoint := (length_axpy (dt * ·) (hsum.trans hx.symm)).trans hx
    refine exists_ok_bind (h _ _ hpoint) fun slope hslope => ih (by simp) hweights fun s hs => ?_
    rcases List.mem_append.1 hs with hs | hs
    · exact hdone s hs
    · exact List.mem_singleton.1 hs ▸ hslope

theorem Total.exists_stepTsit5 (h : Total rate k) (t : α) (hx : x.length = k) (dt : α) :
    ∃ y, stepTsit5 rate t x dt = .ok y := by
  refine exists_ok_bind (h _ _ hx) fun slope hslope => ?_
  have hslopes : ∃ slopes, stageSlopes rate t x dt tsit5Stages [slope] = .ok slopes :=
    h.exists_stageSlopes t hx dt (List.cons_ne_nil slope []) (by simp [tsit5Stages])
      (by simpa using hslope)
  exact exists_ok_bind (P := fun _ => True) (hslopes.imp fun _ hs => ⟨hs, trivial⟩)
    fun _ _ => ⟨_, rfl⟩

theorem Total.exists_step (h : Total rate k) (m : Method) (t : α) (hx : x.length = k) (dt : α) :
    ∃ y, m.step rate t x dt = .ok y := by
  cases m with
  | rk4 => exact h.exists_stepRk4 t hx dt
  | tsit5 => exact h.exists_stepTsit5 t hx dt

end Method

namespace Startup

/-- The integrator at the last of the times, to which it goes one after the other. -/
def follow [OrderedScalar α] (s : Startup α) : List α → Except (Failure α) (Startup α)
  | [] => .ok s
  | t :: ts =>
    match s.integrate t with
    | (_, .error e) => .error e
    | (s, .ok ()) => s.follow ts

section Runs

variable [OrderedScalar α] {s s' : Startup α}

/-- The function takes the states, the parameters and a time. -/
structure Runs (s : Startup α) : Prop where
  isRate : IsRate s.f
  args : s.f.inputs.map Expr.nnz = [s.x.length, s.p.length, 1]

/-- The integrators differ in the times, the states and the steps alone. -/
structure Continues (s s' : Startup α) : Prop extends s.SameSetup s' where
  p : s'.p = s.p

omit [OrderedScalar α] in
theorem Continues.refl (s : Startup α) : s.Continues s :=
  ⟨.refl s, rfl⟩

omit [OrderedScalar α] in
theorem Continues.trans {s₁ s₂ s₃ : Startup α} (h : s₁.Continues s₂) (h' : s₂.Continues s₃) :
    s₁.Continues s₃ :=
  ⟨h.toSameSetup.trans h'.toSameSetup, h'.p.trans h.p⟩

omit [OrderedScalar α] in
theorem Runs.continues (hs : s.Runs) (h : s.Continues s') : s'.Runs := by
  obtain ⟨hrate, hargs⟩ := hs
  rw [← h.f] at hrate hargs
  rw [← h.states, ← h.p] at hargs
  exact ⟨hrate, hargs⟩

theorem Runs.total (hs : s.Runs) : Method.Total (rate s.f s.p) s.x.length := by
  intro t x hx
  obtain ⟨k, hk⟩ := exists_rate (t := t) hs.isRate (show [x, s.p, [t]].map List.length = _ by
    rw [hs.args, ← hx]
    rfl)
  exact ⟨k, hk, (keepsLength_rate s.f s.p t x k hk).trans hx⟩

theorem Runs.exists_advance (hs : s.Runs) (dt : α) (n : Nat) :
    ∃ s', s.advance dt n = (s', .ok ()) ∧ s.Continues s' := by
  induction n generalizing s with
  | zero => exact ⟨s, rfl, .refl s⟩
  | succ n ih =>
    obtain ⟨x, hx⟩ := hs.total.exists_step s.method s.t rfl dt
    have hnext : s.Continues { s with t := s.t + dt, x } :=
      ⟨⟨rfl, rfl, rfl, rfl, Method.length_of_step (keepsLength_rate s.f s.p) hx⟩, rfl⟩
    obtain ⟨s', hrun, hlast⟩ := ih (hs.continues hnext)
    refine ⟨s', ?_, hnext.trans hlast⟩
    unfold advance
    rw [hx]
    exact hrun

theorem length_inputs_of_create {name : String} {method : Method} {f : Function α}
    {options : StartupOptions α} (h : create name method f options = .ok s) :
    f.inputs.length = 3 := by
  obtain ⟨states, -, h⟩ := ok_of_bind h
  exact not_not.1 (ok_of_guard h).1

end Runs

section Times

variable [ExactNumerals α] [LinearOrder α] [OrderedNumerals α] {s s' : Startup α} {t : α}

theorem less_span_iff (s : Startup α) (t : α) :
    OrderedScalar.less (t - s.t) 0 = true ↔ t < s.t := by
  rw [OrderedNumerals.less_iff, sub_neg]

theorem not_less_span (h : s.t ≤ t) : ¬ OrderedScalar.less (t - s.t) 0 = true :=
  mt (less_span_iff s t).1 h.not_gt

theorem integrate_ne_backwards (h : s.t ≤ t) (a b : α) :
    (s.integrate t).2 ≠ .error (.backwards a b) := by
  have hadvance (s : Startup α) (dt : α) (n : Nat) :
      (s.advance dt n).2 ≠ .error (.backwards a b) := by
    induction n generalizing s with
    | zero => nofun
    | succ n ih =>
      unfold advance
      split
      · nofun
      · exact ih _
  unfold integrate
  dsimp only
  rw [if_neg (not_less_span h)]
  split
  · nofun
  · have hrun := hadvance s ((t - s.t) / OrderedScalar.ofNat
      (stepCount (t - s.t) s.options.maxStep)) (stepCount (t - s.t) s.options.maxStep)
    split
    · rename_i s₁ e he
      rw [he] at hrun
      exact hrun
    · nofun

/-- An integrator gets to every time that does not lie before its own. -/
theorem Runs.integrate_forward (hs : s.Runs) (h : s.t ≤ t) :
    ∃ s', s.integrate t = (s', .ok ()) ∧ s'.t = t ∧ s.Continues s' := by
  unfold integrate
  dsimp only
  rw [if_neg (not_less_span h)]
  split
  · rename_i hzero
    exact ⟨s, rfl, (sub_eq_zero.1 (ExactField.eq_of_beq _ _ hzero)).symm, .refl s⟩
  · obtain ⟨s', hrun, hsame⟩ := hs.exists_advance ((t - s.t) /
      OrderedScalar.ofNat (stepCount (t - s.t) s.options.maxStep))
      (stepCount (t - s.t) s.options.maxStep)
    rw [hrun]
    exact ⟨_, rfl, rfl, ⟨⟨hsame.name, hsame.method, hsame.f, hsame.options, hsame.states⟩,
      hsame.p⟩⟩

omit [LinearOrder α] [OrderedNumerals α] in
theorem time_of_integrate (h : s.integrate t = (s', .ok ())) : s'.t = t := by
  unfold integrate at h
  dsimp only at h
  split at h
  · cases h
  split at h
  · rename_i hzero
    obtain ⟨rfl, -⟩ := Prod.mk.inj h
    exact (sub_eq_zero.1 (ExactField.eq_of_beq _ _ hzero)).symm
  split at h
  · cases h
  · obtain ⟨rfl, -⟩ := Prod.mk.inj h
    rfl

omit [LinearOrder α] [OrderedNumerals α] in
theorem time_of_follow {ts : List α} {m : Nat} (hm : ts[m]? = some t)
    (h : s.follow (ts.take (m + 1)) = .ok s') : s'.t = t := by
  induction ts generalizing s m with
  | nil => cases hm
  | cons t₁ ts ih =>
    rw [List.take_succ_cons, follow] at h
    split at h
    · cases h
    · rename_i s₁ hint
      cases m with
      | zero =>
        obtain rfl := Except.ok.inj h
        obtain rfl := Option.some.inj hm
        exact time_of_integrate hint
      | succ m => exact ih hm h

omit [OrderedNumerals α] in
theorem time_le_of_follow {ts : List α} (hsorted : (s.t :: ts).Pairwise (· ≤ ·)) {m : Nat}
    (hm : ts[m]? = some t) (h : s.follow (ts.take m) = .ok s') : s'.t ≤ t := by
  cases m with
  | zero =>
    obtain rfl := Except.ok.inj h
    exact List.rel_of_pairwise_cons hsorted (List.mem_of_getElem? hm)
  | succ m =>
    obtain ⟨hlt, rfl⟩ := List.getElem?_eq_some_iff.1 hm
    have hlast : ts[m]? = some ts[m] := List.getElem?_eq_getElem (by omega)
    rw [time_of_follow hlast h]
    exact List.pairwise_iff_getElem.1 hsorted.of_cons m (m + 1) (by omega) hlt (by omega)

/-- While it follows the times, the integrator is never asked for one before its own. -/
def NeverGoesBack (s : Startup α) (times : List α) : Prop :=
  ∀ m t s', times[m]? = some t → s.follow (times.take m) = .ok s' →
    s'.t ≤ t ∧ ∀ a b, (s'.integrate t).2 ≠ .error (.backwards a b)

theorem neverGoesBack {ts : List α} (hsorted : (s.t :: ts).Pairwise (· ≤ ·)) :
    s.NeverGoesBack ts := fun _ _ _ hm hs' =>
  have hle := time_le_of_follow hsorted hm hs'
  ⟨hle, integrate_ne_backwards hle⟩

/-- Times that do not decrease are followed to the end. -/
theorem Runs.exists_follow (hs : s.Runs) {ts : List α}
    (hsorted : (s.t :: ts).Pairwise (· ≤ ·)) : ∃ s', s.follow ts = .ok s' := by
  induction ts generalizing s with
  | nil => exact ⟨s, rfl⟩
  | cons t ts ih =>
    obtain ⟨s₁, hint, htime, hsame⟩ :=
      hs.integrate_forward (List.rel_of_pairwise_cons hsorted List.mem_cons_self)
    rw [follow, hint]
    exact ih (hs.continues hsame) (htime.symm ▸ hsorted.of_cons)

end Times

end Startup

end DiffGraph
