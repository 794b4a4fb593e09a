import Mathlib
import DiffGraph.Integrate.Startup
import DiffGraph.Proofs.Derivative.Seeds
import DiffGraph.Proofs.Failure
import DiffGraph.Proofs.Term.Compile

/-!
# What an explicit integrator keeps

A step keeps the number of states, since the rates have as many entries (`Method.length_of_step`),
and the rates of a compiled function are never a misuse (`Startup.noMisuse_rate`). So an
integrator keeps its problem and the number of states over every call (`Startup.integrate_spec`).
The count of its steps does not matter: integrators that differ in it alone go through the same
states (`Startup.integrate_withSteps`).
-/

namespace DiffGraph

open Expr

variable {α : Type} [OrderedScalar α]

/-! ## Steps -/

namespace Method

variable {ε : Type} {rate : Rate α ε}

theorem length_axpy (c : α → α) {x k : List α} (h : k.length = x.length) :
    (axpy c x k).length = x.length := by
  rw [axpy, List.length_zipWith, h, Nat.min_self]

theorem length_weighted {terms : List (α × List α)} {k : Nat} (hne : terms ≠ [])
    (h : ∀ s ∈ terms, s.2.length = k) : (weighted terms).length = k := by
  cases terms with
  | nil => exact absurd rfl hne
  | cons first rest =>
    obtain ⟨hfirst, hrest⟩ := List.forall_mem_cons.1 h
    have hfold (total : List α) (htotal : total.length = k) : (rest.foldl (fun total s =>
        List.zipWith (fun t x => t + s.1 * x) total s.2) total).length = k := by
      induction rest generalizing total with
      | nil => exact htotal
      | cons s rest ih =>
        obtain ⟨hs, hrest⟩ := List.forall_mem_cons.1 hrest
        refine ih (by simp) (fun s hs => h s ?_) hrest _ ?_
        · exact (List.mem_cons.1 hs).elim (fun heq => heq ▸ List.mem_cons_self)
            fun hmem => List.mem_cons_of_mem _ (List.mem_cons_of_mem _ hmem)
        · rw [List.length_zipWith, htotal, hs, Nat.min_self]
    exact hfold _ (by rw [List.length_map, hfirst])

def KeepsLength (rate : Rate α ε) : Prop :=
  ∀ t x k, rate t x = .ok k → k.length = x.length

theorem length_of_stepRk4 (h : KeepsLength rate) {t dt : α} {x y : List α}
    (hy : stepRk4 rate t x dt = .ok y) : y.length = x.length := by
  obtain ⟨k₁, hk₁, hy⟩ := ok_of_bind hy
  obtain ⟨k₂, hk₂, hy⟩ := ok_of_bind hy
  obtain ⟨k₃, hk₃, hy⟩ := ok_of_bind hy
  obtain ⟨k₄, hk₄, hy⟩ := ok_of_bind hy
  have h₁ := h _ _ _ hk₁
  have h₂ := (h _ _ _ hk₂).trans (length_axpy _ h₁)
  have h₃ := (h _ _ _ hk₃).trans (length_axpy _ h₂)
  have h₄ := (h _ _ _ hk₄).trans (length_axpy _ h₃)
  rw [← Except.ok.inj hy]
  refine length_axpy _ ?_
  simp [h₁, h₂, h₃, h₄]

theorem length_of_stageSlopes (h : KeepsLength rate) {t dt : α} {x : List α}
    {stages : List (Stage α)} {done slopes : List (List α)} (hne : done ≠ [])
    (hweights : ∀ s ∈ stages, s.weights ≠ []) (hdone : ∀ k ∈ done, k.length = x.length)
    (hslopes : stageSlopes rate t x dt stages done = .ok slopes) :
    slopes ≠ [] ∧ ∀ k ∈ slopes, k.length = x.length := by
  induction stages generalizing done with
  | nil => exact Except.ok.inj hslopes ▸ ⟨hne, hdone⟩
  | cons stage stages ih =>
    obtain ⟨hstage, hweights⟩ := List.forall_mem_cons.1 hweights
    obtain ⟨k, hk, hslopes⟩ := ok_of_bind hslopes
    have hzip : stage.weights.zip done ≠ [] := by simp [List.zip_eq_nil_iff, hstage, hne]
    have hsum := length_weighted hzip fun s hs => hdone s.2 (List.of_mem_zip hs).2
    have hlen := (h _ _ _ hk).trans (length_axpy _ hsum)
    refine ih (by simp) hweights (fun k' hk' => ?_) hslopes
    rcases List.mem_append.1 hk' with hk' | hk'
    · exact hdone k' hk'
    · exact List.mem_singleton.1 hk' ▸ hlen

theorem length_of_stepTsit5 (h : KeepsLength rate) {t dt : α} {x y : List α}
    (hy : stepTsit5 rate t x dt = .ok y) : y.length = x.length := by
  obtain ⟨k, hk, hy⟩ := ok_of_bind hy
  obtain ⟨slopes, hslopes, hy⟩ := ok_of_bind hy
  obtain ⟨hne, hlen⟩ := length_of_stageSlopes h (List.cons_ne_nil k [])
    (by simp [tsit5Stages]) (by simpa using h _ _ _ hk) hslopes
  have hzip : (tsit5Weights (α := α)).zip slopes ≠ [] := by
    simp [List.zip_eq_nil_iff, tsit5Weights, hne]
  rw [← Except.ok.inj hy]
  exact length_axpy _ (length_weighted hzip fun s hs => hlen s.2 (List.of_mem_zip hs).2)

theorem length_of_step (h : KeepsLength rate) {m : Method} {t dt : α} {x y : List α}
    (hy : m.step rate t x dt = .ok y) : y.length = x.length := by
  cases m with
  | rk4 => exact length_of_stepRk4 h hy
  | tsit5 => exact length_of_stepTsit5 h hy

theorem noMisuse_stageSlopes {rate : Rate α (Failure α)} (h : ∀ t x, NoMisuse (rate t x))
    (t : α) (x : List α) (dt : α) (stages : List (Stage α)) (done : List (List α)) :
    NoMisuse (stageSlopes rate t x dt stages done) := by
  induction stages generalizing done with
  | nil => exact .ok done
  | cons stage stages ih => exact (h _ _).bind fun k _ => ih _

theorem noMisuse_step {rate : Rate α (Failure α)} (h : ∀ t x, NoMisuse (rate t x)) (m : Method)
    (t : α) (x : List α) (dt : α) : NoMisuse (m.step rate t x dt) := by
  cases m with
  | rk4 =>
    refine (h _ _).bind fun k₁ _ => (h _ _).bind fun k₂ _ => (h _ _).bind fun k₃ _ => ?_
    exact (h _ _).bind fun k₄ _ => .ok _
  | tsit5 =>
    exact (h _ _).bind fun k _ => (noMisuse_stageSlopes h _ _ _ _ _).bind fun slopes _ => .ok _

end Method

namespace Startup

/-! ## Rates -/

structure IsRate (f : Function α) : Prop where
  compiled : ∃ n S, IsGraph n S ∧ f.Compiled S
  rates : ∃ x o, f.inputs[0]? = some x ∧ f.outputs[0]? = some o ∧ o.nnz = x.nnz

theorem keepsLength_rate (f : Function α) (p : List α) : Method.KeepsLength (rate f p) := by
  intro t x k h
  unfold rate at h
  split at h
  · cases h
  · split at h
    · split at h
      · rename_i hlen
        exact Except.ok.inj h ▸ hlen
      · cases h
    · cases h

theorem exists_rate {f : Function α} (hf : IsRate f) {p x : List α} {t : α}
    (hargs : [x, p, [t]].map List.length = f.inputs.map nnz) : ∃ k, rate f p t x = .ok k := by
  obtain ⟨n, S, hS, hcompiled⟩ := hf.compiled
  obtain ⟨ex, o, hx, ho, hnnz⟩ := hf.rates
  obtain ⟨hgraph, slot, hlayout⟩ := hcompiled.exists_layout hS
  have hlen : x.length = ex.nnz := by
    have hhead := congrArg (·[0]?) hargs
    simpa [hx] using hhead
  have hout : (nonzeros (Function.assign f.inputs [x, p, [t]]) o).length = o.nnz :=
    hS.length_nonzeros (hcompiled.outputs o (List.mem_of_getElem? ho)).1
  unfold rate Function.evaluate
  rw [Function.run_eq hlayout hgraph hargs]
  dsimp only [pure, ExceptT.pure, ExceptT.mk]
  rw [List.getElem?_map, ho]
  dsimp only [Option.map_some]
  rw [if_pos (hout.trans (hnnz.trans hlen.symm))]
  exact ⟨_, rfl⟩

theorem noMisuse_rate {f : Function α} (hf : IsRate f) (p : List α) (t : α) (x : List α) :
    NoMisuse (rate f p t x) := by
  by_cases hargs : [x, p, [t]].map List.length = f.inputs.map nnz
  · obtain ⟨k, hk⟩ := exists_rate hf hargs
    rw [hk]
    exact .ok _
  · obtain ⟨e, he, hne⟩ := TermFunction.checkCounts_eq_error hargs
    rw [← TermFunction.function_checkLengths_eq] at he
    unfold rate Function.evaluate Function.run
    rw [he]
    refine .error ?_
    cases e with
    | misuse => exact absurd rfl hne
    | _ => rfl

/-! ## Calls -/

variable {s s' : Startup α}

/-- Two states of an integrator: only the time, the states and the parameters may differ. -/
structure SameSetup (s s' : Startup α) : Prop where
  name : s'.name = s.name
  method : s'.method = s.method
  f : s'.f = s.f
  options : s'.options = s.options
  states : s'.x.length = s.x.length

omit [OrderedScalar α] in
theorem SameSetup.refl (s : Startup α) : s.SameSetup s :=
  ⟨rfl, rfl, rfl, rfl, rfl⟩

omit [OrderedScalar α] in
theorem SameSetup.trans {s₁ s₂ s₃ : Startup α} (h : s₁.SameSetup s₂) (h' : s₂.SameSetup s₃) :
    s₁.SameSetup s₃ :=
  ⟨h'.name.trans h.name, h'.method.trans h.method, h'.f.trans h.f, h'.options.trans h.options,
    h'.states.trans h.states⟩

theorem advance_spec (hs : IsRate s.f) (dt : α) (n : Nat) :
    s.SameSetup (s.advance dt n).1 ∧ NoMisuse (s.advance dt n).2 := by
  induction n generalizing s with
  | zero => exact ⟨.refl s, .ok ()⟩
  | succ n ih =>
    have hrate := Method.noMisuse_step (fun t x => noMisuse_rate hs s.p t x) s.method s.t s.x dt
    unfold advance
    cases hstep : s.method.step (rate s.f s.p) s.t s.x dt with
    | error e => exact ⟨.refl s, .error (hrate e hstep)⟩
    | ok x =>
      have hnext : s.SameSetup { s with t := s.t + dt, x } :=
        ⟨rfl, rfl, rfl, rfl, Method.length_of_step (keepsLength_rate s.f s.p) hstep⟩
      obtain ⟨hsame, hmisuse⟩ := ih (s := { s with t := s.t + dt, x }) hs
      exact ⟨hnext.trans hsame, hmisuse⟩

/-- Whether it gets there or not, an integrator keeps its problem and the number of states. -/
theorem integrate_spec (hs : IsRate s.f) (t : α) :
    s.SameSetup (s.integrate t).1 ∧ NoMisuse (s.integrate t).2 := by
  unfold integrate
  dsimp only
  split
  · exact ⟨.refl s, .error rfl⟩
  split
  · exact ⟨.refl s, .ok ()⟩
  obtain ⟨hsame, hmisuse⟩ := advance_spec hs ((t - s.t) /
    OrderedScalar.ofNat (stepCount (t - s.t) s.options.maxStep))
    (stepCount (t - s.t) s.options.maxStep)
  split
  · rename_i s₁ e he
    rw [he] at hsame hmisuse
    exact ⟨hsame, .error (hmisuse e rfl)⟩
  · rename_i s₁ he
    rw [he] at hsame
    exact ⟨⟨hsame.name, hsame.method, hsame.f, hsame.options, hsame.states⟩, .ok ()⟩

theorem advance_withSteps (s : Startup α) (k : Nat) (dt : α) (n : Nat) :
    ({ s with steps := k }).advance dt n =
      ({ (s.advance dt n).1 with steps := k }, (s.advance dt n).2) := by
  induction n generalizing s with
  | zero => rfl
  | succ n ih =>
    unfold advance
    cases s.method.step (rate s.f s.p) s.t s.x dt with
    | error e => rfl
    | ok x => exact ih { s with t := s.t + dt, x }

theorem integrate_withSteps (s : Startup α) (k : Nat) (t : α) : ∃ k',
    ({ s with steps := k }).integrate t =
      ({ (s.integrate t).1 with steps := k' }, (s.integrate t).2) := by
  unfold integrate
  dsimp only
  split
  · exact ⟨k, rfl⟩
  split
  · exact ⟨k, rfl⟩
  rw [advance_withSteps]
  rcases s.advance ((t - s.t) / OrderedScalar.ofNat (stepCount (t - s.t) s.options.maxStep))
    (stepCount (t - s.t) s.options.maxStep) with ⟨s₁, e | u⟩
  · exact ⟨k, rfl⟩
  · exact ⟨k + stepCount (t - s.t) s.options.maxStep, rfl⟩

omit [OrderedScalar α] in
theorem reset_spec (s : Startup α) (t0 : α) (inputs : List (List α)) :
    NoMisuse (s.reset t0 inputs) ∧ ∀ s', s.reset t0 inputs = .ok s' → s.SameSetup s' := by
  unfold reset
  split
  · split
    · exact ⟨.error rfl, nofun⟩
    · rename_i hlen
      refine ⟨.ok _, fun s' hs' => ?_⟩
      obtain rfl := Except.ok.inj hs'
      exact ⟨rfl, rfl, rfl, rfl, not_not.1 hlen⟩
  · exact ⟨.error rfl, nofun⟩

omit [OrderedScalar α] in
/-- Restarted, integrators for one problem differ in the count of their steps alone. -/
theorem reset_eq (h : s.SameSetup s') (t0 : α) (inputs : List (List α)) :
    s'.reset t0 inputs = (s.reset t0 inputs).map fun r => { r with steps := s'.steps } := by
  obtain ⟨name, method, f, options, t, x, p, steps⟩ := s
  obtain ⟨rfl, rfl, rfl, rfl, hx⟩ := h
  unfold reset
  dsimp only
  rw [hx]
  split
  · split
    · rfl
    · rfl
  · rfl

theorem create_spec {name : String} {method : Method} {f : Function α} {options : StartupOptions α}
    {n : Nat} {S : Set (Expr α)} (hS : IsGraph n S) (hf : f.Compiled S)
    (h : create name method f options = .ok s) :
    s.f = f ∧ IsRate f ∧ ∃ x, f.inputs[0]? = some x ∧ s.x.length = x.nnz := by
  obtain ⟨states, hstates, h⟩ := ok_of_bind h
  obtain ⟨-, h⟩ := ok_of_guard h
  unfold dimension Function.inputPattern? at hstates
  unfold Function.outputPattern? at h
  cases hx : f.inputs[0]? with
  | none => simp [hx] at hstates
  | some x =>
    obtain rfl : x.pattern.nnz = states := by simpa [hx] using hstates
    cases ho : f.outputs[0]? with
    | none =>
      rw [ho] at h
      cases h
    | some o =>
      rw [ho] at h
      obtain ⟨hrates, h⟩ := ok_of_guard h
      obtain ⟨-, h⟩ := ok_of_guard h
      obtain rfl := Except.ok.inj h
      refine ⟨rfl, ⟨⟨n, S, hS, hf⟩, x, o, hx, ho, not_not.1 hrates⟩, x, rfl, ?_⟩
      exact List.length_replicate

end Startup

end DiffGraph
