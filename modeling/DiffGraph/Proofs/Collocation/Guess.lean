import Mathlib
import DiffGraph.Proofs.Collocation.History

/-!
# Guesses

With a hot start the guess is the root of the last solve that converged. Otherwise it is made
anew: without a startup integrator from the initial states alone, with one only the forward
states are, and the backward states are left over from earlier solves (`guess_of_history`).
-/

namespace DiffGraph

namespace Collocation

variable {α : Type} [OrderedScalar α] {c c₀ : Collocation α} {inputs : List (List α)}
  {seeds : List (List (List α))}

/-! ## Making a guess -/

/-- The guess that the startup integrator makes over the unknowns. -/
def startedGuess (c : Collocation α) (s : Startup α) (inputs : List (List α)) :
    Except (Failure α) (List α) :=
  match s.reset c.options.t0 inputs with
  | .error e => .error e
  | .ok s =>
    match c.startupGuess c.times s c.bwd.nrx c.unknowns with
    | (_, v, .ok ()) => .ok v
    | (_, _, .error e) => .error e

theorem SameProblem.startedGuess_eq {c' : Collocation α} (h : c.SameProblem c')
    (hunknowns : c'.unknowns = c.unknowns) (s : Startup α) (inputs : List (List α)) :
    c'.startedGuess s inputs = c.startedGuess s inputs := by
  unfold startedGuess
  rw [h.options, h.times, h.bwd, hunknowns]
  cases s.reset c.options.t0 inputs with
  | error e => rfl
  | ok s₁ =>
    dsimp only
    rw [h.startupGuess_eq]

theorem initializeGuess_spec {r : List α} {rest : List (List α)}
    (houtputs : c.solver.outputs = r :: rest) :
    (match c.initializeGuess with
      | (c, .ok ()) => .ok c.unknowns
      | (_, .error e) => .error e : Except (Failure α) (List α)) =
    match c.startup with
    | none => c.constantGuess (c.inputs[0]?.getD []) (c.inputs[2]?.getD []) c.unknowns
    | some s => c.startedGuess s c.inputs := by
  have hset (v : List α) : (c.solver.setGuess v).outputs.headD [] = v := by
    rw [Newton.setGuess, houtputs]
    rfl
  unfold initializeGuess
  cases c.startup with
  | none =>
    dsimp only
    cases c.constantGuess (c.inputs[0]?.getD []) (c.inputs[2]?.getD []) c.unknowns with
    | error e => rfl
    | ok v => exact congrArg Except.ok (hset v)
  | some s =>
    dsimp only
    unfold startedGuess
    cases s.reset c.options.t0 c.inputs with
    | error e => rfl
    | ok s₁ =>
      dsimp only
      rcases c.startupGuess c.times s₁ c.bwd.nrx c.unknowns with ⟨s₂, v, e | u⟩
      · rfl
      · exact congrArg Except.ok (hset v)

/-- The guess by the ways to make it. -/
theorem Sound.guess_eq (hc : c.Sound) (inputs : List (List α)) (seeds : List (List (List α))) :
    c.guess inputs seeds =
      if c.options.hotstart && c.integratedOnce then .ok c.unknowns
      else match c.startup with
        | none => c.constantGuess (inputs[0]?.getD []) (inputs[2]?.getD []) c.unknowns
        | some s => c.startedGuess s inputs := by
  obtain ⟨r, rest, houtputs, -⟩ := Newton.exists_head hc.system.square hc.solver.outputs
  have hsame : c.SameProblem (c.loaded inputs seeds) := { SameProblem.refl c with }
  unfold guess Collocation.prepare
  by_cases hhot : (c.options.hotstart && c.integratedOnce) = true
  · rw [if_pos hhot, if_pos hhot]
    rfl
  · rw [if_neg hhot, if_neg hhot]
    refine (initializeGuess_spec (c := c.loaded inputs seeds) houtputs).trans ?_
    show (match c.startup with
      | none => _
      | some s => _) = _
    cases c.startup with
    | none => rfl
    | some s => exact hsame.startedGuess_eq rfl s inputs

/-! ## Guesses of two states -/

/-- The guesses that the startup integrator makes over different unknowns: both fail alike, or they
have the same forward states and keep the backward states. -/
theorem Sound.startedGuess_congr {s s₀ : Startup α} (hc₀ : c₀.Sound) (hc : c.Sound)
    (hsame : c₀.SameProblem c) (hs₀ : c₀.startup = some s₀) (hstartup : s₀.SameSetup s)
    (inputs : List (List α)) :
    match c₀.startedGuess s₀ inputs, c.startedGuess s inputs with
    | .error e₀, .error e => e = e₀
    | .ok v₀, .ok v => v₀.length = c₀.unknownCount ∧ v.length = c₀.unknownCount ∧
      ∀ i, (c₀.IsForward i → v[i]? = v₀[i]?) ∧ (¬ c₀.IsForward i → v[i]? = c.unknowns[i]?)
    | _, _ => False := by
  obtain ⟨hrate, hx⟩ := hc₀.startup s₀ hs₀
  unfold startedGuess
  rw [hsame.options, Startup.reset_eq hstartup]
  cases hreset : s₀.reset c₀.options.t0 inputs with
  | error e => rfl
  | ok s₁ =>
    have hrestart := (s₀.reset_spec c₀.options.t0 inputs).2 s₁ hreset
    have hlen₀ := hc₀.system.length_unknowns hc₀.solver
    have hlen := (hc.system.length_unknowns hc.solver).trans hsame.unknownCount_eq
    dsimp only [Except.map]
    rw [hsame.times, hsame.bwd, hsame.startupGuess_eq]
    have hrate₁ : Startup.IsRate s₁.f := hrestart.f ▸ hrate
    have hx₁ := hrestart.states.trans hx
    have hsize := hc₀.system.blockSize_pos
    have hcover : c₀.unknownCount = (0 + c₀.times.length) * c₀.blockSize := by
      rw [Nat.zero_add, unknownCount]
    obtain ⟨hresult, hforward⟩ := startupGuess_congr hsize s.steps (j := 0) hrate₁ hx₁
      (hlen₀.trans hcover) (hlen.trans hlen₀.symm) (by simp)
    obtain ⟨-, hguess₀, -, -⟩ := startupGuess_spec hsize (j := 0) hrate₁ hx₁ (hlen₀.trans hcover)
    obtain ⟨-, hguess, -, hbackward⟩ := startupGuess_spec hsize (j := 0)
      (s := { s₁ with steps := s.steps }) hrate₁ hx₁ (hlen.trans hcover)
    rw [Nat.zero_mul, Nat.zero_add] at hresult hforward hguess₀ hguess hbackward
    generalize c₀.startupGuess c₀.times s₁ c₀.bwd.nrx c₀.unknowns = run₀ at *
    generalize c₀.startupGuess c₀.times { s₁ with steps := s.steps } c₀.bwd.nrx
      c.unknowns = run at *
    obtain ⟨s₂, v₀, result₀⟩ := run₀
    obtain ⟨s₃, v, result⟩ := run
    obtain rfl : result = result₀ := hresult
    cases result with
    | error e => rfl
    | ok u =>
      exact ⟨hguess₀.trans hlen₀, hguess.trans hlen, fun i => ⟨hforward rfl i, hbackward i⟩⟩

theorem Sound.startedGuess_eq_of_forward {s s₀ : Startup α} (hc₀ : c₀.Sound) (hc : c.Sound)
    (hsame : c₀.SameProblem c) (hs₀ : c₀.startup = some s₀) (hstartup : s₀.SameSetup s)
    (inputs : List (List α)) (hforward : ∀ i, c₀.IsForward i) :
    c.startedGuess s inputs = c₀.startedGuess s₀ inputs := by
  have hguess := hc₀.startedGuess_congr hc hsame hs₀ hstartup inputs
  rcases hfresh : c₀.startedGuess s₀ inputs with e₀ | v₀ <;>
    rcases hagain : c.startedGuess s inputs with e | v <;> rw [hfresh, hagain] at hguess
  · exact congrArg Except.error hguess
  · exact hguess.elim
  · exact hguess.elim
  · exact congrArg Except.ok (List.ext_getElem? fun i => (hguess.2.2 i).1 (hforward i))

/-! ## Roots -/

/-- The root that the iteration of a call reaches, if it does. -/
def root? (c : Collocation α) : Call α → Option (List α)
  | .reset inputs seeds =>
    if (c.refusal? inputs seeds).isNone then
      match c.prepare inputs seeds with
      | (c, .ok ()) => c.solver.solve.2.toOption
      | (_, .error _) => none
    else none
  | .integrate _ => none

def lastRoot? (c : Collocation α) : List (Call α) → Option (List α)
  | [] => none
  | call :: calls => ((c.call call).1.lastRoot? calls).or (c.root? call)

/-- One of the calls is a reset that succeeded. -/
def Succeeded (c : Collocation α) (calls : List (Call α)) : Prop :=
  ∃ before inputs seeds later, calls = before ++ .reset inputs seeds :: later ∧
    ((c.after before).reset inputs seeds).2 = .ok ()

/-- What a solve leaves in the unknowns: the root, or what it started from. -/
theorem Sound.unknowns_solve (hc : c.Sound) (hinputs : c.Accepts inputs)
    (hseeds : ∀ s ∈ seeds, c.Accepts s) {p : Collocation α}
    (hprep : c.prepare inputs seeds = (p, .ok ())) :
    match p.solver.solve.2 with
    | .error _ => (c.solve inputs seeds).1.unknowns = p.unknowns ∧
      (c.solve inputs seeds).2 ≠ .ok ()
    | .ok x => (c.solve inputs seeds).1.unknowns = x := by
  obtain ⟨hprepared, -⟩ := hc.prepare hinputs hseeds
  rw [hprep] at hprepared
  have hp : p.Sound := hprepared.sound hc
  obtain ⟨h⟩ := hp.system.compiled.exists_semantics
  have hout := Newton.outputs_evaluate h hp.system.square hp.solver seeds.length
  have hleft : (c.solve inputs seeds).1.unknowns =
      (p.solver.evaluate seeds.length).1.outputs.headD [] := by
    rw [solve_eq, hprep]
    dsimp only
    rcases p.solver.evaluate seeds.length with ⟨solver, e | u⟩
    · rfl
    · rfl
  rw [hleft]
  cases hroot : p.solver.solve.2 with
  | error e =>
    rw [hroot] at hout
    refine ⟨by rw [hout.1]; rfl, ?_⟩
    rw [solve_eq, hprep]
    dsimp only
    rw [hout.2]
    exact fun h => by cases h
  | ok x =>
    rw [hroot] at hout
    exact hout

/-- A solve that fails is not remembered as a success. -/
theorem Sound.once_solve (hc : c.Sound) (hinputs : c.Accepts inputs)
    (hseeds : ∀ s ∈ seeds, c.Accepts s) (hfail : (c.solve inputs seeds).2 ≠ .ok ()) :
    (c.solve inputs seeds).1.integratedOnce = c.integratedOnce := by
  obtain ⟨-, -, -, hfound⟩ := hc.solve hinputs hseeds
  cases hsol : c.solution inputs seeds with
  | error e =>
    rw [hsol] at hfound
    exact hfound.2.2
  | ok sol =>
    rw [hsol] at hfound
    exact absurd hfound.1 hfail

/-- A call leaves the root that it reaches in the unknowns; if it may start from the last solution
and reaches none, it leaves them alone. A reset that succeeds reaches a root. -/
theorem Sound.root_call (hc : c.Sound) (call : Call α) :
    (∀ v, c.root? call = some v → (c.call call).1.unknowns = v) ∧
    (c.root? call = none →
      ((c.options.hotstart && c.integratedOnce) = true → (c.call call).1.unknowns = c.unknowns) ∧
      (c.call call).1.integratedOnce = c.integratedOnce) := by
  cases call with
  | integrate t =>
    refine ⟨fun v hv => (by cases hv), fun _ => ?_⟩
    rcases c.call_integrate_cases t with ⟨e, he, -⟩ | hok
    · rw [he]
      exact ⟨fun _ => rfl, rfl⟩
    · rw [hok]
      exact ⟨fun _ => rfl, rfl⟩
  | reset inputs seeds =>
    rw [call_reset, root?]
    cases hrefusal : c.refusal? inputs seeds with
    | some e => exact ⟨by simp, fun _ => ⟨fun _ => rfl, rfl⟩⟩
    | none =>
      obtain ⟨hinputs, hseeds⟩ := (c.refusal?_spec inputs seeds).1.1 hrefusal
      dsimp only [Option.isNone_none, if_true]
      rcases hprep : c.prepare inputs seeds with ⟨p, e | u⟩
      · refine ⟨by simp, fun _ => ⟨fun hhot => ?_, ?_⟩⟩
        · rw [Collocation.prepare, if_pos hhot] at hprep
          cases hprep
        · refine hc.once_solve hinputs hseeds ?_
          rw [solve_eq, hprep]
          exact fun h => by cases h
      · have hroot := hc.unknowns_solve hinputs hseeds hprep
        dsimp only
        cases hsolve : p.solver.solve.2 with
        | error e =>
          rw [hsolve] at hroot
          refine ⟨fun v hv => (by cases hv), fun _ =>
            ⟨fun hhot => ?_, hc.once_solve hinputs hseeds hroot.2⟩⟩
          rw [Collocation.prepare, if_pos hhot] at hprep
          obtain ⟨rfl, -⟩ := Prod.mk.inj hprep
          exact hroot.1
        | ok x =>
          rw [hsolve] at hroot
          refine ⟨fun v hv => ?_, fun hnone => (by cases hnone)⟩
          exact hroot.trans (Option.some.inj hv)

/-- With a hot start and a solution before, the unknowns are the last root over a whole history. -/
theorem Sound.lastRoot?_eq (hc : c.Sound) {last : Option (List α)}
    (h : (c.options.hotstart && c.integratedOnce) = true → last = some c.unknowns)
    (calls : List (Call α))
    (hhot : ((c.after calls).options.hotstart && (c.after calls).integratedOnce) = true) :
    (c.lastRoot? calls).or last = some (c.after calls).unknowns := by
  induction calls generalizing c last with
  | nil => exact h hhot
  | cons call calls ih =>
    obtain ⟨hreached, hmissed⟩ := hc.root_call call
    obtain ⟨hsound, hsame, -⟩ := hc.call call
    rw [lastRoot?, Option.or_assoc]
    refine ih hsound (fun hnext => ?_) hhot
    cases hroot : c.root? call with
    | some v => exact congrArg some (hreached v hroot).symm
    | none =>
      obtain ⟨hunknowns, honce⟩ := hmissed hroot
      rw [hsame.options, honce] at hnext
      exact (h hnext).trans (congrArg some (hunknowns hnext).symm)

theorem Sound.once_call (hc : c.Sound) (call : Call α) : (c.call call).1.integratedOnce = true ↔
    c.integratedOnce = true ∨
      ∃ inputs seeds, call = .reset inputs seeds ∧ (c.reset inputs seeds).2 = .ok () := by
  cases call with
  | integrate t =>
    have hkeeps : (c.call (.integrate t)).1.integratedOnce = c.integratedOnce := by
      rcases c.call_integrate_cases t with ⟨e, he, -⟩ | hok
      · rw [he]
      · rw [hok]
        rfl
    rw [hkeeps]
    exact ⟨.inl, fun h => h.resolve_right (by simp)⟩
  | reset inputs seeds =>
    have hcall : c.call (.reset inputs seeds) = c.reset inputs seeds := rfl
    have hreset := c.call_reset inputs seeds
    have hexists : (∃ inputs' seeds', Call.reset inputs seeds = .reset inputs' seeds' ∧
        (c.reset inputs' seeds').2 = .ok ()) ↔ (c.call (.reset inputs seeds)).2 = .ok () := by
      rw [hcall]
      exact ⟨fun ⟨_, _, heq, h⟩ => by cases heq; exact h, fun h => ⟨inputs, seeds, rfl, h⟩⟩
    rw [hexists, hreset]
    cases hrefusal : c.refusal? inputs seeds with
    | some e => simp
    | none =>
      obtain ⟨hinputs, hseeds⟩ := (c.refusal?_spec inputs seeds).1.1 hrefusal
      obtain ⟨-, -, -, hfound⟩ := hc.solve hinputs hseeds
      dsimp only
      cases hsol : c.solution inputs seeds with
      | error e =>
        rw [hsol] at hfound
        rw [hfound.1, hfound.2.2]
        simp
      | ok sol =>
        rw [hsol] at hfound
        simp [hfound.1, hfound.2.1.once]

theorem Sound.once_after (hc : c.Sound) (calls : List (Call α)) :
    (c.after calls).integratedOnce = true ↔ c.integratedOnce = true ∨ c.Succeeded calls := by
  induction calls generalizing c with
  | nil =>
    refine ⟨.inl, fun h => h.resolve_right ?_⟩
    rintro ⟨before, inputs, seeds, later, h, -⟩
    simp at h
  | cons call calls ih =>
    have hsplit : c.Succeeded (call :: calls) ↔
        (∃ inputs seeds, call = .reset inputs seeds ∧ (c.reset inputs seeds).2 = .ok ()) ∨
          (c.call call).1.Succeeded calls := by
      constructor
      · rintro ⟨before, inputs, seeds, later, heq, hok⟩
        cases before with
        | nil =>
          obtain ⟨rfl, rfl⟩ := List.cons.inj heq
          exact .inl ⟨inputs, seeds, rfl, hok⟩
        | cons first before =>
          obtain ⟨rfl, rfl⟩ := List.cons.inj heq
          exact .inr ⟨before, inputs, seeds, later, rfl, hok⟩
      · rintro (⟨inputs, seeds, rfl, hok⟩ | ⟨before, inputs, seeds, later, rfl, hok⟩)
        · exact ⟨[], inputs, seeds, calls, rfl, hok⟩
        · exact ⟨call :: before, inputs, seeds, later, rfl, hok⟩
    rw [hsplit, ← or_assoc, ← hc.once_call call]
    exact ih (hc.call call).1

/-- With a hot start and an earlier success the guess is the root of the last solve that converged.
Otherwise it is the guess of a new integrator for the inputs, if that repeats the initial states
or there are no backward states; what a startup integrator leaves out are the backward states,
which are those in the unknowns. -/
theorem guess_of_history {n n' : Nat} {S : Set (Expr α)} {f : Function α} {g : Option (Function α)}
    {options : CollocationOptions α} (hS : IsGraph n S) (hf : f.Compiled S)
    (hg : ∀ g', g = some g' → g'.Compiled S) (h : create f g options n = .ok (c₀, n'))
    (calls : List (Call α)) (inputs : List (List α)) (seeds : List (List (List α))) :
    let c := c₀.after calls
    (options.hotstart = true ∧ c₀.Succeeded calls →
      ∃ v, c₀.lastRoot? calls = some v ∧ c.guess inputs seeds = .ok v) ∧
    (¬ (options.hotstart = true ∧ c₀.Succeeded calls) →
      (c₀.startup = none ∨ c₀.bwd.nrx = 0 → c.guess inputs seeds = c₀.guess inputs []) ∧
      (c₀.startup ≠ none → match c₀.guess inputs [], c.guess inputs seeds with
        | .error e₀, .error e => e = e₀
        | .ok v₀, .ok v => v₀.length = c₀.unknownCount ∧ v.length = c₀.unknownCount ∧
          ∀ i, (c₀.IsForward i → v[i]? = v₀[i]?) ∧ (¬ c₀.IsForward i → v[i]? = c.unknowns[i]?)
        | _, _ => False)) := by
  intro c
  obtain ⟨hsound₀, -, honce₀, hoptions⟩ := sound_of_create hS hf hg h
  obtain ⟨hsound, hsame⟩ := hsound₀.after calls
  have hhot : (c.options.hotstart && c.integratedOnce) = true ↔
      options.hotstart = true ∧ c₀.Succeeded calls := by
    rw [Bool.and_eq_true, hsame.options, hoptions, hsound₀.once_after calls, honce₀]
    simp
  rw [← hhot, hsound.guess_eq, hsound₀.guess_eq, honce₀, Bool.and_false]
  constructor
  · intro hstart
    have hnew : (c₀.options.hotstart && c₀.integratedOnce) = true → none = some c₀.unknowns := by
      simp [honce₀]
    have hroot := hsound₀.lastRoot?_eq hnew calls hstart
    rw [Option.or_none] at hroot
    exact ⟨_, hroot, if_pos hstart⟩
  · intro hstart
    rw [if_neg hstart, if_neg Bool.false_ne_true]
    have hstartup := hsame.startup
    generalize hs₀ : c₀.startup = s₀, hs : (c₀.after calls).startup = s at hstartup
    cases hstartup with
    | none =>
      refine ⟨fun _ => ?_, fun h => absurd rfl h⟩
      have hlen : c.unknowns.length = c₀.unknowns.length := by
        rw [hsound.system.length_unknowns hsound.solver,
          hsound₀.system.length_unknowns hsound₀.solver, hsame.unknownCount_eq]
      exact (hsame.constantGuess_eq _ _ _).trans (c₀.constantGuess_congr _ _ hlen)
    | @some s₀ s hstartup =>
      refine ⟨fun hnone => ?_,
        fun _ => hsound₀.startedGuess_congr hsound hsame hs₀ hstartup inputs⟩
      have hforward (i : Nat) : c₀.IsForward i :=
        (hnone.resolve_left (by simp)).trans_le (Nat.zero_le _)
      exact hsound₀.startedGuess_eq_of_forward hsound hsame hs₀ hstartup inputs hforward

/-- The next solve starts from the last solution, whatever it is for: after decay to one half, and
after states that stay as they are over two elements and in both directions. -/
theorem guess_of_history_growth :
    (∃ c₀ n', create Growth.problem none Growth.setup 5 = .ok (c₀, n') ∧
      (c₀.after [.reset [[1], [-1], [], []] []]).guess [[2], [1], [], []] [] =
        .ok [1 / 2, 1 / 2]) ∧
    ∃ c₀ n', create Growth.problem (some Growth.backward) Growth.twoElements 8 = .ok (c₀, n') ∧
      (c₀.after [.reset [[2], [0], [1], [0]] []]).guess [[3], [1], [4], [1]] [] =
        .ok [1, 2, 1, 2, 1, 2, 1, 2] := by
  have hwarm {n : Nat} {S : Set (Expr Rat)} {g : Option (Function Rat)}
      {options : CollocationOptions Rat} {inputs : List (List Rat)} {v : List Rat}
      (hS : IsGraph n S) (hf : Growth.problem.Compiled S)
      (hg : ∀ g', g = some g' → g'.Compiled S) (hhot : options.hotstart = true)
      (hprobe : probe Growth.problem g options n (fun c =>
        (c.reset inputs []).2.toOption.bind fun _ => c.lastRoot? [.reset inputs []]) = some v)
      (next : List (List Rat)) :
      ∃ c₀ n', create Growth.problem g options n = .ok (c₀, n') ∧
        (c₀.after [.reset inputs []]).guess next [] = .ok v := by
    obtain ⟨c₀, n', hcreate, hask⟩ := exists_of_probe hprobe
    obtain ⟨u, hreset, hroot⟩ := Option.bind_eq_some_iff.1 hask
    obtain ⟨v', hv, hguess⟩ := (guess_of_history hS hf hg hcreate [.reset inputs []] next []).1
      ⟨hhot, [], _, _, [], rfl, ok_of_toOption hreset⟩
    obtain rfl := Option.some.inj (hv.symm.trans hroot)
    exact ⟨c₀, n', hcreate, hguess⟩
  obtain ⟨_, hS, hf⟩ := Growth.exists_compiled
  obtain ⟨_, hS', hf', hg'⟩ := Growth.exists_compiled_backward
  exact ⟨hwarm hS hf (by simp) rfl (by cbv) _,
    hwarm hS' hf' (by rintro _ ⟨⟩; exact hg') rfl (by cbv) _⟩

end Collocation

end DiffGraph
