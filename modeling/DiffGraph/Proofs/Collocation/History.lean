import Mathlib
import DiffGraph.Proofs.Collocation.Solve
import DiffGraph.Proofs.Collocation.System

/-!
# Histories of calls

An integrator is reset and read any number of times, and solves succeed or fail. Every call keeps
it sound, and whatever came before it reflects the last reset that was not refused
(`Reflects.call`). So over a whole history its results are those of that reset
(`results_of_last_reset`).
-/

namespace DiffGraph

namespace Collocation

/-- A call on an integrator. -/
inductive Call (α : Type) where
  | reset (inputs : List (List α)) (seeds : List (List (List α)))
  | integrate (t : α)

variable {α : Type} [OrderedScalar α] {c c' : Collocation α} {inputs : List (List α)}
  {seeds : List (List (List α))}

/-- The integrator after a call, and whether the call succeeded. -/
def call (c : Collocation α) : Call α → Collocation α × Except (Failure α) Unit
  | .reset inputs seeds => c.reset inputs seeds
  | .integrate t =>
    match c.integrate t with
    | .ok c' => (c', .ok ())
    | .error e => (c, .error e)

def after (c : Collocation α) : List (Call α) → Collocation α
  | [] => c
  | call :: calls => (c.call call).1.after calls

/-! ## Checks -/

/-- Why a reset is refused, if it is. -/
def refusal? (c : Collocation α) (inputs : List (List α)) (seeds : List (List (List α))) :
    Option (Failure α) :=
  match c.checkInputs "integrator inputs" inputs with
  | .error e => some e
  | .ok () => seeds.firstM fun s =>
    match c.checkInputs "forward seeds" s with
    | .error e => some e
    | .ok () => none

/-- A reset that is refused changes nothing, the others solve. -/
theorem call_reset (c : Collocation α) (inputs : List (List α)) (seeds : List (List (List α))) :
    c.call (.reset inputs seeds) =
      match c.refusal? inputs seeds with
      | some e => (c, .error e)
      | none => c.solve inputs seeds := by
  show c.reset inputs seeds = _
  unfold reset refusal?
  cases c.checkInputs "integrator inputs" inputs with
  | error e => rfl
  | ok u => rfl

/-- An attempt to read leaves the integrator as it is, or with the states of its solution. -/
theorem call_integrate_cases (c : Collocation α) (t : α) :
    (∃ e, c.call (.integrate t) = (c, .error e) ∧ e.isMisuse = false) ∨
      c.call (.integrate t) = (c.withSolution, .ok ()) := by
  unfold call
  dsimp only
  rcases c.integrate_cases t with ⟨e, he, hmisuse⟩ | hok
  · rw [he]
    exact .inl ⟨e, rfl, hmisuse⟩
  · rw [hok]
    exact .inr rfl

omit [OrderedScalar α] in
theorem checkInputs_spec (c : Collocation α) (what : String) (inputs : List (List α)) :
    match c.checkInputs what inputs with
    | .ok () => c.Accepts inputs
    | .error e => ¬ c.Accepts inputs ∧ e.isMisuse = false := by
  unfold checkInputs
  by_cases hcount : inputs.length ≠ 4
  · rw [if_pos hcount]
    refine ⟨fun h => hcount ?_, rfl⟩
    simpa [inputSizes] using congrArg List.length h
  · have hsizes := find?_sizes_eq_none_iff List.length (fun n => n)
      (show inputs.length = c.inputSizes.length from not_not.1 hcount)
    rw [if_neg hcount]
    cases hfind : (inputs.zip c.inputSizes).zipIdx.find? fun s => s.1.1.length ≠ s.1.2 with
    | none => exact (hsizes.1 hfind).trans (List.map_id' _)
    | some bad =>
      rw [hfind] at hsizes
      refine ⟨fun h => ?_, rfl⟩
      cases hsizes.2 (Eq.trans h (List.map_id' _).symm)

omit [OrderedScalar α] in
theorem firstM_eq_findSome? {β γ : Type} (f : β → Option γ) (xs : List β) :
    xs.firstM f = xs.findSome? f := by
  induction xs with
  | nil => rfl
  | cons x xs ih =>
    rw [List.firstM, List.findSome?_cons, ih]
    cases f x with
    | none => rfl
    | some y => rfl

omit [OrderedScalar α] in
/-- A reset is refused for inputs or seeds of the wrong number or lengths, and only for them. -/
theorem refusal?_spec (c : Collocation α) (inputs : List (List α)) (seeds : List (List (List α))) :
    (c.refusal? inputs seeds = none ↔ c.Accepts inputs ∧ ∀ s ∈ seeds, c.Accepts s) ∧
      ∀ e, c.refusal? inputs seeds = some e → e.isMisuse = false := by
  have hinputs := c.checkInputs_spec "integrator inputs" inputs
  have hseeds (s : List (List α)) : ((match c.checkInputs "forward seeds" s with
      | .error e => some e
      | .ok () => none) = none ↔ c.Accepts s) ∧
      ∀ e, (match c.checkInputs "forward seeds" s with
        | .error e => some e
        | .ok () => none) = some e → e.isMisuse = false := by
    have hs := c.checkInputs_spec "forward seeds" s
    cases hcheck : c.checkInputs "forward seeds" s with
    | error e =>
      rw [hcheck] at hs
      exact ⟨⟨nofun, fun h => absurd h hs.1⟩, fun e' he' => Option.some.inj he' ▸ hs.2⟩
    | ok u =>
      rw [hcheck] at hs
      exact ⟨⟨fun _ => hs, fun _ => rfl⟩, nofun⟩
  unfold refusal?
  rw [firstM_eq_findSome?]
  cases hcheck : c.checkInputs "integrator inputs" inputs with
  | error e =>
    rw [hcheck] at hinputs
    exact ⟨⟨nofun, fun h => absurd h.1 hinputs.1⟩, fun e' he' => Option.some.inj he' ▸ hinputs.2⟩
  | ok u =>
    rw [hcheck] at hinputs
    refine ⟨?_, fun e he => ?_⟩
    · rw [List.findSome?_eq_none_iff]
      exact ⟨fun h => ⟨hinputs, fun s hs => (hseeds s).1.1 (h s hs)⟩,
        fun h s hs => (hseeds s).1.2 (h.2 s hs)⟩
    · obtain ⟨s, -, hs⟩ := List.exists_of_findSome?_eq_some he
      exact (hseeds s).2 e hs

/-! ## The last reset -/

/-- A reset with the integrator before it. -/
structure Reset (α : Type) where
  before : Collocation α
  inputs : List (List α)
  seeds : List (List (List α))

/-- What the reset has to find. -/
def Reset.solution (r : Reset α) : Except (Failure α) (Newton.Solution α) :=
  r.before.solution r.inputs r.seeds

/-- The reset that a call is, unless it is refused. -/
def accepted? (c : Collocation α) : Call α → Option (Reset α)
  | .reset inputs seeds =>
    if (c.refusal? inputs seeds).isNone then some ⟨c, inputs, seeds⟩ else none
  | .integrate _ => none

def lastReset? (c : Collocation α) : List (Call α) → Option (Reset α)
  | [] => none
  | call :: calls => ((c.call call).1.lastReset? calls).or (c.accepted? call)

/-- The integrator holds what the reset had to find; it is closed if there is no such solution or
no reset. -/
def Reflects (c : Collocation α) : Option (Reset α) → Prop
  | none => c.solved = false
  | some r =>
    match r.solution with
    | .error _ => c.solved = false
    | .ok sol => c.Holds sol ∧ sol.sens.length = r.seeds.length

/-- Every call keeps an integrator sound, and is a misuse only for lack of memory. -/
theorem Sound.call (hc : c.Sound) (call : Call α) :
    (c.call call).1.Sound ∧ c.SameProblem (c.call call).1 ∧
      (c.residual.FitsMemory → NoMisuse (c.call call).2) := by
  cases call with
  | reset inputs seeds =>
    obtain ⟨hnone, hmisuse⟩ := c.refusal?_spec inputs seeds
    rw [call_reset]
    cases hrefusal : c.refusal? inputs seeds with
    | some e => exact ⟨hc, .refl c, fun _ => .error (hmisuse e hrefusal)⟩
    | none =>
      obtain ⟨hinputs, hseeds⟩ := hnone.1 hrefusal
      obtain ⟨hsound, hsame, hfine, -⟩ := hc.solve hinputs hseeds
      exact ⟨hsound, hsame, hfine⟩
  | integrate t =>
    rcases c.call_integrate_cases t with ⟨e, he, hmisuse⟩ | hok
    · rw [he]
      exact ⟨hc, .refl c, fun _ => .error hmisuse⟩
    · rw [hok]
      exact ⟨hc.withSolution, c.sameProblem_withSolution, fun _ => .ok ()⟩

/-- After a call the integrator reflects the reset that the call is, or the one before. -/
theorem Reflects.call {last : Option (Reset α)} (h : c.Reflects last) (hc : c.Sound)
    (call : Call α) : (c.call call).1.Reflects ((c.accepted? call).or last) := by
  cases call with
  | reset inputs seeds =>
    rw [call_reset, accepted?]
    cases hrefusal : c.refusal? inputs seeds with
    | some e => exact h
    | none =>
      obtain ⟨hinputs, hseeds⟩ := (c.refusal?_spec inputs seeds).1.1 hrefusal
      obtain ⟨-, -, -, hfound⟩ := hc.solve hinputs hseeds
      show match c.solution inputs seeds with
        | .error _ => _
        | .ok sol => _
      cases hsol : c.solution inputs seeds with
      | error e =>
        rw [hsol] at hfound
        exact hfound.2.1
      | ok sol =>
        rw [hsol] at hfound
        exact hfound.2
  | integrate t =>
    rcases c.call_integrate_cases t with ⟨e, he, -⟩ | hok
    · rw [he]
      exact h
    · rw [hok]
      cases last with
      | none => exact h
      | some r =>
        show match r.solution with
          | .error _ => _
          | .ok sol => _
        change (match r.solution with
          | .error _ => _
          | .ok sol => _) at h
        cases hsol : r.solution with
        | error e =>
          rw [hsol] at h
          exact h
        | ok sol =>
          rw [hsol] at h
          exact ⟨(h.1.withSolution hc).1, h.2⟩

theorem Sound.after (hc : c.Sound) (calls : List (Call α)) :
    (c.after calls).Sound ∧ c.SameProblem (c.after calls) := by
  induction calls generalizing c with
  | nil => exact ⟨hc, .refl c⟩
  | cons call calls ih =>
    obtain ⟨hcall, hsame, -⟩ := hc.call call
    obtain ⟨hsound, hrest⟩ := ih hcall
    exact ⟨hsound, hsame.trans hrest⟩

/-- After calls an integrator reflects the last reset among them, or the one before. -/
theorem Reflects.after {last : Option (Reset α)} (h : c.Reflects last) (hc : c.Sound)
    (calls : List (Call α)) : (c.after calls).Reflects ((c.lastReset? calls).or last) := by
  induction calls generalizing c last with
  | nil => exact h
  | cons call calls ih =>
    have hrest := ih (h.call hc call) (hc.call call).1
    rw [← Option.or_assoc] at hrest
    exact hrest

theorem sound_of_create {n n' : Nat} {S : Set (Expr α)} {f : Function α} {g : Option (Function α)}
    {options : CollocationOptions α} (hS : IsGraph n S) (hf : f.Compiled S)
    (hg : ∀ g', g = some g' → g'.Compiled S) (h : create f g options n = .ok (c, n')) :
    c.Sound ∧ c.solved = false ∧ c.integratedOnce = false ∧ c.options = options := by
  obtain ⟨hoptions, hsystem, hstartup, ha, honce, hsolved, hsens⟩ := parts_of_create hS hf hg h
  refine ⟨⟨hsystem, hstartup, ha, by simp [hsens], ?_⟩, hsolved, honce, hoptions⟩
  rw [hsolved]
  nofun

theorem exists_of_lastReset? {calls : List (Call α)} {r : Reset α}
    (h : c.lastReset? calls = some r) : ∃ before later,
      calls = before ++ .reset r.inputs r.seeds :: later ∧ r.before = c.after before ∧
        r.before.refusal? r.inputs r.seeds = none := by
  induction calls generalizing c with
  | nil => cases h
  | cons call calls ih =>
    rcases Option.or_eq_some_iff.1 h with hlater | ⟨-, hown⟩
    · obtain ⟨before, later, rfl, hbefore, hrefusal⟩ := ih hlater
      exact ⟨call :: before, later, rfl, hbefore, hrefusal⟩
    · cases call with
      | integrate t => cases hown
      | reset inputs seeds =>
        obtain ⟨hnone, heq⟩ := Option.ite_none_right_eq_some.1 hown
        obtain rfl := Option.some.inj heq
        exact ⟨[], calls, rfl, rfl, Option.isNone_iff_eq_none.1 hnone⟩

theorem Sound.reset_succeeds (hc : c.Sound) (h : c.refusal? inputs seeds = none) :
    (c.reset inputs seeds).2 = (c.solution inputs seeds).map fun _ => () := by
  obtain ⟨hinputs, hseeds⟩ := (c.refusal?_spec inputs seeds).1.1 h
  obtain ⟨-, -, -, hfound⟩ := hc.solve hinputs hseeds
  have hreset : c.reset inputs seeds = c.solve inputs seeds := by
    have hcall := c.call_reset inputs seeds
    rw [h] at hcall
    exact hcall
  rw [hreset]
  cases hsol : c.solution inputs seeds with
  | error e =>
    rw [hsol] at hfound
    exact hfound.1
  | ok sol =>
    rw [hsol] at hfound
    exact hfound.1

/-- Results belong to the last reset that is not refused, whatever came before and between. If it
found a solution, the states, quadratures and sensitivities are those of this solution at every
time that is neither before nor after the horizon; otherwise there is nothing to read. A refused
reset changes nothing, and no call leaves its buffers. -/
theorem results_of_last_reset {n n' : Nat} {S : Set (Expr α)} {f : Function α}
    {g : Option (Function α)} {options : CollocationOptions α} {c₀ : Collocation α}
    (hS : IsGraph n S) (hf : f.Compiled S) (hg : ∀ g', g = some g' → g'.Compiled S)
    (h : create f g options n = .ok (c₀, n')) (calls : List (Call α)) :
    let c := c₀.after calls
    c.Sound ∧ (c₀.residual.FitsMemory → ∀ call, NoMisuse (c.call call).2) ∧
    (∀ inputs seeds,
      (c.refusal? inputs seeds = none ↔ c₀.Accepts inputs ∧ ∀ s ∈ seeds, c₀.Accepts s) ∧
      ∀ e, c.refusal? inputs seeds = some e → c.reset inputs seeds = (c, .error e)) ∧
    ∀ t, match c₀.lastReset? calls with
      | none => ∃ e, c.integrate t = .error e
      | some r =>
        (r.before.reset r.inputs r.seeds).2 = r.solution.map (fun _ => ()) ∧
        match r.solution with
        | .error _ => ∃ e, c.integrate t = .error e
        | .ok sol =>
          if OrderedScalar.less t options.t0 || OrderedScalar.less options.tf t then
            c.integrate t = .error (.outsideHorizon t options.t0 options.tf)
          else ∃ c', c.integrate t = .ok c' ∧ c'.outputs = c₀.quantities sol.outputs ∧
            c'.sens = sol.sens.map c₀.quantities ∧ c'.sens.length = r.seeds.length ∧
            ∀ q ∈ c'.outputs :: c'.sens, q.xf.length = c₀.fwd.nx ∧ q.rxf.length = c₀.bwd.nrx := by
  intro c
  obtain ⟨hsound₀, hclosed, -, hoptions⟩ := sound_of_create hS hf hg h
  obtain ⟨hsound, hsame⟩ := hsound₀.after calls
  have hnew : c₀.Reflects none := hclosed
  have hreflects := hnew.after hsound₀ calls
  rw [Option.or_none] at hreflects
  refine ⟨hsound, fun hm call => (hsound.call call).2.2 (hsame.residual ▸ hm),
    fun inputs seeds => ⟨?_, fun e he => ?_⟩, fun t => ?_⟩
  · rw [(c.refusal?_spec inputs seeds).1, hsame.accepts_eq]
  · have hcall := c.call_reset inputs seeds
    rw [he] at hcall
    exact hcall
  cases hlast : c₀.lastReset? calls with
  | none =>
    rw [hlast] at hreflects
    exact ⟨_, integrate_of_not_solved hreflects t⟩
  | some r =>
    rw [hlast] at hreflects
    obtain ⟨before, later, -, hbefore, hrefusal⟩ := exists_of_lastReset? hlast
    refine ⟨(hbefore ▸ (hsound₀.after before).1).reset_succeeds hrefusal, ?_⟩
    change match r.solution with
      | .error _ => c.solved = false
      | .ok sol => _ at hreflects
    cases hsol : r.solution with
    | error e =>
      rw [hsol] at hreflects
      exact ⟨_, integrate_of_not_solved hreflects t⟩
    | ok sol =>
      rw [hsol] at hreflects
      obtain ⟨hholds, hcount⟩ := hreflects
      obtain ⟨-, houtputs, hsens⟩ := hholds.withSolution hsound
      have hread := hholds.integrate_eq t
      rw [hsame.options, hoptions] at hread
      dsimp only
      split
      · rename_i hout
        rw [hread, if_pos hout]
      · rename_i hin
        refine ⟨_, hread.trans (if_neg hin), ?_, ?_, ?_, ?_⟩
        · rw [houtputs, hsame.quantities_eq]
        · rw [hsens, hsame.quantities_eq]
        · rw [hsens, List.length_map, hcount]
        · rw [← hsame.fwd, ← hsame.bwd, hsens, houtputs, ← List.map_cons, List.forall_mem_map]
          exact fun s hs => hsound.length_quantities (hholds.length_outputs hsound s hs)

/-- Decay by an implicit step halves the state, and so it does the sensitivity. -/
theorem results_of_last_reset_growth :
    ∃ c₀ n' c', create Growth.problem none Growth.setup 5 = .ok (c₀, n') ∧
      (c₀.after [.reset [[1], [-1], [], []] [[[1], [0], [], []]]]).integrate 1 = .ok c' ∧
      c'.outputs.toList = [[1 / 2], [1], [], []] ∧
      c'.sens.map Quantities.toList = [[[1 / 2], [0], [], []]] := by
  obtain ⟨S, hS, hf⟩ := Growth.exists_compiled
  have hprobe : probe Growth.problem none Growth.setup 5 (fun c =>
      (c.solution [[1], [-1], [], []] [[[1], [0], [], []]]).toOption.map fun sol =>
        (c.fwd, c.bwd, sol.outputs, sol.sens)) = some (⟨1, 1, 1, true⟩, ⟨0, 0, 0⟩,
          [[1 / 2, 1 / 2], [1], []], [[[1 / 2, 1 / 2], [0], []]]) := by
    cbv
  obtain ⟨c₀, n', hcreate, hask⟩ := exists_of_probe hprobe
  obtain ⟨sol, hsol, hfound⟩ := Option.map_eq_some_iff.1 hask
  obtain ⟨hfwd, hbwd, houtputs, hsens⟩ : c₀.fwd = ⟨1, 1, 1, true⟩ ∧ c₀.bwd = ⟨0, 0, 0⟩ ∧
    sol.outputs = [[1 / 2, 1 / 2], [1], []] ∧ sol.sens = [[[1 / 2, 1 / 2], [0], []]] := by
    simpa using hfound
  have hspec := @results_of_last_reset Rat _ 5 n' S Growth.problem none Growth.setup c₀ hS hf
    (by simp) hcreate
  have haccepted : c₀.refusal? [[1], [-1], [], []] [[[1], [0], [], []]] = none := by
    rw [(c₀.refusal?_spec _ _).1, Accepts, inputSizes, hfwd, hbwd]
    simp [Accepts, inputSizes, hfwd, hbwd]
  obtain ⟨-, -, -, hread⟩ := hspec [.reset [[1], [-1], [], []] [[[1], [0], [], []]]]
  have hlast : c₀.lastReset? [.reset [[1], [-1], [], []] [[[1], [0], [], []]]] =
      some ⟨c₀, [[1], [-1], [], []], [[[1], [0], [], []]]⟩ := by
    simp [lastReset?, accepted?, haccepted]
  have hsolution : (⟨c₀, [[1], [-1], [], []], [[[1], [0], [], []]]⟩ : Reset Rat).solution =
      .ok sol := ok_of_toOption hsol
  have hin : (OrderedScalar.less 1 Growth.setup.t0 ||
      OrderedScalar.less Growth.setup.tf 1) = false := by
    cbv
  have hread := hread 1
  rw [hlast] at hread
  obtain ⟨-, hread⟩ := hread
  rw [hsolution, hin] at hread
  obtain ⟨c', hintegrate, hresults, hsensitivities, -⟩ := hread
  have hquantities (v : List Rat) (rest : List (List Rat)) : c₀.quantities (v :: rest) =
      ⟨v.drop (v.length - 1), rest[0]?.getD [], [], rest[1]?.getD []⟩ := by
    simp [quantities, withStates, hfwd, hbwd]
  refine ⟨c₀, n', c', hcreate, hintegrate, ?_, ?_⟩
  · rw [hresults, houtputs, hquantities]
    rfl
  · rw [hsensitivities, hsens, List.map_singleton, hquantities]
    rfl

end Collocation

end DiffGraph
