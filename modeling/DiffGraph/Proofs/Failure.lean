import Mathlib
import DiffGraph.Failure

/-!
# Computations that may fail

Checks compare sizes item by item (`find?_sizes_eq_none_iff`). `SameResult` compares what two
computations return or fail with. Where a computation would leave its buffers or run out of memory,
the failure is a misuse. `NoMisuse` says that this does not happen; it passes from steps to their
composition.
-/

namespace DiffGraph

theorem ok_of_bind {ε β γ : Type} {x : Except ε β} {f : β → Except ε γ} {r : γ}
    (h : (x >>= f) = .ok r) : ∃ a, x = .ok a ∧ f a = .ok r := by
  cases x with
  | error e => cases h
  | ok a => exact ⟨a, rfl, h⟩

theorem ok_of_step_bind {ε β γ : Type} {step : StateT Nat (Except ε) β}
    {next : β → StateT Nat (Except ε) γ} {r : γ} {n n' : Nat}
    (h : (step >>= next) n = .ok (r, n')) :
    ∃ b n₁, step n = .ok (b, n₁) ∧ next b n₁ = .ok (r, n') := by
  obtain ⟨out, hb, hnext⟩ := ok_of_bind (x := step n) (f := fun out => next out.1 out.2) h
  exact ⟨out.1, out.2, hb, hnext⟩

theorem ok_of_guard {ε β : Type} {c : Prop} [Decidable c] {e : ε} {x : Except ε β} {r : β}
    (h : (if c then throw e else x) = .ok r) : ¬ c ∧ x = .ok r := by
  split at h
  · cases h
  · exact ⟨‹_›, h⟩

theorem ok_of_mapError {ε ε' β : Type} {x : Except ε β} {f : ε → ε'} {r : β}
    (h : x.mapError f = .ok r) : x = .ok r := by
  cases x with
  | error e => cases h
  | ok a => exact congrArg Except.ok (Except.ok.inj h)

theorem find?_sizes_eq_none_iff {β γ : Type} (size : β → Nat) (target : γ → Nat) {xs : List β}
    {ys : List γ} (hlen : xs.length = ys.length) :
    ((xs.zip ys).zipIdx.find? fun ((x, y), _) => size x ≠ target y) = none ↔
      xs.map size = ys.map target := by
  rw [List.find?_eq_none]
  constructor
  · intro h
    refine List.ext_getElem (by simpa using hlen) fun i h₁ h₂ => ?_
    have hx : i < xs.length := by simpa using h₁
    have hy : i < ys.length := by simpa using h₂
    have hmem : ((xs[i], ys[i]), i) ∈ (xs.zip ys).zipIdx :=
      List.mem_zipIdx_iff_getElem?.2 (List.getElem?_zip_eq_some.2
        ⟨List.getElem?_eq_getElem hx, List.getElem?_eq_getElem hy⟩)
    simpa using h _ hmem
  · rintro h ⟨⟨x, y⟩, i⟩ hmem
    obtain ⟨hx, hy⟩ := List.getElem?_zip_eq_some.1 (List.mem_zipIdx_iff_getElem?.1 hmem)
    have hsize := congrArg (·[i]?) h
    simp only [List.getElem?_map, hx, hy, Option.map_some, Option.some.injEq] at hsize
    simpa using hsize

/-- Both fail with one error, or both succeed with related results. -/
def SameResult {ε β γ : Type} (R : β → γ → Prop) : Except ε β → Except ε γ → Prop
  | .ok b, .ok c => R b c
  | .error e, .error e' => e = e'
  | _, _ => False

theorem sameResult_map_iff {ε β γ : Type} {f : β → γ} {r : Except ε β} {r' : Except ε γ} :
    SameResult (fun b c => f b = c) r r' ↔ r.map f = r' := by
  cases r <;> cases r' <;> simp [SameResult, Except.map]

/-- The result is no misuse. -/
def NoMisuse {α β : Type} (r : Except (Failure α) β) : Prop :=
  ∀ e, r = .error e → e.isMisuse = false

namespace NoMisuse

variable {α β γ : Type}

theorem ok (b : β) : NoMisuse (.ok b : Except (Failure α) β) :=
  nofun

theorem error {e : Failure α} (h : e.isMisuse = false) :
    NoMisuse (.error e : Except (Failure α) β) := by
  rintro e' ⟨⟩
  exact h

theorem bind {r : Except (Failure α) β} {f : β → Except (Failure α) γ} (hr : NoMisuse r)
    (hf : ∀ b, r = .ok b → NoMisuse (f b)) : NoMisuse (r >>= f) := by
  cases r with
  | error e => exact .error (hr e rfl)
  | ok b => exact hf b rfl

end NoMisuse

end DiffGraph
