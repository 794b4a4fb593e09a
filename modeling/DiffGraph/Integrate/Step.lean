import DiffGraph.Scalar

/-!
# Explicit Runge-Kutta steps

`Method.step` advances a state by one step of a fixed method: the classical
fourth order method or the six stages of Tsitouras' fifth order one. The right
hand side may fail, and then so does the step.
-/

namespace DiffGraph

inductive Method where
  | rk4 | tsit5
  deriving DecidableEq

namespace Method

variable {α : Type} [OrderedScalar α] {ε : Type}

def name : Method → String
  | rk4 => "rk4"
  | tsit5 => "tsit5"

def all : List Method :=
  [rk4, tsit5]

private def dec (m : Nat) (e : Int) : α :=
  OrderedScalar.ofDecimal m e

/-- Entry by entry: `x + c * k`. -/
def axpy (c : α → α) (x k : List α) : List α :=
  List.zipWith (fun x k => x + c k) x k

/-- The right hand side: the rate of change at a time and a state. -/
abbrev Rate (α ε : Type) := α → List α → Except ε (List α)

/-- One step of the classical method. -/
def stepRk4 (rate : Rate α ε) (t : α) (x : List α) (dt : α) : Except ε (List α) := do
  let half : α := dec 5 (-1)
  let k₁ ← rate t x
  let k₂ ← rate (t + dt * half) (axpy (fun k => dt * k * half) x k₁)
  let k₃ ← rate (t + dt * half) (axpy (fun k => dt * k * half) x k₂)
  let k₄ ← rate (t + dt) (axpy (fun k => dt * k) x k₃)
  let two : α := dec 2 0
  let slopes := List.zipWith (· + ·)
    (List.zipWith (fun s k => s + two * k) (List.zipWith (fun a b => a + two * b) k₁ k₂) k₃) k₄
  return axpy (fun s => dt / dec 6 0 * s) x slopes

def weighted : List (α × List α) → List α
  | [] => []
  | (w, k) :: rest =>
    rest.foldl (fun total (w, k) => List.zipWith (fun s k => s + w * k) total k) (k.map (w * ·))

/-- A stage: when it is evaluated, as a part of the step, and the weights of the stages before. -/
structure Stage (α : Type) where
  node : α
  weights : List α

/-- The stages of Tsitouras' method behind the first one. -/
def tsit5Stages : List (Stage α) := [
  ⟨dec 161 (-3), [dec 161 (-3)]⟩,
  ⟨dec 327 (-3), [-(dec 8480655492356989 (-18)), dec 335480655492357 (-15)]⟩,
  ⟨dec 9 (-1), [dec 2897153057105493 (-15), -(dec 6359448489975075 (-15)),
    dec 43622954328695815 (-16)]⟩,
  ⟨dec 9800255409045097 (-16), [dec 5325864828439257 (-15), -(dec 11748883564062828 (-15)),
    dec 74955393428898365 (-16), -(dec 9249506636175525 (-17))]⟩,
  ⟨1, [dec 586145544294642 (-14), -(dec 1292096931784711 (-14)), dec 8159367898576159 (-15),
    -(dec 71584973281401 (-15)), -(dec 28269050394068383 (-18))]⟩]

def tsit5Weights : List α := [
  dec 9646076681806523 (-17), dec 1 (-2), dec 4798896504144996 (-16), dec 1379008574103742 (-15),
  -(dec 3290069515436099 (-15)), dec 2324710524099774 (-15)]

/-- The slopes of all stages, after those in `done`. -/
def stageSlopes (rate : Rate α ε) (t : α) (x : List α) (dt : α) :
    List (Stage α) → (done : List (List α)) → Except ε (List (List α))
  | [], done => .ok done
  | stage :: rest, done => do
    let k ← rate (t + stage.node * dt) (axpy (dt * ·) x (weighted (stage.weights.zip done)))
    stageSlopes rate t x dt rest (done ++ [k])

/-- One step of Tsitouras' method. -/
def stepTsit5 (rate : Rate α ε) (t : α) (x : List α) (dt : α) : Except ε (List α) := do
  let k ← rate t x
  let slopes ← stageSlopes rate t x dt tsit5Stages [k]
  return axpy (dt * ·) x (weighted (tsit5Weights.zip slopes))

def step (m : Method) (rate : Rate α ε) (t : α) (x : List α) (dt : α) : Except ε (List α) :=
  match m with
  | rk4 => stepRk4 rate t x dt
  | tsit5 => stepTsit5 rate t x dt

/-- The times and states after each of `n` steps. -/
def trajectory (m : Method) (rate : Rate α ε) (dt : α) :
    Nat → (t : α) → (x : List α) → Except ε (List (α × List α))
  | 0, _, _ => .ok []
  | n + 1, t, x => do
    let x ← m.step rate t x dt
    let t := t + dt
    return (t, x) :: (← trajectory m rate dt n t x)

end Method

end DiffGraph
