import Mathlib.Algebra.Order.Field.Rat
import Peashape.Model.Config

/-!
# Waiting between ticks

What the loops of `scheduler.rs` wait for: `run_constant` for the ticks of
`time::interval`, and `run_poisson` for a sleep whose length it draws. Both call functions
that panic on some arguments; `ShapingStrategy::None` calls neither.

The arithmetic is exact. A quotient by zero has the sign of its numerator, since the sign of
a zero is not kept; `f64::min` ignores a NaN. `Duration::from_secs_f64` follows its
documentation, with the duration left in seconds. `time::interval` belongs to another crate
and is a parameter, `Time`.
-/

namespace Peashape

/-- Where the shaping task panics. -/
inductive Panic where
  /-- In `time::interval`. -/
  | interval
  /-- In `Duration::from_secs_f64`: the number of seconds is negative. -/
  | negative
  /-- In `Duration::from_secs_f64`: it is too big, or not a number. -/
  | overflowOrNan
  deriving DecidableEq

/-! ### Floating point -/

namespace F64

/-- `x / y`. -/
def div : F64 → F64 → F64
  | .nan, _ | _, .nan | .inf _, .inf _ => .nan
  | .inf negative, .finite b => .inf (negative != decide (b < 0))
  | .finite _, .inf _ => .finite 0
  | .finite a, .finite b =>
    if b = 0 then if a = 0 then .nan else .inf (decide (a < 0)) else .finite (a / b)

/-- `f64::min`. -/
def min : F64 → F64 → F64
  | .nan, y => y
  | x, .nan => x
  | .inf true, _ | _, .inf true => .inf true
  | .inf false, y => y
  | x, .inf false => x
  | .finite a, .finite b => .finite (Min.min a b)

end F64

/-- `Duration::from_secs_f64`. A duration holds less than `2 ^ 64` seconds. -/
def fromSecsF64 : F64 → Except Panic ℚ
  | .finite secs =>
    if secs < 0 then .error .negative else if secs < 2 ^ 64 then .ok secs else .error .overflowOrNan
  | .inf negative => .error (if negative then .negative else .overflowOrNan)
  | .nan => .error .overflowOrNan

/-! ### The loops -/

/-- `tokio::time`, as far as the shaping task relies on it. -/
structure Time (τ : Type*) where
  /-- `interval`, given the period in nanoseconds; `none` is its panic. -/
  interval : ℕ → Option τ

/-- What is documented of `tokio::time`. -/
structure Time.Documented {τ : Type*} (time : Time τ) : Prop where
  /-- `interval` panics if the period is zero. -/
  interval : ∀ period, time.interval period = none ↔ period = 0

/-- A draw of `-ln U`. -/
abbrev Draw := { x : ℚ // 0 ≤ x }

/-- `MAX_INTERVAL_FACTOR`. -/
def maxIntervalFactor : F64 := .finite 40

/-- `(-u.ln() / rate).min(MAX_INTERVAL_FACTOR / rate)`. -/
def poissonSecs (rate : F64) (x : Draw) : F64 :=
  F64.min (F64.div (.finite x) rate) (F64.div maxIntervalFactor rate)

section Loops

variable {τ : Type*} (time : Time τ)

/-- `run_constant`: the ticker, whose ticks the loop waits for. -/
def runConstant (interval : ℕ) : Except Panic Unit :=
  match time.interval interval with
  | none => .error .interval
  | some _ => .ok ()

/-- `run_poisson`, as far as the draws given take it: a sleep for each round of the loop. -/
def runPoisson (rate : F64) : List Draw → Except Panic Unit
  | [] => .ok ()
  | x :: draws =>
    match fromSecsF64 (poissonSecs rate x) with
    | .error e => .error e
    | .ok _ => runPoisson rate draws

/-- `Scheduler::run`, as far as its waiting goes. -/
def schedulerRun (strategy : ShapingStrategy) (draws : List Draw) : Except Panic Unit :=
  match strategy with
  | .constant interval => runConstant time interval
  | .poisson rate => runPoisson rate draws
  | .none => .ok ()

end Loops

end Peashape
