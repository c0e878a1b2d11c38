import Mathlib.Algebra.Order.Field.Basic
import Mathlib.Tactic.Linarith
import Mathlib.Tactic.NormNum
import Peashape.Model.Timing
import Peashape.Wire.Stream

/-!
# Configurations that are safe to run

`Node::new` checks sizes, capacities and the fanout. It does not look at the strategy, and it
compares `frame_size` with `max_frame_size` alone, which the length-delimited codec cuts down
to what four bytes can express. So a configuration it accepts may make the shaping task panic
or the codec refuse every frame. `accepted_safe_iff` says which ones do not.
-/

namespace Peashape.Lifecycle

open Codec

variable {τ σ : Type*} {time : Time τ} {ld : LengthDelimited σ} {q : ℚ} {x : Draw} {rate : F64}

/-- A rate that can be slept by: an infinity, or a positive number so large that
`MAX_INTERVAL_FACTOR / rate` seconds are a duration. -/
def RateOk : F64 → Prop
  | .finite q => 0 < q ∧ 40 / q < 2 ^ 64
  | .inf _ => True
  | .nan => False

/-- A strategy that can be run. -/
def StrategyOk : ShapingStrategy → Prop
  | .constant interval => 0 < interval
  | .poisson rate => RateOk rate
  | .none => True

/-! ### The seconds drawn -/

/-- With a rate that is not zero the seconds are a quotient, capped. -/
theorem poissonSecs_finite (hq : q ≠ 0) :
    poissonSecs (.finite q) x = .finite (min (x / q) (40 / q)) := by
  simp only [poissonSecs, maxIntervalFactor, F64.div, if_neg hq, F64.min]

/-- With rate zero they are infinite, whatever is drawn. -/
theorem poissonSecs_zero : poissonSecs (.finite 0) x = .inf false := by
  have h40 : (decide ((40 : ℚ) < 0)) = false := by norm_num
  have hx : decide ((x : ℚ) < 0) = false := decide_eq_false (not_lt.mpr x.2)
  by_cases h : (x : ℚ) = 0 <;> simp [poissonSecs, maxIntervalFactor, F64.div, F64.min, h, h40, hx]

/-- A number of seconds is a duration if it is not negative and less than `2 ^ 64`. -/
theorem isOk_fromSecsF64_finite (secs : ℚ) :
    (fromSecsF64 (.finite secs)).isOk = true ↔ 0 ≤ secs ∧ secs < 2 ^ 64 := by
  simp only [fromSecsF64]
  split_ifs with hneg hlt
  · exact iff_of_false Bool.noConfusion fun h => absurd h.1 (not_le.mpr hneg)
  · exact iff_of_true rfl ⟨not_lt.mp hneg, hlt⟩
  · exact iff_of_false Bool.noConfusion fun h => hlt h.2

/-- **The rates for which every draw is a duration.** -/
theorem isOk_poisson_iff (rate : F64) :
    (∀ x, (fromSecsF64 (poissonSecs rate x)).isOk = true) ↔ RateOk rate := by
  cases rate with
  | nan => exact iff_of_false (fun h => Bool.noConfusion (h ⟨0, le_rfl⟩)) id
  | inf negative =>
    refine iff_of_true (fun x => ?_) trivial
    show (fromSecsF64 (.finite (min 0 0))).isOk = true
    rw [isOk_fromSecsF64_finite]
    norm_num
  | finite q =>
    by_cases hzero : q = 0
    · subst hzero
      refine iff_of_false (fun h => ?_) (fun h => lt_irrefl _ h.1)
      have hbad := h ⟨0, le_rfl⟩
      rw [poissonSecs_zero] at hbad
      cases hbad
    simp only [poissonSecs_finite hzero, isOk_fromSecsF64_finite]
    constructor
    · intro h
      -- the largest draws are cut down to the cap
      obtain ⟨hpos, hlt⟩ := h ⟨40, by norm_num⟩
      rw [min_self] at hpos hlt
      refine ⟨lt_of_le_of_ne ?_ (Ne.symm hzero), hlt⟩
      by_contra hneg
      have hcap : (40 : ℚ) / q < 0 := div_neg_of_pos_of_neg (by norm_num) (not_le.mp hneg)
      linarith
    · rintro ⟨hpos, hlt⟩ x
      constructor
      · exact le_min (div_nonneg x.2 hpos.le) (div_nonneg (by norm_num) hpos.le)
      · exact (min_le_right _ _).trans_lt hlt

/-! ### The loops -/

/-- The Poisson loop goes on as long as every draw is a duration. -/
theorem isOk_runPoisson_iff (rate : F64) (draws : List Draw) :
    (runPoisson rate draws).isOk = true ↔
      ∀ x ∈ draws, (fromSecsF64 (poissonSecs rate x)).isOk = true := by
  induction draws with
  | nil => simp [runPoisson, Except.isOk, Except.toBool]
  | cons x draws ih =>
    rw [List.forall_mem_cons, ← ih, runPoisson]
    cases fromSecsF64 (poissonSecs rate x) <;> simp [Except.isOk, Except.toBool]

/-- **The strategies under which the shaping task never panics.** -/
theorem isOk_schedulerRun_iff (htime : time.Documented) (strategy : ShapingStrategy) :
    (∀ draws, (schedulerRun time strategy draws).isOk = true) ↔ StrategyOk strategy := by
  cases strategy with
  | none => exact iff_of_true (fun _ => rfl) trivial
  | constant interval =>
    have hpanics := htime.interval interval
    simp only [schedulerRun, runConstant, StrategyOk]
    cases hi : time.interval interval with
    | none =>
      rw [hi] at hpanics
      refine iff_of_false (fun h => Bool.noConfusion (h [])) ?_
      rw [hpanics.mp rfl]
      exact lt_irrefl 0
    | some ticker =>
      rw [hi] at hpanics
      refine iff_of_true (fun _ => rfl) (Nat.pos_of_ne_zero fun h => ?_)
      cases hpanics.mpr h
  | poisson rate =>
    show (∀ draws, (runPoisson rate draws).isOk = true) ↔ RateOk rate
    rw [← isOk_poisson_iff]
    simp only [isOk_runPoisson_iff]
    exact ⟨fun h x => h [x] x (List.mem_singleton_self x), fun h _ x _ => h x⟩

/-! ### The codec -/

/-- An item of the configured size that four bytes cannot express is refused. -/
theorem encode_of_long (hld : ld.Documented) (hlong : ld.RefusesLong) (cfg : NodeConfig)
    (hsize : 2 ^ 32 ≤ cfg.frameSize) {item : Bytes} (hitem : item.length = cfg.frameSize)
    (dst : Bytes) :
    (encode ld (cfg.codec ld) item dst).1 ≠ .ok () := by
  have hlimit : ld.maxFrameLength (cfg.codec ld).inner = min cfg.maxFrameSize (2 ^ 32 - 1) :=
    hld.maxFrameLength_new cfg.maxFrameSize
  obtain ⟨e, he⟩ := hlong.encode_long (cfg.codec ld).inner item dst (by omega)
  have hfirst : (encode ld (cfg.codec ld) item dst).1 =
      (ld.encode (cfg.codec ld).inner item dst).1 := by
    have hsame : ¬ item.length ≠ (cfg.codec ld).frameSize := not_not.mpr hitem
    rw [encode, if_neg hsame]
  rw [hfirst, he]
  simp

/-- **The sizes of which every frame is encoded.** -/
theorem encodes_iff (hld : ld.Documented) (hlong : ld.RefusesLong) (cfg : NodeConfig) :
    (∀ c, Written ld cfg.frameSize cfg.maxFrameSize c → ∀ item, item.length = cfg.frameSize → ∀ dst,
      (encode ld c item dst).1 = .ok ()) ↔ cfg.frameSize < 2 ^ 32 := by
  constructor
  · intro h
    by_contra hsize
    exact encode_of_long hld hlong cfg (Nat.not_lt.mp hsize) List.length_replicate []
      (h _ (.new cfg.frameSize_pos) (List.replicate cfg.frameSize 0) List.length_replicate [])
  · intro hlt c hc item hitem dst
    obtain ⟨c', henc⟩ := hc.encode_eq hld cfg.frameSize_le hlt hitem dst
    rw [henc]

/-! ### Both -/

/-- **The configurations that are safe to run**, of those `Node::new` accepts: the shaping task
never panics, whatever it draws, and no codec of the node refuses an item of `frame_size` bytes,
if and only if a `Constant` interval is not zero, a `Poisson` rate is an infinity or is positive
with `MAX_INTERVAL_FACTOR / rate` less than `2 ^ 64`, and `frame_size` is less than `2 ^ 32`. -/
theorem accepted_safe_iff (htime : time.Documented) (hld : ld.Documented) (hlong : ld.RefusesLong)
    (cfg : NodeConfig) :
    ((∀ draws, (schedulerRun time cfg.strategy draws).isOk = true) ∧
      ∀ c, Written ld cfg.frameSize cfg.maxFrameSize c → ∀ item, item.length = cfg.frameSize → ∀ dst,
        (encode ld c item dst).1 = .ok ()) ↔
      StrategyOk cfg.strategy ∧ cfg.frameSize < 2 ^ 32 :=
  and_congr (isOk_schedulerRun_iff htime cfg.strategy) (encodes_iff hld hlong cfg)

/-- A `tokio::time` as documented. -/
def plainTime : Time ℕ where
  interval period := if period = 0 then none else some period

theorem plainTime_documented : plainTime.Documented where
  interval period := by simp [plainTime]

/-- The default configuration. -/
theorem accepted_safe_iff_default :
    let cfg : NodeConfig := { accepted := by decide }
    ((∀ draws, (schedulerRun plainTime cfg.strategy draws).isOk = true) ∧
      ∀ c, Written plain cfg.frameSize cfg.maxFrameSize c → ∀ item, item.length = cfg.frameSize → ∀ dst,
        (encode plain c item dst).1 = .ok ()) ↔
      StrategyOk cfg.strategy ∧ cfg.frameSize < 2 ^ 32 :=
  accepted_safe_iff plainTime_documented plain_documented plain_refusesLong _

/-- Accepted, and not safe: a `Constant` interval of zero, a `Poisson` rate of zero, a negative
one, one that is not a number, a positive one that is too small, and frames of `2 ^ 32` bytes. -/
theorem accepted_unsafe :
    let still : NodeConfig := { strategy := .constant 0, accepted := by decide }
    let zero : NodeConfig := { strategy := .poisson (.finite 0), accepted := by decide }
    let negative : NodeConfig := { strategy := .poisson (.finite (-1)), accepted := by decide }
    let undefined : NodeConfig := { strategy := .poisson .nan, accepted := by decide }
    let slow : NodeConfig := { strategy := .poisson (.finite (1 / 2 ^ 60)), accepted := by decide }
    let long : NodeConfig := { frameSize := 2 ^ 32, maxFrameSize := 2 ^ 32, accepted := by decide }
    let one : Draw := ⟨1, by decide⟩
    let large : Draw := ⟨40, by decide⟩
    schedulerRun plainTime still.strategy [] = .error .interval ∧
      schedulerRun plainTime zero.strategy [one] = .error .overflowOrNan ∧
      schedulerRun plainTime negative.strategy [one] = .error .negative ∧
      schedulerRun plainTime undefined.strategy [one] = .error .overflowOrNan ∧
      schedulerRun plainTime slow.strategy [large] = .error .overflowOrNan ∧
      ∀ item, item.length = long.frameSize → ∀ dst,
        (encode plain (long.codec plain) item dst).1 ≠ .ok () := by
  intro still zero negative undefined slow long one large
  refine ⟨rfl, ?_, ?_, rfl, ?_, ?_⟩
  · decide +kernel
  · decide +kernel
  · decide +kernel
  · intro item hitem dst
    exact encode_of_long plain_documented plain_refusesLong long (by decide) hitem dst

end Peashape.Lifecycle
