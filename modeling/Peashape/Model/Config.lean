import Mathlib.Data.Stream.Defs
import Mathlib.Data.Stream.Init
import Mathlib.Data.Rat.Defs
import Mathlib.Tactic.TypeStar

/-!
# Configuration

`config.rs`, the assertions of `Shaper::new` and `Node::new`, and the helpers of
`frame.rs` that build frames out of random bytes.

Of the fields of `ShapeConfig` those are kept that the shaper, the scheduler and the
codec read; the name, the listener and the connection limits go to the network layer
and are left out. The cover generator is a field of the configuration in the source;
here it is a parameter of its own, `CoverGenerator`, whose state is threaded
explicitly (the source asks for interior mutability).

A configuration that passed the assertions is a structure of its own
(`ShaperConfig`, `NodeConfig`), so that the shaper is never run with a capacity of `0`
or with frames too short for their identifier.
-/

namespace Peashape

/-- Bytes, first one first. -/
abbrev Bytes := List UInt8

/-- An `f64`, in exact arithmetic: a rational, an infinity, or not a number. -/
inductive F64 where
  /-- A finite value. -/
  | finite (q : ℚ)
  /-- `inf`, or `-inf`. -/
  | inf (negative : Bool)
  /-- Not a number. -/
  | nan
  deriving DecidableEq

/-- How the node generates outbound traffic. -/
inductive ShapingStrategy where
  /-- One tick exactly every `interval`, in nanoseconds. -/
  | constant (interval : ℕ)
  /-- Ticks with inter-arrival times drawn from `Exp(rate)`, the rate in frames per second. -/
  | poisson (rate : F64)
  /-- Passthrough: no schedule, real frames sent as soon as they are enqueued. -/
  | none
  deriving DecidableEq

/-- Whether the scheduler ticks once for the whole node, or once per connection. -/
inductive ShapingScope where
  /-- One global ticker; every tick sends to `fanout` peers. -/
  | global
  /-- One peer per tick, in round-robin order, with a random offset mixed in if
  `randomize` is set. -/
  | perConnection (randomize : Bool)
  deriving DecidableEq

/-- Which priority lane to enqueue a frame into. -/
inductive Lane where
  /-- FIFO, bounded, drained first. -/
  | high
  /-- LIFO with drop-oldest eviction, drained after the high lane. -/
  | low
  deriving DecidableEq

/-- `ID_SIZE`, the size of the identifier at the front of every frame. -/
def idSize : ℕ := 32

/-- The parameters the shaper, the scheduler and the codec read, with the values of
`ShapeConfig::default`. -/
structure ShapeConfig where
  /-- The strategy used to schedule outgoing traffic. -/
  strategy : ShapingStrategy := .constant 1000000000
  /-- One tick for the whole node, or one per connection. -/
  scope : ShapingScope := .global
  /-- The number of distinct peers each outbound frame goes to on a `Global` tick. -/
  fanout : ℕ := 3
  /-- The size of every frame, in bytes. -/
  frameSize : ℕ := 256
  /-- The maximum number of frames in a high lane. -/
  highLaneCapacity : ℕ := 256
  /-- The maximum number of frames in a low lane. -/
  lowLaneCapacity : ℕ := 1024
  /-- The upper bound on a single frame the decoder will accept. -/
  maxFrameSize : ℕ := 1024 * 1024
  deriving DecidableEq

namespace ShapeConfig

/-! ### The assertions of the constructors -/

/-- `assert!(condition, message)`: on failure, the panic with its message. -/
def check (condition : Bool) (message : String) : Except String Unit :=
  if condition then .ok () else .error message

@[simp] theorem isOk_check_bind (condition : Bool) (message : String) (next : Except String Unit) :
    ((check condition message).bind fun _ => next).isOk = (condition && next.isOk) := by
  cases condition <;> rfl

@[simp] theorem isOk_check (condition : Bool) (message : String) :
    (check condition message).isOk = condition := by
  cases condition <;> rfl

/-- The assertions of `Shaper::new`, in order. -/
def shaperNew (c : ShapeConfig) : Except String Unit :=
  (check (0 < c.highLaneCapacity) "high_lane_capacity must be non-zero").bind fun _ =>
  (check (0 < c.lowLaneCapacity) "low_lane_capacity must be non-zero").bind fun _ =>
  check (idSize ≤ c.frameSize)
    s!"frame_size ({c.frameSize} bytes) must be at least ID_SIZE ({idSize} bytes)"

/-- The assertions of `Node::new`, in order, ending with those of `Shaper::new`. -/
def nodeNew (c : ShapeConfig) : Except String Unit :=
  (check (0 < c.frameSize) "frame_size must be non-zero").bind fun _ =>
  (check (idSize ≤ c.frameSize)
    s!"frame_size ({c.frameSize} bytes) must be at least ID_SIZE ({idSize} bytes) so every frame can carry its identifier prefix").bind fun _ =>
  (check (c.frameSize ≤ c.maxFrameSize)
    s!"frame_size ({c.frameSize} bytes) must not exceed max_frame_size ({c.maxFrameSize} bytes)").bind fun _ =>
  (check (c.scope ≠ .global || 0 < c.fanout)
    "fanout must be non-zero when scope is Global").bind fun _ =>
  c.shaperNew

theorem shaperNew_isOk_iff (c : ShapeConfig) : c.shaperNew.isOk = true ↔
    0 < c.highLaneCapacity ∧ 0 < c.lowLaneCapacity ∧ idSize ≤ c.frameSize := by
  simp [shaperNew]

theorem nodeNew_isOk_iff (c : ShapeConfig) : c.nodeNew.isOk = true ↔
    0 < c.frameSize ∧ idSize ≤ c.frameSize ∧ c.frameSize ≤ c.maxFrameSize ∧
      (c.scope ≠ .global ∨ 0 < c.fanout) ∧ c.shaperNew.isOk = true := by
  simp [nodeNew]

/-- The default configuration passes every assertion. -/
theorem nodeNew_default : ({} : ShapeConfig).nodeNew.isOk = true := by decide

end ShapeConfig

/-- A configuration `Shaper::new` accepts. -/
structure ShaperConfig extends ShapeConfig where
  /-- The assertions of `Shaper::new` passed. -/
  accepted : toShapeConfig.shaperNew.isOk = true

namespace ShaperConfig

variable (cfg : ShaperConfig)

theorem high_pos : 0 < cfg.highLaneCapacity := ((ShapeConfig.shaperNew_isOk_iff _).mp cfg.accepted).1

theorem low_pos : 0 < cfg.lowLaneCapacity := ((ShapeConfig.shaperNew_isOk_iff _).mp cfg.accepted).2.1

theorem scope_ne_global {cfg : ShaperConfig} {randomize : Bool} (h : cfg.scope = .perConnection randomize) :
    cfg.scope ≠ .global := by
  rw [h]
  exact ShapingScope.noConfusion

theorem idSize_le : idSize ≤ cfg.frameSize := ((ShapeConfig.shaperNew_isOk_iff _).mp cfg.accepted).2.2

end ShaperConfig

/-- A configuration `Node::new` accepts. -/
structure NodeConfig extends ShapeConfig where
  /-- The assertions of `Node::new` passed. -/
  accepted : toShapeConfig.nodeNew.isOk = true

namespace NodeConfig

variable (cfg : NodeConfig)

/-- `Node::new` hands its configuration to `Shaper::new`. -/
def shaper : ShaperConfig where
  toShapeConfig := cfg.toShapeConfig
  accepted := ((ShapeConfig.nodeNew_isOk_iff _).mp cfg.accepted).2.2.2.2

theorem frameSize_pos : 0 < cfg.frameSize := ((ShapeConfig.nodeNew_isOk_iff _).mp cfg.accepted).1

theorem frameSize_le : cfg.frameSize ≤ cfg.maxFrameSize :=
  ((ShapeConfig.nodeNew_isOk_iff _).mp cfg.accepted).2.2.1

end NodeConfig

/-! ### Random bytes -/

/-- Draw `n` bytes from a source of random bytes. -/
def drawBytes (n : ℕ) (rng : Stream' UInt8) : Bytes × Stream' UInt8 := (rng.take n, rng.drop n)

@[simp] theorem length_drawBytes (n : ℕ) (rng : Stream' UInt8) : (drawBytes n rng).1.length = n :=
  Stream'.length_take n rng

/-- `build_frame`: a random identifier, the payload, and random padding up to
`frame_size`; the identifier is returned too. -/
def buildFrame (c : ShapeConfig) (payload : Bytes) (rng : Stream' UInt8) :
    (Bytes × Bytes) × Stream' UInt8 :=
  let (id, rng) := drawBytes idSize rng
  let (pad, rng) := drawBytes (c.frameSize - idSize - payload.length) rng
  ((id, id ++ payload ++ pad), rng)

theorem length_buildFrame {c : ShapeConfig} {payload : Bytes} (rng : Stream' UInt8)
    (h : idSize ≤ c.frameSize) (hp : payload.length ≤ c.frameSize - idSize) :
    (buildFrame c payload rng).1.2.length = c.frameSize := by
  simp only [buildFrame, List.length_append, length_drawBytes]
  omega

/-! ### Cover generators -/

/-- The trait `CoverGenerator`, its state made explicit. -/
structure CoverGenerator (G : Type*) where
  /-- A single freshly-generated cover frame. -/
  cover : ShapeConfig → G → Bytes × G
  /-- Finalize a real frame just before it is written; by default, unchanged. -/
  finalizeReal : ShapeConfig → G → Bytes → Bytes × G := fun _ g frame => (frame, g)

/-- The contract of a cover generator: both hooks return exactly `frame_size` bytes. -/
structure CoverGenerator.Sized {G : Type*} (cg : CoverGenerator G) (c : ShapeConfig) : Prop where
  /-- Of `cover`. -/
  cover : ∀ g, (cg.cover c g).1.length = c.frameSize
  /-- Of `finalize_real`, on a frame of the right size. -/
  finalizeReal : ∀ g frame, frame.length = c.frameSize → (cg.finalizeReal c g frame).1.length = c.frameSize

/-- `random_cover`, the default generator: a random identifier, then random bytes. -/
def randomCover : CoverGenerator (Stream' UInt8) where
  cover c rng :=
    let (id, rng) := drawBytes idSize rng
    let (rest, rng) := drawBytes (c.frameSize - idSize) rng
    (id ++ rest, rng)

/-- The default generator keeps the contract. -/
theorem randomCover_sized {c : ShapeConfig} (h : idSize ≤ c.frameSize) : randomCover.Sized c where
  cover rng := by
    simp only [randomCover, List.length_append, length_drawBytes]
    omega
  finalizeReal _ _ hf := hf

end Peashape
