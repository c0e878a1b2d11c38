import Peashape.Shaping.TickShape
import Peashape.Model.Node

/-!
# Noninterference in `Global` scope

Whom a `Global` tick sends to depends on a queued frame in one case: a unicast frame whose
target is connected goes to that target. As long as no tick drains such a frame, the
recipients of every tick, in order, and the memory that decides those of later ticks are
the same in any two runs with the same snapshots and the same random offsets, whatever the
application submits in between: broadcast frames, relayed ones, frames for peers that have
left, frames that are refused, or nothing. See `global_noninterference`.

The argument is by unwinding along such runs (`Foundation.observeWith_eq_low`). All the
other branches of `dispatch_global` pick `fanout` targets from the whole snapshot, once.
-/

namespace Peashape.Shaping

open Foundation Shaper

variable {Addr G : Type*} [DecidableEq Addr] {w : ℕ} {cfg : ShaperConfig} {cg : CoverGenerator G}

/-- What a tick shows of the selection of peers. -/
structure Selection (Addr : Type*) (w : ℕ) where
  /-- The recipients, in order. -/
  recipients : List Addr
  /-- The cursor after the tick. -/
  cursor : BitVec w
  /-- `last_peers` after the tick. -/
  lastPeers : List Addr
  deriving DecidableEq

/-- A selection, with the memory it leaves. -/
def selection (recipients : List Addr) (sch : Scheduler Addr w) : Selection Addr w :=
  ⟨recipients, sch.cursor, sch.lastPeers⟩

/-- The selections of the ticks among the calls. -/
def selections (cfg : ShaperConfig) (cg : CoverGenerator G) (s : NodeState Addr G w) (ops : List (Op Addr)) :
    List (Selection Addr w) :=
  observeWith (NodeState.exec cfg cg) Op.snapshot?
    (fun es s => selection ((sends es).map Prod.fst) s.scheduler) s ops

/-- Whether a target is one of these peers alone. -/
def isOneOf (peers : List Addr) : Target Addr → Bool
  | .unicast p => decide (p ∈ peers)
  | .broadcast => false

/-- A call that is not a tick, or a tick that drains no unicast frame whose target is in its
snapshot. Nothing is drained outside of ticks, as `ShapingStrategy::None` would. -/
def NoUnicast (s : NodeState Addr G w) : Op Addr → Prop
  | .sendOne peers => s.shaper.nextFrame.1.any (fun f => isOneOf peers f.target) = false
  | .drainPassthrough _ => False
  | _ => True

instance (s : NodeState Addr G w) : ∀ op, Decidable (NoUnicast s op)
  | .sendOne _ => inferInstanceAs (Decidable (_ = false))
  | .drainPassthrough _ => inferInstanceAs (Decidable False)
  | .enqueue .. | .enqueueRaw .. | .refreshPcPeers _ | .prunePeerLanes _ | .nextFrame | .nextFrameFor _ =>
    inferInstanceAs (Decidable True)

/-- A tick that has no lanes: it picks from the whole snapshot. -/
def pickTick (cfg : ShaperConfig) (sch : Scheduler Addr w) : List Addr → Selection Addr w × Scheduler Addr w
  | [] => (selection [] sch, sch)
  | p :: ps =>
    let (targets, sch) := sch.pickTargets (p :: ps) (effectiveFanout cfg (p :: ps))
    (selection targets sch, sch)

/-! ### What a tick does -/

/-- **Every branch but one picks from the whole snapshot, once.** -/
theorem dispatchGlobal_picks {peers : List Addr} {frame : PendingFrame Addr} (h : isOneOf peers frame.target = false)
    (g : G) (sch : Scheduler Addr w) :
    (sends (dispatchGlobal cfg cg peers frame g sch).events).map Prod.fst =
        (sch.pickTargets peers (effectiveFanout cfg peers)).1 ∧
      (dispatchGlobal cfg cg peers frame g sch).scheduler =
        (sch.pickTargets peers (effectiveFanout cfg peers)).2 := by
  cases ht : frame.target with
  | broadcast =>
    constructor
    · rw [sends_dispatchGlobal_broadcast cfg cg g sch ht, List.map_map]
      exact List.map_id _
    · simp only [dispatchGlobal, ht]
  | unicast p =>
    rw [ht] at h
    have hp : p ∉ peers := of_decide_eq_false h
    constructor
    · rw [sends_dispatchGlobal_disconnected cfg cg g sch ht hp, map_fst_zip_covers]
    · simp only [dispatchGlobal, ht, hp, if_false]

/-- A tick that drains no unicast frame for a peer of its snapshot selects like one without
lanes. -/
theorem selection_sendOne (hscope : cfg.scope = .global) {s : NodeState Addr G w} {peers : List Addr}
    (h : NoUnicast s (.sendOne peers)) :
    selection ((sends (sendOne cfg cg peers s).1).map Prod.fst) (sendOne cfg cg peers s).2.scheduler =
        (pickTick cfg s.scheduler peers).1 ∧
      (sendOne cfg cg peers s).2.scheduler = (pickTick cfg s.scheduler peers).2 := by
  cases peers with
  | nil =>
    rw [sendOne_global_nil cg hscope]
    exact ⟨rfl, rfl⟩
  | cons p ps =>
    obtain ⟨hsends, -, hsch⟩ := sendOne_global cg hscope p ps s
    have htarget : isOneOf (p :: ps) (frameToSend cfg cg s.shaper.nextFrame.1 s.gen).1.target = false := by
      rw [frameToSend_target]
      -- cover is for everybody; a drained frame is as the condition says
      cases hf : s.shaper.nextFrame.1 with
      | none => rfl
      | some f =>
        rw [NoUnicast, hf] at h
        exact h
    obtain ⟨hpicked, hleft⟩ := dispatchGlobal_picks htarget
      (frameToSend cfg cg s.shaper.nextFrame.1 s.gen).2.2 s.scheduler
    rw [hsends, hsch, hpicked, hleft]
    exact ⟨rfl, rfl⟩

/-- A call that is not a tick, and not a drain, leaves the scheduler's memory alone. -/
theorem scheduler_of_noUnicast {s : NodeState Addr G w} {op : Op Addr} (h : NoUnicast s op)
    (hop : op.snapshot? = none) : (s.exec cfg cg op).2.scheduler = s.scheduler := by
  cases op with
  | sendOne peers => cases hop
  | drainPassthrough peers => exact h.elim
  | _ => rfl

/-! ### Two runs -/

/-- The selections of a run are those of the machine without lanes on its snapshots. -/
theorem selections_eq (hscope : cfg.scope = .global) {s : NodeState Addr G w} {ops : List (Op Addr)}
    (h : Always (NodeState.exec cfg cg) NoUnicast s ops) :
    selections cfg cg s ops = observeLow (pickTick cfg) s.scheduler (ops.filterMap Op.snapshot?) := by
  refine observeWith_eq_low (f := NodeState.exec cfg cg) NodeState.scheduler (I := fun _ => True)
    (C := NoUnicast) (fun _ _ => trivial) (fun _ h hop => scheduler_of_noUnicast h hop) ?_ trivial h
  intro s op peers _ h hop
  cases op <;> cases hop
  exact selection_sendOne hscope h

/-- **Noninterference for broadcast traffic.** Two runs from new nodes with the same
scheduler's memory and random offsets, and with the same snapshots at the ticks; any other
calls before, between and after them, and any states of the generator. If no tick of either
drains a unicast frame for a peer of its snapshot, then tick by tick the recipients, in
order, the cursor and `last_peers` are the same. -/
theorem global_noninterference (hscope : cfg.scope = .global) (sch : Scheduler Addr w) (gen gen' : G)
    {as bs : List (Op Addr)} (h : as.filterMap Op.snapshot? = bs.filterMap Op.snapshot?)
    (has : Always (NodeState.exec cfg cg) NoUnicast (.new sch gen) as)
    (hbs : Always (NodeState.exec cfg cg) NoUnicast (.new sch gen') bs) :
    selections cfg cg (.new sch gen) as = selections cfg cg (.new sch gen') bs := by
  rw [selections_eq hscope has, selections_eq hscope hbs, h]
  rfl

/-- Two ticks over three peers; in one of the runs a broadcast frame is queued, and then one
for a peer that is not there. -/
theorem global_noninterference_two :
    let cfg : ShaperConfig := { fanout := 2, frameSize := 32, accepted := by decide }
    let sch : Scheduler ℕ 64 := { rng := Stream'.const 1 }
    let as : List (Op ℕ) := [.sendOne [1, 2, 3], .sendOne [1, 2, 3]]
    let bs : List (Op ℕ) := [.enqueueRaw .low .broadcast (List.replicate 32 7), .sendOne [1, 2, 3],
      .enqueueRaw .high (.unicast 4) (List.replicate 32 8), .sendOne [1, 2, 3]]
    selections cfg randomCover (.new sch (Stream'.const 5)) as =
      selections cfg randomCover (.new sch (Stream'.const 6)) bs := by
  intro cfg sch as bs
  have has : Always (NodeState.exec cfg randomCover) NoUnicast (.new sch (Stream'.const 5)) as := by decide
  have hbs : Always (NodeState.exec cfg randomCover) NoUnicast (.new sch (Stream'.const 6)) bs := by decide
  exact global_noninterference rfl sch _ _ rfl has hbs

end Peashape.Shaping
