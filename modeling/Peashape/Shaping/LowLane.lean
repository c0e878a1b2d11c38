import Peashape.Foundation.BoundedStack
import Peashape.Foundation.Machine
import Peashape.Shaping.Submission

/-!
# The low lane is a bounded stack

The low lane is LIFO with drop-oldest: "a fresh frame is always accepted, but if the lane is
at capacity, the oldest frame is silently evicted from the back". So it is a stack of which
the bottom is lost. `lowLane_refines_stack` makes this precise for the shared low lane and for
that of any peer: it runs an unbounded stack beside the lane (`beside`), on which the same
frames are pushed and popped, and the lane is always the top of it (`BoundedStack.Below`).

The calls may be mixed with any that touch no low lane or that of another owner: high
submissions, submissions for other peers, pops that find a high frame, and prunes that list
the peer.
-/

namespace Peashape.Shaping

open Foundation Shaper NodeState

variable {Addr G : Type*} [DecidableEq Addr] {w : ℕ} {cfg : ShaperConfig} {cg : CoverGenerator G}
  {owner : Option Addr} {s : NodeState Addr G w} {op : Op Addr}

/-- The calls of this module: submissions, pops, lists without duplicates for the cache, and
prunes that do not drop the owner's lanes. -/
def LowCall (owner : Option Addr) : Op Addr → Prop
  | .enqueue .. | .enqueueRaw .. | .nextFrame | .nextFrameFor _ => True
  | .refreshPcPeers peers => peers.Nodup
  | .prunePeerLanes connected => ∀ p ∈ owner, p ∈ connected
  | .sendOne _ | .drainPassthrough _ => False

instance (owner : Option Addr) : ∀ op, Decidable (LowCall owner op)
  | .enqueue .. | .enqueueRaw .. | .nextFrame | .nextFrameFor _ => inferInstanceAs (Decidable True)
  | .refreshPcPeers peers => inferInstanceAs (Decidable peers.Nodup)
  | .prunePeerLanes connected => inferInstanceAs (Decidable (∀ p ∈ owner, p ∈ connected))
  | .sendOne _ | .drainPassthrough _ => inferInstanceAs (Decidable False)

/-- What a frame asks of the owner's low lane: one of the right size, for the low lane, is to be
pushed on it if it is among the destinations. -/
def lowPush (cfg : ShaperConfig) (s : NodeState Addr G w) (owner : Option Addr) :
    Option (Lane × Target Addr × Bytes) → Option (StackOp (PendingFrame Addr))
  | some (.low, target, frame) =>
    if frame.length = cfg.frameSize ∧ owner ∈ destinations cfg s.shaper target
    then some (.push (queuedFrame s.calls target frame owner)) else none
  | _ => none

/-- What a call asks of the owner's low lane: a submission, a push; a pop, to be popped, if the
high lane is empty. -/
def lowOp (cfg : ShaperConfig) (s : NodeState Addr G w) (owner : Option Addr) (op : Op Addr) :
    Option (StackOp (PendingFrame Addr)) :=
  match op with
  | .nextFrame => if owner = none ∧ (s.shaper.lanesAt owner).high = [] then some .pop else none
  | .nextFrameFor peer => if owner = some peer ∧ (s.shaper.lanesAt owner).high = [] then some .pop else none
  | op => lowPush cfg s owner (op.raw? cfg.toShapeConfig)

/-- The frame a pop gives. -/
def popped (s : NodeState Addr G w) : Op Addr → Option (PendingFrame Addr)
  | .nextFrame => s.shaper.nextFrame.1
  | .nextFrameFor peer => (s.shaper.nextFrameFor peer).1
  | _ => none

/-- The unbounded stack after an operation on the low lane, if there is one. -/
def stackAfter (low t : List (PendingFrame Addr)) :
    Option (StackOp (PendingFrame Addr)) → List (PendingFrame Addr)
  | none => t
  | some o => BoundedStack.stepBeside low t o

/-- The node, and beside it an unbounded stack that does what the owner's low lane is asked. -/
def beside (cfg : ShaperConfig) (cg : CoverGenerator G) (owner : Option Addr)
    (st : NodeState Addr G w × List (PendingFrame Addr)) (op : Op Addr) :
    Option (List (Event Addr) × NodeState Addr G w × List (PendingFrame Addr)) :=
  some ((st.1.exec cfg cg op).1, (st.1.exec cfg cg op).2,
    stackAfter (st.1.shaper.lanesAt owner).low st.2 (lowOp cfg st.1 owner op))

/-- The low lane after an operation, if there is one. -/
def lowAfter (cfg : ShaperConfig) (low : List (PendingFrame Addr)) :
    Option (StackOp (PendingFrame Addr)) → List (PendingFrame Addr)
  | none => low
  | some o => BoundedStack.step cfg.lowLaneCapacity low o

/-! ### One call -/

/-- Low frames find room. -/
theorem enqueueRaw_low (call : ℕ) (target : Target Addr) {frame : Bytes} (hsize : frame.length = cfg.frameSize)
    (sh : Shaper Addr) : (enqueueRaw cfg call .low target frame sh).1 = .ok () :=
  enqueueRaw_fst_of_room hsize fun h => Lane.noConfusion h.1

/-- What a submission does to the low lane. -/
theorem low_submit (hnd : s.shaper.pcPeers.Nodup) (hop : op.submits = true) :
    ((s.exec cfg cg op).2.shaper.lanesAt owner).low =
      lowAfter cfg (s.shaper.lanesAt owner).low (lowOp cfg s owner op) := by
  have hlow : lowOp cfg s owner op = lowPush cfg s owner (op.raw? cfg.toShapeConfig) := by
    cases op <;> first | rfl | cases hop
  rw [lanesAt_submit hnd hop, hlow, added]
  rcases op.raw? cfg.toShapeConfig with _ | ⟨_ | _, target, frame⟩
  · rfl
  · -- a high frame
    simp only [lowPush]
    split_ifs <;> rfl
  · simp only [lowPush]
    by_cases hsize : frame.length = cfg.frameSize
    · simp only [enqueueRaw_low s.calls target hsize s.shaper, hsize, true_and]
      split_ifs <;> rfl
    · simp only [enqueueRaw_of_size_ne hsize, hsize, false_and, if_false]
      rfl

/-- **What a call does to the low lane** is the operation it asks of it. -/
theorem low_exec (hnd : s.shaper.pcPeers.Nodup) (hcall : LowCall owner op) :
    ((s.exec cfg cg op).2.shaper.lanesAt owner).low =
      lowAfter cfg (s.shaper.lanesAt owner).low (lowOp cfg s owner op) := by
  cases op with
  | enqueue lane target payload rng => exact low_submit hnd rfl
  | enqueueRaw lane target frame => exact low_submit hnd rfl
  | nextFrame =>
    simp only [NodeState.exec, (lanesAt_nextFrame s.shaper owner).2, lowOp]
    by_cases howner : owner = none
    · subst howner
      by_cases hhigh : (s.shaper.lanesAt none).high = []
      · simp [hhigh, PeerLanes.take_of_high_nil hhigh, lowAfter, BoundedStack.step]
      · simp [hhigh, PeerLanes.take_of_high_ne hhigh, lowAfter]
    · simp [howner, lowAfter]
  | nextFrameFor peer =>
    simp only [NodeState.exec, (lanesAt_nextFrameFor s.shaper peer owner).2, lowOp]
    by_cases howner : owner = some peer
    · subst howner
      show _ = lowAfter cfg (s.shaper.lanesOf peer).low
        (if some peer = some peer ∧ (s.shaper.lanesOf peer).high = [] then some .pop else none)
      by_cases hhigh : (s.shaper.lanesOf peer).high = []
      · simp [hhigh, PeerLanes.take_of_high_nil hhigh, lowAfter, BoundedStack.step]
      · simp [hhigh, PeerLanes.take_of_high_ne hhigh, lowAfter]
    · simp [howner, lowAfter]
  | refreshPcPeers peers => cases owner <;> rfl
  | prunePeerLanes connected =>
    simp only [NodeState.exec, lanesAt_prunePeerLanes hcall]
    rfl
  | sendOne peers => exact hcall.elim
  | drainPassthrough peers => exact hcall.elim

/-- A call keeps the cache without duplicates. -/
theorem nodup_pcPeers_exec (hnd : s.shaper.pcPeers.Nodup) (hcall : LowCall owner op) :
    (s.exec cfg cg op).2.shaper.pcPeers.Nodup := by
  cases op with
  | enqueue lane target payload rng => simpa only [NodeState.exec, pcPeers_enqueue] using hnd
  | enqueueRaw lane target frame => simpa only [NodeState.exec, pcPeers_enqueueRaw] using hnd
  | nextFrame => simpa only [NodeState.exec, pcPeers_nextFrame] using hnd
  | nextFrameFor peer => simpa only [NodeState.exec, pcPeers_nextFrameFor] using hnd
  | refreshPcPeers peers => exact hcall
  | prunePeerLanes connected => simpa only [NodeState.exec, pcPeers_prunePeerLanes] using hnd
  | sendOne peers => exact hcall.elim
  | drainPassthrough peers => exact hcall.elim

/-- An operation on the low lane comes of a pop that finds the high lane empty, or of a low
submission of the right size. -/
theorem lowOp_cases {o : StackOp (PendingFrame Addr)} (h : lowOp cfg s owner op = some o) :
    (o = .pop ∧ popped s op = (s.shaper.lanesAt owner).low.head?) ∨
      ∃ target frame, op.raw? cfg.toShapeConfig = some (.low, target, frame) ∧
        frame.length = cfg.frameSize ∧ o = .push (queuedFrame s.calls target frame owner) := by
  cases op with
  | nextFrame =>
    simp only [lowOp] at h
    split_ifs at h with hpop
    obtain ⟨rfl, hhigh⟩ := hpop
    refine .inl ⟨(Option.some.inj h).symm, ?_⟩
    rw [popped, (lanesAt_nextFrame s.shaper none).1, PeerLanes.take_of_high_nil hhigh]
  | nextFrameFor peer =>
    simp only [lowOp] at h
    split_ifs at h with hpop
    obtain ⟨rfl, hhigh⟩ := hpop
    have hhigh : (s.shaper.lanesOf peer).high = [] := hhigh
    refine .inl ⟨(Option.some.inj h).symm, ?_⟩
    rw [popped, (lanesAt_nextFrameFor s.shaper peer none).1, PeerLanes.take_of_high_nil hhigh]
    rfl
  | _ =>
    simp only [lowOp, lowPush] at h
    split at h
    · rename_i target frame hraw
      split_ifs at h with hdest
      exact .inr ⟨target, frame, hraw, hdest.1, (Option.some.inj h).symm⟩
    · cases h

/-! ### Runs -/

/-- What holds of the node and the stack beside it. -/
structure StackInv (cfg : ShaperConfig) (owner : Option Addr) (s : NodeState Addr G w)
    (t : List (PendingFrame Addr)) : Prop where
  /-- No peer is cached twice. -/
  cached : s.shaper.pcPeers.Nodup
  /-- The low lane is the top of the stack. -/
  below : BoundedStack.Below cfg.lowLaneCapacity (s.shaper.lanesAt owner).low t

theorem StackInv.step {t : List (PendingFrame Addr)} (hi : StackInv cfg owner s t) (hcall : LowCall owner op) :
    StackInv cfg owner (s.exec cfg cg op).2
      (stackAfter (s.shaper.lanesAt owner).low t (lowOp cfg s owner op)) := by
  refine ⟨nodup_pcPeers_exec hi.cached hcall, ?_⟩
  rw [low_exec hi.cached hcall]
  cases lowOp cfg s owner op with
  | none => exact hi.below
  | some o => exact hi.below.step cfg.low_pos o

/-- **The low lane refines a stack.** Take any run of the calls of this module on a new node,
and beside it an unbounded stack on which every frame pushed on the low lane of the owner is
pushed, and from which one is popped with every pop that finds the lane not empty. Then the
lane, front to back, is a prefix of the stack of at most `low_lane_capacity` frames; and
whatever is called next:

* a pop of the lane gives the frame at the top of the stack, if the lane is not empty, and
  takes it off; of an empty lane it gives none;
* a push succeeds and puts the frame in front; at capacity, and only there, it drops the last
  frame, the oldest;
* any other call leaves the lane alone. -/
theorem lowLane_refines_stack {sch : Scheduler Addr w} {gen : G} {ops : List (Op Addr)} {tr : List (Event Addr)}
    {t : List (PendingFrame Addr)}
    (h : Run (Along (stepOf (beside cfg cg owner)) fun _ op => LowCall owner op) (.new sch gen, []) ops tr (s, t)) :
    let low := (s.shaper.lanesAt owner).low
    (low <+: t ∧ low.length ≤ cfg.lowLaneCapacity) ∧
    ∀ op, LowCall owner op →
      let low' := ((s.exec cfg cg op).2.shaper.lanesAt owner).low
      (lowOp cfg s owner op = some .pop →
        low' = low.tail ∧ if low = [] then popped s op = none
          else popped s op = low.head? ∧ popped s op = t.head?) ∧
      (∀ f, lowOp cfg s owner op = some (.push f) →
        (∃ target frame, op.raw? cfg.toShapeConfig = some (.low, target, frame) ∧
          f = queuedFrame s.calls target frame owner ∧
          (enqueueRaw cfg s.calls .low target frame s.shaper).1 = .ok ()) ∧
        ((low.length < cfg.lowLaneCapacity ∧ low' = f :: low) ∨
          (low.length = cfg.lowLaneCapacity ∧ low' = f :: low.dropLast))) ∧
      (lowOp cfg s owner op = none → low' = low) := by
  have hinv : StackInv cfg owner s t := by
    refine h.invariant (I := fun _ st => StackInv cfg owner st.1 st.2) ⟨List.nodup_nil, ?_⟩ ?_
    · cases owner <;> exact BoundedStack.Below.nil
    · rintro tr ⟨s, t⟩ op es ⟨s', t'⟩ hi ⟨hstep, hcall⟩
      cases hstep
      exact hi.step hcall
  intro low
  refine ⟨⟨hinv.below.isPrefix, hinv.below.length_le⟩, fun op hcall => ?_⟩
  intro low'
  have hlow : low' = lowAfter cfg low (lowOp cfg s owner op) := low_exec hinv.cached hcall
  refine ⟨fun hop => ?_, fun f hop => ?_, fun hop => ?_⟩ <;> rw [hop] at hlow
  · obtain ⟨-, hpopped⟩ | ⟨_, _, _, _, hpush⟩ := lowOp_cases hop
    · refine ⟨hlow, ?_⟩
      split_ifs with hnil
      · rw [hpopped]
        exact congrArg List.head? hnil
      · exact ⟨hpopped, hpopped.trans (hinv.below.head? hnil)⟩
    · cases hpush
  · obtain ⟨hpop, -⟩ | ⟨target, frame, hraw, hsize, hpush⟩ := lowOp_cases hop
    · cases hpop
    · cases hpush
      refine ⟨⟨target, frame, hraw, rfl, enqueueRaw_low s.calls target hsize s.shaper⟩, ?_⟩
      rw [hlow]
      rcases BoundedStack.drops cfg.low_pos hinv.below.length_le with ⟨hlt, hkept⟩ | ⟨heq, hkept⟩
      · exact .inl ⟨hlt, congrArg (List.cons _) hkept⟩
      · exact .inr ⟨heq, congrArg (List.cons _) hkept⟩
  · exact hlow

/-- A peer with room for one low frame: two broadcasts and a pop. -/
theorem lowLane_refines_stack_two :
    let cfg : ShaperConfig :=
      { scope := .perConnection true, frameSize := 32, lowLaneCapacity := 1, accepted := by decide }
    let s₀ : NodeState ℕ (Stream' UInt8) 64 := .new { rng := Stream'.const 1 } (Stream'.const 5)
    let ops : List (Op ℕ) := [.refreshPcPeers [1, 2], .enqueueRaw .low .broadcast (List.replicate 32 7),
      .enqueueRaw .low (.unicast 1) (List.replicate 32 8), .nextFrameFor 1]
    ∃ tr s t, Run (Along (stepOf (beside cfg randomCover (some 1))) fun _ op => LowCall (some 1) op) (s₀, []) ops
        tr (s, t) ∧
      let low := (s.shaper.lanesAt (some 1)).low
      (low <+: t ∧ low.length ≤ cfg.lowLaneCapacity) ∧
      ∀ op, LowCall (some 1) op →
        let low' := ((s.exec cfg randomCover op).2.shaper.lanesAt (some 1)).low
        (lowOp cfg s (some 1) op = some .pop →
          low' = low.tail ∧ if low = [] then popped s op = none
            else popped s op = low.head? ∧ popped s op = t.head?) ∧
        (∀ f, lowOp cfg s (some 1) op = some (.push f) →
          (∃ target frame, op.raw? cfg.toShapeConfig = some (.low, target, frame) ∧
            f = queuedFrame s.calls target frame (some 1) ∧
            (enqueueRaw cfg s.calls .low target frame s.shaper).1 = .ok ()) ∧
          ((low.length < cfg.lowLaneCapacity ∧ low' = f :: low) ∨
            (low.length = cfg.lowLaneCapacity ∧ low' = f :: low.dropLast))) ∧
        (lowOp cfg s (some 1) op = none → low' = low) := by
  intro cfg s₀ ops
  obtain ⟨tr, st, h⟩ : ∃ tr st, exec (guarded (beside cfg randomCover (some 1)) fun _ op => LowCall (some 1) op)
    (s₀, []) ops = some (tr, st) := ⟨_, _, rfl⟩
  obtain ⟨s, t⟩ := st
  exact ⟨tr, s, t, run_along_of_exec h, lowLane_refines_stack (run_along_of_exec h)⟩

end Peashape.Shaping
