import Peashape.Model.Scheduler

/-!
# The shape of a tick in `Global` scope

"The *number* of frames a tick puts on the wire must not depend on whether the drained
frame is real or cover, nor on whether it is unicast or broadcast." This module proves
it of `dispatch_global`, for every snapshot, fanout, frame, scheduler memory and
sequence of random numbers: see `dispatchGlobal_shape`.

The loop of `pick_targets` moves peers from its two pools to the list of chosen ones;
chosen and pools together are always a permutation of the peers (`pickStep_perm`),
which gives at once that the chosen peers are distinct and connected, and, with the
count of rounds, how many they are (`pickTargets_perm`, `length_pickTargets`).
-/

namespace Peashape.Shaping

open Foundation Scheduler

variable {Addr G : Type*} {w : ℕ}

/-! ### The loop of `pick_targets` -/

section Picking

variable {peers : List Addr}

/-- The peers still in the pools, fresh ones first. -/
def pooled (st : Picking peers w) : List Addr := (st.fresh ++ st.used).map peers.get

theorem drawFrom_perm {n : ℕ} (cursor : BitVec w) (rng : Stream' ℕ) (a : Fin n) (pool : List (Fin n)) :
    ((drawFrom cursor rng a pool).1 :: (drawFrom cursor rng a pool).2.1).Perm (a :: pool) :=
  Deque.removeAt_perm _ _ _

/-- A round moves one peer from the pools to the chosen ones. -/
theorem pickStep_perm {st st' : Picking peers w} (h : pickStep st = some st') :
    ∃ p, st'.chosen = st.chosen ++ [p] ∧ (p :: pooled st').Perm (pooled st) := by
  obtain ⟨fresh, used, chosen, cursor, rng⟩ := st
  rcases fresh with _ | ⟨a, fresh⟩
  · rcases used with _ | ⟨a, used⟩
    · simp [pickStep] at h
    · simp only [pickStep, Option.some.injEq] at h
      subst h
      exact ⟨_, rfl, by simpa [pooled] using (drawFrom_perm cursor rng a used).map peers.get⟩
  · simp only [pickStep, Option.some.injEq] at h
    subst h
    refine ⟨_, rfl, ?_⟩
    simpa [pooled] using ((drawFrom_perm cursor rng a fresh).map peers.get).append_right (used.map peers.get)

/-- The loop breaks only when the pools are empty. -/
theorem pickStep_eq_none {st : Picking peers w} (h : pickStep st = none) : pooled st = [] := by
  obtain ⟨fresh, used, chosen, cursor, rng⟩ := st
  rcases fresh with _ | ⟨a, fresh⟩
  · rcases used with _ | ⟨a, used⟩
    · rfl
    · simp [pickStep] at h
  · simp [pickStep] at h

/-- Chosen and pooled together are, after any number of rounds, what they were. -/
theorem pickLoop_perm : ∀ (k : ℕ) (st : Picking peers w),
    ((pickLoop k st).chosen ++ pooled (pickLoop k st)).Perm (st.chosen ++ pooled st) := by
  intro k
  induction k with
  | zero => exact fun _ => .refl _
  | succ k ih =>
    intro st
    cases hs : pickStep st with
    | none => simp only [pickLoop, hs]; exact .refl _
    | some st' =>
      obtain ⟨p, hc, hp⟩ := pickStep_perm hs
      simp only [pickLoop, hs]
      apply (ih st').trans
      rw [hc, List.append_assoc]
      exact hp.append_left _

/-- Every round chooses one peer, as long as there is one. -/
theorem length_pickLoop : ∀ (k : ℕ) (st : Picking peers w),
    (pickLoop k st).chosen.length = st.chosen.length + min k (pooled st).length := by
  intro k
  induction k with
  | zero => simp [pickLoop]
  | succ k ih =>
    intro st
    cases hs : pickStep st with
    | none => simp [pickLoop, hs, pickStep_eq_none hs]
    | some st' =>
      obtain ⟨p, hc, hp⟩ := pickStep_perm hs
      have hlen := hp.length_eq
      simp only [List.length_cons] at hlen
      simp only [pickLoop, hs, ih st', hc, List.length_append, List.length_singleton]
      omega

variable [DecidableEq Addr]

/-- The loop starts with all peers in the pools. -/
theorem pooled_pickStart (peers : List Addr) (sch : Scheduler Addr w) :
    (pooled (pickStart peers sch)).Perm peers := by
  have hpart : (pooled (pickStart peers sch)).Perm ((List.finRange peers.length).map peers.get) := by
    simp only [pooled, pickStart, List.partition_eq_filter_filter]
    exact (List.perm_append_comm.trans (List.filter_append_perm _ _)).map _
  rwa [List.map_get_finRange] at hpart

/-- The chosen peers, with those not chosen, are all the peers. -/
theorem pickTargets_perm (peers : List Addr) (fanout : ℕ) (sch : Scheduler Addr w) :
    ∃ rest, ((sch.pickTargets peers fanout).1 ++ rest).Perm peers := by
  unfold pickTargets
  split_ifs with h
  · exact ⟨peers, .refl _⟩
  · exact ⟨_, (pickLoop_perm _ _).trans (by simpa [pickStart] using pooled_pickStart peers sch)⟩

/-- `pick_targets` returns `fanout` peers, or all if there are fewer. -/
theorem length_pickTargets (peers : List Addr) (fanout : ℕ) (sch : Scheduler Addr w) :
    (sch.pickTargets peers fanout).1.length = min fanout peers.length := by
  unfold pickTargets
  split_ifs with h
  · simp [h]
  · have hlen := (pooled_pickStart peers sch).length_eq
    simp only [length_pickLoop, hlen]
    simp [pickStart]

theorem mem_of_mem_pickTargets {peers : List Addr} {fanout : ℕ} {sch : Scheduler Addr w} {p : Addr}
    (h : p ∈ (sch.pickTargets peers fanout).1) : p ∈ peers := by
  obtain ⟨rest, hr⟩ := pickTargets_perm peers fanout sch
  exact hr.mem_iff.mp (List.mem_append_left _ h)

theorem nodup_pickTargets {peers : List Addr} (hnd : peers.Nodup) (fanout : ℕ) (sch : Scheduler Addr w) :
    (sch.pickTargets peers fanout).1.Nodup := by
  obtain ⟨rest, hr⟩ := pickTargets_perm peers fanout sch
  exact (List.nodup_append.mp (hr.nodup_iff.mpr hnd)).1

end Picking

/-! ### What is handed to the writer -/

section Sends

variable (cfg : ShaperConfig) (cg : CoverGenerator G)

/-- The peers sent to, in order. -/
def recipients (es : List (Event Addr)) : List Addr := (sends es).map Prod.fst

@[simp] theorem sends_append (tr tr' : List (Event Addr)) : sends (tr ++ tr') = sends tr ++ sends tr' :=
  List.filterMap_append

@[simp] theorem genResults_append (tr tr' : List (Event Addr)) :
    genResults (tr ++ tr') = genResults tr ++ genResults tr' :=
  List.filterMap_append

theorem mem_sends_iff {tr : List (Event Addr)} {peer : Addr} {f : PendingFrame Addr} :
    (peer, f) ∈ sends tr ↔ .send peer f ∈ tr := by
  simp only [sends, List.mem_filterMap]
  constructor
  · rintro ⟨e, he, hf⟩
    cases e with
    | send q g =>
      cases hf
      exact he
    | _ => cases hf
  · exact fun h => ⟨_, h, rfl⟩

/-- One fresh cover frame to each target, in order. -/
theorem sends_sendCovers (targets : List Addr) (g : G) :
    sends (sendCovers cfg.toShapeConfig cg targets g).1 =
      targets.zip (covers cfg.toShapeConfig cg targets.length g) := by
  induction targets generalizing g with
  | nil => rfl
  | cons peer targets ih =>
    simp only [sendCovers, List.length_cons, covers, List.zip_cons_cons, ← ih]
    rfl

/-- The generator is called once for each target. -/
theorem genResults_sendCovers (targets : List Addr) (g : G) :
    genResults (sendCovers cfg.toShapeConfig cg targets g).1 = covers cfg.toShapeConfig cg targets.length g := by
  induction targets generalizing g with
  | nil => rfl
  | cons peer targets ih =>
    simp only [sendCovers, List.length_cons, covers, ← ih]
    rfl

@[simp] theorem length_covers (n : ℕ) (g : G) :
    (covers cfg.toShapeConfig cg n g : List (PendingFrame Addr)).length = n := by
  induction n generalizing g with
  | zero => rfl
  | succ n ih => simp [covers, ih]

theorem of_mem_covers {n : ℕ} {g : G} {f : PendingFrame Addr}
    (h : f ∈ covers cfg.toShapeConfig cg n g) : f.target = .broadcast ∧ f.origin = .cover := by
  induction n generalizing g with
  | zero => simp [covers] at h
  | succ n ih =>
    rcases List.mem_cons.mp h with rfl | h
    · exact ⟨rfl, rfl⟩
    · exact ih h

/-- The frame to each target, in order. -/
theorem sends_map_send (targets : List Addr) (f : PendingFrame Addr) :
    sends (targets.map fun peer => .send peer f) = targets.map fun peer => (peer, f) := by
  induction targets with
  | nil => rfl
  | cons peer targets ih => rw [List.map_cons, List.map_cons, ← ih]; rfl

variable [DecidableEq Addr]

/-- A broadcast frame, real or cover, goes to the picked peers. -/
theorem sends_dispatchGlobal_broadcast {peers : List Addr} {frame : PendingFrame Addr} (g : G)
    (sch : Scheduler Addr w) (h : frame.target = .broadcast) :
    sends (dispatchGlobal cfg cg peers frame g sch).events =
      (sch.pickTargets peers (effectiveFanout cfg peers)).1.map fun peer => (peer, frame) := by
  simp only [dispatchGlobal, h, sends_map_send]

/-- A unicast frame to a connected peer goes to it, and fresh cover to others. -/
theorem sends_dispatchGlobal_connected {peers : List Addr} {frame : PendingFrame Addr} {p : Addr} (g : G)
    (sch : Scheduler Addr w) (h : frame.target = .unicast p) (hp : p ∈ peers) :
    let others := peers.filter (· ≠ p)
    let targets := (sch.pickTargets others (min (effectiveFanout cfg peers - 1) others.length)).1
    sends (dispatchGlobal cfg cg peers frame g sch).events =
      (p, frame) :: targets.zip (covers cfg.toShapeConfig cg targets.length g) := by
  simp only [dispatchGlobal, h, hp, if_true, ← sends_sendCovers]
  rfl

/-- A unicast frame to a disconnected peer goes to nobody; fresh cover goes out instead. -/
theorem sends_dispatchGlobal_disconnected {peers : List Addr} {frame : PendingFrame Addr} {p : Addr} (g : G)
    (sch : Scheduler Addr w) (h : frame.target = .unicast p) (hp : p ∉ peers) :
    let targets := (sch.pickTargets peers (effectiveFanout cfg peers)).1
    sends (dispatchGlobal cfg cg peers frame g sch).events =
      targets.zip (covers cfg.toShapeConfig cg targets.length g) := by
  simp only [dispatchGlobal, h, hp, if_false, ← sends_sendCovers]

end Sends

/-! ### The shape -/

section Shape

variable (cfg : ShaperConfig) (cg : CoverGenerator G)

theorem effectiveFanout_pos (peers : List Addr) : 0 < effectiveFanout cfg peers :=
  lt_of_lt_of_le Nat.one_pos (le_max_right _ _)

theorem effectiveFanout_le {peers : List Addr} (h : peers ≠ []) :
    effectiveFanout cfg peers ≤ peers.length := by
  have := List.length_pos_iff.mpr h
  unfold effectiveFanout
  omega

theorem length_filter_ne [DecidableEq Addr] {peers : List Addr} (hnd : peers.Nodup) {p : Addr} (hp : p ∈ peers) :
    (peers.filter (· ≠ p)).length = peers.length - 1 := by
  have he : peers.filter (· ≠ p) = peers.erase p := by
    rw [hnd.erase_eq_filter]
    exact List.filter_congr fun q _ => by simp [bne, BEq.beq]
  rw [he, List.length_erase_of_mem hp]

theorem map_fst_zip_covers (targets : List Addr) (g : G) :
    (targets.zip (covers cfg.toShapeConfig cg targets.length g : List (PendingFrame Addr))).map Prod.fst =
      targets := by
  rw [List.map_fst_zip]
  simp

theorem map_snd_zip_covers (targets : List Addr) (g : G) :
    (targets.zip (covers cfg.toShapeConfig cg targets.length g : List (PendingFrame Addr))).map Prod.snd =
      covers cfg.toShapeConfig cg targets.length g := by
  rw [List.map_snd_zip]
  simp

variable [DecidableEq Addr]

/-- The recipients of a tick, in order. -/
theorem recipients_dispatchGlobal {peers : List Addr} (frame : PendingFrame Addr) (g : G)
    (sch : Scheduler Addr w) :
    let out := sends (dispatchGlobal cfg cg peers frame g sch).events
    (∃ p, frame.target = .unicast p ∧ p ∈ peers ∧
      out.map Prod.fst = p :: (sch.pickTargets (peers.filter (· ≠ p))
        (min (effectiveFanout cfg peers - 1) (peers.filter (· ≠ p)).length)).1) ∨
    ((∀ p, frame.target = .unicast p → p ∉ peers) ∧
      out.map Prod.fst = (sch.pickTargets peers (effectiveFanout cfg peers)).1) := by
  intro out
  cases ht : frame.target with
  | broadcast =>
    refine .inr ⟨by simp, ?_⟩
    simp only [out, sends_dispatchGlobal_broadcast cfg cg g sch ht, List.map_map]
    exact List.map_id _
  | unicast p =>
    by_cases hp : p ∈ peers
    · refine .inl ⟨p, rfl, hp, ?_⟩
      simp only [out, sends_dispatchGlobal_connected cfg cg g sch ht hp, List.map_cons, map_fst_zip_covers]
    · refine .inr ⟨by rintro q ⟨⟩; exact hp, ?_⟩
      simp only [out, sends_dispatchGlobal_disconnected cfg cg g sch ht hp, map_fst_zip_covers]

/-- **The shape of a tick**, for a nonempty snapshot without duplicates: exactly
`max 1 (min fanout n)` frames, to distinct connected peers. A broadcast frame is what
every one of them gets; a unicast frame to a connected peer goes to it, first and once,
and fresh cover to the others; a unicast frame to a disconnected peer goes to nobody. -/
theorem dispatchGlobal_shape {peers : List Addr} (hne : peers ≠ []) (hnd : peers.Nodup)
    (frame : PendingFrame Addr) (g : G) (sch : Scheduler Addr w) :
    let out := sends (dispatchGlobal cfg cg peers frame g sch).events
    out.length = max 1 (min cfg.fanout peers.length) ∧
    (out.map Prod.fst).Nodup ∧ (∀ p ∈ out.map Prod.fst, p ∈ peers) ∧
    (frame.target = .broadcast → ∀ x ∈ out, x.2 = frame) ∧
    (∀ p, frame.target = .unicast p → p ∈ peers →
      ∃ rest, out = (p, frame) :: rest ∧ p ∉ rest.map Prod.fst ∧
        rest.map Prod.snd = covers cfg.toShapeConfig cg rest.length g) ∧
    (∀ p, frame.target = .unicast p → p ∉ peers →
      out.map Prod.snd = covers cfg.toShapeConfig cg out.length g ∧ ∀ x ∈ out, x.2 ≠ frame) := by
  intro out
  have hpos := effectiveFanout_pos cfg peers
  have hle := effectiveFanout_le cfg hne
  have hfan : effectiveFanout cfg peers = max 1 (min cfg.fanout peers.length) := max_comm _ _
  have hlen : out.length = (out.map Prod.fst).length := (List.length_map _).symm
  have hothers : ∀ {p q : Addr}, q ∈ peers.filter (· ≠ p) → q ∈ peers ∧ q ≠ p := fun h => by
    simpa using List.mem_filter.mp h
  refine ⟨?_, ?_, ?_, ?_, ?_, ?_⟩
  · rw [hlen, ← hfan]
    rcases recipients_dispatchGlobal cfg cg frame g sch with ⟨p, -, hp, hr⟩ | ⟨-, hr⟩ <;> rw [hr]
    · rw [List.length_cons, length_pickTargets, length_filter_ne hnd hp]
      omega
    · rw [length_pickTargets]
      omega
  · rcases recipients_dispatchGlobal cfg cg frame g sch with ⟨p, -, -, hr⟩ | ⟨-, hr⟩ <;> rw [hr]
    · refine List.nodup_cons.mpr ⟨fun h => ?_, nodup_pickTargets (hnd.filter _) _ _⟩
      exact (hothers (mem_of_mem_pickTargets h)).2 rfl
    · exact nodup_pickTargets hnd _ _
  · rcases recipients_dispatchGlobal cfg cg frame g sch with ⟨p, -, hp, hr⟩ | ⟨-, hr⟩ <;> rw [hr]
    · intro q hq
      rcases List.mem_cons.mp hq with rfl | hq
      · exact hp
      · exact (hothers (mem_of_mem_pickTargets hq)).1
    · exact fun q hq => mem_of_mem_pickTargets hq
  · intro ht x hx
    simp only [out, sends_dispatchGlobal_broadcast cfg cg g sch ht, List.mem_map] at hx
    obtain ⟨peer, -, rfl⟩ := hx
    rfl
  · intro p ht hp
    refine ⟨_, sends_dispatchGlobal_connected cfg cg g sch ht hp, ?_, ?_⟩
    · rw [map_fst_zip_covers]
      exact fun h => (hothers (mem_of_mem_pickTargets h)).2 rfl
    · rw [map_snd_zip_covers]
      simp
  · intro p ht hp
    have hout := sends_dispatchGlobal_disconnected cfg cg g sch ht hp
    refine ⟨?_, fun x hx he => ?_⟩
    · simp only [out, hout, map_snd_zip_covers]
      simp
    · -- cover is addressed to everybody, the frame is not
      simp only [out, hout] at hx
      have hc := (of_mem_covers cfg cg (List.of_mem_zip hx).2).1
      rw [he, ht] at hc
      cases hc

/-- Three peers, fanout `3`, and a unicast frame to the second of them: three frames go
out, to distinct peers. -/
theorem dispatchGlobal_shape_unicast :
    let out := sends (dispatchGlobal ⟨{}, by decide⟩ randomCover [10, 20, 30]
      ⟨[], .unicast 20, .enqueued 0⟩ (Stream'.const 0)
      (⟨0, [10], Stream'.const 1⟩ : Scheduler ℕ 64)).events
    out.length = 3 ∧ (out.map Prod.fst).Nodup ∧ ∃ rest, out = (20, ⟨[], .unicast 20, .enqueued 0⟩) :: rest := by
  intro out
  obtain ⟨hlen, hnd, -, -, hconn, -⟩ := dispatchGlobal_shape ⟨{}, by decide⟩ randomCover
    (show [10, 20, 30] ≠ [] by decide) (by decide) ⟨[], .unicast 20, .enqueued 0⟩ (Stream'.const 0)
    (⟨0, [10], Stream'.const 1⟩ : Scheduler ℕ 64)
  obtain ⟨rest, hrest, -⟩ := hconn 20 rfl (by decide)
  exact ⟨hlen, hnd, rest, hrest⟩

end Shape

/-! ### The whole tick -/

section Tick

variable [DecidableEq Addr] {cfg : ShaperConfig} (cg : CoverGenerator G)

/-- The tick of `Global` scope with peers connected, taken apart: it dispatches a frame,
finalized if one was queued and cover if not, and calls the generator for that frame first. -/
theorem sendOne_global (hscope : cfg.scope = .global) (p : Addr) (ps : List Addr) (s : NodeState Addr G w) :
    let result := frameToSend cfg cg s.shaper.nextFrame.1 s.gen
    let d := dispatchGlobal cfg cg (p :: ps) result.1 result.2.2 s.scheduler
    sends (sendOne cfg cg (p :: ps) s).1 = sends d.events ∧
      genResults (sendOne cfg cg (p :: ps) s).1 = result.1 :: genResults d.events ∧
      (sendOne cfg cg (p :: ps) s).2.scheduler = d.scheduler := by
  intro result d
  have hpop : sends s.shaper.nextFrameEvents = [] ∧ genResults s.shaper.nextFrameEvents = [] :=
    reads_of_ofShaper Shaper.ofShaper_nextFrameEvents
  have hes : (sendOne cfg cg (p :: ps) s).1 =
      [.snapshot (p :: ps)] ++ s.shaper.nextFrameEvents ++ [result.2.1] ++ d.events := by
    simp only [sendOne, hscope, List.append_assoc, List.singleton_append]
    rfl
  have hcall : sends [result.2.1] = [] ∧ genResults [result.2.1] = [result.1] := by
    simp only [result]
    cases s.shaper.nextFrame.1 <;> exact ⟨rfl, rfl⟩
  refine ⟨?_, ?_, ?_⟩
  · rw [hes, sends_append, sends_append, sends_append, hpop.1, hcall.1]
    rfl
  · rw [hes, genResults_append, genResults_append, genResults_append, hpop.2, hcall.2]
    rfl
  · simp only [sendOne, hscope]
    rfl

/-- The tick of `Global` scope without peers does nothing. -/
theorem sendOne_global_nil (hscope : cfg.scope = .global) (s : NodeState Addr G w) :
    sendOne cfg cg [] s = ([.snapshot []], s) := by
  simp only [sendOne, hscope]

omit [DecidableEq Addr] in
/-- A frame to send is for the peer the drained frame is for, or for everybody. -/
theorem frameToSend_target (frame : Option (PendingFrame Addr)) (g : G) :
    (frameToSend cfg cg frame g).1.target = frame.elim .broadcast PendingFrame.target := by
  cases frame <;> rfl

end Tick

end Peashape.Shaping
