import Peashape.Foundation.Fifo
import Peashape.Shaping.Submission

/-!
# A frame waiting in a high lane

`Waits f k l` says that the frame `f` is in the pair of lanes `l` once, in the high lane, with
as many frames ahead of it as `k` says; or that it is gone. Other frames added to the pair
leave its place alone, as long as the high lane has room for them, and each frame taken moves
it by one.

A frame is told from others that look the same by the number of its call, which is new
(`Numbered`).
-/

namespace Peashape

open Foundation

variable {Addr : Type*} {cfg : ShaperConfig} {f g : PendingFrame Addr} {k : Option ℕ} {l : PeerLanes Addr}
  {lane : Lane}

/-- The frame is in the high lane at this place, or gone, and not in the low lane. -/
def Waits (f : PendingFrame Addr) (k : Option ℕ) (l : PeerLanes Addr) : Prop := Place f k l.high ∧ f ∉ l.low

namespace Waits

/-- Another frame finds room. -/
theorem withFrame (h : Waits f k l) (hne : f ≠ g)
    (hroom : lane = .high → l.high.length < cfg.highLaneCapacity) :
    Waits f k (l.withFrame cfg lane g) := by
  obtain ⟨hhigh, hlow⟩ := h
  cases lane with
  | high =>
    refine ⟨?_, hlow⟩
    show Place f k (Deque.evictFront cfg.highLaneCapacity l.high ++ [g])
    rw [Deque.evictFront_of_lt (hroom rfl)]
    exact hhigh.append (by simpa using hne)
  | low =>
    refine ⟨hhigh, fun hmem => ?_⟩
    rcases List.mem_cons.mp hmem with heq | hmem
    · exact hne heq
    · exact hlow (Deque.mem_of_mem_evictBack cfg.low_pos hmem)

/-- Several copies of another frame find room. -/
theorem withFrame_iterate (hne : f ≠ g) : ∀ {n : ℕ} {l : PeerLanes Addr}, Waits f k l →
    (lane = .high → n ≠ 0 → l.high.length + n ≤ cfg.highLaneCapacity) →
    Waits f k ((PeerLanes.withFrame cfg lane g)^[n] l)
  | 0, _, h, _ => h
  | n + 1, l, h, hroom => by
    rw [Function.iterate_succ_apply]
    have hfirst : lane = .high → l.high.length < cfg.highLaneCapacity := by
      intro hl
      have hfits := hroom hl (Nat.succ_ne_zero n)
      omega
    refine withFrame_iterate hne (h.withFrame hne hfirst) fun hl _ => ?_
    have hfits := hroom hl (Nat.succ_ne_zero n)
    subst hl
    show (Deque.evictFront cfg.highLaneCapacity l.high ++ [g]).length + n ≤ _
    rw [Deque.evictFront_of_lt (hfirst rfl), List.length_append, List.length_singleton]
    omega

/-- A frame taken is this one exactly if there was nothing ahead of it. -/
theorem take (h : Waits f k l) : (l.take.1 = some f ↔ k = some 0) ∧ Waits f (advance k) l.take.2 := by
  obtain ⟨hhigh, hlow⟩ := h
  by_cases hnil : l.high = []
  · rw [hnil] at hhigh
    obtain rfl := hhigh.eq_none_of_nil
    rw [PeerLanes.take_of_high_nil hnil]
    constructor
    · exact iff_of_false (fun hhead => hlow (List.mem_of_head? hhead)) (by simp)
    · exact ⟨List.not_mem_nil, fun hmem => hlow (List.mem_of_mem_tail hmem)⟩
  · rw [PeerLanes.take_of_high_ne hnil]
    exact ⟨hhigh.head?_eq_some_iff, hhigh.tail, hlow⟩

/-- A new frame, put behind the others. -/
theorem of_new (hnew : f ∉ l.high ++ l.low) (hroom : l.high.length < cfg.highLaneCapacity) :
    Waits f (some l.high.length) (l.withFrame cfg .high f) := by
  constructor
  · show Place f _ (Deque.evictFront cfg.highLaneCapacity l.high ++ [f])
    rw [Deque.evictFront_of_lt hroom]
    exact Place.concat fun hmem => hnew (List.mem_append_left _ hmem)
  · exact fun hmem => hnew (List.mem_append_right _ hmem)

end Waits

/-! ### The numbers of queued frames -/

namespace Shaping

open Shaper

variable {G : Type*} [DecidableEq Addr] {w : ℕ} {cg : CoverGenerator G} {c : ℕ} {sh : Shaper Addr}

/-- Every queued frame comes from a call before call `c`. -/
def Numbered (c : ℕ) (sh : Shaper Addr) : Prop :=
  ∀ owner, ∀ f ∈ (sh.lanesAt owner).high ++ (sh.lanesAt owner).low, ∀ n, f.origin = .enqueued n → n < c

namespace Numbered

theorem mono {c' : ℕ} (h : Numbered c sh) (hle : c ≤ c') : Numbered c' sh :=
  fun owner f hf n hn => (h owner f hf n hn).trans_le hle

/-- A shaper with fewer frames. -/
theorem of_subset {sh' : Shaper Addr} (h : Numbered c sh)
    (hsub : ∀ owner, ∀ f ∈ (sh'.lanesAt owner).high ++ (sh'.lanesAt owner).low,
      f ∈ (sh.lanesAt owner).high ++ (sh.lanesAt owner).low) : Numbered c sh' :=
  fun owner f hf n hn => h owner f (hsub owner f hf) n hn

omit [DecidableEq Addr] in
/-- What is taken from a pair of lanes leaves a part of it. -/
theorem mem_of_mem_take {l : PeerLanes Addr} (h : f ∈ l.take.2.high ++ l.take.2.low) : f ∈ l.high ++ l.low := by
  obtain ⟨_ | ⟨a, high⟩, _ | ⟨b, low⟩⟩ := l
  · exact h
  · exact List.mem_cons_of_mem b h
  · exact List.mem_cons_of_mem a h
  · exact List.mem_cons_of_mem a h

theorem nextFrame (h : Numbered c sh) : Numbered c sh.nextFrame.2 := by
  refine h.of_subset fun owner f hf => ?_
  rw [(lanesAt_nextFrame sh owner).2] at hf
  split_ifs at hf with howner
  · rw [howner]
    exact mem_of_mem_take hf
  · exact hf

theorem nextFrameFor (h : Numbered c sh) (peer : Addr) : Numbered c (sh.nextFrameFor peer).2 := by
  refine h.of_subset fun owner f hf => ?_
  rw [(lanesAt_nextFrameFor sh peer owner).2] at hf
  split_ifs at hf with howner
  · rw [howner]
    exact mem_of_mem_take hf
  · exact hf

theorem prunePeerLanes (h : Numbered c sh) (connected : List Addr) :
    Numbered c (sh.prunePeerLanes connected) := by
  refine h.of_subset fun owner f hf => ?_
  cases owner with
  | none =>
    rw [lanesAt_prunePeerLanes (by simp)] at hf
    exact hf
  | some p =>
    have hf : f ∈ ((sh.prunePeerLanes connected).lanesOf p).high ++ ((sh.prunePeerLanes connected).lanesOf p).low := hf
    rw [lanesOf_prunePeerLanes] at hf
    split_ifs at hf
    · exact hf
    · cases hf

theorem refreshPcPeers (h : Numbered c sh) (peers : List Addr) : Numbered c (sh.refreshPcPeers peers) := by
  intro owner f hf
  cases owner with
  | none => exact h none f hf
  | some p => exact h (some p) f hf

omit [DecidableEq Addr] in
/-- A frame added, any number of times. -/
theorem mem_withFrame_iterate {l : PeerLanes Addr} : ∀ {n : ℕ},
    f ∈ ((PeerLanes.withFrame cfg lane g)^[n] l).high ++ ((PeerLanes.withFrame cfg lane g)^[n] l).low →
      f ∈ l.high ++ l.low ∨ f = g
  | 0, h => .inl h
  | n + 1, h => by
    rw [Function.iterate_succ_apply'] at h
    have hone : f = g ∨ f ∈ ((PeerLanes.withFrame cfg lane g)^[n] l).high ++
        ((PeerLanes.withFrame cfg lane g)^[n] l).low := by
      cases lane with
      | high =>
        simp only [PeerLanes.withFrame, List.mem_append, List.mem_singleton] at h ⊢
        rcases h with (hold | hnew) | hlow
        · exact .inr (.inl (Deque.mem_of_mem_evictFront cfg.high_pos hold))
        · exact .inl hnew
        · exact .inr (.inr hlow)
      | low =>
        simp only [PeerLanes.withFrame, List.mem_append, List.mem_cons] at h ⊢
        rcases h with hhigh | hnew | hold
        · exact .inr (.inl hhigh)
        · exact .inl hnew
        · exact .inr (.inr (Deque.mem_of_mem_evictBack cfg.low_pos hold))
    rcases hone with heq | hmem
    · exact .inr heq
    · exact mem_withFrame_iterate hmem

omit [DecidableEq Addr] in
theorem origin_queuedFrame (call : ℕ) (target : Target Addr) (frame : Bytes) (owner : Option Addr) :
    (queuedFrame call target frame owner).origin = .enqueued call := by
  cases owner <;> rfl

theorem enqueueRaw (h : Numbered c sh) (lane : Lane) (target : Target Addr) (frame : Bytes) :
    Numbered (c + 1) (enqueueRaw cfg c lane target frame sh).2 := by
  intro owner f hf n hn
  cases hr : (Shaper.enqueueRaw cfg c lane target frame sh).1 with
  | error e =>
    rw [enqueueRaw_of_error hr] at hf
    exact (h owner f hf n hn).trans (Nat.lt_succ_self c)
  | ok u =>
    rw [enqueueRaw_lanes hr] at hf
    rcases mem_withFrame_iterate hf with hold | rfl
    · exact (h owner f hold n hn).trans (Nat.lt_succ_self c)
    · rw [origin_queuedFrame] at hn
      cases hn
      exact Nat.lt_succ_self _

/-! #### Whole calls -/

variable {s : NodeState Addr G w}

theorem sendOne (h : Numbered s.calls s.shaper) (peers : List Addr) :
    Numbered (sendOne cfg cg peers s).2.calls (sendOne cfg cg peers s).2.shaper := by
  unfold Peashape.sendOne
  split
  · cases peers with
    | nil => exact h
    | cons p ps => exact h.nextFrame
  · have hpruned := (h.refreshPcPeers peers).prunePeerLanes peers
    cases peers with
    | nil => exact hpruned
    | cons p ps => exact hpruned.nextFrameFor _

theorem drainGlobal (peers : List Addr) : ∀ (n : ℕ) {s : NodeState Addr G w}, Numbered s.calls s.shaper →
    Numbered (drainGlobal cfg cg peers n s).2.calls (drainGlobal cfg cg peers n s).2.shaper
  | 0, _, h => h
  | n + 1, s, h => by
    have hnext := h.nextFrame
    unfold Peashape.drainGlobal
    split <;> rename_i heq <;> rw [heq] at hnext
    · exact hnext
    · exact drainGlobal peers n hnext

theorem drainPeers : ∀ (peers : List Addr) {s : NodeState Addr G w}, Numbered s.calls s.shaper →
    Numbered (drainPeers cfg cg peers s).2.calls (drainPeers cfg cg peers s).2.shaper
  | [], _, h => h
  | peer :: peers, s, h => by
    have hnext := h.nextFrameFor peer
    unfold Peashape.drainPeers
    split <;> rename_i heq <;> rw [heq] at hnext
    · exact drainPeers peers hnext
    · exact drainPeers peers hnext

theorem drainPassthrough (h : Numbered s.calls s.shaper) (peers : List Addr) :
    Numbered (drainPassthrough cfg cg peers s).2.calls (drainPassthrough cfg cg peers s).2.shaper := by
  unfold Peashape.drainPassthrough
  split
  · cases peers with
    | nil => exact h
    | cons p ps => exact drainGlobal _ _ h
  · have hpruned := (h.refreshPcPeers peers).prunePeerLanes peers
    cases peers with
    | nil => exact hpruned
    | cons p ps => exact drainPeers _ hpruned

/-- Every call counts itself, if it is a submission, and adds no other numbers. -/
theorem exec (h : Numbered s.calls s.shaper) (op : Op Addr) :
    Numbered (s.exec cfg cg op).2.calls (s.exec cfg cg op).2.shaper := by
  cases op with
  | enqueue lane target payload rng =>
    show Numbered (s.calls + 1) (enqueue cfg s.calls lane target payload rng s.shaper).2
    rw [enqueue_snd]
    split_ifs
    · exact h.mono (Nat.le_succ _)
    · exact h.enqueueRaw lane target _
  | enqueueRaw lane target frame => exact h.enqueueRaw lane target frame
  | sendOne peers => exact h.sendOne peers
  | drainPassthrough peers => exact h.drainPassthrough peers
  | refreshPcPeers peers => exact h.refreshPcPeers peers
  | prunePeerLanes peers => exact h.prunePeerLanes peers
  | nextFrame => exact h.nextFrame
  | nextFrameFor peer => exact h.nextFrameFor peer

/-- It is so in every run of calls on a new node. -/
theorem run {sch : Scheduler Addr w} {gen : G} {ops : List (Op Addr)} {tr : List (Event Addr)}
    (h : Run (NodeState.Step cfg cg) (.new sch gen) ops tr s) : Numbered s.calls s.shaper := by
  refine h.invariant (I := fun _ s => Numbered s.calls s.shaper) ?_ fun {tr s op es s'} hs hstep => ?_
  · intro owner f hf
    cases owner <;> cases hf
  · obtain ⟨rfl, rfl⟩ := NodeState.exec_of_step cfg cg hstep
    exact hs.exec op

/-- The number of the next call is new. -/
theorem not_mem (h : Numbered c sh) (owner : Option Addr) (hf : f.origin = .enqueued c) :
    f ∉ (sh.lanesAt owner).high ++ (sh.lanesAt owner).low :=
  fun hmem => lt_irrefl c (h owner f hmem c hf)

end Numbered

end Shaping

end Peashape
