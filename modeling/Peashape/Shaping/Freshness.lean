import Peashape.Shaping.GlobalNoninterference
import Peashape.Shaping.PeerSelection

/-!
# What `last_peers` remembers

`last_peers` holds "the peers selected on the previous `Global` tick", so that the next
selection prefers peers "not sent to last tick". It is written in `pick_targets`, and
`dispatch_global` calls that for all the recipients of a tick in every branch but one: a
unicast frame for a connected peer goes to that peer first, and only the others are picked.
Then the memory lacks the peer, who counts as fresh on the next tick although it was just sent
to; and if there are no others, `pick_targets` returns early and the memory is that of an
earlier tick. `lastPeers_matches_iff` says when the memory is right.
-/

namespace Peashape.Shaping

open Foundation Shaper

variable {Addr G : Type*} [DecidableEq Addr] {w : ℕ} {cfg : ShaperConfig} {cg : CoverGenerator G}
  {s : NodeState Addr G w} {p : Addr} {ps : List Addr}

/-- Whether after a tick the memory holds exactly the peers the tick sent to. -/
def Matches (cfg : ShaperConfig) (cg : CoverGenerator G) (s : NodeState Addr G w) (peers : List Addr) : Prop :=
  ∀ q, q ∈ (sendOne cfg cg peers s).2.scheduler.lastPeers ↔ q ∈ recipients (sendOne cfg cg peers s).1

/-- The frame a tick drains is unicast to a peer of the snapshot. -/
def DrainsUnicast (s : NodeState Addr G w) (peers : List Addr) (target : Addr) : Prop :=
  target ∈ peers ∧ ∃ f, s.shaper.nextFrame.1 = some f ∧ f.target = .unicast target

/-- A tick that drains no such frame picks all its recipients. -/
theorem matches_of_not_drainsUnicast (hscope : cfg.scope = .global)
    (h : ∀ target, ¬ DrainsUnicast s (p :: ps) target) : Matches cfg cg s (p :: ps) := by
  have hno : NoUnicast s (.sendOne (p :: ps)) := by
    show s.shaper.nextFrame.1.any (fun f => isOneOf (p :: ps) f.target) = false
    cases hf : s.shaper.nextFrame.1 with
    | none => rfl
    | some f =>
      cases ht : f.target with
      | broadcast =>
        rw [Option.any_some, ht]
        rfl
      | unicast target =>
        rw [Option.any_some, ht]
        exact decide_eq_false fun hmem => h target ⟨hmem, f, hf, ht⟩
  obtain ⟨hsel, hsch⟩ : _ ∧ (sendOne cfg cg (p :: ps) s).2.scheduler = _ := selection_sendOne hscope hno
  have hrec : recipients (sendOne cfg cg (p :: ps) s).1 =
      (s.scheduler.pickTargets (p :: ps) (effectiveFanout cfg (p :: ps))).1 :=
    congrArg Selection.recipients hsel
  intro q
  rw [hsch, hrec]
  show q ∈ (s.scheduler.pickTargets (p :: ps) (effectiveFanout cfg (p :: ps))).2.lastPeers ↔ _
  rw [lastPeers_pickTargets (List.cons_ne_nil p ps)]

variable (cg) in
/-- A tick that drains a unicast frame for a connected peer sends to it first, and picks among
the others. -/
theorem recipients_of_drainsUnicast (hscope : cfg.scope = .global) {target : Addr}
    (h : DrainsUnicast s (p :: ps) target) :
    let others := (p :: ps).filter (· ≠ target)
    let picked := s.scheduler.pickTargets others (min (effectiveFanout cfg (p :: ps) - 1) others.length)
    recipients (sendOne cfg cg (p :: ps) s).1 = target :: picked.1 ∧
      (sendOne cfg cg (p :: ps) s).2.scheduler = picked.2 := by
  obtain ⟨hmem, f, hf, ht⟩ := h
  intro others picked
  have htarget : (frameToSend cfg cg s.shaper.nextFrame.1 s.gen).1.target = .unicast target := by
    rw [frameToSend_target, hf]
    exact ht
  obtain ⟨hsends, -, hsch⟩ := sendOne_global cg hscope p ps s
  constructor
  · rw [recipients, hsends, sends_dispatchGlobal_connected cfg cg _ s.scheduler htarget hmem, List.map_cons,
      map_fst_zip_covers]
  · rw [hsch]
    simp only [dispatchGlobal, htarget, hmem, if_true]
    rfl

/-- With no others there is nothing to pick, and nothing is remembered. -/
theorem pickTargets_nil (fanout : ℕ) (sch : Scheduler Addr w) : sch.pickTargets [] fanout = ([], sch) := rfl

/-- Whether the tick picks all its recipients: it does not drain a frame that is unicast to a
peer of the snapshot, or that peer is the only one and is remembered already. -/
def PicksAll (s : NodeState Addr G w) (peers : List Addr) : Prop :=
  ∀ target, DrainsUnicast s peers target → peers = [target] ∧ ∀ q, q ∈ s.scheduler.lastPeers ↔ q = target

/-- For every state, a tick with peers connected leaves the memory right exactly if it picks all
its recipients. -/
theorem matches_iff (hscope : cfg.scope = .global) (hnd : (p :: ps).Nodup) :
    Matches cfg cg s (p :: ps) ↔ PicksAll s (p :: ps) := by
  constructor
  · intro hmatches target hdrains
    obtain ⟨hrec, hsch⟩ := recipients_of_drainsUnicast cg hscope hdrains
    have hin : target ∈ recipients (sendOne cfg cg (p :: ps) s).1 := by
      rw [hrec]
      exact List.mem_cons_self
    -- whoever is picked among the others, the target is not
    have hothers : (p :: ps).filter (· ≠ target) = [] := by
      by_contra hne
      have hmem := (hmatches target).mpr hin
      rw [hsch, lastPeers_pickTargets hne] at hmem
      have hself := (List.mem_filter.mp (mem_of_mem_pickTargets hmem)).2
      simp at hself
    rw [hothers, pickTargets_nil] at hrec hsch
    have hall : ∀ q ∈ p :: ps, q = target := by
      intro q hq
      by_contra hne
      have hmem : q ∈ (p :: ps).filter (· ≠ target) := List.mem_filter.mpr ⟨hq, by simpa using hne⟩
      rw [hothers] at hmem
      cases hmem
    have hps : ps = [] := by
      refine List.eq_nil_iff_forall_not_mem.mpr fun q hq => ?_
      have hpq : q = p := (hall q (List.mem_cons_of_mem p hq)).trans (hall p List.mem_cons_self).symm
      exact (List.nodup_cons.mp hnd).1 (hpq ▸ hq)
    constructor
    · rw [hps, hall p List.mem_cons_self]
    · intro q
      have hq := hmatches q
      rw [hsch, hrec, List.mem_singleton] at hq
      exact hq
  · intro hcond
    by_cases h : ∃ target, DrainsUnicast s (p :: ps) target
    · obtain ⟨target, hdrains⟩ := h
      obtain ⟨honly, hheld⟩ := hcond target hdrains
      obtain ⟨hrec, hsch⟩ := recipients_of_drainsUnicast cg hscope hdrains
      have hothers : (p :: ps).filter (· ≠ target) = [] := by simp [honly]
      rw [hothers, pickTargets_nil] at hrec hsch
      intro q
      rw [hsch, hrec, List.mem_singleton]
      exact hheld q
    · exact matches_of_not_drainsUnicast hscope fun target hd => h ⟨target, hd⟩

/-- What is asked of each tick with peers connected, none of them twice, and of no other call. -/
def AtTicks (P : NodeState Addr G w → List Addr → Prop) (s : NodeState Addr G w) (op : Op Addr) : Prop :=
  ∀ peers, op.snapshot? = some peers → peers ≠ [] → peers.Nodup → P s peers

/-- **When the memory matches the ticks.** In every run of calls, from any state: after each
`Global` tick with peers connected `last_peers` holds exactly the peers the tick sent to, if
and only if at each of them the frame it drains is not unicast to a peer of the snapshot, or
that peer is the only one and `last_peers` held exactly it before. -/
theorem lastPeers_matches_iff (hscope : cfg.scope = .global) (ops : List (Op Addr)) :
    Always (NodeState.exec cfg cg) (AtTicks (Matches cfg cg)) s ops ↔
      Always (NodeState.exec cfg cg) (AtTicks PicksAll) s ops := by
  refine always_congr fun {s op} => ?_
  refine forall_congr' fun peers => forall_congr' fun _ => forall_congr' fun hne => forall_congr' fun hnd => ?_
  obtain ⟨p, ps, rfl⟩ := List.exists_cons_of_ne_nil hne
  exact matches_iff hscope hnd

/-- A broadcast frame, and a tick with two peers. -/
theorem lastPeers_matches_iff_broadcast :
    let cfg : ShaperConfig := { frameSize := 32, accepted := by decide }
    let s₀ : NodeState ℕ (Stream' UInt8) 64 := .new { rng := Stream'.const 1 } (Stream'.const 5)
    let ops : List (Op ℕ) := [.enqueueRaw .high .broadcast (List.replicate 32 7), .sendOne [1, 2]]
    Always (NodeState.exec cfg randomCover) (AtTicks (Matches cfg randomCover)) s₀ ops ↔
      Always (NodeState.exec cfg randomCover) (AtTicks PicksAll) s₀ ops :=
  lastPeers_matches_iff rfl _

/-- A tick that sends a unicast frame to peer 1 and cover to peer 2, and remembers peer 2. -/
theorem lastPeers_forgets_target :
    let cfg : ShaperConfig := { frameSize := 32, accepted := by decide }
    let s₀ : NodeState ℕ (Stream' UInt8) 64 := .new { rng := Stream'.const 1 } (Stream'.const 5)
    let s := (s₀.exec cfg randomCover (.enqueueRaw .high (.unicast 1) (List.replicate 32 7))).2
    recipients (sendOne cfg randomCover [1, 2] s).1 = [1, 2] ∧
      (sendOne cfg randomCover [1, 2] s).2.scheduler.lastPeers = [2] ∧ ¬ Matches cfg randomCover s [1, 2] := by
  intro cfg s₀ s
  have hsent : recipients (sendOne cfg randomCover [1, 2] s).1 = [1, 2] := by decide
  have hheld : (sendOne cfg randomCover [1, 2] s).2.scheduler.lastPeers = [2] := by decide
  refine ⟨hsent, hheld, fun hmatches => ?_⟩
  have hone := (hmatches 1).mpr (by rw [hsent]; exact List.mem_cons_self)
  rw [hheld] at hone
  simp at hone

end Peashape.Shaping
