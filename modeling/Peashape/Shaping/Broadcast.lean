import Peashape.Shaping.PeerLanes
import Peashape.Shaping.Provenance

/-!
# Whom a broadcast reaches

In `PerConnection` scope a broadcast is documented to fan "a copy of the frame into every
currently-connected peer's lane at submit time". The shaper does not know who is connected;
it has the list of the scheduler's last snapshot. After a broadcast that was accepted, the
peers with a copy are those of that list (`mem_lanesOf_broadcast_iff`), so that everyone
connected has one exactly if everyone connected is in the list: see
`broadcast_reaches_iff`. Between the two locks of `fan_out_per_connection` other threads may
move; the copies then go to the peers of the list as it was cloned (`mem_lanesOf_fan_iff`).

That a lane has no copy is told by the number of the call, which is new.
-/

namespace Peashape.Shaping

open Foundation Shaper SystemState

variable {Addr G : Type*} [DecidableEq Addr] {w : ℕ} {cfg : ShaperConfig} {cg : CoverGenerator G}
  {s s' : SystemState Addr G w} {es tr : List (Event Addr)} {p : Addr} {lane : Lane} {frame : Bytes}

/-- A round of the fan-out puts a copy in the lane of its peer. -/
theorem mem_lanesOf_fanPush (call : ℕ) (lane : Lane) (frame : Bytes) (sh : Shaper Addr) (p : Addr) :
    peerFrame p frame call ∈ ((fanPush cfg call lane frame sh p).lanesOf p).lane lane := by
  cases lane with
  | high =>
    simp only [fanPush, lanesOf_setLanes]
    exact List.mem_append_right _ (List.mem_singleton_self _)
  | low =>
    simp only [fanPush, lanesOf_setLanes]
    exact List.mem_cons_self ..

/-- The rounds that follow leave it there. -/
theorem mem_lanesOf_fanOutTo (call : ℕ) (lane : Lane) (frame : Bytes) : ∀ {peers : List Addr} {sh : Shaper Addr},
    p ∈ peers → peerFrame p frame call ∈ ((fanOutTo cfg call peers lane frame sh).lanesOf p).lane lane
  | q :: peers, sh, hp => by
    show _ ∈ ((fanOutTo cfg call peers lane frame (fanPush cfg call lane frame sh q)).lanesOf p).lane lane
    by_cases hmem : p ∈ peers
    · exact mem_lanesOf_fanOutTo call lane frame hmem
    · -- the last round for this peer
      obtain rfl : p = q := (List.mem_cons.mp hp).resolve_right hmem
      rw [(fanOutTo_of_not_mem cfg call lane frame hmem).2]
      exact mem_lanesOf_fanPush call lane frame sh p

/-- **The copies of a fan-out**, when the number of the call is new, are in the lanes of the
peers of its list. -/
theorem mem_lanesOf_fanOutTo_iff {call : ℕ} {peers : List Addr} {sh : Shaper Addr}
    (hnew : peerFrame p frame call ∉ (sh.lanesOf p).lane lane) :
    peerFrame p frame call ∈ ((fanOutTo cfg call peers lane frame sh).lanesOf p).lane lane ↔ p ∈ peers := by
  constructor
  · intro hcopy
    by_contra hp
    rw [(fanOutTo_of_not_mem cfg call lane frame hp).2] at hcopy
    exact hnew hcopy
  · exact mem_lanesOf_fanOutTo call lane frame

/-- No queued frame has the number of the next call. -/
theorem Provenance.not_mem_lanesOf (hi : Provenance cfg cg tr s) :
    peerFrame p frame s.calls ∉ (s.shaper.lanesOf p).lane lane := by
  intro hmem
  obtain ⟨n, k, target, ho, hacc, -⟩ := hi.lanes (some p) lane _ hmem
  have hn := hi.numbered n k target _ hacc
  cases ho
  exact lt_irrefl _ hn

/-- **After the loop of a fan-out**, over any interleaving, the peers with a copy are those
of the list that was cloned. -/
theorem mem_lanesOf_fan_iff {sch : Scheduler Addr w} {gen : G} {as : List (Act Addr)}
    (h : Run (Step cfg cg) (.new sch gen) as tr s) {i : ℕ} {peers : List Addr}
    (hi : s.producers[i]? = some (.fan lane frame peers)) (hstep : Step cfg cg s (.producer i) es s') (p : Addr) :
    peerFrame p frame s.calls ∈ (s'.shaper.lanesOf p).lane lane ↔ p ∈ peers := by
  have hdoes := does_of_step hstep
  cases hdoes with
  | fan hi' =>
    rw [hi] at hi'
    cases hi'
    exact mem_lanesOf_fanOutTo_iff (provenance_run h).not_mem_lanesOf
  | notify hi' =>
    rw [hi] at hi'
    cases hi'

/-- **After a broadcast that was accepted**, the peers with a copy are those of the list. -/
theorem mem_lanesOf_broadcast_iff (hscope : cfg.scope ≠ .global) {sch : Scheduler Addr w} {gen : G}
    {as : List (Act Addr)} (h : Run (Step cfg cg) (.new sch gen) as tr s)
    (hok : (enqueueRaw cfg s.calls lane .broadcast frame s.shaper).1 = .ok ()) (p : Addr) :
    peerFrame p frame s.calls ∈
        ((enqueueRaw cfg s.calls lane .broadcast frame s.shaper).2.lanesOf p).lane lane ↔
      p ∈ s.shaper.pcPeers := by
  rcases enqueueRaw_cases cfg s.calls lane .broadcast frame s.shaper with
    ⟨e, s', hr, -⟩ | ⟨-, hglobal, -⟩ | ⟨-, -, q, hq, -⟩ | ⟨-, -, -, hr, -⟩
  · rw [hr] at hok
    cases hok
  · exact absurd hglobal hscope
  · cases hq
  · rw [hr]
    exact mem_lanesOf_fanOutTo_iff (provenance_run h).not_mem_lanesOf

/-- **When a broadcast reaches everyone.** In `PerConnection` scope, under every strategy and
after any interleaving: right after a broadcast that was accepted, every peer connected has a
copy in its lane exactly if every peer connected is in the shaper's list. -/
theorem broadcast_reaches_iff (hscope : cfg.scope ≠ .global) {sch : Scheduler Addr w} {gen : G}
    {as : List (Act Addr)} (h : Run (Step cfg cg) (.new sch gen) as tr s)
    (hok : (enqueueRaw cfg s.calls lane .broadcast frame s.shaper).1 = .ok ()) :
    (∀ p ∈ s.connected, peerFrame p frame s.calls ∈
        ((enqueueRaw cfg s.calls lane .broadcast frame s.shaper).2.lanesOf p).lane lane) ↔
      ∀ p ∈ s.connected, p ∈ s.shaper.pcPeers :=
  forall₂_congr fun p _ => mem_lanesOf_broadcast_iff hscope h hok p

/-- A broadcast after a tick that saw the peer. -/
theorem broadcast_reaches_iff_seen :
    let cfg : ShaperConfig := { scope := .perConnection true, frameSize := 32, accepted := by decide }
    let s₀ : SystemState ℕ (Stream' UInt8) 64 := .new { rng := Stream'.const 1 } (Stream'.const 5)
    let acts : List (Act ℕ) := [.connect 1, .wake, .snapshot [1], .sched]
    let b : Bytes := List.replicate 32 7
    ∃ tr s, Run (Step cfg randomCover) s₀ acts tr s ∧
      ((∀ p ∈ s.connected, peerFrame p b s.calls ∈
          ((enqueueRaw cfg s.calls .high .broadcast b s.shaper).2.lanesOf p).lane .high) ↔
        ∀ p ∈ s.connected, p ∈ s.shaper.pcPeers) := by
  intro cfg s₀ acts b
  obtain ⟨tr, s, h⟩ : ∃ tr s, exec (step cfg randomCover) s₀ acts = some (tr, s) := ⟨_, _, rfl⟩
  exact ⟨tr, s, run_of_exec h, broadcast_reaches_iff (by decide) (run_of_exec h) rfl⟩

/-- A broadcast before the first tick since the peer connected: it is accepted, and the peer
has no copy. -/
theorem broadcast_misses :
    let cfg : ShaperConfig := { scope := .perConnection true, frameSize := 32, accepted := by decide }
    let s₀ : SystemState ℕ (Stream' UInt8) 64 := .new { rng := Stream'.const 1 } (Stream'.const 5)
    let b : Bytes := List.replicate 32 7
    ∃ tr s, Run (Step cfg randomCover) s₀ [.connect 1] tr s ∧
      (enqueueRaw cfg s.calls .high .broadcast b s.shaper).1 = .ok () ∧ 1 ∈ s.connected ∧
      peerFrame 1 b s.calls ∉ ((enqueueRaw cfg s.calls .high .broadcast b s.shaper).2.lanesOf 1).lane .high := by
  intro cfg s₀ b
  obtain ⟨tr, s, h⟩ : ∃ tr s, exec (step cfg randomCover) s₀ [.connect 1] = some (tr, s) := ⟨_, _, rfl⟩
  have hend : (exec (step cfg randomCover) s₀ [.connect 1]).map (fun x =>
      decide (1 ∈ x.2.connected ∧ peerFrame 1 b x.2.calls ∉
        ((enqueueRaw cfg x.2.calls .high .broadcast b x.2.shaper).2.lanesOf 1).lane .high)) = some true := by decide
  rw [h, Option.map_some, Option.some.injEq, decide_eq_true_eq] at hend
  exact ⟨tr, s, run_of_exec h, rfl, hend.1, hend.2⟩

end Peashape.Shaping
