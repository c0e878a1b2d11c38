import Peashape.Shaping.Noninterference

/-!
# The stream of the cover generator

A generator may number its results, cover and finalized frames alike, and count on all of
them being written, in the order of its calls: `finalize_real` is documented to be called
"just before it is written to the wire — called in send order". `Coherent` says so of a
tick. It holds of every tick of `PerConnection` scope, and of a tick of `Global` scope
unless the drained frame is for one peer and that peer is not in the snapshot:
`dispatch_global` then drops the frame, which has been finalized already. See
`coherent_ticks_iff`.
-/

namespace Peashape.Shaping

open Foundation Shaper

variable {Addr G : Type*} [DecidableEq Addr] {w : ℕ} {cfg : ShaperConfig} {cg : CoverGenerator G}

/-- The results of the generator's calls, in call order, are handed to the writer in that
order: they are picked out of the frames sent. -/
def Coherent (es : List (Event Addr)) : Prop := (genResults es).Sublist ((sends es).map Prod.snd)

/-- Whether a target is one peer, and none of these. -/
def isGone (peers : List Addr) : Target Addr → Bool
  | .unicast p => decide (p ∉ peers)
  | .broadcast => false

/-- A call that is not a `Global` tick with peers connected, or one that drains no frame
whose recipient is gone. -/
def DrainsPresent (cfg : ShaperConfig) (s : NodeState Addr G w) : Op Addr → Prop
  | .sendOne peers =>
    cfg.scope = .global → peers ≠ [] → s.shaper.nextFrame.1.any (fun f => isGone peers f.target) = false
  | _ => True

/-! ### One tick -/

/-- **A dispatch after the call for its frame is coherent exactly if the recipient of the
frame is not gone.** -/
theorem coherent_dispatchGlobal {peers : List Addr} (hne : peers ≠ []) (frame : PendingFrame Addr) (g : G)
    (sch : Scheduler Addr w) :
    let d := dispatchGlobal cfg cg peers frame g sch
    (frame :: genResults d.events).Sublist ((sends d.events).map Prod.snd) ↔ isGone peers frame.target = false := by
  intro d
  have hfan : 0 < min (effectiveFanout cfg peers) peers.length :=
    lt_min (effectiveFanout_pos cfg peers) (List.length_pos_iff.mpr hne)
  cases ht : frame.target with
  | broadcast =>
    refine iff_of_true ?_ rfl
    have hcalls : genResults d.events = [] := by
      simp only [d, dispatchGlobal, ht, genResults, List.filterMap_map]
      exact List.filterMap_eq_nil_iff.mpr fun _ _ => rfl
    rw [hcalls, List.singleton_sublist]
    -- the frame goes to one peer at least
    obtain ⟨q, hq⟩ : ∃ q, q ∈ (sch.pickTargets peers (effectiveFanout cfg peers)).1 := by
      apply List.exists_mem_of_length_pos
      rwa [length_pickTargets]
    simp only [d, sends_dispatchGlobal_broadcast cfg cg g sch ht, List.map_map]
    exact List.mem_map.mpr ⟨q, hq, rfl⟩
  | unicast p =>
    by_cases hp : p ∈ peers
    · refine iff_of_true ?_ (by simp [isGone, hp])
      have hcalls : (sends d.events).map Prod.snd = frame :: genResults d.events := by
        simp only [d, sends_dispatchGlobal_connected cfg cg g sch ht hp, List.map_cons, map_snd_zip_covers]
        simp only [dispatchGlobal, ht, hp, if_true, ← genResults_sendCovers]
        rfl
      rw [hcalls]
    · refine iff_of_false (fun hsub => ?_) (by simp [isGone, hp])
      -- every frame sent is the result of a call of the dispatch
      have hcalls : (sends d.events).map Prod.snd = genResults d.events := by
        simp only [d, sends_dispatchGlobal_disconnected cfg cg g sch ht hp, map_snd_zip_covers]
        simp only [dispatchGlobal, ht, hp, if_false, ← genResults_sendCovers]
      rw [hcalls] at hsub
      exact absurd hsub.length_le (by simp)

/-- **A tick is coherent exactly if it drains no frame whose recipient is gone.** -/
theorem coherent_sendOne (s : NodeState Addr G w) (peers : List Addr) :
    Coherent (sendOne cfg cg peers s).1 ↔ DrainsPresent cfg s (.sendOne peers) := by
  cases hscope : cfg.scope with
  | global =>
    cases peers with
    | nil =>
      rw [sendOne_global_nil cg hscope]
      exact iff_of_true (List.Sublist.refl []) fun _ h => absurd rfl h
    | cons p ps =>
      obtain ⟨hsends, hcalls, -⟩ := sendOne_global cg hscope p ps s
      have hdrains : DrainsPresent cfg s (.sendOne (p :: ps)) ↔
          isGone (p :: ps) (frameToSend cfg cg s.shaper.nextFrame.1 s.gen).1.target = false := by
        rw [frameToSend_target]
        cases hf : s.shaper.nextFrame.1 <;> simp [DrainsPresent, hscope, hf, isGone]
      rw [Coherent, hsends, hcalls, hdrains]
      exact coherent_dispatchGlobal (List.cons_ne_nil p ps) _ _ _
  | perConnection randomize =>
    refine iff_of_true ?_ fun h => absurd h (ShaperConfig.scope_ne_global hscope)
    cases peers with
    | nil =>
      obtain ⟨hsends, hcalls, -⟩ := sendOne_perConnection_nil cg hscope s
      rw [Coherent, hsends, hcalls]
      exact List.Sublist.refl []
    | cons p ps =>
      obtain ⟨hsends, hcalls, -⟩ := sendOne_perConnection cg hscope p ps s
      rw [Coherent, hsends, hcalls]
      exact List.Sublist.refl _

/-! ### Every run -/

/-- **When the generator's stream is coherent.** In every run of calls, the results of the
generator's calls in each tick are handed to the writer in that tick, in call order, exactly
if no `Global` tick with peers connected drains a frame whose recipient is gone. -/
theorem coherent_ticks_iff (sch : Scheduler Addr w) (gen : G) (ops : List (Op Addr)) :
    (∀ t ∈ ticks cfg cg (.new sch gen) ops, Coherent t) ↔
      Always (NodeState.exec cfg cg) (DrainsPresent cfg) (.new sch gen) ops := by
  refine forall_mem_observe_iff (fun {s op} hop => ?_) fun {s op peers} hop => ?_
  · cases op with
    | sendOne peers => cases hop
    | _ => trivial
  · cases op <;> cases hop
    exact coherent_sendOne s peers

/-- A generator that fills each of its results with the number of the call. -/
def numbering : CoverGenerator ℕ where
  cover c n := (List.replicate c.frameSize (UInt8.ofNat n), n + 1)
  finalizeReal c n _ := (List.replicate c.frameSize (UInt8.ofNat n), n + 1)

/-- A frame for a peer that has left: its number, `0`, is missing from what is written. -/
theorem coherent_ticks_gap :
    let cfg : ShaperConfig := { frameSize := 32, accepted := by decide }
    let s₀ : NodeState ℕ ℕ 64 := .new { rng := Stream'.const 1 } 0
    let ops : List (Op ℕ) := [.enqueueRaw .high (.unicast 2) (List.replicate 32 7), .sendOne [1]]
    ¬ (∀ t ∈ ticks cfg numbering s₀ ops, Coherent t) ∧
      (ticks cfg numbering s₀ ops).map (fun t => (sends t).map fun x => x.2.bytes) = [[List.replicate 32 1]] := by
  intro cfg s₀ ops
  constructor
  · have hcalls : (ticks cfg numbering s₀ ops).map (fun t => ((genResults t).length, (sends t).length)) =
        [(2, 1)] := by decide
    intro h
    obtain ⟨t, ht, hlen⟩ := List.mem_map.mp (hcalls ▸ List.mem_singleton_self (2, 1))
    obtain ⟨hcalled, hsent⟩ := Prod.mk.inj hlen
    have hle := (h t ht).length_le
    rw [List.length_map, hcalled, hsent] at hle
    exact absurd hle (by decide)
  · decide

end Peashape.Shaping
