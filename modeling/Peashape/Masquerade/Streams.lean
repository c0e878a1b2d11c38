import Peashape.Delivery.Kept
import Peashape.Masquerade.Packets

/-!
# What the examples' receivers see

The generators of `webrtc_masquerade` and `mpegts_broadcast` number their results, in the header
they stamp onto each. So what arrives over a connection that stays up is one coherent stream,
whatever the applications submit and whenever: "a single clock drives the whole stream and a TCP
observer sees no gaps or reordering" (`rtp_stream`), and "each viewer reassembles a clean stream
with a gap-free continuity counter" (`ts_stream`).
-/

namespace Peashape

open Foundation Codec Shaping Network

/-! ### The RTP sequencer -/

namespace WebrtcMasquerade

/-- The header after this one. -/
def RtpHeader.succ (h : RtpHeader) : RtpHeader := ⟨h.seq + 1, h.ts + tsStep, h.ssrc, false⟩

/-- The header `n` after this one, with both counters modulo their width. -/
theorem iterate_succ (h : RtpHeader) : ∀ n : ℕ, RtpHeader.succ^[n] h =
    ⟨h.seq + UInt16.ofNat n, h.ts + UInt32.ofNat n * tsStep, h.ssrc, h.marker && decide (n = 0)⟩
  | 0 => by simp
  | n + 1 => by
    rw [Function.iterate_succ_apply', iterate_succ h n, RtpHeader.succ, UInt16.ofNat_add, UInt32.ofNat_add]
    have hseq : h.seq + UInt16.ofNat n + 1 = h.seq + (UInt16.ofNat n + UInt16.ofNat 1) := UInt16.add_assoc _ _ _
    have hts : h.ts + UInt32.ofNat n * tsStep + tsStep = h.ts + (UInt32.ofNat n + UInt32.ofNat 1) * tsStep := by
      rw [UInt32.add_mul, UInt32.add_assoc]
      rfl
    simp [hseq, hts]

/-- The sequencer numbers its results. -/
theorem numbers_rtpSequencer (c : ShapeConfig) :
    Numbers rtpSequencer c parseRtp RtpSequencer.next RtpHeader.succ where
  cover _ := ⟨parseRtp_stampHeader _ _, rfl⟩
  finalizeReal _ frame _ := ⟨parseRtp_stampHeader frame _, rfl⟩

theorem length_stampHeader {f : Bytes} (hf : profile.header ≤ f.length) (h : RtpHeader) :
    (stampHeader f h).length = f.length := by
  change 12 ≤ f.length at hf
  simp [stampHeader, profile, Framing.beBytes16, Framing.beBytes]
  omega

/-- It keeps the contract of a cover generator. -/
theorem sized_rtpSequencer {c : ShapeConfig} (hc : c.frameSize = profile.size) : rtpSequencer.Sized c where
  cover g := by
    have hlen := profile.length_build none g.rng
    have hroom : profile.header ≤ (buildPacket none g.rng).1.length := by
      change profile.header ≤ (profile.build none g.rng).1.length
      rw [hlen]
      decide
    exact (length_stampHeader hroom _).trans (hlen.trans hc.symm)
  finalizeReal g frame hf := (length_stampHeader (by rw [hf, hc]; decide) _).trans hf

theorem gap_succ (prev : UInt16) : gap prev (prev + 1) = 0 := by
  have hone : prev + 1 - prev = 1 := by rw [UInt16.add_comm, UInt16.add_sub_cancel]
  rw [gap, hone]
  rfl

/-- What is counted of packets of one stream without a gap. -/
structure Clean (ssrc : UInt32) (ys : List Bytes) (o o' : Profiled) : Prop where
  /-- Every packet is counted. -/
  total : o'.total = o.total + ys.length
  /-- Every packet is valid. -/
  valid : o'.valid = o.valid + ys.length
  /-- None is not. -/
  coverCount : o'.coverCount = o.coverCount
  /-- None is missing. -/
  gaps : o'.gaps = o.gaps
  /-- There is no other stream. -/
  ssrcs : o'.ssrcs ⊆ insert ssrc o.ssrcs
  /-- The messages are those of the packets. -/
  recovered : o'.recovered = o.recovered ++ ys.filterMap recover

theorem Clean.nil (ssrc : UInt32) (o : Profiled) : Clean ssrc [] o o :=
  ⟨rfl, rfl, rfl, rfl, Finset.subset_insert _ _, (List.append_nil _).symm⟩

theorem Clean.trans {ssrc : UInt32} {xs ys : List Bytes} {o o' o'' : Profiled} (h : Clean ssrc xs o o')
    (h' : Clean ssrc ys o' o'') : Clean ssrc (xs ++ ys) o o'' where
  total := by rw [h'.total, h.total, List.length_append, Nat.add_assoc]
  valid := by rw [h'.valid, h.valid, List.length_append, Nat.add_assoc]
  coverCount := h'.coverCount.trans h.coverCount
  gaps := h'.gaps.trans h.gaps
  ssrcs := h'.ssrcs.trans (Finset.insert_subset (Finset.mem_insert_self _ _) h.ssrcs)
  recovered := by rw [h'.recovered, h.recovered, List.filterMap_append, List.append_assoc]

/-- One packet, which follows the last. -/
theorem clean_see {h : RtpHeader} {y : Bytes} {o : Profiled} (hy : parseRtp y = some h)
    (hlast : ∀ prev, o.lastSeq = some prev → h.seq = prev + 1) :
    Clean h.ssrc [y] o (o.see y) ∧ (o.see y).lastSeq = some h.seq := by
  have hgap : (o.lastSeq.elim 0 fun prev => gap prev h.seq) = 0 := by
    cases hl : o.lastSeq with
    | none => rfl
    | some prev =>
      rw [hlast prev hl]
      exact gap_succ prev
  have hsee : o.see y = { o with
      total := o.total + 1, valid := o.valid + 1, ssrcs := insert h.ssrc o.ssrcs, lastSeq := some h.seq,
      recovered := o.recovered ++ (recover y).toList } := by
    simp only [Profiled.see, hy, hgap, Nat.add_zero]
  rw [hsee]
  refine ⟨⟨rfl, rfl, rfl, rfl, Finset.Subset.refl _, ?_⟩, rfl⟩
  cases hr : recover y <;> simp [hr]

/-- Packets whose headers follow one another. -/
theorem clean_foldl : ∀ {ys : List Bytes} {h : RtpHeader} {o : Profiled}, Counts parseRtp RtpHeader.succ h ys →
    (∀ prev, o.lastSeq = some prev → h.seq = prev + 1) → Clean h.ssrc ys o (ys.foldl Profiled.see o)
  | [], h, o, _, _ => .nil h.ssrc o
  | y :: ys, h, o, hc, hlast => by
    obtain ⟨hone, hseq⟩ := clean_see hc.1 hlast
    have hrest : Clean h.succ.ssrc ys (o.see y) (ys.foldl Profiled.see (o.see y)) := by
      refine clean_foldl hc.2 fun prev hprev => ?_
      rw [hseq] at hprev
      cases hprev
      rfl
    exact hone.trans hrest

/-- **The stream that arrives is one call without a gap.** Over any run of a network in which
node `a` stamps its packets with the sequencer, from the moment a connection to a node with
frames of the same size comes up, for as long as neither end closes it and `unicast_fast`
refuses nothing, and if in the whole run nothing keeps a packet from this peer: for any unbroken
row of what arrives, the headers follow one another from those the sequencer started with, and
the receiving program counts no gap, no packet that is not valid and no other stream. -/
theorem rtp_stream {N Addr σ κ ς χ : Type*} {w : ℕ} [DecidableEq N] [DecidableEq Addr] {rt : Runtime σ κ ς χ}
    {cfg : N → NodeConfig} {cg : N → CoverGenerator RtpSequencer} (hrt : rt.Documented)
    (hlt : ∀ a, (cfg a).frameSize < 2 ^ 32) {sch : N → Scheduler Addr w} {gen : N → RtpSequencer}
    {as₁ as : List (NetworkAct N Addr)} {tr₁ tr : List (NetworkEvent N Addr)}
    {s₁ s₂ s : Network N Addr RtpSequencer σ κ ς χ w} {a b : N} {peer : Addr} (hgen : cg a = rtpSequencer)
    (hframe : (cfg a).frameSize = profile.size) (hsize : (cfg a).frameSize = (cfg b).frameSize)
    (hpass : (cfg a).scope ≠ .global → (cfg a).strategy ≠ .none)
    (before : Run (Step rt cfg cg) (start rt sch gen) as₁ tr₁ s₁) (hc : Step rt cfg cg s₁ (.connect a peer b) [] s₂)
    (after : Run (Step rt cfg cg) s₂ as tr s) (hkeep : ∀ act ∈ as, Keeps a peer s₁.links.length act)
    (hrow : ∀ e ∈ atNode a (tr₁ ++ tr), Undivided (cfg a).shaper peer e) {ys : List Bytes}
    (hys : ys <:+: Connection.arrived (atLink s₁.links.length tr)) :
    (∃ n, ∀ i y, ys[i]? = some y → parseRtp y = some ⟨(gen a).seq + UInt16.ofNat (n + i),
        (gen a).ts + UInt32.ofNat (n + i) * tsStep, (gen a).ssrc, !(gen a).started && decide (n + i = 0)⟩) ∧
      Clean (gen a).ssrc ys {} (ys.foldl Profiled.see {}) := by
  have hcg : (cg a).Sized (cfg a).toShapeConfig := hgen ▸ sized_rtpSequencer hframe
  have hn : Numbers (cg a) (cfg a).toShapeConfig parseRtp RtpSequencer.next RtpHeader.succ :=
    hgen ▸ numbers_rtpSequencer _
  obtain ⟨n, hcount⟩ := row_counts hrt hlt hn hcg hsize hpass before hc after hkeep hrow hys
  refine ⟨⟨n, fun i y hy => ?_⟩, ?_⟩
  · rw [hcount.getElem? hy, ← Function.iterate_add_apply, Nat.add_comm, iterate_succ]
    rfl
  · have hclean := clean_foldl hcount (o := {}) fun prev hprev => by cases hprev
    rw [iterate_succ] at hclean
    exact hclean

/-- Comfort noise, and then a message, which the receiver recovers. -/
theorem rtp_stream_two :
    let cfg : Bool → NodeConfig := fun _ => { frameSize := 102, scope := .perConnection false, accepted := by decide }
    let g : RtpSequencer := { ssrc := 7, seq := 65535, ts := 0, rng := Stream'.const 5 }
    let s₀ : PlainNetwork Bool ℕ RtpSequencer := start .plain (fun _ => { rng := Stream'.const 1 }) fun _ => g
    let tick : List (NetworkAct Bool ℕ) := .node false .wake [] :: .node false (.snapshot [1]) [] ::
      List.replicate 5 (.node false .sched [])
    let acts : List (NetworkAct Bool ℕ) := tick ++
      [.node false (.enqueue .high (.unicast 1) (buildPacket (some [104, 105]) (Stream'.const 3)).1) []] ++ tick ++
        [.link 0 .write, .link 0 .write, .link 0 (.read 150), .link 0 (.read 150)]
    ∃ (s₂ : PlainNetwork Bool ℕ RtpSequencer) (tr : List (NetworkEvent Bool ℕ))
      (s : PlainNetwork Bool ℕ RtpSequencer) (ys : List Bytes),
      Step .plain cfg (fun _ => rtpSequencer) s₀ (.connect false 1 true) [] s₂ ∧
      Run (Step .plain cfg fun _ => rtpSequencer) s₂ acts tr s ∧
      ys = Connection.arrived (atLink 0 tr) ∧ ys.map parseRtp = [some ⟨65535, 0, 7, true⟩, some ⟨0, 960, 7, false⟩] ∧
      (∃ n, ∀ i y, ys[i]? = some y → parseRtp y = some ⟨g.seq + UInt16.ofNat (n + i),
        g.ts + UInt32.ofNat (n + i) * tsStep, g.ssrc, !g.started && decide (n + i = 0)⟩) ∧
      Clean g.ssrc ys {} (ys.foldl Profiled.see {}) ∧ ys.filterMap recover = [[104, 105]] := by
  intro cfg g s₀ tick acts
  obtain ⟨s₂, hc, tr, s, after, hparsed, hrecovered, hrow⟩ :
      ∃ s₂, Step .plain cfg (fun _ => rtpSequencer) s₀ (.connect false 1 true) [] s₂ ∧
      ∃ tr s, Run (Step .plain cfg fun _ => rtpSequencer) s₂ acts tr s ∧
        (Connection.arrived (atLink 0 tr)).map parseRtp = [some ⟨65535, 0, 7, true⟩, some ⟨0, 960, 7, false⟩] ∧
        (Connection.arrived (atLink 0 tr)).filterMap recover = [[104, 105]] ∧
        ∀ e ∈ atNode false ([] ++ tr), Undivided (cfg false).shaper 1 e := ⟨_, rfl, exists_run_of_exec (by decide +kernel)⟩
  have before : Run (Step .plain cfg fun _ => rtpSequencer) s₀ [] [] s₀ := .nil
  have hlt : ∀ a, (cfg a).frameSize < 2 ^ 32 := fun _ => by decide
  have hframe : (cfg false).frameSize = profile.size := rfl
  have hgen : (fun _ : Bool => rtpSequencer) false = rtpSequencer := rfl
  have hsize : (cfg false).frameSize = (cfg true).frameSize := rfl
  have hkeep : ∀ act ∈ acts, Keeps false 1 s₀.links.length act := by decide
  have hpass : (cfg false).scope ≠ .global → (cfg false).strategy ≠ .none := by decide
  obtain ⟨hheaders, hclean⟩ := rtp_stream Runtime.plain_documented hlt hgen hframe hsize hpass before hc after hkeep hrow
    List.infix_rfl
  exact ⟨s₂, tr, s, _, hc, after, rfl, hparsed, hheaders, hclean, hrecovered⟩

end WebrtcMasquerade

/-! ### The transport stream muxer -/

namespace MpegtsBroadcast

/-- What a packet's header says, but for the flag that marks real data. -/
def unflagged (f : Bytes) : Option TsHeader := (parseTs f).map fun h => { h with pusi := false }

/-- What the header of the next packet says, but for the flag. -/
def TsMuxer.next (g : TsMuxer) : TsHeader := ⟨g.pid &&& 0x1fff, g.cc &&& 0x0f, false, 3⟩

/-- The header after this one. -/
def TsHeader.succ (h : TsHeader) : TsHeader := { h with cc := (h.cc + 1) &&& 0x0f }

/-- The header `n` after the next one, with the counter modulo sixteen. -/
theorem iterate_succ (g : TsMuxer) : ∀ n : ℕ, TsHeader.succ^[n] g.next =
    ⟨g.pid &&& 0x1fff, (g.cc + UInt8.ofNat n) &&& 0x0f, false, 3⟩
  | 0 => by simp [TsMuxer.next]
  | n + 1 => by
    have hadd : g.cc + UInt8.ofNat (n + 1) = g.cc + UInt8.ofNat n + 1 := by
      rw [UInt8.ofNat_add, UInt8.add_assoc]
      rfl
    rw [Function.iterate_succ_apply', iterate_succ g n, TsHeader.succ, ← and_succ, hadd]

theorem unflagged_stamp (f : Bytes) (pusi : Bool) (g : TsMuxer) : unflagged (g.stamp f pusi).1 = some g.next := by
  rw [unflagged, parseTs_stamp]
  rfl

theorem next_stamp (f : Bytes) (pusi : Bool) (g : TsMuxer) : (g.stamp f pusi).2.next = g.next.succ := by
  change TsHeader.mk _ ((g.cc + 1) &&& 0x0f) _ _ = _
  rw [and_succ]
  rfl

/-- The muxer numbers its results. -/
theorem numbers_tsMuxer (c : ShapeConfig) : Numbers tsMuxer c unflagged TsMuxer.next TsHeader.succ where
  cover _ := ⟨unflagged_stamp _ _ _, next_stamp _ _ _⟩
  finalizeReal _ frame _ := ⟨unflagged_stamp frame _ _, next_stamp frame _ _⟩

theorem length_stamp {f : Bytes} (hf : profile.header ≤ f.length) (pusi : Bool) (g : TsMuxer) :
    (g.stamp f pusi).1.length = f.length := by
  change 4 ≤ f.length at hf
  simp [TsMuxer.stamp, profile]
  omega

/-- It keeps the contract of a cover generator. -/
theorem sized_tsMuxer {c : ShapeConfig} (hc : c.frameSize = profile.size) : tsMuxer.Sized c where
  cover g := by
    have hlen := profile.length_build none g.rng
    have hroom : profile.header ≤ (buildTsPacket none g.rng).1.length := by
      change profile.header ≤ (profile.build none g.rng).1.length
      rw [hlen]
      decide
    exact (length_stamp hroom _ _).trans (hlen.trans hc.symm)
  finalizeReal g frame hf := (length_stamp (by rw [hf, hc]; decide) _ _).trans hf

/-- What is counted of packets of one stream without a discontinuity. -/
structure Clean (pid : UInt16) (ys : List Bytes) (o o' : Profiled) : Prop where
  /-- Every packet is counted. -/
  packets : o'.packets = o.packets + ys.length
  /-- Every packet is valid. -/
  valid : o'.valid = o.valid + ys.length
  /-- None is missing. -/
  discontinuities : o'.discontinuities = o.discontinuities
  /-- There is no other stream. -/
  pids : o'.pids ⊆ insert pid o.pids
  /-- The messages are those of the packets. -/
  decoded : o'.decoded = o.decoded ++ ys.filterMap recover

theorem Clean.nil (pid : UInt16) (o : Profiled) : Clean pid [] o o :=
  ⟨rfl, rfl, rfl, Finset.subset_insert _ _, (List.append_nil _).symm⟩

theorem Clean.trans {pid : UInt16} {xs ys : List Bytes} {o o' o'' : Profiled} (h : Clean pid xs o o')
    (h' : Clean pid ys o' o'') : Clean pid (xs ++ ys) o o'' where
  packets := by rw [h'.packets, h.packets, List.length_append, Nat.add_assoc]
  valid := by rw [h'.valid, h.valid, List.length_append, Nat.add_assoc]
  discontinuities := h'.discontinuities.trans h.discontinuities
  pids := h'.pids.trans (Finset.insert_subset (Finset.mem_insert_self _ _) h.pids)
  decoded := by rw [h'.decoded, h.decoded, List.filterMap_append, List.append_assoc]

/-- One packet, which follows the last. -/
theorem clean_see {h : TsHeader} {y : Bytes} {o : Profiled} (hy : unflagged y = some h)
    (hlast : ∀ prev, o.lastCc = some prev → h.cc = (prev + 1) &&& 0x0f) :
    Clean h.pid [y] o (o.see y) ∧ (o.see y).lastCc = some h.cc := by
  obtain ⟨h', hparse, rfl⟩ := Option.map_eq_some_iff.mp hy
  have hcount : (o.lastCc.elim 0 fun prev => if h'.cc ≠ (prev + 1) &&& 0x0f then 1 else 0) = 0 := by
    cases hl : o.lastCc with
    | none => rfl
    | some prev => exact if_neg (not_not.mpr (hlast prev hl))
  have hsee : o.see y = { o with
      packets := o.packets + 1, valid := o.valid + 1, pids := insert h'.pid o.pids, lastCc := some h'.cc,
      decoded := o.decoded ++ (recover y).toList } := by
    simp only [Profiled.see, hparse, hcount, Nat.add_zero]
  rw [hsee]
  refine ⟨⟨rfl, rfl, rfl, Finset.Subset.refl _, ?_⟩, rfl⟩
  cases hr : recover y <;> simp [hr]

/-- Packets whose headers follow one another. -/
theorem clean_foldl : ∀ {ys : List Bytes} {h : TsHeader} {o : Profiled}, Counts unflagged TsHeader.succ h ys →
    (∀ prev, o.lastCc = some prev → h.cc = (prev + 1) &&& 0x0f) → Clean h.pid ys o (ys.foldl Profiled.see o)
  | [], h, o, _, _ => .nil h.pid o
  | y :: ys, h, o, hc, hlast => by
    obtain ⟨hone, hcc⟩ := clean_see hc.1 hlast
    have hrest : Clean h.succ.pid ys (o.see y) (ys.foldl Profiled.see (o.see y)) := by
      refine clean_foldl hc.2 fun prev hprev => ?_
      rw [hcc] at hprev
      cases hprev
      rfl
    exact hone.trans hrest

/-- **The stream that each viewer gets is one channel without a discontinuity.** Over any run of
a network in which node `a` stamps its packets with the muxer, from the moment a connection to a
node with frames of the same size comes up, for as long as neither end closes it and
`unicast_fast` refuses nothing, and if in the whole run nothing keeps a packet from this peer:
for any unbroken row of what arrives, the continuity counters follow one another modulo sixteen
from the one the muxer started with, the payload is marked as scrambled, and the receiving
program counts no discontinuity, no packet that is not valid and no other stream. -/
theorem ts_stream {N Addr σ κ ς χ : Type*} {w : ℕ} [DecidableEq N] [DecidableEq Addr] {rt : Runtime σ κ ς χ}
    {cfg : N → NodeConfig} {cg : N → CoverGenerator TsMuxer} (hrt : rt.Documented)
    (hlt : ∀ a, (cfg a).frameSize < 2 ^ 32) {sch : N → Scheduler Addr w} {gen : N → TsMuxer}
    {as₁ as : List (NetworkAct N Addr)} {tr₁ tr : List (NetworkEvent N Addr)}
    {s₁ s₂ s : Network N Addr TsMuxer σ κ ς χ w} {a b : N} {peer : Addr} (hgen : cg a = tsMuxer)
    (hframe : (cfg a).frameSize = profile.size) (hsize : (cfg a).frameSize = (cfg b).frameSize)
    (hpass : (cfg a).scope ≠ .global → (cfg a).strategy ≠ .none)
    (before : Run (Step rt cfg cg) (start rt sch gen) as₁ tr₁ s₁) (hc : Step rt cfg cg s₁ (.connect a peer b) [] s₂)
    (after : Run (Step rt cfg cg) s₂ as tr s) (hkeep : ∀ act ∈ as, Keeps a peer s₁.links.length act)
    (hrow : ∀ e ∈ atNode a (tr₁ ++ tr), Undivided (cfg a).shaper peer e) {ys : List Bytes}
    (hys : ys <:+: Connection.arrived (atLink s₁.links.length tr)) :
    (∃ n, ∀ i y, ys[i]? = some y → ∃ pusi, parseTs y =
        some ⟨(gen a).pid &&& 0x1fff, ((gen a).cc + UInt8.ofNat (n + i)) &&& 0x0f, pusi, 3⟩) ∧
      Clean ((gen a).pid &&& 0x1fff) ys {} (ys.foldl Profiled.see {}) := by
  have hcg : (cg a).Sized (cfg a).toShapeConfig := hgen ▸ sized_tsMuxer hframe
  have hn : Numbers (cg a) (cfg a).toShapeConfig unflagged TsMuxer.next TsHeader.succ := hgen ▸ numbers_tsMuxer _
  obtain ⟨n, hcount⟩ := row_counts hrt hlt hn hcg hsize hpass before hc after hkeep hrow hys
  refine ⟨⟨n, fun i y hy => ?_⟩, ?_⟩
  · have hheader := hcount.getElem? hy
    rw [← Function.iterate_add_apply, Nat.add_comm, iterate_succ] at hheader
    obtain ⟨h, hparse, hh⟩ := Option.map_eq_some_iff.mp hheader
    obtain ⟨pid, cc, pusi, scrambling⟩ := h
    cases hh
    exact ⟨pusi, hparse⟩
  · have hclean := clean_foldl hcount (o := {}) fun prev hprev => by cases hprev
    rw [iterate_succ] at hclean
    exact hclean

/-- Two viewers, scrambled noise, and then a message for both, which the second recovers. -/
theorem ts_stream_two :
    let cfg : ℕ → NodeConfig := fun _ => { frameSize := 188, fanout := 7, accepted := by decide }
    let g : TsMuxer := { pid := 0x0100, rng := Stream'.const 5 }
    let s₀ : PlainNetwork ℕ ℕ TsMuxer := start .plain (fun _ => { rng := Stream'.const 1 }) fun _ => g
    let acts : List (NetworkAct ℕ ℕ) :=
      [.node 0 .wake [], .node 0 (.snapshot [1, 2]) [], .node 0 .sched [], .node 0 .sched [], .node 0 .sched [],
        .node 0 (.enqueue .high .broadcast (buildTsPacket (some [104, 105]) (Stream'.const 3)).1) [],
        .node 0 .wake [], .node 0 (.snapshot [2, 1]) [], .node 0 .sched [], .node 0 .sched [],
        .link 1 .write, .link 1 .write, .link 1 (.read 250), .link 1 (.read 250)]
    ∃ (s₁ s₂ : PlainNetwork ℕ ℕ TsMuxer) (tr : List (NetworkEvent ℕ ℕ))
      (s : PlainNetwork ℕ ℕ TsMuxer) (ys : List Bytes),
      Step .plain cfg (fun _ => tsMuxer) s₀ (.connect 0 1 1) [] s₁ ∧
      Step .plain cfg (fun _ => tsMuxer) s₁ (.connect 0 2 2) [] s₂ ∧ Run (Step .plain cfg fun _ => tsMuxer) s₂ acts tr s ∧
      ys = Connection.arrived (atLink 1 tr) ∧
      ys.map parseTs = [some ⟨0x0100, 0, false, 3⟩, some ⟨0x0100, 1, true, 3⟩] ∧
      (∃ n, ∀ i y, ys[i]? = some y → ∃ pusi, parseTs y =
        some ⟨g.pid &&& 0x1fff, (g.cc + UInt8.ofNat (n + i)) &&& 0x0f, pusi, 3⟩) ∧
      Clean (g.pid &&& 0x1fff) ys {} (ys.foldl Profiled.see {}) ∧ ys.filterMap recover = [[104, 105]] := by
  intro cfg g s₀ acts
  obtain ⟨s₁, hfirst, s₂, hc, hlinks, tr, s, after, hparsed, hrecovered, hrow⟩ :
      ∃ s₁, Step .plain cfg (fun _ => tsMuxer) s₀ (.connect 0 1 1) [] s₁ ∧
      ∃ s₂, Step .plain cfg (fun _ => tsMuxer) s₁ (.connect 0 2 2) [] s₂ ∧ s₁.links.length = 1 ∧
      ∃ tr s, Run (Step .plain cfg fun _ => tsMuxer) s₂ acts tr s ∧
        (Connection.arrived (atLink 1 tr)).map parseTs = [some ⟨0x0100, 0, false, 3⟩, some ⟨0x0100, 1, true, 3⟩] ∧
        (Connection.arrived (atLink 1 tr)).filterMap recover = [[104, 105]] ∧
        ∀ e ∈ atNode 0 ([] ++ tr), Undivided (cfg 0).shaper 2 e :=
    ⟨_, rfl, _, rfl, rfl, exists_run_of_exec (by decide +kernel)⟩
  have before : Run (Step .plain cfg fun _ => tsMuxer) s₀ [.connect 0 1 1] [] s₁ := .single hfirst
  have hlt : ∀ a, (cfg a).frameSize < 2 ^ 32 := fun _ => by decide
  have hframe : (cfg 0).frameSize = profile.size := rfl
  have hgen : (fun _ : ℕ => tsMuxer) 0 = tsMuxer := rfl
  have hsize : (cfg 0).frameSize = (cfg 2).frameSize := rfl
  have hkeep : ∀ act ∈ acts, Keeps 0 2 s₁.links.length act := by
    rw [hlinks]
    decide
  have hpass : (cfg 0).scope ≠ .global → (cfg 0).strategy ≠ .none := by decide
  have hys : Connection.arrived (atLink 1 tr) <:+: Connection.arrived (atLink s₁.links.length tr) := by rw [hlinks]
  obtain ⟨hheaders, hclean⟩ :=
    ts_stream Runtime.plain_documented hlt hgen hframe hsize hpass before hc after hkeep hrow hys
  exact ⟨s₁, s₂, tr, s, _, hfirst, hc, after, rfl, hparsed, hheaders, hclean, hrecovered⟩

end MpegtsBroadcast

end Peashape
