import Peashape.Delivery.Relays
import Peashape.Masquerade.Streams

/-!
# Messages, from one application to another

What an application reads out of a frame it is told of, if the generators leave it readable
(`Legible`): it is what the frame said that some node accepted for this one, unless the frame is
cover (`told_message`). The examples' formats are read back from what the examples submit:
`extractPayload_enqueue` for the plaintext of `two_nodes`, and `recover_build` for the packets of
the other two.
-/

namespace Peashape

open Foundation Codec Shaping Network Lagging

/-- A header in place of another hides no message. -/
theorem Masquerade.Profile.recover_stamp (P : Masquerade.Profile) {header frame : Bytes} (h : header.length = P.header)
    (hf : P.header ≤ frame.length) : P.recover (header ++ frame.drop P.header) = P.recover frame := by
  have htake : (frame.take P.header).length = P.header := by rw [List.length_take]; omega
  have hsplit := P.recover_append h htake (frame.drop P.header)
  rwa [List.take_append_drop] at hsplit

theorem WebrtcMasquerade.legible_rtpSequencer {c : ShapeConfig} (hc : c.frameSize = profile.size) :
    Legible rtpSequencer c recover := fun g frame hf => by
  refine profile.recover_stamp ?_ (by rw [hf, hc]; decide)
  simp [profile, Framing.beBytes16, Framing.beBytes]

theorem MpegtsBroadcast.legible_tsMuxer {c : ShapeConfig} (hc : c.frameSize = profile.size) :
    Legible tsMuxer c recover := fun _ frame hf => profile.recover_stamp rfl (by rw [hf, hc]; decide)

/-! ### The plaintext format -/

namespace TwoNodes

/-- A framed payload is read back from behind an identifier, whatever padding follows. -/
theorem extractPayload_framed {id : Bytes} (hid : id.length = idSize) {data : Bytes} (h : data.length ≤ 255)
    (pad : Bytes) : extractPayload (id ++ framePayload data h ++ pad) = some data := by
  have hlen : (UInt8.ofNat data.length).toNat = data.length := by
    rw [UInt8.toNat_ofNat', Nat.mod_eq_of_lt (by omega)]
  have hframe : id ++ framePayload data h ++ pad = id ++ (magic ++ UInt8.ofNat data.length :: (data ++ pad)) := by
    simp [framePayload]
  have hpayload : slice (id ++ (magic ++ UInt8.ofNat data.length :: (data ++ pad))) idSize
      (id ++ (magic ++ UInt8.ofNat data.length :: (data ++ pad))).length =
        some (magic ++ UInt8.ofNat data.length :: (data ++ pad)) := by
    have hafter := slice_append id (magic ++ UInt8.ofNat data.length :: (data ++ pad)) 0
      (magic ++ UInt8.ofNat data.length :: (data ++ pad)).length
    rw [← List.length_append, Nat.add_zero, hid] at hafter
    rw [hafter, slice_eq_some (Nat.zero_le _) le_rfl, List.take_length, List.drop_zero]
  have hdata : slice (UInt8.ofNat data.length :: (data ++ pad)) 1 (1 + data.length) = some data := by
    have hafter := slice_append [UInt8.ofNat data.length] (data ++ pad) 0 data.length
    rwa [slice_front] at hafter
  simp only [extractPayload, hframe, hpayload, List.take_left, List.drop_left, if_true, hlen, hdata]

/-- **What a node queues for a framed payload says the payload**: whatever the payload, the scope,
the random bytes and the state of the lanes, a copy of the frame that `enqueue` puts into a lane
is read back as the payload it was given. -/
theorem extractPayload_enqueue {Addr : Type*} [DecidableEq Addr] (cfg : ShaperConfig) (call : ℕ) (lane : Lane)
    (target : Target Addr) {data : Bytes} (h : data.length ≤ 255) (rng : Stream' UInt8) (s : Shaper Addr)
    {owner : Option Addr} {k : Lane} {f : PendingFrame Addr}
    (hf : .push owner k f ∈ s.enqueueEvents cfg call lane target (framePayload data h) rng) :
    f.origin = .enqueued call ∧ f.bytes.length = cfg.frameSize ∧ extractPayload f.bytes = some data := by
  unfold Shaper.enqueueEvents at hf
  split_ifs at hf with hsize
  · simp at hf
  · obtain ⟨n, l, t, horigin, hacc, -⟩ := traced_of_mem_enqueueRawEvents hf
    obtain ⟨rfl, -, -, hbytes⟩ := eq_of_accepted_mem_enqueueRawEvents hacc
    rw [hbytes]
    have hid : (drawBytes idSize rng).1.length = idSize := length_drawBytes _ _
    exact ⟨horigin, length_buildFrame rng cfg.idSize_le (Nat.le_of_not_lt hsize), extractPayload_framed hid h _⟩

/-- Two bytes, framed and queued for everyone. -/
theorem extractPayload_enqueue_two :
    let cfg : ShaperConfig := { frameSize := 48, accepted := by decide }
    ∃ f : PendingFrame ℕ, .push none .high f ∈ ({} : Shaper ℕ).enqueueEvents cfg 0 .high .broadcast
        (framePayload [104, 105] (by decide)) (Stream'.const 9) ∧
      f.origin = .enqueued 0 ∧ f.bytes.length = 48 ∧ extractPayload f.bytes = some [104, 105] := by
  intro cfg
  obtain ⟨f, hf⟩ : ∃ f : PendingFrame ℕ, .push none .high f ∈ ({} : Shaper ℕ).enqueueEvents cfg 0 .high .broadcast
      (framePayload [104, 105] (by decide)) (Stream'.const 9) := ⟨_, List.mem_cons_of_mem _ (List.mem_cons_self ..)⟩
  exact ⟨f, hf, extractPayload_enqueue cfg 0 .high .broadcast (by decide) (Stream'.const 9) {} hf⟩

end TwoNodes

/-! ### Across the network -/

section Network

variable {N Addr G σ κ ς χ : Type*} {w : ℕ} [DecidableEq N] [DecidableEq Addr] {rt : Runtime σ κ ς χ}
  {cfg : N → NodeConfig} {cg : N → CoverGenerator G} {s : Network N Addr G σ κ ς χ w} {tr : List (NetworkEvent N Addr)}

/-- **What is read of a frame that was delivered is what was read of it when it was submitted.**
Over any run of a network whose generators leave real frames readable: a frame that a subscriber
of node `b` is told of was handed to the writer by a node with a connection to `b`, for its
address. It is cover of that node, or what is read of it is what was read of a frame that was
accepted there, for this address or for everyone. -/
theorem told_message {M : Type*} {read : Bytes → M} (hrt : rt.Documented) (hlt : ∀ a, (cfg a).frameSize < 2 ^ 32)
    (hread : ∀ a, Legible (cg a) (cfg a).toShapeConfig read) {sch : N → Scheduler Addr w} {gen : N → G}
    {as : List (NetworkAct N Addr)} (h : Run (Step rt cfg cg) (start rt sch gen) as tr s) {b : N} {i : ℕ} {y : Bytes}
    (hy : y ∈ values (told i (atInbox b tr))) : ∃ (k : ℕ) (l : Link N Addr σ κ ς) (f : PendingFrame Addr),
      s.links[k]? = some l ∧ l.target = b ∧ .send l.peer f ∈ atNode l.source tr ∧ f.bytes = y ∧
      (f.origin = .cover ∨ ∃ n lane target x, f.origin = .enqueued n ∧ .accepted n lane target x ∈ atNode l.source tr ∧
        Allows l.peer target ∧ read y = read x) := by
  obtain ⟨k, l, f, hl, hb, hsend, hbytes⟩ := exists_send_of_told hrt hlt h hy
  refine ⟨k, l, f, hl, hb, hsend, hbytes, ?_⟩
  rw [← hbytes]
  exact (read_of_send (hread l.source) h hsend).imp_left And.left

/-- A message in an RTP packet, from one application to another. -/
theorem told_message_rtp :
    let cfg : Bool → NodeConfig := fun _ => { frameSize := 102, scope := .perConnection false, accepted := by decide }
    let s₀ : PlainNetwork Bool ℕ WebrtcMasquerade.RtpSequencer :=
      start .plain (fun _ => { rng := Stream'.const 1 }) fun _ =>
        { ssrc := 7, seq := 65535, ts := 0, rng := Stream'.const 5 }
    let packet : Bytes := (WebrtcMasquerade.buildPacket (some [104, 105]) (Stream'.const 3)).1
    let acts : List (NetworkAct Bool ℕ) := [.connect false 1 true, .inbox true .subscribe,
      .node false (.enqueue .high (.unicast 1) packet) [], .node false .wake [], .node false (.snapshot [1]) []] ++
        List.replicate 5 (.node false .sched []) ++ [.link 0 .write, .link 0 (.read 106), .inbox true (.recv 0)]
    ∃ tr s, Run (Step .plain cfg fun _ => WebrtcMasquerade.rtpSequencer) s₀ acts tr s ∧
      (values (told 0 (atInbox true tr))).map WebrtcMasquerade.recover = [some [104, 105]] ∧
      packet ∉ values (told 0 (atInbox true tr)) ∧
      ∀ y ∈ values (told 0 (atInbox true tr)), ∃ (k : ℕ) (l : PlainLink Bool ℕ) (f : PendingFrame ℕ),
        s.links[k]? = some l ∧ l.target = true ∧ .send l.peer f ∈ atNode l.source tr ∧ f.bytes = y ∧
        (f.origin = .cover ∨ ∃ n lane target x, f.origin = .enqueued n ∧
          .accepted n lane target x ∈ atNode l.source tr ∧ Allows l.peer target ∧
            WebrtcMasquerade.recover y = WebrtcMasquerade.recover x) := by
  intro cfg s₀ packet acts
  obtain ⟨tr, s, hrun, htold, hstamped⟩ : ∃ tr s,
      Run (Step .plain cfg fun _ => WebrtcMasquerade.rtpSequencer) s₀ acts tr s ∧
        (values (told 0 (atInbox true tr))).map WebrtcMasquerade.recover = [some [104, 105]] ∧
        packet ∉ values (told 0 (atInbox true tr)) := exists_run_of_exec (by decide +kernel)
  have hlt : ∀ a, (cfg a).frameSize < 2 ^ 32 := fun _ => by decide
  have hread : ∀ a, Legible WebrtcMasquerade.rtpSequencer (cfg a).toShapeConfig WebrtcMasquerade.recover :=
    fun _ => WebrtcMasquerade.legible_rtpSequencer rfl
  exact ⟨tr, s, hrun, htold, hstamped, fun _ hy => told_message Runtime.plain_documented hlt hread hrun hy⟩

end Network

end Peashape
