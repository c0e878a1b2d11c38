import Mathlib.Data.Finset.Insert
import Peashape.Foundation.Framing
import Peashape.Model.Config

/-!
# The payloads and the cover generators of the examples

The programs under `examples/` put messages of their own into frames. `two_nodes` marks them
with plaintext; `webrtc_masquerade` and `mpegts_broadcast` hide them under a keystream, behind a
header that a cover generator writes onto every frame, real or not, as it leaves. The two hide
messages in the same way, at other places of the packet (`Profile`); their headers, their
generators and what they count of the stream they receive differ.

A packet is built from a source of random bytes (`rand::rng()`). The counters of a generator
are atomic in the source, but only the scheduler calls it: they are fields of its state.
-/

namespace Peashape

open Foundation Framing

/-- `get(i..j)` of a slice. -/
def slice (bytes : Bytes) (i j : ℕ) : Option Bytes :=
  if i ≤ j ∧ j ≤ bytes.length then some ((bytes.take j).drop i) else none

/-! ### `two_nodes` -/

namespace TwoNodes

/-- `MAGIC`. -/
def magic : Bytes := [0x50, 0x45, 0x53, 0x48]

/-- `frame_payload`, with its assertion as a hypothesis. -/
def framePayload (data : Bytes) (_h : data.length ≤ 255) : Bytes :=
  magic ++ UInt8.ofNat data.length :: data

/-- `extract_payload`. -/
def extractPayload (frame : Bytes) : Option Bytes :=
  match slice frame idSize frame.length with
  | none => none
  | some payload =>
    if payload.take magic.length = magic then
      match payload.drop magic.length with
      | [] => none
      | len :: rest => slice (len :: rest) 1 (1 + len.toNat)
    else none

end TwoNodes

/-! ### Hidden messages -/

namespace Masquerade

/-- `KEY`. -/
def key : UInt32 := 0x5a5a5a5a

/-- `NONCE`. -/
def nonceSize : ℕ := 4

/-- `keystream`, the same in both examples. -/
def keystream (nonce : UInt32) (i : ℕ) : UInt8 :=
  let n := (nonce + UInt32.ofNat i) * 2654435761
  (key ^^^ n ^^^ (n >>> 13)).toUInt8

/-- Bytes under the keystream. -/
def scramble (nonce : UInt32) (bytes : Bytes) : Bytes := bytes.mapIdx fun i b => b ^^^ keystream nonce i

/-- The nonce at the front of a payload. -/
def nonceOf (payload : Bytes) : UInt32 := UInt32.ofNat (beValue (payload.take nonceSize))

/-- Where the payload of a packet is, and the marker of a real one. -/
structure Profile where
  /-- The length of the header. -/
  header : ℕ
  /-- The length of the payload. -/
  payload : ℕ
  /-- The length of what follows the payload. -/
  tag : ℕ
  /-- `REAL_MAGIC`. -/
  magic : Bytes
  /-- There is room for the nonce, the marker and the length of a message. -/
  roomy : nonceSize + magic.length + 1 ≤ payload
  /-- The length of a message fits its byte. -/
  short : payload < nonceSize + magic.length + 1 + 256

namespace Profile

variable (P : Profile)

/-- The length of a packet. -/
def size : ℕ := P.header + P.payload + P.tag

/-- How long a message can be; what is longer is cut off. -/
def room : ℕ := P.payload - nonceSize - P.magic.length - 1

/-- The plaintext of a message: the marker, the length and the bytes that fit. -/
def plaintext (message : Bytes) : Bytes :=
  let take := min message.length P.room
  P.magic ++ UInt8.ofNat take :: message.take take

/-- A random payload, with a message written over what follows the nonce. -/
def embed (payload message : Bytes) : Bytes :=
  let pt := P.plaintext message
  payload.take nonceSize ++ scramble (nonceOf payload) pt ++ payload.drop (nonceSize + pt.length)

/-- A packet with a zeroed header: random bytes, and a message in them if there is one. -/
def build (message : Option Bytes) (rng : Stream' UInt8) : Bytes × Stream' UInt8 :=
  let (payload, rng) := drawBytes P.payload rng
  let payload := match message with
    | none => payload
    | some message => P.embed payload message
  let (tag, rng) := drawBytes P.tag rng
  (List.replicate P.header 0 ++ payload ++ tag, rng)

/-- The message in a packet, if there is one. -/
def recover (frame : Bytes) : Option Bytes :=
  match slice frame P.header (P.header + P.payload) with
  | none => none
  | some payload =>
    let pt := scramble (nonceOf payload) (payload.drop nonceSize)
    if pt.take P.magic.length = P.magic then
      let len := (pt.getD P.magic.length 0).toNat
      slice pt (P.magic.length + 1) (P.magic.length + 1 + len)
    else none

end Profile

end Masquerade

/-! ### `webrtc_masquerade` -/

namespace WebrtcMasquerade

/-- `OPUS_PT`. -/
def opusPt : UInt8 := 111

/-- `RTP_V2`. -/
def rtpV2 : UInt8 := 0x80

/-- `TS_STEP`. -/
def tsStep : UInt32 := 960

/-- `RTP_HEADER`, `OPUS_PAYLOAD`, `SRTP_TAG` and `REAL_MAGIC`. -/
def profile : Masquerade.Profile where
  header := 12
  payload := 80
  tag := 10
  magic := [0x52, 0x54, 0x50, 0x21]
  roomy := by decide
  short := by decide

/-- `build_packet`. -/
def buildPacket (message : Option Bytes) (rng : Stream' UInt8) : Bytes × Stream' UInt8 := profile.build message rng

/-- `recover`. -/
def recover (frame : Bytes) : Option Bytes := profile.recover frame

/-- What a header says. -/
structure RtpHeader where
  /-- The sequence number. -/
  seq : UInt16
  /-- The timestamp. -/
  ts : UInt32
  /-- The stream. -/
  ssrc : UInt32
  /-- The marker bit. -/
  marker : Bool
  deriving DecidableEq

/-- `stamp_header`. It is given frames of `frame_size` bytes, which have room for a header. -/
def stampHeader (f : Bytes) (h : RtpHeader) : Bytes :=
  [rtpV2, if h.marker then 0x80 ||| opusPt else opusPt] ++ beBytes16 h.seq.toNat ++ beBytes h.ts.toNat ++
    beBytes h.ssrc.toNat ++ f.drop profile.header

/-- `parse_rtp`. -/
def parseRtp (frame : Bytes) : Option RtpHeader :=
  if frame.length < profile.header ∨ frame.getD 0 0 ≠ rtpV2 ∨ frame.getD 1 0 &&& 0x7f ≠ opusPt then none
  else
    some {
      seq := UInt16.ofNat (beValue ((frame.drop 2).take 2))
      ts := UInt32.ofNat (beValue ((frame.drop 4).take 4))
      ssrc := UInt32.ofNat (beValue ((frame.drop 8).take 4))
      marker := decide (frame.getD 1 0 &&& 0x80 ≠ 0) }

/-- `RtpSequencer`, with its source of random bytes. -/
structure RtpSequencer where
  /-- The stream. -/
  ssrc : UInt32
  /-- The next sequence number. -/
  seq : UInt16
  /-- The next timestamp. -/
  ts : UInt32
  /-- Whether a packet was stamped. -/
  started : Bool := false
  /-- What `build_packet` draws from. -/
  rng : Stream' UInt8

namespace RtpSequencer

/-- The header of the next packet. -/
def next (g : RtpSequencer) : RtpHeader := ⟨g.seq, g.ts, g.ssrc, !g.started⟩

/-- `stamp`. -/
def stamp (frame : Bytes) (g : RtpSequencer) : Bytes × RtpSequencer :=
  (stampHeader frame g.next, { g with seq := g.seq + 1, ts := g.ts + tsStep, started := true })

end RtpSequencer

/-- `impl CoverGenerator for RtpSequencer`. -/
def rtpSequencer : CoverGenerator RtpSequencer where
  cover _ g :=
    let (f, rng) := buildPacket none g.rng
    { g with rng := rng }.stamp f
  finalizeReal _ g frame := g.stamp frame

/-- What the receiving program counts. -/
structure Profiled where
  /-- `total`. -/
  total : ℕ := 0
  /-- `valid`. -/
  valid : ℕ := 0
  /-- `cover_count`. -/
  coverCount : ℕ := 0
  /-- `gaps`. -/
  gaps : ℕ := 0
  /-- `ssrcs`. -/
  ssrcs : Finset UInt32 := ∅
  /-- `last_seq`. -/
  lastSeq : Option UInt16 := none
  /-- `recovered`. -/
  recovered : List Bytes := []

/-- `(seq.wrapping_sub(prev) as usize).saturating_sub(1)`. -/
def gap (prev seq : UInt16) : ℕ := (seq - prev).toNat - 1

/-- One frame received. -/
def Profiled.see (o : Profiled) (buf : Bytes) : Profiled :=
  match parseRtp buf with
  | some h =>
    { o with
      total := o.total + 1
      valid := o.valid + 1
      ssrcs := insert h.ssrc o.ssrcs
      gaps := o.gaps + o.lastSeq.elim 0 fun prev => gap prev h.seq
      lastSeq := some h.seq
      recovered := o.recovered ++ (recover buf).toList }
  | none => { o with total := o.total + 1, coverCount := o.coverCount + 1 }

end WebrtcMasquerade

/-! ### `mpegts_broadcast` -/

namespace MpegtsBroadcast

/-- `TS_SYNC`. -/
def tsSync : UInt8 := 0x47

/-- `TS_HEADER`, `TS_PAYLOAD` and `REAL_MAGIC`. -/
def profile : Masquerade.Profile where
  header := 4
  payload := 184
  tag := 0
  magic := [0x54, 0x53, 0x21, 0x21]
  roomy := by decide
  short := by decide

/-- `build_ts_packet`. -/
def buildTsPacket (message : Option Bytes) (rng : Stream' UInt8) : Bytes × Stream' UInt8 := profile.build message rng

/-- `recover`. -/
def recover (frame : Bytes) : Option Bytes := profile.recover frame

/-- What a header says. -/
structure TsHeader where
  /-- The elementary stream. -/
  pid : UInt16
  /-- The continuity counter. -/
  cc : UInt8
  /-- `payload_unit_start`. -/
  pusi : Bool
  /-- The scrambling control. -/
  scrambling : UInt8
  deriving DecidableEq

/-- `parse_ts`. -/
def parseTs (f : Bytes) : Option TsHeader :=
  if f.length < profile.header ∨ f.getD 0 0 ≠ tsSync then none
  else
    some {
      pid := ((f.getD 1 0 &&& 0x1f).toUInt16 <<< 8) ||| (f.getD 2 0).toUInt16
      cc := f.getD 3 0 &&& 0x0f
      pusi := decide (f.getD 1 0 &&& 0x40 ≠ 0)
      scrambling := f.getD 3 0 >>> 6 }

/-- `TsMuxer`, with its source of random bytes. -/
structure TsMuxer where
  /-- The elementary stream. -/
  pid : UInt16
  /-- The continuity counter, not yet masked. -/
  cc : UInt8 := 0
  /-- What `build_ts_packet` draws from. -/
  rng : Stream' UInt8

/-- `stamp`. It is given frames of `frame_size` bytes, which have room for a header. -/
def TsMuxer.stamp (f : Bytes) (pusi : Bool) (g : TsMuxer) : Bytes × TsMuxer :=
  ([tsSync, (pusi.toUInt8 <<< 6) ||| ((g.pid >>> 8).toUInt8 &&& 0x1f), (g.pid &&& 0xff).toUInt8,
      0xd0 ||| (g.cc &&& 0x0f)] ++ f.drop profile.header,
    { g with cc := g.cc + 1 })

/-- `impl CoverGenerator for TsMuxer`. -/
def tsMuxer : CoverGenerator TsMuxer where
  cover _ g :=
    let (f, rng) := buildTsPacket none g.rng
    { g with rng := rng }.stamp f false
  finalizeReal _ g frame := g.stamp frame true

/-- What the receiving program counts for one viewer. -/
structure Profiled where
  /-- `packets`. -/
  packets : ℕ := 0
  /-- `valid`. -/
  valid : ℕ := 0
  /-- `discontinuities`. -/
  discontinuities : ℕ := 0
  /-- `pids`. -/
  pids : Finset UInt16 := ∅
  /-- `last_cc`. -/
  lastCc : Option UInt8 := none
  /-- `decoded`. -/
  decoded : List Bytes := []

/-- One frame received. -/
def Profiled.see (o : Profiled) (buf : Bytes) : Profiled :=
  match parseTs buf with
  | some h =>
    { packets := o.packets + 1
      valid := o.valid + 1
      discontinuities := o.discontinuities + o.lastCc.elim 0 fun prev => if h.cc ≠ (prev + 1) &&& 0x0f then 1 else 0
      pids := insert h.pid o.pids
      lastCc := some h.cc
      decoded := o.decoded ++ (recover buf).toList }
  | none => { o with packets := o.packets + 1 }

end MpegtsBroadcast

end Peashape
