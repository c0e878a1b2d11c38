import Mathlib.Data.List.Indexes
import Mathlib.Tactic.IntervalCases
import Peashape.Model.Masquerade

/-!
# What comes back out of a packet

A hidden message is recovered from its packet, up to what was cut off (`recover_build`), and
whatever stands in place of the header (`recover_append`): what a generator stamps onto a packet
as it leaves does not disturb what is under the keystream. The headers the two generators stamp
are read back by the parsers.
-/

namespace Peashape

open Foundation Framing

theorem slice_eq_some {bytes : Bytes} {i j : ℕ} (hij : i ≤ j) (hj : j ≤ bytes.length) :
    slice bytes i j = some ((bytes.take j).drop i) := if_pos ⟨hij, hj⟩

/-- A part of what follows. -/
theorem slice_append (xs ys : Bytes) (i j : ℕ) : slice (xs ++ ys) (xs.length + i) (xs.length + j) = slice ys i j := by
  have hpast : xs.drop (xs.length + i) = [] := List.drop_eq_nil_of_le (Nat.le_add_right _ _)
  simp only [slice, List.length_append, Nat.add_le_add_iff_left, List.take_length_add_append, List.drop_append, hpast,
    List.nil_append, Nat.add_sub_cancel_left]

/-- The front of two parts. -/
theorem slice_front (xs ys : Bytes) : slice (xs ++ ys) 0 xs.length = some xs := by
  rw [slice_eq_some (Nat.zero_le _) (by simp), List.take_left, List.drop_zero]

namespace Masquerade

/-! ### The keystream -/

@[simp] theorem length_scramble (nonce : UInt32) (bytes : Bytes) : (scramble nonce bytes).length = bytes.length :=
  List.length_mapIdx

/-- The keystream, applied twice, cancels. -/
theorem scramble_scramble (nonce : UInt32) (bytes : Bytes) : scramble nonce (scramble nonce bytes) = bytes := by
  rw [scramble, scramble, List.mapIdx_mapIdx]
  refine List.ext_getElem (by simp) fun i _ _ => ?_
  rw [List.getElem_mapIdx, Function.comp_apply, UInt8.xor_assoc, UInt8.xor_self, UInt8.xor_zero]

/-- What the keystream uncovers at the front does not depend on the rest. -/
theorem scramble_append (nonce : UInt32) (xs ys : Bytes) :
    ∃ rest, scramble nonce (scramble nonce xs ++ ys) = xs ++ rest := by
  refine ⟨ys.mapIdx fun i b => b ^^^ keystream nonce (i + xs.length), ?_⟩
  have hfront : (scramble nonce xs).mapIdx (fun i b => b ^^^ keystream nonce i) = xs := scramble_scramble nonce xs
  rw [scramble, List.mapIdx_append, hfront, length_scramble]

namespace Profile

variable (P : Profile) {message payload rest : Bytes}

/-! ### One packet -/

theorem length_plaintext (message : Bytes) :
    (P.plaintext message).length = P.magic.length + 1 + min message.length P.room := by
  simp only [plaintext, List.length_append, List.length_cons, List.length_take]
  omega

theorem length_plaintext_le (message : Bytes) : nonceSize + (P.plaintext message).length ≤ P.payload := by
  have hroomy := P.roomy
  rw [length_plaintext, room]
  omega

theorem length_embed (message : Bytes) (h : payload.length = P.payload) :
    (P.embed payload message).length = P.payload := by
  have hle := P.length_plaintext_le message
  simp only [embed, List.length_append, List.length_take, length_scramble, List.length_drop]
  omega

theorem length_build (message : Option Bytes) (rng : Stream' UInt8) : (P.build message rng).1.length = P.size := by
  cases message with
  | none => simp [build, size, Nat.add_assoc]
  | some message => simp [build, size, P.length_embed message (length_drawBytes P.payload rng), Nat.add_assoc]

/-- A message does not touch the nonce. -/
theorem nonceOf_embed (message : Bytes) (h : payload.length = P.payload) :
    nonceOf (P.embed payload message) = nonceOf payload := by
  have hle := P.length_plaintext_le message
  have hnonce : (payload.take nonceSize).length = nonceSize := by rw [List.length_take]; omega
  rw [nonceOf, embed, List.append_assoc, List.take_left' hnonce]
  rfl

/-- What a plaintext says, read from its front. -/
theorem read_plaintext (message rest : Bytes) :
    (P.plaintext message ++ rest).take P.magic.length = P.magic ∧
      ((P.plaintext message ++ rest).getD P.magic.length 0).toNat = min message.length P.room ∧
      slice (P.plaintext message ++ rest) (P.magic.length + 1)
        (P.magic.length + 1 + min message.length P.room) = some (message.take P.room) := by
  have hshort := P.short
  have hlt : min message.length P.room < 256 := by
    rw [room]
    omega
  have htake : message.take (min message.length P.room) = message.take P.room := by
    rw [Nat.min_comm, ← List.take_take, List.take_length]
  have hlen : (message.take (min message.length P.room)).length = min message.length P.room := by
    rw [List.length_take]
    omega
  refine ⟨?_, ?_, ?_⟩
  · rw [plaintext, List.append_assoc, List.take_left]
  · simp [plaintext, List.getD_eq_getElem?_getD, Nat.mod_eq_of_lt hlt]
  · have hsplit : P.plaintext message ++ rest = (P.magic ++ [UInt8.ofNat (min message.length P.room)]) ++
        (message.take (min message.length P.room) ++ rest) := by simp [plaintext]
    have hmiddle := slice_append (P.magic ++ [UInt8.ofNat (min message.length P.room)])
      (message.take (min message.length P.room) ++ rest) 0 (min message.length P.room)
    have hfront := slice_front (message.take (min message.length P.room)) rest
    rw [hlen] at hfront
    rw [← hsplit, hfront, htake] at hmiddle
    simpa using hmiddle

/-- What is recovered does not depend on what stands in place of the header. -/
theorem recover_append {header header' : Bytes} (h : header.length = P.header) (h' : header'.length = P.header)
    (rest : Bytes) : P.recover (header ++ rest) = P.recover (header' ++ rest) := by
  have hpayload := slice_append header rest 0 P.payload
  have hpayload' := slice_append header' rest 0 P.payload
  rw [h, Nat.add_zero] at hpayload
  rw [h', Nat.add_zero] at hpayload'
  simp only [recover, hpayload, hpayload']

/-- A message comes back out of the payload it was written into. -/
theorem recover_embed {header : Bytes} (h : header.length = P.header) (hp : payload.length = P.payload)
    (message tag : Bytes) : P.recover (header ++ (P.embed payload message ++ tag)) = some (message.take P.room) := by
  have hlen := P.length_embed message hp
  have hpayload := slice_append header (P.embed payload message ++ tag) 0 P.payload
  have hfront := slice_front (P.embed payload message) tag
  rw [hlen] at hfront
  rw [hfront, h, Nat.add_zero] at hpayload
  have hnonce : (payload.take nonceSize).length = nonceSize := by
    have hle := P.length_plaintext_le message
    rw [List.length_take]
    omega
  obtain ⟨rest, hrest⟩ := scramble_append (nonceOf payload) (P.plaintext message)
    (payload.drop (nonceSize + (P.plaintext message).length))
  have hpt : scramble (nonceOf payload) ((P.embed payload message).drop nonceSize) = P.plaintext message ++ rest := by
    rw [embed, List.append_assoc, List.drop_left' hnonce, hrest]
  obtain ⟨hmagic, hsize, hmessage⟩ := P.read_plaintext message rest
  simp only [recover, hpayload, P.nonceOf_embed message hp, hpt, hmagic, if_true, hsize, hmessage]

/-- **A message comes back out of its packet**, up to what was cut off, whatever header the
packet was given. -/
theorem recover_build {header : Bytes} (h : header.length = P.header) (message : Bytes) (rng : Stream' UInt8) :
    P.recover (header ++ (P.build (some message) rng).1.drop P.header) = some (message.take P.room) := by
  have hzero : (List.replicate P.header (0 : UInt8)).length = P.header := List.length_replicate
  simp only [build, List.append_assoc, List.drop_left' hzero]
  exact P.recover_embed h (length_drawBytes P.payload rng) message _

/-- A message that is cut off after 71 bytes. -/
theorem recover_build_long : WebrtcMasquerade.profile.recover
    (List.replicate 12 9 ++ (WebrtcMasquerade.profile.build (some (List.replicate 100 7)) (Stream'.const 3)).1.drop 12) =
      some (List.replicate 71 7) :=
  WebrtcMasquerade.profile.recover_build rfl (List.replicate 100 7) (Stream'.const 3)

end Profile

end Masquerade

/-! ### The header of an RTP packet -/

namespace WebrtcMasquerade

theorem ofNat_beValue_beBytes (n : UInt32) : UInt32.ofNat (beValue (beBytes n.toNat)) = n := by
  rw [beValue_beBytes n.toNat_lt, UInt32.ofNat_toNat]

theorem ofNat_beValue_beBytes16 (n : UInt16) : UInt16.ofNat (beValue (beBytes16 n.toNat)) = n := by
  rw [beValue_beBytes16 n.toNat_lt, UInt16.ofNat_toNat]

/-- A stamped header is read back. -/
theorem parseRtp_stampHeader (f : Bytes) (h : RtpHeader) : parseRtp (stampHeader f h) = some h := by
  have hlen : ¬(stampHeader f h).length < profile.header := by simp [stampHeader, profile, beBytes16, beBytes]
  have hseq : ((stampHeader f h).drop 2).take 2 = beBytes16 h.seq.toNat := rfl
  have hts : ((stampHeader f h).drop 4).take 4 = beBytes h.ts.toNat := rfl
  have hssrc : ((stampHeader f h).drop 8).take 4 = beBytes h.ssrc.toNat := rfl
  have hfirst : (stampHeader f h).getD 0 0 = rtpV2 := rfl
  have hsecond : (stampHeader f h).getD 1 0 = if h.marker then 0x80 ||| opusPt else opusPt := rfl
  have hpt : ¬(if h.marker then 0x80 ||| opusPt else opusPt) &&& 0x7f ≠ opusPt := by cases h.marker <;> decide
  have hmarker : decide ((if h.marker then 0x80 ||| opusPt else opusPt) &&& 0x80 ≠ 0) = h.marker := by
    cases h.marker <;> decide
  rw [parseRtp, hseq, hts, hssrc, ofNat_beValue_beBytes16, ofNat_beValue_beBytes, ofNat_beValue_beBytes, hfirst, hsecond,
    if_neg (by simp [hlen, hpt]), hmarker]

/-- Bytes are determined by the number read from them. -/
theorem beBytes_ofNat {bs : Bytes} (h : bs.length = 4) : beBytes (UInt32.ofNat (beValue bs)).toNat = bs := by
  have hlt := beValue_lt bs
  rw [h] at hlt
  rw [UInt32.toNat_ofNat', Nat.mod_eq_of_lt hlt, beBytes_beValue h]

theorem beBytes16_ofNat {bs : Bytes} (h : bs.length = 2) : beBytes16 (UInt16.ofNat (beValue bs)).toNat = bs := by
  have hlt := beValue_lt bs
  rw [h] at hlt
  rw [UInt16.toNat_ofNat', Nat.mod_eq_of_lt hlt, beBytes16_beValue h]

/-- The second byte is determined by its two parts. -/
theorem second_byte {b : UInt8} (h : b &&& 0x7f = opusPt) :
    (if decide (b &&& 0x80 ≠ 0) = true then 0x80 ||| opusPt else opusPt) = b := by
  have hall : ∀ c : BitVec 8, c &&& 0x7f#8 = 111#8 →
      (c &&& 0x80#8 = 0#8 → 111#8 = c) ∧ (c &&& 0x80#8 ≠ 0#8 → 0x80#8 ||| 111#8 = c) := by decide
  obtain ⟨hclear, hset⟩ := hall b.toBitVec (UInt8.toBitVec_inj.mpr h)
  by_cases hm : b &&& 0x80 = 0
  · rw [if_neg (by simpa using hm)]
    exact UInt8.toBitVec_inj.mp (hclear (UInt8.toBitVec_inj.mpr hm))
  · rw [if_pos (by simpa using hm)]
    exact UInt8.toBitVec_inj.mp (hset fun hz => hm (UInt8.toBitVec_inj.mp hz))

/-- A packet with a header that is read is one with this header stamped on it. -/
theorem stampHeader_of_parseRtp {frame : Bytes} {h : RtpHeader} (hp : parseRtp frame = some h) :
    stampHeader frame h = frame := by
  simp only [parseRtp] at hp
  split_ifs at hp with hno
  cases hp
  simp only [not_or, not_lt, ne_eq, not_not] at hno
  obtain ⟨hlen, hfirst, hsecond⟩ := hno
  change 12 ≤ frame.length at hlen
  have hseq : ((frame.drop 2).take 2).length = 2 := by rw [List.length_take, List.length_drop]; omega
  have hts : ((frame.drop 4).take 4).length = 4 := by rw [List.length_take, List.length_drop]; omega
  have hssrc : ((frame.drop 8).take 4).length = 4 := by rw [List.length_take, List.length_drop]; omega
  have hstart : [rtpV2, frame.getD 1 0] = frame.take 2 := by
    match frame, hlen with
    | a :: b :: rest, _ =>
      have ha : a = rtpV2 := hfirst
      rw [ha]
      rfl
  have hsplit : ∀ i j : ℕ, (frame.drop i).take j ++ frame.drop (i + j) = frame.drop i := fun i j => by
    rw [← List.drop_drop, List.take_append_drop]
  have h2 := hsplit 2 2
  have h4 := hsplit 4 4
  have h8 := hsplit 8 4
  simp only [stampHeader, beBytes16_ofNat hseq, beBytes_ofNat hts, beBytes_ofNat hssrc, second_byte hsecond, hstart,
    List.append_assoc]
  change frame.take 2 ++ ((frame.drop 2).take 2 ++ ((frame.drop 4).take 4 ++
    ((frame.drop 8).take 4 ++ frame.drop 12))) = frame
  rw [h8, h4, h2, List.take_append_drop]

/-- **What is accepted is well formed**: the packets of which a header is read are those that it is
stamped on. -/
theorem parseRtp_eq_some_iff (frame : Bytes) (h : RtpHeader) : parseRtp frame = some h ↔ stampHeader frame h = frame := by
  refine ⟨stampHeader_of_parseRtp, fun hs => ?_⟩
  rw [← hs]
  exact parseRtp_stampHeader frame h

end WebrtcMasquerade

namespace MpegtsBroadcast

/-- The part of a counter that a header has room for counts on when the counter does. -/
theorem and_succ (cc : UInt8) : (cc + 1) &&& 0x0f = ((cc &&& 0x0f) + 1) &&& 0x0f := by
  have h : ∀ c : BitVec 8, (c + 1) &&& 0x0f#8 = ((c &&& 0x0f#8) + 1) &&& 0x0f#8 := by decide
  exact UInt8.toBitVec_inj.mp (h cc.toBitVec)

/-- The second byte has the flag and the high bits of the stream. -/
theorem second_byte (pusi : Bool) (b : UInt8) :
    ((pusi.toUInt8 <<< 6) ||| (b &&& 0x1f)) &&& 0x1f = b &&& 0x1f ∧
      decide (((pusi.toUInt8 <<< 6) ||| (b &&& 0x1f)) &&& 0x40 ≠ 0) = pusi := by
  have h : ∀ (c : BitVec 8) (pusi : Bool), ((pusi.toUInt8.toBitVec <<< 6) ||| (c &&& 0x1f#8)) &&& 0x1f#8 = c &&& 0x1f#8 ∧
      decide (((pusi.toUInt8.toBitVec <<< 6) ||| (c &&& 0x1f#8)) &&& 0x40#8 ≠ 0#8) = pusi := by decide
  refine ⟨UInt8.toBitVec_inj.mp (h b.toBitVec pusi).1, ?_⟩
  simp only [ne_eq, ← UInt8.toBitVec_inj]
  exact (h b.toBitVec pusi).2

/-- The fourth byte has the scrambling control and the counter. -/
theorem fourth_byte (b : UInt8) : (0xd0 ||| (b &&& 0x0f)) &&& 0x0f = b &&& 0x0f ∧ (0xd0 ||| (b &&& 0x0f)) >>> 6 = 3 := by
  have h : ∀ c : BitVec 8, (0xd0#8 ||| (c &&& 0x0f#8)) &&& 0x0f#8 = c &&& 0x0f#8 ∧
      (0xd0#8 ||| (c &&& 0x0f#8)) >>> 6 = 3#8 := by decide
  exact ⟨UInt8.toBitVec_inj.mp (h _).1, UInt8.toBitVec_inj.mp (h _).2⟩

/-- The thirteen bits of a stream, from two bytes. -/
theorem pid_of_bytes (pid : UInt16) :
    (((pid >>> 8).toUInt8 &&& 0x1f).toUInt16 <<< 8) ||| (pid &&& 0xff).toUInt8.toUInt16 = pid &&& 0x1fff := by
  have h (p : BitVec 16) : (((p >>> 8).setWidth 8 &&& 0x1f#8).setWidth 16 <<< 8) |||
      ((p &&& 0xff#16).setWidth 8).setWidth 16 = p &&& 0x1fff#16 := by
    ext i hi
    simp only [BitVec.getElem_or, BitVec.getElem_and, BitVec.getElem_shiftLeft, BitVec.getElem_setWidth]
    interval_cases i <;> simp
  exact UInt16.toBitVec_inj.mp (h pid.toBitVec)

/-- A stamped header is read back. -/
theorem parseTs_stamp (f : Bytes) (pusi : Bool) (g : TsMuxer) :
    parseTs (g.stamp f pusi).1 = some ⟨g.pid &&& 0x1fff, g.cc &&& 0x0f, pusi, 3⟩ := by
  have hlen : ¬(g.stamp f pusi).1.length < profile.header := by simp [TsMuxer.stamp, profile]
  have hfirst : (g.stamp f pusi).1.getD 0 0 = tsSync := rfl
  have hsecond : (g.stamp f pusi).1.getD 1 0 = (pusi.toUInt8 <<< 6) ||| ((g.pid >>> 8).toUInt8 &&& 0x1f) := rfl
  have hthird : (g.stamp f pusi).1.getD 2 0 = (g.pid &&& 0xff).toUInt8 := rfl
  have hfourth : (g.stamp f pusi).1.getD 3 0 = 0xd0 ||| (g.cc &&& 0x0f) := rfl
  obtain ⟨hpid, hpusi⟩ := second_byte pusi (g.pid >>> 8).toUInt8
  obtain ⟨hcc, hscrambling⟩ := fourth_byte g.cc
  rw [parseTs, hfirst, hsecond, hthird, hfourth, hpid, hpusi, hcc, hscrambling, pid_of_bytes,
    if_neg (by simp [hlen])]

end MpegtsBroadcast

end Peashape
