import Peashape.Wire.Stream

/-!
# The round trip of a stream

A writer encodes items of any lengths into one buffer, and a reader with a codec of the
same parameters gets that buffer in chunks of any sizes. An item of the wrong length is an
error and leaves no byte behind (`encode_of_wrong`), so that the buffer is the row of frames
of the items of the right length (`encodeEach_snd`), and the reader yields just these, with
nothing left over (`feed_frames`). See `encodeEach_feed`.
-/

namespace Peashape.Codec

open Foundation Framing

variable {σ : Type*} {ld : LengthDelimited σ} {n max : ℕ}

/-! ### Encoding with failures -/

/-- An item of the wrong length is refused; neither the codec nor the buffer changes. -/
theorem encode_of_wrong {c : Codec σ} {item : Bytes} (h : item.length ≠ c.frameSize) (dst : Bytes) :
    encode ld c item dst = (.error ⟨.invalidInput, sizeMessage item.length c.frameSize⟩, c, dst) := by
  simp only [encode, ne_eq, h, not_false_eq_true, if_true]

/-- The items of the right length. -/
def sizedItems (n : ℕ) (items : List Bytes) : List Bytes := items.filter fun item => decide (item.length = n)

/-- **The buffer grows by the row of frames of the items of the right length**, and
the size and the limit of the codec stay. -/
theorem encodeEach_snd (hld : ld.Documented) : ∀ (items : List Bytes) {c : Codec σ} (dst : Bytes),
    c.frameSize ≤ min (ld.maxFrameLength c.inner) (2 ^ 32 - 1) →
      (encodeEach ld c items dst).2.2 = dst ++ frames (sizedItems c.frameSize items) ∧
      (encodeEach ld c items dst).2.1.frameSize = c.frameSize
  | [], c, dst, _ => ⟨(List.append_nil dst).symm, rfl⟩
  | item :: items, c, dst, hlim => by
    by_cases hsize : item.length = c.frameSize
    · obtain ⟨c₁, henc, hn, hl⟩ := encode_eq hld hsize (hsize ▸ hlim) dst
      obtain ⟨hbuf, hframe⟩ := encodeEach_snd hld items (dst ++ frame item) (by rw [hn, hl]; exact hlim)
      have hcons : sizedItems c.frameSize (item :: items) = item :: sizedItems c.frameSize items :=
        List.filter_cons_of_pos (decide_eq_true hsize)
      simp only [encodeEach, henc, hbuf, hframe, hn, hcons, frames_cons, List.append_assoc, and_self]
    · obtain ⟨hbuf, hframe⟩ := encodeEach_snd hld items dst hlim
      have hcons : sizedItems c.frameSize (item :: items) = sizedItems c.frameSize items :=
        List.filter_cons_of_neg (by simpa using hsize)
      simp only [encodeEach, encode_of_wrong hsize, hbuf, hframe, hcons, and_self]

/-! ### Reading a row of frames -/

/-- A row of frames of the right size is read whole. -/
theorem Reads.of_frames {items : List Bytes} {out : List Bytes × Reading σ} (hle : n ≤ max) (hmax : max < 2 ^ 32)
    (hitems : ∀ y ∈ items, y.length = n) (h : Reads ld n max (frames items) out) :
    ∃ c, out = (items, .waiting c []) ∧ ld.pending c.inner = none := by
  obtain ⟨yielded, reading⟩ := out
  obtain ⟨rest, hrest, hall, hat⟩ := h
  change frames items = frames yielded ++ rest at hrest
  -- no frame is left in the rest, and none was yielded that is not in the row
  have hstuck : ∀ y : Bytes, y.length = n → ¬ frame y <+: rest := by
    cases reading with
    | waiting c src => exact Waits.stuck hat.2.2 (by omega)
    | failed e => exact Malformed.stuck hat hle hmax
    | outOfRounds => exact hat.elim
  obtain ⟨rfl, rfl⟩ : yielded = items ∧ rest = [] := by
    rw [← List.append_nil (frames items)] at hrest
    rcases frames_append_cancel hitems hall hrest with ⟨zs, rfl, hnil⟩ | ⟨zs, rfl, hzs⟩
    · obtain ⟨hz, rfl⟩ := List.append_eq_nil_iff.mp hnil.symm
      cases zs with
      | nil => exact ⟨List.append_nil items, rfl⟩
      | cons z zs => cases hz
    · cases zs with
      | nil => exact ⟨(List.append_nil yielded).symm, hzs⟩
      | cons z zs =>
        refine absurd ?_ (hstuck z (hitems z (by simp)))
        rw [hzs, frames_cons, List.append_assoc]
        exact List.prefix_append _ _
  cases reading with
  | waiting c src =>
    obtain ⟨-, hunread, -⟩ := hat
    cases hp : ld.pending c.inner with
    | none =>
      rw [unread_of_none hp] at hunread
      subst hunread
      exact ⟨c, rfl, hp⟩
    | some k =>
      rw [unread_of_some hp] at hunread
      cases hunread
  | failed e => exact absurd hat.1 (by decide)
  | outOfRounds => exact hat.elim

/-- **A reader yields a row of frames of the right size, however it is cut**, and then waits
with nothing in its buffer and no header remembered. -/
theorem feed_frames (hld : ld.Documented) (hn : 0 < n) (hle : n ≤ max) (hlt : n < 2 ^ 32) {items chunks : List Bytes}
    (hitems : ∀ y ∈ items, y.length = n) (h : chunks.flatten = frames items) :
    ∃ c, feed ld (.new ld n max hn) [] chunks = (items, .waiting c []) ∧ ld.pending c.inner = none := by
  have hfits : Fits ld n (min max (2 ^ 32 - 1)) (.new ld n max hn) := fits_new_min hld hn
  have hnil : unread ld (.new ld n max hn) [] = [] := unread_of_none (hld.pending_new max) []
  have hwaits : Waits (min max (2 ^ 32 - 1)) (unread ld (.new ld n max hn) []) := by
    rw [hnil]
    exact .inl (Nat.zero_lt_succ 3)
  have hreads := feed_reads hld hn (by omega) chunks hfits hwaits
  rw [hnil, List.nil_append, h] at hreads
  exact hreads.of_frames (by omega) (by omega) hitems

/-- **The round trip.** Items of any lengths are encoded one after another into one buffer.
Whatever came before it, an item of the wrong length is an error and leaves the buffer as it
is. A fresh codec of the same node, given the buffer in any chunks, yields the items of the
right length, in order, without an error; it then waits with nothing in its buffer and no
header remembered. -/
theorem encodeEach_feed (hld : ld.Documented) (cfg : NodeConfig) (hlt : cfg.frameSize < 2 ^ 32) (items : List Bytes) :
    (∀ before item after, items = before ++ item :: after → item.length ≠ cfg.frameSize →
      let (_, c, dst) := encodeEach ld (cfg.codec ld) before []
      encode ld c item dst = (.error ⟨.invalidInput, sizeMessage item.length cfg.frameSize⟩, c, dst)) ∧
    ∀ chunks : List Bytes, chunks.flatten = (encodeEach ld (cfg.codec ld) items []).2.2 →
      ∃ c, feed ld (cfg.codec ld) [] chunks =
          (items.filter fun item => decide (item.length = cfg.frameSize), .waiting c []) ∧
        ld.pending c.inner = none := by
  have hlim : (cfg.codec ld).frameSize ≤ min (ld.maxFrameLength (cfg.codec ld).inner) (2 ^ 32 - 1) := by
    have hfits : Fits ld cfg.frameSize (min cfg.maxFrameSize (2 ^ 32 - 1)) (cfg.codec ld) :=
      fits_new_min hld cfg.frameSize_pos
    have hle := cfg.frameSize_le
    rw [hfits.limit]
    show cfg.frameSize ≤ _
    omega
  constructor
  · intro before item after _ hsize
    obtain ⟨-, hframe⟩ := encodeEach_snd hld before [] hlim
    have hwrong : item.length ≠ (encodeEach ld (cfg.codec ld) before []).2.1.frameSize := by rwa [hframe]
    show encode ld _ item _ = _
    rw [encode_of_wrong hwrong, hframe]
    rfl
  · intro chunks h
    have hsized : ∀ y ∈ sizedItems cfg.frameSize items, y.length = cfg.frameSize := fun y hy =>
      of_decide_eq_true (List.mem_filter.mp hy).2
    rw [(encodeEach_snd hld items [] hlim).1, List.nil_append] at h
    exact feed_frames hld cfg.frameSize_pos cfg.frameSize_le hlt hsized h

/-- Two items of `32` bytes with a short one between them, read byte by byte. -/
theorem encodeEach_feed_two :
    let cfg : NodeConfig := { frameSize := 32, accepted := by decide }
    let items : List Bytes := [List.replicate 32 7, [1, 2, 3], List.replicate 32 8]
    ∃ c, feed plain (cfg.codec plain) [] ((encodeEach plain (cfg.codec plain) items []).2.2.map fun b => [b]) =
        ([List.replicate 32 7, List.replicate 32 8], .waiting c []) ∧ plain.pending c.inner = none := by
  intro cfg items
  have hbytes : ∀ dst : Bytes, (dst.map fun b => [b]).flatten = dst := List.flatMap_singleton'
  exact (encodeEach_feed plain_documented cfg (by decide) items).2 _ (hbytes _)

end Peashape.Codec
