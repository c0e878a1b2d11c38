import Peashape.Foundation.Framing
import Peashape.Model.Config

/-!
# The codec

`codec.rs`: frames of one fixed size behind a four-byte length.

The codec wraps `LengthDelimitedCodec`, which belongs to another crate. It is a parameter
here, `LengthDelimited`, and what the code relies on is the structure `Documented`: the
decoder waits for the four bytes of a header, refuses a length above its limit, remembers
the length otherwise and waits for the body; the encoder puts a header in front of an item
that is not too long. `Codec.decodeAll` is the loop of whoever reads the connection, which
calls the decoder until it has to wait or fails, and `Codec.feed` that loop after each
chunk of the stream.
-/

namespace Peashape

open Foundation Framing

/-- The kinds of `io::Error` the codec makes. -/
inductive IoErrorKind where
  /-- `ErrorKind::InvalidData`. -/
  | invalidData
  /-- `ErrorKind::InvalidInput`. -/
  | invalidInput
  deriving DecidableEq

/-- An `io::Error`. -/
structure IoError where
  /-- Its kind. -/
  kind : IoErrorKind
  /-- Its message. -/
  message : String
  deriving DecidableEq

/-- `LengthDelimitedCodec`, with a big-endian length field of four bytes: its states, its
functions and two views of a state. The functions return the new state, and the buffer
they leave. -/
structure LengthDelimited (σ : Type*) where
  /-- The builder, given `max_frame_length`. -/
  new : ℕ → σ
  /-- `Decoder::decode`. -/
  decode : σ → Bytes → Except IoError (Option Bytes) × σ × Bytes
  /-- `Encoder::encode`. -/
  encode : σ → Bytes → Bytes → Except IoError Unit × σ × Bytes
  /-- `max_frame_length`. -/
  maxFrameLength : σ → ℕ
  /-- The length announced by a header already read, if its body is still to come. -/
  pending : σ → Option ℕ

variable {σ : Type*}

/-- What is documented of `LengthDelimitedCodec`. -/
structure LengthDelimited.Documented (ld : LengthDelimited σ) : Prop where
  /-- A new decoder expects a header. -/
  pending_new : ∀ m, ld.pending (ld.new m) = none
  /-- The limit is what four bytes can express, or less. -/
  maxFrameLength_new : ∀ m, ld.maxFrameLength (ld.new m) = min m (2 ^ 32 - 1)
  /-- Decoding keeps the limit. -/
  maxFrameLength_decode : ∀ l src, ld.maxFrameLength (ld.decode l src).2.1 = ld.maxFrameLength l
  /-- Encoding keeps the limit. -/
  maxFrameLength_encode : ∀ l item dst, ld.maxFrameLength (ld.encode l item dst).2.1 = ld.maxFrameLength l
  /-- Without a whole header the decoder waits. -/
  decode_head : ∀ l src, ld.pending l = none → src.length < 4 →
    ∃ l', ld.decode l src = (.ok none, l', src) ∧ ld.pending l' = none
  /-- A length above the limit is refused. -/
  decode_large : ∀ l head src, ld.pending l = none → head.length = 4 → ld.maxFrameLength l < beValue head →
    ∃ e l' src', ld.decode l (head ++ src) = (.error e, l', src')
  /-- With a header but not its body, the header is taken from the buffer and remembered. -/
  decode_pend : ∀ l head src, ld.pending l = none → head.length = 4 → beValue head ≤ ld.maxFrameLength l →
    src.length < beValue head →
    ∃ l', ld.decode l (head ++ src) = (.ok none, l', src) ∧ ld.pending l' = some (beValue head)
  /-- With a header and its body, the body is yielded. -/
  decode_whole : ∀ l head body src, ld.pending l = none → head.length = 4 →
    beValue head ≤ ld.maxFrameLength l → body.length = beValue head →
    ∃ l', ld.decode l (head ++ body ++ src) = (.ok (some body), l', src) ∧ ld.pending l' = none
  /-- With a header remembered, the decoder waits for the body. -/
  decode_wait : ∀ l n src, ld.pending l = some n → src.length < n →
    ∃ l', ld.decode l src = (.ok none, l', src) ∧ ld.pending l' = some n
  /-- With a header remembered and its body there, the body is yielded. -/
  decode_body : ∀ l body src, ld.pending l = some body.length →
    ∃ l', ld.decode l (body ++ src) = (.ok (some body), l', src) ∧ ld.pending l' = none
  /-- An item that is not too long is put behind its length. -/
  encode_ok : ∀ l item dst, item.length ≤ min (ld.maxFrameLength l) (2 ^ 32 - 1) →
    ∃ l', ld.encode l item dst = (.ok (), l', dst ++ beBytes item.length ++ item)

/-- What else is documented of its encoder. -/
structure LengthDelimited.RefusesLong (ld : LengthDelimited σ) : Prop where
  /-- An item above the limit is refused. -/
  encode_long : ∀ l item dst, ld.maxFrameLength l < item.length → ∃ e, (ld.encode l item dst).1 = .error e

/-- A `Codec`. -/
structure Codec (σ : Type*) where
  /-- The wrapped codec. -/
  inner : σ
  /-- The payload size it expects. -/
  frameSize : ℕ

namespace Codec

variable (ld : LengthDelimited σ)

/-- `Codec::new`, with its assertion as a hypothesis. -/
def new (frameSize maxFrameSize : ℕ) (_h : 0 < frameSize) : Codec σ where
  inner := ld.new maxFrameSize
  frameSize := frameSize

/-- The text of the two errors about a size. -/
def sizeMessage (got want : ℕ) : String := s!"unexpected frame size: got {got}, want {want}"

/-- `decode`. -/
def decode (c : Codec σ) (src : Bytes) : Except IoError (Option Bytes) × Codec σ × Bytes :=
  match ld.decode c.inner src with
  | (.error e, inner, src) => (.error e, { c with inner := inner }, src)
  | (.ok (some buf), inner, src) =>
    if buf.length ≠ c.frameSize then
      (.error ⟨.invalidData, sizeMessage buf.length c.frameSize⟩, { c with inner := inner }, src)
    else (.ok (some buf), { c with inner := inner }, src)
  | (.ok none, inner, src) => (.ok none, { c with inner := inner }, src)

/-- `encode`. -/
def encode (c : Codec σ) (item dst : Bytes) : Except IoError Unit × Codec σ × Bytes :=
  if item.length ≠ c.frameSize then
    (.error ⟨.invalidInput, sizeMessage item.length c.frameSize⟩, c, dst)
  else
    let (result, inner, dst) := ld.encode c.inner item dst
    (result, { c with inner := inner }, dst)

/-- Encode items one after another into one buffer, stopping at an error. -/
def encodeAll : Codec σ → List Bytes → Bytes → Except IoError Unit × Codec σ × Bytes
  | c, [], dst => (.ok (), c, dst)
  | c, item :: items, dst =>
    match encode ld c item dst with
    | (.ok (), c, dst) => encodeAll c items dst
    | (.error e, c, dst) => (.error e, c, dst)

/-- Encode items one after another into one buffer, going on after an error: the results,
the codec and the buffer. -/
def encodeEach : Codec σ → List Bytes → Bytes → List (Except IoError Unit) × Codec σ × Bytes
  | c, [], dst => ([], c, dst)
  | c, item :: items, dst =>
    let (result, c, dst) := encode ld c item dst
    let (results, c, dst) := encodeEach c items dst
    (result :: results, c, dst)

/-- Where a reader is after decoding all it can. -/
inductive Reading (σ : Type*) where
  /-- The decoder waits for more, with these bytes left in the buffer. -/
  | waiting (codec : Codec σ) (buffer : Bytes)
  /-- The decoder failed. -/
  | failed (error : IoError)
  /-- More rounds were needed than given. -/
  | outOfRounds

/-- `decode` until it yields `None` or an error, for at most the given number of rounds:
the frames yielded, and where the reader is then. -/
def decodeAll : ℕ → Codec σ → Bytes → List Bytes × Reading σ
  | 0, _, _ => ([], .outOfRounds)
  | n + 1, c, src =>
    match decode ld c src with
    | (.error e, _, _) => ([], .failed e)
    | (.ok none, c, src) => ([], .waiting c src)
    | (.ok (some item), c, src) =>
      let (items, reading) := decodeAll n c src
      (item :: items, reading)

/-- Append each chunk to the buffer and decode all that is there. Every yielded frame takes
at least one byte from the buffer, so the rounds given are enough. -/
def feed : Codec σ → Bytes → List Bytes → List Bytes × Reading σ
  | c, src, [] => ([], .waiting c src)
  | c, src, chunk :: chunks =>
    match decodeAll ld ((src ++ chunk).length + 1) c (src ++ chunk) with
    | (items, .waiting c src) =>
      let (items', reading) := feed c src chunks
      (items ++ items', reading)
    | (items, reading) => (items, reading)

end Codec

/-- `Node::codec`, the same for `Reading` and for `Writing`. -/
def NodeConfig.codec (cfg : NodeConfig) (ld : LengthDelimited σ) : Codec σ :=
  .new ld cfg.frameSize cfg.maxFrameSize cfg.frameSize_pos

end Peashape
