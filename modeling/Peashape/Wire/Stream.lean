import Peashape.Model.Codec
import Peashape.Model.Shaper

/-!
# What the codec reads and writes

A reader that gets a stream in chunks, of any sizes, yields the bodies of the longest row
of frames of the configured size at its front, however it is cut (`feed_reads`). The
invariant is `unread`: the bytes the reader has not yielded yet, which are those in its
buffer behind the header it remembers, if it does. One call of the decoder either leaves
`unread` as it is, because there is no whole frame in it, or takes one frame off its
front, or finds it malformed (`decode_cases`).

A writer that encodes bodies of the configured size writes that row (`encodeAll_eq`).
-/

namespace Peashape.Codec

open Foundation Framing

variable {σ : Type*} {ld : LengthDelimited σ} {n max : ℕ}

/-- The bytes received and not yielded: those in the buffer, behind the header the
decoder remembers. -/
def unread (ld : LengthDelimited σ) (c : Codec σ) (src : Bytes) : Bytes :=
  match ld.pending c.inner with
  | none => src
  | some k => beBytes k ++ src

theorem unread_append (c : Codec σ) (src more : Bytes) :
    unread ld c (src ++ more) = unread ld c src ++ more := by
  unfold unread
  split
  · rfl
  · exact (List.append_assoc _ _ _).symm

theorem unread_of_none {c : Codec σ} (h : ld.pending c.inner = none) (src : Bytes) :
    unread ld c src = src := by
  rw [unread, h]

theorem unread_of_some {c : Codec σ} {k : ℕ} (h : ld.pending c.inner = some k) (src : Bytes) :
    unread ld c src = beBytes k ++ src := by
  rw [unread, h]

/-- The decoder expects frames of size `n`, accepts lengths up to `max`, and remembers
only such. -/
structure Fits (ld : LengthDelimited σ) (n max : ℕ) (c : Codec σ) : Prop where
  /-- The size. -/
  frameSize : c.frameSize = n
  /-- The limit. -/
  limit : ld.maxFrameLength c.inner = max
  /-- The header it remembers. -/
  pending : ∀ k, ld.pending c.inner = some k → k ≤ max

/-- Not enough bytes to tell a frame: no whole header, or not the whole body. -/
def Waits (max : ℕ) (rest : Bytes) : Prop :=
  rest.length < 4 ∨ beValue (rest.take 4) ≤ max ∧ rest.length < 4 + beValue (rest.take 4)

/-- A stream that is too short to tell is not malformed. -/
theorem Waits.not_malformed {rest : Bytes} (h : Waits max rest) : ¬ Malformed n max rest := by
  rintro ⟨h4, hbad⟩
  rcases h with h | ⟨hle, hlt⟩
  · omega
  · rcases hbad with hbad | ⟨-, hbad⟩ <;> omega

/-- A stream that is too short to tell does not begin with a frame. -/
theorem Waits.stuck {rest : Bytes} (h : Waits max rest) (hn : n < 2 ^ 32) :
    ∀ y : Bytes, y.length = n → ¬ frame y <+: rest := by
  rintro y hy ⟨t, rfl⟩
  have htake : (frame y ++ t).take 4 = beBytes n := by
    rw [frame, hy, List.append_assoc, List.take_left' (length_beBytes n)]
  have hlen : (frame y ++ t).length = 4 + n + t.length := by rw [List.length_append, length_frame, hy]
  rw [Waits, htake, beValue_beBytes hn, hlen] at h
  rcases h with h | ⟨-, h⟩ <;> omega

/-- A header in front of a stream. -/
theorem take_head {head src : Bytes} (h : head.length = 4) : (head ++ src).take 4 = head :=
  List.take_left' h

/-- **Everything one call of the decoder can do**: wait for more, take one frame off the
front of what is unread, or find that malformed. -/
inductive Decoded (ld : LengthDelimited σ) (n max : ℕ) (c : Codec σ) (src : Bytes) :
    Except IoError (Option Bytes) × Codec σ × Bytes → Prop
  /-- Nothing unread is lost. -/
  | wait {c' : Codec σ} {src' : Bytes} (fits : Fits ld n max c') (same : unread ld c' src' = unread ld c src)
      (waits : Waits max (unread ld c src)) : Decoded ld n max c src (.ok none, c', src')
  /-- The frame takes at least its body from the buffer. -/
  | item {y : Bytes} {c' : Codec σ} {src' : Bytes} (fits : Fits ld n max c') (sized : y.length = n)
      (split : unread ld c src = frame y ++ unread ld c' src') (taken : src'.length + n ≤ src.length) :
      Decoded ld n max c src (.ok (some y), c', src')
  /-- An error. -/
  | fail {e : IoError} {c' : Codec σ} {src' : Bytes} (bad : Malformed n max (unread ld c src)) :
      Decoded ld n max c src (.error e, c', src')

/-- A body that has arrived is yielded, or refused for its size. -/
theorem Decoded.of_body {c : Codec σ} (hc : Fits ld n max c) {head body src src' : Bytes} {l' : σ}
    (hh : head.length = 4) (hb : body.length = beValue head) (hu : unread ld c src = head ++ body ++ src')
    (hlen : src'.length + body.length ≤ src.length)
    (hdec : ld.decode c.inner src = (.ok (some body), l', src')) (hp : ld.pending l' = none)
    (hlim : ld.maxFrameLength l' = max) : Decoded ld n max c src (decode ld c src) := by
  by_cases hsize : body.length = n
  · have hout : decode ld c src = (.ok (some body), { c with inner := l' }, src') := by
      simp only [decode, hdec, hc.frameSize, hsize, ne_eq, not_true_eq_false, if_false]
    have hfits : Fits ld n max { c with inner := l' } := ⟨hc.frameSize, hlim, by simp [hp]⟩
    rw [hout]
    refine .item hfits hsize ?_ (hsize ▸ hlen)
    rw [hu, unread_of_none hp, frame, hb, beBytes_beValue hh]
  · have hout : decode ld c src =
        (.error ⟨.invalidData, sizeMessage body.length n⟩, { c with inner := l' }, src') := by
      simp only [decode, hdec, hc.frameSize, ne_eq, hsize, not_false_eq_true, if_true]
    rw [hout]
    refine .fail ?_
    rw [hu, List.append_assoc, Malformed, take_head hh]
    simp only [List.length_append, hh, ← hb]
    exact ⟨by omega, .inr ⟨hsize, by omega⟩⟩

/-- A call with a header remembered. -/
theorem decoded_some (hld : ld.Documented) (hmax : max < 2 ^ 32) {c : Codec σ} (hc : Fits ld n max c)
    {k : ℕ} (hp : ld.pending c.inner = some k) (src : Bytes) : Decoded ld n max c src (decode ld c src) := by
  have hk : k ≤ max := hc.pending k hp
  have hval : beValue (beBytes k) = k := beValue_beBytes (by omega)
  have hu := unread_of_some hp src
  have hkeep := hld.maxFrameLength_decode c.inner src
  by_cases hlen : src.length < k
  · obtain ⟨l', hdec, hp'⟩ := hld.decode_wait c.inner k src hp hlen
    rw [hdec, hc.limit] at hkeep
    have hout : decode ld c src = (.ok none, { c with inner := l' }, src) := by simp only [decode, hdec]
    have hfits : Fits ld n max { c with inner := l' } :=
      ⟨hc.frameSize, hkeep, fun j hj => hc.pending j (by rw [hp, ← hj, hp'])⟩
    rw [hout]
    refine .wait hfits ?_ (.inr ?_)
    · rw [hu, unread_of_some hp']
    · rw [hu, take_head (length_beBytes k), hval, List.length_append, length_beBytes]
      omega
  · obtain ⟨body, src', hb, rfl⟩ : ∃ body src', body.length = k ∧ src = body ++ src' :=
      ⟨src.take k, src.drop k, by rw [List.length_take]; omega, (List.take_append_drop k src).symm⟩
    obtain ⟨l', hdec, hp'⟩ := hld.decode_body c.inner body src' (by rw [hp, hb])
    rw [hdec, hc.limit] at hkeep
    refine .of_body hc (length_beBytes k) (by rw [hval, hb]) ?_ ?_ hdec hp' hkeep
    · rw [hu, List.append_assoc]
    · rw [List.length_append]
      omega

/-- A call that expects a header. -/
theorem decoded_none (hld : ld.Documented) {c : Codec σ} (hc : Fits ld n max c)
    (hp : ld.pending c.inner = none) (src : Bytes) : Decoded ld n max c src (decode ld c src) := by
  have hu := unread_of_none hp src
  have hkeep := hld.maxFrameLength_decode c.inner src
  by_cases hlen : src.length < 4
  · obtain ⟨l', hdec, hp'⟩ := hld.decode_head c.inner src hp hlen
    rw [hdec, hc.limit] at hkeep
    have hout : decode ld c src = (.ok none, { c with inner := l' }, src) := by simp only [decode, hdec]
    rw [hout]
    refine .wait ⟨hc.frameSize, hkeep, by simp [hp']⟩ ?_ (.inl ?_)
    · rw [hu, unread_of_none hp']
    · rw [hu]
      exact hlen
  obtain ⟨head, rest, hh, rfl⟩ : ∃ head rest, head.length = 4 ∧ src = head ++ rest :=
    ⟨src.take 4, src.drop 4, by rw [List.length_take]; omega, (List.take_append_drop 4 src).symm⟩
  by_cases hlarge : max < beValue head
  · obtain ⟨e, l', src', hdec⟩ := hld.decode_large c.inner head rest hp hh (by rw [hc.limit]; exact hlarge)
    have hout : decode ld c (head ++ rest) = (.error e, { c with inner := l' }, src') := by
      simp only [decode, hdec]
    rw [hout]
    refine .fail ?_
    rw [hu, Malformed, take_head hh]
    exact ⟨by omega, .inl hlarge⟩
  have hle : beValue head ≤ ld.maxFrameLength c.inner := by rw [hc.limit]; omega
  by_cases hshort : rest.length < beValue head
  · obtain ⟨l', hdec, hp'⟩ := hld.decode_pend c.inner head rest hp hh hle hshort
    rw [hdec, hc.limit] at hkeep
    have hout : decode ld c (head ++ rest) = (.ok none, { c with inner := l' }, rest) := by
      simp only [decode, hdec]
    have hfits : Fits ld n max { c with inner := l' } := by
      refine ⟨hc.frameSize, hkeep, fun j hj => ?_⟩
      rw [hp', Option.some.injEq] at hj
      omega
    rw [hout]
    refine .wait hfits ?_ (.inr ?_)
    · rw [hu, unread_of_some hp', beBytes_beValue hh]
    · rw [hu, take_head hh, List.length_append]
      omega
  · obtain ⟨body, src', hb, rfl⟩ : ∃ body src', body.length = beValue head ∧ rest = body ++ src' :=
      ⟨rest.take (beValue head), rest.drop (beValue head), by rw [List.length_take]; omega,
        (List.take_append_drop _ rest).symm⟩
    obtain ⟨l', hdec, hp'⟩ := hld.decode_whole c.inner head body src' hp hh hle hb
    rw [List.append_assoc] at hdec
    rw [hdec, hc.limit] at hkeep
    refine .of_body hc hh hb ?_ ?_ hdec hp' hkeep
    · rw [hu, List.append_assoc]
    · simp only [List.length_append]
      omega

theorem decoded (hld : ld.Documented) (hmax : max < 2 ^ 32) {c : Codec σ} (hc : Fits ld n max c)
    (src : Bytes) : Decoded ld n max c src (decode ld c src) := by
  cases hp : ld.pending c.inner with
  | none => exact decoded_none hld hc hp src
  | some k => exact decoded_some hld hmax hc hp src

/-! ### The reader's loop -/

/-- Where a reader is when `rest` is what follows the frames it yielded: waiting, with
nothing of it lost and no whole frame in it, or failed on it. -/
def Reading.At (ld : LengthDelimited σ) (n max : ℕ) (rest : Bytes) : Reading σ → Prop
  | .waiting c src => Fits ld n max c ∧ unread ld c src = rest ∧ Waits max rest
  | .failed _ => Malformed n max rest
  | .outOfRounds => False

/-- What a reader has done with a stream: the frames yielded are at its front, all of the
right size, and the rest is where the reader is. -/
def Reads (ld : LengthDelimited σ) (n max : ℕ) (stream : Bytes) (out : List Bytes × Reading σ) : Prop :=
  ∃ rest, stream = frames out.1 ++ rest ∧ (∀ y ∈ out.1, y.length = n) ∧ out.2.At ld n max rest

theorem decodeAll_reads (hld : ld.Documented) (hn : 0 < n) (hmax : max < 2 ^ 32) :
    ∀ (rounds : ℕ) {c : Codec σ} {src : Bytes}, Fits ld n max c → src.length < rounds →
      Reads ld n max (unread ld c src) (decodeAll ld rounds c src)
  | 0, _, _, _, h => absurd h (Nat.not_lt_zero _)
  | rounds + 1, c, src, hc, h => by
    have hd := decoded hld hmax hc src
    unfold decodeAll
    split <;> rename_i heq <;> rw [heq] at hd
    · cases hd with
      | fail bad => exact ⟨_, rfl, by simp, bad⟩
    · cases hd with
      | wait fits same waits => exact ⟨_, rfl, by simp, fits, same, waits⟩
    · rename_i item c' src'
      cases hd with
      | item fits sized split taken =>
        have hrounds : src'.length < rounds := by omega
        obtain ⟨rest, hrest, hall, hat⟩ := decodeAll_reads hld hn hmax rounds fits hrounds
        refine ⟨rest, ?_, ?_, hat⟩
        · rw [split, hrest, frames_cons, List.append_assoc]
        · rintro y hy
          rcases List.mem_cons.mp hy with rfl | hy
          · exact sized
          · exact hall y hy

theorem feed_reads (hld : ld.Documented) (hn : 0 < n) (hmax : max < 2 ^ 32) :
    ∀ (chunks : List Bytes) {c : Codec σ} {src : Bytes}, Fits ld n max c → Waits max (unread ld c src) →
      Reads ld n max (unread ld c src ++ chunks.flatten) (feed ld c src chunks)
  | [], c, src, hc, hw => ⟨_, by simp [feed], by simp [feed], hc, rfl, hw⟩
  | chunk :: chunks, c, src, hc, hw => by
    have hd := decodeAll_reads hld hn hmax ((src ++ chunk).length + 1) hc (Nat.lt_succ_self (src ++ chunk).length)
    rw [unread_append] at hd
    obtain ⟨rest, hrest, hall, hat⟩ := hd
    rw [List.flatten_cons, ← List.append_assoc, hrest]
    unfold feed
    split
    · rename_i items c' src' heq
      rw [heq] at hall hat ⊢
      obtain ⟨hc', hrest', hw'⟩ := hat
      obtain ⟨rest', hr, hall', hat'⟩ := feed_reads hld hn hmax chunks hc' (hrest' ▸ hw')
      rw [hrest'] at hr
      refine ⟨rest', ?_, ?_, hat'⟩
      · rw [frames_append, List.append_assoc, hr, List.append_assoc]
      · rintro y hy
        rcases List.mem_append.mp hy with hy | hy
        · exact hall y hy
        · exact hall' y hy
    · rename_i items reading hne heq
      rw [heq] at hall hat ⊢
      refine ⟨rest ++ chunks.flatten, by rw [List.append_assoc], hall, ?_⟩
      cases reading with
      | waiting c' src' => exact absurd rfl (hne c' src')
      | failed e => exact Malformed.append hat _
      | outOfRounds => exact hat

/-! ### Encoding -/

/-- A body of the right size is put behind its length. -/
theorem encode_eq (hld : ld.Documented) {c : Codec σ} {item : Bytes} (hsize : item.length = c.frameSize)
    (hlim : item.length ≤ min (ld.maxFrameLength c.inner) (2 ^ 32 - 1)) (dst : Bytes) :
    ∃ c', encode ld c item dst = (.ok (), c', dst ++ frame item) ∧ c'.frameSize = c.frameSize ∧
      ld.maxFrameLength c'.inner = ld.maxFrameLength c.inner := by
  obtain ⟨l', henc⟩ := hld.encode_ok c.inner item dst hlim
  have hkeep := hld.maxFrameLength_encode c.inner item dst
  rw [henc] at hkeep
  refine ⟨{ c with inner := l' }, ?_, rfl, hkeep⟩
  simp only [encode, hsize, ne_eq, not_true_eq_false, if_false, henc, frame, List.append_assoc]

/-- **Bodies of the right size are written as a row of frames.** -/
theorem encodeAll_eq (hld : ld.Documented) : ∀ (items : List Bytes) {c : Codec σ} (dst : Bytes),
    (∀ y ∈ items, y.length = c.frameSize) → c.frameSize ≤ min (ld.maxFrameLength c.inner) (2 ^ 32 - 1) →
      ∃ c', encodeAll ld c items dst = (.ok (), c', dst ++ frames items)
  | [], c, dst, _, _ => ⟨c, by rw [encodeAll, frames_nil, List.append_nil]⟩
  | item :: items, c, dst, hsize, hlim => by
    have hitem : item.length = c.frameSize := hsize item (List.mem_cons_self ..)
    obtain ⟨c₁, henc, hn, hl⟩ := encode_eq hld hitem (hitem ▸ hlim) dst
    have hitems : ∀ y ∈ items, y.length = c₁.frameSize := fun y hy => by
      rw [hn, hsize y (List.mem_cons_of_mem _ hy)]
    obtain ⟨c', hall⟩ := encodeAll_eq hld items (dst ++ frame item) hitems (by rw [hn, hl]; exact hlim)
    refine ⟨c', ?_⟩
    simp only [encodeAll, henc, hall, frames_cons, List.append_assoc]

/-- The codecs a writer of the connection can come to hold: a new one, and any it has
encoded with. -/
inductive Written (ld : LengthDelimited σ) (n max : ℕ) : Codec σ → Prop
  /-- `Codec::new`. -/
  | new (hn : 0 < n) : Written ld n max (.new ld n max hn)
  /-- After a call of `encode`. -/
  | encode {c : Codec σ} (h : Written ld n max c) (item dst : Bytes) :
      Written ld n max (encode ld c item dst).2.1

/-- A writer's codec keeps its size and its limit. -/
theorem Written.fits (hld : ld.Documented) {c : Codec σ} (h : Written ld n max c) :
    c.frameSize = n ∧ ld.maxFrameLength c.inner = min max (2 ^ 32 - 1) := by
  induction h with
  | new hn => exact ⟨rfl, hld.maxFrameLength_new max⟩
  | @encode c h item dst ih =>
    unfold Codec.encode
    split_ifs with hsize
    · exact ih
    · exact ⟨ih.1, by rw [← ih.2]; exact hld.maxFrameLength_encode c.inner item dst⟩

/-- **A writer encodes any body of the right size without an error.** -/
theorem Written.encode_eq (hld : ld.Documented) {c : Codec σ} (h : Written ld n max c) (hle : n ≤ max)
    (hlt : n < 2 ^ 32) {item : Bytes} (hsize : item.length = n) (dst : Bytes) :
    ∃ c', Codec.encode ld c item dst = (.ok (), c', dst ++ frame item) := by
  obtain ⟨hn, hlim⟩ := h.fits hld
  have hitem : item.length = c.frameSize := by rw [hn, hsize]
  obtain ⟨c', henc, -⟩ := Codec.encode_eq hld hitem (by rw [hlim, hsize]; omega) dst
  exact ⟨c', henc⟩

/-! ### The whole stream -/

/-- A new codec's limit is the one it was given, or what four bytes can express. -/
theorem fits_new_min (hld : ld.Documented) (hn : 0 < n) : Fits ld n (min max (2 ^ 32 - 1)) (.new ld n max hn) where
  frameSize := rfl
  limit := hld.maxFrameLength_new max
  pending k hk := by
    rw [new, hld.pending_new] at hk
    cases hk

theorem fits_new (hld : ld.Documented) (hn : 0 < n) (hmax : max < 2 ^ 32) :
    Fits ld n max (.new ld n max hn) := by
  have hfits : Fits ld n (min max (2 ^ 32 - 1)) (.new ld n max hn) := fits_new_min hld hn
  rwa [Nat.min_eq_left (show max ≤ 2 ^ 32 - 1 by omega)] at hfits

/-- A `LengthDelimitedCodec` as documented: its limit, and the length it remembers. -/
def plain : LengthDelimited (ℕ × Option ℕ) where
  new m := (min m (2 ^ 32 - 1), none)
  decode
    | (limit, none), src =>
      if src.length < 4 then (.ok none, (limit, none), src)
      else
        let n := beValue (src.take 4)
        if limit < n then (.error ⟨.invalidData, "frame size too big"⟩, (limit, none), src)
        else if (src.drop 4).length < n then (.ok none, (limit, some n), src.drop 4)
        else (.ok (some ((src.drop 4).take n)), (limit, none), (src.drop 4).drop n)
    | (limit, some n), src =>
      if src.length < n then (.ok none, (limit, some n), src)
      else (.ok (some (src.take n)), (limit, none), src.drop n)
  encode l item dst :=
    if l.1 < item.length then (.error ⟨.invalidInput, "frame size too big"⟩, l, dst)
    else (.ok (), l, dst ++ beBytes item.length ++ item)
  maxFrameLength l := l.1
  pending l := l.2

/-- It is what the documentation says. -/
theorem plain_documented : plain.Documented where
  pending_new _ := rfl
  maxFrameLength_new _ := rfl
  maxFrameLength_decode := by
    rintro ⟨limit, _ | n⟩ src <;> simp only [plain] <;> split_ifs <;> rfl
  maxFrameLength_encode l item dst := by
    simp only [plain]
    split_ifs <;> rfl
  decode_head := by
    rintro ⟨limit, _⟩ src rfl h
    exact ⟨(limit, none), by simp only [plain, if_pos h], rfl⟩
  decode_large := by
    rintro ⟨limit, _⟩ head src rfl hh hlarge
    have h4 : ¬ (head ++ src).length < 4 := by rw [List.length_append]; omega
    have hl : limit < beValue head := hlarge
    refine ⟨⟨.invalidData, "frame size too big"⟩, (limit, none), head ++ src, ?_⟩
    simp only [plain, if_neg h4, take_head hh, if_pos hl]
  decode_pend := by
    rintro ⟨limit, _⟩ head src rfl hh hle hshort
    have h4 : ¬ (head ++ src).length < 4 := by rw [List.length_append]; omega
    have hl : ¬ limit < beValue head := Nat.not_lt.mpr hle
    refine ⟨(limit, some (beValue head)), ?_, rfl⟩
    simp only [plain, if_neg h4, take_head hh, if_neg hl, List.drop_left' hh, if_pos hshort]
  decode_whole := by
    rintro ⟨limit, _⟩ head body src rfl hh hle hb
    have h4 : ¬ (head ++ (body ++ src)).length < 4 := by rw [List.length_append]; omega
    have hl : ¬ limit < beValue head := Nat.not_lt.mpr hle
    have hs : ¬ (body ++ src).length < beValue head := by rw [List.length_append]; omega
    refine ⟨(limit, none), ?_, rfl⟩
    rw [List.append_assoc]
    simp only [plain, if_neg h4, take_head hh, if_neg hl, List.drop_left' hh, if_neg hs, List.take_left' hb,
      List.drop_left' hb]
  decode_wait := by
    rintro ⟨limit, _⟩ n src rfl h
    exact ⟨(limit, some n), by simp only [plain, if_pos h], rfl⟩
  decode_body := by
    rintro ⟨limit, _⟩ body src rfl
    have hs : ¬ (body ++ src).length < body.length := by rw [List.length_append]; omega
    refine ⟨(limit, none), ?_, rfl⟩
    simp only [plain, if_neg hs, List.take_left, List.drop_left]
  encode_ok l item dst h := by
    have hl : ¬ l.1 < item.length := Nat.not_lt.mpr (h.trans (min_le_left _ _))
    exact ⟨l, by simp only [plain, if_neg hl]⟩

theorem plain_refusesLong : plain.RefusesLong where
  encode_long l item dst h := by
    have hl : l.1 < item.length := h
    exact ⟨⟨.invalidInput, "frame size too big"⟩, by simp only [plain, if_pos hl]⟩

/-- **The decoder accepts its grammar, however the stream is cut.** The frames yielded are
the bodies of the longest row of frames of the configured size at the front of the stream.
They pass the filter of `handle_incoming`, and encoding them gives that row back. The
decoder fails exactly if what follows the row is malformed; otherwise it waits, and what
follows is the header it remembers and the bytes in its buffer. -/
theorem feed_grammar (hld : ld.Documented) (hn : 0 < n) (hle : n ≤ max) (hmax : max < 2 ^ 32)
    (chunks : List Bytes) :
    let out := feed ld (.new ld n max hn) [] chunks
    ∃ rest, chunks.flatten = frames out.1 ++ rest ∧ IsLongest n out.1 chunks.flatten ∧
      (∀ cfg : ShaperConfig, cfg.frameSize = n → ∀ y ∈ out.1, Shaper.handleIncoming cfg y = some y) ∧
      (∃ c', encodeAll ld (.new ld n max hn) out.1 [] = (.ok (), c', frames out.1)) ∧
      ((∃ e, out.2 = .failed e) ↔ Malformed n max rest) ∧
      (¬ Malformed n max rest → ∃ c src, out.2 = .waiting c src ∧ unread ld c src = rest) := by
  intro out
  have hfits := fits_new hld hn hmax
  have hnil : unread ld (.new ld n max hn) [] = [] := unread_of_none (hld.pending_new max) []
  have hwaits : Waits max (unread ld (.new ld n max hn) []) := .inl (by rw [hnil]; exact Nat.zero_lt_succ 3)
  have hreads := feed_reads hld hn hmax chunks hfits hwaits
  rw [hnil, List.nil_append] at hreads
  obtain ⟨rest, hrest, hall, hat⟩ := hreads
  change chunks.flatten = frames out.1 ++ rest at hrest
  -- waiting or failed, what follows does not begin with a frame
  have hstuck : ∀ y : Bytes, y.length = n → ¬ frame y <+: rest := by
    change out.2.At ld n max rest at hat
    cases hr : out.2 with
    | waiting c src => exact (by rw [hr] at hat; exact hat.2.2 : Waits max rest).stuck (by omega)
    | failed e => exact (by rw [hr] at hat; exact hat : Malformed n max rest).stuck hle hmax
    | outOfRounds => rw [hr] at hat; exact hat.elim
  refine ⟨rest, hrest, ?_, ?_, ?_, ?_, ?_⟩
  · rw [hrest]
    exact isLongest_of_stuck hall hstuck
  · intro cfg hcfg y hy
    rw [Shaper.handleIncoming, hcfg, if_neg (not_not.mpr (hall y hy))]
  · exact encodeAll_eq hld out.1 [] hall (by rw [hfits.limit]; exact le_min hle (hle.trans (by omega)))
  · change out.2.At ld n max rest at hat
    constructor
    · rintro ⟨e, he⟩
      rw [he] at hat
      exact hat
    · intro hbad
      cases hr : out.2 with
      | waiting c src => rw [hr] at hat; exact absurd hbad hat.2.2.not_malformed
      | failed e => exact ⟨e, rfl⟩
      | outOfRounds => rw [hr] at hat; exact hat.elim
  · intro hok
    change out.2.At ld n max rest at hat
    cases hr : out.2 with
    | waiting c src => rw [hr] at hat; exact ⟨c, src, rfl, hat.2.1⟩
    | failed e => rw [hr] at hat; exact absurd hat hok
    | outOfRounds => rw [hr] at hat; exact hat.elim

/-- One frame of two bytes and part of the next header, in three chunks. -/
theorem feed_grammar_three :
    let chunks : List Bytes := [[0, 0], [], [0, 2, 7, 8, 0]]
    let out := feed plain (.new plain 2 5 (by decide)) [] chunks
    ∃ rest, chunks.flatten = frames out.1 ++ rest ∧ IsLongest 2 out.1 chunks.flatten ∧
      (∀ cfg : ShaperConfig, cfg.frameSize = 2 → ∀ y ∈ out.1, Shaper.handleIncoming cfg y = some y) ∧
      (∃ c', encodeAll plain (.new plain 2 5 (by decide)) out.1 [] = (.ok (), c', frames out.1)) ∧
      ((∃ e, out.2 = .failed e) ↔ Malformed 2 5 rest) ∧
      (¬ Malformed 2 5 rest → ∃ c src, out.2 = .waiting c src ∧ unread plain c src = rest) :=
  feed_grammar plain_documented (by decide) (by decide) (by decide) _

end Peashape.Codec
