import Peashape.Model.Connection
import Peashape.Wire.RoundTrip

/-!
# What a connection delivers

One direction of a connection, under any order of its moves: messages handed to the queue,
encoded, read in pieces of any size and decoded, and either end closing at any time.

Between ends that agree on the size of a frame, everything of that size that was handed over
is accounted for (`Accounted`): first what arrived, then what is on its way as a row of
frames, then what waits in the queue, then what was lost when the sending end closed. The
decoder never fails. Between ends that disagree nothing ever arrives (`Mismatched`).
-/

namespace Peashape.Connection

open Foundation Framing Codec

variable {σ κ ς : Type*} {tp : Transport κ ς} {ld : LengthDelimited σ} {n m max max' : ℕ} {c c' : Connection σ κ ς}
  {a : ConnectionAct} {es tr : List ConnectionEvent}

/-- The machine. -/
def Step (tp : Transport κ ς) (ld : LengthDelimited σ) :
    Connection σ κ ς → ConnectionAct → List ConnectionEvent → Connection σ κ ς → Prop :=
  stepOf (step tp ld)

/-- The next bytes there are, as many as `k`, behind those in the reader's buffer. -/
def received (tp : Transport κ ς) (k : ℕ) (c : Connection σ κ ς) : Bytes := c.buffer ++ (tp.onTheWay c.wire).take k

/-- **Everything a step can do**, between a writer of frames of size `n` and a reader. -/
inductive Does (tp : Transport κ ς) (ld : LengthDelimited σ) (n : ℕ) (c : Connection σ κ ς) :
    ConnectionAct → List ConnectionEvent → Connection σ κ ς → Prop
  /-- A message goes to the end of the queue. -/
  | hand {message : Bytes} {outbox : κ} (h : c.up = true)
      (hbox : tp.queued outbox = tp.queued c.outbox ++ [message]) :
      Does tp ld n c (.hand message) [.handed message] { c with outbox := outbox }
  /-- A message of the right size is encoded. -/
  | write {message : Bytes} {rest : κ} {writer : Codec σ} {wire : ς} (h : c.up = true)
      (hbox : tp.queued c.outbox = message :: tp.queued rest) (hsize : message.length = n)
      (hwriter : writer = (encode ld c.writer message []).2.1)
      (hwire : tp.onTheWay wire = tp.onTheWay c.wire ++ frame message) :
      Does tp ld n c .write [] { c with outbox := rest, writer := writer, wire := wire }
  /-- Any other is lost. -/
  | refuse {message : Bytes} {rest : κ} {e : IoError} (h : c.up = true)
      (hbox : tp.queued c.outbox = message :: tp.queued rest) (hsize : message.length ≠ n) :
      Does tp ld n c .write [.refused e] { c with outbox := rest }
  /-- The reader decodes what it can, and waits. -/
  | read {k : ℕ} {items : List Bytes} {reader : Codec σ} {wire : ς} {buffer : Bytes} (h : c.listening = true)
      (hwire : tp.onTheWay wire = (tp.onTheWay c.wire).drop k)
      (hdec : decodeAll ld ((c.received tp k).length + 1) c.reader (c.received tp k) =
        (items, .waiting reader buffer)) :
      Does tp ld n c (.read k) (items.map .arrived) { c with wire := wire, reader := reader, buffer := buffer }
  /-- The reader decodes what it can, and fails. -/
  | fail {k : ℕ} {items : List Bytes} {wire : ς} {e : IoError} (h : c.listening = true)
      (hwire : tp.onTheWay wire = (tp.onTheWay c.wire).drop k)
      (hdec : decodeAll ld ((c.received tp k).length + 1) c.reader (c.received tp k) = (items, .failed e)) :
      Does tp ld n c (.read k) (items.map .arrived ++ [.failed e]) { c with wire := wire, listening := false }
  | hangUp {outbox : κ} (hbox : tp.queued outbox = []) :
      Does tp ld n c .hangUp [] { c with up := false, outbox := outbox }
  | close : Does tp ld n c .close [] { c with listening := false }

/-- A step does one of these. -/
theorem does_of_step (htp : tp.Documented) (hld : ld.Documented) (hw : Written ld n max c.writer) (hle : n ≤ max)
    (hlt : n < 2 ^ 32) (h : Step tp ld c a es c') : Does tp ld n c a es c' := by
  cases a with
  | hand message =>
    simp only [Step, stepOf, step] at h
    split_ifs at h with hup
    cases h
    exact .hand hup (htp.queued_push c.outbox message)
  | write =>
    simp only [Step, stepOf, step] at h
    split at h
    · cases h
    · rename_i message rest hpop
      have hbox := htp.pop_some c.outbox message rest hpop
      split_ifs at h with hup
      by_cases hsize : message.length = n
      · obtain ⟨writer, henc⟩ := hw.encode_eq hld hle hlt hsize []
        simp only [encodeNext, henc, Option.some.injEq] at h
        cases h
        exact .write hup hbox hsize (by rw [henc]) (htp.onTheWay_write c.wire (frame message))
      · have hwrong : message.length ≠ c.writer.frameSize := by rwa [(hw.fits hld).1]
        simp only [encodeNext, encode_of_wrong hwrong, Option.some.injEq] at h
        cases h
        exact .refuse hup hbox hsize
  | read k =>
    simp only [Step, stepOf, step] at h
    split_ifs at h with hl
    simp only [decodeChunk, htp.read_bytes] at h
    split at h <;> rename_i hdec <;> cases h
    · exact .read hl (htp.onTheWay_read c.wire k) hdec
    · exact .fail hl (htp.onTheWay_read c.wire k) hdec
  | hangUp =>
    cases h
    exact .hangUp htp.queued_new
  | close =>
    cases h
    exact .close

/-- The writer's codec stays one that its writer can hold. -/
theorem written_does (hw : Written ld n max c.writer) (h : Does tp ld n c a es c') : Written ld n max c'.writer := by
  cases h with
  | write _ _ _ hwriter _ =>
    show Written ld n max _
    rw [hwriter]
    exact hw.encode _ _
  | _ => exact hw

/-! ### Ends that agree -/

theorem sizedItems_append (n : ℕ) (xs ys : List Bytes) :
    sizedItems n (xs ++ ys) = sizedItems n xs ++ sizedItems n ys := List.filter_append _ _

theorem sizedItems_cons_of_eq {y : Bytes} (h : y.length = n) (ys : List Bytes) :
    sizedItems n (y :: ys) = y :: sizedItems n ys := List.filter_cons_of_pos (decide_eq_true h)

theorem sizedItems_cons_of_ne {y : Bytes} (h : y.length ≠ n) (ys : List Bytes) :
    sizedItems n (y :: ys) = sizedItems n ys := List.filter_cons_of_neg (by simpa using h)

/-- The messages of the right size that were handed over: those that arrived, those on their
way, those in the queue, and those lost when the sending end closed. -/
structure Split (tp : Transport κ ς) (ld : LengthDelimited σ) (n : ℕ) (tr : List ConnectionEvent)
    (c : Connection σ κ ς) (flying lost : List Bytes) : Prop where
  /-- Nothing else, and nothing twice or out of order. -/
  split : sizedItems n (handed tr) = arrived tr ++ flying ++ sizedItems n (tp.queued c.outbox) ++ lost
  /-- Nothing is lost while the sending end is up. -/
  lost : c.up = true → lost = []
  /-- What was not decoded yet is the row of frames of what is on its way. -/
  bytes : c.listening = true → unread ld c.reader c.buffer ++ tp.onTheWay c.wire = frames flying
  /-- These have the right size. -/
  sized : ∀ y ∈ flying, y.length = n

/-- **Everything handed over is accounted for.** -/
structure Accounted (tp : Transport κ ς) (ld : LengthDelimited σ) (n max max' : ℕ) (tr : List ConnectionEvent)
    (c : Connection σ κ ς) : Prop where
  /-- The writer's codec. -/
  writer : Written ld n max c.writer
  /-- The reader's codec. -/
  reader : c.listening = true → Fits ld n (min max' (2 ^ 32 - 1)) c.reader
  /-- The reader has decoded all it can. -/
  waits : c.listening = true → Codec.Waits (min max' (2 ^ 32 - 1)) (unread ld c.reader c.buffer)
  /-- A sending end that is down has nothing left to send. -/
  idle : c.up = false → tp.queued c.outbox = []
  /-- What waits in the queue was handed over. -/
  waiting : ∀ y ∈ tp.queued c.outbox, y ∈ handed tr
  /-- Where everything is. -/
  whole : ∃ flying lost, Split tp ld n tr c flying lost
  /-- What arrived has the right size. -/
  sized : ∀ y ∈ arrived tr, y.length = n
  /-- The decoder did not fail. -/
  unfailed : ∀ e, .failed e ∉ tr

theorem Accounted.start (htp : tp.Documented) (hld : ld.Documented) (hn : 0 < n) :
    Accounted tp ld n max max' [] (.start tp (.new ld n max hn) (.new ld n max' hn)) where
  writer := .new hn
  reader _ := fits_new_min hld hn
  waits _ := by
    refine .inl ?_
    show (unread ld (.new ld n max' hn) []).length < 4
    rw [unread_of_none (hld.pending_new max')]
    decide
  idle h := Bool.noConfusion h
  waiting y hy := by
    have hbox : y ∈ tp.queued tp.newQueue := hy
    rw [htp.queued_new] at hbox
    cases hbox
  whole := by
    refine ⟨[], [], ?_, fun _ => rfl, fun _ => ?_, by simp⟩
    · show [] = sizedItems n (tp.queued tp.newQueue) ++ []
      rw [htp.queued_new]
      rfl
    · show unread ld (.new ld n max' hn) [] ++ tp.onTheWay tp.newStream = []
      rw [htp.onTheWay_new, List.append_nil, unread_of_none (hld.pending_new max')]
  sized _ h := by cases h
  unfailed _ h := by cases h

/-- What a reader does with the front of a row of frames: it yields the first of them, and
leaves the others for later; it does not fail. -/
theorem Split.decode (hle : n ≤ max') (hmax : max' < 2 ^ 32) {flying : List Bytes} {chunk rest : Bytes}
    {out : List Bytes × Reading σ} (hall : ∀ y ∈ flying, y.length = n) (hstream : chunk ++ rest = frames flying)
    (h : Reads ld n max' chunk out) : ∃ later reader buffer, out.2 = .waiting reader buffer ∧
      flying = out.1 ++ later ∧ Fits ld n max' reader ∧ Codec.Waits max' (unread ld reader buffer) ∧
        unread ld reader buffer ++ rest = frames later := by
  obtain ⟨items, reading⟩ := out
  obtain ⟨left, hleft, hitems, hat⟩ := h
  change chunk = frames items ++ left at hleft
  obtain ⟨later, rfl, hlater⟩ : ∃ later, flying = items ++ later ∧ left ++ rest = frames later := by
    rw [hleft, List.append_assoc, ← List.append_nil (frames flying)] at hstream
    rcases frames_append_cancel hitems hall hstream with ⟨zs, rfl, hzs⟩ | ⟨zs, rfl, hzs⟩
    · exact ⟨zs, rfl, by rw [hzs, List.append_nil]⟩
    · obtain ⟨hz, hlr⟩ := List.append_eq_nil_iff.mp hzs.symm
      cases zs with
      | nil => exact ⟨[], by simp, hlr⟩
      | cons z zs => cases hz
  cases reading with
  | waiting reader buffer =>
    obtain ⟨hfits, hunread, hwaits⟩ := hat
    exact ⟨later, reader, buffer, rfl, rfl, hfits, by rw [hunread]; exact hwaits, by rw [hunread, hlater]⟩
  | failed e =>
    have hbad : Malformed n max' (frames later) := hlater ▸ Malformed.append hat rest
    cases later with
    | nil => exact absurd hbad.1 (by decide)
    | cons z zs =>
      exact absurd (List.prefix_append (frame z) (frames zs))
        (hbad.stuck hle hmax z (hall z (by simp)))
  | outOfRounds => exact hat.elim

/-- A step that reads. -/
theorem Accounted.decode (hld : ld.Documented) (hn : 0 < n) (hle : n ≤ max') (hlt : n < 2 ^ 32)
    (hi : Accounted tp ld n max max' tr c) (hl : c.listening = true) {k : ℕ} {items : List Bytes}
    {reading : Reading σ} {wire : ς} (hwire : tp.onTheWay wire = (tp.onTheWay c.wire).drop k)
    (hdec : decodeAll ld ((c.received tp k).length + 1) c.reader (c.received tp k) = (items, reading)) :
    ∃ reader buffer, reading = .waiting reader buffer ∧ Accounted tp ld n max max' (tr ++ items.map .arrived)
      { c with wire := wire, reader := reader, buffer := buffer } := by
  obtain ⟨flying, lost, hsplit⟩ := hi.whole
  have hreads := decodeAll_reads hld hn (by omega) _ (hi.reader hl) (Nat.lt_succ_self (c.received tp k).length)
  rw [hdec, received, unread_append] at hreads
  have hstream : unread ld c.reader c.buffer ++ (tp.onTheWay c.wire).take k ++ tp.onTheWay wire = frames flying := by
    rw [hwire, List.append_assoc, List.take_append_drop, hsplit.bytes hl]
  obtain ⟨later, reader, buffer, hwait, rfl, hfits, hwaits, hbytes⟩ :=
    Split.decode (by omega) (by omega) hsplit.sized hstream hreads
  have hwaiting : ∀ y ∈ tp.queued c.outbox, y ∈ handed (tr ++ items.map .arrived) := fun y hy => by
    rw [handed_append]
    exact List.mem_append_left _ (hi.waiting y hy)
  refine ⟨reader, buffer, hwait, hi.writer, fun _ => hfits, fun _ => hwaits, hi.idle, hwaiting,
    ⟨later, lost, ?_, hsplit.lost, fun _ => hbytes, fun y hy => hsplit.sized y (List.mem_append_right _ hy)⟩, ?_, ?_⟩
  · rw [handed_append, handed_map_arrived, List.append_nil, hsplit.split, arrived_append, arrived_map_arrived,
      ← List.append_assoc]
  · intro y hy
    rw [arrived_append, arrived_map_arrived] at hy
    exact (List.mem_append.mp hy).elim (hi.sized y) fun hy => hsplit.sized y (List.mem_append_left _ hy)
  · intro e he
    exact (List.mem_append.mp he).elim (hi.unfailed e) (by simp)

/-- **A step keeps the account.** -/
theorem Accounted.step (htp : tp.Documented) (hld : ld.Documented) (hn : 0 < n) (hle : n ≤ max) (hle' : n ≤ max')
    (hlt : n < 2 ^ 32) (hi : Accounted tp ld n max max' tr c) (h : Step tp ld c a es c') :
    Accounted tp ld n max max' (tr ++ es) c' := by
  have hdoes := does_of_step htp hld hi.writer hle hlt h
  have hwriter := written_does hi.writer hdoes
  obtain ⟨flying, lost, hsplit⟩ := hi.whole
  cases hdoes with
  | @hand message outbox hup hbox =>
    obtain rfl := hsplit.lost hup
    refine ⟨hwriter, hi.reader, hi.waits, fun hdown => absurd (hup.symm.trans hdown) (by decide), fun y hy => ?_,
      ⟨flying, [], ?_, hsplit.lost, hsplit.bytes, hsplit.sized⟩, ?_, ?_⟩
    · rw [handed_append, List.mem_append]
      rw [hbox] at hy
      exact (List.mem_append.mp hy).imp (hi.waiting y) id
    · have hone : handed [.handed message] = [message] ∧ arrived [.handed message] = [] := ⟨rfl, rfl⟩
      rw [handed_append, arrived_append, hone.1, hone.2, hbox, sizedItems_append, sizedItems_append, hsplit.split]
      simp only [List.append_assoc, List.append_nil]
    · simpa [arrived] using hi.sized
    · simpa using hi.unfailed
  | @write message rest writer wire hup hbox hsize _ hwire =>
    obtain rfl := hsplit.lost hup
    have hall : ∀ y ∈ flying ++ [message], y.length = n :=
      List.forall_mem_append.mpr ⟨hsplit.sized, by simpa using hsize⟩
    rw [List.append_nil]
    refine ⟨hwriter, hi.reader, hi.waits, fun hdown => absurd (hup.symm.trans hdown) (by decide),
      fun y hy => hi.waiting y (hbox ▸ List.mem_cons_of_mem _ hy),
      ⟨flying ++ [message], [], ?_, fun _ => rfl, fun hl => ?_, hall⟩, hi.sized, hi.unfailed⟩
    · rw [hsplit.split, hbox, sizedItems_cons_of_eq hsize]
      simp
    · rw [hwire, ← List.append_assoc, hsplit.bytes hl, frames_append, frames_cons, frames_nil, List.append_nil]
  | @refuse message rest e hup hbox hsize =>
    refine ⟨hwriter, hi.reader, hi.waits, fun hdown => absurd (hup.symm.trans hdown) (by decide), fun y hy => ?_,
      ⟨flying, lost, ?_, hsplit.lost, hsplit.bytes, hsplit.sized⟩, ?_, ?_⟩
    · rw [handed_append]
      exact List.mem_append_left _ (hi.waiting y (hbox ▸ List.mem_cons_of_mem _ hy))
    · have hnone : handed [ConnectionEvent.refused e] = [] ∧ arrived [ConnectionEvent.refused e] = [] := ⟨rfl, rfl⟩
      rw [handed_append, arrived_append, hnone.1, hnone.2, List.append_nil, List.append_nil, hsplit.split, hbox,
        sizedItems_cons_of_ne hsize]
    · simpa [arrived] using hi.sized
    · simpa using hi.unfailed
  | read hl hwire hdec =>
    obtain ⟨reader, buffer, hwait, hacc⟩ := hi.decode hld hn hle' hlt hl hwire hdec
    cases hwait
    exact hacc
  | fail hl hwire hdec =>
    obtain ⟨_, _, hwait, -⟩ := hi.decode hld hn hle' hlt hl hwire hdec
    cases hwait
  | hangUp hbox =>
    rw [List.append_nil]
    refine ⟨hwriter, hi.reader, hi.waits, fun _ => hbox, fun y hy => absurd (hbox ▸ hy) List.not_mem_nil,
      ⟨flying, sizedItems n (tp.queued c.outbox) ++ lost, ?_, fun h => Bool.noConfusion h, hsplit.bytes, hsplit.sized⟩,
      hi.sized, hi.unfailed⟩
    rw [hsplit.split, hbox]
    simp [sizedItems]
  | close =>
    rw [List.append_nil]
    have hclosed : ∀ {P : Prop}, false = true → P := fun h => Bool.noConfusion h
    exact ⟨hwriter, hclosed, hclosed, hi.idle, hi.waiting,
      ⟨flying, lost, hsplit.split, hsplit.lost, hclosed, hsplit.sized⟩, hi.sized, hi.unfailed⟩

/-- The receiving end stays up until it is closed. -/
theorem Accounted.listening (htp : tp.Documented) (hld : ld.Documented) (hn : 0 < n) (hle : n ≤ max)
    (hle' : n ≤ max') (hlt : n < 2 ^ 32) (hi : Accounted tp ld n max max' tr c) (h : Step tp ld c a es c')
    (ha : a ≠ .close) (hl : c.listening = true) : c'.listening = true := by
  cases does_of_step htp hld hi.writer hle hlt h with
  | fail hl hwire hdec =>
    obtain ⟨_, _, hwait, -⟩ := hi.decode hld hn hle' hlt hl hwire hdec
    cases hwait
  | close => exact absurd rfl ha
  | _ => exact hl

/-- It holds after any moves. -/
theorem accounted_run (htp : tp.Documented) (hld : ld.Documented) (hn : 0 < n) (hle : n ≤ max) (hle' : n ≤ max')
    (hlt : n < 2 ^ 32) {as : List ConnectionAct}
    (h : Run (Step tp ld) (.start tp (.new ld n max hn) (.new ld n max' hn)) as tr c) :
    Accounted tp ld n max max' tr c :=
  h.invariant (Accounted.start htp hld hn) fun hi hs => hi.step htp hld hn hle hle' hlt hs

/-! #### Letting everything through -/

/-- With no bytes on their way, nothing is. -/
theorem Accounted.flying_eq_nil (hlt : n < 2 ^ 32) (hi : Accounted tp ld n max max' tr c)
    (hl : c.listening = true) (hwire : tp.onTheWay c.wire = []) {flying lost : List Bytes}
    (h : Split tp ld n tr c flying lost) :
    flying = [] := by
  have hbytes := h.bytes hl
  rw [hwire, List.append_nil] at hbytes
  cases flying with
  | nil => rfl
  | cons z zs =>
    refine absurd ?_ ((hi.waits hl).stuck hlt z (h.sized z (by simp)))
    rw [hbytes, frames_cons]
    exact List.prefix_append _ _

/-- The tasks of a connection neither hand messages to it nor hang up. -/
theorem own_step (ha : a.own = true) (h : Step tp ld c a es c') : handed es = [] ∧ c'.up = c.up := by
  cases a with
  | hand message => cases ha
  | hangUp => cases ha
  | write =>
    simp only [Step, stepOf, step] at h
    split at h
    · cases h
    · split_ifs at h
      simp only [encodeNext, Option.some.injEq] at h
      split at h <;> cases h <;> exact ⟨rfl, rfl⟩
  | read k =>
    simp only [Step, stepOf, step] at h
    split_ifs at h
    simp only [decodeChunk] at h
    split at h <;> cases h
    · exact ⟨handed_map_arrived _, rfl⟩
    · refine ⟨?_, rfl⟩
      rw [handed_append, handed_map_arrived]
      rfl
  | close =>
    cases h
    exact ⟨rfl, rfl⟩

/-- Nothing arrives at a reader that expects frames of size `m`, from a writer of frames of
size `n`; and it closes before it has read a whole frame. -/
structure Mismatched (tp : Transport κ ς) (ld : LengthDelimited σ) (n m max max' : ℕ) (tr : List ConnectionEvent)
    (c : Connection σ κ ς) : Prop where
  /-- The writer's codec. -/
  writer : Written ld n max c.writer
  /-- The reader's codec. -/
  reader : c.listening = true → Fits ld m (min max' (2 ^ 32 - 1)) c.reader
  /-- Nothing arrives. -/
  nothing : arrived tr = []
  /-- Everything that was written, read or not, is a row of frames. -/
  bytes : c.listening = true → ∃ flying, unread ld c.reader c.buffer ++ tp.onTheWay c.wire = frames flying ∧
    ∀ y ∈ flying, y.length = n
  /-- Less than a frame was read. -/
  short : c.listening = true → (unread ld c.reader c.buffer).length < 4 + n

theorem Mismatched.start (htp : tp.Documented) (hld : ld.Documented) (hn : 0 < n) (hm : 0 < m) :
    Mismatched tp ld n m max max' [] (.start tp (.new ld n max hn) (.new ld m max' hm)) := by
  have hnil : unread ld (.new ld m max' hm) [] = [] := unread_of_none (hld.pending_new max') []
  refine ⟨.new hn, fun _ => fits_new_min hld hm, rfl, fun _ => ⟨[], ?_, by simp⟩, fun _ => ?_⟩
  · show unread ld (.new ld m max' hm) [] ++ tp.onTheWay tp.newStream = []
    rw [hnil, htp.onTheWay_new, List.append_nil]
  · show (unread ld (.new ld m max' hm) []).length < 4 + n
    rw [hnil, List.length_nil]
    omega

/-- Two frames of different sizes do not begin alike. -/
theorem frame_append_ne (hne : n ≠ m) (hn : n < 2 ^ 32) (hm : m < 2 ^ 32) {y z : Bytes} (hy : y.length = m)
    (hz : z.length = n) (more more' : Bytes) : frame y ++ more ≠ frame z ++ more' := by
  intro h
  have hhead := congrArg (List.take 4) h
  rw [frame, frame, hy, hz, List.append_assoc, List.append_assoc, List.take_left' (length_beBytes m),
    List.take_left' (length_beBytes n)] at hhead
  have hval := congrArg beValue hhead
  rw [beValue_beBytes hm, beValue_beBytes hn] at hval
  exact hne hval.symm

/-- What a reader does with the front of a row of frames of another size: it yields nothing,
and it waits only for as long as it has less than a frame. -/
theorem decode_mismatched (hne : n ≠ m) (hn : n < 2 ^ 32) (hm : m < 2 ^ 32) {flying : List Bytes}
    {chunk rest : Bytes} {out : List Bytes × Reading σ} (hall : ∀ y ∈ flying, y.length = n)
    (hstream : chunk ++ rest = frames flying) (h : Reads ld m max' chunk out) :
    out.1 = [] ∧ ∀ reader buffer, out.2 = .waiting reader buffer →
      Fits ld m max' reader ∧ unread ld reader buffer = chunk ∧ chunk.length < 4 + n := by
  obtain ⟨items, reading⟩ := out
  obtain ⟨left, hleft, hitems, hat⟩ := h
  change chunk = frames items ++ left at hleft
  obtain rfl : items = [] := by
    cases items with
    | nil => rfl
    | cons y ys =>
      rw [hleft, frames_cons, List.append_assoc, List.append_assoc] at hstream
      cases flying with
      | nil => exact absurd (congrArg List.length hstream) (by simp [frame, beBytes])
      | cons z zs =>
        rw [frames_cons] at hstream
        exact absurd hstream (frame_append_ne hne hn hm (hitems y (by simp)) (hall z (by simp)) _ _)
  refine ⟨rfl, ?_⟩
  rintro reader buffer rfl
  obtain ⟨hfits, hunread, hwaits⟩ := hat
  have hchunk : chunk = left := hleft
  refine ⟨hfits, by rw [hunread, hchunk], ?_⟩
  rw [hchunk]
  rcases hwaits with hshort | ⟨-, hshort⟩
  · omega
  · by_cases h4 : left.length < 4
    · omega
    -- a whole header is there, and it is that of a frame of the writer's size
    cases flying with
    | nil =>
      rw [hchunk] at hstream
      have hnil := (List.append_eq_nil_iff.mp hstream).1
      rw [hnil, List.length_nil]
      omega
    | cons z zs =>
      have htake : left.take 4 = beBytes n := by
        have hfront : (left ++ rest).take 4 = left.take 4 := List.take_append_of_le_length (by omega)
        rw [← hfront, ← hchunk, hstream, frames_cons, frame, hall z (by simp), List.append_assoc,
          List.take_left' (length_beBytes n)]
      rwa [htake, beValue_beBytes hn] at hshort

/-- A step lets nothing arrive. -/
theorem Mismatched.step (htp : tp.Documented) (hld : ld.Documented) (hne : n ≠ m) (hm : 0 < m) (hle : n ≤ max)
    (hn' : n < 2 ^ 32) (hm' : m < 2 ^ 32) (hi : Mismatched tp ld n m max max' tr c) (h : Step tp ld c a es c') :
    Mismatched tp ld n m max max' (tr ++ es) c' := by
  have hdoes := does_of_step htp hld hi.writer hle hn' h
  have hwriter := written_does hi.writer hdoes
  have hnothing : ∀ {es}, arrived es = [] → arrived (tr ++ es) = [] := fun hes => by
    rw [arrived_append, hi.nothing, hes, List.append_nil]
  -- what one call of the reader's loop does
  have hdecode : ∀ {k : ℕ} {items : List Bytes} {reading : Reading σ}, c.listening = true →
      decodeAll ld ((c.received tp k).length + 1) c.reader (c.received tp k) = (items, reading) →
        items = [] ∧ ∀ reader buffer, reading = .waiting reader buffer →
          Fits ld m (min max' (2 ^ 32 - 1)) reader ∧
          unread ld reader buffer = unread ld c.reader c.buffer ++ (tp.onTheWay c.wire).take k ∧
          (unread ld c.reader c.buffer ++ (tp.onTheWay c.wire).take k).length < 4 + n := by
    intro k items reading hl hdec
    obtain ⟨flying, hbytes, hall⟩ := hi.bytes hl
    have hreads := decodeAll_reads hld hm (by omega) _ (hi.reader hl) (Nat.lt_succ_self (c.received tp k).length)
    rw [hdec, received, unread_append] at hreads
    have hstream : unread ld c.reader c.buffer ++ (tp.onTheWay c.wire).take k ++ (tp.onTheWay c.wire).drop k =
        frames flying := by
      rw [List.append_assoc, List.take_append_drop, hbytes]
    exact decode_mismatched hne hn' hm' hall hstream hreads
  cases hdoes with
  | hand hup => exact ⟨hwriter, hi.reader, hnothing rfl, hi.bytes, hi.short⟩
  | @write message rest writer wire hup hbox hsize _ hwire =>
    refine ⟨hwriter, hi.reader, hnothing rfl, fun hl => ?_, hi.short⟩
    obtain ⟨flying, hbytes, hall⟩ := hi.bytes hl
    refine ⟨flying ++ [message], ?_, List.forall_mem_append.mpr ⟨hall, by simpa using hsize⟩⟩
    rw [hwire, ← List.append_assoc, hbytes, frames_append, frames_cons, frames_nil, List.append_nil]
  | refuse hup hbox hsize => exact ⟨hwriter, hi.reader, hnothing rfl, hi.bytes, hi.short⟩
  | @read k items reader wire buffer hl hwire hdec =>
    obtain ⟨rfl, hwait⟩ := hdecode hl hdec
    obtain ⟨hfits, hunread, hshort⟩ := hwait reader buffer rfl
    refine ⟨hwriter, fun _ => hfits, hnothing rfl, fun _ => ?_, fun _ => ?_⟩
    · obtain ⟨flying, hbytes, hall⟩ := hi.bytes hl
      refine ⟨flying, ?_, hall⟩
      rw [hwire, hunread, List.append_assoc, List.take_append_drop, hbytes]
    · rwa [hunread]
  | fail hl _ hdec =>
    obtain ⟨rfl, -⟩ := hdecode hl hdec
    have hclosed : ∀ {P : Prop}, false = true → P := fun h => Bool.noConfusion h
    exact ⟨hwriter, hclosed, hnothing rfl, hclosed, hclosed⟩
  | hangUp _ => exact ⟨hwriter, hi.reader, hnothing rfl, hi.bytes, hi.short⟩
  | close =>
    have hclosed : ∀ {P : Prop}, false = true → P := fun h => Bool.noConfusion h
    exact ⟨hwriter, hclosed, hnothing rfl, hclosed, hclosed⟩

/-- It holds after any moves. -/
theorem mismatched_run (htp : tp.Documented) (hld : ld.Documented) (hn : 0 < n) (hm : 0 < m) (hne : n ≠ m)
    (hle : n ≤ max) (hn' : n < 2 ^ 32) (hm' : m < 2 ^ 32) {as : List ConnectionAct}
    (h : Run (Step tp ld) (.start tp (.new ld n max hn) (.new ld m max' hm)) as tr c) :
    Mismatched tp ld n m max max' tr c :=
  h.invariant (Mismatched.start htp hld hn hm) fun hi hs => hi.step htp hld hne hm hle hn' hm' hs

end Peashape.Connection
