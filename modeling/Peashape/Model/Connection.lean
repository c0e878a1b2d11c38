import Peashape.Foundation.Machine
import Peashape.Model.Codec

/-!
# One direction of a connection

What lies between `unicast_fast` at one node and `process_message` at another: the queue of
messages the sending node's writer has still to encode, the bytes that are on their way, and
the buffer of the receiving node's reader, each end with a codec of its own (`Node::codec`).
The queue and the sockets belong to other crates: they are parameters, and
`Transport.Documented` says what is documented of them, that a queue of messages and a stream of
bytes keep their order and lose nothing. When the writer and the reader move, how many bytes a
read gets, and when either end closes is left open.
-/

namespace Peashape

open Codec

/-- What is between two nodes: queues of messages, streams of bytes, and two views of them. -/
structure Transport (κ ς : Type*) where
  /-- A new queue. -/
  newQueue : κ
  /-- Put a message in a queue. -/
  push : κ → Bytes → κ
  /-- Take the next message. -/
  pop : κ → Option (Bytes × κ)
  /-- A new stream. -/
  newStream : ς
  /-- Send bytes. -/
  write : ς → Bytes → ς
  /-- Receive at most so many bytes. -/
  read : ς → ℕ → Bytes × ς
  /-- The messages in a queue. -/
  queued : κ → List Bytes
  /-- The bytes on their way. -/
  onTheWay : ς → Bytes

variable {κ ς : Type*}

/-- What is documented of queues and streams. -/
structure Transport.Documented (tp : Transport κ ς) : Prop where
  /-- A new queue is empty. -/
  queued_new : tp.queued tp.newQueue = []
  /-- A message goes to the end of a queue. -/
  queued_push : ∀ q message, tp.queued (tp.push q message) = tp.queued q ++ [message]
  /-- A queue that gives nothing is empty. -/
  pop_none : ∀ q, tp.pop q = none → tp.queued q = []
  /-- A message is taken from the front. -/
  pop_some : ∀ q message rest, tp.pop q = some (message, rest) → tp.queued q = message :: tp.queued rest
  /-- On a new stream there is nothing. -/
  onTheWay_new : tp.onTheWay tp.newStream = []
  /-- Bytes go to the end of a stream. -/
  onTheWay_write : ∀ s bytes, tp.onTheWay (tp.write s bytes) = tp.onTheWay s ++ bytes
  /-- They are received from the front. -/
  read_bytes : ∀ s n, (tp.read s n).1 = (tp.onTheWay s).take n
  /-- And are no longer there. -/
  onTheWay_read : ∀ s n, tp.onTheWay (tp.read s n).2 = (tp.onTheWay s).drop n

/-- Queues and streams that are lists. -/
def Transport.plain : Transport (List Bytes) Bytes where
  newQueue := []
  push q message := q ++ [message]
  pop
    | [] => none
    | message :: rest => some (message, rest)
  newStream := []
  write s bytes := s ++ bytes
  read s n := (s.take n, s.drop n)
  queued q := q
  onTheWay s := s

/-- They do what is documented. -/
theorem Transport.plain_documented : Transport.plain.Documented where
  queued_new := rfl
  queued_push _ _ := rfl
  pop_none q h := by
    cases q with
    | nil => rfl
    | cons message rest => cases h
  pop_some q message rest h := by
    cases q with
    | nil => cases h
    | cons message rest =>
      cases h
      rfl
  onTheWay_new := rfl
  onTheWay_write _ _ := rfl
  read_bytes _ _ := rfl
  onTheWay_read _ _ := rfl

/-- One direction of a connection. -/
structure Connection (σ κ ς : Type*) where
  /-- Whether the sending end is up. -/
  up : Bool
  /-- Whether the receiving end is up. -/
  listening : Bool
  /-- The messages still to be encoded. -/
  outbox : κ
  /-- The writer's codec. -/
  writer : Codec σ
  /-- The bytes on their way. -/
  wire : ς
  /-- The reader's codec. -/
  reader : Codec σ
  /-- The reader's buffer. -/
  buffer : Bytes

/-- What happens to it. -/
inductive ConnectionAct where
  /-- `unicast_fast` puts a message in the queue. -/
  | hand (message : Bytes)
  /-- The writer encodes the next message. -/
  | write
  /-- The reader gets that many of the bytes on their way, or all of them if there are
  fewer, and decodes what it can. -/
  | read (n : ℕ)
  /-- The sending end closes: what was not encoded is lost. -/
  | hangUp
  /-- The receiving end closes. -/
  | close
  deriving DecidableEq

/-- What it leaves in the history. -/
inductive ConnectionEvent where
  /-- A message was taken into the queue. -/
  | handed (message : Bytes)
  /-- The encoder refused a message, which is lost. -/
  | refused (error : IoError)
  /-- A message was decoded. -/
  | arrived (message : Bytes)
  /-- The decoder failed, and the receiving end closes. -/
  | failed (error : IoError)
  deriving DecidableEq

/-- The moves of the tasks that serve the connection, and of its receiving end. -/
def ConnectionAct.own : ConnectionAct → Bool
  | .write | .read _ | .close => true
  | .hand _ | .hangUp => false

namespace Connection

variable {σ : Type*} (tp : Transport κ ς) (ld : LengthDelimited σ)

/-- A new connection. -/
def start (writer reader : Codec σ) : Connection σ κ ς where
  up := true
  listening := true
  outbox := tp.newQueue
  writer := writer
  wire := tp.newStream
  reader := reader
  buffer := []

/-- A message in the queue. -/
def push (message : Bytes) (c : Connection σ κ ς) : Connection σ κ ς := { c with outbox := tp.push c.outbox message }

/-- The writer encodes `message`, the next one, and `rest` is left in the queue. -/
def encodeNext (message : Bytes) (rest : κ) (c : Connection σ κ ς) : List ConnectionEvent × Connection σ κ ς :=
  match encode ld c.writer message [] with
  | (.ok _, writer, bytes) => ([], { c with outbox := rest, writer := writer, wire := tp.write c.wire bytes })
  | (.error e, writer, _) => ([.refused e], { c with outbox := rest, writer := writer })

/-- The reader appends a chunk to its buffer and decodes all that is there. -/
def decodeChunk (n : ℕ) (c : Connection σ κ ς) : Option (List ConnectionEvent × Connection σ κ ς) :=
  let (chunk, wire) := tp.read c.wire n
  let src := c.buffer ++ chunk
  let c := { c with wire := wire }
  match decodeAll ld (src.length + 1) c.reader src with
  | (items, .waiting reader buffer) =>
    some (items.map .arrived, { c with reader := reader, buffer := buffer })
  | (items, .failed e) =>
    -- any length but `frame_size` causes the connection to be torn down by the decoder
    some (items.map .arrived ++ [.failed e], { c with listening := false })
  | (_, .outOfRounds) => none

/-- One step of the connection. -/
def step (c : Connection σ κ ς) : ConnectionAct → Option (List ConnectionEvent × Connection σ κ ς)
  | .hand message => if c.up then some ([.handed message], c.push tp message) else none
  | .write =>
    match tp.pop c.outbox with
    | none => none
    | some (message, rest) => if c.up then some (encodeNext tp ld message rest c) else none
  | .read n => if c.listening then decodeChunk tp ld n c else none
  | .hangUp => some ([], { c with up := false, outbox := tp.newQueue })
  | .close => some ([], { c with listening := false })

/-- The messages taken into the queue, in order. -/
def handed (tr : List ConnectionEvent) : List Bytes :=
  tr.filterMap fun
    | .handed message => some message
    | _ => none

/-- The messages decoded, in order. -/
def arrived (tr : List ConnectionEvent) : List Bytes :=
  tr.filterMap fun
    | .arrived message => some message
    | _ => none

@[simp] theorem handed_append (tr tr' : List ConnectionEvent) : handed (tr ++ tr') = handed tr ++ handed tr' :=
  List.filterMap_append

@[simp] theorem arrived_append (tr tr' : List ConnectionEvent) : arrived (tr ++ tr') = arrived tr ++ arrived tr' :=
  List.filterMap_append

@[simp] theorem arrived_map_arrived (items : List Bytes) : arrived (items.map .arrived) = items := by
  rw [arrived, List.filterMap_map]
  exact List.filterMap_some

@[simp] theorem handed_map_arrived (items : List Bytes) : handed (items.map .arrived) = [] := by
  rw [handed, List.filterMap_map]
  exact List.filterMap_eq_nil_iff.mpr fun _ _ => rfl

end Connection

end Peashape
