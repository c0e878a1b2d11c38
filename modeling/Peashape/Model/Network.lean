import Mathlib.Logic.Function.Basic
import Peashape.Model.Connection
import Peashape.Model.Inbox
import Peashape.Model.System

/-!
# A network of nodes

Any number of nodes, each with its own configuration and cover generator, its own threads
(`SystemState`) and its own channel of subscribers, and the connections between them. A node
knows a connection by an address; which node is at the other end of it, and when connections
come up and go, is left open, and so is which frames `unicast_fast` refuses. A frame the
scheduler hands to the writer for an address (`send_one_to`) goes into the queue of the
connection that is up under that address, if there is one and it takes it; the source logs the
failure otherwise. What a connection's reader decodes goes to `process_message` of the node at
its end, message by message.

Each direction of a connection is a `Link` of its own. Links are numbered as they come up and
are not removed, so that a number names one link.

What nodes use of other crates, the length-delimited codec, the queues and streams of a
connection and the channel of subscribers, is one parameter, the `Runtime`.
-/

namespace Peashape

open Foundation Codec

/-- What nodes use of other crates. -/
structure Runtime (σ κ ς χ : Type*) where
  /-- `LengthDelimitedCodec`. -/
  framing : LengthDelimited σ
  /-- The queues and streams of a connection. -/
  transport : Transport κ ς
  /-- The channel `incoming`. -/
  incoming : Lagging.Broadcast χ Bytes

variable {σ κ ς χ : Type*}

/-- Each does what is documented of it. -/
structure Runtime.Documented (rt : Runtime σ κ ς χ) : Prop where
  /-- The codec. -/
  framing : rt.framing.Documented
  /-- The queues and streams. -/
  transport : rt.transport.Documented
  /-- The channel, with room for `SUBSCRIBER_CAPACITY` frames. -/
  incoming : rt.incoming.Documented subscriberCapacity

/-- One direction of a connection, between two nodes. -/
structure Link (N Addr σ κ ς : Type*) extends Connection σ κ ς where
  /-- The sending node. -/
  source : N
  /-- The address under which the sending node knows it. -/
  peer : Addr
  /-- The receiving node. -/
  target : N

/-- The state of a network. -/
structure Network (N Addr G σ κ ς χ : Type*) (w : ℕ) where
  /-- The threads of each node. -/
  nodes : N → SystemState Addr G w
  /-- The subscribers of each node. -/
  inboxes : N → χ
  /-- The links there have been. -/
  links : List (Link N Addr σ κ ς)

/-- A move in the network. -/
inductive NetworkAct (N Addr : Type*) where
  /-- A thread of node `a` moves. Of the frames it hands to the writer, those marked are
  refused by `unicast_fast`. -/
  | node (a : N) (act : Act Addr) (refused : List Bool)
  /-- A connection of node `a` comes up, under the address `peer`; node `b` is at its end. -/
  | connect (a : N) (peer : Addr) (b : N)
  /-- The connection of node `a` under the address `peer` goes down. -/
  | disconnect (a : N) (peer : Addr)
  /-- A task of a link moves, or its receiving end closes. -/
  | link (k : ℕ) (act : ConnectionAct)
  /-- A subscriber of node `b` moves. -/
  | inbox (b : N) (act : InboxAct)
  deriving DecidableEq

/-- What a move leaves in the history. -/
inductive NetworkEvent (N Addr : Type*) where
  /-- At the threads of a node. -/
  | node (a : N) (e : Event Addr)
  /-- At a link, with the node at its end. -/
  | link (k : ℕ) (b : N) (e : ConnectionEvent)
  /-- At the subscribers of a node. -/
  | inbox (b : N) (e : Lagging.Event Bytes)
  deriving DecidableEq

/-- The moves of a node that are not about connections. -/
def Act.ofNode {Addr : Type*} : Act Addr → Bool
  | .connect _ | .disconnect _ => false
  | _ => true

/-- The moves of the applications at the receiving side. -/
def InboxAct.ofApplication : InboxAct → Bool
  | .processMessage _ => false
  | _ => true

namespace Network

variable {N Addr G : Type*} {w : ℕ} [DecidableEq N] [DecidableEq Addr]
  (rt : Runtime σ κ ς χ) (cfg : N → NodeConfig) (cg : N → CoverGenerator G)

/-- A new network: no connections, and nothing sent. -/
def start (sch : N → Scheduler Addr w) (gen : N → G) : Network N Addr G σ κ ς χ w where
  nodes a := .new (sch a) (gen a)
  inboxes _ := rt.incoming.new
  links := []

/-- Whether a link is the one node `a` has up under an address. -/
def Carries (a : N) (peer : Addr) (l : Link N Addr σ κ ς) : Prop := l.source = a ∧ l.peer = peer ∧ l.up = true

instance (a : N) (peer : Addr) (l : Link N Addr σ κ ς) : Decidable (Carries a peer l) :=
  inferInstanceAs (Decidable (_ ∧ _ ∧ _))

/-- The link node `a` has up under an address. -/
def route (a : N) (peer : Addr) (links : List (Link N Addr σ κ ς)) : Option ℕ :=
  links.findIdx? fun l => decide (Carries a peer l)

/-- A new link, with the codecs of the two nodes. -/
def newLink (a : N) (peer : Addr) (b : N) : Link N Addr σ κ ς where
  toConnection := .start rt.transport ((cfg a).codec rt.framing) ((cfg b).codec rt.framing)
  source := a
  peer := peer
  target := b

/-- A move of a link. -/
def stepLink (k : ℕ) (act : ConnectionAct) (links : List (Link N Addr σ κ ς)) :
    Option (N × List ConnectionEvent × List (Link N Addr σ κ ς)) :=
  match links[k]? with
  | none => none
  | some l =>
    match Connection.step rt.transport rt.framing l.toConnection act with
    | none => none
    | some (es, c) => some (l.target, es, links.set k { l with toConnection := c })

/-- `send_one_to`: `unicast_fast` puts the frame in the queue of the connection under that
address, or fails. -/
def sendOneTo (a : N) (peer : Addr) (frame : Bytes) (refused : Bool) (links : List (Link N Addr σ κ ς)) :
    List (NetworkEvent N Addr) × List (Link N Addr σ κ ς) :=
  match route a peer links with
  | none => ([], links)
  | some k =>
    if refused then ([], links)
    else
      match stepLink rt k (.hand frame) links with
      | none => ([], links)
      | some (b, es, links) => (es.map (.link k b), links)

/-- The frames a move of node `a` hands to the writer, one after another. -/
def sendAll (a : N) : List (Addr × PendingFrame Addr) → List Bool → List (Link N Addr σ κ ς) →
    List (NetworkEvent N Addr) × List (Link N Addr σ κ ς)
  | [], _, links => ([], links)
  | (peer, f) :: sends, refused, links =>
    let (es, links) := sendOneTo rt a peer f.bytes (refused.headD false) links
    let (es', links) := sendAll a sends refused.tail links
    (es ++ es', links)

/-- `process_message`, for each message decoded. -/
def processAll (cfg : ShaperConfig) : List Bytes → χ → List (Lagging.Event Bytes) × χ
  | [], s => ([], s)
  | message :: messages, s =>
    let (es, s) := Inbox.processMessage rt.incoming cfg message s
    let (es', s) := processAll cfg messages s
    (es ++ es', s)

/-- One step of the network. -/
def step (s : Network N Addr G σ κ ς χ w) :
    NetworkAct N Addr → Option (List (NetworkEvent N Addr) × Network N Addr G σ κ ς χ w)
  | .node a act refused =>
    if act.ofNode then
      match SystemState.step (cfg a).shaper (cg a) (s.nodes a) act with
      | none => none
      | some (es, n) =>
        let (es', links) := sendAll rt a (sends es) refused s.links
        some (es.map (.node a) ++ es', { s with nodes := Function.update s.nodes a n, links := links })
    else none
  | .connect a peer b =>
    if (route a peer s.links).isNone then
      some ([], { s with
        nodes := Function.update s.nodes a { s.nodes a with connected := insert peer (s.nodes a).connected }
        links := s.links ++ [newLink rt cfg a peer b] })
    else none
  | .disconnect a peer =>
    match route a peer s.links with
    | none => none
    | some k =>
      match stepLink rt k .hangUp s.links with
      | none => none
      | some (b, es, links) =>
        some (es.map (.link k b), { s with
          nodes := Function.update s.nodes a { s.nodes a with connected := (s.nodes a).connected.erase peer }
          links := links })
  | .link k act =>
    if act.own then
      match stepLink rt k act s.links with
      | none => none
      | some (b, es, links) =>
        let (es', inbox) := processAll rt (cfg b).shaper (Connection.arrived es) (s.inboxes b)
        some (es.map (.link k b) ++ es'.map (.inbox b),
          { s with links := links, inboxes := Function.update s.inboxes b inbox })
    else none
  | .inbox b act =>
    if act.ofApplication then
      match Inbox.step rt.incoming (cfg b).shaper (s.inboxes b) act with
      | none => none
      | some (es, inbox) => some (es.map (.inbox b), { s with inboxes := Function.update s.inboxes b inbox })
    else none

/-- The machine. -/
def Step : Network N Addr G σ κ ς χ w → NetworkAct N Addr → List (NetworkEvent N Addr) →
    Network N Addr G σ κ ς χ w → Prop :=
  stepOf (step rt cfg cg)

/-! ### Reading a history -/

/-- What happened at the threads of node `a`. -/
def atNode (a : N) (tr : List (NetworkEvent N Addr)) : List (Event Addr) :=
  tr.filterMap fun
    | .node b e => if b = a then some e else none
    | _ => none

/-- What happened at link `k`. -/
def atLink (k : ℕ) (tr : List (NetworkEvent N Addr)) : List ConnectionEvent :=
  tr.filterMap fun
    | .link j _ e => if j = k then some e else none
    | _ => none

/-- What happened at the subscribers of node `b`. -/
def atInbox (b : N) (tr : List (NetworkEvent N Addr)) : List (Lagging.Event Bytes) :=
  tr.filterMap fun
    | .inbox b' e => if b' = b then some e else none
    | _ => none

/-- What it was to subscriber `i` of node `b`: the messages decoded there, and the answers it was
given. -/
def inputsAt (b : N) (i : ℕ) (tr : List (NetworkEvent N Addr)) : List (Lagging.Mailbox.Input Bytes) :=
  tr.filterMap fun
    | .link _ b' (.arrived message) => if b' = b then some (.arrive message) else none
    | .inbox b' (.told j _) => if b' = b ∧ j = i then some .recv else none
    | _ => none

/-- The messages decoded at node `b`, each with the link it came over. -/
def arrivedAt (b : N) (tr : List (NetworkEvent N Addr)) : List (ℕ × Bytes) :=
  tr.filterMap fun
    | .link k b' (.arrived message) => if b' = b then some (k, message) else none
    | _ => none

end Network

end Peashape
