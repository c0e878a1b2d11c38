import Peashape.Delivery.Kept
import Peashape.Shaping.Observer

/-!
# What an observer sees of a network

Somebody who watches every link of a network, and knows when connections come and go and when
each task runs, sees how many bytes are on each wire at any time. Between nodes with frames of one
size, under timed strategies in `PerConnection` scope, this says nothing about what the
applications submit, relay, or do with what they receive: a run of the network, seen by the
observer, is a run of a network of nodes without lanes (`NodeOutline`) whose links carry nothing
but numbers of bytes (`ConnectionOutline`), so that two runs with the same visible moves look the
same (`network_noninterference`).
-/

namespace Peashape

open Foundation Codec

/-- A connection, but for what is in it. -/
structure ConnectionOutline where
  /-- Whether the sending end is up. -/
  up : Bool
  /-- Whether the receiving end is up. -/
  listening : Bool
  /-- How many messages wait. -/
  queued : ℕ
  /-- How many bytes are on their way. -/
  wire : ℕ
  deriving DecidableEq

/-- What is seen of a connection. -/
def Connection.outline {σ κ ς : Type*} (tp : Transport κ ς) (c : Connection σ κ ς) : ConnectionOutline :=
  ⟨c.up, c.listening, (tp.queued c.outbox).length, (tp.onTheWay c.wire).length⟩

/-- One step of a connection for frames of size `n`: each goes onto the wire behind four bytes. -/
def ConnectionOutline.step (n : ℕ) (c : ConnectionOutline) : ConnectionAct → Option ConnectionOutline
  | .hand _ => if c.up then some { c with queued := c.queued + 1 } else none
  | .write =>
    match c.queued with
    | 0 => none
    | queued + 1 => if c.up then some { c with queued := queued, wire := c.wire + (n + 4) } else none
  | .read k => if c.listening then some { c with wire := c.wire - k } else none
  | .hangUp => some { c with up := false, queued := 0 }
  | .close => some { c with listening := false }

/-- One direction of a connection, between two nodes. -/
structure LinkOutline (N Addr : Type*) extends ConnectionOutline where
  /-- The sending node. -/
  source : N
  /-- The address under which the sending node knows it. -/
  peer : Addr
  /-- The receiving node. -/
  target : N

/-- What is seen of a link. -/
def Link.outline {N Addr σ κ ς : Type*} (tp : Transport κ ς) (l : Link N Addr σ κ ς) : LinkOutline N Addr :=
  ⟨l.toConnection.outline tp, l.source, l.peer, l.target⟩

/-- A network of nodes without lanes. -/
structure NetworkOutline (N Addr : Type*) (w : ℕ) where
  /-- Each node. -/
  nodes : N → NodeOutline Addr w
  /-- The links there have been. -/
  links : List (LinkOutline N Addr)

/-- What is seen of a network. -/
def Network.outline {N Addr G σ κ ς χ : Type*} {w : ℕ} (tp : Transport κ ς) (s : Network N Addr G σ κ ς χ w) :
    NetworkOutline N Addr w :=
  ⟨fun a => (s.nodes a).outline, s.links.map (Link.outline tp)⟩

/-- The moves an observer knows of: those of the applications are hidden. -/
def NetworkAct.visible {N Addr : Type*} : NetworkAct N Addr → Bool
  | .node _ act _ => act.visible
  | .connect _ _ _ | .disconnect _ _ | .link _ _ => true
  | .inbox _ _ => false

/-- What the nodes hand to their writers: which node, for whom, and how many bytes. -/
def Network.wires {N Addr : Type*} (tr : List (NetworkEvent N Addr)) : List (N × Addr × ℕ) :=
  tr.filterMap fun
    | .node a (.send peer f) => some (a, peer, f.bytes.length)
    | _ => none

namespace NetworkOutline

variable {N Addr : Type*} {w : ℕ} [DecidableEq N] [DecidableEq Addr] (cfg : N → NodeConfig)

/-- Whether a link is the one node `a` has up under an address. -/
def Carries (a : N) (peer : Addr) (l : LinkOutline N Addr) : Prop := l.source = a ∧ l.peer = peer ∧ l.up = true

instance (a : N) (peer : Addr) (l : LinkOutline N Addr) : Decidable (Carries a peer l) :=
  inferInstanceAs (Decidable (_ ∧ _ ∧ _))

/-- The link node `a` has up under an address. -/
def route (a : N) (peer : Addr) (links : List (LinkOutline N Addr)) : Option ℕ :=
  links.findIdx? fun l => decide (Carries a peer l)

/-- A move of a link. -/
def stepLink (k : ℕ) (act : ConnectionAct) (links : List (LinkOutline N Addr)) : Option (List (LinkOutline N Addr)) :=
  match links[k]? with
  | none => none
  | some l =>
    (l.toConnectionOutline.step (cfg l.source).frameSize act).map fun c =>
      links.set k { l with toConnectionOutline := c }

/-- A frame goes into the queue of the link that is up, or nowhere. -/
def sendOneTo (a : N) (peer : Addr) (refused : Bool) (links : List (LinkOutline N Addr)) : List (LinkOutline N Addr) :=
  match route a peer links with
  | none => links
  | some k => if refused then links else (stepLink cfg k (.hand []) links).getD links

/-- Frames for these addresses, one after another. -/
def sendAll (a : N) : List Addr → List Bool → List (LinkOutline N Addr) → List (LinkOutline N Addr)
  | [], _, links => links
  | peer :: peers, refused, links => sendAll a peers refused.tail (sendOneTo cfg a peer (refused.headD false) links)

/-- One step. -/
def step (o : NetworkOutline N Addr w) :
    NetworkAct N Addr → Option (List (N × Addr × ℕ) × NetworkOutline N Addr w)
  | .node a act refused =>
    match (o.nodes a).step (cfg a).shaper act with
    | none => none
    | some (sent, n) =>
      some (sent.map (a, ·), ⟨Function.update o.nodes a n, sendAll cfg a (sent.map Prod.fst) refused o.links⟩)
  | .connect a peer b =>
    some ([], ⟨Function.update o.nodes a { o.nodes a with connected := insert peer (o.nodes a).connected },
      o.links ++ [⟨⟨true, true, 0, 0⟩, a, peer, b⟩]⟩)
  | .disconnect a peer =>
    match route a peer o.links with
    | none => none
    | some k =>
      (stepLink cfg k .hangUp o.links).map fun links =>
        ([], ⟨Function.update o.nodes a { o.nodes a with connected := (o.nodes a).connected.erase peer }, links⟩)
  | .link k act => (stepLink cfg k act o.links).map fun links => ([], ⟨o.nodes, links⟩)
  | .inbox _ _ => none

end NetworkOutline

end Peashape

namespace Peashape.Connection

open Foundation Framing Codec

variable {σ κ ς : Type*} {tp : Transport κ ς} {ld : LengthDelimited σ} {n max max' : ℕ} {c c' : Connection σ κ ς}
  {a : ConnectionAct} {es tr : List ConnectionEvent}

/-- **What is in a connection does not show**, as long as everything in it has the right size. -/
theorem outline_step (htp : tp.Documented) (hld : ld.Documented) (hn : 0 < n) (hle : n ≤ max) (hle' : n ≤ max')
    (hlt : n < 2 ^ 32) (hi : Accounted tp ld n max max' tr c) (hall : ∀ y ∈ tp.queued c.outbox, y.length = n)
    (h : Step tp ld c a es c') : (c.outline tp).step n a = some (c'.outline tp) := by
  cases does_of_step htp hld hi.writer hle hlt h with
  | hand hup hbox => simp [outline, ConnectionOutline.step, hup, hbox]
  | write hup hbox hsize _ hwire =>
    simp [outline, ConnectionOutline.step, hbox, hup, hwire, length_frame, hsize, Nat.add_comm 4]
  | @refuse message rest e hup hbox hsize => exact absurd (hall message (by simp [hbox])) hsize
  | read hl hwire _ => simp [outline, ConnectionOutline.step, hl, hwire]
  | fail hl hwire hdec =>
    obtain ⟨_, _, hwait, -⟩ := hi.decode hld hn hle' hlt hl hwire hdec
    cases hwait
  | hangUp hbox => simp [outline, ConnectionOutline.step, hbox]
  | close => rfl

end Peashape.Connection

namespace Peashape.Network

open Foundation Codec Shaping

variable {N Addr G G' σ κ ς χ : Type*} {w : ℕ} [DecidableEq N] [DecidableEq Addr] {rt : Runtime σ κ ς χ}
  {cfg : N → NodeConfig} {cg : N → CoverGenerator G} {cg' : N → CoverGenerator G'} {s s' : Network N Addr G σ κ ς χ w}
  {act : NetworkAct N Addr} {es tr : List (NetworkEvent N Addr)} {k : ℕ} {l : Link N Addr σ κ ς}

omit [DecidableEq N] [DecidableEq Addr] in
@[simp] theorem wires_append (tr tr' : List (NetworkEvent N Addr)) : wires (tr ++ tr') = wires tr ++ wires tr' :=
  List.filterMap_append

omit [DecidableEq N] [DecidableEq Addr] in
/-- What a node's threads leave behind. -/
theorem wires_map_node (a : N) (es : List (Event Addr)) : wires (es.map (.node a)) = (wire es).map (a, ·) := by
  rw [wires, wire, sends, List.filterMap_map, List.map_map, List.map_filterMap]
  refine List.filterMap_congr fun e _ => ?_
  cases e <;> rfl

omit [DecidableEq N] [DecidableEq Addr] in
theorem wires_of_links (h : ∀ e ∈ es, ∀ a e', e ≠ .node a e') : wires es = [] :=
  List.filterMap_eq_nil_iff.mpr fun e he => by
    cases e with
    | node a e' => exact absurd rfl (h _ he a e')
    | _ => rfl

theorem route_outline (tp : Transport κ ς) (a : N) (peer : Addr) (links : List (Link N Addr σ κ ς)) :
    NetworkOutline.route a peer (links.map (Link.outline tp)) = route a peer links := by
  rw [NetworkOutline.route, route, List.findIdx?_map]
  rfl

omit [DecidableEq N] [DecidableEq Addr] in
/-- A move of a link. -/
theorem stepLink_outline {tp : Transport κ ς} {c : Connection σ κ ς} {a : ConnectionAct}
    {links : List (Link N Addr σ κ ς)} (hl : links[k]? = some l)
    (h : (l.toConnection.outline tp).step (cfg l.source).frameSize a = some (c.outline tp)) :
    NetworkOutline.stepLink cfg k a (links.map (Link.outline tp)) =
      some ((links.set k { l with toConnection := c }).map (Link.outline tp)) := by
  have hk : (links.map (Link.outline tp))[k]? = some (l.outline tp) := by rw [List.getElem?_map, hl]; rfl
  have hstep : (l.outline tp).toConnectionOutline.step (cfg (l.outline tp).source).frameSize a = some (c.outline tp) := h
  simp only [NetworkOutline.stepLink, hk, hstep, Option.map_some, List.map_set]
  rfl

variable (cfg) in
/-- The writer of a node. -/
theorem sendAll_outline (hrt : rt.Documented) (a : N) : ∀ (sends : List (Addr × PendingFrame Addr))
    (refused : List Bool) (links : List (Link N Addr σ κ ς)),
    (sendAll rt a sends refused links).2.map (Link.outline rt.transport) =
      NetworkOutline.sendAll cfg a (sends.map Prod.fst) refused (links.map (Link.outline rt.transport))
  | [], _, _ => rfl
  | (peer, f) :: sends, refused, links => by
    have hone : (sendOneTo rt a peer f.bytes (refused.headD false) links).2.map (Link.outline rt.transport) =
        NetworkOutline.sendOneTo cfg a peer (refused.headD false) (links.map (Link.outline rt.transport)) := by
      rw [NetworkOutline.sendOneTo, route_outline]
      rcases sendOneTo_cases rt a peer f.bytes (refused.headD false) links with
        ⟨heq, hno | hrefused⟩ | ⟨k, l, hk, hrefused, hl, hc, -, heq⟩
      · rw [heq, hno]
      · rw [heq, hrefused]
        cases route a peer links <;> rfl
      · have hpush : (l.toConnection.outline rt.transport).step (cfg l.source).frameSize (.hand []) =
            some ((l.toConnection.push rt.transport f.bytes).outline rt.transport) := by
          simp [Connection.outline, ConnectionOutline.step, Connection.push, hc.2.2, hrt.transport.queued_push]
        rw [heq, hk, hrefused]
        simp only [Bool.false_eq_true, if_false, stepLink_outline hl hpush, Option.getD_some]
    have ih := sendAll_outline hrt a sends refused.tail (sendOneTo rt a peer f.bytes (refused.headD false) links).2
    rw [hone] at ih
    exact ih

/-- What an observer relies on: everything under way has the right size. -/
structure Uniform (rt : Runtime σ κ ς χ) (cfg : N → NodeConfig) (tr : List (NetworkEvent N Addr))
    (s : Network N Addr G σ κ ς χ w) : Prop where
  /-- Of the links. -/
  links : LinksInv rt cfg tr s
  /-- Of the nodes. -/
  nodes : ∀ a, SystemWf (cfg a).shaper (s.nodes a)
  /-- And of what waits in the queues. -/
  queued : ∀ (k : ℕ) (l : Link N Addr σ κ ς), s.links[k]? = some l →
    ∀ y ∈ rt.transport.queued l.outbox, y.length = (cfg l.source).frameSize

section Documented

variable (hrt : rt.Documented) (hlt : ∀ a, (cfg a).frameSize < 2 ^ 32)
  (hsize : ∀ a b, (cfg a).frameSize = (cfg b).frameSize)

include hrt hlt hsize

theorem uniform_run (hcg : ∀ a, (cg a).Sized (cfg a).toShapeConfig) {sch : N → Scheduler Addr w} {gen : N → G}
    {as : List (NetworkAct N Addr)} (h : Run (Step rt cfg cg) (start rt sch gen) as tr s) : Uniform rt cfg tr s where
  links := linksInv_run h
  nodes a := by
    obtain ⟨bs, hrun⟩ := run_node h a
    exact systemWf_run (.new (sch a) (gen a)) hrun
  queued k l hl y hy := by
    have hi := linksInv_run h
    have hhanded := (hi.accounted hrt hlt hl (hsize _ _)).waiting y hy
    have hrun : Run (Step rt cfg cg) (start rt sch gen) as ([] ++ tr) s := h
    exact length_of_mem_offered (hcg l.source) hrun l.peer y ((hi.handed k l hl).subset hhanded)

/-- A move of a link is one of its outline. -/
theorem Uniform.step (hu : Uniform rt cfg tr s) (hl : s.links[k]? = some l) {a : ConnectionAct}
    {ces : List ConnectionEvent} {c : Connection σ κ ς}
    (h : Connection.Step rt.transport rt.framing l.toConnection a ces c) :
    NetworkOutline.stepLink cfg k a (s.outline rt.transport).links =
      some ((s.links.set k { l with toConnection := c }).map (Link.outline rt.transport)) := by
  have hacc := hu.links.accounted hrt hlt hl (hsize _ _)
  have htarget : (cfg l.source).frameSize ≤ (cfg l.target).maxFrameSize :=
    hsize l.source l.target ▸ (cfg l.target).frameSize_le
  exact stepLink_outline hl (Connection.outline_step hrt.transport hrt.framing (cfg l.source).frameSize_pos
    (cfg l.source).frameSize_le htarget (hlt _) hacc (hu.queued k l hl) h)

omit hrt hlt hsize in
/-- The applications' moves show nothing, and leave what is seen alone. -/
theorem wires_hidden (h : Does rt cfg cg s act es s') (ha : act.visible = false) :
    wires es = [] ∧ s'.outline rt.transport = s.outline rt.transport := by
  cases h with
  | @node a act refused es n _ hs =>
    obtain ⟨hwire, houtline⟩ := outline_hidden (SystemState.does_of_step hs) ha
    have hsends : sends es = [] := List.map_eq_nil_iff.mp hwire
    have hnodes : (fun b => (Function.update s.nodes a n b).outline) = fun b => (s.nodes b).outline := by
      funext b
      by_cases hb : b = a
      · subst hb
        rw [Function.update_self, houtline]
      · rw [Function.update_of_ne hb]
    rw [wires_append, wires_map_node, hwire, hsends]
    exact ⟨rfl, by simp only [outline, hnodes, sendAll]⟩
  | inbox => exact ⟨wires_of_links (by simp), rfl⟩
  | _ => cases ha

/-- **The others are moves of the network without lanes.** -/
theorem wires_shown (hscope : ∀ a, (cfg a).scope ≠ .global) (htimed : ∀ a, SystemState.passthrough (cfg a).shaper = false)
    (hcg : ∀ a, (cg a).Sized (cfg a).toShapeConfig) (hu : Uniform rt cfg tr s) (h : Does rt cfg cg s act es s')
    (ha : act.visible = true) : (s.outline rt.transport).step cfg act = some (wires es, s'.outline rt.transport) := by
  have hupdate (a : N) (n : SystemState Addr G w) : (fun b => (Function.update s.nodes a n b).outline) =
      Function.update (fun b => (s.nodes b).outline) a n.outline := by
    funext b
    by_cases hb : b = a
    · subst hb
      rw [Function.update_self, Function.update_self]
    · rw [Function.update_of_ne hb, Function.update_of_ne hb]
  cases h with
  | @node a act refused es n _ hs =>
    have hnode := outline_shown (hscope a) (htimed a) (hcg a) (hu.nodes a) (SystemState.does_of_step hs) ha
    have hlinks : wires (sendAll rt a (sends es) refused s.links).1 = [] := wires_of_links fun e he b e' heq => by
      obtain ⟨_, _, _, rfl⟩ := (sentAll rt a (sends es) refused s.links).events e he
      cases heq
    have hpeers : (wire es).map Prod.fst = (sends es).map Prod.fst := by rw [wire, List.map_map]; rfl
    rw [wires_append, wires_map_node, hlinks, List.append_nil]
    simp only [NetworkOutline.step, outline, hnode, hupdate, sendAll_outline cfg hrt, hpeers]
  | @connect a peer b _ =>
    have hnew : (newLink rt cfg a peer b).outline rt.transport = ⟨⟨true, true, 0, 0⟩, a, peer, b⟩ := by
      simp [Link.outline, newLink, Connection.outline, Connection.start, hrt.transport.queued_new,
        hrt.transport.onTheWay_new]
    simp only [NetworkOutline.step, outline, hupdate, List.map_append, List.map_cons, List.map_nil, hnew]
    rfl
  | @disconnect a peer k l c hr hl hs =>
    have hlink := hu.step hrt hlt hsize hl hs
    have hroute : NetworkOutline.route a peer (s.outline rt.transport).links = some k :=
      (route_outline rt.transport a peer s.links).trans hr
    simp only [NetworkOutline.step, hroute, hlink, Option.map_some]
    simp only [outline, hupdate]
    rfl
  | @link k act l ces c _ hl hs =>
    have hlink := hu.step hrt hlt hsize hl hs
    have hnone : wires (ces.map (.link k l.target) ++ (processAll rt (cfg l.target).shaper (Connection.arrived ces)
        (s.inboxes l.target)).1.map (.inbox l.target) : List (NetworkEvent N Addr)) = [] := by
      refine wires_of_links fun e he b e' heq => ?_
      subst heq
      simp at he
    rw [hnone]
    simp only [NetworkOutline.step, hlink, Option.map_some]
    rfl
  | inbox => cases ha

/-- **A run of a network, seen by an observer, is one of a network without lanes.** -/
theorem wires_run (hscope : ∀ a, (cfg a).scope ≠ .global) (htimed : ∀ a, SystemState.passthrough (cfg a).shaper = false)
    (hcg : ∀ a, (cg a).Sized (cfg a).toShapeConfig) {sch : N → Scheduler Addr w} {gen : N → G}
    {as : List (NetworkAct N Addr)} (h : Run (Step rt cfg cg) (start rt sch gen) as tr s) :
    Run (stepOf (NetworkOutline.step cfg)) ⟨fun a => ⟨sch a, ∅, .idle⟩, []⟩ (as.filter NetworkAct.visible) (wires tr)
      (s.outline rt.transport) :=
  h.observed (outline rt.transport) wires NetworkAct.visible (J := Uniform rt cfg) rfl wires_append
    (uniform_run hrt hlt hsize hcg)
    (fun _ hs ha => wires_hidden (does_of_step hs) ha)
    fun hu hs ha => wires_shown hrt hlt hsize hscope htimed hcg hu (does_of_step hs) ha

/-- **What the wires show.** In a network of nodes with frames of one size, under timed strategies in
`PerConnection` scope, take two runs with the same random offsets in which the connections, the
schedulers and the tasks of the links move in the same way; let the applications submit, relay and
receive what they like and when they like in each, and let the cover generators differ. At the end of
both, and so at any time, the same links are up, with as many messages in their queues and as many
bytes on their wires; and until then every node has handed to its writer frames of the same sizes for
the same addresses, in the same order. -/
theorem network_noninterference (hscope : ∀ a, (cfg a).scope ≠ .global)
    (htimed : ∀ a, SystemState.passthrough (cfg a).shaper = false) (hcg : ∀ a, (cg a).Sized (cfg a).toShapeConfig)
    (hcg' : ∀ a, (cg' a).Sized (cfg a).toShapeConfig) {sch : N → Scheduler Addr w} {gen : N → G} {gen' : N → G'}
    {as bs : List (NetworkAct N Addr)} {tr' : List (NetworkEvent N Addr)} {s' : Network N Addr G' σ κ ς χ w}
    (h : Run (Step rt cfg cg) (start rt sch gen) as tr s) (h' : Run (Step rt cfg cg') (start rt sch gen') bs tr' s')
    (hvisible : as.filter NetworkAct.visible = bs.filter NetworkAct.visible) :
    wires tr = wires tr' ∧ s.outline rt.transport = s'.outline rt.transport := by
  have hrun := wires_run hrt hlt hsize hscope htimed hcg h
  rw [hvisible] at hrun
  exact hrun.unique (wires_run hrt hlt hsize hscope htimed hcg' h')

omit hrt hlt hsize in
/-- A tick, with cover in one of the runs, and in the other with a frame submitted in the middle of it, for
somebody who is told of it. -/
theorem network_noninterference_tick :
    let cfg : Bool → NodeConfig := fun _ => { scope := .perConnection true, frameSize := 32, accepted := by decide }
    let s₀ : PlainNetwork Bool ℕ (Stream' UInt8) :=
      start .plain (fun _ => { rng := Stream'.const 1 }) fun _ => Stream'.const 5
    let rest : List (NetworkAct Bool ℕ) :=
      [.node false .sched [], .node false .sched [], .link 0 .write, .link 0 (.read 36)]
    let as : List (NetworkAct Bool ℕ) :=
      [.connect false 1 true, .node false .wake [], .node false (.snapshot [1]) [], .node false .sched [],
        .node false .sched [], .node false .sched []] ++ rest
    let bs : List (NetworkAct Bool ℕ) :=
      [.inbox true .subscribe, .connect false 1 true, .node false .wake [], .node false (.snapshot [1]) [],
        .node false .sched [], .node false .sched [], .node false .sched [],
        .node false (.enqueue .high (.unicast 1) (List.replicate 32 7)) [], .node false (.producer 0) []] ++ rest ++
        [.inbox true (.recv 0)]
    ∃ tr s tr' s', Run (Step .plain cfg fun _ => randomCover) s₀ as tr s ∧
      Run (Step .plain cfg fun _ => randomCover) s₀ bs tr' s' ∧
      arrivedAt true tr = [(0, List.replicate 32 5)] ∧ arrivedAt true tr' = [(0, List.replicate 32 7)] ∧
      wires tr = wires tr' ∧ s.outline .plain = s'.outline .plain := by
  intro cfg s₀ rest as bs
  obtain ⟨tr, s, h, harrived⟩ : ∃ tr s, Run (Step .plain cfg fun _ => randomCover) s₀ as tr s ∧
      arrivedAt true tr = [(0, List.replicate 32 5)] := exists_run_of_exec (by decide +kernel)
  obtain ⟨tr', s', h', harrived'⟩ : ∃ tr s, Run (Step .plain cfg fun _ => randomCover) s₀ bs tr s ∧
      arrivedAt true tr = [(0, List.replicate 32 7)] := exists_run_of_exec (by decide +kernel)
  have hsized : ∀ a : Bool, randomCover.Sized (cfg a).toShapeConfig := fun a => randomCover_sized (by decide)
  exact ⟨tr, s, tr', s', h, h', harrived, harrived', network_noninterference Runtime.plain_documented
    (fun _ => by decide) (fun _ _ => rfl) (fun _ => by decide) (fun _ => rfl) hsized hsized h h' (by decide)⟩

end Documented

end Peashape.Network
