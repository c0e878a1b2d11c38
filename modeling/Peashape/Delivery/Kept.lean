import Peashape.Delivery.Links
import Peashape.Shaping.Numbering

/-!
# A connection that stays up

From the moment a connection comes up, for as long as neither end closes it and `unicast_fast`
refuses nothing (`Keeps`), it loses nothing: everything its node hands to the writer for its
address arrives, but for what is on its way or in the queue (`delivered_all`).

Where nothing keeps a result of the cover generator from it, what arrives is an unbroken row of
these results (`arrived_row`), which counts if the generator numbers them (`row_counts`).
-/

namespace Peashape.Network

open Foundation Codec Shaping

variable {N Addr G σ κ ς χ : Type*} {w : ℕ} [DecidableEq N] [DecidableEq Addr] {rt : Runtime σ κ ς χ}
  {cfg : N → NodeConfig} {cg : N → CoverGenerator G} {s s' : Network N Addr G σ κ ς χ w} {act : NetworkAct N Addr}
  {es tr : List (NetworkEvent N Addr)} {k : ℕ}

/-- What leaves link `k`, which node `a` has up under an address, up at both ends, and refuses
nothing of what node `a` sends. -/
def Keeps (a : N) (peer : Addr) (k : ℕ) : NetworkAct N Addr → Prop
  | .node b _ refused => b = a → refused = []
  | .disconnect b p => ¬(b = a ∧ p = peer)
  | .link j act => ¬(j = k ∧ act = .close)
  | _ => True

instance (a : N) (peer : Addr) (k : ℕ) : ∀ act : NetworkAct N Addr, Decidable (Keeps a peer k act)
  | .node b _ refused => inferInstanceAs (Decidable (b = a → refused = []))
  | .connect _ _ _ => inferInstanceAs (Decidable True)
  | .disconnect b p => inferInstanceAs (Decidable (¬(b = a ∧ p = peer)))
  | .link j act => inferInstanceAs (Decidable (¬(j = k ∧ act = .close)))
  | .inbox _ _ => inferInstanceAs (Decidable True)

/-- **A link that is kept up**, with what happened since it came up. -/
structure Kept (a : N) (peer : Addr) (b : N) (k : ℕ) (tr : List (NetworkEvent N Addr))
    (s : Network N Addr G σ κ ς χ w) :
    Prop where
  /-- It is the one node `a` has up under the address. -/
  route : route a peer s.links = some k
  /-- It leads to node `b`, where it is up too. -/
  ends : (s.links[k]?).map (fun l => (l.target, l.listening)) = some (b, true)
  /-- It was handed everything node `a` handed to the writer for the address. -/
  handed : handedTo k tr = offered peer (sends (atNode a tr))

/-- A link that just came up. -/
theorem Kept.start {a b : N} {peer : Addr} (h : Step rt cfg cg s (.connect a peer b) es s') :
    Kept a peer b s.links.length ([] : List (NetworkEvent N Addr)) s' := by
  cases does_of_step h with
  | connect hr =>
    refine ⟨?_, by simp [newLink, Connection.start], rfl⟩
    have hnew : Carries a peer (newLink rt cfg a peer b) := ⟨rfl, rfl, rfl⟩
    rw [Network.route, List.findIdx?_append]
    rw [Network.route] at hr
    simp [hr, hnew]

section Documented

variable (hrt : rt.Documented) (hlt : ∀ a, (cfg a).frameSize < 2 ^ 32)

include hrt hlt

/-- The receiving end of a link stays up. -/
theorem ends_does {tr₀ : List (NetworkEvent N Addr)} (hi : LinksInv rt cfg tr₀ s) {a b : N} {peer : Addr}
    (hroute : route a peer s.links = some k) (hends : (s.links[k]?).map (fun l => (l.target, l.listening)) = some (b, true))
    (hsize : (cfg a).frameSize = (cfg b).frameSize) (hkeep : Keeps a peer k act) (h : Does rt cfg cg s act es s') :
    (s'.links[k]?).map (fun l => (l.target, l.listening)) = some (b, true) := by
  obtain ⟨l, hl, hsource, hpeer, -⟩ := route_eq_some hroute
  rw [hl, Option.map_some, Option.some.injEq, Prod.mk.injEq] at hends
  obtain ⟨rfl, hlisten⟩ := hends
  subst hsource hpeer
  cases h with
  | @node c act refused es n _ _ =>
    have hspec := sentAll rt c (sends es) refused s.links
    obtain ⟨-, c', -, hl'⟩ := hspec.run.run k l hl
    have hl'' := hspec.listening k
    rw [hl', hl, Option.map_some, Option.map_some, hlisten] at hl''
    rw [hl', Option.map_some, Option.some.inj hl'']
  | connect _ =>
    rw [List.getElem?_append_left (List.getElem?_eq_some_iff.mp hl).1, hl, Option.map_some, hlisten]
  | @disconnect c q j l' c' _ hl' hs =>
    have hset : ((s.links.set j { l' with toConnection := c' })[k]?).map (fun l => (l.target, l.listening)) =
        (s.links[k]?).map (fun l => (l.target, l.listening)) := map_set_of_eq _ hl' (by cases hs; rfl) k
    exact hset.trans (by rw [hl, Option.map_some, hlisten])
  | @link j act l' es c ha hl' hs =>
    by_cases hj : j = k
    · subst hj
      obtain rfl : l = l' := Option.some.inj (hl.symm.trans hl')
      have hclose : act ≠ .close := fun hclose => hkeep ⟨rfl, hclose⟩
      have hacc := hi.accounted hrt hlt hl hsize
      have hle : (cfg l.source).frameSize ≤ (cfg l.target).maxFrameSize := hsize ▸ (cfg l.target).frameSize_le
      have hopen := hacc.listening hrt.transport hrt.framing (cfg l.source).frameSize_pos
        (cfg l.source).frameSize_le hle (hlt _) hs hclose hlisten
      rw [List.getElem?_set_self (List.getElem?_eq_some_iff.mp hl).1, Option.map_some, hopen]
    · rw [List.getElem?_set_ne hj, hl, Option.map_some, hlisten]
  | inbox _ _ => rw [hl, Option.map_some, hlisten]

omit hrt hlt in
/-- The link stays the one its node has up under its address. -/
theorem route_does {a : N} {peer : Addr} (hroute : route a peer s.links = some k) (hkeep : Keeps a peer k act)
    (h : Does rt cfg cg s act es s') : route a peer s'.links = some k := by
  cases h with
  | @node c act refused es n _ _ => exact ((sentAll rt c (sends es) refused s.links).route a peer).trans hroute
  | connect _ =>
    rw [route, List.findIdx?_append]
    rw [route] at hroute
    rw [hroute]
    rfl
  | @disconnect c q j l c' hr hl hs =>
    obtain ⟨l', hl', hsource, hpeer, -⟩ := route_eq_some hr
    obtain rfl : l = l' := Option.some.inj (hl.symm.trans hl')
    have hother : ¬(l.source = a ∧ l.peer = peer) := by rwa [hsource, hpeer]
    refine (route_set hl ?_).trans hroute
    exact iff_of_false (fun hc => hother ⟨hc.1, hc.2.1⟩) fun hc => hother ⟨hc.1, hc.2.1⟩
  | @link j act l es c ha hl hs =>
    refine (route_set hl ?_).trans hroute
    have hup : c.up = l.up := (Connection.own_step ha hs).2
    simp [Carries, hup]
  | inbox _ _ => exact hroute

omit hrt hlt in
/-- It is handed what its node hands to the writer for its address. -/
theorem handedTo_does {a : N} {peer : Addr} (hroute : route a peer s.links = some k) (hkeep : Keeps a peer k act)
    (h : Does rt cfg cg s act es s') : handedTo k es = offered peer (sends (atNode a es)) := by
  obtain ⟨l, hl, hsource, hpeer, -⟩ := route_eq_some hroute
  have hsub := handed_does h hl
  rw [hsource, hpeer] at hsub
  cases h with
  | @node c act refused es n _ _ =>
    by_cases hc : c = a
    · subst hc
      obtain rfl : refused = [] := hkeep rfl
      rw [handedTo_append, handedTo_map_node, List.nil_append, handedTo_sendAll _ hroute, atNode_append,
        atNode_map_node, if_pos rfl, ((sentAll rt c (sends es) [] s.links).silent c).1, List.append_nil]
    · rw [atNode_append, atNode_map_node, if_neg hc, ((sentAll rt c (sends es) refused s.links).silent a).1] at hsub ⊢
      exact List.sublist_nil.mp hsub
  | connect _ => rfl
  | disconnect _ _ _ => rfl
  | @link j act l' es c ha hl' hs =>
    rw [atNode_append, atNode_map_link, atNode_map_inbox] at hsub ⊢
    exact List.sublist_nil.mp hsub
  | inbox _ _ =>
    rw [atNode_map_inbox] at hsub ⊢
    exact List.sublist_nil.mp hsub

/-- A step keeps the link so. -/
theorem Kept.does {tr₀ : List (NetworkEvent N Addr)} (hi : LinksInv rt cfg tr₀ s) {a b : N} {peer : Addr}
    (hk : Kept a peer b k tr s) (hsize : (cfg a).frameSize = (cfg b).frameSize) (hkeep : Keeps a peer k act)
    (h : Does rt cfg cg s act es s') : Kept a peer b k (tr ++ es) s' where
  route := route_does hk.route hkeep h
  ends := ends_does hrt hlt hi hk.route hk.ends hsize hkeep h
  handed := by
    rw [handedTo_append, hk.handed, handedTo_does hk.route hkeep h, atNode_append, sends_append, offered_append]

/-- From the moment it came up. -/
theorem kept_run {sch : N → Scheduler Addr w} {gen : N → G} {as₁ as : List (NetworkAct N Addr)}
    {tr₁ : List (NetworkEvent N Addr)} {s₁ s₂ : Network N Addr G σ κ ς χ w} {a b : N} {peer : Addr}
    (hsize : (cfg a).frameSize = (cfg b).frameSize) (before : Run (Step rt cfg cg) (start rt sch gen) as₁ tr₁ s₁)
    (hc : Step rt cfg cg s₁ (.connect a peer b) [] s₂) (after : Run (Step rt cfg cg) s₂ as tr s)
    (hkeep : ∀ act ∈ as, Keeps a peer s₁.links.length act) : Kept a peer b s₁.links.length tr s := by
  induction after with
  | nil => exact .start hc
  | @snoc as tr s act es s' hrun hs ih =>
    have hi := linksInv_run ((before.trans (.single hc)).trans hrun)
    have ih := ih fun x hx => hkeep x (List.mem_append_left _ hx)
    exact ih.does hrt hlt hi hsize (hkeep act (List.mem_append_right _ (List.mem_singleton_self act))) (does_of_step hs)

/-- Where everything is that was handed to the writer, if it has the right size. -/
theorem Kept.split {tr₀ : List (NetworkEvent N Addr)} (hi : LinksInv rt cfg (tr₀ ++ tr) s) (hquiet : atLink k tr₀ = [])
    {a b : N} {peer : Addr} (hk : Kept a peer b k tr s) (hsize : (cfg a).frameSize = (cfg b).frameSize)
    (hall : ∀ y ∈ offered peer (sends (atNode a tr)), y.length = (cfg a).frameSize) :
    ∃ l flying, s.links[k]? = some l ∧ l.source = a ∧ l.peer = peer ∧ l.target = b ∧
      offered peer (sends (atNode a tr)) =
        Connection.arrived (atLink k tr) ++ flying ++ rt.transport.queued l.outbox ∧
      unread rt.framing l.reader l.buffer ++ rt.transport.onTheWay l.wire = Framing.frames flying ∧
      (rt.transport.onTheWay l.wire = [] → flying = []) := by
  obtain ⟨l, hl, rfl, rfl, hup⟩ := route_eq_some hk.route
  have hends := hk.ends
  rw [hl, Option.map_some, Option.some.injEq, Prod.mk.injEq] at hends
  obtain ⟨rfl, hlisten⟩ := hends
  have hacc := hi.accounted hrt hlt hl hsize
  rw [atLink_append, hquiet, List.nil_append] at hacc
  obtain ⟨flying, lost, hsplit⟩ := hacc.whole
  obtain rfl := hsplit.lost hup
  rw [← hk.handed] at hall
  have hhanded : sizedItems (cfg l.source).frameSize (handedTo k tr) = handedTo k tr :=
    List.filter_eq_self.mpr fun y hy => decide_eq_true (hall y hy)
  have hbox : sizedItems (cfg l.source).frameSize (rt.transport.queued l.outbox) = rt.transport.queued l.outbox :=
    List.filter_eq_self.mpr fun y hy => decide_eq_true (hall y (hacc.waiting y hy))
  refine ⟨l, flying, hl, rfl, rfl, rfl, ?_, hsplit.bytes hlisten, fun hwire => ?_⟩
  · rw [← hk.handed, ← hhanded, handedTo, hsplit.split, hbox, List.append_nil]
  · exact hacc.flying_eq_nil (hlt _) hlisten hwire hsplit

omit hrt hlt in
/-- What a node hands to the writer has the right size, if its generator keeps its contract. -/
theorem length_of_mem_offered {sch : N → Scheduler Addr w} {gen : N → G} {as : List (NetworkAct N Addr)} {a : N}
    (hcg : (cg a).Sized (cfg a).toShapeConfig) {tr₀ : List (NetworkEvent N Addr)}
    (h : Run (Step rt cfg cg) (start rt sch gen) as (tr₀ ++ tr) s) (peer : Addr) :
    ∀ y ∈ offered peer (sends (atNode a tr)), y.length = (cfg a).frameSize := fun y hy => by
  obtain ⟨x, hx, rfl⟩ := List.mem_map.mp hy
  obtain ⟨bs, hrun⟩ := run_node h a
  refine sendsSized_run hcg hrun x ?_
  rw [atNode_append, sends_append]
  exact List.mem_append_right _ (List.mem_filter.mp hx).1

/-- **While a connection is up and refuses nothing, nothing is lost on it.** Over any run of a
network, from the moment a connection between nodes with frames of one size comes up, for as
long as neither end closes it and `unicast_fast` refuses nothing: the frames its node handed to
the writer for its address have arrived, in order and each once, but for the last of them, which
are on their way or wait in the queue. When both are empty, all have arrived. -/
theorem delivered_all {sch : N → Scheduler Addr w} {gen : N → G} {as₁ as : List (NetworkAct N Addr)}
    {tr₁ : List (NetworkEvent N Addr)} {s₁ s₂ : Network N Addr G σ κ ς χ w} {a b : N} {peer : Addr}
    (hcg : (cg a).Sized (cfg a).toShapeConfig) (hsize : (cfg a).frameSize = (cfg b).frameSize)
    (before : Run (Step rt cfg cg) (start rt sch gen) as₁ tr₁ s₁) (hc : Step rt cfg cg s₁ (.connect a peer b) [] s₂)
    (after : Run (Step rt cfg cg) s₂ as tr s) (hkeep : ∀ act ∈ as, Keeps a peer s₁.links.length act) :
    ∃ l flying, s.links[s₁.links.length]? = some l ∧ l.source = a ∧ l.peer = peer ∧ l.target = b ∧
      offered peer (sends (atNode a tr)) =
        Connection.arrived (atLink s₁.links.length tr) ++ flying ++ rt.transport.queued l.outbox ∧
      unread rt.framing l.reader l.buffer ++ rt.transport.onTheWay l.wire = Framing.frames flying ∧
      (rt.transport.onTheWay l.wire = [] → flying = []) := by
  have hrun := (before.trans (.single hc)).trans after
  rw [List.append_nil] at hrun
  have hkept := kept_run hrt hlt hsize before hc after hkeep
  have hquiet := (linksInv_run before).quiet s₁.links.length le_rfl
  exact hkept.split hrt hlt (linksInv_run hrun) hquiet hsize (length_of_mem_offered hcg hrun peer)

omit hrt hlt in
/-- Two ticks, and the first of the two frames has arrived. -/
theorem delivered_all_two :
    let cfg : Bool → NodeConfig := fun _ => { frameSize := 32, accepted := by decide }
    let s₀ : PlainNetwork Bool ℕ (Stream' UInt8) :=
      start .plain (fun _ => { rng := Stream'.const 1 }) fun _ => Stream'.const 5
    let tick : List (NetworkAct Bool ℕ) :=
      [.node false .wake [], .node false (.snapshot [1]) [], .node false .sched [], .node false .sched [],
        .node false .sched []]
    let acts : List (NetworkAct Bool ℕ) := tick ++ tick ++ [.link 0 .write, .link 0 (.read 40)]
    ∃ (s₂ : PlainNetwork Bool ℕ (Stream' UInt8)) (tr : List (NetworkEvent Bool ℕ))
      (s : PlainNetwork Bool ℕ (Stream' UInt8)),
      Step .plain cfg (fun _ => randomCover) s₀ (.connect false 1 true) [] s₂ ∧
      Run (Step .plain cfg fun _ => randomCover) s₂ acts tr s ∧
      Connection.arrived (atLink 0 tr) = [List.replicate 32 5] ∧
      ∃ l flying, s.links[0]? = some l ∧ l.source = false ∧ l.peer = 1 ∧ l.target = true ∧
        offered 1 (sends (atNode false tr)) = Connection.arrived (atLink 0 tr) ++ flying ++ l.outbox ∧
        unread plain l.reader l.buffer ++ l.wire = Framing.frames flying ∧ (l.wire = [] → flying = []) := by
  intro cfg s₀ tick acts
  have hsized : randomCover.Sized (cfg false).toShapeConfig := randomCover_sized (by decide)
  obtain ⟨s₂, hc, tr, s, after, harrived⟩ :
      ∃ s₂, Step .plain cfg (fun _ => randomCover) s₀ (.connect false 1 true) [] s₂ ∧
        ∃ tr s, Run (Step .plain cfg fun _ => randomCover) s₂ acts tr s ∧
          Connection.arrived (atLink 0 tr) = [List.replicate 32 5] := ⟨_, rfl, exists_run_of_exec (by decide)⟩
  have before : Run (Step .plain cfg fun _ => randomCover) s₀ [] [] s₀ := .nil
  have hsize : (cfg false).frameSize = (cfg true).frameSize := rfl
  have hkeep : ∀ act ∈ acts, Keeps false 1 s₀.links.length act := by decide
  exact ⟨s₂, tr, s, hc, after, harrived,
    delivered_all Runtime.plain_documented (fun _ => by decide) hsized hsize before hc after hkeep⟩

/-! ### An unbroken row -/

omit hrt hlt in
/-- The node at the sending end has the peer, in every snapshot it takes. -/
theorem snapshot_does {a : N} {peer : Addr} (hp : peer ∈ (s.nodes a).connected) (hkeep : Keeps a peer k act)
    (h : Does rt cfg cg s act es s') : peer ∈ (s'.nodes a).connected ∧
      ∀ peers, .snapshot peers ∈ atNode a es → peer ∈ peers := by
  cases h with
  | @node c act refused es n ha hs =>
    by_cases hc : c = a
    · subst hc
      have hdoes := SystemState.does_of_step hs
      have hsame : n.connected = (s.nodes c).connected := by cases hdoes <;> first | rfl | cases ha
      simp only [Function.update_self, hsame]
      refine ⟨hp, fun peers hmem => ?_⟩
      rw [atNode_append, atNode_map_node, if_pos rfl, ((sentAll rt c (sends es) refused s.links).silent c).1,
        List.append_nil] at hmem
      rw [← toFinset_of_snapshot hdoes hmem] at hp
      exact List.mem_toFinset.mp hp
    · simp only [Function.update_of_ne (Ne.symm hc)]
      refine ⟨hp, fun peers hmem => ?_⟩
      rw [atNode_append, atNode_map_node, if_neg hc, ((sentAll rt c (sends es) refused s.links).silent a).1] at hmem
      exact absurd hmem List.not_mem_nil
  | @connect c q b _ =>
    refine ⟨?_, fun _ hmem => absurd hmem List.not_mem_nil⟩
    by_cases hc : c = a
    · subst hc
      simp only [Function.update_self]
      exact Finset.mem_insert_of_mem hp
    · simp only [Function.update_of_ne (Ne.symm hc)]
      exact hp
  | @disconnect c q j l c' _ _ _ =>
    refine ⟨?_, fun _ hmem => absurd hmem List.not_mem_nil⟩
    by_cases hc : c = a
    · subst hc
      simp only [Function.update_self]
      exact Finset.mem_erase.mpr ⟨fun hq => hkeep ⟨rfl, hq.symm⟩, hp⟩
    · simp only [Function.update_of_ne (Ne.symm hc)]
      exact hp
  | @link j act l es c _ _ _ =>
    refine ⟨hp, fun _ hmem => ?_⟩
    rw [atNode_append, atNode_map_link, atNode_map_inbox] at hmem
    exact absurd hmem List.not_mem_nil
  | @inbox b act es inbox _ _ =>
    refine ⟨hp, fun _ hmem => ?_⟩
    rw [atNode_map_inbox] at hmem
    exact absurd hmem List.not_mem_nil

omit hrt hlt in
/-- Over the whole time. -/
theorem snapshot_run {s₁ s₂ : Network N Addr G σ κ ς χ w} {a b : N} {peer : Addr} {as : List (NetworkAct N Addr)}
    (hc : Step rt cfg cg s₁ (.connect a peer b) [] s₂) (after : Run (Step rt cfg cg) s₂ as tr s)
    (hkeep : ∀ act ∈ as, Keeps a peer k act) : peer ∈ (s.nodes a).connected ∧
      ∀ peers, .snapshot peers ∈ atNode a tr → peer ∈ peers := by
  induction after with
  | nil =>
    refine ⟨?_, fun _ hmem => absurd hmem List.not_mem_nil⟩
    cases does_of_step hc
    simp
  | @snoc as tr s act es s' hrun hs ih =>
    obtain ⟨hp, hsnap⟩ := ih fun x hx => hkeep x (List.mem_append_left _ hx)
    obtain ⟨hp', hsnap'⟩ := snapshot_does hp (hkeep act (List.mem_append_right _ (List.mem_singleton_self act)))
      (does_of_step hs)
    refine ⟨hp', fun peers hmem => ?_⟩
    rw [atNode_append, List.mem_append] at hmem
    exact hmem.elim (hsnap peers) (hsnap' peers)

/-- What arrives is an unbroken row of the generator's results. Over any run of a network,
from the moment a connection between nodes with frames of one size comes up, for as long as
neither end closes it and `unicast_fast` refuses nothing: if in the whole run nothing keeps a
result of the cover generator from this peer, and a `PerConnection` node is not in passthrough,
what arrives are so many results of the generator, one after another, cover and real alike. -/
theorem arrived_row {sch : N → Scheduler Addr w} {gen : N → G} {as₁ as : List (NetworkAct N Addr)}
    {tr₁ : List (NetworkEvent N Addr)} {s₁ s₂ : Network N Addr G σ κ ς χ w} {a b : N} {peer : Addr}
    (hcg : (cg a).Sized (cfg a).toShapeConfig) (hsize : (cfg a).frameSize = (cfg b).frameSize)
    (hpass : (cfg a).scope ≠ .global → (cfg a).strategy ≠ .none)
    (before : Run (Step rt cfg cg) (start rt sch gen) as₁ tr₁ s₁) (hc : Step rt cfg cg s₁ (.connect a peer b) [] s₂)
    (after : Run (Step rt cfg cg) s₂ as tr s) (hkeep : ∀ act ∈ as, Keeps a peer s₁.links.length act)
    (hrow : ∀ e ∈ atNode a (tr₁ ++ tr), Undivided (cfg a).shaper peer e) :
    Connection.arrived (atLink s₁.links.length tr) <:+: (genResults (atNode a tr)).map PendingFrame.bytes := by
  have hrun := (before.trans (.single hc)).trans after
  rw [List.append_nil] at hrun
  have hkept := kept_run hrt hlt hsize before hc after hkeep
  have hquiet := (linksInv_run before).quiet s₁.links.length le_rfl
  obtain ⟨l, flying, -, -, -, -, hsplit, -, -⟩ := hkept.split hrt hlt (linksInv_run hrun) hquiet hsize
    (length_of_mem_offered hcg hrun peer)
  obtain ⟨bs₁, before'⟩ := run_node (before.trans (.single hc)) a
  obtain ⟨bs, after', -⟩ := nodes_run after a
  rw [List.append_nil] at before'
  have hsent := sentTo_suffix (fun hscope => decide_eq_false (hpass hscope)) before' after'
    (by rw [← atNode_append]; exact hrow) (snapshot_run hc after hkeep).2
  have hoffered : offered peer (sends (atNode a tr)) = (sentTo peer (atNode a tr)).map PendingFrame.bytes := by
    rw [sentTo, List.map_map]
    rfl
  have hprefix : Connection.arrived (atLink s₁.links.length tr) <+: offered peer (sends (atNode a tr)) := by
    rw [hsplit, List.append_assoc]
    exact List.prefix_append _ _
  rw [hoffered] at hprefix
  exact hprefix.isInfix.trans (hsent.map PendingFrame.bytes).isInfix

/-- What arrives, and any unbroken row of it, counts, if the generator numbers its results. -/
theorem row_counts {H : Type*} {read : Bytes → Option H} {next : G → H} {succ : H → H} {sch : N → Scheduler Addr w}
    {gen : N → G} {as₁ as : List (NetworkAct N Addr)} {tr₁ : List (NetworkEvent N Addr)}
    {s₁ s₂ : Network N Addr G σ κ ς χ w} {a b : N} {peer : Addr} {ys : List Bytes}
    (hn : Numbers (cg a) (cfg a).toShapeConfig read next succ)
    (hcg : (cg a).Sized (cfg a).toShapeConfig) (hsize : (cfg a).frameSize = (cfg b).frameSize)
    (hpass : (cfg a).scope ≠ .global → (cfg a).strategy ≠ .none)
    (before : Run (Step rt cfg cg) (start rt sch gen) as₁ tr₁ s₁) (hc : Step rt cfg cg s₁ (.connect a peer b) [] s₂)
    (after : Run (Step rt cfg cg) s₂ as tr s) (hkeep : ∀ act ∈ as, Keeps a peer s₁.links.length act)
    (hrow : ∀ e ∈ atNode a (tr₁ ++ tr), Undivided (cfg a).shaper peer e)
    (hys : ys <:+: Connection.arrived (atLink s₁.links.length tr)) :
    ∃ n, Counts read succ (succ^[n] (next (gen a))) ys := by
  have hresults := hys.trans (arrived_row hrt hlt hcg hsize hpass before hc after hkeep hrow)
  obtain ⟨bs, hrun⟩ := run_node ((before.trans (.single hc)).trans after) a
  have hcount := (counts_run hn hrun).1
  rw [List.append_nil, atNode_append, genResults_append, counts_append_iff] at hcount
  obtain ⟨m, hm⟩ := ((counts_map_iff PendingFrame.bytes).mpr hcount.2).stretch hresults
  exact ⟨m + (genResults (atNode a tr₁)).length, by rwa [Function.iterate_add_apply]⟩

end Documented

end Peashape.Network
