import Peashape.Delivery.Links
import Peashape.Shaping.Ordering

/-!
# From one node to the subscribers of another

Over any run of a network: the frames a subscriber is told of are frames that other nodes
handed to their writers for the connections that lead here. Of each connection it is told in
order and of each frame once, so that it is told of no call at the other end twice, and of the
high ones in the order they were accepted in (`delivered_in_order`). Every one of them is cover
of the node at the other end, or a frame that was accepted there for this connection or for
everyone (`delivered_sent`).
-/

namespace Peashape.Network

open Foundation Codec Shaping Lagging

variable {N Addr G σ κ ς χ : Type*} {w : ℕ} [DecidableEq N] [DecidableEq Addr] {rt : Runtime σ κ ς χ}
  {cfg : N → NodeConfig} {cg : N → CoverGenerator G} {s s' : Network N Addr G σ κ ς χ w} {act : NetworkAct N Addr}
  {es tr : List (NetworkEvent N Addr)} {k : ℕ} {l : Link N Addr σ κ ς}

omit [DecidableEq Addr] in
/-- What arrived at a node over a link. -/
theorem filter_arrivedAt (b : N) (k : ℕ) : ∀ tr : List (NetworkEvent N Addr),
    (((arrivedAt b tr).filter fun x => decide (x.1 = k)).map Prod.snd).Sublist (Connection.arrived (atLink k tr))
  | [] => .refl []
  | e :: tr => by
    have ih := filter_arrivedAt b k tr
    have hsplit : arrivedAt b (e :: tr) = arrivedAt b [e] ++ arrivedAt b tr := arrivedAt_append b [e] tr
    have hlink : atLink k (e :: tr) = atLink k [e] ++ atLink k tr := atLink_append k [e] tr
    rw [hsplit, hlink, List.filter_append, List.map_append, Connection.arrived_append]
    refine List.Sublist.append ?_ ih
    cases e with
    | node a e => exact List.nil_sublist _
    | inbox b' e => exact List.nil_sublist _
    | link j b' e =>
      have harrived : arrivedAt b ([.link j b' e] : List (NetworkEvent N Addr)) =
          if b' = b then (Connection.arrived [e]).map (Prod.mk j) else [] := arrivedAt_map_link b' b j [e]
      have hatLink : atLink k ([.link j b' e] : List (NetworkEvent N Addr)) = if j = k then [e] else [] :=
        atLink_map_link b' k j [e]
      rw [harrived, hatLink]
      by_cases hb : b' = b
      · by_cases hj : j = k
        · subst hj
          rw [if_pos hb, if_pos rfl, List.filter_map, List.map_map]
          simp [Function.comp_def]
        · rw [if_pos hb, if_neg hj, List.filter_map]
          simp [Function.comp_def, hj, Connection.arrived]
      · rw [if_neg hb]
        exact List.nil_sublist _

omit [DecidableEq Addr] in
/-- What arrives at a node arrives over a link to it. -/
theorem mem_arrivedAt {b : N} {x : ℕ × Bytes} (h : x ∈ arrivedAt b tr) : .link x.1 b (.arrived x.2) ∈ tr := by
  obtain ⟨e, he, hx⟩ := List.mem_filterMap.mp h
  cases e with
  | node a e => cases hx
  | inbox b' e => cases hx
  | link j b' e =>
    cases e with
    | arrived message =>
      by_cases hb : b' = b
      · subst hb
        simp only [if_pos, Option.some.injEq] at hx
        subst hx
        exact he
      · simp [hb] at hx
    | _ => cases hx

/-- What subscribers are told of arrived, in order and each once. -/
theorem values_sublist_arrivedAt (hrt : rt.Documented) {sch : N → Scheduler Addr w} {gen : N → G}
    {as : List (NetworkAct N Addr)} (h : Run (Step rt cfg cg) (start rt sch gen) as tr s) (b : N) (i : ℕ) :
    (values (told i (atInbox b tr))).Sublist ((arrivedAt b tr).map Prod.snd) := by
  obtain ⟨bs, hrun, hmessages⟩ := run_inbox h b
  rw [← hmessages]
  exact (Inbox.values_told_sublist (cfg b).shaper hrt.incoming hrun i).trans <|
    Inbox.frames_sublist_messages (cfg b).shaper bs

/-- No move writes a cache in which a peer is repeated. -/
def DistinctAt : NetworkAct N Addr → Prop
  | .node _ act _ => Distinct act
  | _ => True

instance : DecidablePred (DistinctAt : NetworkAct N Addr → Prop)
  | .node _ act _ => inferInstanceAs (Decidable (Distinct act))
  | .connect _ _ _ | .disconnect _ _ | .link _ _ | .inbox _ _ => inferInstanceAs (Decidable True)

omit [DecidableEq N] [DecidableEq Addr] in
/-- At a node. -/
theorem distinct_of_mem {as : List (NetworkAct N Addr)} (hd : ∀ x ∈ as, DistinctAt x) {a : N} {x : Act Addr}
    (hx : x.ofNode = true → ∃ refused, .node a x refused ∈ as) : Distinct x := by
  cases x with
  | refreshPcPeers peers =>
    obtain ⟨refused, hmem⟩ := hx rfl
    exact hd _ hmem
  | _ => trivial

/-- What is handed to the writer for an address. -/
theorem offered_eq_map_sentTo (p : Addr) (tr : List (Event Addr)) :
    offered p (sends tr) = (sentTo p tr).map PendingFrame.bytes := by
  rw [offered, sentTo, List.map_map]
  rfl

section Documented

variable (hrt : rt.Documented) (hlt : ∀ a, (cfg a).frameSize < 2 ^ 32)

include hrt hlt

/-- **Delivery in order, and at most once.** Over any run of a network, the frames a subscriber
of node `b` is told of are so many arrivals over links to `b`, and those of each link are among
the frames its sending node handed to the writer for its address: in order, and each once. So
of each call there it is told once at most, and of high ones in the order they were accepted in,
unless an application wrote a cache with repetitions. -/
theorem delivered_in_order {sch : N → Scheduler Addr w} {gen : N → G} {as : List (NetworkAct N Addr)}
    (h : Run (Step rt cfg cg) (start rt sch gen) as tr s) (b : N) (i : ℕ) :
    ∃ arrivals : List (ℕ × Bytes), values (told i (atInbox b tr)) = arrivals.map Prod.snd ∧
      (∀ x ∈ arrivals, ∃ l, s.links[x.1]? = some l ∧ l.target = b) ∧
      ∀ k l, s.links[k]? = some l → ∃ fs : List (PendingFrame Addr),
        (arrivals.filter fun x => decide (x.1 = k)).map Prod.snd = fs.map PendingFrame.bytes ∧
        fs.Sublist (sentTo l.peer (atNode l.source tr)) ∧
        ((∀ x ∈ as, DistinctAt x) → (fs.filterMap callOf).Nodup ∧
          (fs.filterMap callOf).Pairwise (HighInOrder (atNode l.source tr))) := by
  have hi := linksInv_run h
  obtain ⟨arrivals, hsub, hvalues⟩ := List.sublist_map_iff.mp (values_sublist_arrivedAt hrt h b i)
  refine ⟨arrivals, hvalues, fun x hx => hi.target _ _ _ (mem_arrivedAt (hsub.subset hx)), fun k l hl => ?_⟩
  have hfilter := (hsub.filter fun x => decide (x.1 = k)).map Prod.snd
  have hoffered := ((hfilter.trans (filter_arrivedAt b k tr)).trans (hi.arrived_sublist hrt hlt hl)).trans
    (hi.handed k l hl)
  rw [offered_eq_map_sentTo] at hoffered
  obtain ⟨fs, hfs, hbytes⟩ := List.sublist_map_iff.mp hoffered
  refine ⟨fs, hbytes, hfs, fun hd => ?_⟩
  obtain ⟨bs, hrun, hacts⟩ := nodes_run h l.source
  have hsent := (hfs.filterMap callOf).trans (calls_sentTo_sublist hrun l.peer)
  have hdistinct : ∀ x ∈ bs, Distinct x := fun x hx => distinct_of_mem hd (hacts x hx)
  exact ⟨(nodup_calls_poppedFrom hrun hdistinct _).sublist hsent,
    (pairwise_calls_poppedFrom hrun hdistinct _).sublist hsent⟩

omit hrt hlt in
/-- A low frame, and then a high one that overtakes it. -/
theorem delivered_in_order_two :
    let cfg : Bool → NodeConfig := fun _ => { frameSize := 32, accepted := by decide }
    let s₀ : PlainNetwork Bool ℕ (Stream' UInt8) :=
      start .plain (fun _ => { rng := Stream'.const 1 }) fun _ => Stream'.const 5
    let acts : List (NetworkAct Bool ℕ) :=
      [.connect false 1 true, .inbox true .subscribe,
        .node false (.enqueue .low .broadcast (List.replicate 32 6)) [],
        .node false (.enqueue .high (.unicast 1) (List.replicate 32 7)) [],
        .node false .wake [], .node false (.snapshot [1]) [], .node false .sched [], .node false .sched [],
        .node false .wake [], .node false (.snapshot [1]) [], .node false .sched [], .node false .sched [],
        .node false .sched [], .link 0 .write, .link 0 .write, .link 0 (.read 72), .inbox true (.recv 0),
        .inbox true (.recv 0)]
    ∃ tr s, Run (Step .plain cfg fun _ => randomCover) s₀ acts tr s ∧
      values (told 0 (atInbox true tr)) = [List.replicate 32 7, List.replicate 32 6] ∧
      ∃ arrivals : List (ℕ × Bytes), values (told 0 (atInbox true tr)) = arrivals.map Prod.snd ∧
        (∀ x ∈ arrivals, ∃ l, s.links[x.1]? = some l ∧ l.target = true) ∧
        ∀ k l, s.links[k]? = some l → ∃ fs : List (PendingFrame ℕ),
          (arrivals.filter fun x => decide (x.1 = k)).map Prod.snd = fs.map PendingFrame.bytes ∧
          fs.Sublist (sentTo l.peer (atNode l.source tr)) ∧
          (fs.filterMap callOf).Nodup ∧ (fs.filterMap callOf).Pairwise (HighInOrder (atNode l.source tr)) := by
  intro cfg s₀ acts
  obtain ⟨tr, s, hrun, htold⟩ : ∃ tr s, Run (Step .plain cfg fun _ => randomCover) s₀ acts tr s ∧
      values (told 0 (atInbox true tr)) = [List.replicate 32 7, List.replicate 32 6] :=
    exists_run_of_exec (by decide +kernel)
  obtain ⟨arrivals, hvalues, hlinks, hframes⟩ :=
    delivered_in_order Runtime.plain_documented (fun _ => by decide) hrun true 0
  refine ⟨tr, s, hrun, htold, arrivals, hvalues, hlinks, fun k l hl => ?_⟩
  obtain ⟨fs, hbytes, hfs, hcalls⟩ := hframes k l hl
  exact ⟨fs, hbytes, hfs, hcalls (by decide)⟩

/-- What a subscriber is told was sent by a node with a connection that leads here. -/
theorem exists_send_of_told {sch : N → Scheduler Addr w} {gen : N → G} {as : List (NetworkAct N Addr)}
    (h : Run (Step rt cfg cg) (start rt sch gen) as tr s) {b : N} {i : ℕ} {y : Bytes}
    (hy : y ∈ values (told i (atInbox b tr))) : ∃ (k : ℕ) (l : Link N Addr σ κ ς) (f : PendingFrame Addr),
      s.links[k]? = some l ∧ l.target = b ∧ .send l.peer f ∈ atNode l.source tr ∧ f.bytes = y := by
  have hi := linksInv_run h
  obtain ⟨⟨k, y⟩, hx, rfl⟩ := List.mem_map.mp ((values_sublist_arrivedAt hrt h b i).subset hy)
  obtain ⟨l, hl, hb⟩ := hi.target _ _ _ (mem_arrivedAt hx)
  have hmem : y ∈ ((arrivedAt b tr).filter fun x => decide (x.1 = k)).map Prod.snd :=
    List.mem_map.mpr ⟨(k, y), List.mem_filter.mpr ⟨hx, decide_eq_true rfl⟩, rfl⟩
  have hoff := (hi.handed k l hl).subset ((hi.arrived_sublist hrt hlt hl).subset ((filter_arrivedAt b k tr).subset hmem))
  obtain ⟨⟨p, f⟩, hf, hbytes⟩ := List.mem_map.mp hoff
  obtain ⟨hsend, hp⟩ := List.mem_filter.mp hf
  obtain rfl : p = l.peer := of_decide_eq_true hp
  exact ⟨k, l, f, hl, hb, mem_sends_iff.mp hsend, hbytes⟩

/-- **Where delivered frames come from, and confidentiality across the network.** Over any run
of a network, a frame that a subscriber of node `b` is told of was handed to the writer by a
node with a connection to `b`, for the address of that connection. It is fresh cover of that
node, or what the node's generator made of a frame accepted there for this address or for
everyone; a frame accepted there for another address alone it is not. -/
theorem delivered_sent {sch : N → Scheduler Addr w} {gen : N → G} {as : List (NetworkAct N Addr)}
    (h : Run (Step rt cfg cg) (start rt sch gen) as tr s) {b : N} {i : ℕ} {y : Bytes}
    (hy : y ∈ values (told i (atInbox b tr))) : ∃ (k : ℕ) (l : Link N Addr σ κ ς) (f : PendingFrame Addr),
      s.links[k]? = some l ∧ l.target = b ∧ .send l.peer f ∈ atNode l.source tr ∧ f.bytes = y ∧
      Sent (cfg l.source).shaper (cg l.source) (atNode l.source tr) l.peer f ∧
      ∀ n lane p x, f.origin = .enqueued n → .accepted n lane (.unicast p) x ∈ atNode l.source tr → p = l.peer := by
  obtain ⟨k, l, f, hl, hb, hsend, hbytes⟩ := exists_send_of_told hrt hlt h hy
  obtain ⟨bs, hrun⟩ := run_node h l.source
  have hprov := provenance_run hrun
  refine ⟨k, l, f, hl, hb, hsend, hbytes, hprov.sends _ _ hsend, fun n lane p x horigin hacc => ?_⟩
  rcases hprov.sends _ _ hsend with ⟨hcover, -⟩ | ⟨m, lane', target, x', g, horigin', hacc', -, hallows⟩
  · rw [horigin] at hcover
    cases hcover
  · obtain rfl : n = m := Origin.enqueued.inj (horigin.symm.trans horigin')
    obtain ⟨-, rfl, -⟩ := hprov.unique n _ _ _ _ _ _ hacc hacc'
    exact hallows

omit hrt hlt in
/-- A frame that the application of one node submits, and a subscriber of the other is told of. -/
theorem delivered_sent_unicast :
    let cfg : Bool → NodeConfig := fun _ => { frameSize := 32, accepted := by decide }
    let s₀ : PlainNetwork Bool ℕ (Stream' UInt8) :=
      start .plain (fun _ => { rng := Stream'.const 1 }) fun _ => Stream'.const 5
    let acts : List (NetworkAct Bool ℕ) :=
      [.connect false 1 true, .inbox true .subscribe,
        .node false (.enqueue .high (.unicast 1) (List.replicate 32 7)) [], .node false .wake [],
        .node false (.snapshot [1]) [], .node false .sched [], .node false .sched [], .link 0 .write, .link 0 (.read 36),
        .inbox true (.recv 0)]
    ∃ tr s, Run (Step .plain cfg fun _ => randomCover) s₀ acts tr s ∧
      ∃ (k : ℕ) (l : PlainLink Bool ℕ) (f : PendingFrame ℕ),
        s.links[k]? = some l ∧ l.target = true ∧ .send l.peer f ∈ atNode l.source tr ∧ f.bytes = List.replicate 32 7 ∧
        Sent (cfg l.source).shaper randomCover (atNode l.source tr) l.peer f ∧
        ∀ n lane p x, f.origin = .enqueued n → .accepted n lane (.unicast p) x ∈ atNode l.source tr → p = l.peer := by
  intro cfg s₀ acts
  obtain ⟨tr, s, hrun, htold⟩ : ∃ tr s, Run (Step .plain cfg fun _ => randomCover) s₀ acts tr s ∧
      values (told 0 (atInbox true tr)) = [List.replicate 32 7] := exists_run_of_exec (by decide)
  exact ⟨tr, s, hrun,
    delivered_sent Runtime.plain_documented (fun _ => by decide) hrun (htold ▸ List.mem_singleton_self _)⟩

end Documented

end Peashape.Network
