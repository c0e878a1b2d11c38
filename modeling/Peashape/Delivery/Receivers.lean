import Peashape.Delivery.EndToEnd
import Peashape.Delivery.Kept
import Peashape.Delivery.Subscribers

/-!
# From the scheduler of one node to a subscriber of another

Along a connection that stays up, and on through the channel at its end, to one of any number of
subscribers. If no other connection leads to the node, everything that was handed to the writer
is accounted for (`told_all`): what arrived before the application subscribed, what it was told
of or missed, what waits for it in the channel, what is on its way, and what waits in the queue,
in this order and each once. The subscriber has missed nothing exactly if it was prompt.
-/

namespace Peashape.Network

open Foundation Codec Shaping Lagging

variable {N Addr G σ κ ς χ : Type*} {w : ℕ} [DecidableEq N] [DecidableEq Addr] {rt : Runtime σ κ ς χ}
  {cfg : N → NodeConfig} {cg : N → CoverGenerator G} {s : Network N Addr G σ κ ς χ w} {tr : List (NetworkEvent N Addr)}

omit [DecidableEq Addr] in
/-- What arrives in the mailbox of a subscriber is what is decoded at its node. -/
theorem arrivals_inputsAt (b : N) (i : ℕ) (tr : List (NetworkEvent N Addr)) :
    Mailbox.arrivals (inputsAt b i tr) = (arrivedAt b tr).map Prod.snd := by
  rw [Mailbox.arrivals, inputsAt, arrivedAt, List.filterMap_filterMap, List.map_filterMap]
  refine List.filterMap_congr fun e _ => ?_
  cases e with
  | node => rfl
  | link k b' e => cases e <;> first | rfl | (by_cases hb : b' = b <;> simp [hb, Mailbox.Input.arrival])
  | inbox b' e => cases e <;> first | rfl | (simp only [Option.map_none]; split_ifs <;> rfl)

omit [DecidableEq Addr] in
/-- Where one link leads to a node, and to no other one, what is decoded there came over it. -/
theorem arrivedAt_eq_arrived {b : N} {k : ℕ} : ∀ {tr : List (NetworkEvent N Addr)},
    (∀ j b' e, .link j b' e ∈ tr → (b' = b ↔ j = k)) →
      (arrivedAt b tr).map Prod.snd = Connection.arrived (atLink k tr)
  | [], _ => rfl
  | e :: tr, h => by
    have ih := arrivedAt_eq_arrived fun j b' e he => h j b' e (List.mem_cons_of_mem _ he)
    have hsplit : arrivedAt b (e :: tr) = arrivedAt b [e] ++ arrivedAt b tr := arrivedAt_append b [e] tr
    have hsplit' : atLink k (e :: tr) = atLink k [e] ++ atLink k tr := atLink_append k [e] tr
    rw [hsplit, hsplit', List.map_append, Connection.arrived_append, ih]
    congr 1
    cases e with
    | node => rfl
    | inbox => rfl
    | link j b' e =>
      have hiff := h j b' e (List.mem_cons_self ..)
      have harrived : arrivedAt b ([.link j b' e] : List (NetworkEvent N Addr)) =
          if b' = b then (Connection.arrived [e]).map (Prod.mk j) else [] := arrivedAt_map_link b' b j [e]
      have hlink : atLink k ([.link j b' e] : List (NetworkEvent N Addr)) = if j = k then [e] else [] :=
        atLink_map_link b' k j [e]
      rw [harrived, hlink]
      by_cases hb : b' = b
      · rw [if_pos hb, if_pos (hiff.mp hb), List.map_map]
        exact List.map_id _
      · rw [if_neg hb, if_neg (hb ∘ hiff.mpr)]
        rfl

/-- The number of the next receiver at a node. -/
def nextReceiver (rt : Runtime σ κ ς χ) (s : Network N Addr G σ κ ς χ w) (b : N) : ℕ :=
  (rt.incoming.cursors (s.inboxes b)).length

section Documented

variable (hrt : rt.Documented) (hlt : ∀ a, (cfg a).frameSize < 2 ^ 32)

include hrt hlt

/-- What is decoded at a node has the size of its frames. -/
theorem LinksInv.length_of_mem_arrivedAt (hi : LinksInv rt cfg tr s) {b : N} {x : ℕ × Bytes}
    (hx : x ∈ arrivedAt b tr) : x.2.length = (cfg b).frameSize := by
  have hlink := mem_arrivedAt hx
  obtain ⟨l, hl, rfl⟩ := hi.target _ _ _ hlink
  have harrived : x.2 ∈ Connection.arrived (atLink x.1 tr) :=
    List.mem_filterMap.mpr ⟨.arrived x.2, List.mem_filterMap.mpr ⟨_, hlink, by simp⟩, rfl⟩
  by_cases hsize : (cfg l.source).frameSize = (cfg l.target).frameSize
  · rw [← hsize]
    exact (hi.accounted hrt hlt hl hsize).sized _ harrived
  · rw [(hi.mismatched hrt hlt hl hsize).nothing] at harrived
    cases harrived

/-- What a subscriber is told accounts for what is decoded at its node, from the moment it
subscribed. -/
theorem accounts_told {sch : N → Scheduler Addr w} {gen : N → G} {as₁ as : List (NetworkAct N Addr)}
    {tr₁ : List (NetworkEvent N Addr)} {s₁ s₂ : Network N Addr G σ κ ς χ w} {b : N}
    (before : Run (Step rt cfg cg) (start rt sch gen) as₁ tr₁ s₁) (hsub : Step rt cfg cg s₁ (.inbox b .subscribe) [] s₂)
    (after : Run (Step rt cfg cg) s₂ as tr s) (hdrop : .inbox b (.drop (nextReceiver rt s₁ b)) ∉ as) :
    ∃ read waiting, (arrivedAt b tr).map Prod.snd = read ++ waiting ∧
      Accounts (told (nextReceiver rt s₁ b) (atInbox b tr)) read ∧
      (missed (told (nextReceiver rt s₁ b) (atInbox b tr)) = 0 ↔
        Prompt subscriberCapacity 0 (inputsAt b (nextReceiver rt s₁ b) tr)) := by
  have hi := linksInv_run ((before.trans (.single hsub)).trans after)
  rw [List.append_nil] at hi
  have hsize : ∀ x ∈ arrivedAt b tr, x.2.length = (cfg b).frameSize := fun x hx => by
    refine hi.length_of_mem_arrivedAt hrt hlt ?_
    rw [arrivedAt_append]
    exact List.mem_append_right _ hx
  obtain ⟨bs, after', hreceives⟩ := inboxes_run after b
  have hsubscribed : s₂.inboxes b = rt.incoming.subscribe (s₁.inboxes b) := by
    obtain ⟨-, rfl⟩ := Prod.mk.inj (Option.some.inj hsub)
    simp
  rw [hsubscribed] at after'
  have hdrop' : InboxAct.drop (nextReceiver rt s₁ b) ∉ bs := hreceives.drop _ hdrop
  have htold := (Inbox.run_serves hrt.incoming after' hdrop').2
  obtain ⟨read, hread, hacc⟩ := @serve_accounts _ subscriberCapacity (inputsAt b (nextReceiver rt s₁ b) tr) []
  rw [List.nil_append, arrivals_inputsAt] at hread
  rw [nextReceiver, htold, hreceives.inputs hsize]
  exact ⟨read, _, hread, hacc, missed_serve_eq_zero_iff _ []⟩

/-- **A subscriber at the end of a connection that stays up.** Over any run of a network, while
the connection of node `a` under `peer` to a node with frames of the same size is kept up, and no
other one leads there, an application subscribes and keeps its receiver. The frames that node `a`
handed to the writer for `peer` since the connection came up are, in order and each once: those
that arrived before it subscribed, those its answers account for, those that wait for it in the
channel, those on their way, and those in the queue. It missed none exactly if it never let more
than `SUBSCRIBER_CAPACITY` frames wait. -/
theorem told_all {sch : N → Scheduler Addr w} {gen : N → G} {as₁ as₂ as : List (NetworkAct N Addr)}
    {tr₁ tr₂ : List (NetworkEvent N Addr)} {s₁ s₂ s₃ s₄ : Network N Addr G σ κ ς χ w} {a b : N} {peer : Addr}
    (hcg : (cg a).Sized (cfg a).toShapeConfig) (hsize : (cfg a).frameSize = (cfg b).frameSize)
    (before : Run (Step rt cfg cg) (start rt sch gen) as₁ tr₁ s₁) (hc : Step rt cfg cg s₁ (.connect a peer b) [] s₂)
    (during : Run (Step rt cfg cg) s₂ as₂ tr₂ s₃) (hsub : Step rt cfg cg s₃ (.inbox b .subscribe) [] s₄)
    (after : Run (Step rt cfg cg) s₄ as tr s) (hkeep : ∀ act ∈ as₂ ++ as, Keeps a peer s₁.links.length act)
    (honly : ∀ j l, s.links[j]? = some l → l.target = b → j = s₁.links.length)
    (hdrop : .inbox b (.drop (nextReceiver rt s₃ b)) ∉ as) :
    ∃ l read waiting flying, s.links[s₁.links.length]? = some l ∧
      offered peer (sends (atNode a (tr₂ ++ tr))) =
        Connection.arrived (atLink s₁.links.length tr₂) ++ read ++ waiting ++ flying ++ rt.transport.queued l.outbox ∧
      Accounts (told (nextReceiver rt s₃ b) (atInbox b tr)) read ∧
      Codec.unread rt.framing l.reader l.buffer ++ rt.transport.onTheWay l.wire = Framing.frames flying ∧
      (missed (told (nextReceiver rt s₃ b) (atInbox b tr)) = 0 ↔
        Prompt subscriberCapacity 0 (inputsAt b (nextReceiver rt s₃ b) tr)) := by
  have hall : Run (Step rt cfg cg) s₂ (as₂ ++ [.inbox b .subscribe] ++ as) (tr₂ ++ tr) s := by
    have hrun := (during.trans (.single hsub)).trans after
    rwa [List.append_nil] at hrun
  have hkeep' : ∀ act ∈ as₂ ++ [.inbox b .subscribe] ++ as, Keeps a peer s₁.links.length act := fun act hact => by
    rw [List.append_assoc, List.mem_append, List.mem_append, List.mem_singleton] at hact
    rcases hact with hact | rfl | hact
    · exact hkeep act (List.mem_append_left _ hact)
    · trivial
    · exact hkeep act (List.mem_append_right _ hact)
  have hwhole := (before.trans (.single hc)).trans hall
  rw [List.append_nil] at hwhole
  have hi := linksInv_run hwhole
  have hkept := kept_run hrt hlt hsize before hc hall hkeep'
  obtain ⟨l, flying, hl, -, -, htarget, hsplit, hbytes, -⟩ := hkept.split hrt hlt hi
    ((linksInv_run before).quiet _ le_rfl) hsize (length_of_mem_offered hcg hwhole peer)
  have hbefore := (before.trans (.single hc)).trans during
  obtain ⟨read, waiting, hread, hacc, hmissed⟩ := accounts_told hrt hlt hbefore hsub after hdrop
  have hlink : ∀ j b' e, .link j b' e ∈ tr → (b' = b ↔ j = s₁.links.length) := fun j b' e he => by
    obtain ⟨l', hl', rfl⟩ := hi.target j b' e (List.mem_append_right _ (List.mem_append_right _ he))
    refine ⟨honly j l' hl', ?_⟩
    rintro rfl
    rw [← Option.some.inj (hl.symm.trans hl'), htarget]
  rw [arrivedAt_eq_arrived hlink] at hread
  refine ⟨l, read, waiting, flying, hl, ?_, hacc, hbytes, hmissed⟩
  rw [hsplit, atLink_append, Connection.arrived_append, hread]
  simp only [List.append_assoc]

omit hrt hlt in
/-- A subscriber that comes after the first frame arrived, is told of the second, and has the third
still to come. -/
theorem told_all_late :
    let cfg : Bool → NodeConfig := fun _ => { frameSize := 32, accepted := by decide }
    let s₀ : PlainNetwork Bool ℕ (Stream' UInt8) :=
      start .plain (fun _ => { rng := Stream'.const 1 }) fun _ => Stream'.const 5
    let tick : List (NetworkAct Bool ℕ) :=
      [.node false .wake [], .node false (.snapshot [1]) [], .node false .sched [], .node false .sched [],
        .node false .sched []]
    let as₂ : List (NetworkAct Bool ℕ) := tick ++ [.link 0 .write, .link 0 (.read 36)]
    let as : List (NetworkAct Bool ℕ) :=
      tick ++ tick ++ [.link 0 .write, .link 0 .write, .link 0 (.read 40), .inbox true (.recv 0)]
    ∃ (s₂ : PlainNetwork Bool ℕ (Stream' UInt8)) (tr₂ : List (NetworkEvent Bool ℕ))
      (s₃ s₄ : PlainNetwork Bool ℕ (Stream' UInt8)) (tr : List (NetworkEvent Bool ℕ))
      (s : PlainNetwork Bool ℕ (Stream' UInt8)),
      Step .plain cfg (fun _ => randomCover) s₀ (.connect false 1 true) [] s₂ ∧
      Run (Step .plain cfg fun _ => randomCover) s₂ as₂ tr₂ s₃ ∧
      Step .plain cfg (fun _ => randomCover) s₃ (.inbox true .subscribe) [] s₄ ∧
      Run (Step .plain cfg fun _ => randomCover) s₄ as tr s ∧
      Connection.arrived (atLink 0 tr₂) = [List.replicate 32 5] ∧
      told 0 (atInbox true tr) = [.value (List.replicate 32 5)] ∧
      ∃ l read waiting flying, s.links[0]? = some l ∧
        offered 1 (sends (atNode false (tr₂ ++ tr))) =
          Connection.arrived (atLink 0 tr₂) ++ read ++ waiting ++ flying ++ l.outbox ∧
        Accounts (told 0 (atInbox true tr)) read ∧
        Codec.unread plain l.reader l.buffer ++ l.wire = Framing.frames flying ∧
        (missed (told 0 (atInbox true tr)) = 0 ↔ Prompt subscriberCapacity 0 (inputsAt true 0 tr)) := by
  intro cfg s₀ tick as₂ as
  obtain ⟨s₂, hc, tr₂, s₃, s₄, tr, s, during, hsub, after, hfirst, hreceivers, htold, hlinks⟩ :
      ∃ s₂, Step .plain cfg (fun _ => randomCover) s₀ (.connect false 1 true) [] s₂ ∧ ∃ tr₂ s₃ s₄ tr s,
        Run (Step .plain cfg fun _ => randomCover) s₂ as₂ tr₂ s₃ ∧
        Step .plain cfg (fun _ => randomCover) s₃ (.inbox true .subscribe) [] s₄ ∧
        Run (Step .plain cfg fun _ => randomCover) s₄ as tr s ∧
        Connection.arrived (atLink 0 tr₂) = [List.replicate 32 5] ∧ nextReceiver .plain s₃ true = 0 ∧
        told 0 (atInbox true tr) = [.value (List.replicate 32 5)] ∧ s.links.length = 1 :=
    ⟨_, rfl, exists_runs_of_exec (by decide +kernel)⟩
  have hsized : randomCover.Sized (cfg false).toShapeConfig := randomCover_sized (by decide)
  have before : Run (Step .plain cfg fun _ => randomCover) s₀ [] [] s₀ := .nil
  have hsize : (cfg false).frameSize = (cfg true).frameSize := rfl
  have hkeep : ∀ act ∈ as₂ ++ as, Keeps false 1 s₀.links.length act := by decide
  have honly : ∀ j l, s.links[j]? = some l → l.target = true → j = s₀.links.length := fun j l hl _ => by
    have hj := (List.getElem?_eq_some_iff.mp hl).1
    exact Nat.lt_one_iff.mp (hlinks ▸ hj)
  have hdrop : .inbox true (.drop (nextReceiver .plain s₃ true)) ∉ as := by rw [hreceivers]; decide
  have hall := told_all Runtime.plain_documented (fun _ => by decide) hsized hsize before hc during hsub after hkeep
    honly hdrop
  rw [hreceivers] at hall
  exact ⟨s₂, tr₂, s₃, s₄, tr, s, hc, during, hsub, after, hfirst, htold, hall⟩

end Documented

end Peashape.Network
