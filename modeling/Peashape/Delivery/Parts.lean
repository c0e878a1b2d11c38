import Peashape.Delivery.Connections
import Peashape.Model.Network
import Peashape.Shaping.TickShape

/-!
# The parts of a network

A run of a network, seen at one of its parts, is a run of that part: of a node's threads
(`run_node`), of a node's receiving side, with the messages that its connections' readers
decoded (`run_inbox`), and of a link (`run_link`). What a link was handed is what its sending
node handed to the writer for its address, with gaps for the frames that were refused or found
no connection (`handed_sublist_run`).
-/

namespace Peashape

/-- A runtime as documented. -/
def Runtime.plain : Runtime (ℕ × Option ℕ) (List Bytes) Bytes (Foundation.Lagging.Log Bytes) where
  framing := Codec.plain
  transport := .plain
  incoming := .plain subscriberCapacity

theorem Runtime.plain_documented : Runtime.plain.Documented where
  framing := Codec.plain_documented
  transport := Transport.plain_documented
  incoming := Foundation.Lagging.Broadcast.plain_documented subscriberCapacity

/-- A network with that runtime. -/
abbrev PlainNetwork (N Addr G : Type*) : Type _ :=
  Network N Addr G (ℕ × Option ℕ) (List Bytes) Bytes (Foundation.Lagging.Log Bytes) 64

/-- A link of such a network. -/
abbrev PlainLink (N Addr : Type*) : Type _ := Link N Addr (ℕ × Option ℕ) (List Bytes) Bytes

namespace Network

open Foundation Codec Shaping Inbox

variable {N Addr G σ κ ς χ : Type*} {w : ℕ} [DecidableEq N]

/-! ### Shares of a history -/

/-- A share in which none of these events are. -/
theorem filterMap_map_eq_nil {α β γ : Type*} {f : α → β} {share : β → Option γ} (h : ∀ x, share (f x) = none)
    (xs : List α) : (xs.map f).filterMap share = [] := by
  rw [List.filterMap_map]
  exact List.filterMap_eq_nil_iff.mpr fun x _ => h x

/-- A share that has all of these events or none. -/
theorem filterMap_map_eq_ite {α β : Type*} {p : Prop} [Decidable p] {f : α → β} {share : β → Option α}
    (h : ∀ x, share (f x) = if p then some x else none) (xs : List α) :
    (xs.map f).filterMap share = if p then xs else [] := by
  rw [List.filterMap_map]
  split_ifs with hp
  · exact (List.filterMap_congr fun x _ => (h x).trans (if_pos hp)).trans List.filterMap_some
  · exact List.filterMap_eq_nil_iff.mpr fun x _ => (h x).trans (if_neg hp)

section Shares

variable (a b : N) (k j : ℕ)

@[simp] theorem atNode_append (tr tr' : List (NetworkEvent N Addr)) :
    atNode a (tr ++ tr') = atNode a tr ++ atNode a tr' := List.filterMap_append

@[simp] theorem atNode_map_node (es : List (Event Addr)) :
    atNode a (es.map (NetworkEvent.node b)) = if b = a then es else [] := by
  refine filterMap_map_eq_ite ?_ es
  exact fun _ => rfl

@[simp] theorem atNode_map_link (es : List ConnectionEvent) :
    atNode a (es.map (NetworkEvent.link k b) : List (NetworkEvent N Addr)) = [] :=
  filterMap_map_eq_nil (fun _ => rfl) es

@[simp] theorem atNode_map_inbox (es : List (Lagging.Event Bytes)) :
    atNode a (es.map (NetworkEvent.inbox b) : List (NetworkEvent N Addr)) = [] :=
  filterMap_map_eq_nil (fun _ => rfl) es

omit [DecidableEq N] in
@[simp] theorem atLink_append (tr tr' : List (NetworkEvent N Addr)) :
    atLink k (tr ++ tr') = atLink k tr ++ atLink k tr' := List.filterMap_append

omit [DecidableEq N] in
@[simp] theorem atLink_map_node (es : List (Event Addr)) : atLink k (es.map (NetworkEvent.node a)) = [] :=
  filterMap_map_eq_nil (fun _ => rfl) es

omit [DecidableEq N] in
@[simp] theorem atLink_map_link (es : List ConnectionEvent) :
    atLink k (es.map (NetworkEvent.link j b) : List (NetworkEvent N Addr)) = if j = k then es else [] := by
  refine filterMap_map_eq_ite ?_ es
  exact fun _ => rfl

omit [DecidableEq N] in
@[simp] theorem atLink_map_inbox (es : List (Lagging.Event Bytes)) :
    atLink k (es.map (NetworkEvent.inbox b) : List (NetworkEvent N Addr)) = [] :=
  filterMap_map_eq_nil (fun _ => rfl) es

@[simp] theorem atInbox_append (tr tr' : List (NetworkEvent N Addr)) :
    atInbox b (tr ++ tr') = atInbox b tr ++ atInbox b tr' := List.filterMap_append

@[simp] theorem atInbox_map_node (es : List (Event Addr)) : atInbox b (es.map (NetworkEvent.node a)) = [] :=
  filterMap_map_eq_nil (fun _ => rfl) es

@[simp] theorem atInbox_map_link (es : List ConnectionEvent) :
    atInbox b (es.map (NetworkEvent.link k a) : List (NetworkEvent N Addr)) = [] :=
  filterMap_map_eq_nil (fun _ => rfl) es

@[simp] theorem atInbox_map_inbox (es : List (Lagging.Event Bytes)) :
    atInbox b (es.map (NetworkEvent.inbox a) : List (NetworkEvent N Addr)) = if a = b then es else [] := by
  refine filterMap_map_eq_ite ?_ es
  exact fun _ => rfl

@[simp] theorem inputsAt_append (i : ℕ) (tr tr' : List (NetworkEvent N Addr)) :
    inputsAt b i (tr ++ tr') = inputsAt b i tr ++ inputsAt b i tr' := List.filterMap_append

@[simp] theorem inputsAt_map_node (i : ℕ) (es : List (Event Addr)) :
    inputsAt b i (es.map (NetworkEvent.node a)) = [] :=
  filterMap_map_eq_nil (fun _ => rfl) es

@[simp] theorem inputsAt_map_link (i : ℕ) : ∀ es : List ConnectionEvent,
    inputsAt b i (es.map (NetworkEvent.link k a) : List (NetworkEvent N Addr)) =
      if a = b then (Connection.arrived es).map .arrive else []
  | [] => by simp [inputsAt, Connection.arrived]
  | e :: es => by
    have ih := inputsAt_map_link i es
    rw [List.map_cons, inputsAt, Connection.arrived, List.filterMap_cons, List.filterMap_cons]
    rw [inputsAt, Connection.arrived] at ih
    by_cases h : a = b
    · rw [if_pos h] at ih ⊢
      cases e <;> simp [h, ← ih]
    · rw [if_neg h] at ih ⊢
      cases e <;> simp [h, ih]

@[simp] theorem inputsAt_map_inbox (i : ℕ) : ∀ es : List (Lagging.Event Bytes),
    inputsAt b i (es.map (NetworkEvent.inbox a) : List (NetworkEvent N Addr)) =
      if a = b then (Lagging.told i es).map fun _ => .recv else []
  | [] => by simp [inputsAt, Lagging.told]
  | e :: es => by
    have ih := inputsAt_map_inbox i es
    rw [List.map_cons, inputsAt, List.filterMap_cons]
    rw [inputsAt] at ih
    by_cases h : a = b
    · rw [if_pos h] at ih ⊢
      cases e with
      | sent x => simpa [Lagging.told] using ih
      | told j answer =>
        by_cases hj : j = i
        · simp only [Lagging.told, hj, if_true, List.map_cons, ← ih, h, and_self]
        · simp only [Lagging.told, hj, if_false, ← ih, and_false]
    · rw [if_neg h] at ih ⊢
      cases e <;> simp [h, ih]

@[simp] theorem arrivedAt_append (tr tr' : List (NetworkEvent N Addr)) :
    arrivedAt b (tr ++ tr') = arrivedAt b tr ++ arrivedAt b tr' := List.filterMap_append

@[simp] theorem arrivedAt_map_node (es : List (Event Addr)) : arrivedAt b (es.map (NetworkEvent.node a)) = [] :=
  filterMap_map_eq_nil (fun _ => rfl) es

@[simp] theorem arrivedAt_map_inbox (es : List (Lagging.Event Bytes)) :
    arrivedAt b (es.map (NetworkEvent.inbox a) : List (NetworkEvent N Addr)) = [] :=
  filterMap_map_eq_nil (fun _ => rfl) es

@[simp] theorem arrivedAt_map_link : ∀ es : List ConnectionEvent,
    arrivedAt b (es.map (NetworkEvent.link k a) : List (NetworkEvent N Addr)) =
      if a = b then (Connection.arrived es).map (Prod.mk k) else []
  | [] => by simp [arrivedAt, Connection.arrived]
  | e :: es => by
    have ih := arrivedAt_map_link es
    rw [List.map_cons, arrivedAt, Connection.arrived, List.filterMap_cons, List.filterMap_cons]
    rw [arrivedAt, Connection.arrived] at ih
    by_cases h : a = b
    · rw [if_pos h] at ih ⊢
      cases e <;> simp [h, ← ih]
    · rw [if_neg h] at ih ⊢
      cases e <;> simp [h, ih]

end Shares

variable [DecidableEq Addr] {rt : Runtime σ κ ς χ} {cfg : N → NodeConfig} {cg : N → CoverGenerator G}
  {s s' : Network N Addr G σ κ ς χ w} {act : NetworkAct N Addr} {es tr : List (NetworkEvent N Addr)}
  {links links' : List (Link N Addr σ κ ς)}

/-! ### Links -/

/-- Every link there is takes moves of its own. -/
structure LinksRun (rt : Runtime σ κ ς χ) (links : List (Link N Addr σ κ ς)) (es : List (NetworkEvent N Addr))
    (links' : List (Link N Addr σ κ ς)) : Prop where
  /-- No link comes or goes. -/
  length : links'.length = links.length
  /-- Every link moves by itself, between the same nodes. -/
  run : ∀ k l, links[k]? = some l → ∃ bs c,
    Run (Connection.Step rt.transport rt.framing) l.toConnection bs (atLink k es) c ∧
    links'[k]? = some { l with toConnection := c }
  /-- Nothing happens at others. -/
  quiet : ∀ k, links.length ≤ k → atLink k es = []

omit [DecidableEq N] [DecidableEq Addr] in
theorem LinksRun.refl (links : List (Link N Addr σ κ ς)) : LinksRun rt links [] links :=
  ⟨rfl, fun _ l hl => ⟨[], l.toConnection, .nil, hl⟩, fun _ _ => rfl⟩

omit [DecidableEq N] [DecidableEq Addr] in
theorem LinksRun.trans {links'' : List (Link N Addr σ κ ς)} {es' : List (NetworkEvent N Addr)}
    (h : LinksRun rt links es links') (h' : LinksRun rt links' es' links'') : LinksRun rt links (es ++ es') links'' where
  length := h'.length.trans h.length
  run k l hl := by
    obtain ⟨bs, c, hrun, hl'⟩ := h.run k l hl
    obtain ⟨bs', c', hrun', hl''⟩ := h'.run k _ hl'
    exact ⟨bs ++ bs', c', by rw [atLink_append]; exact hrun.trans hrun', hl''⟩
  quiet k hk := by rw [atLink_append, h.quiet k hk, h'.quiet k (by rw [h.length]; exact hk), List.append_nil]

omit [DecidableEq N] [DecidableEq Addr] in
/-- A link there is afterwards was there before. -/
theorem LinksRun.before (h : LinksRun rt links es links') {k : ℕ} {l' : Link N Addr σ κ ς}
    (hl' : links'[k]? = some l') : ∃ l bs c, links[k]? = some l ∧ l' = { l with toConnection := c } ∧
      Run (Connection.Step rt.transport rt.framing) l.toConnection bs (atLink k es) c := by
  have hk : k < links.length := h.length ▸ (List.getElem?_eq_some_iff.mp hl').1
  have hl : links[k]? = some links[k] := List.getElem?_eq_getElem hk
  obtain ⟨bs, c, hrun, hc⟩ := h.run k links[k] hl
  exact ⟨links[k], bs, c, hl, Option.some.inj (hl'.symm.trans hc), hrun⟩

omit [DecidableEq N] [DecidableEq Addr] in
/-- The link that moves. -/
theorem stepLink_cases {k : ℕ} {act : ConnectionAct} {b : N} {es : List ConnectionEvent}
    (h : stepLink rt k act links = some (b, es, links')) : ∃ l c, links[k]? = some l ∧ b = l.target ∧
      Connection.Step rt.transport rt.framing l.toConnection act es c ∧
      links' = links.set k { l with toConnection := c } := by
  simp only [stepLink] at h
  split at h
  · cases h
  · rename_i l hl
    split at h
    · cases h
    · rename_i es' c hs
      cases h
      exact ⟨l, c, hl, rfl, hs, rfl⟩

omit [DecidableEq N] [DecidableEq Addr] in
theorem linksRun_set {k : ℕ} {l : Link N Addr σ κ ς} {act : ConnectionAct} {es : List ConnectionEvent}
    {c : Connection σ κ ς} (hl : links[k]? = some l)
    (hs : Connection.Step rt.transport rt.framing l.toConnection act es c) :
    LinksRun rt links (es.map (NetworkEvent.link k l.target)) (links.set k { l with toConnection := c }) where
  length := List.length_set
  run j l' hl' := by
    rw [atLink_map_link]
    by_cases hj : k = j
    · subst hj
      obtain rfl : l = l' := Option.some.inj (hl.symm.trans hl')
      rw [if_pos rfl]
      exact ⟨[act], c, .single hs, List.getElem?_set_self (List.getElem?_eq_some_iff.mp hl).1⟩
    · rw [if_neg hj]
      exact ⟨[], l'.toConnection, .nil, (List.getElem?_set_ne hj).trans hl'⟩
  quiet j hj := by
    have hk : k < links.length := (List.getElem?_eq_some_iff.mp hl).1
    rw [atLink_map_link, if_neg (by omega)]

/-! ### What is handed to a link -/

/-- The frames handed to the writer for an address, in order. -/
def offered (peer : Addr) (sends : List (Addr × PendingFrame Addr)) : List Bytes :=
  (sends.filter fun x => decide (x.1 = peer)).map fun x => x.2.bytes

omit [DecidableEq N] in
@[simp] theorem offered_append (peer : Addr) (xs ys : List (Addr × PendingFrame Addr)) :
    offered peer (xs ++ ys) = offered peer xs ++ offered peer ys := by
  rw [offered, List.filter_append, List.map_append]
  rfl

omit [DecidableEq N] in
theorem offered_cons (p peer : Addr) (f : PendingFrame Addr) (sends : List (Addr × PendingFrame Addr)) :
    offered p ((peer, f) :: sends) = (if peer = p then [f.bytes] else []) ++ offered p sends := by
  by_cases hp : peer = p <;> simp [offered, hp]

/-- What was handed to link `k`, in order. -/
def handedTo (k : ℕ) (tr : List (NetworkEvent N Addr)) : List Bytes := Connection.handed (atLink k tr)

omit [DecidableEq N] [DecidableEq Addr] in
@[simp] theorem handedTo_append (k : ℕ) (tr tr' : List (NetworkEvent N Addr)) :
    handedTo k (tr ++ tr') = handedTo k tr ++ handedTo k tr' := by
  rw [handedTo, atLink_append, Connection.handed_append]
  rfl

omit [DecidableEq N] [DecidableEq Addr] in
@[simp] theorem handedTo_map_node (a : N) (k : ℕ) (es : List (Event Addr)) :
    handedTo k (es.map (NetworkEvent.node a)) = [] :=
  congrArg Connection.handed (atLink_map_node a k es)

omit [DecidableEq N] [DecidableEq Addr] in
@[simp] theorem handedTo_map_inbox (b : N) (k : ℕ) (es : List (Lagging.Event Bytes)) :
    handedTo k (es.map (NetworkEvent.inbox b) : List (NetworkEvent N Addr)) = [] :=
  congrArg Connection.handed (atLink_map_inbox b k es)

omit [DecidableEq N] [DecidableEq Addr] in
theorem handedTo_handed (k j : ℕ) (b : N) (message : Bytes) :
    handedTo k ([.link j b (.handed message)] : List (NetworkEvent N Addr)) = if j = k then [message] else [] := by
  split_ifs with h <;> simp [handedTo, atLink, Connection.handed, h]

/-- The link node `a` has up under an address. -/
theorem route_eq_some {a : N} {peer : Addr} {k : ℕ} (h : route a peer links = some k) :
    ∃ l, links[k]? = some l ∧ Carries a peer l := by
  obtain ⟨hk, hl, -⟩ := List.findIdx?_eq_some_iff_getElem.mp h
  exact ⟨links[k], List.getElem?_eq_getElem hk, of_decide_eq_true hl⟩

/-- Which link carries an address depends on which are up, and between whom. -/
theorem route_set {a : N} {peer : Addr} {k : ℕ} {l l' : Link N Addr σ κ ς} (hl : links[k]? = some l)
    (h : Carries a peer l' ↔ Carries a peer l) : route a peer (links.set k l') = route a peer links := by
  have hmap : ∀ xs : List (Link N Addr σ κ ς),
      route a peer xs = (xs.map fun l => decide (Carries a peer l)).findIdx? id := fun xs => by
    rw [List.findIdx?_map]
    rfl
  obtain ⟨hk, -⟩ := List.getElem?_eq_some_iff.mp hl
  rw [hmap, hmap, List.map_set]
  congr 1
  refine List.ext_getElem? fun i => ?_
  by_cases hi : k = i
  · subst hi
    rw [List.getElem?_set_self (by rwa [List.length_map]), List.getElem?_map, hl, Option.map_some,
      decide_eq_decide.mpr h]
  · rw [List.getElem?_set_ne hi]

omit [DecidableEq N] [DecidableEq Addr] in
/-- What is read of a list is what was read of it, if of the new entry the same is read. -/
theorem map_set_of_eq {β : Type*} (f : Link N Addr σ κ ς → β) {k : ℕ} {l l' : Link N Addr σ κ ς}
    (hl : links[k]? = some l)
    (h : f l' = f l) (j : ℕ) : ((links.set k l')[j]?).map f = (links[j]?).map f := by
  obtain ⟨hk, -⟩ := List.getElem?_eq_some_iff.mp hl
  by_cases hj : k = j
  · subst hj
    rw [List.getElem?_set_self hk, hl, Option.map_some, Option.map_some, h]
  · rw [List.getElem?_set_ne hj]

/-- A frame goes into the queue of the link that is up, or nowhere. -/
theorem sendOneTo_cases (rt : Runtime σ κ ς χ) (a : N) (peer : Addr) (frame : Bytes) (refused : Bool)
    (links : List (Link N Addr σ κ ς)) :
    (sendOneTo rt a peer frame refused links = ([], links) ∧ (route a peer links = none ∨ refused = true)) ∨
    ∃ k l, route a peer links = some k ∧ refused = false ∧ links[k]? = some l ∧ Carries a peer l ∧
      Connection.Step rt.transport rt.framing l.toConnection (.hand frame) [.handed frame]
        (l.toConnection.push rt.transport frame) ∧
      sendOneTo rt a peer frame refused links =
        ([.link k l.target (.handed frame)],
          links.set k { l with toConnection := l.toConnection.push rt.transport frame }) := by
  cases hr : route a peer links with
  | none => exact .inl ⟨by simp only [sendOneTo, hr], .inl rfl⟩
  | some k =>
    cases refused with
    | true => exact .inl ⟨by simp only [sendOneTo, hr, if_true], .inr rfl⟩
    | false =>
      obtain ⟨l, hl, hc⟩ := route_eq_some hr
      have hs : Connection.step rt.transport rt.framing l.toConnection (.hand frame) =
          some ([.handed frame], l.toConnection.push rt.transport frame) := by
        rw [Connection.step, if_pos hc.2.2]
      refine .inr ⟨k, l, rfl, rfl, hl, hc, hs, ?_⟩
      simp [sendOneTo, hr, stepLink, hl, hs]

/-- **Everything the writer of a node does with the frames it gets.** -/
structure SentAll (rt : Runtime σ κ ς χ) (a : N) (sends : List (Addr × PendingFrame Addr))
    (links : List (Link N Addr σ κ ς)) (out : List (NetworkEvent N Addr) × List (Link N Addr σ κ ς)) : Prop where
  /-- Links take them into their queues. -/
  run : LinksRun rt links out.1 out.2
  /-- Nothing else happens. -/
  events : ∀ e ∈ out.1, ∃ k b message, e = .link k b (.handed message)
  /-- What happens at a link happens between its nodes. -/
  target : ∀ k b e, .link k b e ∈ out.1 → ∃ l, links[k]? = some l ∧ l.target = b
  /-- The links that are up stay up, and no others come up. -/
  route : ∀ b peer, route b peer out.2 = route b peer links
  /-- The receiving ends stay as they are. -/
  listening : ∀ k : ℕ, (out.2[k]?).map (fun l => l.listening) = (links[k]?).map (fun l => l.listening)
  /-- A link gets those for its address, in order, if it is the node's. -/
  handed : ∀ k l, links[k]? = some l →
    (handedTo k out.1).Sublist (if l.source = a then offered l.peer sends else [])

theorem sentAll (rt : Runtime σ κ ς χ) (a : N) : ∀ (sends : List (Addr × PendingFrame Addr)) (refused : List Bool)
    (links : List (Link N Addr σ κ ς)), SentAll rt a sends links (sendAll rt a sends refused links)
  | [], _, links => by
    refine ⟨.refl links, by simp [sendAll], by simp [sendAll], fun _ _ => rfl, fun _ => rfl, fun k l _ => ?_⟩
    exact List.nil_sublist _
  | (peer, f) :: sends, refused, links => by
    rcases sendOneTo_cases rt a peer f.bytes (refused.headD false) links with
      ⟨hone, -⟩ | ⟨k, l, -, -, hl, hc, hs, hone⟩
    · have ih := sentAll rt a sends refused.tail links
      simp only [sendAll, hone, List.nil_append]
      refine ⟨ih.run, ih.events, ih.target, ih.route, ih.listening, fun j l hl => (ih.handed j l hl).trans ?_⟩
      split_ifs
      · rw [offered_cons]
        exact List.sublist_append_right _ _
      · exact .refl []
    · have ih := sentAll rt a sends refused.tail
        (links.set k { l with toConnection := l.toConnection.push rt.transport f.bytes })
      have hrun : LinksRun rt links [.link k l.target (.handed f.bytes)]
        (links.set k { l with toConnection := l.toConnection.push rt.transport f.bytes }) := linksRun_set hl hs
      simp only [sendAll, hone]
      refine ⟨hrun.trans ih.run, ?_, fun j b e he => ?_, fun b p => ?_, fun j => ?_, fun j l' hl' => ?_⟩
      · rintro e he
        rcases List.mem_cons.mp he with rfl | he
        · exact ⟨k, l.target, f.bytes, rfl⟩
        · exact ih.events e he
      · rcases List.mem_cons.mp he with he | he
        · cases he
          exact ⟨l, hl, rfl⟩
        · obtain ⟨l', hl', hb⟩ := ih.target j b e he
          obtain ⟨l₀, -, c, hl₀, rfl, -⟩ := hrun.before hl'
          exact ⟨l₀, hl₀, hb⟩
      · exact (ih.route b p).trans (route_set hl Iff.rfl)
      · have hopen : ({ l with toConnection := l.toConnection.push rt.transport f.bytes } :
            Link N Addr σ κ ς).listening = l.listening := rfl
        exact (ih.listening j).trans (map_set_of_eq (fun l => l.listening) hl hopen j)
      · obtain ⟨_, c, -, hl''⟩ := hrun.run j l' hl'
        have hrest := ih.handed j _ hl''
        rw [handedTo_append]
        by_cases hj : k = j
        · subst hj
          obtain rfl : l = l' := Option.some.inj (hl.symm.trans hl')
          obtain ⟨hsource, hpeer, -⟩ := hc
          rw [if_pos hsource, offered_cons, if_pos hpeer.symm, handedTo_handed, if_pos rfl]
          rw [if_pos hsource] at hrest
          exact hrest.cons_cons f.bytes
        · rw [handedTo_handed, if_neg hj, List.nil_append]
          refine hrest.trans ?_
          split_ifs
          · rw [offered_cons]
            exact List.sublist_append_right _ _
          · exact .refl []

/-- With nothing refused, the link that is up gets every frame for its address. -/
theorem handedTo_sendAll {a : N} {peer : Addr} {k : ℕ} : ∀ (sends : List (Addr × PendingFrame Addr))
    {links : List (Link N Addr σ κ ς)}, Network.route a peer links = some k →
      handedTo k (sendAll rt a sends [] links).1 = offered peer sends
  | [], _, _ => rfl
  | (p, f) :: sends, links, hr => by
    obtain ⟨l, hl, hc⟩ := route_eq_some hr
    rcases sendOneTo_cases rt a p f.bytes false links with ⟨hone, hno⟩ | ⟨j, l', hj, -, hl', hc', -, hone⟩
    · have hp : p ≠ peer := by
        rintro rfl
        rw [hr] at hno
        simp at hno
      simp only [sendAll, List.headD_nil, List.tail_nil, hone, List.nil_append, handedTo_sendAll sends hr,
        offered_cons, if_neg hp]
    · have hsame : Carries a peer { l' with toConnection := l'.toConnection.push rt.transport f.bytes } ↔
          Carries a peer l' := Iff.rfl
      have hr' := (route_set hl' hsame).trans hr
      simp only [sendAll, List.headD_nil, List.tail_nil, hone, handedTo_append, handedTo_handed,
        handedTo_sendAll sends hr', offered_cons]
      by_cases hp : p = peer
      · subst hp
        rw [hr] at hj
        rw [if_pos (Option.some.inj hj).symm, if_pos rfl]
      · have hne : j ≠ k := by
          rintro rfl
          obtain rfl : l = l' := Option.some.inj (hl.symm.trans hl')
          exact hp (hc'.2.1.symm.trans hc.2.1)
        rw [if_neg hne, if_neg hp]

/-! ### Everything a step can do -/

/-- **Everything a step can do**, with the guards under which it does. -/
inductive Does (rt : Runtime σ κ ς χ) (cfg : N → NodeConfig) (cg : N → CoverGenerator G)
    (s : Network N Addr G σ κ ς χ w) : NetworkAct N Addr → List (NetworkEvent N Addr) → Network N Addr G σ κ ς χ w → Prop
  /-- A thread of a node moves, and its writer takes what it sends. -/
  | node {a : N} {act : Act Addr} {refused : List Bool} {es : List (Event Addr)} {n : SystemState Addr G w}
      (ha : act.ofNode = true) (hs : SystemState.Step (cfg a).shaper (cg a) (s.nodes a) act es n) :
      Does rt cfg cg s (.node a act refused) (es.map (.node a) ++ (sendAll rt a (sends es) refused s.links).1)
        { s with
          nodes := Function.update s.nodes a n
          links := (sendAll rt a (sends es) refused s.links).2 }
  | connect {a : N} {peer : Addr} {b : N} (h : route a peer s.links = none) :
      Does rt cfg cg s (.connect a peer b) []
        { s with
          nodes := Function.update s.nodes a { s.nodes a with connected := insert peer (s.nodes a).connected }
          links := s.links ++ [newLink rt cfg a peer b] }
  | disconnect {a : N} {peer : Addr} {k : ℕ} {l : Link N Addr σ κ ς} {c : Connection σ κ ς}
      (h : route a peer s.links = some k) (hl : s.links[k]? = some l)
      (hs : Connection.Step rt.transport rt.framing l.toConnection .hangUp [] c) :
      Does rt cfg cg s (.disconnect a peer) []
        { s with
          nodes := Function.update s.nodes a { s.nodes a with connected := (s.nodes a).connected.erase peer }
          links := s.links.set k { l with toConnection := c } }
  /-- A link moves, and the node at its end processes what was decoded. -/
  | link {k : ℕ} {act : ConnectionAct} {l : Link N Addr σ κ ς} {es : List ConnectionEvent} {c : Connection σ κ ς}
      (ha : act.own = true) (hl : s.links[k]? = some l)
      (hs : Connection.Step rt.transport rt.framing l.toConnection act es c) :
      Does rt cfg cg s (.link k act)
        (es.map (.link k l.target) ++
          (processAll rt (cfg l.target).shaper (Connection.arrived es) (s.inboxes l.target)).1.map (.inbox l.target))
        { s with
          links := s.links.set k { l with toConnection := c }
          inboxes := Function.update s.inboxes l.target
            (processAll rt (cfg l.target).shaper (Connection.arrived es) (s.inboxes l.target)).2 }
  | inbox {b : N} {act : InboxAct} {es : List (Lagging.Event Bytes)} {inbox : χ} (ha : act.ofApplication = true)
      (hs : Inbox.step rt.incoming (cfg b).shaper (s.inboxes b) act = some (es, inbox)) :
      Does rt cfg cg s (.inbox b act) (es.map (.inbox b)) { s with inboxes := Function.update s.inboxes b inbox }

/-- A step does one of these. -/
theorem does_of_step (h : Step rt cfg cg s act es s') : Does rt cfg cg s act es s' := by
  cases act with
  | node a act refused =>
    simp only [Step, stepOf, step] at h
    split_ifs at h with ha
    split at h <;> cases h
    rename_i hs
    exact .node ha hs
  | connect a peer b =>
    simp only [Step, stepOf, step] at h
    split_ifs at h with hr
    cases h
    exact .connect (Option.isNone_iff_eq_none.mp hr)
  | disconnect a peer =>
    simp only [Step, stepOf, step] at h
    split at h
    · cases h
    · rename_i k hr
      split at h <;> cases h
      rename_i b es links hlink
      obtain ⟨l, c, hl, rfl, hs, rfl⟩ := stepLink_cases hlink
      obtain rfl : es = [] := (Prod.mk.inj (Option.some.inj hs)).1.symm
      exact .disconnect hr hl hs
  | link k act =>
    simp only [Step, stepOf, step] at h
    split_ifs at h with ha
    split at h <;> cases h
    rename_i b es links hlink
    obtain ⟨l, c, hl, rfl, hs, rfl⟩ := stepLink_cases hlink
    exact .link ha hl hs
  | inbox b act =>
    simp only [Step, stepOf, step] at h
    split_ifs at h with ha
    split at h <;> cases h
    rename_i hs
    exact .inbox ha hs

/-- What the writer of a node does is no event of the node's threads, nor of anybody's
receiving side. -/
theorem SentAll.silent {a : N} {xs : List (Addr × PendingFrame Addr)}
    {out : List (NetworkEvent N Addr) × List (Link N Addr σ κ ς)} (h : SentAll rt a xs links out) (b : N) :
    atNode b out.1 = [] ∧ atInbox b out.1 = [] ∧ arrivedAt b out.1 = [] ∧ ∀ i, inputsAt b i out.1 = [] := by
  refine ⟨?_, ?_, ?_, fun i => ?_⟩ <;>
  · refine List.filterMap_eq_nil_iff.mpr fun e he => ?_
    obtain ⟨k, b', message, rfl⟩ := h.events e he
    rfl

/-- At a node's threads: its connections apart, they make the moves made there. -/
theorem node_does (h : Does rt cfg cg s act es s') (a : N) :
    ∃ bs, Run (SystemState.Step (cfg a).shaper (cg a)) (s.nodes a) bs (atNode a es) (s'.nodes a) ∧
      ∀ x ∈ bs, x.ofNode = true → ∃ refused, act = .node a x refused := by
  cases h with
  | @node b act refused es n _ hs =>
    have hsilent := ((sentAll rt b (sends es) refused s.links).silent a).1
    rw [atNode_append, atNode_map_node, hsilent, List.append_nil]
    by_cases hb : b = a
    · subst hb
      rw [if_pos rfl]
      simp only [Function.update_self]
      exact ⟨[act], .single hs, fun x hx _ => ⟨refused, by rw [List.mem_singleton.mp hx]⟩⟩
    · rw [if_neg hb]
      simp only [Function.update_of_ne (Ne.symm hb)]
      exact ⟨[], .nil, by simp⟩
  | @connect b peer _ _ =>
    by_cases hb : b = a
    · subst hb
      simp only [Function.update_self]
      exact ⟨[.connect peer], .single rfl, by simp [Act.ofNode]⟩
    · simp only [Function.update_of_ne (Ne.symm hb)]
      exact ⟨[], .nil, by simp⟩
  | @disconnect b peer _ _ _ _ _ _ =>
    by_cases hb : b = a
    · subst hb
      simp only [Function.update_self]
      exact ⟨[.disconnect peer], .single rfl, by simp [Act.ofNode]⟩
    · simp only [Function.update_of_ne (Ne.symm hb)]
      exact ⟨[], .nil, by simp⟩
  | link => exact ⟨[], by simpa using .nil, by simp⟩
  | inbox => exact ⟨[], by simpa using .nil, by simp⟩

/-- **A run of the network is a run of each node's threads.** -/
theorem nodes_run {s₀ : Network N Addr G σ κ ς χ w} {as : List (NetworkAct N Addr)} (h : Run (Step rt cfg cg) s₀ as tr s)
    (a : N) : ∃ bs, Run (SystemState.Step (cfg a).shaper (cg a)) (s₀.nodes a) bs (atNode a tr) (s.nodes a) ∧
      ∀ x ∈ bs, x.ofNode = true → ∃ refused, .node a x refused ∈ as := by
  refine h.project (fun s : Network N Addr G σ κ ς χ w => s.nodes a) (atNode a)
    (R := fun as bs _ => ∀ x ∈ bs, x.ofNode = true → ∃ refused, .node a x refused ∈ as) rfl (atNode_append a) (by simp)
    (fun {as bs _ as' bs' _} hR hR' x hx hof => ?_) fun hs => ?_
  · rcases List.mem_append.mp hx with hx | hx
    · exact (hR x hx hof).imp fun _ h => List.mem_append_left _ h
    · exact (hR' x hx hof).imp fun _ h => List.mem_append_right _ h
  · obtain ⟨bs, hrun, hacts⟩ := node_does (does_of_step hs) a
    exact ⟨bs, hrun, fun x hx hof => (hacts x hx hof).imp fun _ h => by simp [h]⟩

/-- From the start. -/
theorem run_node {sch : N → Scheduler Addr w} {gen : N → G} {as : List (NetworkAct N Addr)}
    (h : Run (Step rt cfg cg) (start rt sch gen) as tr s) (a : N) :
    ∃ bs, Run (SystemState.Step (cfg a).shaper (cg a)) (.new (sch a) (gen a)) bs (atNode a tr) (s.nodes a) :=
  (nodes_run h a).imp fun _ h => h.1

/-- Messages processed one after another. -/
theorem run_processAll (cfg : ShaperConfig) : ∀ (items : List Bytes) (s : χ),
    Run (stepOf (Inbox.step rt.incoming cfg)) s (items.map .processMessage) (processAll rt cfg items s).1
      (processAll rt cfg items s).2
  | [], _ => .nil
  | message :: items, s => by
    have hstep : stepOf (Inbox.step rt.incoming cfg) s (.processMessage message)
        (Inbox.processMessage rt.incoming cfg message s).1 (Inbox.processMessage rt.incoming cfg message s).2 := by
      simp only [stepOf, Inbox.processMessage, Inbox.step, Inbox.channelAct]
      cases Shaper.handleIncoming cfg message <;> rfl
    exact Run.cons hstep (run_processAll cfg items _)

/-- Nobody is answered meanwhile. -/
theorem told_processAll (cfg : ShaperConfig) (i : ℕ) : ∀ (items : List Bytes) (s : χ),
    Lagging.told i (processAll rt cfg items s).1 = []
  | [], _ => rfl
  | message :: items, s => by
    have hmessage : Lagging.told i (Inbox.processMessage rt.incoming cfg message s).1 = [] := by
      simp only [Inbox.processMessage, Inbox.step, Inbox.channelAct]
      cases Shaper.handleIncoming cfg message with
      | none => rfl
      | some y =>
        simp only [Option.map_some, Lagging.Broadcast.step, Option.getD_some]
        split_ifs <;> rfl
    simp only [processAll, Lagging.told_append, hmessage, told_processAll cfg i items, List.append_nil]

/-- What the receiving side of node `b` does, while the network makes these moves and they leave
these events behind. -/
structure Receives (cfg : N → NodeConfig) (b : N) (as : List (NetworkAct N Addr)) (bs : List InboxAct)
    (es : List (NetworkEvent N Addr)) : Prop where
  /-- The messages that arrive are those decoded. -/
  messages : messages bs = (arrivedAt b es).map Prod.snd
  /-- A receiver is dropped by its subscriber only. -/
  drop : ∀ i, .inbox b (.drop i) ∉ as → .drop i ∉ bs
  /-- A mailbox gets what was decoded, if it has the right size. -/
  inputs : (∀ x ∈ arrivedAt b es, x.2.length = (cfg b).frameSize) →
    ∀ i, bs.filterMap (Inbox.input (cfg b).shaper i) = inputsAt b i es

namespace Receives

variable {b : N} {bs bs' : List InboxAct} {as as' : List (NetworkAct N Addr)}

omit [DecidableEq Addr] in
/-- Nothing happens there. -/
theorem elsewhere (harrived : arrivedAt b es = []) (hinputs : ∀ i, inputsAt b i es = []) : Receives cfg b as [] es :=
  ⟨by rw [harrived]; rfl, fun _ _ => List.not_mem_nil, fun _ i => by rw [hinputs]; rfl⟩

omit [DecidableEq Addr] in
theorem append (h : Receives cfg b as bs es) (h' : Receives cfg b as' bs' tr) :
    Receives cfg b (as ++ as') (bs ++ bs') (es ++ tr) where
  messages := by rw [messages_append, h.messages, h'.messages, arrivedAt_append, List.map_append]
  drop i hi := by
    rw [List.mem_append, not_or] at hi ⊢
    exact ⟨h.drop i hi.1, h'.drop i hi.2⟩
  inputs hsize i := by
    simp only [arrivedAt_append, List.mem_append] at hsize
    rw [List.filterMap_append, inputsAt_append, h.inputs (fun x hx => hsize x (.inl hx)) i,
      h'.inputs (fun x hx => hsize x (.inr hx)) i]

omit [DecidableEq Addr] in
/-- Messages that a chunk of bytes brought, one after another. -/
theorem ofChunk (k : ℕ) {items : List Bytes} {ces : List ConnectionEvent} (hitems : Connection.arrived ces = items)
    {ies : List (Lagging.Event Bytes)} (hies : ∀ i, Lagging.told i ies = []) :
    Receives cfg b as (items.map .processMessage) (ces.map (.link k b) ++ ies.map (.inbox b)) where
  messages := by
    rw [messages_map, arrivedAt_append, arrivedAt_map_link, arrivedAt_map_inbox, List.append_nil, if_pos rfl, hitems,
      List.map_map]
    exact (List.map_id _).symm
  drop i _ hmem := by
    obtain ⟨y, -, hy⟩ := List.mem_map.mp hmem
    cases hy
  inputs hsize i := by
    simp only [arrivedAt_append, arrivedAt_map_link, arrivedAt_map_inbox, List.append_nil, if_true, hitems,
      List.mem_map, forall_exists_index, and_imp, forall_apply_eq_imp_iff₂] at hsize
    rw [inputsAt_append, inputsAt_map_link, inputsAt_map_inbox, if_pos rfl, if_pos rfl, hies, List.map_nil,
      List.append_nil, hitems, List.filterMap_map, ← List.filterMap_eq_map]
    refine List.filterMap_congr fun y hy => ?_
    have hframe : Shaper.handleIncoming (cfg b).shaper y = some y := handleIncoming_of_eq (hsize y hy)
    simp only [Function.comp_apply, Inbox.input, Inbox.channelAct, hframe]
    rfl

omit [DecidableEq Addr] in
/-- A subscriber that moves. -/
theorem ofApplication {act : InboxAct} (ha : act.ofApplication = true) {s s' : χ} {ies : List (Lagging.Event Bytes)}
    (hs : Inbox.step rt.incoming (cfg b).shaper s act = some (ies, s')) :
    Receives cfg b [.inbox b act] [act] (ies.map (.inbox b) : List (NetworkEvent N Addr)) where
  messages := by
    rw [arrivedAt_map_inbox]
    cases act <;> first | rfl | cases ha
  drop i hi hmem := by
    obtain rfl := List.mem_singleton.mp hmem
    exact hi (List.mem_singleton_self _)
  inputs _ i := by
    rw [inputsAt_map_inbox, if_pos rfl]
    cases act with
    | processMessage => cases ha
    | subscribe =>
      cases hs
      rfl
    | recv j =>
      simp only [Inbox.step, Inbox.channelAct, Lagging.Broadcast.step] at hs
      split at hs <;> cases hs
      by_cases hj : j = i <;>
        simp [Inbox.input, Inbox.channelAct, Lagging.Act.input, Lagging.told, hj]
    | drop j =>
      cases hs
      rfl

end Receives

/-- At a node's receiving side. -/
theorem inbox_does (h : Does rt cfg cg s act es s') (b : N) :
    ∃ bs, Run (stepOf (Inbox.step rt.incoming (cfg b).shaper)) (s.inboxes b) bs (atInbox b es) (s'.inboxes b) ∧
      Receives cfg b [act] bs es := by
  cases h with
  | @node a act refused es n _ _ =>
    obtain ⟨-, hinbox, harrived, hinputs⟩ := (sentAll rt a (sends es) refused s.links).silent b
    rw [atInbox_append, atInbox_map_node, hinbox]
    refine ⟨[], .nil, .elsewhere ?_ fun i => ?_⟩
    · rw [arrivedAt_append, arrivedAt_map_node, harrived, List.append_nil]
    · rw [inputsAt_append, inputsAt_map_node, hinputs, List.append_nil]
  | connect => exact ⟨[], .nil, .elsewhere rfl fun _ => rfl⟩
  | disconnect => exact ⟨[], .nil, .elsewhere rfl fun _ => rfl⟩
  | @link k act l es c _ _ _ =>
    rw [atInbox_append, atInbox_map_link, List.nil_append, atInbox_map_inbox]
    by_cases hb : l.target = b
    · subst hb
      simp only [if_pos, Function.update_self]
      exact ⟨(Connection.arrived es).map .processMessage, run_processAll _ _ _,
        .ofChunk k rfl fun i => told_processAll _ i _ _⟩
    · simp only [if_neg hb, Function.update_of_ne (Ne.symm hb)]
      exact ⟨[], .nil, .elsewhere (by simp [hb]) fun i => by simp [hb]⟩
  | @inbox b' act es inbox ha hs =>
    rw [atInbox_map_inbox]
    by_cases hb : b' = b
    · subst hb
      simp only [if_pos, Function.update_self]
      exact ⟨[act], .single hs, .ofApplication ha hs⟩
    · simp only [if_neg hb, Function.update_of_ne (Ne.symm hb)]
      exact ⟨[], .nil, .elsewhere (by simp) fun i => by simp [hb]⟩

/-- **A run of the network is a run of each node's receiving side.** -/
theorem inboxes_run {s₀ : Network N Addr G σ κ ς χ w} {as : List (NetworkAct N Addr)}
    (h : Run (Step rt cfg cg) s₀ as tr s) (b : N) :
    ∃ bs, Run (stepOf (Inbox.step rt.incoming (cfg b).shaper)) (s₀.inboxes b) bs (atInbox b tr) (s.inboxes b) ∧
      Receives cfg b as bs tr :=
  h.project (fun s : Network N Addr G σ κ ς χ w => s.inboxes b) (atInbox b)
    (R := fun as bs es => Receives cfg b as bs es) rfl (atInbox_append b) (.elsewhere rfl fun _ => rfl) .append
    fun hs => inbox_does (does_of_step hs) b

/-- From the start, with the messages that the readers of its connections decode. -/
theorem run_inbox {sch : N → Scheduler Addr w} {gen : N → G} {as : List (NetworkAct N Addr)}
    (h : Run (Step rt cfg cg) (start rt sch gen) as tr s) (b : N) :
    ∃ bs, Run (stepOf (Inbox.step rt.incoming (cfg b).shaper)) rt.incoming.new bs (atInbox b tr) (s.inboxes b) ∧
      messages bs = (arrivedAt b tr).map Prod.snd :=
  (inboxes_run h b).imp fun _ hbs => ⟨hbs.1, hbs.2.messages⟩

/-- At the links. -/
theorem links_does (h : Does rt cfg cg s act es s') :
    LinksRun rt s.links es s'.links ∨
      ∃ a peer b, es = [] ∧ s'.links = s.links ++ [newLink rt cfg a peer b] := by
  cases h with
  | @node a act refused es n _ _ =>
    have hnode : LinksRun rt s.links (es.map (NetworkEvent.node a)) s.links := by
      refine ⟨rfl, fun k l hl => ⟨[], l.toConnection, ?_, hl⟩, fun k _ => atLink_map_node a k es⟩
      rw [atLink_map_node]
      exact .nil
    exact .inl (hnode.trans (sentAll rt a (sends es) refused s.links).run)
  | @connect a peer b _ => exact .inr ⟨a, peer, b, rfl, rfl⟩
  | disconnect _ hl hs => exact .inl (linksRun_set hl hs)
  | @link k act l es c _ hl hs =>
    have hset : LinksRun rt s.links (es.map (NetworkEvent.link k l.target))
        (s.links.set k { l with toConnection := c }) :=
      linksRun_set hl hs
    refine .inl (hset.trans ⟨rfl, fun j l' hl' => ⟨[], l'.toConnection, ?_, hl'⟩, fun j _ => atLink_map_inbox _ j _⟩)
    rw [atLink_map_inbox]
    exact .nil
  | @inbox b act es inbox _ _ =>
    refine .inl ⟨rfl, fun j l hl => ⟨[], l.toConnection, ?_, hl⟩, fun j _ => atLink_map_inbox b j es⟩
    rw [atLink_map_inbox]
    exact .nil

/-- The links of a network, with what happened at each. -/
structure LinksInv (rt : Runtime σ κ ς χ) (cfg : N → NodeConfig) (tr : List (NetworkEvent N Addr))
    (s : Network N Addr G σ κ ς χ w) : Prop where
  /-- Every link is a run of its own, from a connection with the codecs of its nodes. -/
  run : ∀ k l, s.links[k]? = some l → ∃ bs, Run (Connection.Step rt.transport rt.framing)
    (.start rt.transport ((cfg l.source).codec rt.framing) ((cfg l.target).codec rt.framing)) bs (atLink k tr)
      l.toConnection
  /-- Nothing happened at links that never came up. -/
  quiet : ∀ k, s.links.length ≤ k → atLink k tr = []
  /-- What happens at a link happens between its nodes. -/
  target : ∀ k b e, .link k b e ∈ tr → ∃ l, s.links[k]? = some l ∧ l.target = b
  /-- A link was handed what its node handed to the writer for its address, in order. -/
  handed : ∀ k l, s.links[k]? = some l → (handedTo k tr).Sublist (offered l.peer (sends (atNode l.source tr)))

/-- What a step hands to a link. -/
theorem handed_does (h : Does rt cfg cg s act es s') {k : ℕ} {l : Link N Addr σ κ ς} (hl : s.links[k]? = some l) :
    (handedTo k es).Sublist (offered l.peer (sends (atNode l.source es))) := by
  cases h with
  | @node a act refused es n _ _ =>
    have hspec := sentAll rt a (sends es) refused s.links
    have hhanded := hspec.handed k l hl
    rw [handedTo_append, handedTo_map_node, List.nil_append, atNode_append, (hspec.silent l.source).1, List.append_nil,
      atNode_map_node]
    by_cases ha : l.source = a
    · rw [if_pos ha] at hhanded
      rwa [if_pos ha.symm]
    · rw [if_neg ha] at hhanded
      rw [List.sublist_nil.mp hhanded]
      exact List.nil_sublist _
  | connect => exact List.nil_sublist _
  | disconnect => exact List.nil_sublist _
  | @link j act l' es c ha hl' hs =>
    have hnone : handedTo k (es.map (NetworkEvent.link j l'.target) : List (NetworkEvent N Addr)) = [] := by
      rw [handedTo, atLink_map_link]
      split_ifs
      · exact (Connection.own_step ha hs).1
      · rfl
    rw [handedTo_append, hnone, handedTo_map_inbox]
    exact List.nil_sublist _
  | @inbox b act es inbox _ _ =>
    rw [handedTo_map_inbox]
    exact List.nil_sublist _

/-- Where the events of a step are. -/
theorem target_does (h : Does rt cfg cg s act es s') (k : ℕ) (b : N) (e : ConnectionEvent) (he : .link k b e ∈ es) :
    ∃ l, s.links[k]? = some l ∧ l.target = b := by
  cases h with
  | @node a act refused es n _ _ =>
    refine (sentAll rt a (sends es) refused s.links).target k b e ?_
    exact (List.mem_append.mp he).resolve_left (by simp)
  | connect => cases he
  | disconnect => cases he
  | @link j act l es c _ hl _ =>
    have hmem := (List.mem_append.mp he).resolve_right (by simp)
    obtain ⟨x, -, hx⟩ := List.mem_map.mp hmem
    cases hx
    exact ⟨l, hl, rfl⟩
  | inbox => simp at he

/-- An entry of a list with one more at its end. -/
theorem getElem?_concat_cases {α : Type*} {xs : List α} {x y : α} {k : ℕ} (h : (xs ++ [x])[k]? = some y) :
    xs[k]? = some y ∨ k = xs.length ∧ y = x := by
  rcases Nat.lt_trichotomy k xs.length with hk | rfl | hk
  · rw [List.getElem?_append_left hk] at h
    exact .inl h
  · rw [List.getElem?_concat_length] at h
    exact .inr ⟨rfl, (Option.some.inj h).symm⟩
  · rw [List.getElem?_eq_none (by rw [List.length_append, List.length_singleton]; omega)] at h
    cases h

/-- A step keeps the invariant. -/
theorem LinksInv.does (hi : LinksInv rt cfg tr s) (h : Does rt cfg cg s act es s') :
    LinksInv rt cfg (tr ++ es) s' := by
  have htarget := target_does h
  rcases links_does h with hrun | ⟨a, peer, b, rfl, hlinks⟩
  · refine ⟨fun k l hl => ?_, fun k hk => ?_, fun k b e he => ?_, fun k l hl => ?_⟩
    · obtain ⟨l₀, bs', c, hl₀, rfl, hstep⟩ := hrun.before hl
      obtain ⟨bs, hfrom⟩ := hi.run k l₀ hl₀
      exact ⟨bs ++ bs', by rw [atLink_append]; exact hfrom.trans hstep⟩
    · rw [atLink_append, hi.quiet k (by rw [← hrun.length]; exact hk), hrun.quiet k (by rw [← hrun.length]; exact hk)]
      rfl
    · obtain ⟨l, hl, hb⟩ := (List.mem_append.mp he).elim (hi.target k b e) (htarget k b e)
      obtain ⟨-, c, -, hl'⟩ := hrun.run k l hl
      exact ⟨_, hl', hb⟩
    · obtain ⟨l₀, -, c, hl₀, rfl, -⟩ := hrun.before hl
      rw [handedTo_append, atNode_append, sends_append, offered_append]
      have hnew := handed_does h hl₀
      exact (hi.handed k l₀ hl₀).append hnew
  · rw [List.append_nil]
    refine ⟨fun k l hl => ?_, fun k hk => hi.quiet k ?_, fun k b e he => ?_, fun k l hl => ?_⟩
    · rw [hlinks] at hl
      rcases getElem?_concat_cases hl with hl | ⟨rfl, rfl⟩
      · exact hi.run k l hl
      · exact ⟨[], by rw [hi.quiet _ le_rfl]; exact .nil⟩
    · rw [hlinks, List.length_append] at hk
      omega
    · obtain ⟨l, hl, hb⟩ := hi.target k b e he
      refine ⟨l, ?_, hb⟩
      rw [hlinks, List.getElem?_append_left (List.getElem?_eq_some_iff.mp hl).1]
      exact hl
    · rw [hlinks] at hl
      rcases getElem?_concat_cases hl with hl | ⟨rfl, rfl⟩
      · exact hi.handed k l hl
      · rw [handedTo, hi.quiet _ le_rfl]
        exact List.nil_sublist _

/-- It holds after any run. -/
theorem linksInv_run {sch : N → Scheduler Addr w} {gen : N → G} {as : List (NetworkAct N Addr)}
    (h : Run (Step rt cfg cg) (start rt sch gen) as tr s) : LinksInv rt cfg tr s := by
  have h0 : LinksInv rt cfg [] (start rt sch gen : Network N Addr G σ κ ς χ w) :=
    ⟨fun _ _ hl => absurd hl (by simp [start]), fun _ _ => rfl, fun _ _ _ he => absurd he List.not_mem_nil,
      fun _ _ hl => absurd hl (by simp [start])⟩
  exact h.invariant h0 fun hi hs => hi.does (does_of_step hs)

end Network

end Peashape
