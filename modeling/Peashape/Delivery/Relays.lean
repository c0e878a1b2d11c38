import Peashape.Delivery.EndToEnd

/-!
# Messages that are relayed

Frames go from node to node when applications submit what they were told of: `relay_shaped` is
for "re-broadcasting a frame received from a peer *byte-for-byte unchanged* (so an intermediate
node's dedup cache recognizes the same ID)". What is read of a frame, if the generators leave it
readable (`Legible`), is then what was read of it where it came from: at a node that submits
frames of its own, or in the cover of some node, and there is a row of links from there to here
(`told_custody`).
-/

namespace Peashape.Network

open Foundation Codec Shaping Lagging

/-- A cover generator that leaves what is read of real frames as it is. -/
def Legible {G M : Type*} (cg : CoverGenerator G) (c : ShapeConfig) (read : Bytes → M) : Prop :=
  ∀ g frame, frame.length = c.frameSize → read (cg.finalizeReal c g frame).1 = read frame

/-- The default generator leaves everything as it is. -/
theorem legible_randomCover {M : Type*} (c : ShapeConfig) (read : Bytes → M) : Legible randomCover c read :=
  fun _ _ _ => rfl

variable {N Addr G σ κ ς χ M : Type*} {w : ℕ} [DecidableEq N] [DecidableEq Addr] {rt : Runtime σ κ ς χ}
  {cfg : N → NodeConfig} {cg : N → CoverGenerator G} {s s' : Network N Addr G σ κ ς χ w} {act : NetworkAct N Addr}
  {es tr : List (NetworkEvent N Addr)} {read : Bytes → M}

/-- What is read of a frame that a node hands to the writer: cover, or what was read of it when it
was submitted. -/
theorem read_of_send {a : N} (hread : Legible (cg a) (cfg a).toShapeConfig read) {sch : N → Scheduler Addr w}
    {gen : N → G} {as : List (NetworkAct N Addr)} (h : Run (Step rt cfg cg) (start rt sch gen) as tr s) {q : Addr}
    {f : PendingFrame Addr} (hf : .send q f ∈ atNode a tr) :
    (f.origin = .cover ∧ .cover f ∈ atNode a tr) ∨
      ∃ n lane target x, f.origin = .enqueued n ∧ .accepted n lane target x ∈ atNode a tr ∧ Allows q target ∧
        read f.bytes = read x := by
  obtain ⟨bs, hrun⟩ := run_node h a
  rcases (provenance_run hrun).sends _ _ hf with ⟨hcover, hf, -⟩ | ⟨n, lane, target, x, g, horigin, hacc, hx, hallows⟩
  · exact .inl ⟨hcover, hf⟩
  · refine .inr ⟨n, lane, target, x, horigin, hacc, hallows, ?_⟩
    rw [hx]
    exact hread g x (length_of_accepted_run hrun hacc)

/-! ### Applications that relay -/

/-- The node at which a frame was accepted, and the frame. -/
def submitted : NetworkEvent N Addr → Option (N × Bytes)
  | .node a (.accepted _ _ _ x) => some (a, x)
  | _ => none

/-- A frame that is accepted at a node is submitted by a source, or by an application, after a
subscriber there was told of it. -/
def RelaysAt (source : N → Prop) (before : List (NetworkEvent N Addr)) (e : NetworkEvent N Addr) : Prop :=
  ∀ x ∈ submitted e, source x.1 ∨ x.2 ∈ toldValues (atInbox x.1 before)

/-- All the time. -/
def Relays (source : N → Prop) : List (NetworkEvent N Addr) → List (NetworkEvent N Addr) → Prop
  | _, [] => True
  | before, e :: tr => RelaysAt source before e ∧ Relays source (before ++ [e]) tr

instance (source : N → Prop) [DecidablePred source] (before : List (NetworkEvent N Addr)) (e : NetworkEvent N Addr) :
    Decidable (RelaysAt source before e) := inferInstanceAs (Decidable (∀ x ∈ submitted e, _))

instance Relays.decidable (source : N → Prop) [DecidablePred source] :
    ∀ before tr : List (NetworkEvent N Addr), Decidable (Relays source before tr)
  | _, [] => inferInstanceAs (Decidable True)
  | before, e :: tr =>
    haveI := Relays.decidable source (before ++ [e]) tr
    inferInstanceAs (Decidable (RelaysAt source before e ∧ Relays source (before ++ [e]) tr))

omit [DecidableEq Addr] in
theorem relays_append {source : N → Prop} : ∀ {tr es before : List (NetworkEvent N Addr)},
    Relays source before (tr ++ es) ↔ Relays source before tr ∧ Relays source (before ++ tr) es
  | [], es, before => by simp [Relays]
  | e :: tr, es, before => by
    have ih : Relays source (before ++ [e]) (tr ++ es) ↔ _ := relays_append
    simp only [List.cons_append, Relays, ih, List.append_assoc, List.nil_append, and_assoc]

omit [DecidableEq Addr] in
theorem relaysAt_of_mem {source : N → Prop} {e : NetworkEvent N Addr} :
    ∀ {es before : List (NetworkEvent N Addr)}, Relays source before es → e ∈ es →
      ∃ es₁, es₁ <+: es ∧ RelaysAt source (before ++ es₁) e
  | e' :: es, before, h, hmem => by
    rcases List.mem_cons.mp hmem with rfl | hmem
    · exact ⟨[], List.nil_prefix, by simpa using h.1⟩
    · obtain ⟨es₁, hpre, hat⟩ := relaysAt_of_mem h.2 hmem
      exact ⟨e' :: es₁, List.cons_prefix_cons.mpr ⟨rfl, hpre⟩, by simpa using hat⟩

/-- There is or was a link from one node to another. -/
def Linked (links : List (Link N Addr σ κ ς)) (a b : N) : Prop :=
  ∃ (k : ℕ) (l : Link N Addr σ κ ς), links[k]? = some l ∧ l.source = a ∧ l.target = b

/-- Links are not removed. -/
theorem Linked.does {a b : N} (hl : Linked s.links a b) (h : Does rt cfg cg s act es s') : Linked s'.links a b := by
  obtain ⟨k, l, hl, rfl, rfl⟩ := hl
  rcases links_does h with hrun | ⟨_, _, _, -, hlinks⟩
  · obtain ⟨-, c, -, hl'⟩ := hrun.run k l hl
    exact ⟨k, _, hl', rfl, rfl⟩
  · refine ⟨k, l, ?_, rfl, rfl⟩
    rw [hlinks, List.getElem?_append_left (List.getElem?_eq_some_iff.mp hl).1]
    exact hl

/-- **Where a message at a node comes from**: a source submitted it there, or a call of the node's
own cover generator made it, or it was at a node with a link to this one. -/
inductive Custody (read : Bytes → M) (source : N → Prop) (links : List (Link N Addr σ κ ς))
    (tr : List (NetworkEvent N Addr)) : N → M → Prop
  /-- A source submitted it. -/
  | submitted {a : N} {n : ℕ} {lane : Lane} {target : Target Addr} {x : Bytes} (ha : source a)
      (hx : .node a (.accepted n lane target x) ∈ tr) : Custody read source links tr a (read x)
  /-- It is cover. -/
  | cover {a : N} {f : PendingFrame Addr} (hf : .node a (.cover f) ∈ tr) : Custody read source links tr a (read f.bytes)
  /-- It came over a link. -/
  | hop {a b : N} {m : M} (hl : Linked links a b) (h : Custody read source links tr a m) :
      Custody read source links tr b m

theorem Custody.does {source : N → Prop} {a : N} {m : M} (hm : Custody read source s.links tr a m)
    (h : Does rt cfg cg s act es s') : Custody read source s'.links (tr ++ es) a m := by
  induction hm with
  | submitted ha hx => exact .submitted ha (List.mem_append_left _ hx)
  | cover hf => exact .cover (List.mem_append_left _ hf)
  | hop hl _ ih => exact .hop (hl.does h) ih

/-- A step that a frame is accepted in is of its node's threads, and nobody is told anything. -/
theorem atInbox_of_submitted (h : Does rt cfg cg s act es s') {a : N} {e : Event Addr} (he : .node a e ∈ es) {b : N}
    {es₁ : List (NetworkEvent N Addr)} (hpre : es₁ <+: es) : atInbox b es₁ = [] := by
  suffices hall : atInbox b es = [] by
    have hsub : (atInbox b es₁).Sublist (atInbox b es) := hpre.sublist.filterMap _
    rwa [hall, List.sublist_nil] at hsub
  cases h with
  | @node c act refused es n _ _ =>
    rw [atInbox_append, atInbox_map_node, ((sentAll rt c (sends es) refused s.links).silent b).2.1]
    rfl
  | connect => rfl
  | disconnect => simp at he
  | link => simp at he
  | inbox => simp at he

omit [DecidableEq Addr] in
theorem mem_of_mem_atNode {a : N} {e : Event Addr} (h : e ∈ atNode a tr) : .node a e ∈ tr := by
  obtain ⟨e', he', hsome⟩ := List.mem_filterMap.mp h
  cases e' with
  | node b x =>
    by_cases hb : b = a
    · subst hb
      simp only [if_true, Option.some.injEq] at hsome
      rwa [hsome] at he'
    · simp [hb] at hsome
  | link => cases hsome
  | inbox => cases hsome

section Documented

variable (hrt : rt.Documented) (hlt : ∀ a, (cfg a).frameSize < 2 ^ 32)
  (hread : ∀ a, Legible (cg a) (cfg a).toShapeConfig read)

include hrt hlt hread

/-- What is told was in custody, if everything that was accepted was. -/
theorem custody_of_told {source : N → Prop} {sch : N → Scheduler Addr w} {gen : N → G} {as : List (NetworkAct N Addr)}
    (h : Run (Step rt cfg cg) (start rt sch gen) as tr s)
    (hi : ∀ a n lane target x, .node a (.accepted n lane target x) ∈ tr →
      Custody read source s.links tr a (read x)) {b : N} {i : ℕ} {y : Bytes}
    (hy : y ∈ values (told i (atInbox b tr))) : Custody read source s.links tr b (read y) := by
  obtain ⟨k, l, f, hl, hb, hsend, rfl⟩ := exists_send_of_told hrt hlt h hy
  refine .hop ⟨k, l, hl, rfl, hb⟩ ?_
  rcases read_of_send (hread l.source) h hsend with ⟨-, hf⟩ | ⟨n, lane, target, x, -, hacc, -, hx⟩
  · exact .cover (mem_of_mem_atNode hf)
  · rw [hx]
    exact hi _ _ _ _ _ (mem_of_mem_atNode hacc)

/-- Everything that is accepted was in custody, along every run in which applications relay. -/
theorem custody_run {source : N → Prop} {sch : N → Scheduler Addr w} {gen : N → G} {as : List (NetworkAct N Addr)}
    (h : Run (Step rt cfg cg) (start rt sch gen) as tr s) (hrelays : Relays source [] tr) :
    ∀ a n lane target x, .node a (.accepted n lane target x) ∈ tr →
      Custody read source s.links tr a (read x) := by
  induction h with
  | nil => exact fun _ _ _ _ _ hx => absurd hx List.not_mem_nil
  | @snoc as tr s act es s' hrun hs ih =>
    have hdoes := does_of_step hs
    obtain ⟨hbefore, hnow⟩ := relays_append.mp hrelays
    have ih := ih hbefore
    intro a n lane target x hx
    rcases List.mem_append.mp hx with hold | hnew
    · exact (ih a n lane target x hold).does hdoes
    obtain ⟨es₁, hpre, hat⟩ := relaysAt_of_mem hnow hnew
    rcases hat (a, x) rfl with ha | htold
    · exact .submitted ha hx
    · rw [List.nil_append, atInbox_append, atInbox_of_submitted hdoes hnew hpre, List.append_nil] at htold
      obtain ⟨i, hi⟩ := exists_told_of_mem _ htold
      exact (custody_of_told hrt hlt hread hrun ih hi).does hdoes

/-- **Messages that are relayed keep what they say.** Over any run of a network whose generators
leave real frames readable, and whose applications, but at the sources, submit only frames that
they were told of: what is read of a frame that a subscriber is told of is what was read of a
frame that a source submitted, or of cover that was made, at a node from which a row of links leads
here. -/
theorem told_custody {source : N → Prop} {sch : N → Scheduler Addr w} {gen : N → G} {as : List (NetworkAct N Addr)}
    (h : Run (Step rt cfg cg) (start rt sch gen) as tr s) (hrelays : Relays source [] tr) {b : N} {i : ℕ} {y : Bytes}
    (hy : y ∈ values (told i (atInbox b tr))) : Custody read source s.links tr b (read y) :=
  custody_of_told hrt hlt hread h (custody_run hrt hlt hread h hrelays) hy

omit hrt hlt hread in
/-- A frame goes from node 0 to node 1, and is relayed to node 2, with its identifier. -/
theorem told_custody_relay :
    let cfg : ℕ → NodeConfig := fun _ => { frameSize := 33, accepted := by decide }
    let s₀ : PlainNetwork ℕ ℕ (Stream' UInt8) :=
      start .plain (fun _ => { rng := Stream'.const 1 }) fun _ => Stream'.const 5
    let frame : Bytes := List.replicate 33 7
    let acts : List (NetworkAct ℕ ℕ) :=
      [.connect 0 1 1, .connect 1 2 2, .inbox 1 .subscribe, .inbox 2 .subscribe,
        .node 0 (.enqueue .high .broadcast frame) [], .node 0 .wake [], .node 0 (.snapshot [1]) [], .node 0 .sched [],
        .node 0 .sched [], .link 0 .write, .link 0 (.read 40), .inbox 1 (.recv 0),
        .node 1 (.enqueue .low .broadcast frame) [], .node 1 .wake [], .node 1 (.snapshot [2]) [], .node 1 .sched [],
        .node 1 .sched [], .node 1 .sched [], .link 1 .write, .link 1 (.read 40), .inbox 2 (.recv 0)]
    ∃ tr s, Run (Step .plain cfg fun _ => randomCover) s₀ acts tr s ∧ values (told 0 (atInbox 2 tr)) = [frame] ∧
      Custody (List.take idSize) (· = 0) s.links tr 2 (frame.take idSize) := by
  intro cfg s₀ frame acts
  obtain ⟨tr, s, hrun, htold, hrelays⟩ : ∃ tr s, Run (Step .plain cfg fun _ => randomCover) s₀ acts tr s ∧
      values (told 0 (atInbox 2 tr)) = [frame] ∧ Relays (· = 0) [] tr := exists_run_of_exec (by decide +kernel)
  have hlt : ∀ a, (cfg a).frameSize < 2 ^ 32 := fun _ => by decide
  have hread : ∀ a, Legible randomCover (cfg a).toShapeConfig (List.take idSize) := fun _ => legible_randomCover _ _
  exact ⟨tr, s, hrun, htold,
    told_custody Runtime.plain_documented hlt hread hrun hrelays (htold ▸ List.mem_singleton_self frame)⟩

end Documented

end Peashape.Network
