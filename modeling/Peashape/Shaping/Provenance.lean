import Peashape.Shaping.Interleaving

/-!
# Where sent frames come from

Over any interleaving, in either scope and under every strategy, with connections that
come and go and applications that refresh the cache and prune lanes as they like: a frame
handed to the writer for `q` is fresh from the cover generator, or it is what the
generator made of a frame that was accepted for everyone or for `q` itself
(`Provenance`). So a frame accepted for one peer is never sent to another
(`unicast_confidential`).

The invariant is about the frames in the lanes (`Traced`), which in `PerConnection` scope
carry the peer whose lane it is as their target, about the frame the scheduler holds, and
about the frames sent (`Sent`). Calls of `enqueue_raw` are numbered as they are accepted,
so a number names one call.
-/

namespace Peashape.Shaping

open Foundation Shaper SystemState

variable {Addr G : Type*} [DecidableEq Addr] {w : ℕ} {cfg : ShaperConfig} {cg : CoverGenerator G}
  {s s' : SystemState Addr G w} {a : Act Addr} {es tr : List (Event Addr)}

/-- Whether a frame with this target may be sent to `q`. -/
def Allows (q : Addr) : Target Addr → Prop
  | .unicast p => p = q
  | .broadcast => True

/-- How a frame accepted for `target` lies in the lanes of an owner: in the shared lanes
with its target, in the lanes of a peer addressed to that peer. -/
def Routed (f : PendingFrame Addr) (target : Target Addr) : Option Addr → Prop
  | none => f.target = target
  | some p => f.target = .unicast p ∧ Allows p target

/-- The frame is from an accepted call, and lies where that call put it. -/
def Traced (tr : List (Event Addr)) (owner : Option Addr) (f : PendingFrame Addr) : Prop :=
  ∃ n lane target, f.origin = .enqueued n ∧ .accepted n lane target f.bytes ∈ tr ∧ Routed f target owner

/-- The frame is fresh from the generator, or it is what the generator made of a frame
accepted for this peer. -/
def Sent (cfg : ShaperConfig) (cg : CoverGenerator G) (tr : List (Event Addr)) (q : Addr)
    (x : PendingFrame Addr) : Prop :=
  (x.origin = .cover ∧ .cover x ∈ tr ∧ ∃ g, x.bytes = (cg.cover cfg.toShapeConfig g).1) ∨
    ∃ n lane target b g, x.origin = .enqueued n ∧ .accepted n lane target b ∈ tr ∧
      x.bytes = (cg.finalizeReal cfg.toShapeConfig g b).1 ∧ Allows q target

section Mono

variable {owner : Option Addr} {f : PendingFrame Addr} {q : Addr}

omit [DecidableEq Addr] in
theorem Traced.mono (h : Traced tr owner f) (hsub : tr ⊆ es) : Traced es owner f := by
  obtain ⟨n, lane, target, ho, hacc, ht⟩ := h
  exact ⟨n, lane, target, ho, hsub hacc, ht⟩

omit [DecidableEq Addr] in
theorem Sent.mono (h : Sent cfg cg tr q f) (hsub : tr ⊆ es) : Sent cfg cg es q f := by
  rcases h with ⟨ho, hc, hg⟩ | ⟨n, lane, target, b, g, ho, hacc, hb, ht⟩
  · exact .inl ⟨ho, hsub hc, hg⟩
  · exact .inr ⟨n, lane, target, b, g, ho, hsub hacc, hb, ht⟩

end Mono

/-! ### What is put in a lane -/

/-- Every copy of a fan-out is for the peer in whose lane it is put. -/
theorem push_of_mem_fanOutToEvents {call : ℕ} {lane : Lane} {frame : Bytes} {owner : Option Addr} {k : Lane}
    {f : PendingFrame Addr} : ∀ {peers : List Addr} {s : Shaper Addr},
      Event.push owner k f ∈ fanOutToEvents cfg call lane frame peers s →
        ∃ peer, owner = some peer ∧ f = peerFrame peer frame call
  | [], _, h => by cases h
  | peer :: peers, s, h => by
    rcases List.mem_append.mp h with h | h
    · exact ⟨peer, owner_of_isAbout_push (isAbout_fanPushEvents cfg call lane frame s peer _ h),
        eq_of_mem_fanPushEvents h⟩
    · exact push_of_mem_fanOutToEvents h

omit [DecidableEq Addr] in
theorem not_accepted_of_isAbout {k : Option Addr} (h : ∀ e ∈ es, IsAbout k e) {n : ℕ} {lane : Lane}
    {target : Target Addr} {b : Bytes} : Event.accepted n lane target b ∉ es :=
  fun hmem => not_isAbout_accepted (h _ hmem)

theorem not_accepted_fanOutToEvents {call : ℕ} {lane : Lane} {frame : Bytes} {n : ℕ} {k : Lane}
    {target : Target Addr} {b : Bytes} : ∀ {peers : List Addr} {s : Shaper Addr},
      Event.accepted n k target b ∉ fanOutToEvents cfg call lane frame peers s
  | [], _ => by simp [fanOutToEvents]
  | peer :: peers, s => fun h => by
    rcases List.mem_append.mp h with h | h
    · exact not_accepted_of_isAbout (isAbout_fanPushEvents cfg call lane frame s peer) h
    · exact not_accepted_fanOutToEvents h

/-- What a submission puts in a lane is traced to its own acceptance. -/
theorem traced_of_mem_enqueueRawEvents {call : ℕ} {lane : Lane} {target : Target Addr} {frame : Bytes}
    {s : Shaper Addr} {owner : Option Addr} {k : Lane} {f : PendingFrame Addr}
    (h : Event.push owner k f ∈ enqueueRawEvents cfg call lane target frame s) :
    Traced (enqueueRawEvents cfg call lane target frame s) owner f := by
  rcases enqueueRaw_cases cfg call lane target frame s with
    ⟨e, s', -, hes, -⟩ | ⟨-, -, -, -, hes⟩ | ⟨-, -, p, rfl, -, -, hes⟩ | ⟨-, -, rfl, -, hes⟩ <;>
    rw [hes] at h ⊢
  · cases List.mem_singleton.mp h
  all_goals
    replace h := (List.mem_cons.mp h).resolve_left (by simp)
  · obtain rfl : owner = none := owner_of_isAbout_push (isAbout_pushGlobalEvents cfg lane _ s _ h)
    rw [eq_of_mem_pushGlobalEvents h]
    exact ⟨call, lane, target, rfl, List.mem_cons_self .., rfl⟩
  · obtain rfl : owner = some p := owner_of_isAbout_push (isAbout_pushPeerEvents cfg call p lane frame s _ h)
    rw [eq_of_mem_pushPeerEvents h]
    exact ⟨call, lane, .unicast p, rfl, List.mem_cons_self .., rfl, rfl⟩
  · obtain ⟨peer, rfl, rfl⟩ := push_of_mem_fanOutToEvents h
    exact ⟨call, lane, .broadcast, rfl, List.mem_cons_self .., rfl, trivial⟩

/-- A submission is accepted at most once, under its own number. -/
theorem eq_of_accepted_mem_enqueueRawEvents {call n : ℕ} {lane k : Lane} {target t : Target Addr}
    {frame b : Bytes} {s : Shaper Addr}
    (h : Event.accepted n k t b ∈ enqueueRawEvents cfg call lane target frame s) :
    n = call ∧ k = lane ∧ t = target ∧ b = frame := by
  rcases enqueueRaw_cases cfg call lane target frame s with
    ⟨e, s', -, hes, -⟩ | ⟨-, -, -, -, hes⟩ | ⟨-, -, p, rfl, -, -, hes⟩ | ⟨-, -, rfl, -, hes⟩ <;>
    rw [hes] at h
  · cases List.mem_singleton.mp h
  all_goals rcases List.mem_cons.mp h with h | h
  · cases h
    exact ⟨rfl, rfl, rfl, rfl⟩
  · exact (not_accepted_of_isAbout (isAbout_pushGlobalEvents cfg lane _ s) h).elim
  · cases h
    exact ⟨rfl, rfl, rfl, rfl⟩
  · exact (not_accepted_of_isAbout (isAbout_pushPeerEvents cfg call p lane frame s) h).elim
  · cases h
    exact ⟨rfl, rfl, rfl, rfl⟩
  · exact (not_accepted_fanOutToEvents h).elim

/-- A call accepts frames of the right size only. -/
theorem length_of_accepted_mem_enqueueRawEvents {call n : ℕ} {lane k : Lane} {target t : Target Addr}
    {frame b : Bytes} {s : Shaper Addr}
    (h : Event.accepted n k t b ∈ enqueueRawEvents cfg call lane target frame s) : b.length = cfg.frameSize := by
  obtain ⟨-, -, -, rfl⟩ := eq_of_accepted_mem_enqueueRawEvents h
  rcases enqueueRaw_cases cfg call lane target b s with ⟨_, _, -, hes, -⟩ | ⟨hsize, -⟩ | ⟨hsize, -⟩ | ⟨hsize, -⟩
  · rw [hes] at h
    cases List.mem_singleton.mp h
  all_goals exact hsize

/-! ### What is sent -/

omit [DecidableEq Addr] in
/-- Every frame sent by the loop of fresh cover is a result of `cover`. -/
theorem mem_sendCovers {targets : List Addr} {g : G} {q : Addr} {x : PendingFrame Addr}
    (h : Event.send q x ∈ (sendCovers cfg.toShapeConfig cg targets g).1) :
    x.origin = .cover ∧ .cover x ∈ (sendCovers cfg.toShapeConfig cg targets g).1 ∧
      ∃ g', x.bytes = (cg.cover cfg.toShapeConfig g').1 := by
  induction targets generalizing g with
  | nil => cases h
  | cons peer targets ih =>
    simp only [sendCovers, List.mem_cons, reduceCtorEq, false_or, Event.send.injEq] at h ⊢
    rcases h with ⟨rfl, rfl⟩ | h
    · exact ⟨rfl, .inl rfl, g, rfl⟩
    · obtain ⟨h1, h2, h3⟩ := ih h
      exact ⟨h1, .inr h2, h3⟩

/-- A dispatched frame goes to peers its target allows; everything else is fresh cover. -/
theorem mem_dispatchGlobal {peers : List Addr} {frame x : PendingFrame Addr} {g : G} {sch : Scheduler Addr w}
    {q : Addr} (h : Event.send q x ∈ (dispatchGlobal cfg cg peers frame g sch).events) :
    (x = frame ∧ Allows q frame.target) ∨
      (x.origin = .cover ∧ .cover x ∈ (dispatchGlobal cfg cg peers frame g sch).events ∧
        ∃ g', x.bytes = (cg.cover cfg.toShapeConfig g').1) := by
  cases ht : frame.target with
  | broadcast =>
    simp only [dispatchGlobal, ht, List.mem_map, Event.send.injEq] at h
    obtain ⟨_, -, -, rfl⟩ := h
    exact .inl ⟨rfl, trivial⟩
  | unicast p =>
    by_cases hp : p ∈ peers
    · simp only [dispatchGlobal, ht, hp, if_true, List.mem_cons, Event.send.injEq] at h
      rcases h with ⟨rfl, rfl⟩ | h
      · exact .inl ⟨rfl, rfl⟩
      · obtain ⟨h1, h2, h3⟩ := mem_sendCovers h
        refine .inr ⟨h1, ?_, h3⟩
        simp only [dispatchGlobal, ht, hp, if_true]
        exact List.mem_cons_of_mem _ h2
    · simp only [dispatchGlobal, ht, hp, if_false] at h
      obtain ⟨h1, h2, h3⟩ := mem_sendCovers h
      refine .inr ⟨h1, ?_, h3⟩
      simpa only [dispatchGlobal, ht, hp, if_false] using h2

omit [DecidableEq Addr] in
/-- A finalized frame, sent to a peer the call allows. -/
theorem sent_finalizeReal {f : PendingFrame Addr} {owner : Option Addr} (h : Traced tr owner f) (g : G) {q : Addr}
    (hq : ∀ target, Routed f target owner → Allows q target) :
    Sent cfg cg tr q (finalizeReal cfg.toShapeConfig cg f g).1 := by
  obtain ⟨n, lane, target, ho, hacc, ht⟩ := h
  exact .inr ⟨n, lane, target, f.bytes, g, ho, hacc, rfl, hq target ht⟩

/-! ### The invariant -/

/-- **Where everything comes from.** -/
structure Provenance (cfg : ShaperConfig) (cg : CoverGenerator G) (tr : List (Event Addr))
    (s : SystemState Addr G w) : Prop where
  /-- The frames in the lanes. -/
  lanes : ∀ owner lane, ∀ f ∈ (s.shaper.lanesAt owner).lane lane, Traced tr owner f
  /-- The frame the scheduler holds. -/
  held : ∀ f, s.pc.held = some f → Traced tr s.pc.heldFor f
  /-- The frames sent. -/
  sends : ∀ q x, .send q x ∈ tr → Sent cfg cg tr q x
  /-- The accepted calls are numbered. -/
  numbered : ∀ n lane target b, .accepted n lane target b ∈ tr → n < s.calls
  /-- A number names one call. -/
  unique : ∀ n lane target b lane' target' b', .accepted n lane target b ∈ tr →
    .accepted n lane' target' b' ∈ tr → lane = lane' ∧ target = target' ∧ b = b'

theorem Provenance.new (sch : Scheduler Addr w) (gen : G) :
    Provenance cfg cg [] (.new sch gen : SystemState Addr G w) where
  lanes owner lane f hf := by cases owner <;> cases lane <;> cases hf
  held _ h := by cases h
  sends _ _ h := by cases h
  numbered _ _ _ _ h := by cases h
  unique _ _ _ _ _ _ _ h := by cases h

/-- What a step puts in a lane is traced to a call it accepts. -/
theorem traced_of_push (h : Does cfg cg s a es s') {owner : Option Addr} {lane : Lane} {f : PendingFrame Addr}
    (hf : .push owner lane f ∈ es) : Traced es owner f := by
  rcases submits_cases h with hes | ⟨_, _, _, -, -, rfl⟩ | ⟨_, _, _, _, -, -, -, rfl⟩
  · cases hes _ hf
  · exact traced_of_mem_enqueueRawEvents hf
  · obtain ⟨peer, rfl, rfl⟩ := push_of_mem_fanOutToEvents ((List.mem_cons.mp hf).resolve_left (by simp))
    exact ⟨_, _, .broadcast, rfl, List.mem_cons_self .., rfl, trivial⟩

/-- The call a step accepts: its number is the next one, and the step is its submission or
the loop of its fan-out. -/
theorem accepted_does (h : Does cfg cg s a es s') {n : ℕ} {lane : Lane} {target : Target Addr} {b : Bytes}
    (hmem : .accepted n lane target b ∈ es) : n = s.calls ∧ s'.calls = s.calls + 1 ∧
      (a = .enqueue lane target b ∨
        ∃ i peers, a = .producer i ∧ s.producers[i]? = some (.fan lane b peers) ∧ target = .broadcast) := by
  rcases submits_cases h with hes | ⟨_, _, _, rfl, hcalls, rfl⟩ | ⟨i, _, _, peers, rfl, hi, hcalls, rfl⟩
  · cases hes _ hmem
  · obtain ⟨rfl, rfl, rfl, rfl⟩ := eq_of_accepted_mem_enqueueRawEvents hmem
    exact ⟨rfl, hcalls, .inl rfl⟩
  · rcases List.mem_cons.mp hmem with hmem | hmem
    · cases hmem
      exact ⟨rfl, hcalls, .inr ⟨i, peers, rfl, hi, rfl⟩⟩
    · exact (not_accepted_fanOutToEvents hmem).elim

/-- A step accepts at most one call. -/
theorem accepted_unique (h : Does cfg cg s a es s') {n n' : ℕ} {lane lane' : Lane} {target target' : Target Addr}
    {b b' : Bytes} (hmem : .accepted n lane target b ∈ es) (hmem' : .accepted n' lane' target' b' ∈ es) :
    lane = lane' ∧ target = target' ∧ b = b' := by
  obtain ⟨-, -, rfl | ⟨i, peers, rfl, hi, rfl⟩⟩ := accepted_does h hmem <;>
    obtain ⟨-, -, h' | ⟨i', peers', h', hi', rfl⟩⟩ := accepted_does h hmem' <;> cases h'
  · exact ⟨rfl, rfl, rfl⟩
  · rw [hi] at hi'
    cases hi'
    exact ⟨rfl, rfl, rfl⟩

/-- A frame that is accepted has the right size. -/
theorem length_of_accepted_does (hs : SystemWf cfg s) (h : Does cfg cg s a es s') {n : ℕ} {lane : Lane}
    {target : Target Addr} {b : Bytes} (hmem : .accepted n lane target b ∈ es) : b.length = cfg.frameSize := by
  rcases submits_cases h with hes | ⟨_, _, _, -, -, rfl⟩ | ⟨i, _, _, _, -, hi, -, rfl⟩
  · cases hes _ hmem
  · exact length_of_accepted_mem_enqueueRawEvents hmem
  · rcases List.mem_cons.mp hmem with hmem | hmem
    · cases hmem
      exact (hs.fans _ _ _ (List.mem_of_getElem? hi)).2
    · exact (not_accepted_fanOutToEvents hmem).elim

/-- So has every frame that was accepted, over any interleaving. -/
theorem length_of_accepted_run {sch : Scheduler Addr w} {gen : G} {as : List (Act Addr)}
    (h : Run (Step cfg cg) (.new sch gen) as tr s) {n : ℕ} {lane : Lane} {target : Target Addr} {b : Bytes}
    (hmem : .accepted n lane target b ∈ tr) : b.length = cfg.frameSize := by
  refine h.invariant_of (J := fun _ s => SystemWf cfg s)
    (I := fun tr _ => ∀ n lane target b, .accepted n lane target b ∈ tr → b.length = cfg.frameSize)
    (fun h => systemWf_run (.new sch gen) h) (fun _ _ _ _ h => by cases h) ?_ n lane target b hmem
  intro tr s a es s' hs hi hstep n lane target b hmem
  rcases List.mem_append.mp hmem with hmem | hmem
  · exact hi n lane target b hmem
  · exact length_of_accepted_does hs (does_of_step hstep) hmem

theorem calls_le_does (h : Does cfg cg s a es s') : s.calls ≤ s'.calls := by
  cases h <;> first | exact le_rfl | exact Nat.le_succ _

/-- What a step pops was in the lane. -/
theorem mem_of_nextFrameFor {peer : Addr} {sh : Shaper Addr} {f : PendingFrame Addr}
    (h : (sh.nextFrameFor peer).1 = some f) : ∃ lane, f ∈ (sh.lanesOf peer).lane lane := by
  rcases nextFrameFor_cases peer sh with ⟨g, high, low, hl, hn⟩ | ⟨g, low, hl, hn⟩ | ⟨-, hn⟩ <;>
    rw [hn] at h <;> cases h
  · exact ⟨.high, by rw [hl]; exact List.mem_cons_self ..⟩
  · exact ⟨.low, by rw [hl]; exact List.mem_cons_self ..⟩

/-- What the scheduler holds after a step it held before, or popped from a lane. -/
theorem held_does (h : Does cfg cg s a es s') {f : PendingFrame Addr} (hf : s'.pc.held = some f) :
    (s.pc.held = some f ∧ s'.pc.heldFor = s.pc.heldFor) ∨
      ∃ lane, f ∈ (s.shaper.lanesAt s'.pc.heldFor).lane lane := by
  cases h with
  | @visit peer todo _ =>
    rw [held_afterVisit] at hf
    obtain ⟨lane, hmem⟩ := mem_of_nextFrameFor hf
    refine .inr ⟨lane, ?_⟩
    rw [hf]
    exact hmem
  | @popHigh p ps _ =>
    rw [held_afterPopHigh] at hf
    refine .inr ⟨.high, ?_⟩
    rw [hf]
    exact List.mem_of_mem_head? hf
  | @popLow p ps _ =>
    rw [held_afterPopLow] at hf
    refine .inr ⟨.low, ?_⟩
    rw [hf]
    exact List.mem_of_mem_head? hf
  | snapshot => simp at hf
  | prune => simp at hf
  | walk => simp at hf
  | deliver => simp at hf
  | dispatch => simp at hf
  | tick => cases hf
  | consume => cases hf
  | refresh => cases hf
  | pick => cases hf
  | _ => exact .inl ⟨hf, rfl⟩

/-- What a step sends. -/
theorem sent_does (h : Does cfg cg s a es s') (hheld : ∀ f, s.pc.held = some f → Traced tr s.pc.heldFor f)
    {q : Addr} {x : PendingFrame Addr} (hx : .send q x ∈ es) : Sent cfg cg (tr ++ es) q x := by
  rcases events_does h with hes | ⟨peers, -, rfl⟩ | ⟨peer, frame, todo, -, hpc, rfl⟩ | ⟨p, ps, frame, -, hpc, rfl⟩
  · cases hes _ hx
  · simp at hx
  · rw [hpc] at hheld
    simp only [List.mem_cons, List.not_mem_nil, or_false] at hx
    cases frame with
    | none =>
      simp only [frameToSend, reduceCtorEq, false_or, Event.send.injEq] at hx
      obtain ⟨rfl, rfl⟩ := hx
      exact .inl ⟨rfl, List.mem_append_right _ (List.mem_cons_self ..), _, rfl⟩
    | some f =>
      simp only [frameToSend, reduceCtorEq, false_or, Event.send.injEq] at hx
      obtain ⟨rfl, rfl⟩ := hx
      have htr : Traced tr (some q) f := hheld f rfl
      exact (sent_finalizeReal htr s.gen fun _ ht => ht.2).mono (List.subset_append_left _ _)
  · rw [hpc] at hheld
    have hx' : Event.send q x ∈ (dispatchGlobal cfg cg (p :: ps) (frameToSend cfg cg frame s.gen).1
        (frameToSend cfg cg frame s.gen).2.2 s.scheduler).events := by
      apply (List.mem_cons.mp hx).resolve_left
      intro h
      cases frame <;> cases h
    rcases mem_dispatchGlobal hx' with ⟨rfl, hq⟩ | ⟨ho, hc, hg⟩
    · cases frame with
      | none => exact .inl ⟨rfl, List.mem_append_right _ (List.mem_cons_self ..), _, rfl⟩
      | some f =>
        have htr : Traced tr none f := hheld f rfl
        refine (sent_finalizeReal htr s.gen fun target ht => ?_).mono (List.subset_append_left _ _)
        have hroute : f.target = target := ht
        exact hroute ▸ hq
    · exact .inl ⟨ho, List.mem_append_right _ (List.mem_cons_of_mem _ hc), hg⟩

/-- **A step keeps the invariant.** -/
theorem Provenance.does (hi : Provenance cfg cg tr s) (h : Does cfg cg s a es s') :
    Provenance cfg cg (tr ++ es) s' where
  lanes owner lane f hf := by
    rcases (laneRun_does h owner).mem_or_push hf with hf | hf
    · exact (hi.lanes owner lane f hf).mono (List.subset_append_left _ _)
    · exact (traced_of_push h hf).mono (List.subset_append_right _ _)
  held f hf := by
    rcases held_does h hf with ⟨hf, howner⟩ | ⟨lane, hf⟩
    · rw [howner]
      exact (hi.held f hf).mono (List.subset_append_left _ _)
    · exact (hi.lanes _ lane f hf).mono (List.subset_append_left _ _)
  sends q x hx := by
    rcases List.mem_append.mp hx with hx | hx
    · exact (hi.sends q x hx).mono (List.subset_append_left _ _)
    · exact sent_does h hi.held hx
  numbered n lane target b hacc := by
    rcases List.mem_append.mp hacc with hacc | hacc
    · exact (hi.numbered n lane target b hacc).trans_le (calls_le_does h)
    · obtain ⟨rfl, hcalls, -⟩ := accepted_does h hacc
      omega
  unique n lane target b lane' target' b' hacc hacc' := by
    rcases List.mem_append.mp hacc with hold | hnew <;> rcases List.mem_append.mp hacc' with hold' | hnew'
    · exact hi.unique n lane target b lane' target' b' hold hold'
    · obtain ⟨rfl, -⟩ := accepted_does h hnew'
      exact absurd (hi.numbered _ _ _ _ hold) (lt_irrefl _)
    · obtain ⟨rfl, -⟩ := accepted_does h hnew
      exact absurd (hi.numbered _ _ _ _ hold') (lt_irrefl _)
    · exact accepted_unique h hnew hnew'

/-- It holds after any interleaving. -/
theorem provenance_run {sch : Scheduler Addr w} {gen : G} {as : List (Act Addr)}
    (h : Run (Step cfg cg) (.new sch gen) as tr s) : Provenance cfg cg tr s :=
  h.invariant (Provenance.new sch gen) fun hi hstep => hi.does (does_of_step hstep)

/-- **Unicast confidentiality.** Over any interleaving: a frame accepted for `p` alone is
sent to no other peer. What is sent to `q` is fresh cover, or what the generator made of
a frame accepted for everyone or for `q`. -/
theorem unicast_confidential {sch : Scheduler Addr w} {gen : G} {as : List (Act Addr)}
    (h : Run (Step cfg cg) (.new sch gen) as tr s) :
    (∀ n lane p b q x, .accepted n lane (.unicast p) b ∈ tr → .send q x ∈ tr → x.origin = .enqueued n → q = p) ∧
      ∀ q x, .send q x ∈ tr → Sent cfg cg tr q x := by
  have hi := provenance_run h
  refine ⟨fun n lane p b q x hacc hsend ho => ?_, hi.sends⟩
  rcases hi.sends q x hsend with ⟨ho', -⟩ | ⟨m, lane', target, b', g, ho', hacc', -, hq⟩
  · rw [ho] at ho'
    cases ho'
  · obtain rfl : n = m := by
      rw [ho] at ho'
      exact Origin.enqueued.inj ho'
    obtain ⟨-, rfl, -⟩ := hi.unique n _ _ _ _ _ _ hacc hacc'
    exact hq.symm

/-- A unicast frame for one of two peers, sent on a tick with cover for the other. -/
theorem unicast_confidential_tick :
    let cfg : ShaperConfig := { fanout := 2, frameSize := 32, accepted := by decide }
    let s₀ : SystemState ℕ (Stream' UInt8) 64 := .new { rng := Stream'.const 1 } (Stream'.const 5)
    let acts : List (Act ℕ) :=
      [.connect 1, .connect 2, .enqueue .high (.unicast 1) (List.replicate 32 7), .wake, .snapshot [1, 2],
        .sched, .sched]
    ∃ tr s, exec (step cfg randomCover) s₀ acts = some (tr, s) ∧
      (∀ n lane p b q x, .accepted n lane (.unicast p) b ∈ tr → .send q x ∈ tr → x.origin = .enqueued n → q = p) ∧
        ∀ q x, .send q x ∈ tr → Sent cfg randomCover tr q x := by
  intro cfg s₀ acts
  obtain ⟨tr, s, h⟩ : ∃ tr s, exec (step cfg randomCover) s₀ acts = some (tr, s) := ⟨_, _, rfl⟩
  exact ⟨tr, s, h, unicast_confidential (run_of_exec h)⟩

end Peashape.Shaping
