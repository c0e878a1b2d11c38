import Peashape.Foundation.Counting
import Peashape.Shaping.Provenance

/-!
# Generators that number their results

A cover generator can write a number onto each of its results, cover and finalized frames
alike, and count on: `finalize_real` is called in send order. Over any interleaving the results
of such a generator count from its first state (`counts_run`).

What one peer is sent is an unbroken row of these results if nothing keeps one from it: in
`PerConnection` scope another peer in a snapshot would, in `Global` scope a snapshot with more
peers than the fanout, or a frame for one peer alone (`Undivided`). See `sentTo_suffix`.
-/

namespace Peashape.Shaping

open Foundation Shaper SystemState

variable {Addr G H : Type*} [DecidableEq Addr] {w : ℕ} {cfg : ShaperConfig} {cg : CoverGenerator G}
  {s s' : SystemState Addr G w} {a : Act Addr} {es tr : List (Event Addr)} {read : Bytes → Option H}
  {next : G → H} {succ : H → H}

/-- A generator whose results carry numbers: each the next one, and then its successor is next. -/
structure Numbers (cg : CoverGenerator G) (c : ShapeConfig) (read : Bytes → Option H) (next : G → H)
    (succ : H → H) : Prop where
  /-- A cover frame. -/
  cover : ∀ g, read (cg.cover c g).1 = some (next g) ∧ next (cg.cover c g).2 = succ (next g)
  /-- A finalized frame. -/
  finalizeReal : ∀ g frame, frame.length = c.frameSize →
    read (cg.finalizeReal c g frame).1 = some (next g) ∧ next (cg.finalizeReal c g frame).2 = succ (next g)

/-! ### The calls of the generator -/

omit [DecidableEq Addr] in
/-- Fresh cover for some targets. -/
theorem numbers_sendCovers (hn : Numbers cg cfg.toShapeConfig read next succ) (targets : List Addr) (g : G) :
    Counts (fun f : PendingFrame Addr => read f.bytes) succ (next g)
        (genResults (sendCovers cfg.toShapeConfig cg targets g).1) ∧
      next (sendCovers cfg.toShapeConfig cg targets g).2 =
        succ^[(genResults (sendCovers cfg.toShapeConfig cg targets g).1).length] (next g) := by
  induction targets generalizing g with
  | nil => exact ⟨trivial, rfl⟩
  | cons peer targets ih =>
    obtain ⟨hread, hnext⟩ := hn.cover g
    obtain ⟨hcount, hlast⟩ := ih (cg.cover cfg.toShapeConfig g).2
    rw [hnext] at hcount hlast
    exact ⟨⟨hread, hcount⟩, hlast⟩

/-- A dispatch. -/
theorem numbers_dispatchGlobal (hn : Numbers cg cfg.toShapeConfig read next succ) (peers : List Addr)
    (frame : PendingFrame Addr) (g : G) (sch : Scheduler Addr w) :
    let d := dispatchGlobal cfg cg peers frame g sch
    Counts (fun f : PendingFrame Addr => read f.bytes) succ (next g) (genResults d.events) ∧
      next d.gen = succ^[(genResults d.events).length] (next g) := by
  intro d
  cases ht : frame.target with
  | broadcast =>
    have hnone : genResults d.events = [] := by
      simp only [d, dispatchGlobal, ht, genResults, List.filterMap_map]
      exact List.filterMap_eq_nil_iff.mpr fun _ _ => rfl
    have hgen : d.gen = g := by simp only [d, dispatchGlobal, ht]
    rw [hnone, hgen]
    exact ⟨trivial, rfl⟩
  | unicast p =>
    by_cases hp : p ∈ peers
    · have hcovers := numbers_sendCovers hn (sch.pickTargets (peers.filter (· ≠ p))
        (min (effectiveFanout cfg peers - 1) (peers.filter (· ≠ p)).length)).1 g
      simp only [d, dispatchGlobal, ht, hp, if_true]
      exact hcovers
    · have hcovers := numbers_sendCovers hn (sch.pickTargets peers (effectiveFanout cfg peers)).1 g
      simp only [d, dispatchGlobal, ht, hp, if_false]
      exact hcovers

omit [DecidableEq Addr] in
/-- The frame of a tick. -/
theorem numbers_frameToSend (hn : Numbers cg cfg.toShapeConfig read next succ) {frame : Option (PendingFrame Addr)}
    (hsize : ∀ f, frame = some f → f.bytes.length = cfg.frameSize) (g : G) :
    read (frameToSend cfg cg frame g).1.bytes = some (next g) ∧ next (frameToSend cfg cg frame g).2.2 = succ (next g) := by
  cases frame with
  | none => exact hn.cover g
  | some f => exact hn.finalizeReal g f.bytes (hsize f rfl)

/-- **What a step does with the generator**: nothing, or the call for the frame of a tick, and
in `Global` scope what the dispatch does. -/
theorem calls_does (h : Does cfg cg s a es s') : (genResults es = [] ∧ sends es = [] ∧ s'.gen = s.gen) ∨
    (∃ peer frame todo, s.pc = .deliver peer frame todo ∧ genResults es = [(frameToSend cfg cg frame s.gen).1] ∧
      sends es = [(peer, (frameToSend cfg cg frame s.gen).1)] ∧ s'.gen = (frameToSend cfg cg frame s.gen).2.2) ∨
    ∃ p ps frame, s.pc = .dispatch p ps frame ∧
      genResults es = (frameToSend cfg cg frame s.gen).1 :: genResults (dispatchGlobal cfg cg (p :: ps)
        (frameToSend cfg cg frame s.gen).1 (frameToSend cfg cg frame s.gen).2.2 s.scheduler).events ∧
      sends es = sends (dispatchGlobal cfg cg (p :: ps)
        (frameToSend cfg cg frame s.gen).1 (frameToSend cfg cg frame s.gen).2.2 s.scheduler).events ∧
      s'.gen = (dispatchGlobal cfg cg (p :: ps)
        (frameToSend cfg cg frame s.gen).1 (frameToSend cfg cg frame s.gen).2.2 s.scheduler).gen := by
  have quiet {es : List (Event Addr)} (hes : ∀ e ∈ es, e.ofShaper = true) :
      genResults es = [] ∧ sends es = [] ∧ s.gen = s.gen :=
    ⟨(reads_of_ofShaper hes).2, (reads_of_ofShaper hes).1, rfl⟩
  cases h with
  | enqueue _ => exact .inl (quiet ofShaper_enqueueRawEvents)
  | @fan i lane frame peers _ =>
    refine .inl (quiet fun e he => ?_)
    rcases List.mem_cons.mp he with rfl | he
    · rfl
    · exact ofShaper_fanOutToEvents _ _ e he
  | prune _ => exact .inl (quiet (ofShaper_prunePeerLanesEvents _ _))
  | prunePeerLanes => exact .inl (quiet (ofShaper_prunePeerLanesEvents _ _))
  | visit _ => exact .inl (quiet ofShaper_nextFrameForEvents)
  | popHigh _ => exact .inl (quiet ofShaper_popHighEvents)
  | popLow _ => exact .inl (quiet ofShaper_popLowEvents)
  | @deliver peer frame todo hpc =>
    refine .inr (.inl ⟨peer, frame, todo, hpc, ?_, ?_, rfl⟩) <;> cases frame <;> rfl
  | @dispatch p ps frame hpc =>
    refine .inr (.inr ⟨p, ps, frame, hpc, ?_, ?_, rfl⟩) <;> cases frame <;> rfl
  | _ => exact .inl ⟨rfl, rfl, rfl⟩

/-- A step counts on. -/
theorem counts_does (hn : Numbers cg cfg.toShapeConfig read next succ) (hs : SystemWf cfg s)
    (h : Does cfg cg s a es s') :
    Counts (fun f : PendingFrame Addr => read f.bytes) succ (next s.gen) (genResults es) ∧
      next s'.gen = succ^[(genResults es).length] (next s.gen) := by
  rcases calls_does h with ⟨hes, -, hgen⟩ | ⟨peer, frame, todo, hpc, hes, -, hgen⟩ | ⟨p, ps, frame, hpc, hes, -, hgen⟩
  · rw [hes, hgen]
    exact ⟨trivial, rfl⟩
  · have hsize : ∀ f, frame = some f → f.bytes.length = cfg.frameSize := fun f hf => hs.held f (by rw [hpc]; exact hf)
    obtain ⟨hread, hnext⟩ := numbers_frameToSend hn hsize s.gen
    rw [hes, hgen]
    exact ⟨⟨hread, trivial⟩, hnext⟩
  · have hsize : ∀ f, frame = some f → f.bytes.length = cfg.frameSize := fun f hf => hs.held f (by rw [hpc]; exact hf)
    obtain ⟨hread, hnext⟩ := numbers_frameToSend hn hsize s.gen
    obtain ⟨hcount, hlast⟩ := numbers_dispatchGlobal hn (p :: ps) (frameToSend cfg cg frame s.gen).1
      (frameToSend cfg cg frame s.gen).2.2 s.scheduler
    rw [hnext] at hcount hlast
    rw [hes, hgen]
    exact ⟨⟨hread, hcount⟩, hlast⟩

/-- **The results of a generator that numbers them count**, over any interleaving, from what
its first state carries. -/
theorem counts_run (hn : Numbers cg cfg.toShapeConfig read next succ) {sch : Scheduler Addr w} {gen : G}
    {as : List (Act Addr)} (h : Run (Step cfg cg) (.new sch gen) as tr s) :
    Counts (fun f : PendingFrame Addr => read f.bytes) succ (next gen) (genResults tr) ∧
      next s.gen = succ^[(genResults tr).length] (next gen) := by
  refine h.invariant_of (J := fun _ s => SystemWf cfg s)
    (I := fun tr s => Counts (fun f : PendingFrame Addr => read f.bytes) succ (next gen) (genResults tr) ∧
      next s.gen = succ^[(genResults tr).length] (next gen))
    (fun h => systemWf_run (.new sch gen) h) ⟨trivial, rfl⟩ fun {tr s a es s'} hs hi hstep => ?_
  obtain ⟨hcount, hlast⟩ := hi
  obtain ⟨hcount', hlast'⟩ := counts_does hn hs (does_of_step hstep)
  rw [genResults_append, counts_append_iff, List.length_append, Nat.add_comm, Function.iterate_add_apply, ← hlast]
  exact ⟨⟨hcount, hcount'⟩, hlast'⟩

/-! ### What one peer is sent -/

/-- The frames handed to the writer for a peer. -/
def sentTo (p : Addr) (tr : List (Event Addr)) : List (PendingFrame Addr) :=
  ((sends tr).filter fun x => decide (x.1 = p)).map Prod.snd

@[simp] theorem sentTo_append (p : Addr) (tr tr' : List (Event Addr)) :
    sentTo p (tr ++ tr') = sentTo p tr ++ sentTo p tr' := by
  simp only [sentTo, sends_append, List.filter_append, List.map_append]

/-- An event after which every result of the generator still goes to `p`: a snapshot without
other peers, or with no more than the fanout, and in `Global` scope a frame for everyone. -/
def Undivided (cfg : ShaperConfig) (p : Addr) : Event Addr → Prop
  | .snapshot peers => if cfg.scope = .global then peers.length ≤ cfg.fanout else ∀ q ∈ peers, q = p
  | .accepted _ _ target _ => cfg.scope = .global → target = .broadcast
  | _ => True

instance (cfg : ShaperConfig) (p : Addr) : DecidablePred (Undivided cfg p)
  | .snapshot peers =>
    inferInstanceAs (Decidable (if cfg.scope = .global then peers.length ≤ cfg.fanout else ∀ q ∈ peers, q = p))
  | .accepted _ _ target _ => inferInstanceAs (Decidable (cfg.scope = .global → target = .broadcast))
  | .refused _ _ | .push _ _ _ | .evict _ _ _ | .pop _ _ _ | .prune _ | .cover _ | .finalizeReal _ _ | .send _ _ =>
    inferInstanceAs (Decidable True)

/-- The peers the scheduler is about to serve. -/
def peersOf : Pc Addr → List Addr
  | .idle | .woken | .walk => []
  | .refresh peers | .prune peers => peers
  | .pick p ps | .popHigh p ps | .popLow p ps | .dispatch p ps _ => p :: ps
  | .visit peer todo | .deliver peer _ todo => peer :: todo

/-- Among the peers the scheduler is about to serve, none keeps a result from `p`. -/
def AllFor (cfg : ShaperConfig) (p : Addr) (pc : Pc Addr) : Prop :=
  if cfg.scope = .global then (peersOf pc).length ≤ cfg.fanout else ∀ q ∈ peersOf pc, q = p

omit [DecidableEq Addr] in
theorem peersOf_visitNext (todo : List Addr) : peersOf (visitNext todo) = todo := by
  cases todo <;> rfl

omit [DecidableEq Addr] in
theorem peersOf_afterSnapshot (peers : List Addr) : peersOf (afterSnapshot cfg peers) = peers := by
  unfold afterSnapshot
  split <;> rfl

/-- The peers to be served come from a snapshot; in `Global` scope a tick is for all of them. -/
theorem peersOf_does (hwf : PcWf cfg s.pc) (hpass : cfg.scope ≠ .global → passthrough cfg = false)
    (h : Does cfg cg s a es s') : peersOf s'.pc = [] ∨ (∃ peers, .snapshot peers ∈ es ∧ peersOf s'.pc = peers) ∨
      (peersOf s'.pc ⊆ peersOf s.pc ∧ (cfg.scope = .global → peersOf s'.pc = peersOf s.pc)) := by
  have hsame : ∀ {pc pc' : Pc Addr}, peersOf pc' = peersOf pc →
      peersOf pc' ⊆ peersOf pc ∧ (cfg.scope = .global → peersOf pc' = peersOf pc) :=
    fun heq => ⟨heq ▸ List.Subset.refl _, fun _ => heq⟩
  cases h with
  | @snapshot peers _ _ _ => exact .inr (.inl ⟨peers, List.mem_singleton_self _, peersOf_afterSnapshot peers⟩)
  | @refresh peers hpc => exact .inr (.inr (hsame (by rw [hpc]; rfl)))
  | @prune peers hpc =>
    rw [hpc] at hwf
    refine .inr (.inr (hsame ?_))
    rw [hpc]
    cases peers with
    | nil => rfl
    | cons p ps => simp only [afterPrune, hpass hwf.1, Bool.false_eq_true, if_false, peersOf]
  | @pick p ps hpc =>
    rw [hpc] at hwf ⊢
    refine .inr (.inr ⟨?_, fun hscope => absurd hscope hwf.1⟩)
    exact List.cons_subset.mpr ⟨List.get_mem _ _, List.nil_subset _⟩
  | walk hpc =>
    rw [hpc] at hwf
    exact absurd hwf.2 (by rw [hpass hwf.1]; decide)
  | @visit peer todo hpc =>
    rw [hpc] at hwf
    refine .inr (.inr (hsame ?_))
    rw [hpc]
    cases (s.shaper.nextFrameFor peer).1 with
    | none => simp only [afterVisit, hpass hwf.1, Bool.false_eq_true, if_false, peersOf]
    | some f => rfl
  | @deliver peer frame todo hpc =>
    rw [hpc] at hwf
    refine .inr (.inr ⟨?_, fun hscope => absurd hscope hwf.1⟩)
    rw [hpc]
    exact (peersOf_visitNext todo).symm ▸ List.subset_cons_self peer todo
  | @popHigh p ps hpc =>
    refine .inr (.inr (hsame ?_))
    rw [hpc]
    cases s.shaper.popHigh.1 <;> rfl
  | @popLow p ps hpc =>
    rw [hpc]
    cases s.shaper.popLow.1 with
    | some f => exact .inr (.inr (hsame rfl))
    | none =>
      cases hp : passthrough cfg with
      | true => exact .inl (by simp only [afterPopLow, hp, if_true, peersOf])
      | false => exact .inr (.inr (hsame (by simp only [afterPopLow, hp, Bool.false_eq_true, if_false, peersOf])))
  | @dispatch p ps frame hpc =>
    rw [hpc]
    cases hp : passthrough cfg with
    | true => exact .inr (.inr (hsame (by simp only [afterDispatch, hp, if_true, peersOf])))
    | false => exact .inl (by simp only [afterDispatch, hp, Bool.false_eq_true, if_false, peersOf])
  | tick hpc _ => exact .inl rfl
  | consume hpc _ _ => exact .inl rfl
  | _ => exact .inr (.inr (hsame rfl))

/-- A step keeps every result of the generator for `p`. -/
theorem allFor_does {p : Addr} (hwf : PcWf cfg s.pc) (hpass : cfg.scope ≠ .global → passthrough cfg = false)
    (hall : AllFor cfg p s.pc) (hes : ∀ e ∈ es, Undivided cfg p e) (h : Does cfg cg s a es s') : AllFor cfg p s'.pc := by
  unfold AllFor at hall ⊢
  rcases peersOf_does hwf hpass h with hnil | ⟨peers, hmem, hpeers⟩ | ⟨hsub, heq⟩
  · rw [hnil]
    split_ifs
    · exact Nat.zero_le _
    · exact fun q hq => absurd hq List.not_mem_nil
  · rw [hpeers]
    exact hes _ hmem
  · split_ifs at hall ⊢ with hscope
    · rw [heq hscope]
      exact hall
    · exact fun q hq => hall q (hsub hq)

variable (cg) in
/-- A broadcast to no more peers than the fanout goes to each of them once. -/
theorem sentTo_broadcast {peers : List Addr} (hnd : peers.Nodup) (hfew : peers.length ≤ cfg.fanout) (hne : peers ≠ [])
    {frame : PendingFrame Addr} (ht : frame.target = .broadcast) (g : G) (sch : Scheduler Addr w) (p : Addr) :
    sentTo p (dispatchGlobal cfg cg peers frame g sch).events = if p ∈ peers then [frame] else [] := by
  have hpos := List.length_pos_iff.mpr hne
  obtain ⟨rest, hperm⟩ := pickTargets_perm peers (effectiveFanout cfg peers) sch
  have hlen := length_pickTargets peers (effectiveFanout cfg peers) sch
  have hrest : rest = [] := by
    have htotal := hperm.length_eq
    rw [List.length_append, hlen, effectiveFanout] at htotal
    exact List.eq_nil_of_length_eq_zero (by omega)
  rw [hrest, List.append_nil] at hperm
  rw [sentTo, sends_dispatchGlobal_broadcast cfg cg g sch ht, List.filter_map, List.map_map]
  have hpicked : ((sch.pickTargets peers (effectiveFanout cfg peers)).1.filter fun q => decide (q = p)) =
      if p ∈ peers then [p] else [] := by
    rw [List.filter_eq, hperm.count_eq]
    split_ifs with hp
    · rw [List.count_eq_one_of_mem hnd hp, List.replicate_one]
    · rw [List.count_eq_zero_of_not_mem hp, List.replicate_zero]
  have hfilter : (fun x : Addr × PendingFrame Addr => decide (x.1 = p)) ∘ (fun peer => (peer, frame)) =
      fun q => decide (q = p) := rfl
  rw [hfilter, hpicked]
  split_ifs <;> rfl

/-- **What a step sends to `p`**: every result of the generator, if the tick is for `p`, and
otherwise nothing. -/
theorem sentTo_does {p : Addr} (hwf : PcWf cfg s.pc) (hall : AllFor cfg p s.pc)
    (hheld : cfg.scope = .global → ∀ f, s.pc.held = some f → f.target = .broadcast) (h : Does cfg cg s a es s') :
    (sentTo p es = genResults es ∨ peersOf s.pc ≠ [] ∧ p ∉ peersOf s.pc) ∧ (p ∉ peersOf s.pc → sentTo p es = []) := by
  rcases calls_does h with ⟨hcalls, hsends, -⟩ | ⟨peer, frame, todo, hpc, hcalls, hsends, -⟩ |
    ⟨q, qs, frame, hpc, hcalls, hsends, -⟩
  · rw [sentTo, hsends, hcalls]
    exact ⟨.inl rfl, fun _ => rfl⟩
  · rw [hpc] at hwf hall ⊢
    rw [AllFor, if_neg hwf.1] at hall
    obtain rfl : peer = p := hall peer List.mem_cons_self
    rw [sentTo, hsends, hcalls]
    exact ⟨.inl (by simp), fun hp => absurd List.mem_cons_self hp⟩
  · rw [hpc] at hwf hall ⊢
    rw [AllFor, if_pos hwf.1] at hall
    have ht : (frameToSend cfg cg frame s.gen).1.target = .broadcast := by
      cases frame with
      | none => rfl
      | some f => exact hheld hwf.1 f (by rw [hpc]; rfl)
    have hnone : genResults (dispatchGlobal cfg cg (q :: qs) (frameToSend cfg cg frame s.gen).1
        (frameToSend cfg cg frame s.gen).2.2 s.scheduler).events = [] := by
      simp only [dispatchGlobal, ht, genResults, List.filterMap_map]
      exact List.filterMap_eq_nil_iff.mpr fun _ _ => rfl
    have hsent := sentTo_broadcast cg hwf.2.1 hall (List.cons_ne_nil q qs) ht
      (frameToSend cfg cg frame s.gen).2.2 s.scheduler p
    rw [sentTo] at hsent ⊢
    rw [hsends, hsent, hcalls, hnone]
    by_cases hp : p ∈ q :: qs
    · rw [if_pos hp]
      exact ⟨.inl rfl, fun h => absurd hp h⟩
    · rw [if_neg hp]
      exact ⟨.inr ⟨List.cons_ne_nil q qs, hp⟩, fun _ => rfl⟩

/-- What holds in a run whose events are all undivided for `p`. -/
theorem undivided_run {p : Addr} (hpass : cfg.scope ≠ .global → passthrough cfg = false) {sch : Scheduler Addr w} {gen : G}
    {as : List (Act Addr)} (h : Run (Step cfg cg) (.new sch gen) as tr s) (hes : ∀ e ∈ tr, Undivided cfg p e) :
    AllFor cfg p s.pc ∧ (cfg.scope = .global → ∀ f, s.pc.held = some f → f.target = .broadcast) := by
  constructor
  · induction h with
    | nil =>
      unfold AllFor
      split_ifs
      · exact Nat.zero_le _
      · exact fun q hq => absurd hq List.not_mem_nil
    | snoc hr hs ih =>
      have hall := ih fun e he => hes e (List.mem_append_left _ he)
      exact allFor_does (systemWf_run (.new sch gen) hr).pc hpass hall
        (fun e he => hes e (List.mem_append_right _ he)) (does_of_step hs)
  · intro hscope f hf
    obtain ⟨n, lane, target, -, hacc, hrouted⟩ := (provenance_run h).held f hf
    have hfor : s.pc.heldFor = none := by
      have hwf := (systemWf_run (.new sch gen) h).pc
      cases hpc : s.pc with
      | deliver peer frame todo =>
        rw [hpc] at hwf
        exact absurd hscope hwf.1
      | _ => rfl
    rw [hfor] at hrouted
    exact hrouted.trans (hes _ hacc hscope)

/-- **What one peer is sent is an unbroken row of the generator's results.** From any point of a
run whose events are all undivided for `p`, for as long as every snapshot has `p`: the frames handed to the
writer for `p` are the generator's results, in order, but for those of a tick that was for
others when the row began. -/
theorem sentTo_suffix {p : Addr} (hpass : cfg.scope ≠ .global → passthrough cfg = false) {sch : Scheduler Addr w}
    {gen : G} {as₁ as : List (Act Addr)} {tr₁ : List (Event Addr)} {s₁ : SystemState Addr G w}
    (before : Run (Step cfg cg) (.new sch gen) as₁ tr₁ s₁) (after : Run (Step cfg cg) s₁ as tr s)
    (hes : ∀ e ∈ tr₁ ++ tr, Undivided cfg p e) (hp : ∀ peers, .snapshot peers ∈ tr → p ∈ peers) :
    sentTo p tr <:+ genResults tr := by
  have hrow : sentTo p tr <:+ genResults tr ∧ (peersOf s.pc ≠ [] → p ∉ peersOf s.pc → sentTo p tr = []) := by
    induction after with
    | nil => exact ⟨List.suffix_rfl, fun _ _ => rfl⟩
    | @snoc as tr s a es s' hr hs ih =>
      obtain ⟨hsuffix, hlacks⟩ := ih (fun e he => hes e (by rw [← List.append_assoc]; exact List.mem_append_left _ he))
        fun peers hmem => hp peers (List.mem_append_left _ hmem)
      have hrun := before.trans hr
      obtain ⟨hall, hheld⟩ := undivided_run hpass hrun fun e he =>
        hes e (by rw [← List.append_assoc]; exact List.mem_append_left _ he)
      have hwf := (systemWf_run (.new sch gen) hrun).pc
      obtain ⟨hsent, hnone⟩ := sentTo_does hwf hall hheld (does_of_step hs)
      rw [sentTo_append, genResults_append]
      rcases hsent with heq | ⟨hne, hnot⟩
      · refine ⟨?_, fun hne' hnot' => ?_⟩
        · rw [heq]
          exact List.suffix_append_self_iff.mpr hsuffix
        · rcases peersOf_does hwf hpass (does_of_step hs) with hnil | ⟨peers, hmem, hpeers⟩ | ⟨hsub, hsame⟩
          · exact absurd hnil hne'
          · exact absurd (hpeers ▸ hp peers (List.mem_append_right _ hmem)) hnot'
          · by_cases hscope : cfg.scope = .global
            · rw [hsame hscope] at hne' hnot'
              rw [hlacks hne' hnot', hnone hnot', List.append_nil]
            · -- the peers to be served are all `p`
              rw [AllFor, if_neg hscope] at hall
              obtain ⟨q, hq⟩ := List.exists_mem_of_ne_nil _ hne'
              exact absurd (hall q (hsub hq) ▸ hq) hnot'
      · have hnil : sentTo p tr ++ sentTo p es = [] := by rw [hlacks hne hnot, hnone hnot, List.append_nil]
        rw [hnil]
        exact ⟨List.nil_suffix, fun _ _ => rfl⟩
  exact hrow.1

end Peashape.Shaping
