import Peashape.Foundation.Machine
import Peashape.Shaping.Submission

/-!
# One lane discipline

`push_global` and `next_frame` work on the shared lanes; `push_peer` and `next_frame_for` on
those of a peer, in a map entry that is made on demand and dropped when the peer goes. The
code is written twice, and does the same: to the application a peer's lanes in
`PerConnection` scope behave like the shared lanes of a node that has only this peer to send
to. See `scopes_agree`.

Both sides are simulated by one machine on a pair of lanes (`pairCall`): what concerns the
peer does to its pair what the machine does, and what concerns others does nothing to it.
-/

namespace Peashape

open Foundation

/-- The same configuration with another scope. -/
def ShaperConfig.withScope (cfg : ShaperConfig) (scope : ShapingScope) : ShaperConfig where
  toShapeConfig := { cfg.toShapeConfig with scope := scope }
  accepted := cfg.accepted

namespace Shaping

open Shaper

variable {Addr : Type*} [DecidableEq Addr] {cfg : ShaperConfig} {s : Shaper Addr} {p : Addr}

/-- A call on the shaper about one peer, or a prune. -/
inductive PeerCall (Addr : Type*) where
  /-- A unicast `enqueue_raw`, with its number. -/
  | enqueue (call : ℕ) (peer : Addr) (lane : Lane) (frame : Bytes)
  /-- A pop. -/
  | pop (peer : Addr)
  /-- `prune_peer_lanes`. -/
  | prune (connected : List Addr)

/-- What a call returns. -/
inductive Answer (Addr : Type*) where
  /-- Of `enqueue_raw`. -/
  | enqueued (result : Except Error Unit)
  /-- Of `next_frame` or `next_frame_for`. -/
  | popped (frame : Option (PendingFrame Addr))
  deriving DecidableEq

/-- Whether a call is about this peer. -/
def PeerCall.isFor (p : Addr) : PeerCall Addr → Bool
  | .enqueue _ q _ _ | .pop q => decide (q = p)
  | .prune _ => false

/-- The calls about this peer are the visible ones. -/
def PeerCall.for? (p : Addr) (c : PeerCall Addr) : Option (PeerCall Addr) := if c.isFor p then some c else none

/-- A call on a shaper in `Global` scope. -/
def globalCall (cfg : ShaperConfig) (s : Shaper Addr) : PeerCall Addr → List (Answer Addr) × Shaper Addr
  | .enqueue call peer lane frame =>
    let (result, s) := enqueueRaw cfg call lane (.unicast peer) frame s
    ([.enqueued result], s)
  | .pop _ => ([.popped s.nextFrame.1], s.nextFrame.2)
  | .prune connected => ([], s.prunePeerLanes connected)

/-- A call on a shaper in `PerConnection` scope. -/
def perConnectionCall (cfg : ShaperConfig) (s : Shaper Addr) : PeerCall Addr → List (Answer Addr) × Shaper Addr
  | .enqueue call peer lane frame =>
    let (result, s) := enqueueRaw cfg call lane (.unicast peer) frame s
    ([.enqueued result], s)
  | .pop peer => ([.popped (s.nextFrameFor peer).1], (s.nextFrameFor peer).2)
  | .prune connected => ([], s.prunePeerLanes connected)

/-- A call on one pair of lanes. -/
def pairCall (cfg : ShaperConfig) (l : PeerLanes Addr) : PeerCall Addr → List (Answer Addr) × PeerLanes Addr
  | .enqueue call peer lane frame =>
    if frame.length ≠ cfg.frameSize then
      ([.enqueued (.error (.frameSizeMismatch frame.length cfg.frameSize))], l)
    else
      let (result, l) := l.offer cfg lane (peerFrame peer frame call)
      ([.enqueued result], l)
  | .pop _ => ([.popped l.take.1], l.take.2)
  | .prune _ => ([], l)

/-- What a side answers to the calls about a peer, in order. -/
def answers (f : Shaper Addr → PeerCall Addr → List (Answer Addr) × Shaper Addr) (p : Addr) :
    List (PeerCall Addr) → List (List (Answer Addr)) :=
  observe f (PeerCall.for? p) id {}

/-! ### Each side and the pair of lanes -/

/-- In `Global` scope every call about the peer does to the shared lanes what it does to a pair. -/
theorem globalCall_pair (hscope : cfg.scope = .global) {c : PeerCall Addr} (hc : c.isFor p = true) :
    (globalCall cfg s c).1 = (pairCall cfg (s.lanesAt none) c).1 ∧
      (globalCall cfg s c).2.lanesAt none = (pairCall cfg (s.lanesAt none) c).2 := by
  cases c with
  | enqueue call peer lane frame =>
    by_cases hsize : frame.length = cfg.frameSize
    · obtain ⟨hresult, hlanes⟩ : _ ∧ _ = ((s.lanesAt none).offer cfg lane (peerFrame peer frame call)).2 :=
        enqueueRaw_offer_shared hsize hscope
      simp only [globalCall, pairCall, hsize, ne_eq, not_true_eq_false, if_false]
      exact ⟨congrArg (fun r => [Answer.enqueued r]) hresult, hlanes⟩
    · simp only [globalCall, pairCall, enqueueRaw_of_size_ne hsize, ne_eq, hsize, not_false_eq_true, if_true,
        and_self]
  | pop peer =>
    obtain ⟨hframe, hlanes⟩ := lanesAt_nextFrame s none
    exact ⟨congrArg (fun f => [Answer.popped f]) hframe, hlanes⟩
  | prune connected => cases hc

/-- In `PerConnection` scope it does so to the lanes of the peer. -/
theorem perConnectionCall_pair (hscope : cfg.scope ≠ .global) {c : PeerCall Addr} (hc : c.isFor p = true) :
    (perConnectionCall cfg s c).1 = (pairCall cfg (s.lanesOf p) c).1 ∧
      (perConnectionCall cfg s c).2.lanesOf p = (pairCall cfg (s.lanesOf p) c).2 := by
  cases c with
  | enqueue call peer lane frame =>
    obtain rfl : peer = p := of_decide_eq_true hc
    by_cases hsize : frame.length = cfg.frameSize
    · obtain ⟨hresult, hlanes⟩ := enqueueRaw_offer_peer (s := s) hsize hscope peer
      simp only [perConnectionCall, pairCall, hsize, ne_eq, not_true_eq_false, if_false]
      exact ⟨congrArg (fun r => [Answer.enqueued r]) hresult, hlanes⟩
    · simp only [perConnectionCall, pairCall, enqueueRaw_of_size_ne hsize, ne_eq, hsize, not_false_eq_true, if_true,
        and_self]
  | pop peer =>
    obtain rfl : peer = p := of_decide_eq_true hc
    obtain ⟨hframe, hlanes⟩ := lanesAt_nextFrameFor s peer (some peer)
    rw [if_pos rfl] at hlanes
    exact ⟨congrArg (fun f => [Answer.popped f]) hframe, hlanes⟩
  | prune connected => cases hc

/-- Whether a call, if it is a prune, lists the peer. -/
def Lists (p : Addr) : PeerCall Addr → Prop
  | .prune connected => p ∈ connected
  | .enqueue .. | .pop _ => True

/-- A call about another peer, and a prune that lists this one, leave its lanes alone. -/
theorem perConnectionCall_of_other (hscope : cfg.scope ≠ .global) {c : PeerCall Addr} (hc : c.isFor p = false)
    (hlists : Lists p c) : (perConnectionCall cfg s c).2.lanesOf p = s.lanesOf p := by
  cases c with
  | enqueue call peer lane frame =>
    have hne : p ≠ peer := Ne.symm (of_decide_eq_false hc)
    show (enqueueRaw cfg call lane (.unicast peer) frame s).2.lanesOf p = s.lanesOf p
    by_cases hsize : frame.length = cfg.frameSize
    · rw [enqueueRaw_unicast hsize hscope]
      exact lanesOf_pushPeer_of_ne hne
    · rw [enqueueRaw_of_size_ne hsize]
  | pop peer => exact lanesOf_nextFrameFor_of_ne (Ne.symm (of_decide_eq_false hc)) s
  | prune connected =>
    have hp : p ∈ connected := hlists
    show (s.prunePeerLanes connected).lanesOf p = s.lanesOf p
    rw [lanesOf_prunePeerLanes, if_pos hp]

/-! ### The two sides -/

/-- A visible call is one about the peer. -/
theorem of_for?_eq_some {c c' : PeerCall Addr} (h : c.for? p = some c') : c = c' ∧ c.isFor p = true := by
  unfold PeerCall.for? at h
  split_ifs at h with hc
  exact ⟨Option.some.inj h, hc⟩

theorem of_for?_eq_none {c : PeerCall Addr} (h : c.for? p = none) : c.isFor p = false := by
  unfold PeerCall.for? at h
  split_ifs at h with hc
  exact Bool.eq_false_iff.mpr hc

/-- The answers of the `Global` side are those of a pair of lanes. -/
theorem answers_global (hscope : cfg.scope = .global) {calls : List (PeerCall Addr)}
    (hfor : ∀ c ∈ calls, c.isFor p = true) :
    answers (globalCall cfg) p calls =
      observeLow (pairCall cfg) {} (calls.filterMap (PeerCall.for? p)) := by
  unfold answers
  rw [observe_eq_observeWith]
  refine observeWith_eq_low (fun s : Shaper Addr => s.lanesAt none) (I := fun _ => True)
    (C := fun _ (c : PeerCall Addr) => c.isFor p = true) (fun _ _ => trivial)
    (fun _ hc hvis => ?_) (fun _ hc hvis => ?_) trivial (always_of_forall_mem _ _ hfor)
  · rw [of_for?_eq_none hvis] at hc
    cases hc
  · obtain ⟨rfl, -⟩ := of_for?_eq_some hvis
    exact globalCall_pair hscope hc

/-- So are those of the `PerConnection` side. -/
theorem answers_perConnection (hscope : cfg.scope ≠ .global) {calls : List (PeerCall Addr)}
    (hlists : ∀ c ∈ calls, Lists p c) :
    answers (perConnectionCall cfg) p calls =
      observeLow (pairCall cfg) {} (calls.filterMap (PeerCall.for? p)) := by
  unfold answers
  rw [observe_eq_observeWith]
  refine observeWith_eq_low (fun s : Shaper Addr => s.lanesOf p) (I := fun _ => True)
    (C := fun _ (c : PeerCall Addr) => Lists p c) (fun _ _ => trivial) (fun _ hc hvis => ?_) (fun _ _ hvis => ?_)
    trivial (always_of_forall_mem _ _ hlists)
  · exact perConnectionCall_of_other hscope (of_for?_eq_none hvis) hc
  · obtain ⟨rfl, hfor⟩ := of_for?_eq_some hvis
    exact perConnectionCall_pair hscope hfor

/-- **The scopes share one lane discipline.** For every configuration, peer and sequence of
calls about the peer — unicast `enqueue_raw` into any lane, with any frame, and pops — made on
a new shaper in `Global` scope and on a new one in `PerConnection` scope; there interleaved
with any such calls for other peers, and with prunes that list the peer. Every `enqueue_raw`
returns the same, and every pop gives the same frame, or none. -/
theorem scopes_agree (cfg : ShaperConfig) (randomize : Bool) {p : Addr} {own calls : List (PeerCall Addr)}
    (hown : calls.filter (PeerCall.isFor p) = own) (hlists : ∀ c ∈ calls, Lists p c) :
    answers (globalCall (cfg.withScope .global)) p own =
      answers (perConnectionCall (cfg.withScope (.perConnection randomize))) p calls := by
  have hfor : ∀ c ∈ own, c.isFor p = true := fun c hc => (List.mem_filter.mp (hown ▸ hc)).2
  have hvis : own.filterMap (PeerCall.for? p) = calls.filterMap (PeerCall.for? p) := by
    rw [← hown, List.filterMap_filter]
    refine List.filterMap_congr fun c _ => ?_
    unfold PeerCall.for?
    split_ifs <;> rfl
  rw [answers_global rfl hfor, answers_perConnection ShapingScope.noConfusion hlists, hvis]
  rfl

/-- Two frames for peer 1 and a pop, with a frame for peer 2 and a prune in between. -/
theorem scopes_agree_two :
    let cfg : ShaperConfig := { frameSize := 32, highLaneCapacity := 1, accepted := by decide }
    let b : Bytes := List.replicate 32 7
    let own : List (PeerCall ℕ) := [.enqueue 0 1 .high b, .enqueue 1 1 .high b, .pop 1]
    let calls : List (PeerCall ℕ) :=
      [.enqueue 0 1 .high b, .enqueue 5 2 .high b, .prune [1], .enqueue 1 1 .high b, .pop 2, .pop 1]
    answers (globalCall (cfg.withScope .global)) 1 own =
      answers (perConnectionCall (cfg.withScope (.perConnection true))) 1 calls := by
  intro cfg b own calls
  have hlists : ∀ c ∈ calls, Lists 1 c := by simp [calls, Lists]
  exact scopes_agree cfg true rfl hlists

end Shaping

end Peashape
