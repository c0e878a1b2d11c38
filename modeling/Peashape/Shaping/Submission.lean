import Peashape.Model.Node
import Peashape.Shaping.LanePair

/-!
# What a submission does

`enqueue_raw` and `enqueue`, for every state of the shaper, from their two results.

* `enqueueRaw_outcome` — which of its three results `enqueue_raw` gives, and that an error
  leaves the shaper as it was: lanes, entries and cache. `push_peer` makes an entry for its
  peer before it looks at the capacity; since no capacity is `0`, a full lane has one.
* `enqueueRaw_lanes` — what a call that succeeds does to every pair of lanes: `withFrame`,
  once for every time they are among the destinations of the frame (`destinations`).
* `enqueue_outcome` — the same for `enqueue`, with the frame it builds.

The subtractions of `enqueue` and `build_frame` are not guarded. `enqueueChecked` is
`enqueue` with a check at each, and with the loop that pushes the padding byte by byte;
none of the checks fails (`enqueueChecked_eq`).
-/

namespace Peashape

open Foundation

variable {Addr : Type*}

namespace Shaper

variable [DecidableEq Addr] {cfg : ShaperConfig} {call : ℕ} {lane : Lane} {target : Target Addr}
  {frame : Bytes} {s : Shaper Addr}

/-! ### A push that finds no room -/

/-- A full high lane is not the empty one of a peer without an entry, so there is an entry. -/
theorem lookup_of_full {peer : Addr} (hfull : cfg.highLaneCapacity ≤ (s.lanesOf peer).high.length) :
    s.peerLanes.lookup peer = some (s.lanesOf peer) := by
  have hpos := cfg.high_pos
  unfold lanesOf at hfull ⊢
  cases hl : s.peerLanes.lookup peer with
  | none =>
    simp only [hl, Option.getD_none, List.length_nil] at hfull
    omega
  | some l => rfl

/-- To store what an entry holds already changes nothing. -/
theorem setLanes_of_lookup {peer : Addr} {l : PeerLanes Addr} (h : s.peerLanes.lookup peer = some l) :
    s.setLanes peer l = s := by
  have hsame : s.peerLanes.insert peer l = s.peerLanes := by
    apply Finmap.ext_lookup
    intro q
    by_cases hq : q = peer
    · rw [hq, Finmap.lookup_insert, h]
    · rw [Finmap.lookup_insert_of_ne _ hq]
  rw [setLanes, hsame]

/-- A unicast push that finds no room leaves the shaper as it was. -/
theorem pushPeer_of_full {peer : Addr} (hfull : cfg.highLaneCapacity ≤ (s.lanesOf peer).high.length) :
    pushPeer cfg call peer .high frame s = (.error .laneFull, s) := by
  simp only [pushPeer, if_pos hfull]
  rw [setLanes_of_lookup (lookup_of_full hfull)]

/-! ### The result of `enqueue_raw` -/

/-- The high lane in which a high frame for this target needs room: the shared one, or the one
of the peer it is for. A broadcast in `PerConnection` scope needs none. -/
def addressedHigh (cfg : ShaperConfig) (s : Shaper Addr) (target : Target Addr) :
    Option (List (PendingFrame Addr)) :=
  match cfg.scope with
  | .global => some s.highLane
  | .perConnection _ =>
    match target with
    | .unicast peer => some (s.lanesOf peer).high
    | .broadcast => none

/-- Whether a frame finds no room: a high frame whose lane holds `high_lane_capacity` frames. -/
def NoRoom (cfg : ShaperConfig) (s : Shaper Addr) (lane : Lane) (target : Target Addr) : Prop :=
  lane = .high ∧ ∃ l ∈ addressedHigh cfg s target, cfg.highLaneCapacity ≤ l.length

omit [DecidableEq Addr] in
theorem noRoom_global [DecidableEq Addr] (hscope : cfg.scope = .global) :
    NoRoom cfg s lane target ↔ lane = .high ∧ cfg.highLaneCapacity ≤ s.highLane.length := by
  simp [NoRoom, addressedHigh, hscope]

theorem noRoom_unicast (hscope : cfg.scope ≠ .global) {peer : Addr} :
    NoRoom cfg s lane (.unicast peer) ↔ lane = .high ∧ cfg.highLaneCapacity ≤ (s.lanesOf peer).high.length := by
  unfold NoRoom addressedHigh
  split
  · contradiction
  · simp

theorem noRoom_broadcast (hscope : cfg.scope ≠ .global) : ¬ NoRoom cfg s lane .broadcast := by
  unfold NoRoom addressedHigh
  split
  · contradiction
  · simp

/-- A high frame that finds room finds it in the shared lane. -/
theorem lt_of_room_global (hscope : cfg.scope = .global) (h : ¬ NoRoom cfg s lane target) (hl : lane = .high) :
    s.highLane.length < cfg.highLaneCapacity := by
  rw [noRoom_global hscope] at h
  exact Nat.lt_of_not_le fun hfull => h ⟨hl, hfull⟩

/-- A high unicast finds it in the lane of its peer. -/
theorem lt_of_room_unicast (hscope : cfg.scope ≠ .global) {peer : Addr} (h : ¬ NoRoom cfg s lane (.unicast peer))
    (hl : lane = .high) : (s.lanesOf peer).high.length < cfg.highLaneCapacity := by
  rw [noRoom_unicast hscope] at h
  exact Nat.lt_of_not_le fun hfull => h ⟨hl, hfull⟩

/-- Where a frame finds no room, nothing happens. -/
theorem enqueueRaw_of_noRoom (hsize : frame.length = cfg.frameSize) (h : NoRoom cfg s lane target) :
    enqueueRaw cfg call lane target frame s = (.error .laneFull, s) := by
  by_cases hscope : cfg.scope = .global
  · obtain ⟨rfl, hfull⟩ := (noRoom_global hscope).mp h
    rw [enqueueRaw_global hsize hscope]
    exact if_pos hfull
  · cases target with
    | unicast peer =>
      obtain ⟨rfl, hfull⟩ := (noRoom_unicast hscope).mp h
      rw [enqueueRaw_unicast hsize hscope, pushPeer_of_full hfull]
    | broadcast => exact absurd h (noRoom_broadcast hscope)

/-- Where it does, the call succeeds. -/
theorem enqueueRaw_fst_of_room (hsize : frame.length = cfg.frameSize) (h : ¬ NoRoom cfg s lane target) :
    (enqueueRaw cfg call lane target frame s).1 = .ok () := by
  by_cases hscope : cfg.scope = .global
  · rw [enqueueRaw_global hsize hscope, pushGlobal_eq (lt_of_room_global hscope h)]
  · cases target with
    | unicast peer => rw [enqueueRaw_unicast hsize hscope, pushPeer_eq (lt_of_room_unicast hscope h)]
    | broadcast => rw [enqueueRaw_broadcast hsize hscope]

/-- In `Global` scope a frame of the right size is offered to the shared lanes. -/
theorem enqueueRaw_offer_shared (hsize : frame.length = cfg.frameSize) (hscope : cfg.scope = .global) :
    (enqueueRaw cfg call lane target frame s).1 =
        ((s.lanesAt none).offer cfg lane ⟨frame, target, .enqueued call⟩).1 ∧
      (enqueueRaw cfg call lane target frame s).2.lanesAt none =
        ((s.lanesAt none).offer cfg lane ⟨frame, target, .enqueued call⟩).2 := by
  rw [enqueueRaw_global hsize hscope, PeerLanes.offer]
  split_ifs with hfull
  · obtain ⟨rfl, hfull⟩ := hfull
    have hrefused : pushGlobal cfg .high ⟨frame, target, .enqueued call⟩ s = (.error .laneFull, s) := if_pos hfull
    rw [hrefused]
    exact ⟨rfl, rfl⟩
  · rw [pushGlobal_eq fun hl => Nat.lt_of_not_le fun hf => hfull ⟨hl, hf⟩]
    exact ⟨rfl, rfl⟩

/-- In `PerConnection` scope a unicast frame of the right size is offered to its peer's. -/
theorem enqueueRaw_offer_peer (hsize : frame.length = cfg.frameSize) (hscope : cfg.scope ≠ .global) (peer : Addr) :
    (enqueueRaw cfg call lane (.unicast peer) frame s).1 =
        ((s.lanesOf peer).offer cfg lane (peerFrame peer frame call)).1 ∧
      (enqueueRaw cfg call lane (.unicast peer) frame s).2.lanesOf peer =
        ((s.lanesOf peer).offer cfg lane (peerFrame peer frame call)).2 := by
  rw [enqueueRaw_unicast hsize hscope, PeerLanes.offer]
  split_ifs with hfull
  · obtain ⟨rfl, hfull⟩ := hfull
    rw [pushPeer_of_full hfull]
    exact ⟨rfl, rfl⟩
  · rw [pushPeer_eq fun hl => Nat.lt_of_not_le fun hf => hfull ⟨hl, hf⟩]
    exact ⟨rfl, lanesOf_setLanes s peer _⟩

/-- So a call that succeeds had a frame of the right size, and room for it. -/
theorem room_of_ok (hok : (enqueueRaw cfg call lane target frame s).1 = .ok ()) :
    frame.length = cfg.frameSize ∧ ¬ NoRoom cfg s lane target := by
  by_cases hsize : frame.length = cfg.frameSize
  · refine ⟨hsize, fun hroom => ?_⟩
    rw [enqueueRaw_of_noRoom hsize hroom] at hok
    cases hok
  · rw [enqueueRaw_of_size_ne hsize] at hok
    cases hok

/-- And one that fails changes nothing. -/
theorem enqueueRaw_of_error {e : Error} (h : (enqueueRaw cfg call lane target frame s).1 = .error e) :
    (enqueueRaw cfg call lane target frame s).2 = s := by
  by_cases hsize : frame.length = cfg.frameSize
  · by_cases hroom : NoRoom cfg s lane target
    · rw [enqueueRaw_of_noRoom hsize hroom]
    · rw [enqueueRaw_fst_of_room hsize hroom] at h
      cases h
  · rw [enqueueRaw_of_size_ne hsize]

/-- **What `enqueue_raw` returns, and that an error changes nothing.** In every state of the
shaper, for every lane, target and frame: a frame of the wrong size is refused as such; of
the others those are refused that find no room; and the rest are accepted. With an error the
shaper is the same, its shared lanes, its map of lanes with its keys, and its cache. -/
theorem enqueueRaw_outcome (cfg : ShaperConfig) (call : ℕ) (lane : Lane) (target : Target Addr) (frame : Bytes)
    (s : Shaper Addr) :
    ((enqueueRaw cfg call lane target frame s).1 = .error (.frameSizeMismatch frame.length cfg.frameSize) ↔
      frame.length ≠ cfg.frameSize) ∧
    ((enqueueRaw cfg call lane target frame s).1 = .error .laneFull ↔
      frame.length = cfg.frameSize ∧ NoRoom cfg s lane target) ∧
    ((enqueueRaw cfg call lane target frame s).1 = .ok () ↔
      frame.length = cfg.frameSize ∧ ¬ NoRoom cfg s lane target) ∧
    ((enqueueRaw cfg call lane target frame s).1 ≠ .ok () →
      (enqueueRaw cfg call lane target frame s).2 = s) := by
  by_cases hsize : frame.length = cfg.frameSize
  · by_cases hroom : NoRoom cfg s lane target
    · rw [enqueueRaw_of_noRoom hsize hroom]
      simp [hsize, hroom]
    · rw [enqueueRaw_fst_of_room hsize hroom]
      simp [hsize, hroom]
  · rw [enqueueRaw_of_size_ne hsize]
    simp [hsize]

/-! ### The lanes after a call that succeeds -/

/-- The pairs of lanes a frame for this target goes into. -/
def destinations (cfg : ShaperConfig) (s : Shaper Addr) (target : Target Addr) : List (Option Addr) :=
  match cfg.scope with
  | .global => [none]
  | .perConnection _ =>
    match target with
    | .unicast peer => [some peer]
    | .broadcast => s.pcPeers.map some

instance (owner : Option Addr) : Decidable (owner ∈ destinations cfg s target) :=
  List.instDecidableMemOfLawfulBEq _ _

/-- The frame as it stands in the lanes of an owner: in a peer's, it is for that peer. -/
def queuedFrame (call : ℕ) (target : Target Addr) (frame : Bytes) : Option Addr → PendingFrame Addr
  | none => ⟨frame, target, .enqueued call⟩
  | some peer => peerFrame peer frame call

omit [DecidableEq Addr] in
theorem destinations_global (hscope : cfg.scope = .global) (target : Target Addr) :
    destinations cfg s target = [none] := by
  unfold destinations
  rw [hscope]

omit [DecidableEq Addr] in
theorem destinations_unicast (hscope : cfg.scope ≠ .global) (peer : Addr) :
    destinations cfg s (.unicast peer) = [some peer] := by
  unfold destinations
  split
  · contradiction
  · rfl

omit [DecidableEq Addr] in
theorem destinations_broadcast (hscope : cfg.scope ≠ .global) :
    destinations cfg s .broadcast = s.pcPeers.map some := by
  unfold destinations
  split
  · contradiction
  · rfl

/-- The loop of a fan-out adds the frame to the lanes of a peer once for each time it is in
the list, and touches no others. -/
theorem lanesAt_fanOutTo (cfg : ShaperConfig) (call : ℕ) (lane : Lane) (frame : Bytes) (owner : Option Addr) :
    ∀ (peers : List Addr) (s : Shaper Addr), (fanOutTo cfg call peers lane frame s).lanesAt owner =
      (PeerLanes.withFrame cfg lane (queuedFrame call .broadcast frame owner))^[(peers.map some).count owner]
        (s.lanesAt owner)
  | [], s => rfl
  | q :: peers, s => by
    show (fanOutTo cfg call peers lane frame (fanPush cfg call lane frame s q)).lanesAt owner = _
    rw [lanesAt_fanOutTo cfg call lane frame owner peers, fanPush_eq, lanesAt_setLanes, List.map_cons]
    by_cases hq : owner = some q
    · rw [if_pos hq, hq, List.count_cons_self, Function.iterate_succ_apply]
      rfl
    · rw [if_neg hq, List.count_cons_of_ne (Ne.symm hq)]

/-- **What a call that succeeds does to every pair of lanes.** -/
theorem enqueueRaw_lanes (hok : (enqueueRaw cfg call lane target frame s).1 = .ok ()) (owner : Option Addr) :
    (enqueueRaw cfg call lane target frame s).2.lanesAt owner =
      (PeerLanes.withFrame cfg lane (queuedFrame call target frame owner))^[(destinations cfg s target).count owner]
        (s.lanesAt owner) := by
  obtain ⟨hsize, hroom⟩ := room_of_ok hok
  by_cases hscope : cfg.scope = .global
  · rw [destinations_global hscope, enqueueRaw_global hsize hscope,
      pushGlobal_eq (lt_of_room_global hscope hroom)]
    cases owner with
    | none => rfl
    | some p => rfl
  · cases target with
    | unicast peer =>
      rw [destinations_unicast hscope, enqueueRaw_unicast hsize hscope,
        pushPeer_eq (lt_of_room_unicast hscope hroom), lanesAt_setLanes]
      by_cases hp : owner = some peer
      · rw [if_pos hp, hp, List.count_singleton_self, Function.iterate_one]
        rfl
      · rw [if_neg hp, List.count_cons_of_ne (Ne.symm hp), List.count_nil, Function.iterate_zero_apply]
    | broadcast =>
      rw [destinations_broadcast hscope, enqueueRaw_broadcast hsize hscope]
      exact lanesAt_fanOutTo cfg call lane frame owner s.pcPeers s

/-! ### Building the frame -/

/-- `a - b` on `usize`; `none` is the panic on underflow. -/
def checkedSub (a b : ℕ) : Option ℕ := if b ≤ a then some (a - b) else none

/-- `for _ in 0..pad { msg.put_u8(rng.random()); }`. -/
def padLoop : ℕ → Bytes → Stream' UInt8 → Bytes × Stream' UInt8
  | 0, msg, rng => (msg, rng)
  | pad + 1, msg, rng => padLoop pad (msg ++ [rng.head]) rng.tail

/-- `if pad > 0 { … }` around it. -/
def padding (pad : ℕ) (msg : Bytes) (rng : Stream' UInt8) : Bytes × Stream' UInt8 :=
  if 0 < pad then padLoop pad msg rng else (msg, rng)

/-- `build_frame`, with its subtractions and its `debug_assert_eq!` checked. -/
def buildFrameChecked (c : ShapeConfig) (payload : Bytes) (rng : Stream' UInt8) :
    Option ((Bytes × Bytes) × Stream' UInt8) :=
  let (id, rng) := drawBytes idSize rng
  let msg := id ++ payload
  match checkedSub c.frameSize idSize with
  | none => none
  | some rest =>
    match checkedSub rest payload.length with
    | none => none
    | some pad =>
      let (msg, rng) := padding pad msg rng
      if msg.length = c.frameSize then some ((id, msg), rng) else none

/-- `enqueue`, with every subtraction checked. -/
def enqueueChecked (cfg : ShaperConfig) (call : ℕ) (lane : Lane) (target : Target Addr) (payload : Bytes)
    (rng : Stream' UInt8) (s : Shaper Addr) : Option (Except Error Bytes × Shaper Addr) :=
  match checkedSub cfg.frameSize idSize with
  | none => none
  | some maxPayload =>
    if maxPayload < payload.length then some (.error (.payloadTooLarge payload.length maxPayload), s)
    else
      match buildFrameChecked cfg.toShapeConfig payload rng with
      | none => none
      | some ((id, msg), _) =>
        match enqueueRaw cfg call lane target msg s with
        | (.ok (), s) => some (.ok id, s)
        | (.error e, s) => some (.error e, s)

theorem checkedSub_of_le {a b : ℕ} (h : b ≤ a) : checkedSub a b = some (a - b) := if_pos h

/-- The loop appends what one draw of as many bytes gives. -/
theorem padLoop_eq : ∀ (pad : ℕ) (msg : Bytes) (rng : Stream' UInt8),
    padLoop pad msg rng = (msg ++ (drawBytes pad rng).1, (drawBytes pad rng).2)
  | 0, msg, rng => by
    show (msg, rng) = (msg ++ [], rng)
    rw [List.append_nil]
  | pad + 1, msg, rng => by
    rw [padLoop, padLoop_eq pad]
    simp only [drawBytes, Stream'.take_succ, Stream'.drop_succ, List.append_assoc, List.singleton_append]

/-- With no padding the loop is not entered, and would do nothing. -/
theorem padding_eq (pad : ℕ) (msg : Bytes) (rng : Stream' UInt8) :
    padding pad msg rng = (msg ++ (drawBytes pad rng).1, (drawBytes pad rng).2) := by
  rw [← padLoop_eq, padding]
  split_ifs with hpad
  · rfl
  · rw [Nat.eq_zero_of_not_pos hpad, padLoop]

/-- None of the checks of `build_frame` fails on a payload that fits. -/
theorem buildFrameChecked_eq {c : ShapeConfig} {payload : Bytes} (h : idSize ≤ c.frameSize)
    (hp : payload.length ≤ c.frameSize - idSize) (rng : Stream' UInt8) :
    buildFrameChecked c payload rng = some (buildFrame c payload rng) := by
  simp only [buildFrameChecked, checkedSub_of_le h, checkedSub_of_le hp, padding_eq]
  exact if_pos (length_buildFrame rng h hp)

/-- **No subtraction underflows.** -/
theorem enqueueChecked_eq (cfg : ShaperConfig) (call : ℕ) (lane : Lane) (target : Target Addr) (payload : Bytes)
    (rng : Stream' UInt8) (s : Shaper Addr) :
    enqueueChecked cfg call lane target payload rng s = some (enqueue cfg call lane target payload rng s) := by
  unfold enqueueChecked enqueue
  rw [checkedSub_of_le cfg.idSize_le]
  by_cases hp : cfg.frameSize - idSize < payload.length
  · simp only [if_pos hp]
  · simp only [if_neg hp, buildFrameChecked_eq cfg.idSize_le (Nat.le_of_not_lt hp)]
    rcases enqueueRaw cfg call lane target (buildFrame cfg.toShapeConfig payload rng).1.2 s with ⟨_ | _, _⟩ <;> rfl

/-- A payload that does not fit is refused, and nothing happens. -/
theorem enqueue_of_too_large {payload : Bytes} (hp : cfg.frameSize - idSize < payload.length)
    (rng : Stream' UInt8) :
    enqueue cfg call lane target payload rng s =
      (.error (.payloadTooLarge payload.length (cfg.frameSize - idSize)), s) :=
  if_pos hp

/-- One that fits has the result of `enqueue_raw` on its frame, with the identifier. -/
theorem enqueue_of_fits {payload : Bytes} (hp : payload.length ≤ cfg.frameSize - idSize) (rng : Stream' UInt8) :
    enqueue cfg call lane target payload rng s =
      ((enqueueRaw cfg call lane target (buildFrame cfg.toShapeConfig payload rng).1.2 s).1.map
          fun _ => rng.take idSize,
        (enqueueRaw cfg call lane target (buildFrame cfg.toShapeConfig payload rng).1.2 s).2) := by
  simp only [enqueue, if_neg (Nat.not_lt.mpr hp)]
  split <;> rename_i heq <;> rw [heq] <;> rfl

/-- **What `enqueue` does with a payload.** For every lane, target and payload, and all random
bytes: a payload that does not fit is refused as too large, and only such a one, and nothing
changes; no subtraction underflows; a frame of the wrong size is never the reason to fail; and
when an identifier is returned, what was added to the lanes — to each pair of lanes once for
every time it is a destination — is the identifier, the payload and then padding, of
`frame_size` bytes. -/
theorem enqueue_outcome (cfg : ShaperConfig) (call : ℕ) (lane : Lane) (target : Target Addr) (payload : Bytes)
    (rng : Stream' UInt8) (s : Shaper Addr) :
    ((enqueue cfg call lane target payload rng s).1 =
        .error (.payloadTooLarge payload.length (cfg.frameSize - idSize)) ↔
      cfg.frameSize - idSize < payload.length) ∧
    (cfg.frameSize - idSize < payload.length → (enqueue cfg call lane target payload rng s).2 = s) ∧
    enqueueChecked cfg call lane target payload rng s = some (enqueue cfg call lane target payload rng s) ∧
    (∀ size expected, (enqueue cfg call lane target payload rng s).1 ≠ .error (.frameSizeMismatch size expected)) ∧
    ∀ id, (enqueue cfg call lane target payload rng s).1 = .ok id →
      id.length = idSize ∧
      ∃ pad, pad = (drawBytes (cfg.frameSize - idSize - payload.length) (rng.drop idSize)).1 ∧
        (id ++ payload ++ pad).length = cfg.frameSize ∧
        ∀ owner, (enqueue cfg call lane target payload rng s).2.lanesAt owner =
          (PeerLanes.withFrame cfg lane
            (queuedFrame call target (id ++ payload ++ pad) owner))^[(destinations cfg s target).count owner]
            (s.lanesAt owner) := by
  have hchecked := enqueueChecked_eq cfg call lane target payload rng s
  by_cases hp : cfg.frameSize - idSize < payload.length
  · rw [hchecked, enqueue_of_too_large hp]
    simp [hp]
  · -- the frame has the right size, so that what is left of the outcome is about room
    have hfits := Nat.le_of_not_lt hp
    have hsize := length_buildFrame (c := cfg.toShapeConfig) rng cfg.idSize_le hfits
    rw [hchecked, enqueue_of_fits hfits]
    cases hr : (enqueueRaw cfg call lane target (buildFrame cfg.toShapeConfig payload rng).1.2 s).1 with
    | ok u =>
      refine ⟨by simp [hp, Except.map], fun h => absurd h hp, rfl, by simp [Except.map], fun id hid => ?_⟩
      cases hid
      exact ⟨Stream'.length_take idSize rng, _, rfl, hsize, enqueueRaw_lanes hr⟩
    | error e =>
      by_cases hroom : NoRoom cfg s lane target
      · rw [enqueueRaw_of_noRoom hsize hroom] at hr
        cases hr
        simp [hp, Except.map]
      · rw [enqueueRaw_fst_of_room hsize hroom] at hr
        cases hr

end Shaper

/-! ### Submissions as calls on a node -/

/-- Whether a call is a submission. -/
def Op.submits : Op Addr → Bool
  | .enqueue .. | .enqueueRaw .. => true
  | _ => false

namespace NodeState

open Shaper

variable {G : Type*} {w : ℕ} [DecidableEq Addr] {cfg : ShaperConfig} {cg : CoverGenerator G}
  {s : NodeState Addr G w} {op : Op Addr} {owner : Option Addr}

/-- The frame a call adds to the lanes of an owner, and to which of them: if it is a submission
that succeeds, and they are among its destinations. -/
def added (cfg : ShaperConfig) (s : NodeState Addr G w) (owner : Option Addr) (op : Op Addr) :
    Option (Lane × PendingFrame Addr) :=
  match op.raw? cfg.toShapeConfig with
  | none => none
  | some (lane, target, frame) =>
    if (s.shaper.enqueueRaw cfg s.calls lane target frame).1 = .ok () ∧ owner ∈ destinations cfg s.shaper target
    then some (lane, queuedFrame s.calls target frame owner) else none

/-- A pair of lanes with the frame added, if there is one. -/
def withAdded (cfg : ShaperConfig) (l : PeerLanes Addr) : Option (Lane × PendingFrame Addr) → PeerLanes Addr
  | none => l
  | some (lane, f) => l.withFrame cfg lane f

omit [DecidableEq Addr] in
/-- The destinations are different ones, if no peer is cached twice. -/
theorem nodup_destinations (hnd : s.shaper.pcPeers.Nodup) (target : Target Addr) :
    (destinations cfg s.shaper target).Nodup := by
  by_cases hscope : cfg.scope = .global
  · rw [destinations_global hscope]
    exact List.nodup_singleton _
  · cases target with
    | unicast peer =>
      rw [destinations_unicast hscope]
      exact List.nodup_singleton _
    | broadcast =>
      rw [destinations_broadcast hscope]
      exact hnd.map (Option.some_injective _)

variable (cfg cg s) in
/-- A submission that succeeds adds its frame to its destinations, and one that fails changes
no lane. -/
theorem lanesAt_submit_cases (hop : op.submits = true) :
    ((∀ lane target frame, op.raw? cfg.toShapeConfig = some (lane, target, frame) →
        (s.shaper.enqueueRaw cfg s.calls lane target frame).1 ≠ .ok ()) ∧
      ∀ owner, (s.exec cfg cg op).2.shaper.lanesAt owner = s.shaper.lanesAt owner) ∨
    ∃ lane target frame, op.raw? cfg.toShapeConfig = some (lane, target, frame) ∧
      (s.shaper.enqueueRaw cfg s.calls lane target frame).1 = .ok () ∧
      ∀ owner, (s.exec cfg cg op).2.shaper.lanesAt owner =
        (PeerLanes.withFrame cfg lane
          (queuedFrame s.calls target frame owner))^[(destinations cfg s.shaper target).count owner]
          (s.shaper.lanesAt owner) := by
  cases hraw : op.raw? cfg.toShapeConfig with
  | none =>
    refine .inl ⟨by simp, fun owner => ?_⟩
    cases op with
    | enqueue lane target payload rng =>
      rw [exec_enqueue_of_raw_none cfg cg hraw]
    | enqueueRaw lane target frame => cases hraw
    | _ => cases hop
  | some x =>
    obtain ⟨lane, target, frame⟩ := x
    rw [exec_of_raw cfg cg hraw]
    cases hr : (s.shaper.enqueueRaw cfg s.calls lane target frame).1 with
    | ok u => exact .inr ⟨lane, target, frame, rfl, hr, enqueueRaw_lanes hr⟩
    | error e =>
      refine .inl ⟨fun l t b h => ?_, fun owner => ?_⟩
      · cases h
        rw [hr]
        simp
      · simp only [exec, enqueueRaw_of_error hr]

/-- **What a submission does to a pair of lanes**: it adds a frame, or nothing. -/
theorem lanesAt_submit (hnd : s.shaper.pcPeers.Nodup) (hop : op.submits = true) :
    (s.exec cfg cg op).2.shaper.lanesAt owner =
      withAdded cfg (s.shaper.lanesAt owner) (added cfg s owner op) := by
  rcases lanesAt_submit_cases cfg cg s hop with ⟨hfails, hsame⟩ | ⟨lane, target, frame, hraw, hok, hlanes⟩
  · have hadded : added cfg s owner op = none := by
      unfold added
      split
      · rfl
      · rename_i hraw
        exact if_neg fun h => hfails _ _ _ hraw h.1
    rw [hsame, hadded]
    rfl
  · rw [hlanes, added, hraw]
    by_cases hmem : owner ∈ destinations cfg s.shaper target
    · simp only [hok, hmem, and_self, if_true]
      rw [List.count_eq_one_of_mem (nodup_destinations hnd target) hmem]
      rfl
    · simp only [hmem, and_false, if_false]
      rw [List.count_eq_zero_of_not_mem hmem]
      rfl

end NodeState

end Peashape
