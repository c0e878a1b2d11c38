import Mathlib.Data.Nat.ModEq
import Peashape.Shaping.Slots

/-!
# The slot bound with random offsets

"A unicast submitted for a peer waits for that peer's next slot (bounded by
`peers * interval`)", and "no peer is ever skipped". Without random offsets this is so
(`Peashape.Shaping.Delay`). With them the slot of a tick is at the sum of the cursor and an
offset drawn anew, which may be any position: a peer's offset may fail to come up for as long
as one likes. `slot_bound_iff` says when the bound holds: whatever the offsets, only if the
peer is the only one; and for the offsets of a run, when they lead to it in time.
-/

namespace Peashape.Shaping

open Foundation Shaper NodeState

variable {Addr G : Type*} [DecidableEq Addr] {w : ℕ} {cfg : ShaperConfig} {cg : CoverGenerator G}
  {s : NodeState Addr G w} {p : Addr} {peers : List Addr} {ops : List (Op Addr)}

/-- Of any `n` ticks in a row, one sends to the peer. -/
def EveryRound (p : Addr) (n : ℕ) (seen : List (List (Event Addr))) : Prop :=
  ∀ i, i + n ≤ seen.length → ∃ es ∈ (seen.drop i).take n, recipients es = [p]

/-- Of any `n` among the first `m` ticks in a row, one has the cursor and the offset it draws add
up to position `pos`. The cursor starts from `c`. -/
def OffsetsHit (w n pos c : ℕ) (offset : ℕ → ℕ) (m : ℕ) : Prop :=
  ∀ i, i + n ≤ m → ∃ j, i ≤ j ∧ j < i + n ∧ (c + j + offset j) % 2 ^ w % n = pos

/-! ### The slots of a run -/

omit [DecidableEq Addr] in
/-- The position a tick sends to. -/
theorem pickRoundRobin_randomized {q : Addr} {qs : List Addr} {c : ℕ} {sch : Scheduler Addr w}
    (hc : sch.cursor = BitVec.ofNat w c) :
    (sch.pickRoundRobin q qs true).1 =
      (q :: qs).get
        ⟨(c + sch.rng.head % (qs.length + 1)) % 2 ^ w % (qs.length + 1), Nat.mod_lt _ (Nat.succ_pos _)⟩ := by
  have hsum : cursorSum sch.cursor (sch.rng.head % (qs.length + 1)) =
      (c + sch.rng.head % (qs.length + 1)) % 2 ^ w := by
    rw [cursorSum, hc, ← BitVec.ofNat_add, BitVec.toNat_ofNat]
  show (q :: qs).get ⟨cursorSum sch.cursor (sch.rng.head % (qs.length + 1)) % (qs.length + 1), _⟩ = _
  simp only [hsum]

omit [DecidableEq Addr] in
/-- With random offsets the slots are where these lead. -/
theorem observeLow_slot_randomized {q : Addr} {qs : List Addr} (m : ℕ) : ∀ {c : ℕ} {sch : Scheduler Addr w},
    sch.cursor = BitVec.ofNat w c →
    observeLow (slot true) sch (List.replicate m (q :: qs)) = (List.range m).map fun j =>
      [(q :: qs).get
        ⟨(c + j + sch.rng.get j % (qs.length + 1)) % 2 ^ w % (qs.length + 1),
          Nat.mod_lt _ (Nat.succ_pos _)⟩] := by
  induction m with
  | zero => intros; rfl
  | succ m ih =>
    intro c sch hc
    rw [List.replicate_succ, List.range_succ_eq_map, List.map_cons, List.map_map]
    show [_] :: observeLow (slot true) (sch.pickRoundRobin q qs true).2 (List.replicate m (q :: qs)) = _
    rw [ih (cursor_pickRoundRobin hc q qs), pickRoundRobin_randomized hc]
    congr 1
    refine List.map_congr_left fun j _ => ?_
    have hj : c + 1 + j = c + (j + 1) := by omega
    simp only [hj]
    rfl

/-- The part of a list that a window shows. -/
theorem exists_mem_window_iff {α : Type*} {l : List α} {P : α → Prop} {i n : ℕ} :
    (∃ a ∈ (l.drop i).take n, P a) ↔ ∃ j, ∃ a, i ≤ j ∧ j < i + n ∧ l[j]? = some a ∧ P a := by
  constructor
  · rintro ⟨a, hmem, hP⟩
    obtain ⟨j, hj⟩ := List.getElem?_of_mem hmem
    have hlt : j < n := by
      by_contra hge
      rw [List.getElem?_take_eq_none (by omega)] at hj
      cases hj
    rw [List.getElem?_take_of_lt hlt, List.getElem?_drop] at hj
    exact ⟨i + j, a, by omega, by omega, hj, hP⟩
  · rintro ⟨j, a, hij, hjn, hj, hP⟩
    refine ⟨a, List.mem_of_getElem? (i := j - i) ?_, hP⟩
    have hback : i + (j - i) = j := by omega
    rw [List.getElem?_take_of_lt (by omega), List.getElem?_drop, hback, hj]

/-- Tick `j` sends to the peer exactly if the cursor and its offset lead to the peer's position. -/
theorem recipients_randomized (hscope : cfg.scope = .perConnection true) (hnd : peers.Nodup) (hp : p ∈ peers)
    (hsame : SamePeers peers ops) {j : ℕ} {es : List (Event Addr)} (hes : (ticks cfg cg s ops)[j]? = some es) :
    recipients es = [p] ↔
      (s.scheduler.cursor.toNat + j + s.scheduler.rng.get j % peers.length) % 2 ^ w % peers.length =
        peers.idxOf p := by
  obtain ⟨q, qs, rfl⟩ := List.exists_cons_of_ne_nil (List.ne_nil_of_mem hp)
  have hcursor : s.scheduler.cursor = BitVec.ofNat w s.scheduler.cursor.toNat := by simp
  have hmap : (ticks cfg cg s ops).map recipients = _ := map_recipients_ticks hscope ops
  rw [List.eq_replicate_of_mem hsame, observeLow_slot_randomized _ hcursor, ← length_ticks cfg cg s] at hmap
  have hlt : j < (ticks cfg cg s ops).length := (List.getElem?_eq_some_iff.mp hes).1
  have hj := congrArg (fun l => l[j]?) hmap
  simp only [List.getElem?_map, hes, Option.map_some, List.getElem?_range hlt, Option.some.injEq] at hj
  -- no peer is at two positions
  have hpos : (q :: qs).get ⟨(q :: qs).idxOf p, List.idxOf_lt_length_iff.mpr hp⟩ = p := List.getElem_idxOf _
  rw [hj, List.singleton_inj]
  nth_rewrite 1 [← hpos]
  rw [hnd.get_inj_iff, Fin.mk.injEq]
  exact Iff.rfl

/-- A run gives the peer its slots exactly if the offsets do. -/
theorem everyRound_iff (hscope : cfg.scope = .perConnection true) (hnd : peers.Nodup) (hp : p ∈ peers)
    (hsame : SamePeers peers ops) :
    EveryRound p peers.length (ticks cfg cg s ops) ↔
      OffsetsHit w peers.length (peers.idxOf p) s.scheduler.cursor.toNat
        (fun j => s.scheduler.rng.get j % peers.length) (ops.filterMap Op.snapshot?).length := by
  rw [EveryRound, OffsetsHit, length_ticks]
  refine forall_congr' fun i => forall_congr' fun hi => ?_
  rw [exists_mem_window_iff]
  refine exists_congr fun j => ⟨?_, ?_⟩
  · rintro ⟨es, hij, hjn, hes, hto⟩
    exact ⟨hij, hjn, (recipients_randomized hscope hnd hp hsame hes).mp hto⟩
  · rintro ⟨hij, hjn, hsum⟩
    have hlt : j < (ticks cfg cg s ops).length := by
      rw [length_ticks]
      omega
    obtain ⟨es, hes⟩ : ∃ es, (ticks cfg cg s ops)[j]? = some es := ⟨_, List.getElem?_eq_getElem hlt⟩
    exact ⟨es, hij, hjn, hes, (recipients_randomized hscope hnd hp hsame hes).mpr hsum⟩

/-! ### Offsets that miss a peer -/

/-- With two peers or more, whatever the cursor, some offset leads elsewhere. -/
theorem exists_offset_ne (hw : 0 < w) {n : ℕ} (hn : 2 ≤ n) (c pos : ℕ) :
    ∃ o < n, (c + o) % 2 ^ w % n ≠ pos := by
  by_contra hall
  push Not at hall
  -- one step does not lead back to the same position
  have hstep : ∀ a, (a + 1) % n ≠ a % n := by
    intro a heq
    have hmod : 1 ≡ 0 [MOD n] := Nat.ModEq.add_left_cancel' a heq
    rw [Nat.ModEq, Nat.mod_eq_of_lt (by omega), Nat.zero_mod] at hmod
    cases hmod
  have h0 := hall 0 (by omega)
  have h1 := hall 1 (by omega)
  obtain ⟨v, rfl⟩ : ∃ v, w = v + 1 := ⟨w - 1, by omega⟩
  have hpow : 0 < 2 ^ v := Nat.two_pow_pos v
  have hlt := Nat.mod_lt c (Nat.two_pow_pos (v + 1))
  rw [Nat.add_zero] at h0
  rw [← Nat.mod_add_mod] at h1
  rw [Nat.pow_succ] at *
  by_cases hwrap : c % (2 ^ v * 2) + 1 < 2 ^ v * 2
  · rw [Nat.mod_eq_of_lt hwrap] at h1
    exact hstep _ (h1.trans h0.symm)
  · -- the sum wraps to the first position, from one that is another
    have hmax : c % (2 ^ v * 2) + 1 = 2 ^ v * 2 := by omega
    rw [hmax, Nat.mod_self, Nat.zero_mod] at h1
    subst h1
    by_cases htwo : n = 2
    · subst htwo
      omega
    · have h2 := hall 2 (by omega)
      have hnext : c % (2 ^ v * 2) + 2 = 1 + 2 ^ v * 2 := by omega
      have hone : 1 % (2 ^ v * 2) = 1 := Nat.mod_eq_of_lt (by omega)
      have hone' : 1 % n = 1 := Nat.mod_eq_of_lt (by omega)
      rw [← Nat.mod_add_mod, hnext, Nat.add_mod_right, hone, hone'] at h2
      cases h2

/-- **When the slot bound holds with random offsets.** For every state, with `n` peers at every
tick, `p` among them: that any `n` ticks in a row have a slot for `p`, whatever the offsets, is
so if and only if `p` is the only peer. Of a run with given offsets: it is so if and only if for
one of any `n` ticks in a row the cursor and the offset drawn add up to the position of `p`. -/
theorem slot_bound_iff (hw : 0 < w) (hscope : cfg.scope = .perConnection true) (hnd : peers.Nodup) (hp : p ∈ peers)
    (s : NodeState Addr G w) :
    ((∀ rng ops, SamePeers peers ops →
        EveryRound p peers.length (ticks cfg cg { s with scheduler := { s.scheduler with rng := rng } } ops)) ↔
      peers.length = 1) ∧
    ∀ ops, SamePeers peers ops →
      (EveryRound p peers.length (ticks cfg cg s ops) ↔
        OffsetsHit w peers.length (peers.idxOf p) s.scheduler.cursor.toNat
          (fun j => s.scheduler.rng.get j % peers.length) (ops.filterMap Op.snapshot?).length) := by
  refine ⟨⟨fun hall => ?_, fun hone rng ops hsame => ?_⟩, fun ops hsame => everyRound_iff hscope hnd hp hsame⟩
  · have hpos : 0 < peers.length := List.length_pos_of_mem hp
    by_contra hne
    -- at each tick an offset that leads elsewhere is drawn
    choose miss hlt hmiss using fun j =>
      exists_offset_ne (n := peers.length) hw (by omega) (s.scheduler.cursor.toNat + j) (peers.idxOf p)
    let ops : List (Op Addr) := List.replicate peers.length (.sendOne peers)
    have hsnap : ops.filterMap Op.snapshot? = List.replicate peers.length peers :=
      List.filterMap_replicate_of_some rfl
    have hsame : SamePeers peers ops := by
      intro snapshot hmem
      rw [hsnap] at hmem
      exact List.eq_of_mem_replicate hmem
    have hround := (everyRound_iff hscope hnd hp hsame).mp (hall miss ops hsame)
    rw [hsnap, List.length_replicate] at hround
    obtain ⟨j, -, -, hj⟩ := hround 0 (by omega)
    refine hmiss j ?_
    have hoff : Stream'.get miss j % peers.length = miss j := Nat.mod_eq_of_lt (hlt j)
    simp only [hoff] at hj
    exact hj
  · rw [everyRound_iff hscope hnd hp hsame]
    intro i hi
    have hidx : peers.idxOf p < peers.length := List.idxOf_lt_length_iff.mpr hp
    refine ⟨i, le_rfl, by omega, ?_⟩
    rw [hone, Nat.mod_one]
    omega

/-- Two peers, and a new node. -/
theorem slot_bound_iff_two :
    let cfg : ShaperConfig := { frameSize := 32, scope := .perConnection true, accepted := by decide }
    let s : NodeState ℕ (Stream' UInt8) 64 := .new { rng := Stream'.const 1 } (Stream'.const 5)
    ((∀ rng ops, SamePeers [1, 2] ops →
        EveryRound 2 2 (ticks cfg randomCover { s with scheduler := { s.scheduler with rng := rng } } ops)) ↔
      [1, 2].length = 1) ∧
    ∀ ops, SamePeers [1, 2] ops →
      (EveryRound 2 2 (ticks cfg randomCover s ops) ↔
        OffsetsHit 64 2 1 0 (fun j => s.scheduler.rng.get j % 2) (ops.filterMap Op.snapshot?).length) :=
  slot_bound_iff (by decide) rfl (by decide) (by decide) _

/-- The offsets `0`, `1`, `0`, `1`: a frame for peer 2 is accepted, and four ticks over two peers
all send to peer 1. -/
theorem slot_bound_fails :
    let cfg : ShaperConfig := { frameSize := 32, scope := .perConnection true, accepted := by decide }
    let s : NodeState ℕ (Stream' UInt8) 64 := .new { rng := fun j => j } (Stream'.const 5)
    let ops : List (Op ℕ) :=
      .enqueueRaw .high (.unicast 2) (List.replicate 32 7) :: List.replicate 4 (.sendOne [1, 2])
    SamePeers [1, 2] ops ∧ (ticks cfg randomCover s ops).map recipients = [[1], [1], [1], [1]] ∧
      ¬ EveryRound 2 2 (ticks cfg randomCover s ops) := by
  intro cfg s ops
  have hsent : (ticks cfg randomCover s ops).map recipients = [[1], [1], [1], [1]] := by decide
  refine ⟨by decide, hsent, fun hround => ?_⟩
  obtain ⟨es, hes, hto⟩ := hround 0 (by decide)
  have hmem : recipients es ∈ (ticks cfg randomCover s ops).map recipients :=
    List.mem_map_of_mem (List.mem_of_mem_drop (List.mem_of_mem_take hes))
  rw [hsent, hto] at hmem
  simp at hmem

end Peashape.Shaping
