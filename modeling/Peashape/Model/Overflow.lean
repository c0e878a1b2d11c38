import Peashape.Foundation.Machine
import Peashape.Model.Scheduler

/-!
# Picking peers, with overflow checks

The index `(*cursor + offset) % remaining` of `pick_targets` and `pick_round_robin` is the
remainder of a plain sum. In `Peashape.Model.Scheduler` the sum wraps, as it does in a build
without overflow checks. In a build with them a sum that a `usize` cannot hold is a panic: here
are the two functions as such a build runs them, with `none` for the panic. The cursor is
advanced with `wrapping_add` in either build.

A `PickCall` is a call of one of the two. Runs of such calls are all that happens to the
scheduler's memory.
-/

namespace Peashape

open Foundation

variable {Addr : Type*} {w : ℕ}

/-- `*cursor + offset`, with overflow checks. -/
def checkedSum (cursor : BitVec w) (offset : ℕ) : Option ℕ :=
  if cursor.toNat + offset < 2 ^ w then some (cursor.toNat + offset) else none

namespace Scheduler

variable [DecidableEq Addr]

/-- Draw an offset and remove from the nonempty pool `a :: pool` the position at
`(*cursor + offset) % remaining`. -/
def drawChecked {n : ℕ} (cursor : BitVec w) (rng : Stream' ℕ) (a : Fin n) (pool : List (Fin n)) :
    Option (Fin n × List (Fin n) × Stream' ℕ) :=
  let (offset, rng) := randomRange (pool.length + 1) rng
  match checkedSum cursor offset with
  | none => none
  | some sum =>
    let (i, pool) := Deque.removeAt sum a pool
    some (i, pool, rng)

/-- The loop of `pick_targets`, for at most the given number of rounds. -/
def pickLoopChecked {peers : List Addr} : ℕ → Picking peers w → Option (Picking peers w)
  | 0, st => some st
  | k + 1, st =>
    match st.fresh, st.used with
    | a :: fresh, used =>
      match drawChecked st.cursor st.rng a fresh with
      | none => none
      | some (i, fresh, rng) =>
        pickLoopChecked k ⟨fresh, used, st.chosen ++ [peers.get i], st.cursor + 1, rng⟩
    | [], a :: used =>
      match drawChecked st.cursor st.rng a used with
      | none => none
      | some (i, used, rng) =>
        pickLoopChecked k ⟨[], used, st.chosen ++ [peers.get i], st.cursor + 1, rng⟩
    | [], [] => some st

/-- `pick_targets`. -/
def pickTargetsChecked (peers : List Addr) (fanout : ℕ) (sch : Scheduler Addr w) :
    Option (List Addr × Scheduler Addr w) :=
  if peers.length = 0 then some ([], sch)
  else
    (pickLoopChecked (min fanout peers.length) (pickStart peers sch)).map fun st =>
      (st.chosen, ⟨st.cursor, st.chosen, st.rng⟩)

omit [DecidableEq Addr] in
/-- `pick % n` is a position of the peer list. -/
theorem pick_lt (p : Addr) (ps : List Addr) (pick : ℕ) : pick % (ps.length + 1) < (p :: ps).length :=
  Nat.mod_lt _ (Nat.succ_pos _)

/-- `pick_round_robin`, for the nonempty peer list `p :: ps`. -/
def pickRoundRobinChecked (p : Addr) (ps : List Addr) (randomize : Bool) (sch : Scheduler Addr w) :
    Option (Addr × Scheduler Addr w) :=
  let n := ps.length + 1
  if randomize then
    let (offset, rng) := randomRange n sch.rng
    match checkedSum sch.cursor offset with
    | none => none
    | some sum =>
      some ((p :: ps).get ⟨sum % n, pick_lt p ps sum⟩, ⟨sch.cursor + 1, sch.lastPeers, rng⟩)
  else
    let pick := sch.cursor.toNat
    some ((p :: ps).get ⟨pick % n, pick_lt p ps pick⟩, ⟨sch.cursor + 1, sch.lastPeers, sch.rng⟩)

end Scheduler

/-! ### Calls -/

/-- A call of `pick_targets` or `pick_round_robin`. -/
inductive PickCall (Addr : Type*) where
  /-- `pick_targets(peers, fanout)`. -/
  | targets (peers : List Addr) (fanout : ℕ)
  /-- `pick_round_robin(p :: ps, randomize)`. -/
  | roundRobin (p : Addr) (ps : List Addr) (randomize : Bool)

namespace PickCall

/-- How many picks it makes. -/
def picks : PickCall Addr → ℕ
  | targets peers fanout => min fanout peers.length
  | roundRobin .. => 1

variable [DecidableEq Addr]

/-- What it returns, and what it leaves of the scheduler's memory. -/
def exec (sch : Scheduler Addr w) : PickCall Addr → List Addr × Scheduler Addr w
  | targets peers fanout => sch.pickTargets peers fanout
  | roundRobin p ps randomize =>
    let (peer, sch) := sch.pickRoundRobin p ps randomize
    ([peer], sch)

/-- The same with overflow checks. -/
def execChecked (sch : Scheduler Addr w) : PickCall Addr → Option (List Addr × Scheduler Addr w)
  | targets peers fanout => sch.pickTargetsChecked peers fanout
  | roundRobin p ps randomize => (sch.pickRoundRobinChecked p ps randomize).map fun (peer, sch) => ([peer], sch)

/-- One call. -/
def Step : Scheduler Addr w → PickCall Addr → List Addr → Scheduler Addr w → Prop :=
  stepOf fun sch call => some (call.exec sch)

/-- One call with overflow checks; a panic takes no step. -/
def CheckedStep : Scheduler Addr w → PickCall Addr → List Addr → Scheduler Addr w → Prop :=
  stepOf fun sch call => call.execChecked sch

end PickCall

end Peashape
