import Peashape.Foundation.Lagging
import Peashape.Model.Shaper

/-!
# The receiving side of a node

What a node does with the messages that arrive: `process_message` hands each to
`handle_incoming`, which sends those of the right size to the subscribers, through the
broadcast channel `incoming`. The channel belongs to another crate: it is a parameter, of which
`Peashape.Foundation.Lagging.Broadcast.Documented` says what is documented, with
`SUBSCRIBER_CAPACITY` for its capacity.
-/

namespace Peashape

open Foundation Lagging

/-- `SUBSCRIBER_CAPACITY`. -/
def subscriberCapacity : ℕ := 1024

/-- What happens at the receiving side. -/
inductive InboxAct where
  /-- A message arrives from a peer. -/
  | processMessage (message : Bytes)
  /-- The application calls `subscribe`. -/
  | subscribe
  /-- A subscriber asks for its next frame. -/
  | recv (i : ℕ)
  /-- A subscriber drops its receiver. -/
  | drop (i : ℕ)
  deriving DecidableEq

namespace Inbox

variable {χ : Type*} (bc : Broadcast χ Bytes) (cfg : ShaperConfig)

/-- What an action does to the channel: of a message of the wrong size, nothing. -/
def channelAct : InboxAct → Option (Lagging.Act Bytes)
  | .processMessage message => (Shaper.handleIncoming cfg message).map .send
  | .subscribe => some .subscribe
  | .recv i => some (.recv i)
  | .drop i => some (.drop i)

/-- One step of the receiving side, on the channel `incoming`. -/
def step (s : χ) (a : InboxAct) : Option (List (Lagging.Event Bytes) × χ) :=
  match channelAct cfg a with
  | none => some ([], s)
  | some act => bc.step s act

/-- `process_message` always goes through. -/
def processMessage (message : Bytes) (s : χ) : List (Lagging.Event Bytes) × χ :=
  (step bc cfg s (.processMessage message)).getD ([], s)

/-- The frame that an action brings: a message of the right size. -/
def frame : InboxAct → Option Bytes
  | .processMessage message => Shaper.handleIncoming cfg message
  | _ => none

/-- The messages that arrive. -/
def messages (as : List InboxAct) : List Bytes :=
  as.filterMap fun
    | .processMessage message => some message
    | _ => none

theorem messages_append (as bs : List InboxAct) : messages (as ++ bs) = messages as ++ messages bs :=
  List.filterMap_append

theorem messages_map (items : List Bytes) : messages (items.map .processMessage) = items := by
  rw [messages, List.filterMap_map]
  exact List.filterMap_some

/-- What an action is to the mailbox of subscriber `i`. -/
def input (i : ℕ) (a : InboxAct) : Option (Mailbox.Input Bytes) := (channelAct cfg a).bind (Act.input i)

theorem handleIncoming_of_eq {cfg : ShaperConfig} {message : Bytes} (h : message.length = cfg.frameSize) :
    Shaper.handleIncoming cfg message = some message := if_neg (not_not.mpr h)

theorem handleIncoming_of_ne {cfg : ShaperConfig} {message : Bytes} (h : message.length ≠ cfg.frameSize) :
    Shaper.handleIncoming cfg message = none := if_pos h

theorem length_of_handleIncoming {cfg : ShaperConfig} {message frame : Bytes}
    (h : Shaper.handleIncoming cfg message = some frame) : frame = message ∧ frame.length = cfg.frameSize := by
  by_cases hlen : message.length = cfg.frameSize
  · rw [handleIncoming_of_eq hlen] at h
    cases h
    exact ⟨rfl, hlen⟩
  · rw [handleIncoming_of_ne hlen] at h
    cases h

theorem input_arrival (i : ℕ) (a : InboxAct) : (input cfg i a).bind Mailbox.Input.arrival = frame cfg a := by
  cases a with
  | processMessage message =>
    simp only [input, channelAct, frame]
    cases Shaper.handleIncoming cfg message <;> rfl
  | subscribe => rfl
  | recv j =>
    by_cases hj : j = i
    · simp [input, channelAct, frame, Act.input, hj, Mailbox.Input.arrival]
    · simp [input, channelAct, frame, Act.input, hj]
  | drop j => rfl

/-- The frames are among the messages. -/
theorem frames_sublist_messages : ∀ as : List InboxAct, (as.filterMap (frame cfg)).Sublist (messages as)
  | [] => .refl []
  | a :: as => by
    have ih := frames_sublist_messages as
    cases a with
    | processMessage message =>
      cases hm : frame cfg (.processMessage message) with
      | none =>
        rw [List.filterMap_cons_none hm]
        exact ih.cons message
      | some y =>
        obtain ⟨rfl, -⟩ := length_of_handleIncoming hm
        rw [List.filterMap_cons_some hm]
        exact ih.cons_cons y
    | subscribe => exact ih
    | recv i => exact ih
    | drop i => exact ih

/-- What arrives in the mailbox of a subscriber are the frames. -/
theorem arrivals_input (i : ℕ) (as : List InboxAct) :
    Mailbox.arrivals (as.filterMap (input cfg i)) = as.filterMap (frame cfg) := by
  rw [Mailbox.arrivals, List.filterMap_filterMap]
  exact congrArg (as.filterMap ·) (funext (input_arrival cfg i))

theorem channelAct_sent (a : InboxAct) : (channelAct cfg a).bind Act.sent = frame cfg a := by
  cases a with
  | processMessage message =>
    simp only [channelAct, frame]
    cases Shaper.handleIncoming cfg message <;> rfl
  | subscribe => rfl
  | recv j => rfl
  | drop j => rfl

variable {bc}

/-- A run of the receiving side is a run of its channel. -/
theorem run_channel {s₀ s : χ} {as : List InboxAct} {tr : List (Lagging.Event Bytes)}
    (h : Run (stepOf (step bc cfg)) s₀ as tr s) : Run (stepOf bc.step) s₀ (as.filterMap (channelAct cfg)) tr s := by
  induction h with
  | nil => exact .nil
  | @snoc as tr s a es s' _ hs ih =>
    simp only [stepOf, step] at hs
    rw [List.filterMap_append]
    cases ha : channelAct cfg a with
    | none =>
      rw [ha] at hs
      cases hs
      simpa only [List.filterMap_cons, ha, List.filterMap_nil, List.append_nil] using ih
    | some act =>
      rw [ha] at hs
      simpa only [List.filterMap_cons, ha, List.filterMap_nil] using ih.snoc hs

/-- **Every subscriber is told of frames that arrived, in order and each once.** -/
theorem values_told_sublist (hbc : bc.Documented subscriberCapacity) {s : χ} {as : List InboxAct}
    {tr : List (Lagging.Event Bytes)} (h : Run (stepOf (step bc cfg)) bc.new as tr s) (i : ℕ) :
    (values (told i tr)).Sublist (as.filterMap (frame cfg)) := by
  have hsent := sentValues_sublist (run_channel cfg h)
  rw [List.filterMap_filterMap, funext (channelAct_sent cfg)] at hsent
  exact (Lagging.values_told_sublist hbc (run_channel cfg h) i).trans hsent

end Inbox

end Peashape
