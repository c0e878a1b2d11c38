import Peashape.Model.Inbox

/-!
# What subscribers receive

Any number of applications subscribe to the frames that arrive at a node, each asks for the
next one when it likes, and the channel keeps `SUBSCRIBER_CAPACITY` of them. Each subscriber is
answered as by a mailbox of its own (`told_eq_mailbox`): neither the other subscribers, nor
what arrived before it subscribed, nor messages of the wrong size make a difference. What it
is told accounts for the frames that arrived since it subscribed, one by one and gap by gap,
and there is no gap exactly if it never lets more than `SUBSCRIBER_CAPACITY` frames wait
(`told_accounts`).
-/

namespace Peashape

open Foundation Lagging

variable {χ : Type*} {bc : Broadcast χ Bytes} {cfg : ShaperConfig} {s₀ s : χ} {as : List InboxAct}
  {tr : List (Lagging.Event Bytes)}

/-- To drop a receiver is to drop it from the channel. -/
theorem Inbox.drop_notMem_channelAct {i : ℕ} (h : InboxAct.drop i ∉ as) :
    Lagging.Act.drop i ∉ as.filterMap (Inbox.channelAct cfg) := by
  intro hmem
  obtain ⟨a, ha, hact⟩ := List.mem_filterMap.mp hmem
  cases a with
  | processMessage message =>
    obtain ⟨x, -, hx⟩ := Option.map_eq_some_iff.mp hact
    cases hx
  | subscribe => cases hact
  | recv j => cases hact
  | drop j =>
    cases hact
    exact h ha

/-- A subscriber and its mailbox, from the moment it subscribed. -/
theorem Inbox.run_serves (hbc : bc.Documented subscriberCapacity)
    (h : Run (stepOf (Inbox.step bc cfg)) (bc.subscribe s₀) as tr s)
    (hdrop : InboxAct.drop (bc.cursors s₀).length ∉ as) :
    Serves bc (bc.cursors s₀).length s
        (Mailbox.serve subscriberCapacity [] (as.filterMap (Inbox.input cfg (bc.cursors s₀).length))).2 ∧
      told (bc.cursors s₀).length tr =
        (Mailbox.serve subscriberCapacity [] (as.filterMap (Inbox.input cfg (bc.cursors s₀).length))).1 := by
  have hserves := Lagging.run_serves hbc (.subscribe hbc s₀) (Inbox.run_channel cfg h)
    (Inbox.drop_notMem_channelAct hdrop)
  rw [List.filterMap_filterMap] at hserves
  exact hserves

/-- **Subscribers do not disturb each other**: what one is told from the moment it subscribed
is what a mailbox of its own would tell it, in which the frames that arrive wait for it. -/
theorem told_eq_mailbox (hbc : bc.Documented subscriberCapacity)
    (h : Run (stepOf (Inbox.step bc cfg)) (bc.subscribe s₀) as tr s)
    (hdrop : InboxAct.drop (bc.cursors s₀).length ∉ as) :
    told (bc.cursors s₀).length tr =
      (Mailbox.serve subscriberCapacity [] (as.filterMap (Inbox.input cfg (bc.cursors s₀).length))).1 :=
  (Inbox.run_serves hbc h hdrop).2

/-- Two subscribers, the second after a frame arrived that only the first one gets. -/
theorem told_eq_mailbox_second :
    let bc : Broadcast (Log Bytes) Bytes := .plain subscriberCapacity
    let cfg : NodeConfig := { frameSize := 32, accepted := by decide }
    let earlier : Bytes := List.replicate 32 1
    let later : Bytes := List.replicate 32 2
    let as₀ : List InboxAct := [.subscribe, .processMessage earlier]
    let as : List InboxAct := [.processMessage [3], .processMessage later, .recv 0, .recv 1, .drop 0, .recv 1]
    ∃ s₀ tr₀ tr s, Run (stepOf (Inbox.step bc cfg.shaper)) bc.new as₀ tr₀ s₀ ∧
      Run (stepOf (Inbox.step bc cfg.shaper)) (bc.subscribe s₀) as tr s ∧ told 1 tr = [.value later, .empty] ∧
      told 1 tr = (Mailbox.serve subscriberCapacity [] (as.filterMap (Inbox.input cfg.shaper 1))).1 := by
  intro bc cfg earlier later as₀ as
  have before : Run (stepOf (Inbox.step bc cfg.shaper)) bc.new as₀ [.sent earlier] ⟨[earlier], [some 0]⟩ :=
    run_of_exec (by decide)
  have h : Run (stepOf (Inbox.step bc cfg.shaper)) (bc.subscribe ⟨[earlier], [some 0]⟩) as
      [.sent later, .told 0 (.value earlier), .told 1 (.value later), .told 1 .empty]
      ⟨[earlier, later], [none, some 2]⟩ := run_of_exec (by decide)
  exact ⟨_, _, _, _, before, h, rfl, told_eq_mailbox (Broadcast.plain_documented _) h (by decide)⟩

/-- **What a subscriber is told accounts for what arrived**: the frames that arrived since it
subscribed are those its answers account for, in order, and those it has still to read, from
which its next answer is taken. Of the former it received each once at most, and as many as it
did not receive were counted as missed. It has missed none exactly if it was prompt. -/
theorem told_accounts (hbc : bc.Documented subscriberCapacity)
    (h : Run (stepOf (Inbox.step bc cfg)) (bc.subscribe s₀) as tr s)
    (hdrop : InboxAct.drop (bc.cursors s₀).length ∉ as) :
    ∃ read unread, as.filterMap (Inbox.frame cfg) = read ++ unread ∧ Accounts (told (bc.cursors s₀).length tr) read ∧
      (values (told (bc.cursors s₀).length tr)).Sublist read ∧
      read.length = (values (told (bc.cursors s₀).length tr)).length + missed (told (bc.cursors s₀).length tr) ∧
      (missed (told (bc.cursors s₀).length tr) = 0 ↔
        Prompt subscriberCapacity 0 (as.filterMap (Inbox.input cfg (bc.cursors s₀).length))) ∧
      ∀ es s', Inbox.step bc cfg s (.recv (bc.cursors s₀).length) = some (es, s') →
        told (bc.cursors s₀).length es = [(Mailbox.recv subscriberCapacity unread).1] := by
  obtain ⟨hserves, htold⟩ := Inbox.run_serves hbc h hdrop
  obtain ⟨read, hread, hacc⟩ :=
    @serve_accounts _ subscriberCapacity (as.filterMap (Inbox.input cfg (bc.cursors s₀).length)) []
  rw [List.nil_append, Inbox.arrivals_input] at hread
  rw [htold]
  refine ⟨read, _, hread, hacc, hacc.values_sublist, hacc.length_eq, missed_serve_eq_zero_iff _ [], ?_⟩
  rintro es s' hs
  obtain ⟨-, hnext⟩ := hserves.step hbc (a := .recv (bc.cursors s₀).length) nofun hs
  simpa [Act.input, Mailbox.serve] using hnext

/-- A subscriber that reads one of two frames. -/
theorem told_accounts_first :
    let bc : Broadcast (Log Bytes) Bytes := .plain subscriberCapacity
    let cfg : NodeConfig := { frameSize := 32, accepted := by decide }
    let first : Bytes := List.replicate 32 1
    let second : Bytes := List.replicate 32 2
    let as : List InboxAct := [.processMessage first, .processMessage [3], .processMessage second, .recv 0]
    ∃ tr s read unread, Run (stepOf (Inbox.step bc cfg.shaper)) (bc.subscribe bc.new) as tr s ∧
      told 0 tr = [.value first] ∧ as.filterMap (Inbox.frame cfg.shaper) = read ++ unread ∧ Accounts (told 0 tr) read ∧
      (values (told 0 tr)).Sublist read ∧ read.length = (values (told 0 tr)).length + missed (told 0 tr) ∧
      (missed (told 0 tr) = 0 ↔ Prompt subscriberCapacity 0 (as.filterMap (Inbox.input cfg.shaper 0))) ∧
      ∀ es s', Inbox.step bc cfg.shaper s (.recv 0) = some (es, s') →
        told 0 es = [(Mailbox.recv subscriberCapacity unread).1] := by
  intro bc cfg first second as
  have h : Run (stepOf (Inbox.step bc cfg.shaper)) (bc.subscribe bc.new) as
      [.sent first, .sent second, .told 0 (.value first)] ⟨[first, second], [some 1]⟩ := run_of_exec (by decide)
  obtain ⟨read, unread, hread, haccounts⟩ := told_accounts (Broadcast.plain_documented _) h (by decide)
  exact ⟨_, _, read, unread, h, rfl, hread, haccounts⟩

end Peashape
