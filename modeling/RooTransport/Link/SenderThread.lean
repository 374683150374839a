import RooTransport.Base.Bell
import RooTransport.Link.OutgoingData

/-!
# The sender thread

`Channel::sendLoop` (`channel.cpp:540–552`) calls `trySend` over and over, and between two
calls waits on `OutgoingDataReadyNotification` for as long as `trySend` says
(`outgoing_data_ready_notification.h:15–41`). Every lock that `trySend` takes is a step of
its own, and so is every access of the notification to its flag and its mutex. The other
threads make their calls in between, with the notification as a step that comes later.

The sender does not sleep through a notification: one that is on its way wakes it. Once `end`
is called (`channel.cpp:574–580`), the thread that it joins comes to its end.
-/

namespace RooTransport.Link

open RooTransport.Base

/-- Where the sender is: about to test `active_`, before one of the parts of `trySend`, after
it, or in `await`. The number is `next_send_micros`. -/
inductive SenderPhase where
  | top
  | conn
  /-- `channel.cpp:253`. -/
  | gate (next : Nat)
  | ack (next : Nat)
  | himark (next : Nat)
  /-- Up to `left` more packets of the burst. -/
  | burst (left next : Nat)
  /-- `channel.cpp:544–545`. -/
  | pause (next : Nat)
  | await (next : Nat)
  | ended
  deriving DecidableEq, Repr

namespace SenderPhase

/-- The delay found so far. -/
def next : SenderPhase → Nat
  | .top | .conn | .ended => 0
  | .gate next | .ack next | .himark next | .burst _ next | .pause next | .await next => next

/-- How many of the four parts of `trySend` are over: handshake, acknowledgement, flow control
and data. -/
def parts : SenderPhase → Nat
  | .top | .conn | .ended => 0
  | .gate _ | .ack _ => 1
  | .himark _ => 2
  | .burst _ _ => 3
  | .pause _ | .await _ => 4

/-- The more, the further the sender is from its end, should it be told to stop. -/
def rank : SenderPhase → Nat
  | .ended => 0
  | .top => 1
  | .await _ => 5
  | .pause _ => 6
  | .burst left _ => 7 + left
  | .himark _ => 16
  | .ack _ => 17
  | .gate _ => 18
  | .conn => 19

end SenderPhase

/-- A channel and its sender thread. -/
structure SenderThread (m n : LinkBufferSize) where
  channel : Channel m n
  active : Bool
  clock : Uptime
  bell : Bell
  phase : SenderPhase
  /-- When the sender began its last pass. -/
  began : Uptime
  /-- Until when it may sleep. -/
  deadline : Uptime
  /-- Calls of `read` and `write` that wait with their flag set. -/
  withheld : Nat

namespace SenderThread

variable {m n : LinkBufferSize}

/-- `channel.cpp:50–69` and `569–571`: the thread is about to run its loop. -/
def new (m n : LinkBufferSize) : SenderThread m n where
  channel := .new m n
  active := true
  clock := 0
  bell := .silent
  phase := .top
  began := 0
  deadline := 0
  withheld := 0

/-- The next step of the sender. -/
def turn (s : SenderThread m n) (draw : Nat) : SenderThread m n :=
  match s.phase with
  | .top =>
    if s.active then { s with phase := .conn, began := s.clock } else { s with phase := .ended }
  | .conn => { s with
      channel := (s.channel.conn s.clock draw Channel.longMax).1
      phase := .gate (s.channel.conn s.clock draw Channel.longMax).2.2 }
  | .gate next =>
    { s with phase := if s.channel.transmitter.state = .connecting then .pause next else .ack next }
  | .ack next => { s with
      channel := { s.channel with receiver := s.channel.receiver.ack.1 }
      phase := .himark next }
  | .himark next => { s with
      channel := { s.channel with receiver := (s.channel.receiver.updateRecvHimark s.clock next).1 }
      phase := .burst 8 (s.channel.receiver.updateRecvHimark s.clock next).2.2 }
  | .burst 0 next => { s with phase := .pause next }
  | .burst (left + 1) next =>
    match s.channel.transmitter.send s.clock draw next with
    | (transmitter, [], next) =>
      { s with channel := { s.channel with transmitter }, phase := .pause next }
    | (transmitter, _, next) =>
      { s with channel := { s.channel with transmitter }, phase := .burst left next }
  | .pause next => { s with phase := if 0 < next then .await next else .top }
  | .await next =>
    match s.bell.waiter with
    | .away => { s with bell := s.bell.step .enter, deadline := s.clock + next }
    | .leaving => { s with bell := s.bell.step .turn, phase := .top }
    | .testing | .settling | .asleep | .woken => { s with bell := s.bell.step .turn }
  | .ended => s

/-- What happens around a channel. -/
inductive Act where
  /-- Time passes. -/
  | tick (micros : Nat)
  /-- A thread other than the sender makes a call. -/
  | call (a : Channel.Act)
  /-- A call that waited returns, and notifies. -/
  | announce
  /-- Any other call of `notify`, such as at the end of a `close` that waited. -/
  | notify
  /-- `channel.cpp:574–576`. -/
  | stop
  /-- `outgoing_data_ready_notification.h:25`. -/
  | exchange
  /-- `outgoing_data_ready_notification.h:26–28`. -/
  | signal
  | turn (draw : Nat)
  | rouse
  | expire
  deriving DecidableEq, Repr

/-- Take note of what a call announces. -/
def heed (s : SenderThread m n) : Announcement → SenderThread m n
  | .none => s
  | .now => { s with bell := s.bell.step .ring }
  | .later => { s with withheld := s.withheld + 1 }

/-- One step of time, of a caller or of the thread. -/
def step (s : SenderThread m n) : Act → Except Check (SenderThread m n)
  | .tick micros => .ok { s with clock := s.clock + micros }
  | .call a => (s.channel.call a).map fun out ↦ { s with channel := out.1 }.heed out.2
  | .announce =>
    .ok (if s.withheld = 0 then s
      else { s with withheld := s.withheld - 1, bell := s.bell.step .ring })
  | .notify => .ok { s with bell := s.bell.step .ring }
  | .stop => .ok { s with active := false, bell := s.bell.step .ring }
  | .exchange => .ok { s with bell := s.bell.step .exchange }
  | .signal => .ok { s with bell := s.bell.step .signal }
  | .turn draw => .ok (s.turn draw)
  | .rouse => .ok { s with bell := s.bell.step .rouse }
  | .expire => .ok (if s.deadline ≤ s.clock then { s with bell := s.bell.step .expire } else s)

/-- Other threads leave the sender's calls to it, meet the conditions under which no check
fails, and acknowledgements drop and mark only packets that were sent, at the positions where
`ack` applies them. -/
def Allowed (s : SenderThread m n) : Act → Prop
  | .call a => a.ByOthers ∧ s.channel.ChecksHold a ∧ s.channel.AcksSent a
  | _ => True

instance (s : SenderThread m n) : (a : Act) → Decidable (s.Allowed a)
  | .call _ => inferInstanceAs (Decidable (_ ∧ _ ∧ _))
  | .tick _ | .announce | .notify | .stop | .exchange | .signal | .turn _ | .rouse | .expire =>
    .isTrue trivial

/-! ### Waking the sender -/

section

variable {s s' : SenderThread m n}

/-- What the notification keeps: a sender that may sleep is woken by whoever has set the flag, and
one that is past its test of `active_` has been told if it is to stop. -/
structure Wakeable (s : SenderThread m n) : Prop where
  watched : s.bell.Watched
  home : s.bell.waiter ≠ .away → ∃ next, s.phase = .await next
  left_le : ∀ left next, s.phase = .burst left next → left ≤ 8
  running : s.phase ≠ .top → s.phase ≠ .ended → s.active = true ∨ s.bell.Pending

private theorem wakeable_new (m n : LinkBufferSize) : (new m n).Wakeable where
  watched := Bell.watched_silent
  home := fun h ↦ absurd rfl h
  left_le := by simp [new]
  running := fun h ↦ absurd rfl h

private theorem Wakeable.away (h : s.Wakeable) (hphase : ∀ next, s.phase ≠ .await next) :
    s.bell.waiter = .away := by
  by_contra hw
  obtain ⟨next, heq⟩ := h.home hw
  exact hphase next heq

-- a step of the notification that is not the sender's
private theorem Wakeable.ringing {a : Bell.Act} (h : s.Wakeable) (ha : a ≠ .turn ∧ a ≠ .enter) :
    { s with bell := s.bell.step a }.Wakeable where
  watched := h.watched.step a
  home := fun hw ↦ h.home fun haway ↦ hw (Bell.away_step haway ha.2)
  left_le := h.left_le
  running := fun htop hended ↦ (h.running htop hended).imp_right fun hp ↦
    hp.step fun hturn ↦ absurd hturn ha.1

-- whoever begins to notify may have done anything before
private theorem Wakeable.rung (h : s.Wakeable) (c : Channel m n) (active : Bool) (withheld : Nat) :
    { s with channel := c, active, withheld, bell := s.bell.step .ring }.Wakeable where
  watched := h.watched.step .ring
  home := h.home
  left_le := h.left_le
  running := fun _ _ ↦ .inr (Bell.pending_ring _)

private theorem Wakeable.heed (h : s.Wakeable) (c : Channel m n) (ann : Announcement) :
    ({ s with channel := c }.heed ann).Wakeable := by
  cases ann with
  | none | later => exact ⟨h.watched, h.home, h.left_le, h.running⟩
  | now => exact h.rung c s.active s.withheld

-- the sender gets on with its pass
private theorem Wakeable.advance (h : s.Wakeable) (c : Channel m n) {phase : SenderPhase}
    (hphase : s.phase ≠ .top ∧ s.phase ≠ .ended ∧ ∀ next, s.phase ≠ .await next)
    (hleft : ∀ left next, phase = .burst left next → left ≤ 8) :
    { s with channel := c, phase }.Wakeable where
  watched := h.watched
  home := fun hw ↦ absurd (h.away hphase.2.2) hw
  left_le := hleft
  running := fun _ _ ↦ h.running hphase.1 hphase.2.1

private theorem Wakeable.top (h : s.Wakeable) (hphase : s.phase = .top) (draw : Nat) :
    (s.turn draw).Wakeable := by
  have haway := h.away (by simp [hphase])
  rw [turn, hphase]
  dsimp only
  split
  · next hactive =>
    exact ⟨h.watched, fun hw ↦ absurd haway hw, by simp, fun _ _ ↦ .inl hactive⟩
  · exact ⟨h.watched, fun hw ↦ absurd haway hw, by simp, fun _ hended ↦ absurd rfl hended⟩

private theorem Wakeable.await {next : Nat} (h : s.Wakeable) (hphase : s.phase = .await next)
    (draw : Nat) : (s.turn draw).Wakeable := by
  have hpending := h.running (by simp [hphase]) (by simp [hphase])
  have hinside (a : Bell.Act) (ha : a = .turn → s.bell.waiter ≠ .leaving) (deadline : Uptime) :
      { s with bell := s.bell.step a, phase := .await next, deadline }.Wakeable :=
    ⟨h.watched.step a, fun _ ↦ ⟨next, rfl⟩, by simp,
      fun _ _ ↦ hpending.imp_right fun hp ↦ hp.step ha⟩
  rw [turn, hphase]
  dsimp only
  split
  · exact hinside .enter (by simp) _
  · next hw =>
    exact ⟨h.watched.step .turn, fun hno ↦ absurd (by simp [Bell.step, hw]) hno, by simp,
      fun htop ↦ absurd rfl htop⟩
  all_goals
    next hw => exact hinside .turn (by simp [hw]) s.deadline

private theorem Wakeable.turn (h : s.Wakeable) (draw : Nat) : (s.turn draw).Wakeable := by
  cases hphase : s.phase with
  | top => exact h.top hphase draw
  | await next => exact h.await hphase draw
  | conn =>
    rw [SenderThread.turn, hphase]
    exact h.advance _ (by simp [hphase]) (by simp)
  | gate next =>
    rw [SenderThread.turn, hphase]
    refine h.advance s.channel (by simp [hphase]) fun left k hb ↦ ?_
    split at hb <;> cases hb
  | ack next =>
    rw [SenderThread.turn, hphase]
    exact h.advance _ (by simp [hphase]) (by simp)
  | himark next =>
    rw [SenderThread.turn, hphase]
    refine h.advance _ (by simp [hphase]) fun left k hb ↦ ?_
    cases hb
    exact le_rfl
  | burst left next =>
    cases left with
    | zero =>
      rw [SenderThread.turn, hphase]
      exact h.advance s.channel (by simp [hphase]) (by simp)
    | succ left =>
      have hleft := h.left_le _ _ hphase
      rw [SenderThread.turn, hphase]
      dsimp only
      split
      · exact h.advance _ (by simp [hphase]) (by simp)
      · refine h.advance _ (by simp [hphase]) fun left' k hb ↦ ?_
        cases hb
        omega
  | pause next =>
    rw [SenderThread.turn, hphase]
    refine h.advance s.channel (by simp [hphase]) fun left k hb ↦ ?_
    split at hb <;> cases hb
  | ended =>
    rw [SenderThread.turn, hphase]
    exact h

private theorem Wakeable.step {a : Act} (h : s.Wakeable) (hs : s.step a = .ok s') :
    s'.Wakeable := by
  cases a with
  | tick micros =>
    cases hs
    exact ⟨h.watched, h.home, h.left_le, h.running⟩
  | call a =>
    obtain ⟨⟨c', ann⟩, -, rfl⟩ := map_eq_ok.mp hs
    exact h.heed c' ann
  | announce =>
    cases hs
    split
    · exact h
    · exact h.rung s.channel s.active (s.withheld - 1)
  | stop =>
    cases hs
    exact h.rung s.channel false s.withheld
  | notify | exchange | signal | rouse =>
    cases hs
    exact h.ringing (by decide)
  | turn draw =>
    cases hs
    exact h.turn draw
  | expire =>
    cases hs
    split
    · exact h.ringing (by decide)
    · exact h

/-- The notification works whatever the other threads call. -/
theorem wakeable_of_reachable {guard : SenderThread m n → Act → Prop}
    (h : Reachable step guard (new m n) s) : s.Wakeable :=
  h.invariant Wakeable (wakeable_new m n) fun _ _ _ hw _ hs ↦ hw.step hs

/-! ### The end -/

/-- How many steps are left at most when the sender is told to stop and nobody calls. -/
def remaining (s : SenderThread m n) : Nat := s.bell.effort + s.phase.rank

/-- A step with an effect, by the sender or by a call of `notify` that is under way. -/
def Unwinds (s : SenderThread m n) (a : Act) (s' : SenderThread m n) : Prop :=
  (a = .exchange ∨ a = .signal ∨ ∃ draw, a = .turn draw) ∧ s.step a = .ok s' ∧ s' ≠ s

private theorem remaining_bell {a : Bell.Act}
    (h : s.bell.step a = s.bell ∨ (s.bell.step a).effort < s.bell.effort) :
    { s with bell := s.bell.step a } = s ∨
      { s with bell := s.bell.step a }.remaining < s.remaining := by
  rcases h with h | h
  · left
    rw [h]
  · exact .inr (Nat.add_lt_add_right h _)

private theorem remaining_turn_lt (hstop : s.active = false) (hended : s.phase ≠ .ended)
    (hawait : ∀ next, s.phase ≠ .await next) (draw : Nat) :
    (s.turn draw).remaining < s.remaining := by
  cases hphase : s.phase with
  | top => simp [turn, remaining, hphase, hstop, SenderPhase.rank]
  | conn | ack | himark => simp [turn, remaining, hphase, SenderPhase.rank]
  | gate | pause =>
    simp only [turn, remaining, hphase]
    split <;> simp [SenderPhase.rank]
  | burst left next =>
    cases left with
    | zero => simp [turn, remaining, hphase, SenderPhase.rank]
    | succ left =>
      simp only [turn, remaining, hphase]
      split <;> simp only [SenderPhase.rank] <;> omega
  | await next => exact absurd hphase (hawait next)
  | ended => exact absurd hphase hended

private theorem turn_inside {next : Nat} (hphase : s.phase = .await next)
    (haway : s.bell.waiter ≠ .away) (hleaving : s.bell.waiter ≠ .leaving) (draw : Nat) :
    s.turn draw = { s with bell := s.bell.step .turn } := by
  simp only [turn, hphase]
  cases hw : s.bell.waiter with
  | away => exact absurd hw haway
  | leaving => exact absurd hw hleaving
  | testing | settling | asleep | woken => rfl

private theorem remaining_await {next : Nat} (hphase : s.phase = .await next) (draw : Nat) :
    s.turn draw = s ∨ (s.turn draw).remaining < s.remaining := by
  by_cases haway : s.bell.waiter = .away
  · right
    have := Bell.effort_enter haway
    simp only [turn, hphase, haway, remaining]
    omega
  by_cases hleaving : s.bell.waiter = .leaving
  · right
    have := Bell.effort_leave hleaving
    simp only [turn, hphase, hleaving, remaining, SenderPhase.rank]
    omega
  · rw [turn_inside hphase haway hleaving]
    exact remaining_bell (Bell.effort_turn hleaving)

private theorem remaining_turn (hstop : s.active = false) (draw : Nat) :
    s.turn draw = s ∨ (s.turn draw).remaining < s.remaining := by
  by_cases hended : s.phase = .ended
  · left
    simp [turn, hended]
  by_cases hawait : ∃ next, s.phase = .await next
  · obtain ⟨next, hphase⟩ := hawait
    exact remaining_await hphase draw
  · exact .inr (remaining_turn_lt hstop hended (not_exists.mp hawait) draw)

private theorem turn_active (s : SenderThread m n) (draw : Nat) :
    (s.turn draw).active = s.active := by
  unfold turn
  split <;> (try split) <;> rfl

private theorem Unwinds.wakeable {a : Act} (h : s.Wakeable ∧ s.active = false)
    (hu : s.Unwinds a s') : (s'.Wakeable ∧ s'.active = false) ∧ s'.remaining < s.remaining := by
  obtain ⟨ha, hs, hne⟩ := hu
  rcases ha with rfl | rfl | ⟨draw, rfl⟩
  · cases hs
    exact ⟨⟨h.1.step (a := .exchange) rfl, h.2⟩,
      (remaining_bell s.bell.effort_exchange).resolve_left hne⟩
  · cases hs
    exact ⟨⟨h.1.step (a := .signal) rfl, h.2⟩,
      (remaining_bell s.bell.effort_signal).resolve_left hne⟩
  · cases hs
    exact ⟨⟨h.1.turn draw, (turn_active s draw).trans h.2⟩,
      (remaining_turn h.2 draw).resolve_left hne⟩

/-- A sender that was told to stop sleeps only while a call is on its way to wake it. -/
theorem Wakeable.unwinds_await {next : Nat} (h : s.Wakeable) (hstop : s.active = false)
    (hphase : s.phase = .await next) : ∃ a s', s.Unwinds a s' := by
  have hbell {a : Bell.Act} (ha : s.bell.step a ≠ s.bell) : { s with bell := s.bell.step a } ≠ s :=
    fun heq ↦ ha (congrArg bell heq)
  have hturn (ht : s.turn 0 ≠ s) : ∃ a s', s.Unwinds a s' :=
    ⟨.turn 0, _, .inr (.inr ⟨0, rfl⟩), rfl, ht⟩
  have hpending : s.bell.Pending :=
    (h.running (by simp [hphase]) (by simp [hphase])).resolve_left (by simp [hstop])
  by_cases haway : s.bell.waiter = .away
  · have hlt := Bell.effort_enter haway
    apply hturn
    simp only [SenderThread.turn, hphase, haway]
    intro heq
    have hsame : s.bell.step .enter = s.bell := congrArg bell heq
    rw [hsame] at hlt
    exact lt_irrefl _ hlt
  by_cases hleaving : s.bell.waiter = .leaving
  · apply hturn
    simp only [SenderThread.turn, hphase, hleaving]
    intro heq
    cases hphase.symm.trans (congrArg phase heq).symm
  rcases h.watched.onward hpending haway with hne | hne | hne
  · exact ⟨.exchange, _, .inl rfl, rfl, hbell hne⟩
  · exact ⟨.signal, _, .inr (.inl rfl), rfl, hbell hne⟩
  · apply hturn
    rw [turn_inside hphase haway hleaving]
    exact hbell hne

private theorem Wakeable.unwinds (h : s.Wakeable) (hstop : s.active = false)
    (hended : s.phase ≠ .ended) : ∃ a s', s.Unwinds a s' := by
  by_cases hawait : ∃ next, s.phase = .await next
  · obtain ⟨next, hphase⟩ := hawait
    exact h.unwinds_await hstop hphase
  · refine ⟨.turn 0, s.turn 0, .inr (.inr ⟨0, rfl⟩), rfl, fun heq ↦ ?_⟩
    have hlt := remaining_turn_lt hstop hended (not_exists.mp hawait) 0
    rw [heq] at hlt
    exact lt_irrefl _ hlt

private theorem Wakeable.remaining_le (h : s.Wakeable) :
    s.remaining ≤ 22 + 5 * s.bell.ringing + 4 * s.bell.signalling := by
  have hwaiter : s.bell.waiter.distance ≤ 3 := by
    cases s.bell.waiter <;> simp [Waiter.distance]
  have hrank : s.phase.rank ≤ 19 := by
    cases hphase : s.phase with
    | burst left next =>
      have := h.left_le left next hphase
      simp only [SenderPhase.rank]
      omega
    | _ => simp [SenderPhase.rank]
  simp only [remaining, Bell.effort]
  omega

/-- Once `end` was called, the sender comes to its end and `join` returns, however its steps
and those of the calls of `notify` under way are ordered and without any wait for its delay:
only a bounded number of steps is left, and as long as it has not ended one of them can be
taken. -/
theorem sender_ends (h : Reachable step anyStep (new m n) s) (hstop : s.active = false)
    {acts : List Act} (hrun : Path Unwinds s acts s') :
    acts.length ≤ 22 + 5 * s.bell.ringing + 4 * s.bell.signalling ∧
      (s'.phase ≠ .ended → ∃ a s'', s'.Unwinds a s'') := by
  have hk := wakeable_of_reachable h
  constructor
  · have hlen := hrun.length_le (fun s ↦ s.Wakeable ∧ s.active = false) remaining
      (fun _ _ _ hi hu ↦ hu.wakeable hi) ⟨hk, hstop⟩
    have := hk.remaining_le
    omega
  · obtain ⟨hk', hstop'⟩ := hrun.invariant (fun s ↦ s.Wakeable ∧ s.active = false)
      (fun _ _ _ _ hi hu ↦ (hu.wakeable hi).1) ⟨hk, hstop⟩
    exact hk'.unwinds hstop'

end

/-- The sender was asleep, and is woken. -/
theorem sender_ends_from_sleep : ∃ s s' : SenderThread 2 2,
    Reachable step anyStep (new 2 2) s ∧ s.active = false ∧ s.bell.waiter = .asleep ∧
    Path Unwinds s [.exchange, .signal] s' ∧ s'.bell.waiter = .woken ∧
    [Act.exchange, .signal].length ≤ 22 + 5 * s.bell.ringing + 4 * s.bell.signalling ∧
    ∃ a s'', s'.Unwinds a s'' := by
  obtain ⟨s, hr, hs⟩ := Reachable.of_test step anyStep (new 2 2)
    (List.replicate 12 (.turn 0) ++ [.stop])
    (fun s ↦ s.phase = .await s.phase.next ∧ s.active = false ∧ s.bell = ⟨false, 1, 0, .asleep⟩)
    (meets_anyStep step _ _) (by decide)
  obtain ⟨hphase, hstop, hbell⟩ := of_decide_eq_true hs
  have hawait : s.phase ≠ .ended := fun hended ↦ by cases hended.symm.trans hphase
  have hexchange : s.Unwinds .exchange { s with bell := ⟨true, 0, 1, .asleep⟩ } := by
    refine ⟨.inl rfl, by simp [step, hbell, Bell.step], fun heq ↦ ?_⟩
    cases hbell.symm.trans (congrArg bell heq).symm
  have hpath : Path Unwinds s [.exchange, .signal] { s with bell := ⟨true, 0, 0, .woken⟩ } := by
    refine .cons hexchange (.single ⟨.inr (.inl rfl), rfl, fun heq ↦ ?_⟩)
    cases congrArg bell heq
  obtain ⟨hlen, hnext⟩ := sender_ends hr hstop hpath
  exact ⟨s, _, hr, hstop, by rw [hbell], hpath, rfl, hlen, hnext hawait⟩

end SenderThread

end RooTransport.Link
