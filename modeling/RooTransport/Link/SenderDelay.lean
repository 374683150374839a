import RooTransport.Link.SenderThread

/-!
# What is due while the sender sleeps

`trySend` (`channel.cpp:241–274`) returns the delay after which it wants to be called again, and
the sender sleeps for so long unless it is notified. As long as no notification is on its way,
nothing is due before the delay is over, counted from the beginning of the pass that has returned
it. The sender sets its timer later, when the pass is over: by the time that the pass took and
that it was kept waiting since, it can sleep past what is due.
-/

namespace RooTransport.Link

open RooTransport.Base

namespace Channel

variable {m n : LinkBufferSize} {c c' : Channel m n}

/-- The first `parts` kinds of packets are not due before `deadline`, and where flow control is
one of them and is under way, the `delay` until then is at most a tenth of a second. -/
structure Settled (c : Channel m n) (parts : Nat) (deadline : Uptime) (delay : Nat) : Prop where
  handshake : 1 ≤ parts → c.HandshakeSettled deadline
  ack : 2 ≤ parts → c.AckSettled
  himark : 3 ≤ parts → c.HimarkSettled deadline
  interval : 3 ≤ parts → c.transmitter.state ≠ .connecting → c.receiver.state ≠ .connecting →
    c.receiver.state ≠ .idle → delay ≤ 100000
  data : 4 ≤ parts → c.DataSettled deadline

variable {parts : Nat} {deadline deadline' : Uptime} {delay delay' : Nat}

private theorem settled_handshake (h : c.HandshakeSettled deadline) : c.Settled 1 deadline delay :=
  ⟨fun _ ↦ h, fun hk ↦ absurd hk (by decide), fun hk ↦ absurd hk (by decide),
    fun hk ↦ absurd hk (by decide), fun hk ↦ absurd hk (by decide)⟩

private theorem settled_ack (h : c.HandshakeSettled deadline) (hack : c.AckSettled) :
    c.Settled 2 deadline delay :=
  ⟨fun _ ↦ h, fun _ ↦ hack, fun hk ↦ absurd hk (by decide), fun hk ↦ absurd hk (by decide),
    fun hk ↦ absurd hk (by decide)⟩

private theorem settled_himark (h : c.HandshakeSettled deadline) (hack : c.AckSettled)
    (hmark : c.HimarkSettled deadline)
    (hdelay : c.transmitter.state ≠ .connecting → c.receiver.state ≠ .connecting →
      c.receiver.state ≠ .idle → delay ≤ 100000) : c.Settled 3 deadline delay :=
  ⟨fun _ ↦ h, fun _ ↦ hack, fun _ ↦ hmark, fun _ ↦ hdelay, fun hk ↦ absurd hk (by decide)⟩

/-- With the data seen to as well, and a deadline that is not later. -/
theorem Settled.data_settled (h : c.Settled 3 deadline delay) (hle : deadline' ≤ deadline)
    (hdelay : delay' ≤ delay) (hdata : c.DataSettled deadline') : c.Settled 4 deadline' delay' where
  handshake _ hst := hle.trans (h.handshake (by decide) hst)
  ack _ := h.ack (by decide)
  himark _ hst hrx hrx' := hle.trans (h.himark le_rfl hst hrx hrx')
  interval _ hst hrx hrx' := hdelay.trans (h.interval le_rfl hst hrx hrx')
  data _ := hdata

private theorem Settled.hushed (h : c.Settled parts deadline delay) (hh : Hushed c c') :
    c'.Settled parts deadline delay where
  handshake hk := hh.handshakeSettled (h.handshake hk)
  ack hk := hh.ackSettled (h.ack hk)
  himark hk := hh.himarkSettled (h.himark hk)
  interval hk hst hrx hrx' := h.interval hk (fun hno ↦ hst (hh.connecting.mpr hno))
    (hh.receiving ▸ hrx) (hh.receiving ▸ hrx')
  data hk := hh.data _ (h.data hk)

end Channel

namespace SenderThread

variable {m n : LinkBufferSize} {s s' : SenderThread m n}

/-- What the sender has passed by in this pass is not due while it would sleep. -/
def Seen (s : SenderThread m n) : Prop :=
  0 < s.phase.next → s.channel.myStreamId ≠ 0 →
    s.channel.Settled s.phase.parts (s.began + s.phase.next) s.phase.next

/-- A pass that is to be followed by another at once has nothing to see to. -/
theorem seen_of_next_eq_zero (h : s.phase.next = 0) : s.Seen :=
  fun hnext ↦ absurd h hnext.ne'

/-- Unless some call is on its way to the sender, it has seen to everything. -/
structure Kept (s : SenderThread m n) : Prop where
  sound : s.channel.Sound
  sent : Reachable Transmitter.step Transmitter.AcksSentOnly (.new m) s.channel.transmitter
  began_le : s.began ≤ s.clock
  himark_le : s.channel.receiver.recvHimarkUpdateExpiration ≤ s.clock + 100000
  burst : ∀ left next, s.phase = .burst left next → left = 8 ∨ next = 0
  delayed : ∀ next, s.phase = .await next → 0 < next
  seen : s.bell.Pending ∨ 0 < s.withheld ∨ s.Seen

private theorem Kept.call {a : Channel.Act} {c' : Channel m n} {ann : Announcement} (h : s.Kept)
    (hg : s.Allowed (.call a)) (hc : s.channel.call a = .ok (c', ann)) :
    ({ s with channel := c' }.heed ann).Kept := by
  obtain ⟨ha, hchecks, hacks⟩ := hg
  have hcalled := Channel.call_spec h.sound ha hc
  have hsound : c'.Sound := by
    obtain ⟨c1, hc1, hs⟩ := h.sound.step hchecks
    rw [← Channel.map_call, hc] at hc1
    cases hc1
    exact hs
  have hsent : Reachable Transmitter.step Transmitter.AcksSentOnly (.new m) c'.transmitter := by
    rcases hcalled.transmitter_step hacks with heq | ⟨call, hg, hstep⟩
    · rw [heq]
      exact h.sent
    · exact h.sent.next hg hstep
  have hmark := hcalled.expiration_le.trans h.himark_le
  cases ann with
  | now =>
    exact { h with
      sound := hsound, sent := hsent, himark_le := hmark
      seen := .inl (Bell.pending_ring _) }
  | later =>
    exact { h with
      sound := hsound, sent := hsent, himark_le := hmark
      seen := .inr (.inl (Nat.succ_pos _)) }
  | none =>
    refine { h with sound := hsound, sent := hsent, himark_le := hmark, seen := ?_ }
    refine h.seen.imp id (Or.imp id fun hseen hnext hid ↦ ?_)
    have hhushed := hcalled.hushed h.sound hid
    exact (hseen hnext (hhushed.stream ▸ hid)).hushed hhushed

private theorem Kept.ringing {a : Bell.Act} (h : s.Kept) (ha : a ≠ .turn) :
    { s with bell := s.bell.step a }.Kept :=
  { h with seen := h.seen.imp_left fun hp : s.bell.Pending ↦ hp.step fun hturn ↦ absurd hturn ha }

-- Whoever begins to notify leaves the sender nothing to rely on, and need not.
private theorem Kept.rung (h : s.Kept) (active : Bool) (withheld : Nat) :
    { s with active, withheld, bell := s.bell.step .ring }.Kept :=
  { h with seen := .inl (Bell.pending_ring _) }

/-! ### The parts of a pass -/

-- The sender gets on with its pass, by a call of its own or without one.
private theorem Kept.advance (h : s.Kept) {a : Channel.Act} {c : Channel m n} {phase : SenderPhase}
    (ha : s.channel.ChecksHold a)
    (hstep : s.channel.step a = .ok c ∨ c = s.channel)
    (hsent : c.transmitter = s.channel.transmitter ∨ ∃ now draw next,
      c.transmitter = (s.channel.transmitter.getBufferToSend now draw next).1)
    (hmark : c.receiver.recvHimarkUpdateExpiration ≤ s.clock + 100000)
    (hburst : ∀ left next, phase = .burst left next → left = 8 ∨ next = 0)
    (hdelayed : ∀ next, phase = .await next → 0 < next)
    (hseen : s.Seen → { s with channel := c, phase }.Seen) :
    { s with channel := c, phase }.Kept where
  sound := by
    rcases hstep with hstep | rfl
    · obtain ⟨c1, hc1, hs⟩ := h.sound.step ha
      cases hc1.symm.trans hstep
      exact hs
    · exact h.sound
  sent := by
    rcases hsent with heq | ⟨now, draw, next, heq⟩
    · rw [heq]
      exact h.sent
    · rw [heq]
      exact h.sent.next (a := .getBufferToSend now draw next) trivial rfl
  began_le := h.began_le
  himark_le := hmark
  burst := hburst
  delayed := hdelayed
  seen := h.seen.imp_right (Or.imp_right hseen)

/-- The delay after a handshake does not pass the next one (`channel.cpp:312–320`). -/
theorem conn_settled (c : Channel m n) (now : Uptime) (draw next : Nat) {began : Uptime}
    (hle : began ≤ now) :
    (c.conn now draw next).1.HandshakeSettled (began + (c.conn now draw next).2.2) := by
  intro hst
  unfold Channel.conn at hst ⊢
  split at hst
  · next h0 => exact absurd (h0.symm.trans hst) (by decide)
  · next h0 => exact absurd (h0.symm.trans hst) (by decide)
  · next h0 =>
    split at hst
    · exact absurd (h0.symm.trans hst) (by decide)
    · exact absurd (h0.symm.trans hst) (by decide)
  dsimp only
  split
  · next hlater =>
    have hdelay := Nat.min_le_right next (c.nextScheduledHandshakeUpdate - now)
    calc began + min next (c.nextScheduledHandshakeUpdate - now)
        ≤ now + (c.nextScheduledHandshakeUpdate - now) := Nat.add_le_add hle hdelay
      _ = c.nextScheduledHandshakeUpdate := Nat.add_sub_of_le hlater.le
  · exact Nat.add_le_add hle (Nat.min_le_right _ _)

private theorem Kept.conn (h : s.Kept) (hphase : s.phase = .conn) (draw : Nat) :
    (s.turn draw).Kept := by
  rw [turn, hphase]
  have hsame : (s.channel.conn s.clock draw Channel.longMax).1.transmitter = s.channel.transmitter ∧
      (s.channel.conn s.clock draw Channel.longMax).1.receiver = s.channel.receiver := by
    unfold Channel.conn
    repeat' split
    all_goals exact ⟨rfl, rfl⟩
  refine h.advance (a := .conn s.clock draw Channel.longMax) trivial (.inl rfl)
    (.inl hsame.1) (hsame.2 ▸ h.himark_le) (by simp) (by simp)
    fun _ _ _ ↦ ?_
  exact Channel.settled_handshake (conn_settled _ _ _ _ h.began_le)

-- `channel.cpp:253–255`: while the stream is connecting there is nothing but the handshake.
private theorem Kept.gate {next : Nat} (h : s.Kept) (hphase : s.phase = .gate next) (draw : Nat) :
    (s.turn draw).Kept := by
  rw [turn, hphase]
  refine h.advance (a := .sendAck) (c := s.channel) trivial
    (.inr rfl) (.inl rfl) h.himark_le (fun left k hb ↦ ?_) (fun k hb ↦ ?_) fun hold ↦ ?_
  · split at hb <;> cases hb
  · split at hb <;> cases hb
  rw [Seen, hphase] at hold
  split
  · next hst =>
    intro hnext hid
    exact ⟨fun _ ↦ (hold hnext hid).handshake le_rfl, fun _ hno ↦ absurd hst hno,
      fun _ hno ↦ absurd hst hno, fun _ hno ↦ absurd hst hno,
      fun _ hconn ↦ absurd (hst.symm.trans hconn) (by decide)⟩
  · exact hold

private theorem Kept.ack {next : Nat} (h : s.Kept) (hphase : s.phase = .ack next) (draw : Nat) :
    (s.turn draw).Kept := by
  rw [turn, hphase]
  have hsame : s.channel.receiver.ack.1.state = s.channel.receiver.state ∧
      s.channel.receiver.ack.1.recvHimarkUpdateExpiration =
        s.channel.receiver.recvHimarkUpdateExpiration := by
    rcases s.channel.receiver.ack_fst with heq | ⟨-, heq⟩ <;> rw [heq] <;> exact ⟨rfl, rfl⟩
  refine h.advance (a := .sendAck) trivial (.inl rfl) (.inl rfl)
    (hsame.2 ▸ h.himark_le) (by simp) (by simp)
    fun hold hnext hid ↦ ?_
  rw [Seen, hphase] at hold
  refine Channel.settled_ack ((hold hnext hid).handshake le_rfl) fun _ hst ↦ ?_
  rw [hsame.1] at hst
  unfold Receiver.ack
  split
  · next hnone =>
    refine hnone.resolve_left fun hboth ↦ ?_
    rcases hst with hst | hst
    · exact hboth.1 hst
    · exact hboth.2 hst
  · rfl

/-- The delay after flow control does not pass the next flow-control packet, which comes within
a tenth of a second (`receiver.cpp:174–193`). -/
theorem updateRecvHimark_settled (r : Receiver n) (now : Uptime) (next : Nat)
    {began : Uptime} (hle : began ≤ now) (hmark : r.recvHimarkUpdateExpiration ≤ now + 100000)
    (hst : r.state ≠ .connecting) (hst' : r.state ≠ .idle) :
    began + (r.updateRecvHimark now next).2.2 ≤
        (r.updateRecvHimark now next).1.recvHimarkUpdateExpiration ∧
      (r.updateRecvHimark now next).2.2 ≤ 100000 := by
  rw [Receiver.updateRecvHimark, if_neg (not_or.mpr ⟨hst, hst'⟩)]
  split
  · next hlater =>
    have hdelay := Nat.min_le_right next (r.recvHimarkUpdateExpiration - now)
    constructor
    · calc began + min next (r.recvHimarkUpdateExpiration - now)
          ≤ now + (r.recvHimarkUpdateExpiration - now) := Nat.add_le_add hle hdelay
        _ = r.recvHimarkUpdateExpiration := Nat.add_sub_of_le hlater.le
    · exact hdelay.trans (Nat.sub_le_iff_le_add'.mpr hmark)
  · exact ⟨Nat.add_le_add hle (Nat.min_le_right _ _), Nat.min_le_right _ _⟩

private theorem updateRecvHimark_same (r : Receiver n) (now : Uptime) (next : Nat) :
    (r.updateRecvHimark now next).1.state = r.state ∧
      (r.updateRecvHimark now next).1.needsAck = r.needsAck ∧
      (r.updateRecvHimark now next).2.2 ≤ next := by
  unfold Receiver.updateRecvHimark
  split
  · exact ⟨rfl, rfl, le_rfl⟩
  split
  · exact ⟨rfl, rfl, Nat.min_le_left _ _⟩
  · exact ⟨rfl, rfl, Nat.min_le_left _ _⟩

private theorem Kept.himark {next : Nat} (h : s.Kept) (hphase : s.phase = .himark next)
    (draw : Nat) : (s.turn draw).Kept := by
  rw [turn, hphase]
  obtain ⟨hst, hack, hle⟩ := updateRecvHimark_same s.channel.receiver s.clock next
  refine h.advance (a := .sendHimark s.clock next) trivial (.inl rfl) (.inl rfl)
    ?_ (fun _ _ hb ↦ ?_) (by simp) fun hold hnext hid ↦ ?_
  · rcases s.channel.receiver.updateRecvHimark_cases s.clock next with ⟨heq, -⟩ | ⟨heq, -⟩
    · rw [heq]
      exact h.himark_le
    · rw [heq]
  · cases hb
    exact .inl rfl
  rw [Seen, hphase] at hold
  have hbefore : s.channel.Settled 2 (s.began + next) next := hold (hnext.trans_le hle) hid
  have hsettled := updateRecvHimark_settled s.channel.receiver s.clock next h.began_le h.himark_le
  refine Channel.settled_himark
    (fun htx ↦ (Nat.add_le_add_left hle _).trans (hbefore.handshake (by decide) htx))
    (fun htx hrx ↦ hack.trans (hbefore.ack le_rfl htx (hst ▸ hrx))) (fun _ hrx hrx' ↦ ?_)
    fun _ hrx hrx' ↦ ?_
  · exact (hsettled (hst ▸ hrx) (hst ▸ hrx')).1
  · exact (hsettled (hst ▸ hrx) (hst ▸ hrx')).2

private theorem Kept.burst_over {next : Nat} (h : s.Kept) (hphase : s.phase = .burst 0 next)
    (draw : Nat) : (s.turn draw).Kept := by
  rw [turn, hphase]
  -- eight packets were sent, so the next pass is due at once
  have hnow : next = 0 := (h.burst 0 next hphase).resolve_left (by decide)
  refine h.advance (a := .sendAck) (c := s.channel) trivial (.inr rfl) (.inl rfl)
    h.himark_le (by simp) (by simp) fun _ ↦ ?_
  exact seen_of_next_eq_zero hnow

-- A packet is sent, or none is due (`channel.cpp:267–272`).
private theorem Kept.burst_next {left next : Nat} (h : s.Kept)
    (hphase : s.phase = .burst (left + 1) next) (draw : Nat) : (s.turn draw).Kept := by
  have hstep : s.channel.step (.send s.clock draw next) = .ok
      { s.channel with transmitter := (s.channel.transmitter.send s.clock draw next).1 } := rfl
  rw [turn, hphase]
  dsimp only
  rw [Transmitter.send] at hstep ⊢
  rcases hsend : s.channel.transmitter.getBufferToSend s.clock draw next with ⟨t, out, next'⟩
  have hsent : t = (s.channel.transmitter.getBufferToSend s.clock draw next).1 := by rw [hsend]
  rw [hsend] at hstep
  cases out with
  | none =>
    obtain rfl := Transmitter.getBufferToSend_none h.sent hsend
    have hle := Transmitter.getBufferToSend_next_le hsend
    refine h.advance (a := .send s.clock draw next) trivial (.inl hstep)
      (.inl rfl) h.himark_le (by simp) (by simp)
      fun hold hnext hid ↦ ?_
    rw [Seen, hphase] at hold
    have hbefore : s.channel.Settled 3 (s.began + next) next := hold (hnext.trans_le hle) hid
    refine hbefore.data_settled (Nat.add_le_add_left hle _) hle fun hst hopen ↦ ?_
    exact (Transmitter.timely_of_none h.sent h.sound.transmitter hst hopen hsend).mono
      (Nat.add_le_add_right h.began_le _)
  | some pos =>
    obtain rfl := Transmitter.getBufferToSend_next_zero hsend
    have hdata : (t.getOutBuffer pos).data ≠ [] := by simp [OutBuffer.data, storeBeU16, beBytes]
    dsimp only
    split
    · next heq =>
      exact absurd (Prod.mk.inj (Prod.mk.inj heq).2).1 hdata
    · next heq =>
      obtain ⟨rfl, hrest⟩ := Prod.mk.inj heq
      obtain ⟨-, rfl⟩ := Prod.mk.inj hrest
      refine h.advance (a := .send s.clock draw next) trivial (.inl hstep)
        (.inr ⟨_, _, _, hsent⟩) h.himark_le (fun _ _ hb ↦ ?_) (by simp)
        fun _ ↦ seen_of_next_eq_zero rfl
      cases hb
      exact .inr rfl

private theorem Kept.pause {next : Nat} (h : s.Kept) (hphase : s.phase = .pause next) (draw : Nat) :
    (s.turn draw).Kept := by
  rw [turn, hphase]
  refine h.advance (a := .sendAck) (c := s.channel) trivial (.inr rfl) (.inl rfl)
    h.himark_le (fun _ _ hb ↦ ?_) (fun _ hb ↦ ?_) fun hold ↦ ?_
  · split at hb <;> cases hb
  · split at hb
    · next hpos =>
      cases hb
      exact hpos
    · cases hb
  · rw [Seen, hphase] at hold
    split
    · exact hold
    · exact seen_of_next_eq_zero rfl

private theorem Kept.top (h : s.Kept) (hphase : s.phase = .top) (draw : Nat) :
    (s.turn draw).Kept := by
  rw [turn, hphase]
  dsimp only
  split
  · exact { h with
      began_le := le_rfl
      burst := by simp
      delayed := by simp
      seen := .inr (.inr (seen_of_next_eq_zero rfl)) }
  · exact { h with
      burst := by simp
      delayed := by simp
      seen := .inr (.inr (seen_of_next_eq_zero rfl)) }

private theorem Kept.await {next : Nat} (h : s.Kept) (hphase : s.phase = .await next) (draw : Nat) :
    (s.turn draw).Kept := by
  have hbell (a : Bell.Act) (ha : a = .turn → s.bell.waiter ≠ .leaving) (deadline : Uptime) :
      { s with bell := s.bell.step a, phase := .await next, deadline }.Kept := by
    rw [← hphase]
    exact { h with seen := h.seen.imp_left fun hp : s.bell.Pending ↦ hp.step ha }
  rw [turn, hphase]
  dsimp only
  split
  · exact hbell .enter (by simp) _
  · -- the flag is forgotten, and with it all that was seen to
    exact { h with
      burst := by simp
      delayed := by simp
      seen := .inr (.inr (seen_of_next_eq_zero rfl)) }
  all_goals
    next hw => exact hbell .turn (by simp [hw]) s.deadline

private theorem Kept.turn (h : s.Kept) (draw : Nat) : (s.turn draw).Kept := by
  cases hphase : s.phase with
  | top => exact h.top hphase draw
  | conn => exact h.conn hphase draw
  | gate next => exact h.gate hphase draw
  | ack next => exact h.ack hphase draw
  | himark next => exact h.himark hphase draw
  | burst left next =>
    cases left with
    | zero => exact h.burst_over hphase draw
    | succ left => exact h.burst_next hphase draw
  | pause next => exact h.pause hphase draw
  | await next => exact h.await hphase draw
  | ended =>
    rw [SenderThread.turn, hphase]
    exact h

/-- Every step keeps what the sender relies on. -/
theorem Kept.step {a : Act} (h : s.Kept) (hg : s.Allowed a) (hs : s.step a = .ok s') : s'.Kept := by
  cases a with
  | tick micros =>
    cases hs
    exact { h with
      began_le := h.began_le.trans (Nat.le_add_right _ _)
      himark_le := h.himark_le.trans (Nat.add_le_add_right (Nat.le_add_right _ _) _) }
  | call a =>
    obtain ⟨⟨c', ann⟩, hc, rfl⟩ := map_eq_ok.mp hs
    exact h.call hg hc
  | announce =>
    cases hs
    split
    · exact h
    · exact h.rung s.active (s.withheld - 1)
  | notify =>
    cases hs
    exact h.ringing (by decide)
  | stop =>
    cases hs
    exact h.rung false s.withheld
  | exchange | signal | rouse =>
    cases hs
    exact h.ringing (by decide)
  | turn draw =>
    cases hs
    exact h.turn draw
  | expire =>
    cases hs
    split
    · exact h.ringing (by decide)
    · exact h

end SenderThread

end RooTransport.Link
