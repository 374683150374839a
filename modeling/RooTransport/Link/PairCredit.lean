import RooTransport.Link.Pair
import RooTransport.Link.TransmitterChecks

/-!
# Flow control

The receiver advertises how far it has room, and the transmitter keeps the furthest
position heard of in `recv_himark_` (`receiver.cpp:174–193`, `transmitter.cpp:297–316`).
Data packets are only queued below it. The final packet of a stream is not held back
(`transmitter.cpp:67–89`), and the next packet in sequence is sent without another look
at the credit (`transmitter.cpp:119–131`).
-/

namespace RooTransport.Link

open RooTransport.Base RingBuffer

namespace Transmitter

variable {n : LinkBufferSize}

/-- A packet handed out lies below `recv_himark_`. -/
def WithinCredit (t : Transmitter n) : Prop :=
  ∀ now draw nextSendMicros pos,
    (t.getBufferToSend now draw nextSendMicros).2.1 = some pos → pos < t.recvHimark

/-- The next packet in sequence is about to be sent past the credit: it is the final one, or
nothing is queued and a `next_to_send_` half the sequence range away counts as queued. -/
def Overdraws (t : Transmitter n) : Prop :=
  t.state = .connected ∧ t.SendsNext ∧ (t.outRing.empty = true ∨ t.IsEos t.nextToSend) ∧
    ¬ t.nextToSend < t.recvHimark

instance (t : Transmitter n) : Decidable t.Overdraws :=
  inferInstanceAs (Decidable (_ ∧ _ ∧ _ ∧ _))

private theorem getBufferToSend_sendsNext {t : Transmitter n} (hst : t.state = .connected)
    (hn : t.SendsNext) (now : Uptime) (draw next : Nat) :
    (t.getBufferToSend now draw next).2.1 = some t.nextToSend := by
  obtain ⟨hc, ha, hf, h0⟩ := hn
  have hsend : (t.sendNext now draw).2 = some t.nextToSend := by
    rw [sendNext, if_pos hc]
    dsimp only
    rw [if_pos ⟨ha, hf⟩, if_pos ((finishBuffer_sendCounter _).trans h0)]
  unfold getBufferToSend
  rw [if_neg (not_not.mpr hst)]
  revert hsend
  rcases t.sendNext now draw with ⟨t', out⟩
  rintro rfl
  rfl

/-- Sending the next packet in sequence is the only way past the credit. -/
theorem Credit.withinCredit_iff {t : Transmitter n} {b e h : Int} (hc : t.Credit e h)
    (hs : t.outRing.Spans b e) : t.WithinCredit ↔ ¬ t.Overdraws := by
  have hcap := capacity_le n
  have hus := hs.used
  have hend := hc.end_le
  have hfar := hc.le_end
  constructor
  · rintro hw ⟨hst, hn, -, hlt⟩
    exact hlt (hw 0 0 0 _ (getBufferToSend_sendsNext hst hn 0 0 0))
  intro hno now draw next pos hpos
  have hsend := getBufferToSend_path hs now draw next
  revert hsend hpos
  generalize (t.getBufferToSend now draw next).1 = t'
  generalize (t.getBufferToSend now draw next).2.1 = out
  intro hpos hsend
  have hsame := hsend.sameStream
  cases hsend with
  | idle => cases hpos
  | @sent t1 _ p effs fast hpath hk hm hl hu hfast =>
    obtain rfl := Option.some.inj hpos
    cases hm with
    | send _ _ _ hst _ _ hslow hnext =>
      cases fast with
      | false =>
        have hhi := hslow rfl
        rwa [← hsame.recvHimark]
      | true =>
        obtain rfl := hfast rfl
        obtain ⟨hn, hacked, hflushed, hfirst⟩ := hnext rfl
        by_contra hlt
        have hsends : t1.SendsNext := by
          rw [SendsNext, hn, getOutBuffer_ofPos]
          exact ⟨hs.contains_of_mem hl hu, hacked, hflushed, hfirst⟩
        refine hno ⟨hst, hsends, .inr ?_, by rwa [hn]⟩
        -- Past the credit there is room for the final packet only.
        rw [hc.himark_eq, SeqNum.ofPos_lt (by omega) (by omega)] at hlt
        have hclosed : ¬ (t1.Open ∨ t1.hasPendingEof = true) := fun ho ↦ by
          have := hc.open_le ho
          omega
        rw [not_or] at hclosed
        refine ⟨?_, by simpa using hclosed.2, ?_⟩
        · by_contra heos
          exact hclosed.1 ⟨by simpa using heos, by rw [hst]; decide, by rw [hst]; decide⟩
        · rw [hn, SeqNum.ofPos_next, hs.end_eq, SeqNum.ofPos_eq (by omega) (by omega)]
          omega
  | stray hbe hcont hm hout =>
    obtain ⟨rfl, hst, hn⟩ := hout pos hpos
    by_contra hlt
    exact hno ⟨hst, hn, .inl (hs.empty_iff.mpr hbe), hlt⟩

end Transmitter

/-- `receiver.cpp:253–261`: the packet is past the window and the free slots do not reach as
far as it. -/
def Receiver.LacksRoom {n : LinkBufferSize} (r : Receiver n) (seqId : BitVec 16) : Prop :=
  let seq := r.inRing.restorePosHighBits seqId 12
  r.inRing.contains seq = false ∧ ¬ seq < r.inRing.begin_ ∧
    r.inRing.slotsFree < ((seq.diff r.inRing.end_ + 1) % 2 ^ 32).toNat

instance {n : LinkBufferSize} (r : Receiver n) (seqId : BitVec 16) :
    Decidable (r.LacksRoom seqId) :=
  inferInstanceAs (Decidable (_ ∧ _ ∧ _))

/-- Up to a window's length past its start there is room. -/
theorem Receiver.not_lacksRoom {n : LinkBufferSize} {r : Receiver n} {b e q : Int}
    (hs : r.inRing.Spans b e) (hl : b - 2048 ≤ q) (hu : q < b + 2 ^ n.val) :
    ¬ r.LacksRoom ((SeqNum.ofPos q).raw &&& 0x0FFF#16) := by
  have hcap := capacity_le n
  have hus := hs.used
  have hle := hs.le
  have hfree := hs.slotsFree_eq
  rintro ⟨hc, hb, hlack⟩
  rw [hs.restore_exact hl (by omega)] at hc hb hlack
  rw [Bool.eq_false_iff, ne_eq, hs.contains_iff (by omega) (by omega)] at hc
  rw [hs.begin_eq, SeqNum.ofPos_lt (by omega) (by omega)] at hb
  rw [hs.end_eq, SeqNum.diff_ofPos (by omega) (by omega)] at hlack
  omega

namespace Pair

variable {m n : LinkBufferSize}

/-- The receiver has told the transmitter that it has room before `h`: by connecting, or by a
flow-control packet. -/
def Advertised (p : Pair m n) (s h : Int) : Prop :=
  h = s + 2 ^ n.val ∨ ∃ x ∈ p.himarks, x.pos = h

/-- The receiver's window starts late enough for everything it has advertised. -/
structure Roomy (p : Pair m n) (s : Int) : Prop where
  front : ∃ w, p.rx.inRing.Spans p.rxBegin w ∧ p.rx.FrontOk p.rxBegin w
  connected : p.rx.state = .connected
  inputOpen : p.rx.selfClosed = false
  start_le : s ≤ p.rxBegin
  himarks : ∀ x ∈ p.himarks, x.pos ≤ p.rxBegin + 2 ^ n.val

section

variable {p p' : Pair m n} {s : Int}

private theorem Roomy.of_rx (h : p.Roomy s) {rx : Receiver n} {b' w' : Int}
    (hs : rx.inRing.Spans b' w') (hf : rx.FrontOk b' w') (hb : p.rxBegin ≤ b')
    (hu : b' < p.rxBegin + 65536) (hst : rx.state = p.rx.state)
    (hopen : rx.selfClosed = p.rx.selfClosed) : (p.withRx rx).Roomy s := by
  obtain ⟨w, hs0, -⟩ := h.front
  have hpos : p.rxPos rx.inRing.begin_ = b' := by
    rw [hs.begin_eq]
    exact rxPos_eq hs0 hb hu
  have hstart := h.start_le
  refine ⟨⟨w', ?_⟩, hst.trans h.connected, hopen.trans h.inputOpen, ?_, fun x hx ↦ ?_⟩
  · dsimp only [withRx]
    rw [hpos]
    exact ⟨hs, hf⟩
  · dsimp only [withRx]
    omega
  · have := h.himarks x hx
    dsimp only [withRx]
    omega

private theorem Roomy.sent (h : p.Roomy s) (rx : Receiver n) (hring : rx.inRing = p.rx.inRing)
    (hbufs : rx.inBuffers = p.rx.inBuffers) (hcur : rx.CursorAtFront)
    (hoff : rx.offset = p.rx.offset) (hst : rx.state = p.rx.state)
    (hopen : rx.selfClosed = p.rx.selfClosed) :
    (p.withRx rx).Roomy s ∧ (p.withRx rx).rxBegin = p.rxBegin := by
  obtain ⟨w, hs, hf⟩ := h.front
  refine ⟨h.of_rx (hring ▸ hs) ⟨hcur, fun hlt ↦ ?_⟩ (le_refl _) (by omega) hst hopen, ?_⟩
  · rw [hoff, Receiver.Received, Receiver.bufferAt, hbufs]
    exact hf.pos hlt
  · dsimp only [withRx]
    rw [hring, hs.begin_eq]
    exact rxPos_eq hs (le_refl _) (by omega)

private theorem Roomy.look (h : p.Roomy s) : (p.withRx p.rx.look).Roomy s := by
  obtain ⟨w, -, hf⟩ := h.front
  have hlink := p.rx.look_sameLink.state (by rw [h.connected]; decide)
  exact (h.sent _ p.rx.look_inRing p.rx.look_inBuffers hf.cursor.look p.rx.look_offset hlink.1
    hlink.2.1).1

private theorem Roomy.same (h : p.Roomy s) (hrx : p'.rx = p.rx) (hb : p'.rxBegin = p.rxBegin)
    (hh : p'.himarks = p.himarks) : p'.Roomy s := by
  refine ⟨?_, ?_, ?_, ?_, ?_⟩
  · rw [hrx, hb]
    exact h.front
  · rw [hrx]
    exact h.connected
  · rw [hrx]
    exact h.inputOpen
  · rw [hb]
    exact h.start_le
  · rw [hh, hb]
    exact h.himarks

private theorem Roomy.updateRecvHimark (h : p.Roomy s) {now : Uptime} {next : Nat}
    (hstep : p.step (.updateRecvHimark now next) = .ok p') : p'.Roomy s := by
  obtain ⟨w, hs, hf⟩ := h.front
  have hcases := p.rx.updateRecvHimark_cases now next
  rw [Pair.step] at hstep
  revert hstep hcases
  rcases p.rx.updateRecvHimark now next with ⟨rx, bytes, next'⟩
  intro hstep hcases
  dsimp only at hstep hcases
  cases hstep
  rcases hcases with ⟨rfl, rfl⟩ | ⟨rfl, rfl⟩
  · exact (h.sent _ rfl rfl hf.cursor rfl rfl rfl).1
  · have hcap := capacity_le n
    have hone := one_le_capacity n
    have hpos : p.rxPos (p.rx.inRing.begin_.add p.rx.inRing.capacity) = p.rxBegin + 2 ^ n.val := by
      rw [hs.begin_add_capacity]
      exact rxPos_eq hs (by omega) (by omega)
    obtain ⟨hr, hb⟩ := h.sent { p.rx with
      recvHimark := p.rx.inRing.begin_.add p.rx.inRing.capacity
      recvHimarkUpdateExpiration := now + 100000 } rfl rfl hf.cursor rfl rfl rfl
    refine { hr with himarks := fun x hx ↦ ?_ }
    dsimp only at hx
    rcases mem_emit hx with hx | ⟨-, rfl⟩
    · exact hr.himarks x hx
    · exact le_of_eq (hpos.trans (congrArg (· + (2 : Int) ^ n.val) hb.symm))

/-- A stream just connected has credit for one window of its peer. -/
theorem credit_start {t : Transmitter m} {txStreamId rxStreamId : UInt32} {seq : SeqNum}
    {peerReceiveBufferSize : Nat} {controlBit : Bool} (hsize : peerReceiveBufferSize ≤ 1024)
    (h : start t n txStreamId rxStreamId seq peerReceiveBufferSize controlBit = .ok p) :
    p.tx.Credit seq.raw.toNat (seq.raw.toNat + peerReceiveBufferSize) := by
  obtain ⟨tx, htx, hrest⟩ := bind_eq_ok.mp h
  obtain ⟨rx, -, rfl⟩ := map_eq_ok.mp hrest
  rw [Transmitter.init_ok, ← SeqNum.ofPos_raw seq] at htx
  cases htx
  refine ⟨?_, hsize, (fun hp ↦ nomatch hp), by omega, fun _ ↦ by omega, by omega⟩
  exact SeqNum.ofPos_add _ _

/-- Every step keeps the room advertised, whatever is delivered and when. -/
theorem Roomy.step {a : Act} (h : p.Roomy s) (hstep : p.step a = .ok p') : p'.Roomy s := by
  obtain ⟨w, hs, hf⟩ := h.front
  have hcap := capacity_le n
  have hus := hs.used
  cases a with
  | tryWrite buf =>
    obtain ⟨⟨tx, written, ready⟩, -, rfl⟩ := map_eq_ok.mp hstep
    exact h.same rfl rfl rfl
  | flush => cases hstep; exact h.same rfl rfl rfl
  | close =>
    obtain ⟨tx, -, rfl⟩ := map_eq_ok.mp hstep
    exact h.same rfl rfl rfl
  | getBufferToSend now draw next =>
    rw [Pair.step] at hstep
    revert hstep
    rcases p.tx.getBufferToSend now draw next with ⟨tx, out, next'⟩
    intro hstep
    cases out <;> (cases hstep; exact h.same rfl rfl rfl)
  | tryRead count =>
    obtain ⟨⟨rx, bytes, ready⟩, hok, rfl⟩ := map_eq_ok.mp hstep
    obtain ⟨b', hs', hf', hb⟩ := hf.tryRead hs hok
    have hle := hs'.le
    have hlink := (Receiver.tryRead_sameLink hok).state (by rw [h.connected]; decide)
    exact (h.of_rx hs' hf' hb (by omega) hlink.1 hlink.2.1).same rfl rfl rfl
  | peek =>
    rw [Pair.step, Receiver.peek_fst] at hstep
    cases hstep
    exact h.look
  | availableForRead =>
    rw [Pair.step, Receiver.availableForRead_fst] at hstep
    cases hstep
    exact h.look
  | ack =>
    cases hstep
    rcases p.rx.ack_fst with he | ⟨-, he⟩
    · rw [he]
      exact (h.sent _ rfl rfl hf.cursor rfl rfl rfl).1.same rfl rfl rfl
    · rw [he]
      exact (h.sent { p.rx with needsAck := false } rfl rfl hf.cursor rfl rfl rfl).1.same
        rfl rfl rfl
  | updateRecvHimark => exact h.updateRecvHimark hstep
  | deliverData i =>
    rcases deliver_cases hstep with rfl | ⟨x, -, hx⟩
    · exact h
    obtain ⟨⟨rx, ack, new⟩, hok, rfl⟩ := map_eq_ok.mp hx
    obtain ⟨w', hs', hf', -⟩ := hf.handleDataPacket hs h.inputOpen hok
    exact h.of_rx hs' hf' (le_refl _) (by omega) (Receiver.handleDataPacket_same hok).1
      (Receiver.handleDataPacket_same hok).2.1
  | deliverAck i =>
    rcases deliver_cases hstep with rfl | ⟨x, -, hx⟩
    · exact h
    obtain ⟨⟨tx, rushed⟩, -, rfl⟩ := map_eq_ok.mp hx
    exact h.same rfl rfl rfl
  | deliverHimark i =>
    rcases deliver_cases hstep with rfl | ⟨x, -, hx⟩
    · exact h
    cases hx
    exact h.same rfl rfl rfl

end

/-! ### Every run -/

/-- In every state reached, whatever is delivered and when, a packet handed out lies below
`recv_himark_` unless `next_to_send_` overdraws it, and the receiver has room for every
position before one it has advertised. -/
theorem credit_of_reachable {t : Transmitter m} {txStreamId rxStreamId : UInt32} {s : SeqNum}
    {peerReceiveBufferSize : Nat} {controlBit : Bool} {p0 p : Pair m n}
    (hsize : peerReceiveBufferSize ≤ 1024)
    (h0 : start t n txStreamId rxStreamId s peerReceiveBufferSize controlBit = .ok p0)
    (hr : Reachable step anyStep p0 p) :
    (p.tx.WithinCredit ↔ ¬ p.tx.Overdraws) ∧
      ∀ h, p.Advertised s.raw.toNat h → ∀ q, p.rxBegin - 2048 ≤ q → q < h →
        ¬ p.rx.LacksRoom ((SeqNum.ofPos q).raw &&& 0x0FFF#16) := by
  have hstart := linked_start h0
  obtain ⟨⟨e, h, hs, hc⟩, hroom⟩ := hr.invariant
    (fun p ↦ (∃ e h, p.tx.outRing.Spans p.txBegin e ∧ p.tx.Credit e h) ∧ p.Roomy s.raw.toNat)
    ⟨⟨_, _, hstart.tx.source.queue.spans, credit_start hsize h0⟩, ⟨_, hstart.rx.window.spans,
      hstart.rx.front⟩, hstart.rx.connected, hstart.rx.inputOpen, hstart.rx.start_le,
      fun x hx ↦ (hstart.himarks x hx).1⟩
    fun p a p' ⟨⟨e, h, hs, hc⟩, hroom⟩ _ hstep ↦ by
      obtain ⟨-, effs, e', hpath, -⟩ := step_tx hs hstep
      exact ⟨⟨e', _, Transmitter.path_spans hpath hs, hc.path hs hpath⟩, hroom.step hstep⟩
  refine ⟨hc.withinCredit_iff hs, fun k hk q hl hu ↦ ?_⟩
  obtain ⟨w, hw, -⟩ := hroom.front
  have hbegin := hroom.start_le
  rcases hk with rfl | ⟨x, hx, rfl⟩
  · exact Receiver.not_lacksRoom hw hl (by omega)
  · have := hroom.himarks x hx
    exact Receiver.not_lacksRoom hw hl (by omega)

/-- The first packet of a stream lies within the credit, and there is room for the second. -/
theorem credit_after_first_packet : ∃ p : Pair 1 1,
    start (Transmitter.new 1) 1 1 2 ⟨0⟩ 2 false = .ok (connectedAtZero 1 1 2) ∧
      Reachable step anyStep (connectedAtZero 1 1 2) p ∧ ¬ p.tx.Overdraws ∧
      (p.tx.getBufferToSend 0 0 0).2.1 = some ⟨0⟩ ∧ (SeqNum.mk 0) < p.tx.recvHimark ∧
      ¬ p.rx.LacksRoom 1 := by
  obtain ⟨p, hp, ht⟩ :=
    Reachable.of_test step anyStep (connectedAtZero 1 1 2) [.tryWrite [7], .flush]
    (fun p ↦ ¬ p.tx.Overdraws ∧ (p.tx.getBufferToSend 0 0 0).2.1 = some ⟨0⟩ ∧ p.rxBegin = 0)
    (meets_anyStep _ _ _) (by decide)
  obtain ⟨hno, hpos, hb⟩ := of_decide_eq_true ht
  have hstart : start (Transmitter.new 1) 1 1 2 ⟨0⟩ 2 false = .ok (connectedAtZero 1 1 2) := rfl
  obtain ⟨hiff, hroom⟩ := credit_of_reachable (by decide) hstart hp
  exact ⟨p, hstart, hp, hno, hpos, hiff.mpr hno 0 0 0 _ hpos,
    hroom 2 (.inl rfl) 1 (by omega) (by decide)⟩

/-- After two data packets have used the credit up, the final packet is sent all the same, and
the receiver has no room for it. -/
theorem final_packet_overdraws : ∃ p : Pair 2 1,
    start (Transmitter.new 2) 1 1 2 ⟨0⟩ 2 false = .ok (connectedAtZero 2 1 2) ∧
      Reachable step anyStep (connectedAtZero 2 1 2) p ∧ p.tx.recvHimark = ⟨2⟩ ∧
      (p.tx.getBufferToSend 0 0 0).2.1 = some ⟨2⟩ ∧ p.rx.LacksRoom 2 ∧ ¬ p.tx.WithinCredit := by
  obtain ⟨p, hp, ht⟩ := Reachable.of_test step anyStep (connectedAtZero 2 1 2)
    [.tryWrite [7], .flush, .getBufferToSend 0 0 0, .tryWrite [8], .flush, .getBufferToSend 0 0 0,
      .deliverData 0, .deliverData 1, .close]
    (fun p ↦ p.tx.recvHimark = ⟨2⟩ ∧ (p.tx.getBufferToSend 0 0 0).2.1 = some ⟨2⟩ ∧
      p.rx.LacksRoom 2)
    (meets_anyStep _ _ _) (by decide)
  obtain ⟨hhi, hpos, hroom⟩ := of_decide_eq_true ht
  refine ⟨p, rfl, hp, hhi, hpos, hroom, fun h ↦ ?_⟩
  have hlt := h 0 0 0 _ hpos
  rw [hhi] at hlt
  revert hlt
  decide

end Pair

end RooTransport.Link
