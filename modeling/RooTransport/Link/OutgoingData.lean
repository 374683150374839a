import RooTransport.Link.ChannelChecks
import RooTransport.Link.SendSchedule

/-!
# What there is to send, and who says so

The sender thread sleeps until a packet is due or until it is notified. Every call of the
application and every packet from the peer may leave something to send, and then notifies
the sender once it is done (`channel.cpp:71–147`, `158–208` and `487–538`). A `read` or
`write` that waits does so only when it returns. Here is what a call announces, when each
kind of packet is due, and that a call which announces nothing makes none of them due.
-/

namespace RooTransport.Link

open RooTransport.Base RingBuffer

/-- What a call does about the sender as it lets go of its lock. -/
inductive Announcement where
  | none
  /-- `outgoing_data_ready_.notify()` is next. -/
  | now
  /-- The call waits with its flag set, and notifies when it returns. -/
  | later
  deriving DecidableEq, Repr

/-- The announcement of a call that returns. -/
def Announcement.ofReady (outgoingDataReady : Bool) : Announcement :=
  if outgoingDataReady then .now else .none

private theorem Announcement.ofReady_eq_none {ready : Bool} :
    ofReady ready = .none ↔ ready = false := by
  cases ready <;> simp [ofReady]

/-- What a `read` says to the sender thread. -/
def ThreadSafeReceiver.ReadResult.announcement : ReadResult → Announcement
  | .returned _ _ ready => .ofReady ready
  | .waits ready => if ready then .later else .none

/-- What a `write` says to the sender thread. -/
def ThreadSafeTransmitter.WriteResult.announcement : WriteResult → Announcement
  | .returned _ _ ready => .ofReady ready
  | .waits ready => if ready then .later else .none

/-- A `close` that waits has said nothing yet, though its flag is set. -/
def ThreadSafeTransmitter.CloseResult.announcement (ready : Bool) : CloseResult → Announcement
  | .returned _ => .ofReady ready
  | .waits => .none

namespace Channel

variable {m n : LinkBufferSize}

/-- One call with its announcement. The last four are the sender's own. -/
def call (c : Channel m n) : Act → Except Check (Channel m n × Announcement)
  | .connect id draw fn => (c.connect id draw fn).map fun out ↦ (out.1, .now)
  | .disconnect id =>
    (c.disconnect id).map fun out ↦ (out.1, .ofReady (decide (c.myStreamId = id)))
  | .read count id => (ThreadSafeReceiver.read c.receiver count id .ok false).map fun out ↦
      ({ c with receiver := out.1 }, out.2.announcement)
  | .readTurn count id => (ThreadSafeReceiver.readTurn c.receiver count id).map fun out ↦
      ({ c with receiver := out.1 }, out.2.announcement)
  | .tryRead count id => (ThreadSafeReceiver.tryRead c.receiver count id .ok false).map fun out ↦
      ({ c with receiver := out.1 }, .ofReady out.2.2.2)
  | .peek id => .ok ({ c with receiver := (ThreadSafeReceiver.peek c.receiver id).1 }, .none)
  | .availableForRead id =>
    .ok ({ c with receiver := (ThreadSafeReceiver.availableForRead c.receiver id).1 }, .none)
  | .closeInput id => (ThreadSafeReceiver.markInputClosed c.receiver id false).map fun out ↦
      ({ c with receiver := out.1 }, .ofReady out.2.2)
  | .write buf id => (ThreadSafeTransmitter.write c.transmitter buf id false).map fun out ↦
      ({ c with transmitter := out.1 }, out.2.announcement)
  | .writeTurn buf id => (ThreadSafeTransmitter.writeTurn c.transmitter buf id).map fun out ↦
      ({ c with transmitter := out.1 }, out.2.announcement)
  | .tryWrite buf id => (ThreadSafeTransmitter.tryWrite c.transmitter buf id false).map fun out ↦
      ({ c with transmitter := out.1 }, .ofReady out.2.2.2)
  | .flush id =>
    .ok ({ c with transmitter := (ThreadSafeTransmitter.flush c.transmitter id false).1 },
      .ofReady (ThreadSafeTransmitter.flush c.transmitter id false).2.2)
  | .close id => (ThreadSafeTransmitter.close c.transmitter id false).map fun out ↦
      ({ c with transmitter := out.1 }, out.2.1.announcement out.2.2)
  | .packetReceived buf => (c.packetReceived buf).map fun out ↦ (out.1, .ofReady out.2.1)
  | .conn now draw next => .ok ((c.conn now draw next).1, .none)
  | .sendAck => .ok ({ c with receiver := c.receiver.ack.1 }, .none)
  | .sendHimark now next =>
    .ok ({ c with receiver := (c.receiver.updateRecvHimark now next).1 }, .none)
  | .send now draw next =>
    .ok ({ c with transmitter := (c.transmitter.send now draw next).1 }, .none)

/-- The calls of all threads but the sender. -/
def Act.ByOthers : Act → Prop
  | .conn _ _ _ | .sendAck | .sendHimark _ _ | .send _ _ _ => False
  | _ => True

instance : (a : Act) → Decidable a.ByOthers
  | .conn _ _ _ | .sendAck | .sendHimark _ _ | .send _ _ _ => .isFalse not_false
  | .connect _ _ _ | .disconnect _ | .read _ _ | .readTurn _ _ | .tryRead _ _ | .peek _
  | .availableForRead _ | .closeInput _ | .write _ _ | .writeTurn _ _ | .tryWrite _ _ | .flush _
  | .close _ | .packetReceived _ => .isTrue trivial

/-- A call changes the channel as the step does. -/
theorem map_call (c : Channel m n) (a : Act) : (c.call a).map Prod.fst = c.step a := by
  have hmap {β : Type} (x : Except Check β) (f : β → Channel m n × Announcement) :
      (x.map f).map Prod.fst = x.map fun out ↦ (f out).1 := by
    cases x with
    | error => rfl
    | ok => rfl
  cases a with
  | peek | availableForRead | flush | conn | sendAck | sendHimark | send => rfl
  | _ => exact hmap _ _

/-- What an acknowledgement drops and marks was sent, at the positions where `ack` applies it. -/
def AcksSent (c : Channel m n) : Act → Prop
  | .packetReceived buf => getPacketType (loadBeU16 buf) = some .dataAck →
    c.transmitter.AcksSent (.ack (getPacketControlBit (loadBeU16 buf))
      (getPacketSeq (loadBeU16 buf)) (buf.drop 2))
  | _ => True

instance (c : Channel m n) : (a : Act) → Decidable (c.AcksSent a)
  | .packetReceived _ => inferInstanceAs (Decidable (_ → _))
  | .connect _ _ _ | .disconnect _ | .read _ _ | .readTurn _ _ | .tryRead _ _ | .peek _
  | .availableForRead _ | .closeInput _ | .write _ _ | .writeTurn _ _ | .tryWrite _ _ | .flush _
  | .close _ | .conn _ _ _ | .sendAck | .sendHimark _ _ | .send _ _ _ => .isTrue trivial

/-! ### What a call comes down to -/

/-- Everything a call of another thread than the sender can do. -/
inductive Called (c : Channel m n) (a : Act) : Channel m n → Announcement → Prop
  | noted (needsAck : Bool) : Called c a { c with needsHandshakeAck := needsAck } .none
  | looked : Called c a { c with receiver := c.receiver.look } .none
  | read {count : Nat} {r : Receiver n} {bytes : List UInt8} {ready : Bool} {ann : Announcement} :
      c.receiver.tryRead count = .ok (r, bytes, ready) → (ann = .none → ready = false) →
      Called c a { c with receiver := r } ann
  | inputClosed {r : Receiver n} {ready : Bool} : c.receiver.markInputClosed = .ok (r, ready) →
      Called c a { c with receiver := r } (.ofReady ready)
  | arrived {controlBit : Bool} {seqId : BitVec 16} {payload : List UInt8} {isFinal : Bool}
      {r : Receiver n} {ready new : Bool} :
      c.receiver.handleDataPacket controlBit seqId payload isFinal = .ok (r, ready, new) →
      Called c a { c with receiver := r } (.ofReady ready)
  | wrote {buf : List UInt8} {t : Transmitter m} {written : Nat} {ready : Bool}
      {ann : Announcement} :
      c.transmitter.tryWrite buf = .ok (t, written, ready) → (ann = .none → ready = false) →
      Called c a { c with transmitter := t } ann
  | flushed : Called c a { c with transmitter := c.transmitter.flush.1 }
      (.ofReady c.transmitter.flush.2)
  | closed {t : Transmitter m} {ann : Announcement} : c.transmitter.close = .ok t →
      (c.transmitter.state = .connected ∨ c.transmitter.state = .connecting) →
      Called c a { c with transmitter := t } ann
  | acked {controlBit : Bool} {seqId : BitVec 16} {bitmap : List UInt8} {t : Transmitter m}
      {ready : Bool} : (c.AcksSent a → c.transmitter.AcksSent (.ack controlBit seqId bitmap)) →
      c.transmitter.ack controlBit seqId bitmap = .ok (t, ready) →
      Called c a { c with transmitter := t } (.ofReady ready)
  | credited (controlBit : Bool) (himark : BitVec 16) :
      Called c a
        { c with transmitter := (c.transmitter.updateRecvHimark controlBit himark).1 } .none
  | connected {id : { id : UInt32 // id ≠ 0 }} {draw : UInt32} {fn : Option Callback}
      {c' : Channel m n} {old : Option Callback} : c.connect id draw fn = .ok (c', old) →
      Called c a c' .now
  /-- The stream is given up. -/
  | ended {c' : Channel m n} {ann : Announcement} (call : Transmitter.Act) :
      (call = .reset ∨ call = .setBroken) → c.transmitter.step call = .ok c'.transmitter →
      (c'.receiver = c.receiver.setBroken ∨ c.receiver.reset = .ok c'.receiver) →
      c'.myStreamId = 0 → Called c a c' ann
  /-- A handshake connects the receiver, the transmitter or both. -/
  | greeted {c' : Channel m n} :
      (c'.transmitter = c.transmitter ∨ c.transmitter.state = .connecting ∧
        ∃ size controlBit, c'.transmitter = c.transmitter.setConnected size controlBit) →
      (c'.receiver = c.receiver ∨
        ∃ seq controlBit, c.receiver.setConnected seq controlBit = .ok c'.receiver) →
      Called c a c' .now

section

variable {c c' : Channel m n} {a : Act} {ann : Announcement}

private theorem Called.same (c : Channel m n) (a : Act) : Called c a c .none :=
  .noted c.needsHandshakeAck

private theorem called_readTurn {count : Nat} {id : UInt32} {r : Receiver n}
    {result : ThreadSafeReceiver.ReadResult}
    (h : ThreadSafeReceiver.readTurn c.receiver count id = .ok (r, result)) :
    Called c a { c with receiver := r } result.announcement := by
  unfold ThreadSafeReceiver.readTurn at h
  split at h
  · cases h
  next r' bytes ready hread =>
  split at h
  · cases h
    exact .read hread Announcement.ofReady_eq_none.mp
  split at h
  · cases h
    exact .read hread Announcement.ofReady_eq_none.mp
  · cases h
    exact .read hread (by cases ready <;> simp [ThreadSafeReceiver.ReadResult.announcement])

private theorem called_read {count : Nat} {id : UInt32} {r : Receiver n}
    {result : ThreadSafeReceiver.ReadResult}
    (h : ThreadSafeReceiver.read c.receiver count id .ok false = .ok (r, result)) :
    Called c a { c with receiver := r } result.announcement := by
  unfold ThreadSafeReceiver.read at h
  split at h
  · cases h
    exact .same c a
  split at h
  · cases h
    exact .same c a
  · exact called_readTurn h

private theorem called_tryRead {count : Nat} {id : UInt32}
    {out : Receiver n × List UInt8 × Status × Bool}
    (h : ThreadSafeReceiver.tryRead c.receiver count id .ok false = .ok out) :
    Called c a { c with receiver := out.1 } (.ofReady out.2.2.2) := by
  unfold ThreadSafeReceiver.tryRead at h
  split at h
  · cases h
    exact .same c a
  split at h
  · cases h
    exact .same c a
  split at h
  · cases h
  · next r bytes ready hread =>
    cases h
    exact .read hread Announcement.ofReady_eq_none.mp

private theorem called_markInputClosed {id : UInt32} {out : Receiver n × Status × Bool}
    (h : ThreadSafeReceiver.markInputClosed c.receiver id false = .ok out) :
    Called c a { c with receiver := out.1 } (.ofReady out.2.2) := by
  unfold ThreadSafeReceiver.markInputClosed at h
  split at h
  · cases h
    exact .same c a
  split at h
  · cases h
  · next r ready hclosed =>
    cases h
    exact .inputClosed hclosed

private theorem called_writeTurn {buf : List UInt8} {id : UInt32} {t : Transmitter m}
    {result : ThreadSafeTransmitter.WriteResult}
    (h : ThreadSafeTransmitter.writeTurn c.transmitter buf id = .ok (t, result)) :
    Called c a { c with transmitter := t } result.announcement := by
  unfold ThreadSafeTransmitter.writeTurn at h
  split at h
  · cases h
  next t' written ready hwrite =>
  split at h
  · cases h
    exact .wrote hwrite Announcement.ofReady_eq_none.mp
  split at h
  · cases h
    exact .wrote hwrite Announcement.ofReady_eq_none.mp
  · cases h
    exact .wrote hwrite (by cases ready <;> simp [ThreadSafeTransmitter.WriteResult.announcement])

private theorem called_write {buf : List UInt8} {id : UInt32} {t : Transmitter m}
    {result : ThreadSafeTransmitter.WriteResult}
    (h : ThreadSafeTransmitter.write c.transmitter buf id false = .ok (t, result)) :
    Called c a { c with transmitter := t } result.announcement := by
  unfold ThreadSafeTransmitter.write at h
  split at h
  · cases h
    exact .same c a
  · exact called_writeTurn h

private theorem called_tryWrite {buf : List UInt8} {id : UInt32}
    {out : Transmitter m × Nat × Status × Bool}
    (h : ThreadSafeTransmitter.tryWrite c.transmitter buf id false = .ok out) :
    Called c a { c with transmitter := out.1 } (.ofReady out.2.2.2) := by
  unfold ThreadSafeTransmitter.tryWrite at h
  split at h
  · cases h
    exact .same c a
  split at h
  · cases h
  · next t written ready hwrite =>
    cases h
    exact .wrote hwrite Announcement.ofReady_eq_none.mp

private theorem called_flush (c : Channel m n) (a : Act) (id : UInt32) :
    Called c a { c with transmitter := (ThreadSafeTransmitter.flush c.transmitter id false).1 }
      (.ofReady (ThreadSafeTransmitter.flush c.transmitter id false).2.2) := by
  unfold ThreadSafeTransmitter.flush
  split
  · exact .same c a
  · exact .flushed

private theorem called_close {id : UInt32}
    {out : Transmitter m × ThreadSafeTransmitter.CloseResult × Bool}
    (h : ThreadSafeTransmitter.close c.transmitter id false = .ok out) :
    Called c a { c with transmitter := out.1 } (out.2.1.announcement out.2.2) := by
  unfold ThreadSafeTransmitter.close at h
  split at h
  · cases h
    exact .same c a
  next hok =>
  have hst : c.transmitter.state = .connected ∨ c.transmitter.state = .connecting := by
    by_contra hno
    exact hok (by rw [ThreadSafeTransmitter.checkConnectionStatus, if_neg fun h ↦ hno h.1]; decide)
  split at h
  · cases h
  next t hclose =>
  split at h
  · cases h
    exact .closed hclose hst
  · cases h
    exact .closed hclose hst

private theorem called_disconnect {id : UInt32} {fn : Option Callback}
    (h : c.disconnect id = .ok (c', fn)) :
    Called c a c' (.ofReady (decide (c.myStreamId = id))) := by
  unfold disconnect at h
  split at h
  · next hne =>
    cases h
    rw [decide_eq_false hne]
    exact .same c a
  · obtain ⟨t, ht, h⟩ := bind_eq_ok.mp h
    obtain ⟨r, hr, h⟩ := bind_eq_ok.mp h
    cases h
    exact .ended .reset (.inl rfl) ht (.inr hr) rfl

private theorem called_handshakeConnecting {h : Handshake} {ready : Bool} {fn : Option Callback}
    (hst : c.transmitter.state = .connecting)
    (hok : c.handshakeConnecting h = .ok (c', ready, fn)) : Called c a c' (.ofReady ready) := by
  unfold handshakeConnecting at hok
  split at hok
  · cases hok
    exact .same c a
  split at hok
  · obtain ⟨t, ht, hok⟩ := bind_eq_ok.mp hok
    cases hok
    exact .ended .setBroken (.inr rfl) ht (.inl rfl) rfl
  dsimp only at hok
  split at hok
  · cases hok
  obtain ⟨r, hr, hok⟩ := bind_eq_ok.mp hok
  split at hok
  · cases hok
    exact .greeted (.inr ⟨hst, _, _, rfl⟩) (.inr ⟨_, _, hr⟩)
  · cases hok
    exact .greeted (.inl rfl) (.inr ⟨_, _, hr⟩)

private theorem called_peerReconnected {ready : Bool} {fn : Option Callback}
    (hok : c.peerReconnected = .ok (c', ready, fn)) : Called c a c' (.ofReady ready) := by
  unfold peerReconnected at hok
  split at hok
  · obtain ⟨t, ht, hok⟩ := bind_eq_ok.mp hok
    cases hok
    unfold breakTransmitter at ht
    split at ht
    · exact .ended .setBroken (.inr rfl) ht (.inl rfl) rfl
    · exact .ended .reset (.inl rfl) ht (.inl rfl) rfl
  · obtain ⟨t, ht, hok⟩ := bind_eq_ok.mp hok
    obtain ⟨r, hr, hok⟩ := bind_eq_ok.mp hok
    cases hok
    exact .ended .reset (.inl rfl) ht (.inr hr) rfl

private theorem called_handshake {h : Handshake} {ready : Bool} {fn : Option Callback}
    (hs : c.Sound) (hok : c.handleHandshakePacket h = .ok (c', ready, fn)) :
    Called c a c' (.ofReady ready) := by
  unfold handleHandshakePacket at hok
  split at hok
  · cases hok
    exact .same c a
  split at hok
  · next hst =>
    obtain ⟨hid, hunacked⟩ := hs.waiting hst
    exact called_handshakeConnecting (hs.unacked hid hunacked) hok
  · unfold handshakeConnected at hok
    split at hok
    · exact called_peerReconnected hok
    split at hok
    · next hack =>
      split at hok
      · cases hok
      · next hid =>
        cases hok
        exact .greeted (.inr ⟨hs.unacked hid hack.2, _, _, rfl⟩) (.inl rfl)
    · cases hok
      exact .noted h.wantAck
  · cases hok
    exact .same c a
  · cases hok
    exact .same c a

private theorem called_packetReceived {buf : List UInt8} {ready : Bool} {fn : Option Callback}
    (hs : c.Sound) (hok : c.packetReceived buf = .ok (c', ready, fn)) :
    Called c (.packetReceived buf) c' (.ofReady ready) := by
  unfold packetReceived at hok
  split at hok
  · cases hok
    exact .same c _
  dsimp only at hok
  split at hok
  · next htype =>
    obtain ⟨⟨t, ready'⟩, hack, hok⟩ := bind_eq_ok.mp hok
    cases hok
    exact .acked (fun hsent ↦ hsent htype) hack
  · split at hok
    · cases hok
      exact .same c _
    · cases hok
      exact .credited _ _
  · split at hok
    · cases hok
      exact .same c _
    · exact called_handshake hs hok
  · split at hok
    · cases hok
      exact .same c _
    · obtain ⟨⟨r, ready', new⟩, harrived, hok⟩ := bind_eq_ok.mp hok
      cases hok
      exact .arrived harrived
  · obtain ⟨⟨r, ready', new⟩, harrived, hok⟩ := bind_eq_ok.mp hok
    cases hok
    exact .arrived harrived
  · cases hok
    exact .same c _

/-- Every call that fails no check is one of these. -/
theorem call_spec (hs : c.Sound) (ha : a.ByOthers) (h : c.call a = .ok (c', ann)) :
    Called c a c' ann := by
  cases a with
  | conn | sendAck | sendHimark | send => exact ha.elim
  | connect id draw fn =>
    obtain ⟨⟨c1, old⟩, hc, heq⟩ := map_eq_ok.mp h
    cases heq
    exact .connected hc
  | disconnect id =>
    obtain ⟨⟨c1, old⟩, hc, heq⟩ := map_eq_ok.mp h
    cases heq
    exact called_disconnect hc
  | read count id =>
    obtain ⟨⟨r, result⟩, hc, heq⟩ := map_eq_ok.mp h
    cases heq
    exact called_read hc
  | readTurn count id =>
    obtain ⟨⟨r, result⟩, hc, heq⟩ := map_eq_ok.mp h
    cases heq
    exact called_readTurn hc
  | tryRead count id =>
    obtain ⟨out, hc, heq⟩ := map_eq_ok.mp h
    cases heq
    exact called_tryRead hc
  | peek id =>
    cases h
    unfold ThreadSafeReceiver.peek
    split
    · exact .same c _
    · rw [Receiver.peek_fst]
      exact .looked
  | availableForRead id =>
    cases h
    unfold ThreadSafeReceiver.availableForRead
    split
    · exact .same c _
    · rw [Receiver.availableForRead_fst]
      exact .looked
  | closeInput id =>
    obtain ⟨out, hc, heq⟩ := map_eq_ok.mp h
    cases heq
    exact called_markInputClosed hc
  | write buf id =>
    obtain ⟨⟨t, result⟩, hc, heq⟩ := map_eq_ok.mp h
    cases heq
    exact called_write hc
  | writeTurn buf id =>
    obtain ⟨⟨t, result⟩, hc, heq⟩ := map_eq_ok.mp h
    cases heq
    exact called_writeTurn hc
  | tryWrite buf id =>
    obtain ⟨out, hc, heq⟩ := map_eq_ok.mp h
    cases heq
    exact called_tryWrite hc
  | flush id =>
    cases h
    exact called_flush c _ id
  | close id =>
    obtain ⟨out, hc, heq⟩ := map_eq_ok.mp h
    cases heq
    exact called_close hc
  | packetReceived buf =>
    obtain ⟨⟨c1, ready, fn⟩, hc, heq⟩ := map_eq_ok.mp h
    cases heq
    exact called_packetReceived hs hc

/-- On the transmitter a call is a call of its own or none. -/
theorem Called.transmitter_step (h : Called c a c' ann) (hg : c.AcksSent a) :
    c'.transmitter = c.transmitter ∨ ∃ call, c.transmitter.AcksSentOnly call ∧
      c.transmitter.step call = .ok c'.transmitter := by
  cases h with
  | noted | looked | read | inputClosed | arrived => exact .inl rfl
  | wrote hw => exact .inr ⟨.tryWrite _, trivial, by rw [Transmitter.step, hw]; rfl⟩
  | flushed => exact .inr ⟨.flush, trivial, rfl⟩
  | closed hclose => exact .inr ⟨.close, trivial, hclose⟩
  | acked hsent hack => exact .inr ⟨.ack _ _ _, hsent hg, by rw [Transmitter.step, hack]; rfl⟩
  | credited bit himark => exact .inr ⟨.updateRecvHimark bit himark, trivial, rfl⟩
  | connected hc =>
    obtain ⟨t, ht, hc⟩ := bind_eq_ok.mp hc
    obtain ⟨r, -, hc⟩ := bind_eq_ok.mp hc
    cases hc
    exact .inr ⟨.init _ _, trivial, ht⟩
  | ended call hcall ht =>
    refine .inr ⟨call, ?_, ht⟩
    rcases hcall with rfl | rfl <;> exact trivial
  | greeted htx =>
    rcases htx with heq | ⟨hst, size, bit, heq⟩
    · exact .inl heq
    · exact .inr ⟨.setConnected size bit, hst, by rw [heq]; rfl⟩

end

end Channel

/-! ### Flow control -/

namespace Receiver

variable {n : LinkBufferSize} {r r' : Receiver n}

private theorem readRound_expiration {count : Nat} {round : Round n}
    (h : r.readRound count = .ok round) :
    round.receiver.recvHimarkUpdateExpiration ≤ r.recvHimarkUpdateExpiration ∧
      (round.released = false →
        round.receiver.recvHimarkUpdateExpiration = r.recvHimarkUpdateExpiration) := by
  have hfocus {i : Fin (2 ^ n.val)} {r1 : Receiver n} (hf : r.focus = some (i, r1)) :
      r1.recvHimarkUpdateExpiration = r.recvHimarkUpdateExpiration := by
    unfold focus at hf
    split at hf
    · cases hf; rfl
    split at hf
    · cases hf
    · cases hf; rfl
  unfold readRound at h
  split at h
  · cases h
    dsimp only
    split
    · exact ⟨le_rfl, fun _ ↦ rfl⟩
    · exact ⟨le_rfl, fun _ ↦ rfl⟩
  next i r1 hf =>
  have hsame := hfocus hf
  dsimp only at h
  split at h
  · cases h
    exact ⟨hsame.le, fun _ ↦ hsame⟩
  split at h
  · cases h
  split at h
  · cases h
    exact ⟨hsame.le, fun _ ↦ hsame⟩
  split at h
  · cases h
  split at h
  · split at h
    · cases h
      exact ⟨Nat.zero_le _, fun hno ↦ absurd hno (by simp)⟩
    · cases h
  · cases h
    exact ⟨Nat.zero_le _, fun hno ↦ absurd hno (by simp)⟩

/-- Reading can only hurry the next flow-control packet. -/
theorem tryRead_expiration_le {count : Nat} {bytes : List UInt8} {ready : Bool}
    (h : r.tryRead count = .ok (r', bytes, ready)) :
    r'.recvHimarkUpdateExpiration ≤ r.recvHimarkUpdateExpiration :=
  tryRead_rule
    (I := fun s _ _ ↦ s.recvHimarkUpdateExpiration ≤ r.recvHimarkUpdateExpiration)
    (Q := fun s _ ↦ s.recvHimarkUpdateExpiration ≤ r.recvHimarkUpdateExpiration)
    (fun _ _ _ _ hi hr _ _ ↦ (readRound_expiration hr).1.trans hi)
    (fun _ _ _ _ hi hr _ ↦ (readRound_expiration hr).1.trans hi) le_rfl (fun _ ↦ le_rfl) h

/-- A read that announces nothing leaves the time of the next mark alone. -/
theorem tryRead_expiration {count : Nat} {bytes : List UInt8}
    (h : r.tryRead count = .ok (r', bytes, false)) :
    r'.recvHimarkUpdateExpiration = r.recvHimarkUpdateExpiration := by
  unfold tryRead at h
  split at h
  · cases h
    rfl
  rw [tryReadLoop] at h
  cases hr : r.readRound count with
  | error c => rw [hr] at h; cases h
  | ok round =>
    rw [hr] at h
    dsimp only at h
    split at h
    · split at h
      · cases h
      · cases h
    · obtain ⟨rfl, hrest⟩ := Prod.mk.inj (Except.ok.inj h)
      exact (readRound_expiration hr).2 (Prod.mk.inj hrest).2

end Receiver

/-! ### Data -/

/-- The packet is not waiting to be sent, nor to be sent again before `deadline`. -/
def OutBuffer.Timely (x : OutBuffer) (deadline : Uptime) : Prop :=
  x.flushed = true → x.acked = false →
    0 < x.sendCounter ∧ (x.expiration < uptimeMax → deadline ≤ x.expiration)

namespace Transmitter

variable {n : LinkBufferSize} {t t' : Transmitter n} {b e : Int} {deadline : Uptime}

/-- No packet of the window is. -/
def Timely (t : Transmitter n) (deadline : Uptime) : Prop :=
  ∀ i < t.outRing.slotsUsed, (t.getOutBuffer (t.outRing.begin_.add i)).Timely deadline

instance (t : Transmitter n) (deadline : Uptime) : Decidable (t.Timely deadline) :=
  inferInstanceAs (Decidable (∀ i < _, _ → _ → _ ∧ (_ → _)))

private theorem timely_iff (hs : t.outRing.Spans b e) :
    t.Timely deadline ↔ ∀ p, b ≤ p → p < e → (t.bufferAt p).Timely deadline := by
  have hused := hs.slotsUsed_eq
  have hat (i : Nat) : t.getOutBuffer (t.outRing.begin_.add i) = t.bufferAt (b + i) := by
    rw [hs.begin_eq, SeqNum.ofPos_add, getOutBuffer_ofPos]
  constructor
  · intro h p hl hu
    have hp := h (p - b).toNat (by omega)
    rw [hat] at hp
    rwa [show b + ((p - b).toNat : Int) = p by omega] at hp
  · intro h i hi
    rw [hat]
    exact h _ (by omega) (by omega)

-- Slots may be replaced by others that are not due either.
private theorem Timely.congr (h : t.Timely deadline) (hring : t'.outRing = t.outRing)
    (hslots : ∀ i, (t.outBuffers i).Timely deadline → (t'.outBuffers i).Timely deadline) :
    t'.Timely deadline := by
  obtain ⟨b, e, hs⟩ := t.outRing.exists_spans
  rw [timely_iff (hring ▸ hs)]
  exact fun p hl hu ↦ hslots _ ((timely_iff hs).mp h p hl hu)

-- A packet that is opened is not flushed yet.
private theorem Timely.provideBuffer {i : Fin (2 ^ n.val)} (h : t.Timely deadline)
    (hp : t.provideBuffer = .ok (some (i, t'))) : t'.Timely deadline := by
  obtain ⟨b, e, hs⟩ := t.outRing.exists_spans
  unfold Transmitter.provideBuffer at hp
  split at hp
  · cases hp
  split at hp
  · cases hp
    exact h
  split at hp
  · cases hp
  split at hp
  · cases hp
  next hfree =>
  have hroom : e < b + 2 ^ n.val := by
    have := hs.slotsFree_eq
    omega
  obtain ⟨ring, hpush, hr⟩ := hs.push_ok hroom
  rw [hpush] at hp
  simp only [offsetFor_ofPos] at hp
  cases hp
  rw [timely_iff hr]
  intro p hl hu
  change ((t.withBuffer e (OutBuffer.init (.ofPos e) t.controlBit)).bufferAt p).Timely deadline
  rcases bufferAt_pushed rfl hroom hl hu with ⟨-, heq⟩ | ⟨hlt, heq⟩
  · rw [heq]
    intro hflushed
    cases hflushed
  · rw [heq]
    exact (timely_iff hs).mp h p hl hlt

-- A packet that is not completed stays as due as it was.
private theorem Timely.fill {i : Fin (2 ^ n.val)} {buf : List UInt8} {written : Nat}
    (h : t.Timely deadline) (hne : buf ≠ []) (hf : t.fill i buf = .ok (t', written, false)) :
    t'.Timely deadline := by
  unfold Transmitter.fill at hf
  cases hw : (t.outBuffers i).write buf with
  | error c => rw [hw] at hf; cases hf
  | ok out =>
    obtain ⟨k, x⟩ := out
    rw [hw] at hf
    obtain ⟨rfl, hrest⟩ := Prod.mk.inj (Except.ok.inj hf)
    have hopen : x.finished = false := (Prod.mk.inj hrest).2
    rcases OutBuffer.write_cases hne hw with ⟨hfin, -, rfl⟩ | ⟨-, -, -, -, rfl, -⟩
    · exact absurd (hfin.symm.trans hopen) (by decide)
    refine h.congr rfl fun j hj ↦ holds_update (P := (OutBuffer.Timely · deadline)) (fun hx ↦ ?_) hj
    unfold OutBuffer.extended at hopen ⊢
    split at hopen
    · cases hopen
    · next hpart =>
      rw [if_neg hpart]
      exact hx

private theorem Timely.tryWriteLoop (fuel : Nat) : ∀ {t t' : Transmitter n} {buf : List UInt8}
    {written : Nat}, t.Timely deadline → buf ≠ [] →
    tryWriteLoop fuel t buf = .ok (t', written, false) → t'.Timely deadline := by
  induction fuel with
  | zero =>
    intro t t' buf written h _ hw
    cases hw
    exact h
  | succ fuel ih =>
    intro t t' buf written h hne hw
    rw [Transmitter.tryWriteLoop] at hw
    split at hw
    · cases hw
    · cases hw
      exact h
    next i t1 hp =>
    split at hw
    · cases hw
    next t2 k ready hf =>
    split at hw
    · next hlt =>
      split at hw
      · cases hw
      next t3 more ready' hl =>
      obtain ⟨rfl, hrest⟩ := Prod.mk.inj (Except.ok.inj hw)
      obtain ⟨rfl, rfl⟩ := Bool.or_eq_false_iff.mp (Prod.mk.inj hrest).2
      apply ih ((h.provideBuffer hp).fill hne hf) _ hl
      apply List.ne_nil_of_length_pos
      rw [List.length_drop]
      omega
    · cases hw
      exact (h.provideBuffer hp).fill hne hf

/-- A write that completes no packet leaves none to be sent. -/
theorem Timely.tryWrite {buf : List UInt8} {written : Nat} (h : t.Timely deadline)
    (hw : t.tryWrite buf = .ok (t', written, false)) : t'.Timely deadline := by
  unfold Transmitter.tryWrite at hw
  split at hw
  · cases hw; exact h
  next hlen =>
  split at hw
  · cases hw; exact h
  split at hw
  · cases hw; exact h
  · exact h.tryWriteLoop _ (fun hnil ↦ hlen (by rw [hnil, List.length_nil])) hw

private theorem popAcked_slots (fuel : Nat) : ∀ {t t' : Transmitter n} {b e : Int} {seq : SeqNum},
    t.outRing.Spans b e → t.hasPendingEof = false → popAcked fuel t seq = .ok t' →
    t'.outBuffers = t.outBuffers ∧ ∃ b', b ≤ b' ∧ t'.outRing.Spans b' e := by
  induction fuel with
  | zero =>
    intro t t' b e seq hs _ h
    cases h
    exact ⟨rfl, b, le_rfl, hs⟩
  | succ fuel ih =>
    intro t t' b e seq hs hpend h
    rw [popAcked] at h
    split at h
    case isFalse =>
      cases h
      exact ⟨rfl, b, le_rfl, hs⟩
    next hgo =>
    obtain ⟨ring, hpop, hr⟩ := hs.pop_ok (hs.empty_eq_false.mp hgo.2)
    rw [hpop] at h
    dsimp only at h
    rw [if_neg (by simp [hpend])] at h
    obtain ⟨hslots, b', hb', hs'⟩ := ih (t := { t with
      outRing := ring, packetsDelivered := t.packetsDelivered + 1 }) hr hpend h
    exact ⟨hslots, b', by omega, hs'⟩

private theorem markAcked_timely (bits : List Bool) : ∀ (t : Transmitter n) (pos last : SeqNum)
    (i : Fin (2 ^ n.val)), (t.outBuffers i).Timely deadline →
    ((markAcked bits t pos last).1.outBuffers i).Timely deadline := by
  induction bits with
  | nil => exact fun _ _ _ _ h ↦ h
  | cons bit bits ih =>
    intro t pos last i h
    rw [markAcked]
    split
    · apply ih
      refine holds_update (P := (OutBuffer.Timely · deadline)) (fun _ ↦ ?_) h
      intro _ hacked
      cases hacked
    · exact ih _ _ _ _ h

-- Once a packet is hurried, that is said.
private theorem rushLoop_updated (fuel : Nat) : ∀ {t t' : Transmitter n} {pos last : SeqNum}
    {rushed : Bool}, rushLoop fuel t pos last true = .ok (t', rushed) → rushed = true := by
  induction fuel with
  | zero =>
    intro t t' pos last rushed h
    cases h
    rfl
  | succ fuel ih =>
    intro t t' pos last rushed h
    unfold rushLoop at h
    split at h
    · cases h
      rfl
    dsimp only at h
    split at h
    · split at h
      · cases h
      · exact ih h
    · exact ih h

private theorem rushLoop_none (fuel : Nat) : ∀ {t t' : Transmitter n} {pos last : SeqNum},
    rushLoop fuel t pos last false = .ok (t', false) → t' = t := by
  induction fuel with
  | zero =>
    intro t t' pos last h
    cases h
    rfl
  | succ fuel ih =>
    intro t t' pos last h
    unfold rushLoop at h
    split at h
    · cases h
      rfl
    dsimp only at h
    split at h
    · split at h
      · cases h
      · exact absurd (rushLoop_updated fuel h) (by decide)
    · exact ih h

/-- An acknowledgement that hurries no packet leaves none to be sent, apart from a final packet
that had to wait for it. -/
theorem Timely.ack {controlBit : Bool} {seqId : BitVec 16} {bitmap : List UInt8}
    (h : t.Timely deadline) (hpend : t.hasPendingEof = false)
    (hack : t.ack controlBit seqId bitmap = .ok (t', false)) : t'.Timely deadline := by
  obtain ⟨b, e, hs⟩ := t.outRing.exists_spans
  unfold Transmitter.ack at hack
  split at hack
  · cases hack; exact h
  split at hack
  · cases hack; exact h
  dsimp only at hack
  split at hack
  · cases hack; exact h
  split at hack
  · cases hack
  next t1 hpop =>
  obtain ⟨hslots, b', hb', hs1⟩ := popAcked_slots _ hs hpend hpop
  have h1 : t1.Timely deadline := by
    rw [timely_iff hs1]
    intro p hl hu
    rw [bufferAt, hslots]
    exact (timely_iff hs).mp h p (by omega) hu
  split at hack
  · split at hack
    · obtain ⟨t2, hreset, hm⟩ := reset_ok hs1
      rw [hreset] at hack
      cases hack
      rw [timely_iff (hm.spans hs1)]
      intro p hl hu
      omega
    · cases hack
      exact h1
  · have h2 := h1.congr (markAcked_same (bitmap.flatMap bitsMsb) t1 (t1.outRing.begin_.add 1)
      (t1.outRing.begin_.add (-1))).2 (markAcked_timely _ t1 _ _)
    split at hack
    · rw [rushLoop_none _ hack]
      exact h2
    · cases hack
      exact h2

/-- A search that finds nothing puts the next one off no further than it was told. -/
theorem getBufferToSend_next_le {now : Uptime} {draw next next' : Nat}
    (h : t.getBufferToSend now draw next = (t', none, next')) : next' ≤ next := by
  unfold getBufferToSend at h
  split at h
  · cases h
    exact le_rfl
  split at h
  · cases h
  unfold sendEarliest at h
  dsimp only at h
  split at h
  · split at h
    · cases h
      exact Nat.min_le_left _ _
    · cases h
  split at h
  · cases h
    exact le_rfl
  split at h
  · cases h
    exact le_rfl
  · cases h

/-- A search that finds a packet has the next one follow at once. -/
theorem getBufferToSend_next_zero {now : Uptime} {draw next next' : Nat} {pos : SeqNum}
    (h : t.getBufferToSend now draw next = (t', some pos, next')) : next' = 0 := by
  unfold getBufferToSend at h
  split at h
  · cases h
  split at h
  · cases h
    rfl
  unfold sendEarliest at h
  dsimp only at h
  split at h
  · split at h
    · cases h
    · cases h
      rfl
  split at h
  · cases h
  split at h
  · cases h
  · cases h
    rfl

/-- A deadline may be brought forward. -/
theorem Timely.mono {deadline' : Uptime} (h : t.Timely deadline) (hle : deadline' ≤ deadline) :
    t.Timely deadline' := by
  intro i hi hflushed hacked
  obtain ⟨hcount, htimer⟩ := h i hi hflushed hacked
  exact ⟨hcount, fun hmax ↦ hle.trans (htimer hmax)⟩

/-- A search that finds nothing leaves the packets alone. -/
theorem getBufferToSend_none (hr : Reachable Transmitter.step AcksSentOnly (new n) t)
    {now : Uptime} {draw next next' : Nat}
    (hnone : t.getBufferToSend now draw next = (t', none, next')) : t' = t := by
  by_cases hst : t.state = .connected
  · obtain ⟨b, e, f, hs⟩ := scheduled_of_reachable hr hst
    rcases hs.ordered.getBufferToSend hs.follows hst now draw next with
      ⟨p, -, -, -, heq⟩ | ⟨next'', stop, found, heq, -⟩
    · cases hnone.symm.trans heq
    · cases hnone.symm.trans heq
      rfl
  · rw [getBufferToSend, if_pos hst] at hnone
    cases hnone
    rfl

-- As long as data may be written, every packet is below the mark.
private theorem Checked.below (h : t.Checked b e) (ho : t.Open) {p : Int} (hl : b ≤ p)
    (hu : p < e) : SeqNum.ofPos p < t.recvHimark := by
  have hcap := capacity_le n
  have hus := h.spans.used
  obtain ⟨k, hc⟩ := h.credit
  have hend := hc.open_le (.inl ho)
  have hfar := hc.le_end
  rw [hc.himark_eq, SeqNum.ofPos_lt (by omega) (by omega)]
  omega

/-- When nothing is found to send, nothing is due until the search is to be repeated. -/
theorem timely_of_none (hr : Reachable Transmitter.step AcksSentOnly (new n) t)
    (hc : ∃ b e, t.Checked b e) (hst : t.state = .connected) (hopen : t.endOfStream = false)
    {now : Uptime} {draw next next' : Nat}
    (hnone : t.getBufferToSend now draw next = (t', none, next')) : t.Timely (now + next') := by
  obtain ⟨b, e, f, hs⟩ := scheduled_of_reachable hr hst
  obtain ⟨b1, e1, hc⟩ := hc
  have hspans := hs.ordered.spans
  have hused := hspans.slotsUsed_eq
  have hused1 := hc.spans.slotsUsed_eq
  rcases hs.ordered.getBufferToSend hs.follows hst now draw next with
    ⟨p, -, -, -, heq⟩ | ⟨next'', stop, found, heq, hn⟩
  · cases hnone.symm.trans heq
  cases hnone.symm.trans heq
  have hstop := hs.ordered.stop_le hn.scans
  rw [timely_iff hspans]
  intro p hl hu hflushed hacked
  have hbelow : SeqNum.ofPos p < t.recvHimark := by
    have hsame : SeqNum.ofPos p = .ofPos (b1 + (p - b)) := by
      rw [← SeqNum.ofPos_add, ← hc.spans.begin_eq, hspans.begin_eq, SeqNum.ofPos_add]
      congr 1
      omega
    rw [hsame]
    exact hc.below ⟨hopen, by simp [hst]⟩ (by omega) (by omega)
  have hpassed := hs.passed hn hu hbelow hflushed
  refine ⟨(hs.ordered.sent _ hl (by omega)).counted, fun hmax ↦ ?_⟩
  obtain ⟨hlater, hle⟩ := hs.timer hn hl hpassed hacked hmax
  exact Nat.add_le_of_le_sub' hlater.le hle

end Transmitter

/-! ### Nothing is due -/

namespace Channel

variable {m n : LinkBufferSize} {c c' : Channel m n} {a : Act} {ann : Announcement}
  {deadline : Uptime}

/-- No handshake is to be sent before `deadline` (`channel.cpp:312–320`). The acknowledgement
of a handshake that is repeated is not counted: it is not announced, and goes out with the
next packets. -/
def HandshakeSettled (c : Channel m n) (deadline : Uptime) : Prop :=
  c.transmitter.state = .connecting → deadline ≤ c.nextScheduledHandshakeUpdate

/-- No acknowledgement is to be sent. -/
def AckSettled (c : Channel m n) : Prop :=
  c.transmitter.state ≠ .connecting → c.receiver.state = .connected ∨ c.receiver.state = .idle →
    c.receiver.needsAck = false

/-- No flow-control packet is to be sent before `deadline`. -/
def HimarkSettled (c : Channel m n) (deadline : Uptime) : Prop :=
  c.transmitter.state ≠ .connecting → c.receiver.state ≠ .connecting → c.receiver.state ≠ .idle →
    deadline ≤ c.receiver.recvHimarkUpdateExpiration

/-- No data packet is to be sent before `deadline`, as long as the stream is not closed. -/
def DataSettled (c : Channel m n) (deadline : Uptime) : Prop :=
  c.transmitter.state = .connected → c.transmitter.endOfStream = false →
    c.transmitter.Timely deadline

/-- What a call leaves alone that announces nothing. -/
structure Hushed (c c' : Channel m n) : Prop where
  stream : c'.myStreamId = c.myStreamId
  connecting : c'.transmitter.state = .connecting ↔ c.transmitter.state = .connecting
  retry : c'.nextScheduledHandshakeUpdate = c.nextScheduledHandshakeUpdate
  receiving : c'.receiver.state = c.receiver.state
  needsAck : c'.receiver.needsAck = c.receiver.needsAck
  himark : c'.receiver.recvHimarkUpdateExpiration = c.receiver.recvHimarkUpdateExpiration
  data : ∀ deadline, c.DataSettled deadline → c'.DataSettled deadline

/-- A call that announces nothing leaves a settled handshake settled. -/
theorem Hushed.handshakeSettled (h : Hushed c c') (hc : c.HandshakeSettled deadline) :
    c'.HandshakeSettled deadline := by
  intro hst
  rw [h.retry]
  exact hc (h.connecting.mp hst)

/-- A call that announces nothing leaves settled acknowledgements settled. -/
theorem Hushed.ackSettled (h : Hushed c c') (hc : c.AckSettled) : c'.AckSettled := by
  intro hst hrx
  rw [h.needsAck]
  exact hc (fun hno ↦ hst (h.connecting.mpr hno)) (h.receiving ▸ hrx)

/-- A call that announces nothing leaves a settled mark settled. -/
theorem Hushed.himarkSettled (h : Hushed c c') (hc : c.HimarkSettled deadline) :
    c'.HimarkSettled deadline := by
  intro hst hrx hrx'
  rw [h.himark]
  exact hc (fun hno ↦ hst (h.connecting.mpr hno)) (h.receiving ▸ hrx) (h.receiving ▸ hrx')

private theorem hushed_receiver {r : Receiver n} (hst : r.state = c.receiver.state)
    (hack : r.needsAck = c.receiver.needsAck)
    (himark : r.recvHimarkUpdateExpiration = c.receiver.recvHimarkUpdateExpiration) :
    Hushed c { c with receiver := r } :=
  ⟨rfl, .rfl, rfl, hst, hack, himark, fun _ h ↦ h⟩

private theorem hushed_transmitter (call : Transmitter.Act) {t : Transmitter m}
    (hcall : call.InStream) (hstep : c.transmitter.step call = .ok t)
    (hdata : t.state = .connected → t.endOfStream = false → c.transmitter.endOfStream = false ∧
      ∀ deadline, c.transmitter.Timely deadline → t.Timely deadline) :
    Hushed c { c with transmitter := t } := by
  have hst := (Transmitter.step_inStream hcall hstep).1
  refine ⟨rfl, ⟨fun hno ↦ ?_, fun hno ↦ (Transmitter.step_connecting hcall hno hstep).1⟩, rfl, rfl,
    rfl, rfl, fun deadline h hconn hopen ↦ ?_⟩
  · exact (hst.resolve_right fun hidle ↦ nomatch hidle.symm.trans hno).symm.trans hno
  · obtain ⟨hopen', htimely⟩ := hdata hconn hopen
    have hsame := hst.resolve_right fun hidle ↦ nomatch hidle.symm.trans hconn
    exact htimely deadline (h (hsame.symm.trans hconn) hopen')

private theorem hushed_ack {controlBit : Bool} {seqId : BitVec 16} {bitmap : List UInt8}
    {t : Transmitter m} (hs : c.Sound)
    (hack : c.transmitter.ack controlBit seqId bitmap = .ok (t, false)) :
    Hushed c { c with transmitter := t } := by
  obtain ⟨b, e, hc⟩ := hs.transmitter
  obtain ⟨h, hcredit⟩ := hc.credit
  refine hushed_transmitter (.ack controlBit seqId bitmap) trivial
    (by rw [Transmitter.step, hack]; rfl) fun hconn hopen ↦ ?_
  have hopen' : c.transmitter.endOfStream = false := by
    obtain ⟨t1, rushed, hok, hacking⟩ := Transmitter.ack_path hc.spans controlBit seqId bitmap
    cases hok.symm.trans hack
    cases hacking with
    | ignored => exact hopen
    | applied effs _ _ _ _ _ _ _ _ hends =>
      rcases hends with ⟨-, heos, -⟩ | ⟨hidle, -⟩
      · exact heos.symm.trans hopen
      · exact absurd (hidle.symm.trans hconn) (by decide)
  have hpend : c.transmitter.hasPendingEof = false :=
    Bool.eq_false_iff.mpr fun hp ↦ absurd (hopen'.symm.trans (hcredit.pending hp)) (by decide)
  exact ⟨hopen', fun _ htimely ↦ htimely.ack hpend hack⟩

private theorem hushed_credit (c : Channel m n) (controlBit : Bool) (himark : BitVec 16) :
    Hushed c { c with transmitter := (c.transmitter.updateRecvHimark controlBit himark).1 } := by
  refine hushed_transmitter (.updateRecvHimark controlBit himark) trivial rfl ?_
  unfold Transmitter.updateRecvHimark
  split
  · exact fun _ hopen ↦ ⟨hopen, fun _ h ↦ h⟩
  split
  · exact fun _ hopen ↦ ⟨hopen, fun _ h ↦ h⟩
  dsimp only
  split
  · exact fun _ hopen ↦ ⟨hopen, fun _ h ↦ h⟩
  · exact fun _ hopen ↦ ⟨hopen, fun _ h ↦ h⟩

private theorem hushed_close {t : Transmitter m} (hclose : c.transmitter.close = .ok t)
    (hst : c.transmitter.state = .connected ∨ c.transmitter.state = .connecting) :
    Hushed c { c with transmitter := t } := by
  obtain ⟨b, e, hs⟩ := c.transmitter.outRing.exists_spans
  obtain ⟨t1, effs, e', hok, -, hopen, hshut, -⟩ := Transmitter.close_path hs
  cases hok.symm.trans hclose
  refine hushed_transmitter .close trivial hclose fun _ hno ↦ ?_
  by_cases ho : c.transmitter.Open
  · exact absurd ((hopen ho).1.symm.trans hno) (by decide)
  · -- the stream is closed already
    obtain ⟨rfl, -⟩ := hshut ho (by rcases hst with hst | hst <;> simp [hst])
    exact ⟨hno, fun _ h ↦ h⟩

/-- A call that announces nothing makes nothing due, unless it gives the stream up. -/
theorem Called.hushed (h : Called c a c' .none) (hs : c.Sound) (hid : c'.myStreamId ≠ 0) :
    Hushed c c' := by
  obtain ⟨b, e, hrx⟩ := hs.receiver
  have hbroken := hrx.not_broken
  generalize hann : Announcement.none = ann at h
  cases h with
  | noted => exact ⟨rfl, .rfl, rfl, rfl, rfl, rfl, fun _ h ↦ h⟩
  | looked =>
    have hsame := c.receiver.look_sameLink
    apply hushed_receiver (hsame.state hbroken).1 hsame.needsAck
    rcases c.receiver.look_eq with heq | ⟨-, -, heq⟩ <;> rw [heq]
  | read hread hready =>
    have hsame := Receiver.tryRead_sameLink hread
    rw [hready hann.symm] at hread
    exact hushed_receiver (hsame.state hbroken).1 hsame.needsAck (Receiver.tryRead_expiration hread)
  | inputClosed hclosed =>
    rw [Announcement.ofReady_eq_none.mp hann.symm] at hclosed
    unfold Receiver.markInputClosed at hclosed
    dsimp only at hclosed
    split at hclosed
    · cases hclosed
      exact hushed_receiver rfl rfl rfl
    · split at hclosed
      · cases hclosed
      · cases hclosed
  | arrived harrived =>
    rw [Announcement.ofReady_eq_none.mp hann.symm] at harrived
    cases Receiver.handleDataPacket_arrival hrx.spans harrived with
    | ignored => exact hushed_receiver rfl rfl rfl
  | wrote hw hready =>
    have hsame := Transmitter.tryWrite_samePhase hw
    rw [hready hann.symm] at hw
    exact hushed_transmitter (.tryWrite _) trivial (by rw [Transmitter.step, hw]; rfl)
      fun _ hopen ↦ ⟨hsame.endOfStream.symm.trans hopen, fun _ h ↦ h.tryWrite hw⟩
  | flushed =>
    have hnone := Announcement.ofReady_eq_none.mp hann.symm
    unfold Transmitter.flush at hnone ⊢
    split at hnone
    · cases hnone
    · exact hushed_receiver rfl rfl rfl
  | closed hclose hst => exact hushed_close hclose hst
  | acked _ hack =>
    rw [Announcement.ofReady_eq_none.mp hann.symm] at hack
    exact hushed_ack hs hack
  | credited bit himark => exact hushed_credit c bit himark
  | connected => cases hann
  | ended call _ _ _ h0 => exact absurd h0 hid
  | greeted => cases hann

/-- No call puts the next flow-control packet off. -/
theorem Called.expiration_le (h : Called c a c' ann) :
    c'.receiver.recvHimarkUpdateExpiration ≤ c.receiver.recvHimarkUpdateExpiration := by
  cases h with
  | noted | wrote | flushed | closed | acked | credited => exact le_rfl
  | looked =>
    apply le_of_eq
    rcases c.receiver.look_eq with heq | ⟨-, -, heq⟩ <;> rw [heq]
  | read hread => exact Receiver.tryRead_expiration_le hread
  | inputClosed hclosed =>
    unfold Receiver.markInputClosed at hclosed
    dsimp only at hclosed
    split at hclosed
    · cases hclosed
      exact le_rfl
    · split at hclosed
      · cases hclosed
      · cases hclosed
        exact Nat.zero_le _
  | arrived harrived =>
    obtain ⟨b, e, hs⟩ := c.receiver.inRing.exists_spans
    cases Receiver.handleDataPacket_arrival hs harrived with
    | ignored | consumed => exact le_rfl
    | accepted q b' _ _ _ _ _ _ _ _ hacc =>
      rw [hacc.frame]
  | connected hc =>
    obtain ⟨t, -, hc⟩ := bind_eq_ok.mp hc
    obtain ⟨r, hr, hc⟩ := bind_eq_ok.mp hc
    cases hc
    unfold Receiver.init at hr
    split at hr
    · cases hr
    · cases hr
      exact le_rfl
  | ended call _ _ hr =>
    rcases hr with heq | hreset
    · rw [heq, Receiver.setBroken]
      split <;> exact le_rfl
    · unfold Receiver.reset at hreset
      split at hreset
      · cases hreset
      · rw [← Except.ok.inj hreset]
        exact Nat.zero_le _
  | greeted _ hr =>
    rcases hr with heq | ⟨seq, bit, hconn⟩
    · rw [heq]
    · unfold Receiver.setConnected at hconn
      split at hconn
      · split at hconn
        · cases hconn
        · rw [← Except.ok.inj hconn]
      · cases hconn

end Channel

end RooTransport.Link
