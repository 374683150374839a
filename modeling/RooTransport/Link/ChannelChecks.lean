import RooTransport.Link.Channel
import RooTransport.Link.ReceiverChecks
import RooTransport.Link.TransmitterChecks

/-!
# The checks of the channel

A channel among its threads: the application's calls, the sender's and the packets of a
peer that may send anything. Every step is a call on the receiver, a call on the
transmitter, or a change of the handshake state. No check fails in a run that keeps clear
of three things: a final packet stored below data that came before it, a read with a
current buffer that has left the window, and an acknowledgement of stream zero after the
connection was given up half open.
-/

namespace RooTransport.Link

open RooTransport.Base RingBuffer

namespace Channel

variable {m n : LinkBufferSize}

/-- What is done to a channel. The parts of `trySend` (`channel.cpp:241–274`) are steps of
their own, since other threads may come between them, and so are the turns that a `read` or
`write` takes after having waited. -/
inductive Act where
  | connect (myStreamId : { id : UInt32 // id ≠ 0 }) (draw : UInt32)
      (disconnectFn : Option Callback)
  | disconnect (myStreamId : UInt32)
  | read (count : Nat) (myStreamId : UInt32)
  | readTurn (count : Nat) (myStreamId : UInt32)
  | tryRead (count : Nat) (myStreamId : UInt32)
  | peek (myStreamId : UInt32)
  | availableForRead (myStreamId : UInt32)
  | closeInput (myStreamId : UInt32)
  | write (buf : List UInt8) (myStreamId : UInt32)
  | writeTurn (buf : List UInt8) (myStreamId : UInt32)
  | tryWrite (buf : List UInt8) (myStreamId : UInt32)
  | flush (myStreamId : UInt32)
  | close (myStreamId : UInt32)
  | conn (now : Uptime) (draw nextSendMicros : Nat)
  | sendAck
  | sendHimark (now : Uptime) (nextSendMicros : Nat)
  | send (now : Uptime) (draw nextSendMicros : Nat)
  | packetReceived (buf : List UInt8)
  deriving DecidableEq, Repr

/-- One step, keeping only the state it leaves. -/
def step (c : Channel m n) : Act → Except Check (Channel m n)
  | .connect id draw fn => (c.connect id draw fn).map Prod.fst
  | .disconnect id => (c.disconnect id).map Prod.fst
  | .read count id => (ThreadSafeReceiver.read c.receiver count id .ok false).map fun out ↦
      { c with receiver := out.1 }
  | .readTurn count id => (ThreadSafeReceiver.readTurn c.receiver count id).map fun out ↦
      { c with receiver := out.1 }
  | .tryRead count id => (ThreadSafeReceiver.tryRead c.receiver count id .ok false).map fun out ↦
      { c with receiver := out.1 }
  | .peek id => .ok { c with receiver := (ThreadSafeReceiver.peek c.receiver id).1 }
  | .availableForRead id =>
    .ok { c with receiver := (ThreadSafeReceiver.availableForRead c.receiver id).1 }
  | .closeInput id => (ThreadSafeReceiver.markInputClosed c.receiver id false).map fun out ↦
      { c with receiver := out.1 }
  | .write buf id => (ThreadSafeTransmitter.write c.transmitter buf id false).map fun out ↦
      { c with transmitter := out.1 }
  | .writeTurn buf id => (ThreadSafeTransmitter.writeTurn c.transmitter buf id).map fun out ↦
      { c with transmitter := out.1 }
  | .tryWrite buf id => (ThreadSafeTransmitter.tryWrite c.transmitter buf id false).map fun out ↦
      { c with transmitter := out.1 }
  | .flush id =>
    .ok { c with transmitter := (ThreadSafeTransmitter.flush c.transmitter id false).1 }
  | .close id => (ThreadSafeTransmitter.close c.transmitter id false).map fun out ↦
      { c with transmitter := out.1 }
  | .conn now draw next => .ok (c.conn now draw next).1
  | .sendAck => .ok { c with receiver := c.receiver.ack.1 }
  | .sendHimark now next => .ok { c with receiver := (c.receiver.updateRecvHimark now next).1 }
  | .send now draw next => .ok { c with transmitter := (c.transmitter.send now draw next).1 }
  | .packetReceived buf => (c.packetReceived buf).map Prod.fst

/-- `channel.cpp:457–458`: the handshake acknowledges stream zero to a channel that has none,
but whose receiver still holds input of a connection that was given up before the peer had
acknowledged it. -/
def AcksNoStream (c : Channel m n) (h : Handshake) : Prop :=
  c.receiver.state = .connected ∧ c.myStreamId = 0 ∧ c.myStreamIdAckedByPeer = false ∧
    h.ackStreamId = 0 ∧ (h.wantAck = false ∨ h.peerStreamId = c.peerStreamId) ∧
    ¬ (h.peerStreamId = 0 ∧ h.peerSeqNum = c.transmitter.outRing.begin_.raw)

instance (c : Channel m n) (h : Handshake) : Decidable (c.AcksNoStream h) :=
  inferInstanceAs (Decidable (_ ∧ _ ∧ _ ∧ _ ∧ _ ∧ _))

/-- The packets that pave no way for a check to fail. -/
def PacketOk (c : Channel m n) (buf : List UInt8) : Prop :=
  2 ≤ buf.length → buf.length ≤ 250 →
    (getPacketType (loadBeU16 buf) = some .fin → ¬ c.receiver.FinFillsGap
      (getPacketControlBit (loadBeU16 buf)) (getPacketSeq (loadBeU16 buf))) ∧
    (getPacketType (loadBeU16 buf) = some .handshake →
      ∀ h ∈ parseHandshake buf, ¬ c.AcksNoStream h)

instance (c : Channel m n) (buf : List UInt8) : Decidable (c.PacketOk buf) :=
  inferInstanceAs (Decidable (_ → _ → _))

/-- The steps that pave no way for a check to fail. -/
def ChecksHold (c : Channel m n) : Act → Prop
  | .read _ id =>
    ThreadSafeReceiver.checkConnectionStatus c.receiver id = .ok → c.receiver.CursorValid
  | .tryRead _ id =>
    ThreadSafeReceiver.checkConnectionStatus c.receiver id = .ok → c.receiver.CursorValid
  | .readTurn _ _ => c.receiver.CursorValid
  | .packetReceived buf => c.PacketOk buf
  | _ => True

instance (c : Channel m n) (a : Act) : Decidable (c.ChecksHold a) :=
  match a with
  | .read _ _ => inferInstanceAs (Decidable (_ → _))
  | .tryRead _ _ => inferInstanceAs (Decidable (_ → _))
  | .readTurn _ _ => inferInstanceAs (Decidable (Receiver.CursorValid _))
  | .packetReceived _ => inferInstanceAs (Decidable (PacketOk _ _))
  | .connect _ _ _ | .disconnect _ | .peek _ | .availableForRead _ | .closeInput _ | .write _ _
  | .writeTurn _ _ | .tryWrite _ _ | .flush _ | .close _ | .conn _ _ _ | .sendAck
  | .sendHimark _ _ | .send _ _ _ => .isTrue trivial

/-! ### What a step is made of -/

/-- The six kinds of steps. A step that meets the condition makes no call that does not. -/
inductive Stepped (c : Channel m n) (a : Act) : Except Check (Channel m n) → Prop
  | noted (needsAck : Bool) (retries : UInt32) (update : Uptime) :
      Stepped c a (.ok { c with
        needsHandshakeAck := needsAck
        successiveHandshakeRetries := retries
        nextScheduledHandshakeUpdate := update })
  | receiver (call : Receiver.Act) : (c.ChecksHold a → c.receiver.ChecksHold call) →
      Stepped c a ((c.receiver.step call).map fun receiver ↦ { c with receiver })
  | transmitter (call : Transmitter.Act) : call.InStream →
      Stepped c a ((c.transmitter.step call).map fun transmitter ↦ { c with transmitter })
  | connect (id : { id : UInt32 // id ≠ 0 }) (draw : UInt32) (fn : Option Callback) :
      a = .connect id draw fn → Stepped c a ((c.connect id draw fn).map Prod.fst)
  | disconnect (id : UInt32) : Stepped c a ((c.disconnect id).map Prod.fst)
  | handshake (buf : List UInt8) (h : Handshake) : a = .packetReceived buf →
      getPacketType (loadBeU16 buf) = some .handshake → parseHandshake buf = some h →
      (c.ChecksHold a → ¬ c.AcksNoStream h) →
      Stepped c a ((c.handleHandshakePacket h).map Prod.fst)

section

variable {c : Channel m n}

private theorem Stepped.same (c : Channel m n) (a : Act) : Stepped c a (.ok c) := .noted _ _ _

private theorem readTurn_eq (r : Receiver n) (count : Nat) (id : UInt32) :
    (ThreadSafeReceiver.readTurn r count id).map Prod.fst = r.step (.tryRead count) := by
  rw [ThreadSafeReceiver.readTurn, Receiver.step_tryRead]
  rcases r.tryRead count with e | ⟨r', bytes, ready⟩
  · rfl
  · dsimp only
    split
    · rfl
    split
    · rfl
    · rfl

private theorem writeTurn_eq (t : Transmitter m) (buf : List UInt8) (id : UInt32) :
    (ThreadSafeTransmitter.writeTurn t buf id).map Prod.fst = t.step (.tryWrite buf) := by
  rw [ThreadSafeTransmitter.writeTurn, Transmitter.step]
  rcases t.tryWrite buf with e | ⟨t', written, ready⟩
  · rfl
  · dsimp only
    split
    · rfl
    split
    · rfl
    · rfl

private theorem Stepped.of_receiver {a : Act} {β : Type} {x : Except Check (Receiver n × β)}
    (call : Receiver.Act) (hx : x.map Prod.fst = c.receiver.step call)
    (hg : c.ChecksHold a → c.receiver.ChecksHold call) :
    Stepped c a (x.map fun out ↦ { c with receiver := out.1 }) := by
  have h := Stepped.receiver call hg
  rw [← hx] at h
  rcases x with e | ⟨r, out⟩
  · exact h
  · exact h

private theorem Stepped.of_transmitter {a : Act} {β : Type} {x : Except Check (Transmitter m × β)}
    (call : Transmitter.Act) (hx : x.map Prod.fst = c.transmitter.step call) (hc : call.InStream) :
    Stepped c a (x.map fun out ↦ { c with transmitter := out.1 }) := by
  have h := Stepped.transmitter (c := c) (a := a) call hc
  rw [← hx] at h
  rcases x with e | ⟨r, out⟩
  · exact h
  · exact h

private theorem read_spec (c : Channel m n) (count : Nat) (id : UInt32) :
    Stepped c (.read count id) ((ThreadSafeReceiver.read c.receiver count id .ok false).map
      fun out ↦ { c with receiver := out.1 }) := by
  rw [ThreadSafeReceiver.read]
  split
  · exact .same c _
  split
  · exact .same c _
  · next hok =>
    exact .of_receiver (.tryRead count) (readTurn_eq ..) fun hg ↦ hg (not_not.mp hok)

private theorem tryRead_spec (c : Channel m n) (count : Nat) (id : UInt32) :
    Stepped c (.tryRead count id) ((ThreadSafeReceiver.tryRead c.receiver count id .ok false).map
      fun out ↦ { c with receiver := out.1 }) := by
  rw [ThreadSafeReceiver.tryRead]
  split
  · exact .same c _
  split
  · exact .same c _
  · next hok =>
    refine .of_receiver (.tryRead count) ?_ fun hg ↦ hg (not_not.mp hok)
    rw [Receiver.step_tryRead]
    rcases c.receiver.tryRead count with e | ⟨r', bytes, ready⟩
    · rfl
    · rfl

private theorem closeInput_spec (c : Channel m n) (id : UInt32) :
    Stepped c (.closeInput id) ((ThreadSafeReceiver.markInputClosed c.receiver id false).map
      fun out ↦ { c with receiver := out.1 }) := by
  rw [ThreadSafeReceiver.markInputClosed]
  split
  · exact .same c _
  · refine .of_receiver .markInputClosed ?_ fun _ ↦ trivial
    rw [Receiver.step_markInputClosed]
    rcases c.receiver.markInputClosed with e | ⟨r', ready⟩
    · rfl
    · rfl

private theorem tryWrite_spec (c : Channel m n) (buf : List UInt8) (id : UInt32) :
    Stepped c (.tryWrite buf id) ((ThreadSafeTransmitter.tryWrite c.transmitter buf id false).map
      fun out ↦ { c with transmitter := out.1 }) := by
  rw [ThreadSafeTransmitter.tryWrite]
  split
  · exact .same c _
  · refine .of_transmitter (.tryWrite buf) ?_ trivial
    rw [Transmitter.step]
    rcases c.transmitter.tryWrite buf with e | ⟨t', written, ready⟩
    · rfl
    · rfl

private theorem close_spec (c : Channel m n) (id : UInt32) :
    Stepped c (.close id) ((ThreadSafeTransmitter.close c.transmitter id false).map fun out ↦
      { c with transmitter := out.1 }) := by
  rw [ThreadSafeTransmitter.close]
  split
  · exact .same c _
  · refine .of_transmitter .close ?_ trivial
    rw [Transmitter.step]
    rcases c.transmitter.close with e | t'
    · rfl
    · dsimp only
      split
      · rfl
      · rfl

private theorem conn_spec (c : Channel m n) (a : Act) (now : Uptime) (draw next : Nat) :
    Stepped c a (.ok (c.conn now draw next).1) := by
  unfold conn
  split
  · exact .same c _
  · exact .same c _
  · split
    · exact .same c _
    · exact .noted _ _ _
  · split
    · exact .same c _
    · exact .noted _ _ _

private theorem packetReceived_spec (c : Channel m n) (buf : List UInt8) :
    Stepped c (.packetReceived buf) ((c.packetReceived buf).map Prod.fst) := by
  rw [packetReceived]
  split
  · exact .same c _
  next hlen =>
  rw [not_or, not_lt, not_lt] at hlen
  have hdata (isFinal : Bool) (hg : isFinal = true → getPacketType (loadBeU16 buf) = some .fin) :
      Stepped c (.packetReceived buf) ((c.receiver.handleDataPacket
        (getPacketControlBit (loadBeU16 buf)) (getPacketSeq (loadBeU16 buf)) (buf.drop 2)
          isFinal).map fun out ↦ { c with receiver := out.1 }) := by
    refine .of_receiver _ (c.receiver.step_handleDataPacket _ _ _ _).symm fun hok ↦ ⟨?_, ?_⟩
    · rw [List.length_drop]
      omega
    · exact fun hf ↦ (hok hlen.1 hlen.2).1 (hg hf)
  dsimp only
  split
  · refine cast ?_ (Stepped.of_transmitter (c := c) (a := .packetReceived buf) (.ack
      (getPacketControlBit (loadBeU16 buf)) (getPacketSeq (loadBeU16 buf)) (buf.drop 2))
      rfl trivial)
    congr 1
    rcases c.transmitter.ack _ _ _ with e | ⟨t', ready⟩
    · rfl
    · rfl
  · split
    · exact .same c _
    · exact .transmitter (.updateRecvHimark _ _) trivial
  · next ht =>
    split
    · exact .same c _
    · next h hh => exact .handshake buf h rfl ht hh fun hok ↦ (hok hlen.1 hlen.2).2 ht h hh
  · split
    · exact .same c _
    · refine cast ?_ (hdata false (fun hf ↦ nomatch hf))
      congr 1
      rcases c.receiver.handleDataPacket _ _ _ _ with e | ⟨r', ready, new⟩
      · rfl
      · rfl
  · next ht =>
    refine cast ?_ (hdata true fun _ ↦ ht)
    congr 1
    rcases c.receiver.handleDataPacket _ _ _ _ with e | ⟨r', ready, new⟩
    · rfl
    · rfl
  · exact .same c _

/-- Every step is of one of the six kinds. -/
theorem step_spec (c : Channel m n) (a : Act) : Stepped c a (c.step a) := by
  cases a with
  | connect id draw fn => exact .connect id draw fn rfl
  | disconnect id => exact .disconnect id
  | read count id => exact read_spec c count id
  | readTurn count id => exact .of_receiver (.tryRead count) (readTurn_eq ..) fun hg ↦ hg
  | tryRead count id => exact tryRead_spec c count id
  | peek id =>
    rw [step, ThreadSafeReceiver.peek]
    split
    · exact .same c _
    · exact .receiver .peek fun _ ↦ trivial
  | availableForRead id =>
    rw [step, ThreadSafeReceiver.availableForRead]
    split
    · exact .same c _
    · exact .receiver .availableForRead fun _ ↦ trivial
  | closeInput id => exact closeInput_spec c id
  | write buf id =>
    rw [step, ThreadSafeTransmitter.write]
    split
    · exact .same c _
    · exact .of_transmitter (.tryWrite buf) (writeTurn_eq ..) trivial
  | writeTurn buf id => exact .of_transmitter (.tryWrite buf) (writeTurn_eq ..) trivial
  | tryWrite buf id => exact tryWrite_spec c buf id
  | flush id =>
    rw [step, ThreadSafeTransmitter.flush]
    split
    · exact .same c _
    · exact .transmitter .flush trivial
  | close id => exact close_spec c id
  | conn now draw next => exact conn_spec c _ now draw next
  | sendAck => exact .receiver .ack fun _ ↦ trivial
  | sendHimark now next => exact .receiver (.updateRecvHimark now next) fun _ ↦ trivial
  | send now draw next =>
    rw [step, Transmitter.send_fst]
    exact .transmitter (.getBufferToSend now draw next) trivial
  | packetReceived buf => exact packetReceived_spec c buf

/-! ### No check fails -/

/-- What keeps a channel from failing a check: neither half fails one, and until the peer has
acknowledged the stream the transmitter waits for it. -/
structure Sound (c : Channel m n) : Prop where
  transmitter : ∃ b e, c.transmitter.Checked b e
  receiver : ∃ b e, c.receiver.Checked b e
  waiting : c.receiver.state = .connecting → c.myStreamId ≠ 0 ∧ c.myStreamIdAckedByPeer = false
  unacked : c.myStreamId ≠ 0 → c.myStreamIdAckedByPeer = false →
    c.transmitter.state = .connecting

/-- A new channel is sound. -/
theorem sound_new (m n : LinkBufferSize) : (new m n).Sound where
  transmitter := ⟨0, 0, Transmitter.checked_new m⟩
  receiver := ⟨0, 0, Receiver.checked_new n⟩
  waiting := fun h ↦ nomatch h
  unacked := fun h ↦ absurd rfl h

/-- A handshake packet announces a supported buffer size. -/
theorem peerReceiveBufferSize_le {buf : List UInt8} {h : Handshake}
    (hp : parseHandshake buf = some h) : h.peerReceiveBufferSize ≤ 1024 := by
  unfold parseHandshake at hp
  split at hp
  · cases hp
  dsimp only at hp
  split at hp
  · cases hp
  split at hp
  · cases hp
  next hle =>
  cases hp
  have hle' : ((buf.getD 10 0) &&& 0x0F).toNat ≤ 10 :=
    Nat.not_lt.mp fun hlt ↦ hle (UInt8.lt_iff_toNat_lt.mpr hlt)
  calc 2 ^ ((buf.getD 10 0) &&& 0x0F).toNat ≤ 2 ^ 10 := Nat.pow_le_pow_right (by norm_num) hle'
    _ = 1024 := rfl

private theorem Sound.connect (h : c.Sound) (id : { id : UInt32 // id ≠ 0 }) (draw : UInt32)
    (fn : Option Callback) : Yields (c.connect id draw fn) fun out ↦ out.1.Sound := by
  obtain ⟨b, e, ht⟩ := h.transmitter
  obtain ⟨b', e', hr⟩ := h.receiver
  refine .bind ((ht.step (a := .init id (initialSeq draw)) trivial).of_eq fun t hinit ht' ↦ ?_)
  refine .bind ((hr.init id).mono fun r hr' ↦ ⟨_, rfl, ?_⟩)
  refine ⟨ht', hr'.1, fun _ ↦ ⟨id.2, rfl⟩, fun _ _ ↦ ?_⟩
  rw [Transmitter.step, Transmitter.init_ok] at hinit
  cases hinit
  rfl

private theorem Sound.disconnect (h : c.Sound) (id : UInt32) :
    Yields (c.disconnect id) fun out ↦ out.1.Sound := by
  obtain ⟨b, e, ht⟩ := h.transmitter
  obtain ⟨b', e', hr⟩ := h.receiver
  unfold Channel.disconnect
  split
  · exact ⟨_, rfl, h⟩
  · refine .bind ((ht.step (a := .reset) trivial).mono fun t ht' ↦ ?_)
    refine .bind (hr.reset.mono fun r hr' ↦ ⟨_, rfl, ?_⟩)
    exact ⟨ht', hr'.1, fun hst ↦ (nomatch hr'.2.symm.trans hst), fun hid ↦ absurd rfl hid⟩

private theorem Sound.acked (h : c.Sound) (hid : c.myStreamId ≠ 0)
    (hack : c.myStreamIdAckedByPeer = false) (hst : c.receiver.state ≠ .connecting) {size : Nat}
    (hsize : size ≤ 1024) : (c.acked size).Sound := by
  obtain ⟨b, e, ht⟩ := h.transmitter
  obtain ⟨t, heq, ht'⟩ := ht.step (a := .setConnected size c.myControlBit)
    ⟨h.unacked hid hack, hsize⟩
  cases heq
  exact ⟨ht', h.receiver, fun hc ↦ absurd hc hst, fun _ hno ↦ nomatch hno⟩

private theorem Sound.handshakeConnecting (h : c.Sound) (hst : c.receiver.state = .connecting)
    {hs : Handshake} (hsize : hs.peerReceiveBufferSize ≤ 1024) :
    Yields (c.handshakeConnecting hs) fun out ↦ out.1.Sound := by
  obtain ⟨b, e, ht⟩ := h.transmitter
  obtain ⟨b', e', hr⟩ := h.receiver
  obtain ⟨hid, hack⟩ := h.waiting hst
  unfold Channel.handshakeConnecting
  split
  · exact ⟨_, rfl, h⟩
  split
  · refine .bind ((ht.step (a := .setBroken) trivial).mono fun t ht' ↦ ⟨_, rfl, ?_⟩)
    exact ⟨ht', ⟨b', e', hr.setBroken.1⟩, fun hc ↦ absurd hc hr.setBroken.2,
      fun hid ↦ absurd rfl hid⟩
  · have hemp : c.receiver.empty = true := by
      have hs := hr.spans
      rw [← hr.connecting hst] at hs
      exact hs.empty_iff.mpr rfl
    dsimp only
    rw [if_neg (by rw [hemp]; decide)]
    refine .bind ((hr.setConnected hst _ _).mono fun r hr' ↦ ⟨_, rfl, ?_⟩)
    have hc : ({ c with peerStreamId := hs.peerStreamId, receiver := r } : Channel m n).Sound :=
      ⟨h.transmitter, hr'.1, fun hc ↦ (nomatch hr'.2.symm.trans hc), h.unacked⟩
    have hno : r.state ≠ .connecting := fun hc ↦ nomatch hr'.2.symm.trans hc
    dsimp only
    split
    · have := hc.acked hid hack hno hsize
      exact ⟨this.transmitter, this.receiver, this.waiting, this.unacked⟩
    · exact ⟨hc.transmitter, hc.receiver, hc.waiting, hc.unacked⟩

private theorem Sound.peerReconnected (h : c.Sound) :
    Yields c.peerReconnected fun out ↦ out.1.Sound := by
  obtain ⟨b, e, ht⟩ := h.transmitter
  obtain ⟨b', e', hr⟩ := h.receiver
  unfold Channel.peerReconnected
  split
  · have htx : Yields (breakTransmitter c.transmitter) fun t ↦ ∃ b e, t.Checked b e := by
      unfold breakTransmitter
      split
      · exact ht.step (a := .setBroken) trivial
      · exact ht.step (a := .reset) trivial
    refine .bind (htx.mono fun t ht' ↦ ⟨_, rfl, ?_⟩)
    exact ⟨ht', ⟨b', e', hr.setBroken.1⟩, fun hc ↦ absurd hc hr.setBroken.2,
      fun hid ↦ absurd rfl hid⟩
  · refine .bind ((ht.step (a := .reset) trivial).mono fun t ht' ↦ ?_)
    refine .bind (hr.reset.mono fun r hr' ↦ ⟨_, rfl, ?_⟩)
    exact ⟨ht', hr'.1, fun hst ↦ (nomatch hr'.2.symm.trans hst), fun hid ↦ absurd rfl hid⟩

/-- A handshake packet fails no check, unless it acknowledges the absent stream. -/
theorem Sound.handleHandshakePacket (h : c.Sound) {hs : Handshake}
    (hsize : hs.peerReceiveBufferSize ≤ 1024) (hno : ¬ c.AcksNoStream hs) :
    Yields (c.handleHandshakePacket hs) fun out ↦ out.1.Sound := by
  unfold Channel.handleHandshakePacket
  split
  · exact ⟨_, rfl, h⟩
  next hecho =>
  split
  · next hst => exact h.handshakeConnecting hst hsize
  · next hst =>
    unfold Channel.handshakeConnected
    split
    · exact h.peerReconnected
    next hnew =>
    split
    · next hack =>
      have hid : c.myStreamId ≠ 0 := fun h0 ↦ by
        refine hno ⟨hst, h0, hack.2, hack.1.trans h0, ?_, fun he ↦ hecho ⟨he.1.trans h0.symm, he.2⟩⟩
        by_contra hboth
        rw [not_or] at hboth
        exact hnew ⟨by simpa using hboth.1, fun heq ↦ hboth.2 heq.symm, hack.1.trans h0⟩
      rw [if_neg hid]
      have := h.acked hid hack.2 (by rw [hst]; decide) hsize
      exact ⟨_, rfl, this.transmitter, this.receiver, this.waiting, this.unacked⟩
    · exact ⟨_, rfl, h.transmitter, h.receiver, h.waiting, h.unacked⟩
  · exact ⟨_, rfl, h⟩
  · exact ⟨_, rfl, h⟩

/-- A step that meets the condition fails no check and paves no way for another to fail. -/
theorem Sound.step (h : c.Sound) {a : Act} (hg : c.ChecksHold a) :
    Yields (c.step a) Sound := by
  obtain ⟨b, e, ht⟩ := h.transmitter
  obtain ⟨b', e', hr⟩ := h.receiver
  have hspec := step_spec c a
  revert hspec
  generalize c.step a = out
  intro hspec
  cases hspec with
  | noted => exact ⟨_, rfl, h.transmitter, h.receiver, h.waiting, h.unacked⟩
  | receiver call hcall =>
    refine .map ((hr.step (hcall hg)).mono fun r hr' ↦ ?_)
    exact ⟨h.transmitter, hr'.1, fun hst ↦ h.waiting (hr'.2.symm.trans hst), h.unacked⟩
  | transmitter call hcall =>
    have honce : Transmitter.ConnectsOnce c.transmitter call := by
      cases call <;> first | exact hcall.elim | exact trivial
    refine .map ((ht.step honce).of_eq fun t hstep ht' ↦ ?_)
    exact ⟨ht', h.receiver, h.waiting,
      fun hid hack ↦ (Transmitter.step_connecting hcall (h.unacked hid hack) hstep).1⟩
  | connect id draw fn => exact .map (h.connect id draw fn)
  | disconnect id => exact .map (h.disconnect id)
  | handshake buf hs _ _ hp hno =>
    exact .map (h.handleHandshakePacket (peerReceiveBufferSize_le hp) (hno hg))

end

private theorem sound_of_reachable {c : Channel m n} (hr : Reachable step ChecksHold (new m n) c) :
    c.Sound := by
  refine hr.invariant Sound (sound_new m n) fun c a c' h hg hstep ↦ ?_
  obtain ⟨c1, hc1, hs⟩ := h.step hg
  obtain rfl : c1 = c' := Except.ok.inj (hc1.symm.trans hstep)
  exact hs

/-- In a run of a channel whose steps all meet the condition, no step fails a check: not the
packets, whatever their bytes, and not the calls made after them. -/
theorem no_check_fails {c : Channel m n} (hr : Reachable step ChecksHold (new m n) c) {a : Act}
    (hg : c.ChecksHold a) : ∃ c', c.step a = .ok c' := by
  obtain ⟨c', hc', -⟩ := (sound_of_reachable hr).step hg
  exact ⟨c', hc'⟩

/-- A connection with unread input, and a read. -/
theorem no_check_fails_after_data : ∃ c : Channel 2 2, Reachable step ChecksHold (new 2 2) c ∧
    c.receiver.inRing.empty = false ∧ c.ChecksHold (.tryRead 1 7) ∧
    ∃ c', c.step (.tryRead 1 7) = .ok c' := by
  obtain ⟨c, hr, hc⟩ := Reachable.of_test step ChecksHold (new 2 2)
    [.connect ⟨7, by decide⟩ 0 none,
      .packetReceived [0x30, 0, 0, 0, 0, 9, 0, 0, 0, 7, 0x82],
      .packetReceived [0x80, 0, 5, 6]]
    (fun c ↦ c.receiver.inRing.empty = false ∧ c.ChecksHold (.tryRead 1 7))
    (by decide) (by decide)
  rw [decide_eq_true_iff] at hc
  exact ⟨c, hr, hc.1, hc.2, no_check_fails hr hc.2⟩

/-- Packets of a peer can make a check fail in three ways. A final packet fills the gap below
data that came before it, and is read. A new connection is read with a current buffer of
the old one. A handshake acknowledges stream zero after a connection was given up half
open. -/
theorem checks_fail :
    execute step (new 2 2)
      [.connect ⟨7, by decide⟩ 0 none,
        .packetReceived [0x30, 0, 0, 0, 0, 9, 0, 0, 0, 7, 0x82],
        .packetReceived [0x80, 1, 8], .packetReceived [0x90, 0], .tryRead 1 7] =
      .error .finNotLast ∧
    execute step (new 2 2)
      [.connect ⟨7, by decide⟩ 0 none,
        .packetReceived [0x30, 0, 0, 0, 0, 9, 0, 0, 0, 7, 0x82],
        .packetReceived [0x80, 0, 7, 8, 9], .tryRead 1 7,
        .connect ⟨8, by decide⟩ 0 none,
        .packetReceived [0x30, 0, 0, 0, 0, 9, 0, 0, 0, 8, 0x82], .tryRead 5 8] =
      .error .ringPop ∧
    execute step (new 2 2)
      [.connect ⟨7, by decide⟩ 0 none,
        .packetReceived [0x30, 0, 0, 0, 0, 9, 0, 0, 0, 0, 0x82],
        .packetReceived [0x80, 0, 7, 8, 9],
        .packetReceived [0x30, 0, 0, 0, 0, 10, 0, 0, 0, 0, 0x82],
        .packetReceived [0x30, 0, 0, 0, 0, 10, 0, 0, 0, 0, 0x02]] =
      .error .ackOfNoStream :=
  ⟨rfl, rfl, rfl⟩

/-! ### The sender's turn -/

private theorem sendBurst_reachable {c0 : Channel m n} (fuel : Nat) :
    ∀ {c : Channel m n} (times : Nat → Uptime × Nat) (next : Nat),
      Reachable step ChecksHold c0 c →
        Reachable step ChecksHold c0 (sendBurst fuel c times next).1 := by
  induction fuel with
  | zero => exact fun _ _ hr ↦ hr
  | succ fuel ih =>
    intro c times next hr
    have hsend : Reachable step ChecksHold c0
        { c with transmitter := (c.transmitter.send (times fuel).1 (times fuel).2 next).1 } :=
      hr.next (a := .send (times fuel).1 (times fuel).2 next) trivial rfl
    rw [sendBurst]
    revert hsend
    rcases c.transmitter.send (times fuel).1 (times fuel).2 next with ⟨t, - | ⟨x, xs⟩, next'⟩
    · exact fun h ↦ h
    · exact fun h ↦ ih times next' h

/-- An undisturbed turn of the sender is a run of the steps it is made of. -/
theorem trySend_reachable {c0 c : Channel m n} (hr : Reachable step ChecksHold c0 c) (now : Uptime)
    (draw : Nat) (himarkNow : Uptime) (times : Nat → Uptime × Nat) :
    Reachable step ChecksHold c0 (c.trySend now draw himarkNow times).1 := by
  have hconn : Reachable step ChecksHold c0 (c.conn now draw longMax).1 :=
    hr.next (a := .conn now draw longMax) trivial rfl
  unfold trySend
  revert hconn
  rcases c.conn now draw longMax with ⟨c1, handshake, next⟩
  intro hconn
  dsimp only
  split
  · exact hconn
  · have hack : Reachable step ChecksHold c0 { c1 with receiver := c1.receiver.ack.1 } :=
      hconn.next (a := Act.sendAck) trivial rfl
    exact sendBurst_reachable 8 times _
      (hack.next (a := Act.sendHimark himarkNow next) trivial rfl)

end Channel

end RooTransport.Link
