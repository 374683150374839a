import RooTransport.Link.ThreadSafeTransmitter

/-!
# The channel

`link/internal/thread_safe/channel.h` and `channel.cpp`: one end of a link, made of a
transmitter, a receiver and the handshake that connects them to those of the peer. What
`channel.cpp` does while it holds `handshake_mutex_` is one step; the locks of transmitter
and receiver are inside that step. Clock readings and random draws are arguments.
Disconnect callbacks are named by numbers, and a function that runs one hands its name
back. Log messages, the notifications of condition variables, the sender thread and the
waiting in `awaitConnected` are left out.
-/

namespace RooTransport.Link

open RooTransport.Base

/-- `link_status.h:5–18`. -/
inductive LinkStatus where
  | idle
  | connecting
  | connected
  | broken
  deriving DecidableEq, Repr

/-- The name of a disconnect callback. -/
abbrev Callback := Nat

/-- `roo_io::StoreBeU32`. -/
def storeBeU32 (x : UInt32) : List UInt8 := beBytes 4 x.toNat

/-- `roo_io::LoadBeU32`. -/
def loadBeU32 (bs : List UInt8) : UInt32 := UInt32.ofNat (beNat (bs.take 4))

/-- What a handshake packet says, as `handleHandshakePacket` is told. -/
structure Handshake where
  peerSeqNum : BitVec 16
  peerStreamId : UInt32
  ackStreamId : UInt32
  wantAck : Bool
  peerReceiveBufferSize : Nat
  deriving DecidableEq, Repr

/-- `channel.cpp:507–518`: nothing for a malformed packet. -/
def parseHandshake (buf : List UInt8) : Option Handshake :=
  if buf.length ≠ 11 then none
  else
    let lastByte : UInt8 := buf.getD 10 0
    if lastByte &&& 0x70 ≠ 0 then none
    else
      let peerReceiveBufferSizeLog2 := lastByte &&& 0x0F
      if 10 < peerReceiveBufferSizeLog2 then none
      else some {
        peerSeqNum := getPacketSeq (loadBeU16 buf)
        peerStreamId := loadBeU32 (buf.drop 2)
        ackStreamId := loadBeU32 (buf.drop 6)
        wantAck := lastByte &&& 0x80 != 0
        peerReceiveBufferSize := 2 ^ peerReceiveBufferSizeLog2.toNat }

/-- `channel.cpp:326–334`, the eleven bytes of a handshake packet. -/
def formatHandshake (front : SeqNum) (myStreamId peerStreamId : UInt32) (weNeedAck : Bool)
    (bufferSize : LinkBufferSize) : List UInt8 :=
  storeBeU16 (formatPacketHeader front .handshake false) ++ storeBeU32 myStreamId ++
    storeBeU32 peerStreamId ++
    [(if weNeedAck then 0x80 else 0x00) ||| UInt8.ofNat bufferSize.val]

/-- A stored word takes four bytes. -/
@[simp] theorem length_storeBeU32 (x : UInt32) : (storeBeU32 x).length = 4 := length_beBytes 4 _

/-- Loading undoes storing. -/
theorem loadBeU32_store (x : UInt32) (rest : List UInt8) :
    loadBeU32 (storeBeU32 x ++ rest) = x := by
  have ht : (storeBeU32 x ++ rest).take 4 = beBytes 4 x.toNat := by
    rw [List.take_append_of_le_length (by simp), List.take_of_length_le (by simp), storeBeU32]
  rw [loadBeU32, ht, beNat_beBytes]
  apply UInt32.toNat_inj.mp
  have := x.toNat_lt
  rw [UInt32.toNat_ofNat']
  omega

private theorem lastByte_format (weNeedAck : Bool) (n : LinkBufferSize) :
    let x : UInt8 := (if weNeedAck then 0x80 else 0x00) ||| UInt8.ofNat n.val
    x &&& 0x70 = 0 ∧ (x &&& 0x0F).toNat = n.val ∧ (x &&& 0x80 != 0) = weNeedAck := by
  revert n weNeedAck
  decide

/-- What was put into a handshake packet is read back from it, the sequence number but for its
high bits. -/
theorem parseHandshake_format (front : SeqNum) (myStreamId peerStreamId : UInt32)
    (weNeedAck : Bool) (n : LinkBufferSize) :
    parseHandshake (formatHandshake front myStreamId peerStreamId weNeedAck n) = some {
      peerSeqNum := front.raw &&& 0x0FFF#16
      peerStreamId := myStreamId
      ackStreamId := peerStreamId
      wantAck := weNeedAck
      peerReceiveBufferSize := 2 ^ n.val } := by
  obtain ⟨hclean, hlog, hwant⟩ := lastByte_format weNeedAck n
  have hlen : (storeBeU16 (formatPacketHeader front .handshake false)).length = 2 :=
    length_beBytes 2 _
  have hget : (formatHandshake front myStreamId peerStreamId weNeedAck n).getD 10 0 =
      (if weNeedAck then 0x80 else 0x00) ||| UInt8.ofNat n.val := by
    rw [formatHandshake, List.getD_eq_getElem?_getD, List.getElem?_append_right (by simp [hlen])]
    simp [hlen]
  have hpeer : loadBeU32 ((formatHandshake front myStreamId peerStreamId weNeedAck n).drop 6) =
      peerStreamId := by
    rw [formatHandshake, List.append_assoc, List.drop_append_of_le_length (by simp [hlen]),
      List.drop_of_length_le (by simp [hlen]), List.nil_append, loadBeU32_store]
  have hself : loadBeU32 ((formatHandshake front myStreamId peerStreamId weNeedAck n).drop 2) =
      myStreamId := by
    rw [formatHandshake, List.append_assoc, List.append_assoc, drop_storeBeU16, loadBeU32_store]
  have hheader : loadBeU16 (formatHandshake front myStreamId peerStreamId weNeedAck n) =
      formatPacketHeader front .handshake false := by
    rw [formatHandshake, List.append_assoc, List.append_assoc, loadBeU16_store]
  unfold parseHandshake
  rw [if_neg (by simp [formatHandshake, hlen])]
  dsimp only
  rw [hget, if_neg (not_not.mpr hclean), if_neg, hheader, getPacketSeq_format, hself, hpeer, hwant,
    hlog]
  rw [UInt8.lt_iff_toNat_lt, hlog]
  have := n.isLt
  simp only [UInt8.reduceToNat]
  omega

/-- `channel.h:35–249`. -/
structure Channel (m n : LinkBufferSize) where
  transmitter : Transmitter m
  receiver : Receiver n
  myStreamId : UInt32
  myStreamIdAckedByPeer : Bool
  peerStreamId : UInt32
  needsHandshakeAck : Bool
  successiveHandshakeRetries : UInt32
  nextScheduledHandshakeUpdate : Uptime
  disconnectFn : Option Callback

namespace Channel

variable {m n : LinkBufferSize}

/-- `channel.cpp:50–69`. -/
def new (m n : LinkBufferSize) : Channel m n where
  transmitter := .new m
  receiver := .new n
  myStreamId := 0
  myStreamIdAckedByPeer := false
  peerStreamId := 0
  needsHandshakeAck := false
  successiveHandshakeRetries := 0
  nextScheduledHandshakeUpdate := 0
  disconnectFn := none

/-- `channel.h:194`. -/
def myControlBit (c : Channel m n) : Bool := c.peerStreamId < c.myStreamId

/-- `channel.cpp:172`, the first sequence number of a stream. -/
def initialSeq (draw : UInt32) : SeqNum := ⟨BitVec.ofNat 16 (draw.toNat % 0x0FFF)⟩

/-- `channel.cpp:158–186`, and the callback of the stream that was superseded. The stream id
is the first random draw that is not zero. -/
def connect (c : Channel m n) (myStreamId : { id : UInt32 // id ≠ 0 }) (draw : UInt32)
    (disconnectFn : Option Callback) : Except Check (Channel m n × Option Callback) := do
  let transmitter ← c.transmitter.init myStreamId (initialSeq draw)
  let receiver ← c.receiver.init myStreamId
  .ok ({ transmitter, receiver, disconnectFn
         myStreamId
         myStreamIdAckedByPeer := false
         peerStreamId := 0
         needsHandshakeAck := false
         successiveHandshakeRetries := 0
         nextScheduledHandshakeUpdate := 0 }, c.disconnectFn)

/-- `channel.cpp:188–208`, and the callback of the stream. -/
def disconnect (c : Channel m n) (myStreamId : UInt32) :
    Except Check (Channel m n × Option Callback) :=
  if c.myStreamId ≠ myStreamId then .ok (c, none)
  else do
    let transmitter ← c.transmitter.reset
    let receiver ← c.receiver.reset
    .ok ({ c with
      transmitter, receiver
      myStreamId := 0
      myStreamIdAckedByPeer := false
      peerStreamId := 0
      disconnectFn := none }, c.disconnectFn)

/-- `channel.cpp:215–221`. -/
def getLinkStatus (c : Channel m n) (streamId : UInt32) : LinkStatus :=
  if streamId = 0 then .idle
  else if c.myStreamId ≠ streamId then .broken
  else if c.peerStreamId = 0 ∨ c.myStreamIdAckedByPeer = false then .connecting
  else .connected

/-! ### Handshakes -/

/-- `channel.cpp:324–334`, the packet and the flag it clears. -/
def sendHandshake (c : Channel m n) : Channel m n × List UInt8 :=
  ({ c with needsHandshakeAck := false },
    formatHandshake c.transmitter.outRing.begin_ c.myStreamId c.peerStreamId
      (c.transmitter.state ≠ .connected) n)

/-- `channel.cpp:297–345`: the packet, if one is due, and the updated `next_send_micros`. -/
def conn (c : Channel m n) (now : Uptime) (draw nextSendMicros : Nat) :
    Channel m n × List UInt8 × Nat :=
  match c.transmitter.state with
  | .idle => (c, [], nextSendMicros)
  | .broken => (c, [], nextSendMicros)
  | .connected =>
    if c.needsHandshakeAck = false then (c, [], nextSendMicros)
    else (c.sendHandshake.1, c.sendHandshake.2, nextSendMicros)
  | .connecting =>
    if now < c.nextScheduledHandshakeUpdate then
      (c, [], min nextSendMicros (c.nextScheduledHandshakeUpdate - now))
    else
      let delay := retryBackoffMicros randomIntegerMax 1000 1000000
        c.successiveHandshakeRetries.toNat draw
      let c := { c with
        successiveHandshakeRetries := c.successiveHandshakeRetries + 1
        nextScheduledHandshakeUpdate := now + delay }
      (c.sendHandshake.1, c.sendHandshake.2, min nextSendMicros delay)

/-- The transmitter half of a handshake that acknowledges the current stream. -/
def acked (c : Channel m n) (peerReceiveBufferSize : Nat) : Channel m n :=
  { c with
    myStreamIdAckedByPeer := true
    transmitter := c.transmitter.setConnected peerReceiveBufferSize c.myControlBit }

/-- `channel.cpp:376–418`, a handshake for a receiver that waits for one. -/
def handshakeConnecting (c : Channel m n) (h : Handshake) :
    Except Check (Channel m n × Bool × Option Callback) :=
  if h.ackStreamId ≠ 0 ∧ h.ackStreamId ≠ c.myStreamId then .ok (c, false, none)
  else if h.peerStreamId = c.myStreamId then do
    -- Both ends have drawn the same stream id.
    let transmitter ← c.transmitter.setBroken
    .ok ({ c with
      transmitter
      receiver := c.receiver.setBroken
      myStreamId := 0
      disconnectFn := none }, false, c.disconnectFn)
  else
    let c := { c with peerStreamId := h.peerStreamId }
    if c.receiver.empty = false then .error .handshakeNotEmpty
    else do
      let receiver ← c.receiver.setConnected ⟨h.peerSeqNum⟩ c.myControlBit
      let c := { c with receiver }
      let c := if h.ackStreamId = c.myStreamId then c.acked h.peerReceiveBufferSize else c
      .ok ({ c with needsHandshakeAck := h.wantAck }, true, none)

/-- `channel.cpp:433–441`, what becomes of the transmitter when the connection breaks. -/
def breakTransmitter (t : Transmitter m) : Except Check (Transmitter m) :=
  if t.state = .connected then t.setBroken else t.reset

/-- `channel.cpp:422–456`, the peer has opened another stream. -/
def peerReconnected (c : Channel m n) : Except Check (Channel m n × Bool × Option Callback) :=
  if c.receiver.done = false then do
    let transmitter ← breakTransmitter c.transmitter
    .ok ({ c with
      transmitter
      receiver := c.receiver.setBroken
      myStreamId := 0
      disconnectFn := none }, false, c.disconnectFn)
  else do
    let transmitter ← c.transmitter.reset
    let receiver ← c.receiver.reset
    .ok ({ c with transmitter, receiver, myStreamId := 0, disconnectFn := none }, false,
      c.disconnectFn)

/-- `channel.cpp:419–468`, a handshake for a receiver that had one before. -/
def handshakeConnected (c : Channel m n) (h : Handshake) :
    Except Check (Channel m n × Bool × Option Callback) :=
  if h.wantAck ∧ c.peerStreamId ≠ h.peerStreamId ∧ h.ackStreamId = 0 then c.peerReconnected
  else if h.ackStreamId = c.myStreamId ∧ c.myStreamIdAckedByPeer = false then
    if c.myStreamId = 0 then .error .ackOfNoStream
    else .ok ({ c.acked h.peerReceiveBufferSize with needsHandshakeAck := h.wantAck }, true, none)
  else .ok ({ c with needsHandshakeAck := h.wantAck }, false, none)

/-- `channel.cpp:347–485`: also whether there is something to send, and the callback to run. -/
def handleHandshakePacket (c : Channel m n) (h : Handshake) :
    Except Check (Channel m n × Bool × Option Callback) :=
  if h.peerStreamId = c.myStreamId ∧ h.peerSeqNum = c.transmitter.outRing.begin_.raw then
    -- An echo of our own packet.
    .ok (c, false, none)
  else
    match c.receiver.state with
    | .connecting => c.handshakeConnecting h
    | .connected => c.handshakeConnected h
    | .idle => .ok (c, false, none)
    | .broken => .ok (c, false, none)

/-! ### Packets -/

/-- `channel.cpp:487–538`. -/
def packetReceived (c : Channel m n) (buf : List UInt8) :
    Except Check (Channel m n × Bool × Option Callback) :=
  if buf.length < 2 ∨ 250 < buf.length then .ok (c, false, none)
  else
    let header := loadBeU16 buf
    let controlBit := getPacketControlBit header
    match getPacketType header with
    | some .dataAck => do
      let (transmitter, ready) ← c.transmitter.ack controlBit (getPacketSeq header) (buf.drop 2)
      .ok ({ c with transmitter }, ready, none)
    | some .flowControl =>
      if buf.length ≠ 2 then .ok (c, false, none)
      else
        let transmitter := (c.transmitter.updateRecvHimark controlBit (getPacketSeq header)).1
        .ok ({ c with transmitter }, false, none)
    | some .handshake =>
      match parseHandshake buf with
      | none => .ok (c, false, none)
      | some h => c.handleHandshakePacket h
    | some .data =>
      if buf.length = 2 then .ok (c, false, none)
      else do
        let (receiver, ready, _) ←
          c.receiver.handleDataPacket controlBit (getPacketSeq header) (buf.drop 2) false
        .ok ({ c with receiver }, ready, none)
    | some .fin => do
      let (receiver, ready, _) ←
        c.receiver.handleDataPacket controlBit (getPacketSeq header) (buf.drop 2) true
      .ok ({ c with receiver }, ready, none)
    | none => .ok (c, false, none)

/-- `std::numeric_limits<long>::max()` with 32 bits. -/
def longMax : Nat := 2 ^ 31 - 1

/-- `channel.cpp:267–272`, the burst of data packets, at most `fuel` of them. Each has its own
clock reading and random draw. -/
def sendBurst : Nat → Channel m n → (Nat → Uptime × Nat) → Nat →
    Channel m n × List (List UInt8) × Nat
  | 0, c, _, next => (c, [], next)
  | fuel + 1, c, times, next =>
    match c.transmitter.send (times fuel).1 (times fuel).2 next with
    | (transmitter, [], next) => ({ c with transmitter }, [], next)
    | (transmitter, packet, next) =>
      let (c, packets, next) := sendBurst fuel { c with transmitter } times next
      (c, packet :: packets, next)

/-- `channel.cpp:241–274`, a turn of the sender that nothing comes between: the packets it
sends and when it is due again. -/
def trySend (c : Channel m n) (now : Uptime) (draw : Nat) (himarkNow : Uptime)
    (times : Nat → Uptime × Nat) : Channel m n × List (List UInt8) × Nat :=
  let (c, handshake, next) := c.conn now draw longMax
  if c.transmitter.state = .connecting then (c, [handshake].filter (· ≠ []), next)
  else
    let (receiver, ack) := c.receiver.ack
    let (receiver, himark, next) := receiver.updateRecvHimark himarkNow next
    let (c, packets, next) := sendBurst 8 { c with receiver } times next
    (c, [handshake, ack, himark].filter (· ≠ []) ++ packets, next)

end Channel

end RooTransport.Link
