import RooTransport.Link.Receiver

/-!
# The transmitter

`link/internal/transmitter.h` and `transmitter.cpp`: the outgoing half of a link. The
current output buffer is a pointer into the slot array, kept as a slot index. A packet
handed out for sending is named by its position in the window, whose slot is the buffer
the source returns a pointer to. Clock readings and random draws are arguments.
Debug-only checks and log messages are left out.
-/

namespace RooTransport.Link

open RooTransport.Base

/-- `transmitter.h:12–167`. -/
structure Transmitter (n : LinkBufferSize) where
  myStreamId : UInt32
  state : ConnState
  endOfStream : Bool
  outBuffers : Slots n OutBuffer
  currentOutBuffer : Option (Fin (2 ^ n.val))
  outRing : RingBuffer n
  nextToSend : SeqNum
  recvHimark : SeqNum
  hasPendingEof : Bool
  packetsSent : BitVec 32
  packetsDelivered : BitVec 32
  peerReceiveBufferSize : Nat
  controlBit : Bool

namespace Transmitter

variable {n : LinkBufferSize}

/-- `transmitter.cpp:9–21`. -/
def new (n : LinkBufferSize) : Transmitter n where
  myStreamId := 0
  state := .idle
  endOfStream := false
  outBuffers := fun _ ↦ OutBuffer.new
  currentOutBuffer := none
  outRing := RingBuffer.new n ⟨0⟩
  nextToSend := ⟨0⟩
  recvHimark := (SeqNum.mk 0).add (2 ^ n.val)
  hasPendingEof := false
  packetsSent := 0
  packetsDelivered := 0
  peerReceiveBufferSize := 0
  controlBit := false

/-- `transmitter.h:121–123`. -/
def getOutBuffer (t : Transmitter n) (seq : SeqNum) : OutBuffer :=
  t.outBuffers (t.outRing.offsetFor seq)

/-- Replace the buffer of a position. -/
def setOutBuffer (t : Transmitter n) (seq : SeqNum) (b : OutBuffer) : Transmitter n :=
  { t with outBuffers := Function.update t.outBuffers (t.outRing.offsetFor seq) b }

/-- `transmitter.cpp:31–43`: the buffer to write to, a fresh one if none is current; nothing
when credit or free slots have run out. -/
def provideBuffer (t : Transmitter n) :
    Except Check (Option (Fin (2 ^ n.val) × Transmitter n)) :=
  if ¬ t.recvHimark.Ge t.outRing.end_ then .error .himarkBehind
  else
    match t.currentOutBuffer with
    | some i => .ok (some (i, t))
    | none =>
      if t.recvHimark = t.outRing.end_ then .ok none
      else if t.outRing.slotsFree = 0 then .ok none
      else
        match t.outRing.push with
        | .error c => .error c
        | .ok (pos, ring) =>
          let i := ring.offsetFor pos
          .ok (some (i, { t with
            outRing := ring
            currentOutBuffer := some i
            outBuffers := Function.update t.outBuffers i (OutBuffer.init pos t.controlBit) }))

/-- `transmitter.cpp:44–51`: write into the current buffer. Also the number of bytes taken
and whether the buffer is complete. -/
def fill (t : Transmitter n) (i : Fin (2 ^ n.val)) (buf : List UInt8) :
    Except Check (Transmitter n × Nat × Bool) :=
  match (t.outBuffers i).write buf with
  | .error c => .error c
  | .ok (written, b) =>
    .ok ({ t with
      outBuffers := Function.update t.outBuffers i b
      currentOutBuffer := if b.finished then none else t.currentOutBuffer }, written, b.finished)

/-- `transmitter.cpp:30–53`, the `do … while (count > 0)` loop for at most `fuel` rounds.
Gives the number of bytes taken and whether a packet was completed. -/
def tryWriteLoop : Nat → Transmitter n → List UInt8 → Except Check (Transmitter n × Nat × Bool)
  | 0, t, _ => .ok (t, 0, false)
  | fuel + 1, t, buf =>
    match t.provideBuffer with
    | .error c => .error c
    | .ok none => .ok (t, 0, false)
    | .ok (some (i, t)) =>
      match t.fill i buf with
      | .error c => .error c
      | .ok (t, written, ready) =>
        if written < buf.length then
          match tryWriteLoop fuel t (buf.drop written) with
          | .error c => .error c
          | .ok (t, more, ready') => .ok (t, written + more, ready || ready')
        else .ok (t, written, ready)

/-- `transmitter.cpp:23–55`. Every round but the first takes at least one byte, which
bounds their number. -/
def tryWrite (t : Transmitter n) (buf : List UInt8) : Except Check (Transmitter n × Nat × Bool) :=
  if buf.length = 0 then .ok (t, 0, false)
  else if t.endOfStream then .ok (t, 0, false)
  else if t.state = .idle ∨ t.state = .broken then .ok (t, 0, false)
  else tryWriteLoop (buf.length + 1) t buf

/-- `transmitter.cpp:57–63`. -/
def flush (t : Transmitter n) : Transmitter n × Bool :=
  match t.currentOutBuffer with
  | some i => ({ t with outBuffers := Function.update t.outBuffers i (t.outBuffers i).flush }, true)
  | none => (t, false)

/-- `transmitter.cpp:65`. -/
def hasPendingData (t : Transmitter n) : Bool := !t.outRing.empty

/-- `transmitter.cpp:67–73`. -/
def addEosPacket (t : Transmitter n) : Except Check (Transmitter n) :=
  match t.outRing.push with
  | .error c => .error c
  | .ok (pos, ring) => .ok { t with
      outRing := ring
      outBuffers := Function.update t.outBuffers (ring.offsetFor pos)
        (OutBuffer.init pos t.controlBit).markFinal.finish }

/-- `transmitter.cpp:75–89`. -/
def close (t : Transmitter n) : Except Check (Transmitter n) :=
  let t := if t.state = .broken then { t with state := .idle } else t
  if t.endOfStream = true ∨ t.state = .idle then .ok t
  else
    let t := t.flush.1
    if t.outRing.slotsFree = 0 then .ok { t with hasPendingEof := true, endOfStream := true }
    else
      match t.addEosPacket with
      | .error c => .error c
      | .ok t => .ok { t with endOfStream := true }

/-- `transmitter.h:78–84`. -/
def setConnected (t : Transmitter n) (peerReceiveBufferSize : Nat) (controlBit : Bool) :
    Transmitter n :=
  { t with
    state := .connected
    peerReceiveBufferSize := peerReceiveBufferSize
    controlBit := controlBit
    recvHimark := t.outRing.begin_.add peerReceiveBufferSize }

/-- `transmitter.cpp:91–96`. -/
def setBroken (t : Transmitter n) : Except Check (Transmitter n) :=
  match t.outRing.popAll with
  | .error c => .error c
  | .ok ring => .ok { t with outRing := ring, state := .broken }

/-- `transmitter.cpp:98–105`. -/
def availableForWrite (t : Transmitter n) : Nat :=
  if t.endOfStream = true ∨ t.state = .idle ∨ t.state = .broken then 0 else t.outRing.slotsFree

/-- `transmitter.cpp:136–159`: the scan for the earliest buffer to (re)send, from `pos` on.
`toSend` and `minSendTime` hold the best candidate so far. -/
def scan (t : Transmitter n) : Nat → SeqNum → SeqNum → Uptime → SeqNum × Uptime
  | 0, _, toSend, minSendTime => (toSend, minSendTime)
  | fuel + 1, pos, toSend, minSendTime =>
    if pos < t.outRing.end_ ∧ pos < t.recvHimark then
      let buf := t.getOutBuffer pos
      if buf.acked then t.scan fuel pos.next toSend minSendTime
      else if buf.flushed = false then (toSend, minSendTime)
      else if buf.finished = false ∨ buf.expiration = 0 then (pos, 0)
      else if buf.expiration < minSendTime then t.scan fuel pos.next pos buf.expiration
      else t.scan fuel pos.next toSend minSendTime
    else (toSend, minSendTime)

/-- `buf.finish()` unless it is finished already. -/
def finishBuffer (b : OutBuffer) : OutBuffer := if b.finished then b else b.finish

/-- Hand out the buffer of `pos`, as both exits of `getBufferToSend` do. -/
def handOut (t : Transmitter n) (pos : SeqNum) (b : OutBuffer) (now : Uptime) (draw : Nat) :
    Transmitter n :=
  { t.setOutBuffer pos (b.markSent now draw) with
    nextToSend := pos.next
    packetsSent := t.packetsSent + 1 }

/-- `transmitter.cpp:119–131`, the attempt to send the next buffer in sequence. It may
finish that buffer without sending it. -/
def sendNext (t : Transmitter n) (now : Uptime) (draw : Nat) : Transmitter n × Option SeqNum :=
  if t.outRing.contains t.nextToSend then
    let buf := t.getOutBuffer t.nextToSend
    if buf.acked = false ∧ buf.flushed = true then
      let buf := finishBuffer buf
      if buf.sendCounter = 0 then
        (t.handOut t.nextToSend buf now draw, some t.nextToSend)
      else (t.setOutBuffer t.nextToSend buf, none)
    else (t, none)
  else (t, none)

/-- `transmitter.cpp:132–193`, the fall-back to the earliest due buffer. -/
def sendEarliest (t : Transmitter n) (now : Uptime) (draw : Nat) (nextSendMicros : Nat) :
    Transmitter n × Option SeqNum × Nat :=
  let (toSend, minSendTime) :=
    t.scan t.outRing.slotsUsed t.outRing.begin_ t.outRing.end_ uptimeMax
  if t.outRing.contains toSend then
    if now < minSendTime then (t, none, min nextSendMicros (minSendTime - now))
    else (t.handOut toSend (finishBuffer (t.getOutBuffer toSend)) now draw, some toSend, 0)
  -- Auto-flush: a lone buffer that is still open is closed and sent.
  else if t.outRing.slotsUsed ≠ 1 ∨ t.outRing.begin_.Ge t.recvHimark then
    (t, none, nextSendMicros)
  else
    let buf := t.getOutBuffer t.outRing.begin_
    if buf.finished then (t, none, nextSendMicros)
    else (t.handOut t.outRing.begin_ buf.finish now draw, some t.outRing.begin_, 0)

/-- `transmitter.cpp:116–194`: the position whose buffer is to be sent, and the updated
`next_send_micros`. -/
def getBufferToSend (t : Transmitter n) (now : Uptime) (draw : Nat) (nextSendMicros : Nat) :
    Transmitter n × Option SeqNum × Nat :=
  if t.state ≠ .connected then (t, none, nextSendMicros)
  else
    match t.sendNext now draw with
    | (t, some pos) => (t, some pos, 0)
    | (t, none) => t.sendEarliest now draw nextSendMicros

/-- `transmitter.cpp:107–114`: the bytes of the packet to send, none if there is none. -/
def send (t : Transmitter n) (now : Uptime) (draw : Nat) (nextSendMicros : Nat) :
    Transmitter n × List UInt8 × Nat :=
  match t.getBufferToSend now draw nextSendMicros with
  | (t, none, next) => (t, [], next)
  | (t, some pos, next) => (t, (t.getOutBuffer pos).data, next)

/-- `transmitter.cpp:196–205`. -/
def reset (t : Transmitter n) : Except Check (Transmitter n) :=
  match t.outRing.popAll with
  | .error c => .error c
  | .ok ring => .ok { t with
      outRing := ring
      endOfStream := false
      myStreamId := 0
      state := .idle
      currentOutBuffer := none
      hasPendingEof := false }

/-- `transmitter.cpp:207–220`. The control bit keeps its value from before. -/
def init (t : Transmitter n) (myStreamId : UInt32) (newStart : SeqNum) :
    Except Check (Transmitter n) :=
  match t.outRing.popAll with
  | .error c => .error c
  | .ok ring =>
    match ring.reset newStart with
    | .error c => .error c
    | .ok ring => .ok { t with
        myStreamId := myStreamId
        state := .connecting
        endOfStream := false
        outRing := ring
        recvHimark := ring.begin_
        nextToSend := ring.begin_
        currentOutBuffer := none
        hasPendingEof := false }

/-- `transmitter.cpp:241–249`: drop the packets below an acknowledged position, for at most
`fuel` rounds. -/
def popAcked : Nat → Transmitter n → SeqNum → Except Check (Transmitter n)
  | 0, t, _ => .ok t
  | fuel + 1, t, seq =>
    if t.outRing.begin_ < seq ∧ t.outRing.empty = false then
      match t.outRing.pop with
      | .error c => .error c
      | .ok (_, ring) =>
        let t := { t with outRing := ring, packetsDelivered := t.packetsDelivered + 1 }
        if t.hasPendingEof then
          match t.addEosPacket with
          | .error c => .error c
          | .ok t => popAcked fuel { t with hasPendingEof := false } seq
        else popAcked fuel t seq
    else .ok t

/-- `transmitter.cpp:257–270`: the skip-acknowledgements, one bit a position from `outPos`
on. Also the last position marked. -/
def markAcked : List Bool → Transmitter n → SeqNum → SeqNum → Transmitter n × SeqNum
  | [], t, _, lastAcked => (t, lastAcked)
  | bit :: bits, t, outPos, lastAcked =>
    if t.outRing.contains outPos ∧ bit then
      markAcked bits (t.setOutBuffer outPos (t.getOutBuffer outPos).ack) outPos.next outPos
    else markAcked bits t outPos.next lastAcked

/-- `transmitter.cpp:281–292`: hurry packets before `lastAcked` that were sent only once.
Gives whether there was one; `updated` says that `next_to_send_` was moved already. -/
def rushLoop : Nat → Transmitter n → SeqNum → SeqNum → Bool → Except Check (Transmitter n × Bool)
  | 0, t, _, _, updated => .ok (t, updated)
  | fuel + 1, t, pos, lastAcked, updated =>
    if pos = lastAcked then .ok (t, updated)
    else
      let buf := t.getOutBuffer pos
      if buf.acked = false ∧ buf.sendCounter = 1 then
        match buf.rush with
        | .error c => .error c
        | .ok buf =>
          let t := t.setOutBuffer pos buf
          rushLoop fuel (if updated then t else { t with nextToSend := pos }) pos.next lastAcked
            true
      else rushLoop fuel t pos.next lastAcked updated

/-- `transmitter.cpp:222–295`. -/
def ack (t : Transmitter n) (controlBit : Bool) (seqId : BitVec 16) (ackBitmap : List UInt8) :
    Except Check (Transmitter n × Bool) :=
  if t.state ≠ .connected then .ok (t, false)
  else if controlBit = t.controlBit then .ok (t, false)
  else
    let seq := t.outRing.restorePosHighBits seqId 12
    if seq.Gt t.outRing.end_ then .ok (t, false)
    else
      match popAcked t.outRing.slotsUsed t seq with
      | .error c => .error c
      | .ok t =>
        if t.outRing.empty then
          if t.endOfStream then
            match t.reset with
            | .error c => .error c
            | .ok t => .ok (t, false)
          else .ok (t, false)
        else
          let (t, lastAcked) := markAcked (ackBitmap.flatMap bitsMsb) t
            (t.outRing.begin_.add 1) (t.outRing.begin_.add (-1))
          if t.outRing.contains lastAcked then
            rushLoop t.outRing.slotsUsed t t.outRing.begin_ lastAcked false
          else .ok (t, false)

/-- `transmitter.cpp:297–316`. -/
def updateRecvHimark (t : Transmitter n) (controlBit : Bool) (recvHimark : BitVec 16) :
    Transmitter n × Bool :=
  if t.state ≠ .connected then (t, false)
  else if t.controlBit = controlBit then (t, false)
  else
    let newRecvHimark := t.outRing.restorePosHighBits recvHimark 12
    if newRecvHimark < t.recvHimark ∨
        newRecvHimark.Gt (t.outRing.end_.add t.peerReceiveBufferSize) then (t, false)
    else ({ t with recvHimark := newRecvHimark }, true)

end Transmitter

end RooTransport.Link
