import Mathlib.Data.List.DropRight
import RooTransport.Link.Packet

/-!
# The receiver

`link/internal/receiver.h` and `receiver.cpp`: the incoming half of a link. Operations
that can fail a `CHECK` return `Except Check`. The current buffer is a pointer into the
slot array and is kept as a slot index of its own, independent of the ring window, as in
the source. Clock readings are arguments. Debug-only checks and log messages are left out.
-/

namespace RooTransport.Link

open RooTransport.Base

/-- The states of `receiver.h:14–29` and `transmitter.h:14–31`. -/
inductive ConnState where
  | idle
  | connecting
  | connected
  | broken
  deriving DecidableEq, Repr

/-- The buffers behind a ring, one for each storage offset. -/
abbrev Slots (n : LinkBufferSize) (α : Type) := Fin (2 ^ n.val) → α

/-- `receiver.h:12–157`. -/
structure Receiver (n : LinkBufferSize) where
  myStreamId : UInt32
  state : ConnState
  selfClosed : Bool
  peerClosed : Bool
  endOfStream : Bool
  inBuffers : Slots n InBuffer
  currentInBuffer : Option (Fin (2 ^ n.val))
  currentInBufferPos : Nat
  inRing : RingBuffer n
  needsAck : Bool
  unackSeq : SeqNum
  recvHimark : SeqNum
  recvHimarkUpdateExpiration : Uptime
  packetsReceived : BitVec 32
  controlBit : Bool

namespace Receiver

variable {n : LinkBufferSize}

/-- `receiver.cpp:9–23`. -/
def new (n : LinkBufferSize) : Receiver n where
  myStreamId := 0
  state := .idle
  selfClosed := false
  peerClosed := false
  endOfStream := false
  inBuffers := fun _ ↦ InBuffer.new
  currentInBuffer := none
  currentInBufferPos := 0
  inRing := RingBuffer.new n ⟨0⟩
  needsAck := false
  unackSeq := ⟨0⟩
  recvHimark := (SeqNum.mk 0).add (2 ^ n.val)
  recvHimarkUpdateExpiration := 0
  packetsReceived := 0
  controlBit := false

/-- `receiver.h:111–113`. -/
def getInBuffer (r : Receiver n) (seq : SeqNum) : InBuffer :=
  r.inBuffers (r.inRing.offsetFor seq)

/-- `receiver.h:99`. -/
def empty (r : Receiver n) : Bool := r.inRing.empty

/-- `receiver.cpp:25–31`. -/
def setConnected (r : Receiver n) (peerSeqNum : SeqNum) (controlBit : Bool) :
    Except Check (Receiver n) :=
  if r.inRing.empty then
    match r.inRing.reset peerSeqNum with
    | .error c => .error c
    | .ok ring => .ok { r with
        inRing := ring
        unackSeq := peerSeqNum
        state := .connected
        controlBit := controlBit }
  else .error .connectNotEmpty

/-- `receiver.cpp:33–38`. -/
def setIdle (r : Receiver n) : Receiver n :=
  { r with state := .idle, peerClosed := false, selfClosed := false, endOfStream := false }

/-- `receiver.cpp:40–48`. The state itself is left alone while input is buffered. -/
def setBroken (r : Receiver n) : Receiver n :=
  if r.inRing.empty then r.setIdle
  else { r with peerClosed := true, selfClosed := false, endOfStream := false }

/-- `receiver.cpp:50–52`. -/
def done (r : Receiver n) : Bool :=
  r.empty && (r.endOfStream || r.selfClosed || r.peerClosed)

/-- The common prologue of `tryRead`, `peek` and `availableForRead`: point at the first
buffer of the window unless some buffer is already current. -/
def focus (r : Receiver n) : Option (Fin (2 ^ n.val) × Receiver n) :=
  match r.currentInBuffer with
  | some i => some (i, r)
  | none =>
    if r.inRing.empty then none
    else
      let i := r.inRing.offsetFor r.inRing.begin_
      some (i, { r with currentInBuffer := some i, currentInBufferPos := 0 })

/-- What one round of the loop in `tryRead` leaves behind. -/
structure Round (n : LinkBufferSize) where
  receiver : Receiver n
  /-- The bytes copied out. -/
  bytes : List UInt8
  /-- The remaining `count`. -/
  left : Nat
  /-- A packet was used up and its slot released. -/
  released : Bool
  /-- The round did not `break`. -/
  continues : Bool

/-- `receiver.cpp:60–96`, the body of the loop. -/
def readRound (r : Receiver n) (count : Nat) : Except Check (Round n) :=
  match r.focus with
  | none => .ok ⟨if r.state = .broken then r.setIdle else r, [], count, false, false⟩
  | some (i, r) =>
    let buffer := r.inBuffers i
    if buffer.type = .unset then .ok ⟨r, [], count, false, false⟩
    else if buffer.size < r.currentInBufferPos then .error .readPosition
    else
      let available := buffer.size - r.currentInBufferPos
      if count < available then
        .ok ⟨{ r with currentInBufferPos := r.currentInBufferPos + count },
          buffer.slice r.currentInBufferPos count, 0, false, false⟩
      else
        match r.inRing.pop with
        | .error c => .error c
        | .ok (_, ring) =>
          let r' := { r with
            inBuffers := Function.update r.inBuffers i buffer.clear
            currentInBuffer := none
            recvHimarkUpdateExpiration := 0
            inRing := ring }
          let bytes := buffer.slice r.currentInBufferPos available
          if buffer.type = .fin then
            if ring.empty then
              .ok ⟨{ r' with endOfStream := true }, bytes, count - available, true, false⟩
            else .error .finNotLast
          else .ok ⟨r', bytes, count - available, true, true⟩

/-- `receiver.cpp:59–97`, the `do … while (count > 0)` loop for at most `fuel` rounds. -/
def tryReadLoop : Nat → Receiver n → Nat → Except Check (Receiver n × List UInt8 × Bool)
  | 0, r, _ => .ok (r, [], false)
  | fuel + 1, r, count =>
    match r.readRound count with
    | .error c => .error c
    | .ok round =>
      if round.continues ∧ 0 < round.left then
        match tryReadLoop fuel round.receiver round.left with
        | .error c => .error c
        | .ok (r', rest, _) => .ok (r', round.bytes ++ rest, true)
      else .ok (round.receiver, round.bytes, round.released)

/-- `receiver.cpp:54–99`: the bytes read and whether there is data to send. Every round but
the last releases a slot, which bounds their number. -/
def tryRead (r : Receiver n) (count : Nat) : Except Check (Receiver n × List UInt8 × Bool) :=
  if r.state = .connecting ∨ r.state = .idle then .ok (r, [], false)
  else tryReadLoop (r.inRing.slotsUsed + 1) r count

/-- `receiver.cpp:101–109`, with whether there is data to send. -/
def markInputClosed (r : Receiver n) : Except Check (Receiver n × Bool) :=
  let r := { r with selfClosed := true }
  if r.inRing.empty then .ok (r, false)
  else
    match r.inRing.popAll with
    | .error c => .error c
    | .ok ring => .ok ({ r with recvHimarkUpdateExpiration := 0, inRing := ring }, true)

/-- `receiver.cpp:111–123`; -1 when there is no byte to look at. -/
def peek (r : Receiver n) : Receiver n × Int :=
  match r.focus with
  | none => (r, -1)
  | some (i, r) =>
    if (r.inBuffers i).type = .data then
      (r, (((r.inBuffers i).payload[r.currentInBufferPos]?).getD 0).toNat)
    else (r, -1)

/-- `receiver.cpp:125–145`. -/
def availableForRead (r : Receiver n) : Receiver n × Nat :=
  match r.focus with
  | none => (r, 0)
  | some (i, r) =>
    match (r.inBuffers i).type with
    | .unset => (r, 0)
    | .fin => (r, 1)
    -- The difference of two `uint8_t` is converted to `size_t`.
    | .data => (r, (((r.inBuffers i).size - r.currentInBufferPos : Int) % 2 ^ 32).toNat)

/-- `receiver.cpp:153–156`, clearing slots while emptying the window. -/
def clearLoop : Nat → Receiver n → Except Check (Receiver n)
  | 0, r => .ok r
  | fuel + 1, r =>
    if r.inRing.empty then .ok r
    else
      let i := r.inRing.offsetFor r.inRing.begin_
      match r.inRing.pop with
      | .error c => .error c
      | .ok (_, ring) => clearLoop fuel { r with
          inBuffers := Function.update r.inBuffers i (r.inBuffers i).clear
          inRing := ring }

/-- `receiver.cpp:147–161`. -/
def reset (r : Receiver n) : Except Check (Receiver n) :=
  match clearLoop r.inRing.slotsUsed { r with
      myStreamId := 0, state := .idle, peerClosed := false, selfClosed := false,
      endOfStream := false } with
  | .error c => .error c
  | .ok r => .ok { r with
      currentInBuffer := none
      currentInBufferPos := 0
      needsAck := false
      recvHimarkUpdateExpiration := 0 }

/-- `receiver.cpp:163–172`. The current buffer and the slots are left alone. -/
def init (r : Receiver n) (myStreamId : UInt32) : Except Check (Receiver n) :=
  match r.inRing.popAll with
  | .error c => .error c
  | .ok ring => .ok { r with
      inRing := ring
      myStreamId := myStreamId
      peerClosed := false
      selfClosed := false
      endOfStream := false
      state := .connecting }

/-- `receiver.cpp:174–193`: the packet, if one is due, and the updated `next_send_micros`. -/
def updateRecvHimark (r : Receiver n) (now : Uptime) (nextSendMicros : Nat) :
    Receiver n × List UInt8 × Nat :=
  if r.state = .connecting ∨ r.state = .idle then (r, [], nextSendMicros)
  else if now < r.recvHimarkUpdateExpiration then
    (r, [], min nextSendMicros (r.recvHimarkUpdateExpiration - now))
  else
    let recvHimark := r.inRing.begin_.add r.inRing.capacity
    ({ r with recvHimark := recvHimark, recvHimarkUpdateExpiration := now + 100000 },
      storeBeU16 (formatPacketHeader recvHimark .flowControl r.controlBit),
      min nextSendMicros 100000)

/-- `receiver.cpp:207–218`: the bitmask collected from `inPos` on, for bits `idx - 1` down. -/
def ackBitmask (r : Receiver n) : Nat → SeqNum → Nat
  | 0, _ => 0
  | idx + 1, inPos =>
    if r.inRing.contains inPos then
      (if (r.getInBuffer inPos).type ≠ .unset then 1 <<< idx else 0) |||
        r.ackBitmask idx inPos.next
    else 0

/-- `receiver.cpp:195–229`: the acknowledgement packet; no bytes if none is due. -/
def ack (r : Receiver n) : Receiver n × List UInt8 :=
  if (r.state ≠ .connected ∧ r.state ≠ .idle) ∨ r.needsAck = false then (r, [])
  else
    let header := storeBeU16 (formatPacketHeader r.unackSeq .dataAck r.controlBit)
    let mask := r.ackBitmask 64 r.unackSeq.next
    ({ r with needsAck := false }, header ++ (beBytes 8 mask).rdropWhile (· == 0))

/-- `receiver.cpp:262–264`, making room for `advance` more packets. -/
def extend : Nat → Receiver n → Except Check (Receiver n)
  | 0, r => .ok r
  | advance + 1, r =>
    match r.inRing.push with
    | .error c => .error c
    | .ok (pos, ring) =>
      let i := ring.offsetFor pos
      extend advance { r with
        inRing := ring
        inBuffers := Function.update r.inBuffers i (r.inBuffers i).clear }

/-- `receiver.cpp:284–288`, the `do … while` loop moving past received packets. -/
def advanceUnack : Nat → Receiver n → Receiver n
  | 0, r => r
  | fuel + 1, r =>
    let r' := { r with
      unackSeq := r.unackSeq.next
      packetsReceived := r.packetsReceived + 1 }
    if r'.inRing.contains r'.unackSeq ∧ (r'.getInBuffer r'.unackSeq).type ≠ .unset then
      advanceUnack fuel r'
    else r'

/-- `receiver.cpp:292–294`, releasing what a closed input will not read. -/
def drain : Nat → Receiver n → Except Check (Receiver n)
  | 0, r => .ok r
  | fuel + 1, r =>
    if r.inRing.empty = false ∧ r.inRing.begin_ < r.unackSeq then
      match r.inRing.pop with
      | .error c => .error c
      | .ok (_, ring) => drain fuel { r with inRing := ring }
    else .ok r

/-- `receiver.cpp:268–273`, keeping the copy that arrived first. -/
def store (r : Receiver n) (seq : SeqNum) (payload : List UInt8) (isFinal : Bool) :
    Except Check (Receiver n) :=
  let i := r.inRing.offsetFor seq
  if (r.inBuffers i).type = .unset then
    match (r.inBuffers i).set (if isFinal then .fin else .data) payload with
    | .error c => .error c
    | .ok buffer => .ok { r with inBuffers := Function.update r.inBuffers i buffer }
  else .ok r

/-- `receiver.cpp:268–299`, for a packet inside the window. The two flags say whether an
acknowledgement is due and whether there is new data to read. -/
def accept (r : Receiver n) (seq : SeqNum) (payload : List UInt8) (isFinal : Bool) :
    Except Check (Receiver n × Bool × Bool) :=
  match r.store seq payload isFinal with
  | .error c => .error c
  | .ok r =>
    let r := { r with peerClosed := r.peerClosed || isFinal, needsAck := true }
    if seq = r.unackSeq then
      let r := r.advanceUnack r.inRing.slotsUsed
      if r.selfClosed then
        match r.drain r.inRing.slotsUsed with
        | .error c => .error c
        | .ok r => .ok (r, true, false)
      else .ok (r, true, true)
    else .ok (r, true, false)

/-- `receiver.cpp:231–300`. -/
def handleDataPacket (r : Receiver n) (controlBit : Bool) (seqId : BitVec 16)
    (payload : List UInt8) (isFinal : Bool) : Except Check (Receiver n × Bool × Bool) :=
  if r.state = .connecting ∨ r.state = .idle then .ok (r, false, false)
  else if controlBit = r.controlBit then .ok (r, false, false)
  else
    let seq := r.inRing.restorePosHighBits seqId 12
    if r.inRing.contains seq then r.accept seq payload isFinal
    else if seq < r.inRing.begin_ then .ok ({ r with needsAck := true }, true, false)
    else if r.peerClosed then .ok (r, false, false)
    else
      -- The signed distance is converted to `size_t`.
      let advance := ((seq.diff r.inRing.end_ + 1) % 2 ^ 32).toNat
      if r.inRing.slotsFree < advance then .ok (r, false, false)
      else
        match extend advance r with
        | .error c => .error c
        | .ok r => r.accept seq payload isFinal

end Receiver

end RooTransport.Link
