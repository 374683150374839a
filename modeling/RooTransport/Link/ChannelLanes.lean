import RooTransport.Link.CrossTalk
import RooTransport.Link.Lane

/-!
# The lanes of a channel

A channel serves two lanes: the one that starts at its transmitter and the one that ends at its
receiver. A call on either half (`thread_safe_transmitter.cpp:13–82`,
`thread_safe_receiver.cpp:51–90`, `channel.cpp:255–272`) is a step of one lane, or no step where
the call is refused, and the packet it sends is the one that the lane sends. Halves that are not
connected do nothing at all.
-/

namespace RooTransport.Link

open RooTransport.Base RingBuffer

/-! ### Halves that are not connected -/

namespace Transmitter

variable {n : LinkBufferSize}

/-- A new transmitter after `init`. -/
def opening (n : LinkBufferSize) (id : UInt32) (s : SeqNum) : Transmitter n :=
  { new n with
    myStreamId := id
    state := .connecting
    outRing := RingBuffer.new n s
    recvHimark := s
    nextToSend := s }

/-- A new transmitter opens its first stream. -/
theorem init_new (n : LinkBufferSize) (id : UInt32) (s : SeqNum) :
    (new n).init id s = .ok (opening n id s) := init_ok (new n) id s

/-- A stream without credit and without a current packet. -/
structure AtRest (t : Transmitter n) : Prop where
  state : t.state = .idle ∨ t.state = .connecting
  current : t.currentOutBuffer = none
  credit : t.state = .connecting → t.recvHimark = t.outRing.end_

/-- A new transmitter is at rest. -/
theorem atRest_new (n : LinkBufferSize) : (new n).AtRest := ⟨.inl rfl, rfl, (fun h ↦ nomatch h)⟩

/-- A transmitter whose first stream is not acknowledged yet is at rest. -/
theorem atRest_opening (n : LinkBufferSize) (id : UInt32) (s : SeqNum) : (opening n id s).AtRest :=
  ⟨.inr rfl, rfl, fun _ ↦ rfl⟩

section

variable {t : Transmitter n}

private theorem AtRest.not_connected (h : t.AtRest) : t.state ≠ .connected := by
  rcases h.state with hst | hst
  · simp [hst]
  · simp [hst]

private theorem AtRest.tryWrite (h : t.AtRest) (buf : List UInt8) :
    t.tryWrite buf = .ok (t, 0, false) := by
  unfold Transmitter.tryWrite
  split
  · rfl
  split
  · rfl
  split
  · rfl
  next hst =>
  have hmark := h.credit (h.state.resolve_left (not_or.mp hst).1)
  have hge : t.recvHimark.Ge t.outRing.end_ := by
    rw [hmark]
    exact SeqNum.ge_refl _
  have hnone : t.provideBuffer = .ok none := by
    simp only [provideBuffer, if_neg (not_not.mpr hge), h.current, if_pos hmark]
  rw [tryWriteLoop, hnone]

private theorem AtRest.flush (h : t.AtRest) : t.flush = (t, false) := by
  simp only [Transmitter.flush, h.current]

private theorem AtRest.send (h : t.AtRest) (now : Uptime) (draw next : Nat) :
    t.send now draw next = (t, [], next) := by
  rw [Transmitter.send, getBufferToSend, if_pos h.not_connected]

private theorem AtRest.ack (h : t.AtRest) (controlBit : Bool) (seqId : BitVec 16)
    (bitmap : List UInt8) : t.ack controlBit seqId bitmap = .ok (t, false) := by
  rw [Transmitter.ack, if_pos h.not_connected]

private theorem AtRest.updateRecvHimark (h : t.AtRest) (controlBit : Bool) (himark : BitVec 16) :
    t.updateRecvHimark controlBit himark = (t, false) := by
  rw [Transmitter.updateRecvHimark, if_pos h.not_connected]

end

end Transmitter

namespace Receiver

variable {n : LinkBufferSize}

/-- A new receiver after `init`. -/
def opening (n : LinkBufferSize) (id : UInt32) : Receiver n :=
  { new n with
    myStreamId := id
    state := .connecting }

/-- A new receiver opens its first stream. -/
theorem init_new (n : LinkBufferSize) (id : UInt32) : (new n).init id = .ok (opening n id) := by
  have hs := spans_new n 0
  unfold init
  rw [show (new n).inRing.popAll = _ from hs.popAll_ok]
  rfl

/-- The first handshake of the peer connects the receiver. -/
theorem setConnected_opening (n : LinkBufferSize) (id : UInt32) (s : SeqNum) (controlBit : Bool) :
    (opening n id).setConnected s controlBit = .ok ((new n).reconnected id s controlBit) := by
  have h := reconnect_ok (new n) id s controlBit
  rw [reconnect, init_new] at h
  exact h

/-- A window without packets, and nothing to tell the peer. -/
structure AtRest (r : Receiver n) : Prop where
  state : r.state = .idle ∨ r.state = .connecting
  empty : r.inRing.empty = true
  current : r.currentInBuffer = none
  needsAck : r.needsAck = false

/-- A new receiver is at rest. -/
theorem atRest_new (n : LinkBufferSize) : (new n).AtRest :=
  ⟨.inl rfl, (spans_new n 0).empty_iff.mpr rfl, rfl, rfl⟩

/-- A receiver whose peer has not been heard of yet is at rest. -/
theorem atRest_opening (n : LinkBufferSize) (id : UInt32) : (opening n id).AtRest :=
  ⟨.inr rfl, (spans_new n 0).empty_iff.mpr rfl, rfl, rfl⟩

section

variable {r : Receiver n}

private theorem AtRest.tryRead (h : r.AtRest) (count : Nat) :
    r.tryRead count = .ok (r, [], false) := by
  rw [Receiver.tryRead, if_pos h.state.symm]

private theorem AtRest.look (h : r.AtRest) : r.look = r := by
  simp only [Receiver.look, focus, h.current, h.empty, if_true]

private theorem AtRest.ack (h : r.AtRest) : r.ack = (r, []) := by
  rw [Receiver.ack, if_pos (.inr h.needsAck)]

private theorem AtRest.updateRecvHimark (h : r.AtRest) (now : Uptime) (next : Nat) :
    r.updateRecvHimark now next = (r, [], next) := by
  rw [Receiver.updateRecvHimark, if_pos h.state.symm]

private theorem AtRest.handleDataPacket (h : r.AtRest) (controlBit : Bool) (seqId : BitVec 16)
    (payload : List UInt8) (isFinal : Bool) :
    r.handleDataPacket controlBit seqId payload isFinal = .ok (r, false, false) := by
  rw [Receiver.handleDataPacket, if_pos h.state.symm]

end

end Receiver

/-! ### What calls take and give -/

/-- The number of bytes that `write` took, nothing while it waits. -/
def ThreadSafeTransmitter.WriteResult.written : WriteResult → Nat
  | .returned written _ _ => written
  | .waits _ => 0

/-- The bytes that `read` gave, nothing while it waits. -/
def ThreadSafeReceiver.ReadResult.bytes : ReadResult → List UInt8
  | .returned bytes _ _ => bytes
  | .waits _ => []

namespace Channel

variable {m n : LinkBufferSize}

/-- The bytes that a call takes from the application. -/
def taken (c : Channel m n) : Act → List UInt8
  | .write buf id =>
    match ThreadSafeTransmitter.write c.transmitter buf id false with
    | .ok (_, result) => buf.take result.written
    | .error _ => []
  | .writeTurn buf id =>
    match ThreadSafeTransmitter.writeTurn c.transmitter buf id with
    | .ok (_, result) => buf.take result.written
    | .error _ => []
  | .tryWrite buf id =>
    match ThreadSafeTransmitter.tryWrite c.transmitter buf id false with
    | .ok (_, written, _, _) => buf.take written
    | .error _ => []
  | _ => []

/-- The bytes that a call gives to the application. -/
def given (c : Channel m n) : Act → List UInt8
  | .read count id =>
    match ThreadSafeReceiver.read c.receiver count id .ok false with
    | .ok (_, result) => result.bytes
    | .error _ => []
  | .readTurn count id =>
    match ThreadSafeReceiver.readTurn c.receiver count id with
    | .ok (_, result) => result.bytes
    | .error _ => []
  | .tryRead count id =>
    match ThreadSafeReceiver.tryRead c.receiver count id .ok false with
    | .ok (_, bytes, _, _) => bytes
    | .error _ => []
  | _ => []

/-- Whether a call closes the stream. -/
def closes (c : Channel m n) : Act → Bool
  | .close id => ThreadSafeTransmitter.checkConnectionStatus c.transmitter id = .ok
  | _ => false

/-- What a call comes down to for the lane that starts at the transmitter. -/
def laneOut (c : Channel m n) : Act → Option Wire.Act
  | .write buf id | .tryWrite buf id =>
    if ThreadSafeTransmitter.checkConnectionStatus c.transmitter id = .ok then some (.tryWrite buf)
    else none
  | .writeTurn buf _ => some (.tryWrite buf)
  | .flush id =>
    if ThreadSafeTransmitter.checkConnectionStatus c.transmitter id = .ok then some .flush else none
  | .close id =>
    if ThreadSafeTransmitter.checkConnectionStatus c.transmitter id = .ok then some .close else none
  | .send now draw next => some (.getBufferToSend now draw next)
  | _ => none

/-- What a call comes down to for the lane that ends at the receiver. -/
def laneIn (c : Channel m n) : Act → Option Wire.Act
  | .read count id | .tryRead count id =>
    if count ≠ 0 ∧ ThreadSafeReceiver.checkConnectionStatus c.receiver id = .ok then
      some (.tryRead count)
    else none
  | .readTurn count _ => some (.tryRead count)
  | .peek id =>
    if ThreadSafeReceiver.checkConnectionStatus c.receiver id = .ok then some .peek else none
  | .availableForRead id =>
    if ThreadSafeReceiver.checkConnectionStatus c.receiver id = .ok then some .availableForRead
    else none
  | .sendAck => some .ack
  | .sendHimark now next => some (.updateRecvHimark now next)
  | .connect _ _ _ | .disconnect _ | .closeInput _ | .write _ _ | .writeTurn _ _ | .tryWrite _ _
  | .flush _ | .close _ | .conn _ _ _ | .send _ _ _ | .packetReceived _ => none

/-- No call on a channel closes the input of the lane that goes out. -/
theorem laneOut_ne (c : Channel m n) (a : Act) : c.laneOut a ≠ some .markInputClosed := by
  unfold laneOut
  split
  all_goals first | split | skip
  all_goals simp

/-- No call on a channel closes the input of the lane that comes in. -/
theorem laneIn_ne (c : Channel m n) (a : Act) : c.laneIn a ≠ some .markInputClosed := by
  unfold laneIn
  split
  all_goals first | split | skip
  all_goals simp

/-- The clock that a call reads. -/
def Act.clock : Act → Uptime
  | .conn now _ _ | .send now _ _ | .sendHimark now _ => now
  | _ => 0

/-- The step of the lane that goes out has the clock of the call. -/
theorem laneOut_clock {c : Channel m n} {a : Act} {w : Wire.Act} (h : w ∈ c.laneOut a) :
    Lane.clock w ≤ a.clock := by
  unfold laneOut at h
  split at h
  all_goals first | split at h | skip
  all_goals cases h
  all_goals exact le_refl _

/-- The step of the lane that comes in has the clock of the call. -/
theorem laneIn_clock {c : Channel m n} {a : Act} {w : Wire.Act} (h : w ∈ c.laneIn a) :
    Lane.clock w ≤ a.clock := by
  unfold laneIn at h
  split at h
  all_goals first | split at h | skip
  all_goals cases h
  all_goals exact le_refl _

/-- The calls on the transmitter. -/
def Act.OnTransmitter : Act → Prop
  | .write _ _ | .writeTurn _ _ | .tryWrite _ _ | .flush _ | .close _ | .send _ _ _ => True
  | _ => False

/-- The calls on the receiver that leave its input open. -/
def Act.OnReceiver : Act → Prop
  | .read _ _ | .readTurn _ _ | .tryRead _ _ | .peek _ | .availableForRead _ | .sendAck
  | .sendHimark _ _ => True
  | _ => False

end Channel

/-- Put a packet behind those under way; no bytes mean no packet. -/
def posted (queue : List (List UInt8)) (p : List UInt8) : List (List UInt8) :=
  if p = [] then queue else queue ++ [p]

/-- An empty packet is not posted. -/
@[simp] theorem posted_nil (queue : List (List UInt8)) : posted queue [] = queue := rfl

/-- A queue holds what it held and the packet that was posted. -/
theorem mem_posted {queue : List (List UInt8)} {p q : List UInt8} :
    q ∈ posted queue p ↔ q ∈ queue ∨ p ≠ [] ∧ q = p := by
  unfold posted
  split
  · simp [*]
  · simp [*]

/-- A posted packet of a kind joins the traffic of that kind. -/
theorem filter_posted {f : List UInt8 → Bool} {p : List UInt8} (queue : List (List UInt8))
    (hp : p ≠ [] → f p = true) : (posted queue p).filter f = posted (queue.filter f) p := by
  unfold posted
  split
  · rfl
  · next hne => simp [hp hne]

/-- A posted packet of another kind leaves the traffic of a kind as it was. -/
theorem filter_posted_ne {f : List UInt8 → Bool} {p : List UInt8} (queue : List (List UInt8))
    (hp : p ≠ [] → f p = false) : (posted queue p).filter f = queue.filter f := by
  unfold posted
  split
  · rfl
  · next hne => simp [hp hne]

private theorem map_post (queue : List Sent) (seq : SeqNum) (p : List UInt8) :
    (Wire.post queue seq p).map Sent.bytes = posted (queue.map Sent.bytes) p := by
  unfold Wire.post posted
  split
  · rfl
  · rw [List.map_append]
    rfl

namespace Lane

variable {m n m' n' : LinkBufferSize}

/-- A step, if there is one to take. -/
def perform (l : Lane m n) : Option Wire.Act → Except Check (Lane m n)
  | none => .ok l
  | some a => l.step a

/-- The lane `l` becomes `l'` as the channel at its start makes a call. -/
structure FollowsOut (c : Channel m n) (a : Channel.Act) (l l' : Lane m n') : Prop where
  stepped : c.step a = .ok { c with transmitter := l'.wire.tx }
  rx : l'.wire.rx = l.wire.rx
  toTx : l'.wire.toTx = l.wire.toTx
  toRx : l'.wire.toRx.map Sent.bytes = posted (l.wire.toRx.map Sent.bytes) (c.packet a)
  accepted : l'.accepted = l.accepted ++ c.taken a
  read : l'.read = l.read
  closed : l'.closed = (l.closed || c.closes a)
  given : c.given a = []

/-- The lane `l` becomes `l'` as the channel at its end makes a call. -/
structure FollowsIn (c : Channel m n) (a : Channel.Act) (l l' : Lane m' n) : Prop where
  stepped : c.step a = .ok { c with receiver := l'.wire.rx }
  tx : l'.wire.tx = l.wire.tx
  toRx : l'.wire.toRx = l.wire.toRx
  toTx : l'.wire.toTx.map Sent.bytes = posted (l.wire.toTx.map Sent.bytes) (c.packet a)
  accepted : l'.accepted = l.accepted
  read : l'.read = l.read ++ c.given a
  closed : l'.closed = l.closed
  taken : c.taken a = []
  closes : c.closes a = false

section

variable {c : Channel m n} {a : Channel.Act}

private theorem writeTurn_ok {t t' : Transmitter m} {buf : List UInt8} {written : Nat}
    {ready : Bool} (h : t.tryWrite buf = .ok (t', written, ready)) (id : UInt32) :
    ∃ result, ThreadSafeTransmitter.writeTurn t buf id = .ok (t', result) ∧
      result.written = written := by
  rw [ThreadSafeTransmitter.writeTurn, h]
  dsimp only
  split
  · exact ⟨_, rfl, rfl⟩
  next hzero =>
  have hnone : 0 = written := by omega
  split
  · exact ⟨_, rfl, hnone⟩
  · exact ⟨_, rfl, hnone⟩

private theorem readTurn_ok {r r' : Receiver n} {count : Nat} {bytes : List UInt8} {ready : Bool}
    (h : r.tryRead count = .ok (r', bytes, ready)) (id : UInt32) :
    ∃ result, ThreadSafeReceiver.readTurn r count id = .ok (r', result) ∧ result.bytes = bytes := by
  rw [ThreadSafeReceiver.readTurn, h]
  dsimp only
  split
  · exact ⟨_, rfl, rfl⟩
  next hzero =>
  have hnone : [] = bytes := (List.length_eq_zero_iff.mp (by omega)).symm
  split
  · exact ⟨_, rfl, hnone⟩
  · exact ⟨_, rfl, hnone⟩

private theorem FollowsOut.idle {l : Lane m n'} (htx : l.wire.tx = c.transmitter)
    (hstep : c.step a = .ok c) (hpacket : c.packet a = []) (htaken : c.taken a = [])
    (hcloses : c.closes a = false) (hgiven : c.given a = []) : FollowsOut c a l l where
  stepped := by rw [hstep, htx]
  rx := rfl
  toTx := rfl
  toRx := by rw [hpacket, posted_nil]
  accepted := by rw [htaken, List.append_nil]
  read := rfl
  closed := by rw [hcloses, Bool.or_false]
  given := hgiven

private theorem FollowsOut.call {l : Lane m n'} {tx : Transmitter m} {toRx : List Sent}
    {accepted : List UInt8} {closed : Bool}
    (hstep : c.step a = .ok { c with transmitter := tx })
    (hpacket : toRx.map Sent.bytes = posted (l.wire.toRx.map Sent.bytes) (c.packet a))
    (htaken : accepted = c.taken a) (hcloses : closed = c.closes a) (hgiven : c.given a = []) :
    FollowsOut c a l { l with
      wire := { l.wire with tx, toRx }
      accepted := l.accepted ++ accepted
      read := l.read ++ []
      closed := l.closed || closed } where
  stepped := hstep
  rx := rfl
  toTx := rfl
  toRx := hpacket
  accepted := by rw [htaken]
  read := List.append_nil _
  closed := by rw [hcloses]
  given := hgiven

private theorem perform_tryWrite {l l' : Lane m n'} {buf : List UInt8}
    (htx : l.wire.tx = c.transmitter) (hs : l.perform (some (.tryWrite buf)) = .ok l') :
    ∃ tx written ready, c.transmitter.tryWrite buf = .ok (tx, written, ready) ∧
      l' = { l with
        wire := { l.wire with tx }
        accepted := l.accepted ++ buf.take written
        read := l.read ++ []
        closed := l.closed || false } := by
  obtain ⟨w, hwire, rfl⟩ := map_eq_ok.mp hs
  obtain ⟨⟨tx, written, ready⟩, hok, rfl⟩ := map_eq_ok.mp hwire
  refine ⟨tx, written, ready, htx ▸ hok, ?_⟩
  simp only [taken, given, hok, reduceCtorEq, decide_false]

private theorem followsOut_write {l l' : Lane m n'} {buf : List UInt8} {id : UInt32}
    (htx : l.wire.tx = c.transmitter) (hs : l.perform (c.laneOut (.write buf id)) = .ok l') :
    FollowsOut c (.write buf id) l l' := by
  rw [Channel.laneOut] at hs
  split at hs
  · next hstatus =>
    obtain ⟨tx, written, ready, hok, rfl⟩ := perform_tryWrite htx hs
    obtain ⟨result, hturn, rfl⟩ := writeTurn_ok hok id
    have hcall : ThreadSafeTransmitter.write c.transmitter buf id false = .ok (tx, result) := by
      rw [ThreadSafeTransmitter.write, if_neg (not_not.mpr hstatus), hturn]
    exact .call (by rw [Channel.step, hcall]; rfl) rfl (by rw [Channel.taken, hcall]) rfl rfl
  · next hstatus =>
    obtain rfl := Except.ok.inj hs
    have hcall : ThreadSafeTransmitter.write c.transmitter buf id false = .ok (c.transmitter,
        .returned 0 (ThreadSafeTransmitter.checkConnectionStatus c.transmitter id) false) := by
      rw [ThreadSafeTransmitter.write, if_pos hstatus]
    exact .idle htx (by rw [Channel.step, hcall]; rfl) rfl
      (by rw [Channel.taken, hcall]; exact List.take_zero) rfl rfl

private theorem followsOut_tryWrite {l l' : Lane m n'} {buf : List UInt8} {id : UInt32}
    (htx : l.wire.tx = c.transmitter) (hs : l.perform (c.laneOut (.tryWrite buf id)) = .ok l') :
    FollowsOut c (.tryWrite buf id) l l' := by
  rw [Channel.laneOut] at hs
  split at hs
  · next hstatus =>
    obtain ⟨tx, written, ready, hok, rfl⟩ := perform_tryWrite htx hs
    have hcall : ThreadSafeTransmitter.tryWrite c.transmitter buf id false =
        .ok (tx, written, .ok, ready) := by
      rw [ThreadSafeTransmitter.tryWrite, if_neg (not_not.mpr hstatus), hok]
    exact .call (by rw [Channel.step, hcall]; rfl) rfl (by rw [Channel.taken, hcall]) rfl rfl
  · next hstatus =>
    obtain rfl := Except.ok.inj hs
    have hcall : ThreadSafeTransmitter.tryWrite c.transmitter buf id false = .ok (c.transmitter,
        0, ThreadSafeTransmitter.checkConnectionStatus c.transmitter id, false) := by
      rw [ThreadSafeTransmitter.tryWrite, if_pos hstatus]
    exact .idle htx (by rw [Channel.step, hcall]; rfl) rfl
      (by rw [Channel.taken, hcall]; exact List.take_zero) rfl rfl

private theorem followsOut_flush {l l' : Lane m n'} {id : UInt32}
    (htx : l.wire.tx = c.transmitter) (hs : l.perform (c.laneOut (.flush id)) = .ok l') :
    FollowsOut c (.flush id) l l' := by
  rw [Channel.laneOut] at hs
  split at hs
  · next hstatus =>
    cases hs
    apply FollowsOut.call
    · rw [Channel.step, ThreadSafeTransmitter.flush, if_neg (not_not.mpr hstatus), htx]
    · rfl
    · rfl
    · rfl
    · rfl
  · next hstatus =>
    obtain rfl := Except.ok.inj hs
    exact .idle htx (by rw [Channel.step, ThreadSafeTransmitter.flush, if_pos hstatus])
      rfl rfl rfl rfl

private theorem followsOut_close {l l' : Lane m n'} {id : UInt32}
    (htx : l.wire.tx = c.transmitter) (hs : l.perform (c.laneOut (.close id)) = .ok l') :
    FollowsOut c (.close id) l l' := by
  rw [Channel.laneOut] at hs
  split at hs
  · next hstatus =>
    obtain ⟨w, hwire, rfl⟩ := map_eq_ok.mp hs
    obtain ⟨tx, hok, rfl⟩ := map_eq_ok.mp hwire
    rw [htx] at hok
    obtain ⟨result, ready, hcall⟩ : ∃ result ready,
        ThreadSafeTransmitter.close c.transmitter id false = .ok (tx, result, ready) := by
      rw [ThreadSafeTransmitter.close, if_neg (not_not.mpr hstatus), hok]
      dsimp only
      split
      · exact ⟨_, _, rfl⟩
      · exact ⟨_, _, rfl⟩
    exact .call (by rw [Channel.step, hcall]; rfl) rfl rfl (by simp [Channel.closes, hstatus]) rfl
  · next hstatus =>
    obtain rfl := Except.ok.inj hs
    exact .idle htx (by rw [Channel.step, ThreadSafeTransmitter.close, if_pos hstatus]; rfl)
      rfl rfl (by simp [Channel.closes, hstatus]) rfl

private theorem followsOut_send {l l' : Lane m n'} {now : Uptime} {draw next : Nat}
    (htx : l.wire.tx = c.transmitter) (hs : l.perform (c.laneOut (.send now draw next)) = .ok l') :
    FollowsOut c (.send now draw next) l l' := by
  have hsend : c.step (.send now draw next) =
    .ok { c with transmitter := (c.transmitter.send now draw next).1 } := rfl
  have hpacket : c.packet (.send now draw next) = (c.transmitter.send now draw next).2.1 := rfl
  obtain ⟨w, hwire, rfl⟩ := map_eq_ok.mp hs
  rw [Wire.step, htx] at hwire
  rw [Transmitter.send] at hsend hpacket
  rcases hout : c.transmitter.getBufferToSend now draw next with ⟨tx, out, next'⟩
  rw [hout] at hwire hsend hpacket
  cases out with
  | none =>
    cases hwire
    exact .call hsend (by rw [hpacket, posted_nil]) rfl rfl rfl
  | some pos =>
    cases hwire
    exact .call hsend (by rw [hpacket, map_post]) rfl rfl rfl

/-- A call on the transmitter of a channel is a step of the lane it sends on, or none. -/
theorem followsOut {l l' : Lane m n'} (htx : l.wire.tx = c.transmitter) (ha : a.OnTransmitter)
    (hs : l.perform (c.laneOut a) = .ok l') : FollowsOut c a l l' := by
  cases a with
  | write buf id => exact followsOut_write htx hs
  | writeTurn buf id =>
    obtain ⟨tx, written, ready, hok, rfl⟩ := perform_tryWrite htx hs
    obtain ⟨result, hturn, rfl⟩ := writeTurn_ok hok id
    exact .call (by rw [Channel.step, hturn]; rfl) rfl (by rw [Channel.taken, hturn]) rfl rfl
  | tryWrite buf id => exact followsOut_tryWrite htx hs
  | flush id => exact followsOut_flush htx hs
  | close id => exact followsOut_close htx hs
  | send now draw next => exact followsOut_send htx hs
  | _ => exact ha.elim

private theorem FollowsIn.idle {l : Lane m' n} (hrx : l.wire.rx = c.receiver)
    (hstep : c.step a = .ok c) (hpacket : c.packet a = []) (htaken : c.taken a = [])
    (hcloses : c.closes a = false) (hgiven : c.given a = []) : FollowsIn c a l l where
  stepped := by rw [hstep, hrx]
  tx := rfl
  toRx := rfl
  toTx := by rw [hpacket, posted_nil]
  accepted := rfl
  read := by rw [hgiven, List.append_nil]
  closed := rfl
  taken := htaken
  closes := hcloses

private theorem FollowsIn.call {l : Lane m' n} {rx : Receiver n} {toTx : List Sent}
    {read : List UInt8} (hstep : c.step a = .ok { c with receiver := rx })
    (hpacket : toTx.map Sent.bytes = posted (l.wire.toTx.map Sent.bytes) (c.packet a))
    (hgiven : read = c.given a) (htaken : c.taken a = []) (hcloses : c.closes a = false) :
    FollowsIn c a l { l with
      wire := { l.wire with rx, toTx }
      accepted := l.accepted ++ []
      read := l.read ++ read
      closed := l.closed || false } where
  stepped := hstep
  tx := rfl
  toRx := rfl
  toTx := hpacket
  accepted := List.append_nil _
  read := by rw [hgiven]
  closed := Bool.or_false _
  taken := htaken
  closes := hcloses

private theorem perform_tryRead {l l' : Lane m' n} {count : Nat} (hrx : l.wire.rx = c.receiver)
    (hs : l.perform (some (.tryRead count)) = .ok l') :
    ∃ rx bytes ready, c.receiver.tryRead count = .ok (rx, bytes, ready) ∧
      l' = { l with
        wire := { l.wire with rx }
        accepted := l.accepted ++ []
        read := l.read ++ bytes
        closed := l.closed || false } := by
  obtain ⟨w, hwire, rfl⟩ := map_eq_ok.mp hs
  obtain ⟨⟨rx, bytes, ready⟩, hok, rfl⟩ := map_eq_ok.mp hwire
  refine ⟨rx, bytes, ready, hrx ▸ hok, ?_⟩
  simp only [taken, given, hok, reduceCtorEq, decide_false]

private theorem followsIn_read {l l' : Lane m' n} {count : Nat} {id : UInt32}
    (hrx : l.wire.rx = c.receiver) (hs : l.perform (c.laneIn (.read count id)) = .ok l') :
    FollowsIn c (.read count id) l l' := by
  rw [Channel.laneIn] at hs
  split at hs
  · next hstatus =>
    obtain ⟨rx, bytes, ready, hok, rfl⟩ := perform_tryRead hrx hs
    obtain ⟨result, hturn, rfl⟩ := readTurn_ok hok id
    have hcall : ThreadSafeReceiver.read c.receiver count id .ok false = .ok (rx, result) := by
      rw [ThreadSafeReceiver.read, if_neg hstatus.1, if_neg (not_not.mpr hstatus.2), hturn]
    exact .call (by rw [Channel.step, hcall]; rfl) rfl (by rw [Channel.given, hcall]) rfl rfl
  · next hstatus =>
    obtain rfl := Except.ok.inj hs
    obtain ⟨status, hcall⟩ : ∃ status, ThreadSafeReceiver.read c.receiver count id .ok false =
        .ok (c.receiver, .returned [] status false) := by
      unfold ThreadSafeReceiver.read
      split
      · exact ⟨_, rfl⟩
      next hcount =>
      rw [if_pos fun hok ↦ hstatus ⟨hcount, hok⟩]
      exact ⟨_, rfl⟩
    exact .idle hrx (by rw [Channel.step, hcall]; rfl) rfl rfl rfl
      (by rw [Channel.given, hcall]; rfl)

private theorem followsIn_tryRead {l l' : Lane m' n} {count : Nat} {id : UInt32}
    (hrx : l.wire.rx = c.receiver) (hs : l.perform (c.laneIn (.tryRead count id)) = .ok l') :
    FollowsIn c (.tryRead count id) l l' := by
  rw [Channel.laneIn] at hs
  split at hs
  · next hstatus =>
    obtain ⟨rx, bytes, ready, hok, rfl⟩ := perform_tryRead hrx hs
    have hcall : ThreadSafeReceiver.tryRead c.receiver count id .ok false =
        .ok (rx, bytes, .ok, ready) := by
      rw [ThreadSafeReceiver.tryRead, if_neg hstatus.1, if_neg (not_not.mpr hstatus.2), hok]
    exact .call (by rw [Channel.step, hcall]; rfl) rfl (by rw [Channel.given, hcall]) rfl rfl
  · next hstatus =>
    obtain rfl := Except.ok.inj hs
    obtain ⟨status, hcall⟩ : ∃ status, ThreadSafeReceiver.tryRead c.receiver count id .ok false =
        .ok (c.receiver, [], status, false) := by
      unfold ThreadSafeReceiver.tryRead
      split
      · exact ⟨_, rfl⟩
      next hcount =>
      rw [if_pos fun hok ↦ hstatus ⟨hcount, hok⟩]
      exact ⟨_, rfl⟩
    exact .idle hrx (by rw [Channel.step, hcall]; rfl) rfl rfl rfl (by rw [Channel.given, hcall])

private theorem followsIn_peek {l l' : Lane m' n} {id : UInt32} (hrx : l.wire.rx = c.receiver)
    (hs : l.perform (c.laneIn (.peek id)) = .ok l') : FollowsIn c (.peek id) l l' := by
  rw [Channel.laneIn] at hs
  split at hs
  · next hstatus =>
    cases hs
    apply FollowsIn.call
    · rw [Channel.step, ThreadSafeReceiver.peek, if_neg (not_not.mpr hstatus), hrx]
    · rfl
    · rfl
    · rfl
    · rfl
  · next hstatus =>
    obtain rfl := Except.ok.inj hs
    exact .idle hrx (by rw [Channel.step, ThreadSafeReceiver.peek, if_pos hstatus])
      rfl rfl rfl rfl

private theorem followsIn_availableForRead {l l' : Lane m' n} {id : UInt32}
    (hrx : l.wire.rx = c.receiver) (hs : l.perform (c.laneIn (.availableForRead id)) = .ok l') :
    FollowsIn c (.availableForRead id) l l' := by
  rw [Channel.laneIn] at hs
  split at hs
  · next hstatus =>
    cases hs
    apply FollowsIn.call
    · rw [Channel.step, ThreadSafeReceiver.availableForRead, if_neg (not_not.mpr hstatus), hrx]
    · rfl
    · rfl
    · rfl
    · rfl
  · next hstatus =>
    obtain rfl := Except.ok.inj hs
    exact .idle hrx (by rw [Channel.step, ThreadSafeReceiver.availableForRead, if_pos hstatus])
      rfl rfl rfl rfl

/-- A call on the receiver of a channel is a step of the lane it receives on, or none. -/
theorem followsIn {l l' : Lane m' n} (hrx : l.wire.rx = c.receiver) (ha : a.OnReceiver)
    (hs : l.perform (c.laneIn a) = .ok l') : FollowsIn c a l l' := by
  cases a with
  | read count id => exact followsIn_read hrx hs
  | readTurn count id =>
    obtain ⟨rx, bytes, ready, hok, rfl⟩ := perform_tryRead hrx hs
    obtain ⟨result, hturn, rfl⟩ := readTurn_ok hok id
    exact .call (by rw [Channel.step, hturn]; rfl) rfl (by rw [Channel.given, hturn]) rfl rfl
  | tryRead count id => exact followsIn_tryRead hrx hs
  | peek id => exact followsIn_peek hrx hs
  | availableForRead id => exact followsIn_availableForRead hrx hs
  | sendAck =>
    cases hs
    exact .call (by rw [Channel.step, hrx]) (by rw [map_post, hrx]; rfl) rfl rfl rfl
  | sendHimark now next =>
    rw [Channel.laneIn, perform, step] at hs
    obtain ⟨w, hwire, rfl⟩ := map_eq_ok.mp hs
    rw [Wire.step, hrx] at hwire
    obtain rfl := Except.ok.inj hwire
    exact .call rfl (map_post _ _ _) rfl rfl rfl
  | _ => exact ha.elim

/-! ### Calls on halves at rest -/

/-- The call changes and sends nothing. -/
structure Idles (c : Channel m n) (a : Channel.Act) : Prop where
  stepped : c.step a = .ok c
  packet : c.packet a = []
  taken : c.taken a = []
  given : c.given a = []
  closes : c.closes a = false

/-- A lane without traffic. -/
def silent (tx : Transmitter m) (rx : Receiver n) : Lane m n :=
  ⟨⟨tx, rx, [], []⟩, [], [], false⟩

private theorem posted_eq_nil {p : List UInt8} (h : [] = posted [] p) : p = [] := by
  by_contra hne
  rw [posted, if_neg hne] at h
  cases h

/-- A call on a transmitter at rest does nothing. -/
theorem idles_of_transmitter (ht : c.transmitter.AtRest) (ha : a.OnTransmitter)
    (hclose : ∀ id, a = .close id → c.transmitter.state ≠ .connecting) : Idles c a := by
  have hsame : (silent c.transmitter (Receiver.new n)).perform (c.laneOut a) =
      .ok (silent c.transmitter (Receiver.new n)) := by
    have hwrite (buf : List UInt8) : (silent c.transmitter (Receiver.new n)).step (.tryWrite buf) =
        .ok (silent c.transmitter (Receiver.new n)) := by
      simp [step, Wire.step, silent, Lane.taken, Lane.given, ht.tryWrite, Except.map]
    cases a with
    | write buf id =>
      rw [Channel.laneOut]
      split
      · exact hwrite buf
      · rfl
    | writeTurn buf id => exact hwrite buf
    | tryWrite buf id =>
      rw [Channel.laneOut]
      split
      · exact hwrite buf
      · rfl
    | flush id =>
      rw [Channel.laneOut]
      split
      · simp [perform, step, Wire.step, silent, Lane.taken, Lane.given, ht.flush, Except.map]
      · rfl
    | close id =>
      have hidle := ht.state.resolve_right (hclose id rfl)
      rw [Channel.laneOut, ThreadSafeTransmitter.checkConnectionStatus, hidle]
      rfl
    | send now draw next =>
      simp [perform, Channel.laneOut, step, Wire.step, silent, Lane.taken, Lane.given,
        Transmitter.getBufferToSend, ht.not_connected, Except.map]
    | _ => exact ha.elim
  have h := followsOut rfl ha hsame
  exact ⟨h.stepped, posted_eq_nil h.toRx, h.accepted.symm, h.given, h.closed.symm⟩

/-- A call on a receiver at rest does nothing. -/
theorem idles_of_receiver (hr : c.receiver.AtRest) (ha : a.OnReceiver) : Idles c a := by
  have hsame : (silent (Transmitter.new m) c.receiver).perform (c.laneIn a) =
      .ok (silent (Transmitter.new m) c.receiver) := by
    have hread (count : Nat) : (silent (Transmitter.new m) c.receiver).step (.tryRead count) =
        .ok (silent (Transmitter.new m) c.receiver) := by
      simp [step, Wire.step, silent, Lane.taken, Lane.given, hr.tryRead, Except.map]
    have hlook : c.receiver.peek.1 = c.receiver ∧ c.receiver.availableForRead.1 = c.receiver := by
      rw [Receiver.peek_fst, Receiver.availableForRead_fst, hr.look]
      exact ⟨rfl, rfl⟩
    cases a with
    | read count id =>
      rw [Channel.laneIn]
      split
      · exact hread count
      · rfl
    | readTurn count id => exact hread count
    | tryRead count id =>
      rw [Channel.laneIn]
      split
      · exact hread count
      · rfl
    | peek id =>
      rw [Channel.laneIn]
      split
      · simp [perform, step, Wire.step, silent, Lane.taken, Lane.given, hlook, Except.map]
      · rfl
    | availableForRead id =>
      rw [Channel.laneIn]
      split
      · simp [perform, step, Wire.step, silent, Lane.taken, Lane.given, hlook, Except.map]
      · rfl
    | sendAck =>
      simp [perform, Channel.laneIn, step, Wire.step, Wire.post, silent, Lane.taken, Lane.given,
        hr.ack, Except.map]
    | sendHimark now next =>
      simp [perform, Channel.laneIn, step, Wire.step, Wire.post, silent, Lane.taken, Lane.given,
        hr.updateRecvHimark, Except.map]
    | _ => exact ha.elim
  have h := followsIn rfl ha hsame
  exact ⟨h.stepped, posted_eq_nil h.toTx, h.taken, h.read.symm, h.closes⟩

/-! ### Arrivals -/

/-- A packet for a receiver. -/
def isData (p : List UInt8) : Bool :=
  getPacketType (loadBeU16 p) = some .data ∨ getPacketType (loadBeU16 p) = some .fin

/-- A packet for a transmitter. -/
def isNotice (p : List UInt8) : Bool :=
  getPacketType (loadBeU16 p) = some .dataAck ∨ getPacketType (loadBeU16 p) = some .flowControl

/-- `channel.cpp:488–491`: the packet is neither too short nor too long. -/
def Sized (p : List UInt8) : Prop := 2 ≤ p.length ∧ p.length ≤ 250

/-- A data packet is no notice. -/
theorem not_isNotice_of_isData {p : List UInt8} (h : isData p = true) : isNotice p = false := by
  rcases of_decide_eq_true h with ht | ht
  · simp [isNotice, ht]
  · simp [isNotice, ht]

/-- A notice is no data packet. -/
theorem not_isData_of_isNotice {p : List UInt8} (h : isNotice p = true) : isData p = false := by
  rcases of_decide_eq_true h with ht | ht
  · simp [isData, ht]
  · simp [isData, ht]

section

variable {l l' : Lane m n} {s : Int} {controlBit : Bool} {d : Uptime} {x : Sent} {rest : List Sent}

/-- Both ends of a sound lane are connected. -/
theorem Sound.states (h : l.Sound s controlBit d) :
    l.wire.tx.state ≠ .connecting ∧ l.wire.rx.state = .connected := by
  obtain ⟨b, e, f, k, rb, u, re, log, fin, h⟩ := h
  refine ⟨?_, h.rx.sink.connected⟩
  rcases h.tx.sender.source.phase with hst | hst
  · simp [hst]
  · simp [hst]

/-- A step that may be missing keeps a lane sound. -/
theorem Sound.perform {o : Option Wire.Act} (h : l.Sound s controlBit d)
    (ho : o ≠ some .markInputClosed) (hd : ∀ a ∈ o, clock a + 2 ^ 32 ≤ d) :
    Yields (l.perform o) (·.Sound s controlBit d) := by
  cases o with
  | none => exact ⟨l, rfl, h⟩
  | some a => exact h.step (fun heq ↦ ho (congrArg some heq)) (hd a rfl)

/-- Only an acknowledgement ends a stream. -/
theorem Sound.tx_state {c : Channel m m'} {a : Channel.Act} (h : l.Sound s controlBit d)
    (hs : l.perform (c.laneOut a) = .ok l') : l'.wire.tx.state = l.wire.tx.state := by
  obtain ⟨b, e, f, k, rb, u, re, log, fin, h⟩ := h
  have hwrite {buf : List UInt8} (hs : l.step (.tryWrite buf) = .ok l') :
      l'.wire.tx.state = l.wire.tx.state := by
    obtain ⟨w, hwire, rfl⟩ := map_eq_ok.mp hs
    obtain ⟨⟨tx, written, ready⟩, hok, rfl⟩ := map_eq_ok.mp hwire
    exact (Transmitter.tryWrite_samePhase hok).state
  have hnone (hs : l.perform none = .ok l') : l'.wire.tx.state = l.wire.tx.state := by
    obtain rfl := Except.ok.inj hs
    rfl
  cases a with
  | write buf id =>
    rw [Channel.laneOut] at hs
    split at hs
    · exact hwrite hs
    · exact hnone hs
  | writeTurn buf id => exact hwrite hs
  | tryWrite buf id =>
    rw [Channel.laneOut] at hs
    split at hs
    · exact hwrite hs
    · exact hnone hs
  | flush id =>
    rw [Channel.laneOut] at hs
    split at hs
    · obtain rfl := Except.ok.inj hs
      exact l.wire.tx.flush_sameStream.state
    · exact hnone hs
  | close id =>
    rw [Channel.laneOut] at hs
    split at hs
    · obtain ⟨w, hwire, rfl⟩ := map_eq_ok.mp hs
      obtain ⟨tx, hok, rfl⟩ := map_eq_ok.mp hwire
      obtain ⟨tx', effs, e', hok', -, hopen, hshut, -⟩ := Transmitter.close_path h.tx.spans
      obtain rfl : tx' = tx := Except.ok.inj (hok'.symm.trans hok)
      by_cases ho : l.wire.tx.Open
      · exact (hopen ho).2.2.1
      · have hwhole : l.wire.tx.state ≠ .broken := by
          rcases h.tx.sender.source.phase with hst | hst
          · simp [hst]
          · simp [hst]
        exact congrArg Transmitter.state (hshut ho hwhole).1
    · exact hnone hs
  | send now draw next =>
    obtain ⟨w, hwire, rfl⟩ := map_eq_ok.mp hs
    have hsame := (Transmitter.getBufferToSend_path h.tx.spans now draw next).sameStream
    rw [Wire.step] at hwire
    revert hwire hsame
    rcases l.wire.tx.getBufferToSend now draw next with ⟨tx, out, next'⟩
    intro hwire hsame
    cases out with
    | none =>
      cases hwire
      exact hsame.state
    | some pos =>
      cases hwire
      exact hsame.state
  | _ => exact hnone hs

/-- What is under way to the receiver. -/
theorem Sound.data (h : l.Sound s controlBit d) (hx : x ∈ l.wire.toRx) :
    isData x.bytes = true ∧ Sized x.bytes := by
  obtain ⟨b, e, f, k, rb, u, re, log, fin, h⟩ := h
  obtain ⟨q, rfl, -⟩ := h.data.exists_of_mem hx
  have hsize := h.tx.sender.source.queue.size q
  have hlen : (Sent.ofLog log fin controlBit q).bytes.length = 2 + (log q).length := by
    simp [Sent.ofLog, Transmitter.packetAt, storeBeU16]
  refine ⟨decide_eq_true ?_, by omega, by omega⟩
  rw [Sent.ofLog, Transmitter.packetAt, loadBeU16_store, getPacketType_format, Transmitter.typeAt]
  split
  · exact .inr rfl
  · exact .inl rfl

/-- What is under way to the transmitter. -/
theorem Sound.notice (h : l.Sound s controlBit d) (hx : x ∈ l.wire.toTx) :
    isNotice x.bytes = true ∧ Sized x.bytes := by
  obtain ⟨b, e, f, k, rb, u, re, log, fin, h⟩ := h
  obtain ⟨⟨a, bitmap⟩ | j, rfl, hy⟩ := h.replies.exists_of_mem hx
  · have hlen : ((Notice.ack a bitmap).packet !controlBit).bytes.length = 2 + bitmap.length := by
      simp [Notice.packet, storeBeU16]
    have hmap := hy.2.2.2.1
    refine ⟨decide_eq_true (.inl ?_), by omega, by omega⟩
    rw [Notice.packet, loadBeU16_store, getPacketType_format]
  · have hlen : ((Notice.himark j).packet !controlBit).bytes.length = 2 := by
      simp [Notice.packet, storeBeU16]
    refine ⟨decide_eq_true (.inr ?_), by omega, by omega⟩
    rw [Notice.packet, ← List.append_nil (storeBeU16 _), loadBeU16_store, getPacketType_format]

end

/-- The first data packet reaches the channel at the end of the lane. -/
theorem receive_data {l l' : Lane m' n} {x : Sent} {rest : List Sent}
    (hrx : l.wire.rx = c.receiver) (hx : l.wire.toRx = x :: rest) (hd : isData x.bytes = true)
    (hsize : Sized x.bytes) (hs : l.step .deliverToRx = .ok l') :
    (c.packetReceived x.bytes).map Prod.fst = .ok { c with receiver := l'.wire.rx } ∧
      l' = { l with wire := { l.wire with rx := l'.wire.rx, toRx := rest } } := by
  obtain ⟨w, hwire, rfl⟩ := map_eq_ok.mp hs
  have hboth : w = { l.wire with rx := w.rx, toRx := rest } ∧
      (c.packetReceived x.bytes).map Prod.fst = .ok { c with receiver := w.rx } := by
    rw [Wire.step, hx] at hwire
    dsimp only at hwire
    rw [Wire.receiveData, Sent.type, hrx] at hwire
    rw [Channel.packetReceived, if_neg (by unfold Sized at hsize; omega)]
    dsimp only
    rcases of_decide_eq_true hd with ht | ht
    · rw [ht] at hwire ⊢
      by_cases hlen : x.bytes.length = 2
      · rw [if_pos ⟨rfl, hlen⟩] at hwire
        obtain rfl := Except.ok.inj hwire
        refine ⟨rfl, ?_⟩
        rw [if_pos hlen]
        rfl
      · rw [if_neg fun h ↦ hlen h.2] at hwire
        obtain ⟨⟨rx, ready, new⟩, hok, rfl⟩ := map_eq_ok.mp hwire
        have hcall : c.receiver.handleDataPacket (getPacketControlBit (loadBeU16 x.bytes))
          (getPacketSeq (loadBeU16 x.bytes)) (x.bytes.drop 2) false = .ok (rx, ready, new) := hok
        refine ⟨rfl, ?_⟩
        rw [if_neg hlen, hcall]
        rfl
    · rw [ht] at hwire ⊢
      rw [if_neg (by simp)] at hwire
      obtain ⟨⟨rx, ready, new⟩, hok, rfl⟩ := map_eq_ok.mp hwire
      have hcall : c.receiver.handleDataPacket (getPacketControlBit (loadBeU16 x.bytes))
        (getPacketSeq (loadBeU16 x.bytes)) (x.bytes.drop 2) true = .ok (rx, ready, new) := hok
      refine ⟨rfl, ?_⟩
      rw [hcall]
      rfl
  refine ⟨hboth.2, ?_⟩
  simp only [taken, given, List.append_nil, reduceCtorEq, decide_false, Bool.or_false]
  rw [← hboth.1]

/-- The first notice reaches the channel at the start of the lane. -/
theorem receive_notice {l l' : Lane m n'} {x : Sent} {rest : List Sent}
    (htx : l.wire.tx = c.transmitter) (hx : l.wire.toTx = x :: rest)
    (hn : isNotice x.bytes = true) (hsize : Sized x.bytes) (hs : l.step .deliverToTx = .ok l') :
    (c.packetReceived x.bytes).map Prod.fst = .ok { c with transmitter := l'.wire.tx } ∧
      l' = { l with wire := { l.wire with tx := l'.wire.tx, toTx := rest } } := by
  obtain ⟨w, hwire, rfl⟩ := map_eq_ok.mp hs
  have hboth : w = { l.wire with tx := w.tx, toTx := rest } ∧
      (c.packetReceived x.bytes).map Prod.fst = .ok { c with transmitter := w.tx } := by
    rw [Wire.step, hx] at hwire
    dsimp only at hwire
    rw [Wire.receiveReply, Sent.type, htx] at hwire
    rw [Channel.packetReceived, if_neg (by unfold Sized at hsize; omega)]
    dsimp only at hwire ⊢
    rcases of_decide_eq_true hn with ht | ht
    · rw [ht] at hwire ⊢
      obtain ⟨⟨tx, ready⟩, hok, rfl⟩ := map_eq_ok.mp hwire
      have hcall : c.transmitter.ack (getPacketControlBit (loadBeU16 x.bytes))
        (getPacketSeq (loadBeU16 x.bytes)) (x.bytes.drop 2) = .ok (tx, ready) := hok
      refine ⟨rfl, ?_⟩
      rw [hcall]
      rfl
    · rw [ht] at hwire ⊢
      dsimp only at hwire ⊢
      by_cases hlen : x.bytes.length ≠ 2
      · rw [if_pos hlen] at hwire ⊢
        obtain rfl := Except.ok.inj hwire
        exact ⟨rfl, rfl⟩
      · rw [if_neg hlen] at hwire ⊢
        obtain rfl := Except.ok.inj hwire
        exact ⟨rfl, rfl⟩
  refine ⟨hboth.2, ?_⟩
  simp only [taken, given, List.append_nil, reduceCtorEq, decide_false, Bool.or_false]
  rw [← hboth.1]

/-- Data does not reach a receiver at rest. -/
theorem receive_data_atRest {p : List UInt8} (hr : c.receiver.AtRest) (hd : isData p = true) :
    (c.packetReceived p).map Prod.fst = .ok c := by
  unfold Channel.packetReceived
  split
  · rfl
  dsimp only
  rcases of_decide_eq_true hd with ht | ht
  · rw [ht]
    dsimp only
    split
    · rfl
    · rw [hr.handleDataPacket]
      rfl
  · rw [ht]
    dsimp only
    rw [hr.handleDataPacket]
    rfl

/-- A notice does not reach a transmitter at rest. -/
theorem receive_notice_atRest {p : List UInt8} (ht : c.transmitter.AtRest)
    (hn : isNotice p = true) : (c.packetReceived p).map Prod.fst = .ok c := by
  unfold Channel.packetReceived
  split
  · rfl
  dsimp only
  rcases of_decide_eq_true hn with hty | hty
  · rw [hty]
    dsimp only
    rw [ht.ack]
    rfl
  · rw [hty]
    dsimp only
    split
    · rfl
    · rw [ht.updateRecvHimark]
      rfl

end

end Lane

end RooTransport.Link
