import RooTransport.Link.ReceiverStream
import RooTransport.Link.TransmitterStream

/-!
# A connected pair

One direction of a link: a transmitter, a receiver, and the packets they have exchanged.
A packet stays available once sent, so that it can be delivered late, repeatedly, out of
order or never. On delivery its header is taken apart as `channel.cpp:487–529` does. The
twelve sequence bits it carries name its position as long as that is within reach of the
window it arrives at.
-/

namespace RooTransport.Link

open RooTransport.Base RingBuffer

/-- A packet on its way, with the position its sequence number stands for. -/
structure InFlight where
  pos : Int
  bytes : List UInt8
  deriving DecidableEq, Repr

/-- Both ends of one direction. The true positions of the two window starts, the packets
sent so far and what went in and came out are kept beside the state of the program. -/
structure Pair (m n : LinkBufferSize) where
  tx : Transmitter m
  rx : Receiver n
  txBegin : Int
  rxBegin : Int
  data : List InFlight
  acks : List InFlight
  himarks : List InFlight
  /-- The bytes `tryWrite` took. -/
  accepted : List UInt8
  /-- The bytes `tryRead` gave. -/
  read : List UInt8
  /-- Whether `close` was called. -/
  closed : Bool

namespace Pair

variable {m n : LinkBufferSize}

/-- The calls made at the two ends, and the deliveries. -/
inductive Act where
  | tryWrite (buf : List UInt8)
  | flush
  | close
  | getBufferToSend (now : Uptime) (draw nextSendMicros : Nat)
  | tryRead (count : Nat)
  | peek
  | availableForRead
  | ack
  | updateRecvHimark (now : Uptime) (nextSendMicros : Nat)
  | deliverData (i : Nat)
  | deliverAck (i : Nat)
  | deliverHimark (i : Nat)
  deriving DecidableEq, Repr

/-- A transmitter initialised and connected, and a new receiver connected to it. -/
def start (t : Transmitter m) (n : LinkBufferSize) (txStreamId rxStreamId : UInt32) (s : SeqNum)
    (peerReceiveBufferSize : Nat) (controlBit : Bool) : Except Check (Pair m n) :=
  (t.init txStreamId s).bind fun tx ↦
    ((Receiver.new n).reconnect rxStreamId s !controlBit).map fun rx ↦
      { tx := tx.setConnected peerReceiveBufferSize controlBit, rx,
        txBegin := s.raw.toNat, rxBegin := s.raw.toNat,
        data := [], acks := [], himarks := [], accepted := [], read := [], closed := false }

/-- The true position of a sequence number not before the sender's window. -/
def txPos (p : Pair m n) (seq : SeqNum) : Int :=
  p.txBegin + forwardDist seq.raw p.tx.outRing.begin_.raw

private theorem txPos_eq {p : Pair m n} {e q : Int} (hs : p.tx.outRing.Spans p.txBegin e)
    (hl : p.txBegin ≤ q) (hu : q < p.txBegin + 65536) : p.txPos (.ofPos q) = q := by
  have hd : (forwardDist (SeqNum.ofPos q).raw (SeqNum.ofPos p.txBegin).raw : Int) =
      q - p.txBegin := forwardDist_wrap hl (by norm_num; omega)
  rw [txPos, hs.begin_eq, hd]
  omega

/-- The true position of a sequence number not before the receiver's window. -/
def rxPos (p : Pair m n) (seq : SeqNum) : Int :=
  p.rxBegin + forwardDist seq.raw p.rx.inRing.begin_.raw

/-- A sequence number within reach of the receiver means one position. -/
theorem rxPos_eq {p : Pair m n} {e q : Int} (hs : p.rx.inRing.Spans p.rxBegin e)
    (hl : p.rxBegin ≤ q) (hu : q < p.rxBegin + 65536) : p.rxPos (.ofPos q) = q := by
  have hd : (forwardDist (SeqNum.ofPos q).raw (SeqNum.ofPos p.rxBegin).raw : Int) =
      q - p.rxBegin := forwardDist_wrap hl (by norm_num; omega)
  rw [rxPos, hs.begin_eq, hd]
  omega

/-- A packet added to those sent; no bytes mean no packet. -/
def emit (sent : List InFlight) (pos : Int) (bytes : List UInt8) : List InFlight :=
  if bytes = [] then sent else sent ++ [⟨pos, bytes⟩]

/-- The positions that can be told apart at a window starting at `begin_`. -/
def InReach (begin_ pos : Int) : Prop := begin_ - 2048 ≤ pos ∧ pos ≤ begin_ + 2047

instance (begin_ pos : Int) : Decidable (InReach begin_ pos) :=
  inferInstanceAs (Decidable (_ ∧ _))

/-- The transmitter replaced after a call. -/
def withTx (p : Pair m n) (tx : Transmitter m) : Pair m n :=
  { p with tx, txBegin := p.txPos tx.outRing.begin_ }

/-- The receiver replaced after a call. -/
def withRx (p : Pair m n) (rx : Receiver n) : Pair m n :=
  { p with rx, rxBegin := p.rxPos rx.inRing.begin_ }

/-- A data or final packet reaches the receiver. -/
def receiveData (p : Pair m n) (x : InFlight) : Except Check (Pair m n) :=
  let header := loadBeU16 x.bytes
  (p.rx.handleDataPacket (getPacketControlBit header) (getPacketSeq header) (x.bytes.drop 2)
    (getPacketType header = some .fin)).map fun (rx, _, _) ↦ p.withRx rx

/-- An acknowledgement reaches the transmitter. -/
def receiveAck (p : Pair m n) (x : InFlight) : Except Check (Pair m n) :=
  let header := loadBeU16 x.bytes
  (p.tx.ack (getPacketControlBit header) (getPacketSeq header) (x.bytes.drop 2)).map
    fun (tx, _) ↦ p.withTx tx

/-- A flow-control packet reaches the transmitter. -/
def receiveHimark (p : Pair m n) (x : InFlight) : Except Check (Pair m n) :=
  let header := loadBeU16 x.bytes
  .ok (p.withTx (p.tx.updateRecvHimark (getPacketControlBit header) (getPacketSeq header)).1)

/-- The delivery of one of the packets sent. -/
def deliver (p : Pair m n) (sent : List InFlight)
    (receive : InFlight → Except Check (Pair m n)) (i : Nat) : Except Check (Pair m n) :=
  match sent[i]? with
  | some x => receive x
  | none => .ok p

/-- One call or delivery. -/
def step (p : Pair m n) : Act → Except Check (Pair m n)
  | .tryWrite buf => (p.tx.tryWrite buf).map fun (tx, written, _) ↦
      { p.withTx tx with accepted := p.accepted ++ buf.take written }
  | .flush => .ok (p.withTx p.tx.flush.1)
  | .close => p.tx.close.map fun tx ↦ { p.withTx tx with closed := true }
  | .getBufferToSend now draw next =>
    let (tx, out, _) := p.tx.getBufferToSend now draw next
    match out with
    | none => .ok (p.withTx tx)
    | some pos => .ok { p.withTx tx with
        data := emit p.data (p.txPos pos) (tx.getOutBuffer pos).data }
  | .tryRead count => (p.rx.tryRead count).map fun (rx, bytes, _) ↦
      { p.withRx rx with read := p.read ++ bytes }
  | .peek => .ok (p.withRx p.rx.peek.1)
  | .availableForRead => .ok (p.withRx p.rx.availableForRead.1)
  | .ack => .ok { p.withRx p.rx.ack.1 with
      acks := emit p.acks (p.rxPos p.rx.unackSeq) p.rx.ack.2 }
  | .updateRecvHimark now next =>
    let (rx, bytes, _) := p.rx.updateRecvHimark now next
    .ok { p.withRx rx with himarks := emit p.himarks (p.rxPos rx.recvHimark) bytes }
  | .deliverData i => p.deliver p.data p.receiveData i
  | .deliverAck i => p.deliver p.acks p.receiveAck i
  | .deliverHimark i => p.deliver p.himarks p.receiveHimark i

/-- Delivering does nothing, or hands over a packet that was sent. -/
theorem deliver_cases {p p' : Pair m n} {sent : List InFlight}
    {receive : InFlight → Except Check (Pair m n)} {i : Nat}
    (h : p.deliver sent receive i = .ok p') :
    p' = p ∨ ∃ x, sent[i]? = some x ∧ receive x = .ok p' := by
  unfold deliver at h
  split at h
  · next x hx => exact .inr ⟨x, hx, h⟩
  · cases h
    exact .inl rfl

/-- A packet is delivered within reach of the window it arrives at. -/
def WithinReach (p : Pair m n) : Act → Prop
  | .deliverData i => ∀ x ∈ p.data[i]?, InReach p.rxBegin x.pos
  | .deliverAck i => ∀ x ∈ p.acks[i]?, InReach p.txBegin x.pos
  | .deliverHimark i => ∀ x ∈ p.himarks[i]?, InReach p.txBegin x.pos
  | _ => True

instance (p : Pair m n) (a : Act) : Decidable (WithinReach p a) :=
  match a with
  | .deliverData _ | .deliverAck _ | .deliverHimark _ => inferInstanceAs (Decidable (∀ x ∈ _, _))
  | .tryWrite _ | .flush | .close | .getBufferToSend _ _ _ | .tryRead _ | .peek
  | .availableForRead | .ack | .updateRecvHimark _ _ => .isTrue trivial

/-! ### What holds between the two ends -/

/-- The receiver has taken the packet of a position in. -/
def Stored (p : Pair m n) (q : Int) : Prop :=
  q < p.rxBegin ∨ q < p.rxBegin + p.rx.inRing.slotsUsed ∧ p.rx.Received q

/-- A stream with packets `log`, the final one at `fin`, written up to `e`, handed out before
`sent`, received in full before `u` and in part before `w`. -/
structure Linked (p : Pair m n) (s : Int) (controlBit : Bool) (e sent u w : Int)
    (log : Int → List UInt8) (fin : Option Int) : Prop where
  tx : p.tx.Sender s p.txBegin e sent log fin
  rx : p.rx.Sink s p.rxBegin u w log fin p.read
  txBit : p.tx.controlBit = controlBit
  rxBit : p.rx.controlBit = !controlBit
  accepted : p.accepted = span log s e
  received : w ≤ sent
  acked : p.txBegin ≤ u
  closed : p.closed = false → p.tx.endOfStream = false ∧ fin = none
  data : ∀ x ∈ p.data, s ≤ x.pos ∧ x.pos < sent ∧
    x.bytes = Transmitter.packetAt log fin controlBit x.pos
  acks : ∀ x ∈ p.acks, x.pos ≤ u ∧ ∃ bitmap, x.bytes =
      storeBeU16 (formatPacketHeader (.ofPos x.pos) .dataAck !controlBit) ++ bitmap ∧
    ∀ j : Nat, (bitmap.flatMap bitsMsb)[j]? = some true → p.Stored (x.pos + 1 + j)
  himarks : ∀ x ∈ p.himarks, x.pos ≤ p.rxBegin + 2 ^ n.val ∧
    x.bytes = storeBeU16 (formatPacketHeader (.ofPos x.pos) .flowControl !controlBit)

section

variable {p : Pair m n} {s : Int} {controlBit : Bool} {e sent u w : Int}
  {log : Int → List UInt8} {fin : Option Int}

/-- What is stored is what was read or is in the receiver's buffers. -/
theorem Linked.stored_iff (h : p.Linked s controlBit e sent u w log fin) (q : Int) :
    p.Stored q ↔ q < p.rxBegin ∨ q < w ∧ p.rx.Received q := by
  have hus := h.rx.window.spans.slotsUsed_eq
  have hw : p.rxBegin + p.rx.inRing.slotsUsed = w := by omega
  rw [Stored, hw]

/-- Everything before the acknowledged position is stored. -/
theorem Linked.stored_of_lt (h : p.Linked s controlBit e sent u w log fin) {q : Int}
    (hq : q < u) : p.Stored q := by
  rw [h.stored_iff]
  have hue := h.rx.window.le_end
  by_cases hb : q < p.rxBegin
  · exact .inl hb
  · exact .inr ⟨by omega, h.rx.window.received q (by omega) hq⟩

private theorem packetAt_continues {e' sent' : Int} {log' : Int → List UInt8} {fin' : Option Int}
    (h : Transmitter.Continues e sent log fin e' sent' log' fin') (hse : sent ≤ e) {q : Int}
    (hq : q < sent) : Transmitter.packetAt log' fin' controlBit q =
      Transmitter.packetAt log fin controlBit q := by
  have hiff : fin' = some q ↔ fin = some q := by
    rcases h.fin_eq with rfl | ⟨hnone, hf⟩
    · exact Iff.rfl
    · exact ⟨fun hq' ↦ absurd (hf q hq') (by omega), fun hq' ↦ nomatch hnone.symm.trans hq'⟩
  simp only [Transmitter.packetAt, Transmitter.typeAt, h.log_eq q hq, hiff]

private theorem Linked.of_tx (h : p.Linked s controlBit e sent u w log fin) {tx : Transmitter m}
    {b' e' sent' : Int} {log' : Int → List UInt8} {fin' : Option Int} {accepted : List UInt8}
    {closed : Bool} (htx : tx.Sender s b' e' sent' log' fin')
    (hc : Transmitter.Continues e sent log fin e' sent' log' fin')
    (hbit : tx.controlBit = p.tx.controlBit) (hb : p.txBegin ≤ b') (hu : b' ≤ u)
    (hacc : accepted = span log' s e')
    (hclosed : closed = false → tx.endOfStream = false ∧ fin' = none) :
    { p.withTx tx with accepted, closed }.Linked s controlBit e' sent' u w log' fin' := by
  have hwe := h.rx.window.spans.used
  have hcap := capacity_le n
  have hle := h.rx.window.le_end
  have hrec := h.received
  have hse := h.tx.pace.le_end
  have hsent := h.tx.pace
  have hcm := capacity_le m
  have husm := h.tx.source.queue.spans.used
  have hpos : p.txPos tx.outRing.begin_ = b' := by
    rw [htx.source.queue.spans.begin_eq]
    exact txPos_eq h.tx.source.queue.spans hb (by omega)
  refine ⟨?_, ?_, hbit.trans h.txBit, h.rxBit, hacc, h.received.trans hc.sent_le, ?_, hclosed,
    fun x hx ↦ ?_, h.acks, h.himarks⟩
  · dsimp only [withTx]
    rw [hpos]
    exact htx
  · refine h.rx.relog (fun q _ hq ↦ hc.log_eq q (by omega)) (hc.fin_eq.imp_right fun ⟨hn, hf⟩ ↦
      ⟨hn, fun f hf' ↦ ?_⟩)
    have := hf f hf'
    omega
  · dsimp only [withTx]
    rw [hpos]
    exact hu
  · obtain ⟨hl, hlt, hbytes⟩ := h.data x hx
    refine ⟨hl, lt_of_lt_of_le hlt hc.sent_le, ?_⟩
    rw [hbytes, packetAt_continues hc hse hlt]

private theorem Linked.of_rx (h : p.Linked s controlBit e sent u w log fin) {rx : Receiver n}
    {b' u' w' : Int} {read : List UInt8} (hrx : rx.Sink s b' u' w' log fin read)
    (hbit : rx.controlBit = p.rx.controlBit) (hb : p.rxBegin ≤ b') (hu : u ≤ u') (hw : w ≤ w')
    (hsent : w' ≤ sent) (hrec : ∀ q, b' ≤ q → q < w → p.rx.Received q → rx.Received q) :
    { p.withRx rx with read }.Linked s controlBit e sent u' w' log fin ∧
      ∀ q, p.Stored q → { p.withRx rx with read }.Stored q := by
  have hcn := capacity_le n
  have hcm := capacity_le m
  have hus := h.rx.window.spans.used
  have husm := h.tx.source.queue.spans.used
  have hue := h.rx.window.le_end
  have hse := h.tx.pace.le_end
  have hack := h.acked
  have hub := hrx.window.begin_le
  have huw := hrx.window.le_end
  have hpos : p.rxPos rx.inRing.begin_ = b' := by
    rw [hrx.window.spans.begin_eq]
    exact rxPos_eq h.rx.window.spans hb (by omega)
  have hslots := hrx.window.spans.slotsUsed_eq
  have hstored (q : Int) (hq : p.Stored q) : { p.withRx rx with read }.Stored q := by
    rw [h.stored_iff] at hq
    dsimp only [Stored, withRx]
    rw [hpos]
    by_cases hb' : q < b'
    · exact .inl hb'
    · rcases hq with hq | ⟨hq, hr⟩
      · omega
      · exact .inr ⟨by omega, hrec q (by omega) hq hr⟩
  refine ⟨⟨h.tx, ?_, h.txBit, hbit.trans h.rxBit, h.accepted, hsent, hack.trans hu,
    h.closed, h.data, fun x hx ↦ ?_, fun x hx ↦ ?_⟩, hstored⟩
  · dsimp only [withRx]
    rw [hpos]
    exact hrx
  · obtain ⟨hle, bitmap, hbytes, hbits⟩ := h.acks x hx
    exact ⟨hle.trans hu, bitmap, hbytes, fun j hj ↦ hstored _ (hbits j hj)⟩
  · obtain ⟨hle, hbytes⟩ := h.himarks x hx
    refine ⟨?_, hbytes⟩
    dsimp only [withRx]
    rw [hpos]
    omega

end

/-! ### Every step keeps the ends linked -/

/-- What is under way was so before or has just been sent. -/
theorem mem_emit {sent : List InFlight} {pos : Int} {bytes : List UInt8} {x : InFlight}
    (h : x ∈ emit sent pos bytes) : x ∈ sent ∨ bytes ≠ [] ∧ x = ⟨pos, bytes⟩ := by
  unfold emit at h
  split at h
  · exact .inl h
  · next hne =>
    rcases List.mem_append.mp h with h | h
    · exact .inl h
    · exact .inr ⟨hne, List.mem_singleton.mp h⟩

/-- The ends are linked by some stream. -/
def Sound (p : Pair m n) (s : Int) (controlBit : Bool) : Prop :=
  ∃ e sent u w log fin, p.Linked s controlBit e sent u w log fin

section

variable {p p' : Pair m n} {s : Int} {controlBit : Bool} {e sent u w : Int}
  {log : Int → List UInt8} {fin : Option Int}

private theorem Linked.tryWrite (h : p.Linked s controlBit e sent u w log fin) {buf : List UInt8}
    (hs : p.step (.tryWrite buf) = .ok p') :
    p'.Sound s controlBit ∧ ∀ q, p.Stored q → p'.Stored q := by
  obtain ⟨⟨tx, written, ready⟩, hw, rfl⟩ := map_eq_ok.mp hs
  obtain ⟨e', sent', log', htx, hc, hspan⟩ := h.tx.tryWrite hw
  have hsame := Transmitter.tryWrite_samePhase hw
  refine ⟨⟨e', sent', u, w, log', fin, h.of_tx htx hc hsame.controlBit (le_refl _) h.acked
    (by rw [h.accepted, hspan]) fun hcl ↦ ?_⟩, fun q hq ↦ hq⟩
  rw [hsame.endOfStream]
  exact h.closed hcl

private theorem Linked.flush (h : p.Linked s controlBit e sent u w log fin)
    (hs : p.step .flush = .ok p') :
    p'.Sound s controlBit ∧ ∀ q, p.Stored q → p'.Stored q := by
  cases hs
  obtain ⟨sent', fin', htx, hc, hopen⟩ := h.tx.flush
  refine ⟨⟨e, sent', u, w, log, fin', h.of_tx htx hc p.tx.flush_sameStream.controlBit (le_refl _)
    h.acked h.accepted fun hcl ↦ ?_⟩, fun q hq ↦ hq⟩
  obtain ⟨heos, hfin⟩ := h.closed hcl
  exact ⟨(hopen heos).1, (hopen heos).2.trans hfin⟩

private theorem Linked.close (h : p.Linked s controlBit e sent u w log fin)
    (hs : p.step .close = .ok p') :
    p'.Sound s controlBit ∧ ∀ q, p.Stored q → p'.Stored q := by
  obtain ⟨tx, hok, rfl⟩ := map_eq_ok.mp hs
  obtain ⟨tx', e', sent', fin', hok', htx, hc, hbit⟩ := h.tx.close
  obtain rfl : tx' = tx := Except.ok.inj (hok'.symm.trans hok)
  have hle := h.tx.source.queue.spans.le
  have hstart := h.tx.source.start_le
  have hspan := h.tx.source.queue.span_eq (hstart.trans hle) hc.end_le
  exact ⟨⟨e', sent', u, w, log, fin', h.of_tx htx hc hbit (le_refl _) h.acked
    (h.accepted.trans hspan.symm) fun hcl ↦ nomatch hcl⟩, fun q hq ↦ hq⟩

private theorem Linked.getBufferToSend (h : p.Linked s controlBit e sent u w log fin)
    {now : Uptime} {draw next : Nat} (hs : p.step (.getBufferToSend now draw next) = .ok p') :
    p'.Sound s controlBit ∧ ∀ q, p.Stored q → p'.Stored q := by
  obtain ⟨sent', hle, hsrc, hpace, hout⟩ := h.tx.source.getBufferToSend h.tx.pace now draw next
  have hsame := (Transmitter.getBufferToSend_path h.tx.source.queue.spans now draw next).sameStream
  have hstart := h.tx.source.start_le
  rw [step] at hs
  revert hs hsrc hpace hout hsame
  rcases p.tx.getBufferToSend now draw next with ⟨tx, out, next'⟩
  intro hs hsrc hpace hout hsame
  dsimp only at hs hsrc hpace hout hsame
  have hl : (p.withTx tx).Linked s controlBit e sent' u w log fin :=
    h.of_tx ⟨hsrc, hpace⟩ ⟨le_refl e, hle, fun _ _ ↦ rfl, .inl rfl⟩ hsame.controlBit (le_refl _)
      h.acked h.accepted fun hcl ↦ by rw [hsame.endOfStream]; exact h.closed hcl
  cases out with
  | none =>
    cases hs
    exact ⟨⟨e, sent', u, w, log, fin, hl⟩, fun q hq ↦ hq⟩
  | some pos =>
    cases hs
    obtain ⟨q, rfl, hq, hqs, hdata⟩ := hout pos rfl
    have hcap := capacity_le m
    have hus := h.tx.source.queue.spans.used
    have hse := hpace.le_end
    refine ⟨⟨e, sent', u, w, log, fin, { hl with data := fun x hx ↦ ?_ }⟩, fun q hq ↦ hq⟩
    dsimp only at hx
    rcases mem_emit hx with hx | ⟨-, rfl⟩
    · exact hl.data x hx
    · dsimp only
      rw [txPos_eq h.tx.source.queue.spans hq (by omega), hdata, h.txBit]
      exact ⟨by omega, hqs, rfl⟩

private theorem Linked.tryRead (h : p.Linked s controlBit e sent u w log fin) {count : Nat}
    (hs : p.step (.tryRead count) = .ok p') :
    p'.Sound s controlBit ∧ ∀ q, p.Stored q → p'.Stored q := by
  obtain ⟨⟨rx, bytes, ready⟩, hok, rfl⟩ := map_eq_ok.mp hs
  obtain ⟨rx', bytes', ready', b', hok', hb, hrx, hrec⟩ := h.rx.tryRead count
  obtain ⟨rfl, rfl, rfl⟩ : rx' = rx ∧ bytes' = bytes ∧ ready' = ready := by
    rw [hok] at hok'
    cases hok'
    exact ⟨rfl, rfl, rfl⟩
  obtain ⟨hl, hst⟩ := h.of_rx hrx (Receiver.tryRead_sameLink hok).controlBit hb (le_refl u)
    (le_refl w) h.received hrec
  exact ⟨⟨e, sent, u, w, log, fin, hl⟩, hst⟩

private theorem Linked.look (h : p.Linked s controlBit e sent u w log fin) :
    (p.withRx p.rx.look).Sound s controlBit ∧
      ∀ q, p.Stored q → (p.withRx p.rx.look).Stored q := by
  obtain ⟨hl, hst⟩ := h.of_rx h.rx.look p.rx.look_sameLink.controlBit (le_refl _) (le_refl u)
    (le_refl w) h.received fun q _ _ hr ↦ by
      rw [Receiver.Received, Receiver.bufferAt, Receiver.look_inBuffers]
      exact hr
  exact ⟨⟨e, sent, u, w, log, fin, hl⟩, hst⟩

private theorem Linked.ack (h : p.Linked s controlBit e sent u w log fin)
    (hs : p.step .ack = .ok p') :
    p'.Sound s controlBit ∧ ∀ q, p.Stored q → p'.Stored q := by
  cases hs
  have hcap := capacity_le n
  have hus := h.rx.window.spans.used
  have hbu := h.rx.window.begin_le
  have hue := h.rx.window.le_end
  obtain ⟨needsAck, hfst⟩ : ∃ needsAck, p.rx.ack.1 = { p.rx with
      needsAck := needsAck
      recvHimark := p.rx.recvHimark
      recvHimarkUpdateExpiration := p.rx.recvHimarkUpdateExpiration } := by
    rcases p.rx.ack_fst with he | ⟨-, he⟩
    · exact ⟨_, he⟩
    · exact ⟨_, he⟩
  have hpos : p.rxPos p.rx.unackSeq = u := by
    rw [h.rx.window.unack_eq]
    exact rxPos_eq h.rx.window.spans hbu (by omega)
  have hsink : p.rx.ack.1.Sink s p.rxBegin u w log fin p.read := by
    rw [hfst]
    exact h.rx.sent ..
  obtain ⟨hl, hst⟩ := h.of_rx hsink (by rw [hfst]) (le_refl _) (le_refl u) (le_refl w) h.received
    fun q _ _ hr ↦ by rw [hfst]; exact hr
  refine ⟨⟨e, sent, u, w, log, fin, { hl with acks := fun x hx ↦ ?_ }⟩, hst⟩
  dsimp only at hx
  rcases mem_emit hx with hx | ⟨hne, rfl⟩
  · exact hl.acks x hx
  · obtain ⟨bitmap, hbytes, -, hbits⟩ := h.rx.window.ack hne
    dsimp only
    rw [hpos]
    refine ⟨le_refl u, bitmap, by rw [hbytes, h.rxBit], fun j hj ↦ hst _ ?_⟩
    rw [h.stored_iff]
    exact .inr ((hbits j).mp hj).2

private theorem Linked.updateRecvHimark (h : p.Linked s controlBit e sent u w log fin)
    {now : Uptime} {next : Nat} (hs : p.step (.updateRecvHimark now next) = .ok p') :
    p'.Sound s controlBit ∧ ∀ q, p.Stored q → p'.Stored q := by
  have hcap := capacity_le n
  have hadd := h.rx.window.spans.begin_add_capacity
  have hpos : p.rxPos (p.rx.inRing.begin_.add p.rx.inRing.capacity) = p.rxBegin + 2 ^ n.val := by
    have := one_le_capacity n
    rw [hadd]
    exact rxPos_eq h.rx.window.spans (by omega) (by omega)
  have hsame : p.withRx p.rx = p := by
    have hb := rxPos_eq h.rx.window.spans (le_refl _) (by omega)
    rw [withRx, h.rx.window.spans.begin_eq, hb]
  have hcases := p.rx.updateRecvHimark_cases now next
  rw [step] at hs
  revert hs hcases
  rcases p.rx.updateRecvHimark now next with ⟨rx, bytes, next'⟩
  intro hs hcases
  dsimp only at hs hcases
  cases hs
  rcases hcases with ⟨rfl, rfl⟩ | ⟨rfl, rfl⟩
  · rw [hsame]
    exact ⟨⟨e, sent, u, w, log, fin, h⟩, fun q hq ↦ hq⟩
  · obtain ⟨hl, hst⟩ := h.of_rx (h.rx.sent p.rx.needsAck
      (p.rx.inRing.begin_.add p.rx.inRing.capacity) (now + 100000)) rfl (le_refl _) (le_refl u)
      (le_refl w) h.received fun q _ _ hr ↦ hr
    refine ⟨⟨e, sent, u, w, log, fin, { hl with himarks := fun x hx ↦ ?_ }⟩, hst⟩
    dsimp only at hx
    rcases mem_emit hx with hx | ⟨-, rfl⟩
    · exact hl.himarks x hx
    · have hb : (p.withRx { p.rx with
          recvHimark := p.rx.inRing.begin_.add p.rx.inRing.capacity
          recvHimarkUpdateExpiration := now + 100000 }).rxBegin = p.rxBegin := by
        dsimp only [withRx]
        rw [h.rx.window.spans.begin_eq]
        exact rxPos_eq h.rx.window.spans (le_refl _) (by omega)
      dsimp only
      rw [hpos, hb, h.rxBit, ← hadd]
      exact ⟨le_refl _, rfl⟩

private theorem Linked.receiveData (h : p.Linked s controlBit e sent u w log fin) {x : InFlight}
    (hx : x ∈ p.data) (hreach : InReach p.rxBegin x.pos) (hs : p.receiveData x = .ok p') :
    p'.Sound s controlBit ∧ ∀ q, p.Stored q → p'.Stored q := by
  obtain ⟨⟨rx, ack, new⟩, hok, rfl⟩ := map_eq_ok.mp hs
  obtain ⟨hl, hu⟩ := hreach
  obtain ⟨-, hsent, hbytes⟩ := h.data x hx
  have hse := h.tx.pace.le_end
  have hrec := h.received
  rw [hbytes, Transmitter.packetAt, loadBeU16_store, drop_storeBeU16, getPacketSeq_format,
    getPacketType_format, getPacketControlBit_format] at hok
  obtain ⟨u', w', hrx, hu', hw', hend, hkept⟩ := h.rx.handleDataPacket
    (h.rx.window.spans.restore_exact hl (by omega)) hl (by omega) (h.tx.source.queue.size x.pos)
    (by simp [Transmitter.typeAt]) (fun f hf ↦ by have := (h.tx.source.final f hf).1; omega) hok
  obtain ⟨hl', hst⟩ := h.of_rx hrx (Receiver.handleDataPacket_same hok).2.2 (le_refl _) hu' hw'
    (by omega) hkept
  exact ⟨⟨e, sent, u', w', log, fin, hl'⟩, hst⟩

private theorem Linked.receiveAck (h : p.Linked s controlBit e sent u w log fin) {x : InFlight}
    (hx : x ∈ p.acks) (hreach : InReach p.txBegin x.pos) (hs : p.receiveAck x = .ok p') :
    p'.Sound s controlBit ∧ ∀ q, p.Stored q → p'.Stored q := by
  obtain ⟨⟨tx, rushed⟩, hok, rfl⟩ := map_eq_ok.mp hs
  obtain ⟨hl, hu⟩ := hreach
  obtain ⟨hpos, bitmap, hbytes, -⟩ := h.acks x hx
  have hue := h.rx.window.le_end
  have hrec := h.received
  have hack := h.acked
  rw [hbytes, loadBeU16_store, drop_storeBeU16, getPacketSeq_format] at hok
  obtain ⟨tx', rushed', b', e', sent', fin', hok', htx, hc, hbit, hopen, hb, hbq⟩ := h.tx.ack
    (h.tx.source.queue.spans.restore_exact hl (by omega)) hl (by omega) (by omega) _ bitmap
  obtain rfl : tx' = tx := by
    rw [hok'] at hok
    cases hok
    rfl
  have hle := h.tx.source.queue.spans.le
  have hstart := h.tx.source.start_le
  have hspan := h.tx.source.queue.span_eq (hstart.trans hle) hc.end_le
  refine ⟨⟨e', sent', u, w, log, fin', h.of_tx htx hc hbit hb (by omega)
    (h.accepted.trans hspan.symm) fun hcl ↦ ?_⟩, fun q hq ↦ hq⟩
  obtain ⟨heos, hfin⟩ := h.closed hcl
  exact ⟨(hopen heos).1, (hopen heos).2.trans hfin⟩

private theorem Linked.receiveHimark (h : p.Linked s controlBit e sent u w log fin) {x : InFlight}
    (hs : p.receiveHimark x = .ok p') :
    p'.Sound s controlBit ∧ ∀ q, p.Stored q → p'.Stored q := by
  cases hs
  obtain ⟨sent', fin', htx, hc, hbit, hopen⟩ := h.tx.updateRecvHimark
    (getPacketControlBit (loadBeU16 x.bytes)) (getPacketSeq (loadBeU16 x.bytes))
  refine ⟨⟨e, sent', u, w, log, fin', h.of_tx htx hc hbit (le_refl _) h.acked h.accepted
    fun hcl ↦ ?_⟩, fun q hq ↦ hq⟩
  obtain ⟨heos, hfin⟩ := h.closed hcl
  exact ⟨(hopen heos).1, (hopen heos).2.trans hfin⟩

/-- Every step within reach keeps the ends linked, and what is stored stays stored. -/
theorem Sound.step {a : Act} (h : p.Sound s controlBit) (hg : WithinReach p a)
    (hs : p.step a = .ok p') :
    p'.Sound s controlBit ∧ ∀ q, p.Stored q → p'.Stored q := by
  obtain ⟨e, sent, u, w, log, fin, h⟩ := h
  have hsame : p.Sound s controlBit ∧ ∀ q, p.Stored q → p.Stored q :=
    ⟨⟨e, sent, u, w, log, fin, h⟩, fun _ hq ↦ hq⟩
  cases a with
  | tryWrite => exact h.tryWrite hs
  | flush => exact h.flush hs
  | close => exact h.close hs
  | getBufferToSend => exact h.getBufferToSend hs
  | tryRead => exact h.tryRead hs
  | peek =>
    rw [Pair.step, Receiver.peek_fst] at hs
    cases hs
    exact h.look
  | availableForRead =>
    rw [Pair.step, Receiver.availableForRead_fst] at hs
    cases hs
    exact h.look
  | ack => exact h.ack hs
  | updateRecvHimark => exact h.updateRecvHimark hs
  | deliverData i =>
    rcases deliver_cases hs with rfl | ⟨x, hx, hs⟩
    · exact hsame
    · exact h.receiveData (List.mem_of_getElem? hx) (hg x hx) hs
  | deliverAck i =>
    rcases deliver_cases hs with rfl | ⟨x, hx, hs⟩
    · exact hsame
    · exact h.receiveAck (List.mem_of_getElem? hx) (hg x hx) hs
  | deliverHimark i =>
    rcases deliver_cases hs with rfl | ⟨x, -, hs⟩
    · exact hsame
    · exact h.receiveHimark hs

/-- A pair starts out linked by the empty stream. -/
theorem linked_start {t : Transmitter m} {txStreamId rxStreamId : UInt32} {seq : SeqNum}
    {peerReceiveBufferSize : Nat}
    (h : start t n txStreamId rxStreamId seq peerReceiveBufferSize controlBit = .ok p) :
    p.Linked seq.raw.toNat controlBit seq.raw.toNat seq.raw.toNat seq.raw.toNat seq.raw.toNat
      (fun _ ↦ []) none := by
  obtain ⟨tx, htx, hrest⟩ := bind_eq_ok.mp h
  obtain ⟨rx, hrx, rfl⟩ := map_eq_ok.mp hrest
  rw [Receiver.reconnect_ok] at hrx
  cases hrx
  have hsink := Receiver.sink_reconnected (r := Receiver.new n) (s := seq.raw.toNat) rfl
    (fun _ ↦ ⟨Nat.zero_le _, Nat.zero_le _⟩) rxStreamId !controlBit
  rw [← SeqNum.ofPos_raw seq] at htx
  have htx' := Transmitter.sender_setConnected htx peerReceiveBufferSize controlBit
  rw [Transmitter.init_ok] at htx
  rw [SeqNum.ofPos_raw] at hsink
  refine ⟨htx', hsink, rfl, rfl, by simp, le_refl _, le_refl _,
    fun _ ↦ ⟨?_, rfl⟩, by simp, by simp, by simp⟩
  cases htx
  rfl

end

/-- The effects of an action on the transmitter. Only an acknowledgement marks packets as
received, those its bitmap names from the start of the window on. -/
def Marks (p : Pair m n) (a : Act) (effs : List Effect) : Prop :=
  (∀ q, Effect.skip q ∉ effs) ∨ ∃ i x q, a = .deliverAck i ∧ p.acks[i]? = some x ∧
    p.tx.outRing.restorePosHighBits (getPacketSeq (loadBeU16 x.bytes)) 12 = .ofPos q ∧
    p.txBegin - 2048 ≤ q ∧ q < p.txBegin + 2048 ∧
    ∀ eff ∈ effs, eff.AckedBy q (max p.txBegin q) ((x.bytes.drop 2).flatMap bitsMsb)

/-- The transmitter moves on, its window by less than half the sequence numbers. -/
def TxMoves (p : Pair m n) (a : Act) (e : Int) (p' : Pair m n) : Prop :=
  p'.txBegin < p.txBegin + 2048 ∧ ∃ effs e',
    Path Transmitter.Moves (p.tx, p.txBegin, e) effs (p'.tx, p'.txBegin, e') ∧ p.Marks a effs

section

variable {p p' : Pair m n} {a : Act} {e : Int}

private theorem TxMoves.refl (p : Pair m n) (htx : p'.tx = p.tx) (hb : p'.txBegin = p.txBegin) :
    p.TxMoves a e p' := by
  rw [TxMoves, htx, hb]
  exact ⟨by omega, [], e, .nil _, .inl (by simp)⟩

private theorem TxMoves.of_path (hs : p.tx.outRing.Spans p.txBegin e) {tx : Transmitter m}
    {b' e' : Int} {effs : List Effect} (hu : b' < p.txBegin + 2048)
    (hpath : Path Transmitter.Moves (p.tx, p.txBegin, e) effs (tx, b', e')) (hm : p.Marks a effs)
    (htx : p'.tx = tx) (hb : p'.txBegin = p.txPos tx.outRing.begin_) : p.TxMoves a e p' := by
  rw [TxMoves, htx, hb, (Transmitter.path_spans hpath hs).begin_eq,
    txPos_eq hs (Transmitter.path_mono hpath hs).1 (by omega)]
  exact ⟨hu, effs, e', hpath, hm⟩

private theorem getBufferToSend_tx (hs : p.tx.outRing.Spans p.txBegin e) {now : Uptime}
    {draw next : Nat} (h : p.step (.getBufferToSend now draw next) = .ok p') :
    p.TxMoves (.getBufferToSend now draw next) e p' := by
  have hsend := Transmitter.getBufferToSend_path hs now draw next
  rw [step] at h
  revert h hsend
  rcases p.tx.getBufferToSend now draw next with ⟨tx, out, next'⟩
  intro h hsend
  dsimp only at h hsend
  obtain ⟨htx, hb⟩ : p'.tx = tx ∧ p'.txBegin = p.txPos tx.outRing.begin_ := by
    cases out <;> (cases h; exact ⟨rfl, rfl⟩)
  cases hsend with
  | idle effs hpath hk =>
    refine .of_path hs (by omega) hpath (.inl fun q hq ↦ ?_) htx hb
    obtain ⟨_, hx⟩ := hk _ hq
    cases hx
  | sent effs fast hpath hk hm =>
    refine .of_path hs (by omega) (hpath.append (.single hm)) (.inl fun q hq ↦ ?_) htx hb
    rcases List.mem_append.mp hq with hq | hq
    · obtain ⟨_, hx⟩ := hk _ hq
      cases hx
    · cases List.mem_singleton.mp hq
  | stray _ _ hm => exact .of_path hs (by omega) (.single hm) (.inl (by simp)) htx hb

private theorem deliverAck_tx (hs : p.tx.outRing.Spans p.txBegin e) {i : Nat}
    (h : p.step (.deliverAck i) = .ok p') : p.TxMoves (.deliverAck i) e p' := by
  rcases deliver_cases h with rfl | ⟨x, hx, h⟩
  · exact .refl _ rfl rfl
  obtain ⟨⟨tx, rushed⟩, hack, rfl⟩ := map_eq_ok.mp h
  obtain ⟨tx', rushed', hack', hacking⟩ := Transmitter.ack_path hs
    (getPacketControlBit (loadBeU16 x.bytes)) (getPacketSeq (loadBeU16 x.bytes)) (x.bytes.drop 2)
  obtain ⟨rfl, rfl⟩ : tx' = tx ∧ rushed' = rushed := by
    rw [hack'] at hack
    cases hack
    exact ⟨rfl, rfl⟩
  cases hacking with
  | ignored => exact .of_path hs (by omega) (.nil _) (.inl (by simp)) rfl rfl
  | applied effs _ _ hq hl hu _ hpath hk =>
    exact .of_path hs (by omega) hpath (.inr ⟨i, x, _, rfl, hx, hq, hl, hu, hk⟩) rfl rfl

private theorem deliverHimark_tx (hs : p.tx.outRing.Spans p.txBegin e) {i : Nat}
    (h : p.step (.deliverHimark i) = .ok p') : p.TxMoves (.deliverHimark i) e p' := by
  rcases deliver_cases h with rfl | ⟨x, -, h⟩
  · exact .refl _ rfl rfl
  have hpath := Transmitter.updateRecvHimark_path hs (getPacketControlBit (loadBeU16 x.bytes))
    (getPacketSeq (loadBeU16 x.bytes))
  rw [receiveHimark] at h
  revert h hpath
  generalize (p.tx.updateRecvHimark (getPacketControlBit (loadBeU16 x.bytes))
    (getPacketSeq (loadBeU16 x.bytes))).1 = tx
  intro h hpath
  cases h
  rcases hpath with rfl | ⟨q, -, -, hm⟩
  · exact .of_path hs (by omega) (.nil _) (.inl (by simp)) rfl rfl
  · exact .of_path hs (by omega) (.single hm) (.inl (by simp)) rfl rfl

/-- What a step does to the transmitter. -/
theorem step_tx (hs : p.tx.outRing.Spans p.txBegin e) (h : p.step a = .ok p') :
    p.TxMoves a e p' := by
  cases a with
  | tryWrite buf =>
    obtain ⟨⟨tx, written, ready⟩, hw, rfl⟩ := map_eq_ok.mp h
    obtain ⟨-, effs, e', hpath, -, hk⟩ := Transmitter.tryWrite_path hs hw
    exact .of_path hs (by omega) hpath (.inl fun q hq ↦ hk _ hq) rfl rfl
  | flush =>
    cases h
    obtain ⟨effs, hpath, hk⟩ := Transmitter.flush_path p.tx p.txBegin e
    exact .of_path hs (by omega) hpath (.inl fun q hq ↦ nomatch hk _ hq) rfl rfl
  | close =>
    obtain ⟨tx, hok, rfl⟩ := map_eq_ok.mp h
    obtain ⟨tx', effs, e', hok', hpath, -, -, hk⟩ := Transmitter.close_path hs
    obtain rfl : tx' = tx := Except.ok.inj (hok'.symm.trans hok)
    exact .of_path hs (by omega) hpath (.inl fun q hq ↦ hk _ hq) rfl rfl
  | getBufferToSend now draw next => exact getBufferToSend_tx hs h
  | tryRead count =>
    obtain ⟨⟨rx, bytes, ready⟩, -, rfl⟩ := map_eq_ok.mp h
    exact .refl p rfl rfl
  | peek => cases h; exact .refl p rfl rfl
  | availableForRead => cases h; exact .refl p rfl rfl
  | ack => cases h; exact .refl p rfl rfl
  | updateRecvHimark => cases h; exact .refl p rfl rfl
  | deliverData i =>
    rcases deliver_cases h with rfl | ⟨x, -, h⟩
    · exact .refl _ rfl rfl
    · obtain ⟨⟨rx, ack, new⟩, -, rfl⟩ := map_eq_ok.mp h
      exact .refl p rfl rfl
  | deliverAck i => exact deliverAck_tx hs h
  | deliverHimark i => exact deliverHimark_tx hs h

end

/-! ### Every run -/

/-- While packets arrive within reach, what was read is a prefix of what was written; the end
of the stream is seen only after `close`, with everything read; and reading fails no
check. -/
theorem delivers_in_order {t : Transmitter m} {txStreamId rxStreamId : UInt32} {s : SeqNum}
    {peerReceiveBufferSize : Nat} {controlBit : Bool} {p0 p : Pair m n}
    (h0 : start t n txStreamId rxStreamId s peerReceiveBufferSize controlBit = .ok p0)
    (hr : Reachable step WithinReach p0 p) :
    p.read <+: p.accepted ∧
      (p.rx.endOfStream = true → p.closed = true ∧ p.read = p.accepted) ∧
      ∀ count, ∃ out, p.rx.tryRead count = .ok out := by
  obtain ⟨e, sent, u, w, log, fin, h⟩ := hr.invariant (fun p ↦ p.Sound s.raw.toNat controlBit)
    ⟨_, _, _, _, _, _, linked_start h0⟩ fun p a p' hp hg hs ↦ (hp.step hg hs).1
  have hstart := h.rx.start_le
  have hbw := h.rx.window.spans.le
  have hwe := h.received.trans h.tx.pace.le_end
  refine ⟨?_, fun heos ↦ ?_, fun count ↦ ?_⟩
  · rw [h.rx.read_eq, h.accepted]
    rcases eq_or_lt_of_le (hbw.trans hwe) with hbe | hlt
    · obtain rfl : p.rxBegin = w := by omega
      rw [h.rx.front.offset_eq_zero h.rx.window.spans, List.take_zero, List.append_nil, hbe]
    · rw [← span_append log (hstart.trans (Int.le_add_one (le_refl _))) hlt,
        span_succ log hstart, List.append_assoc]
      exact (List.prefix_append_right_inj _).mpr
        ((List.take_prefix _ _).trans (List.prefix_append _ _))
  · have hfin := h.rx.ended heos
    have hlast := (h.tx.source.final _ hfin).1
    obtain rfl : p.rxBegin = w := by omega
    refine ⟨?_, ?_⟩
    · by_contra hcl
      have := (h.closed (by simpa using hcl)).2
      exact nomatch hfin.symm.trans this
    · obtain rfl : p.rxBegin = e := by omega
      rw [h.rx.read_eq, h.accepted, h.rx.front.offset_eq_zero h.rx.window.spans, List.take_zero,
        List.append_nil]
  · obtain ⟨rx, bytes, ready, -, hok, -⟩ := h.rx.tryRead count
    exact ⟨_, hok⟩

/-- Two ends connected at sequence number zero. -/
def connectedAtZero (m n : LinkBufferSize) (peerReceiveBufferSize : Nat) : Pair m n where
  tx := { Transmitter.new m with
    myStreamId := 1
    state := .connected
    peerReceiveBufferSize := peerReceiveBufferSize
    recvHimark := (SeqNum.mk 0).add peerReceiveBufferSize }
  rx := { Receiver.new n with myStreamId := 2, state := .connected, controlBit := true }
  txBegin := 0
  rxBegin := 0
  data := []
  acks := []
  himarks := []
  accepted := []
  read := []
  closed := false

/-- A stream of two packets whose final packet overtakes the data is read in order. -/
theorem delivers_in_order_overtaken : ∃ p : Pair 1 1,
    start (Transmitter.new 1) 1 1 2 ⟨0⟩ 2 false = .ok (connectedAtZero 1 1 2) ∧
      Reachable step WithinReach (connectedAtZero 1 1 2) p ∧ p.rx.endOfStream = true ∧
      p.accepted = [7, 8] ∧ p.read = p.accepted := by
  obtain ⟨p, hp, ht⟩ := Reachable.of_test step WithinReach (connectedAtZero 1 1 2)
    [.tryWrite [7, 8], .close, .getBufferToSend 0 0 0, .getBufferToSend 0 0 0, .deliverData 1,
      .tryRead 4, .deliverData 0, .deliverData 1, .tryRead 4]
    (fun p ↦ p.rx.endOfStream = true ∧ p.accepted = [7, 8]) (by decide) (by decide)
  obtain ⟨heos, hacc⟩ := of_decide_eq_true ht
  have hstart : start (Transmitter.new 1) 1 1 2 ⟨0⟩ 2 false = .ok (connectedAtZero 1 1 2) := rfl
  exact ⟨p, hstart, hp, heos, hacc, ((delivers_in_order hstart hp).2.1 heos).2⟩

end Pair

end RooTransport.Link
