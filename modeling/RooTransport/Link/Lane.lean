import RooTransport.Link.StreamEnds
import RooTransport.Link.Wire

/-!
# One direction of a link over an ordered medium

The pair of `Wire`, with a record of the bytes that went in and came out. The medium loses
packets but keeps the order of the others, and nothing else is assumed of it: numbers are
always reconstructed, so the bytes read are the bytes written, in order.
-/

namespace RooTransport.Link

open RooTransport.Base RingBuffer

/-- Both ends of one direction, and what passed through. -/
structure Lane (m n : LinkBufferSize) where
  wire : Wire m n
  /-- The bytes `tryWrite` took. -/
  accepted : List UInt8
  /-- The bytes `tryRead` gave. -/
  read : List UInt8
  /-- Whether `close` was called. -/
  closed : Bool

namespace Lane

variable {m n : LinkBufferSize}

/-- A new transmitter and a new receiver, connected to one another. -/
def start (m n : LinkBufferSize) (txStreamId rxStreamId : UInt32) (s : SeqNum)
    (controlBit : Bool) : Except Check (Lane m n) :=
  (Wire.start (Transmitter.new m) (Receiver.new n) txStreamId rxStreamId s controlBit false).map
    fun wire ↦ { wire, accepted := [], read := [], closed := false }

/-- The bytes that a call takes from the writer. -/
def taken (w : Wire m n) : Wire.Act → List UInt8
  | .tryWrite buf =>
    match w.tx.tryWrite buf with
    | .ok (_, written, _) => buf.take written
    | .error _ => []
  | _ => []

/-- The bytes that a call gives to the reader. -/
def given (w : Wire m n) : Wire.Act → List UInt8
  | .tryRead count =>
    match w.rx.tryRead count with
    | .ok (_, bytes, _) => bytes
    | .error _ => []
  | _ => []

/-- One call, delivery or loss. -/
def step (l : Lane m n) (a : Wire.Act) : Except Check (Lane m n) :=
  (l.wire.step a).map fun wire ↦
    { wire
      accepted := l.accepted ++ taken l.wire a
      read := l.read ++ given l.wire a
      closed := l.closed || decide (a = .close) }

/-- The reader does not close its end. -/
def InputOpen (_ : Lane m n) (a : Wire.Act) : Prop := a ≠ .markInputClosed

instance (l : Lane m n) (a : Wire.Act) : Decidable (l.InputOpen a) :=
  inferInstanceAs (Decidable (a ≠ _))

end Lane

/-! ### What is under way -/

/-- What the receiver tells the transmitter: that it has everything below `a` and what `bitmap`
names past it, or that it has room up to `k`. -/
inductive Notice where
  | ack (a : Int) (bitmap : List UInt8)
  | himark (k : Int)

namespace Notice

/-- The packet that carries it. -/
def packet (controlBit : Bool) : Notice → Sent
  | .ack a bitmap =>
    ⟨.ofPos a, storeBeU16 (formatPacketHeader (.ofPos a) .dataAck controlBit) ++ bitmap⟩
  | .himark k => ⟨.ofPos k, storeBeU16 (formatPacketHeader (.ofPos k) .flowControl controlBit)⟩

/-- The packet of an acknowledgement starts with its header. -/
theorem header_ack (a : Int) (bitmap : List UInt8) (controlBit : Bool) :
    loadBeU16 ((Notice.ack a bitmap).packet controlBit).bytes =
      formatPacketHeader (.ofPos a) .dataAck controlBit := by
  rw [packet, loadBeU16_store]

/-- The bitmap follows the header. -/
theorem payload_ack (a : Int) (bitmap : List UInt8) (controlBit : Bool) :
    ((Notice.ack a bitmap).packet controlBit).bytes.drop 2 = bitmap := by
  rw [packet, drop_storeBeU16]

/-- The packet of a himark is its header. -/
theorem header_himark (k : Int) (controlBit : Bool) :
    loadBeU16 ((Notice.himark k).packet controlBit).bytes =
      formatPacketHeader (.ofPos k) .flowControl controlBit := by
  rw [packet, ← List.append_nil (storeBeU16 _), loadBeU16_store]

/-- The two kinds of notices have different packets. -/
theorem ack_ne_himark {a k : Int} {bitmap : List UInt8} {controlBit : Bool} :
    (Notice.ack a bitmap).packet controlBit ≠ (Notice.himark k).packet controlBit := by
  intro heq
  have htype := congrArg Sent.type heq
  rw [Sent.type, header_ack, Sent.type, header_himark, getPacketType_format,
    getPacketType_format] at htype
  cases htype

/-- The bitmap names the position `p`. -/
def Names (a : Int) (bitmap : List UInt8) (p : Int) : Prop :=
  ∃ j : Nat, (bitmap.flatMap bitsMsb)[j]? = some true ∧ p = a + 1 + j

/-- What is said later about missing packets and about room. -/
def Before : Notice → Notice → Prop
  | .ack a bitmap, .ack a' _ => a ≤ a' ∧ ¬ Names a bitmap a'
  | .ack a _, .himark k => a ≤ k
  | .himark k, .himark k' => k ≤ k'
  | .himark _, .ack _ _ => True

/-- What is said of a transmitter's window from `b` to `e` with credit up to `k`, and of a
receiver's from `rb` to `re` with `u` the first position missing. -/
def Within {m n : LinkBufferSize} (tx : Transmitter m) (rx : Receiver n) (b e k rb u re : Int) :
    Notice → Prop
  | .ack a bitmap => b ≤ a ∧ a ≤ u ∧ tx.MarkedOnly b e (· ≠ a) ∧ bitmap.length ≤ 8 ∧
      ∀ p, Names a bitmap p → rx.Stored rb re p
  | .himark k' => b ≤ k' ∧ k ≤ k' ∧ k' ≤ rb + 2 ^ n.val

end Notice

/-- The packet of a position of a stream, as it is sent. -/
def Sent.ofLog (log : Int → List UInt8) (fin : Option Int) (controlBit : Bool) (q : Int) : Sent :=
  ⟨.ofPos q, Transmitter.packetAt log fin controlBit q⟩

namespace Lane

variable {m n : LinkBufferSize}

/-- A lane whose transmitter has its window from `b` to `e`, has sent the stream up to `f` and
has credit up to `k`, and whose receiver has its window from `rb` to `re`, with `u` the first
position missing. No timer of either runs past `d`. -/
structure Linked (l : Lane m n) (s : Int) (controlBit : Bool) (b e f k rb u re : Int)
    (d : Uptime) (log : Int → List UInt8) (fin : Option Int) : Prop where
  tx : l.wire.tx.Streaming s b e f k d log fin
  rx : l.wire.rx.Draining s rb u re d log fin l.read
  txBit : l.wire.tx.controlBit = controlBit
  rxBit : l.wire.rx.controlBit = !controlBit
  size_eq : l.wire.tx.peerReceiveBufferSize = 2 ^ n.val
  accepted : l.accepted = span log s e
  opened : l.closed = false → l.wire.tx.endOfStream = false ∧ fin = none
  ending : l.closed = true → l.wire.tx.endOfStream = true ∨ fin ≠ none
  received : re ≤ f
  acked : b ≤ u
  himark_le : k ≤ rb + 2 ^ n.val
  front : l.wire.tx.MarkedOnly b e (· ≠ b)
  marks : l.wire.tx.MarkedOnly b e (l.wire.rx.Stored rb re)
  data : InOrder (fun x q ↦ x = Sent.ofLog log fin controlBit q ∧ re ≤ q + 1024 ∧ q < f)
    (fun p q ↦ p < q + 1024) l.wire.toRx
  replies : InOrder
    (fun x y ↦ x = y.packet !controlBit ∧ y.Within l.wire.tx l.wire.rx b e k rb u re)
    Notice.Before l.wire.toTx

section

variable {l l' : Lane m n} {s : Int} {controlBit : Bool} {b e f k rb u re : Int} {d : Uptime}
  {log : Int → List UInt8} {fin : Option Int}

private theorem packetAt_continues {e' f' : Int} {log' : Int → List UInt8} {fin' : Option Int}
    (h : Transmitter.Continues e f log fin e' f' log' fin') (hfe : f ≤ e) {q : Int} (hq : q < f) :
    Sent.ofLog log' fin' controlBit q = Sent.ofLog log fin controlBit q := by
  have hiff : fin' = some q ↔ fin = some q := by
    rcases h.fin_eq with rfl | ⟨hnone, hf⟩
    · exact Iff.rfl
    · constructor
      · intro hq'
        have := hf q hq'
        omega
      · intro hq'
        exact absurd (hnone.symm.trans hq') (by simp)
  simp only [Sent.ofLog, Transmitter.packetAt, Transmitter.typeAt, h.log_eq q hq, hiff]

/-- The lane is a pair over an ordered medium. -/
theorem Linked.wire (h : l.Linked s controlBit b e f k rb u re d log fin) :
    l.wire.Ordered b e f k rb re u where
  tx := by
    refine ⟨h.tx.spans, h.tx.sender.pace.pacing, fun p hl hu ↦ ?_⟩
    rw [h.tx.sender.source.headed.header p hl hu, Transmitter.headerFor, getPacketSeq_format]
  credit := h.tx.credit
  size_eq := h.size_eq
  rx := h.rx.sink.window.spans
  unack_eq := h.rx.sink.window.unack_eq
  unack_le := h.rx.sink.window.le_end
  received := h.received
  acked := h.acked
  himark_le := h.himark_le
  data := by
    apply h.data.mono
    rintro x q ⟨rfl, hrest⟩
    refine ⟨⟨rfl, ?_⟩, hrest⟩
    rw [Sent.seqId, Sent.ofLog, Transmitter.packetAt, loadBeU16_store, getPacketSeq_format]
  replies := by
    apply h.replies.map fun
      | .ack a _ => Wire.Reply.ack a
      | .himark k' => .himark k'
    · rintro x (⟨a, bitmap⟩ | k') ⟨rfl, hy⟩
      · refine ⟨⟨⟨rfl, ?_⟩, ?_⟩, hy.1, hy.2.1⟩
        · rw [Sent.seqId, Notice.header_ack, getPacketSeq_format]
        · rw [Sent.type, Notice.header_ack, getPacketType_format]
      · refine ⟨⟨⟨rfl, ?_⟩, ?_⟩, hy⟩
        · rw [Sent.seqId, Notice.header_himark, getPacketSeq_format]
        · rw [Sent.type, Notice.header_himark, getPacketType_format]
    · rintro (⟨a, bitmap⟩ | k') (⟨a', bitmap'⟩ | k'') hvw
      · exact hvw.1
      · exact hvw
      · trivial
      · exact hvw

/-! ### Steps of one end -/

/-- A step of the transmitter, perhaps on a notice that has left the queue. -/
theorem Linked.of_tx (h : l.Linked s controlBit b e f k rb u re d log fin) {tx : Transmitter m}
    {b' e' f' k' : Int} {log' : Int → List UInt8} {fin' : Option Int} {accepted : List UInt8}
    {closed : Bool} {toTx : List Sent} (htx : tx.Streaming s b' e' f' k' d log' fin')
    (hc : Transmitter.Continues e f log fin e' f' log' fin')
    (hbit : tx.controlBit = l.wire.tx.controlBit)
    (hsize : tx.peerReceiveBufferSize = l.wire.tx.peerReceiveBufferSize)
    (hb : b' ≤ u) (hroom : k' ≤ rb + 2 ^ n.val) (hacc : accepted = span log' s e')
    (hopen : closed = false → tx.endOfStream = false ∧ fin' = none)
    (hend : closed = true → tx.endOfStream = true ∨ fin' ≠ none)
    (hfront : tx.MarkedOnly b' e' (· ≠ b')) (hmarks : tx.MarkedOnly b' e' (l.wire.rx.Stored rb re))
    (hrep : InOrder
      (fun x y ↦ x = y.packet !controlBit ∧ y.Within tx l.wire.rx b' e' k' rb u re)
      Notice.Before toTx) :
    { l with wire := { l.wire with tx, toTx }, accepted, closed }.Linked s controlBit b' e' f' k' rb
      u re d log' fin' where
  tx := htx
  rx := by
    have hrec := h.received
    have hfe := h.tx.scheduled.ordered.le_end
    apply h.rx.relog
    · exact fun q _ hq ↦ hc.log_eq q (by omega)
    · refine hc.fin_eq.imp_right fun ⟨hnone, hf⟩ ↦ ⟨hnone, fun x hx ↦ ?_⟩
      have := hf x hx
      omega
  txBit := hbit.trans h.txBit
  rxBit := h.rxBit
  size_eq := hsize.trans h.size_eq
  accepted := hacc
  opened := hopen
  ending := hend
  received := h.received.trans hc.sent_le
  acked := hb
  himark_le := hroom
  front := hfront
  marks := hmarks
  data := by
    have hfe := h.tx.scheduled.ordered.le_end
    have hff := hc.sent_le
    apply h.data.mono
    rintro x q ⟨rfl, hre, hq⟩
    exact ⟨(packetAt_continues hc hfe hq).symm, hre, by omega⟩
  replies := hrep

/-- A step of the transmitter that neither drops packets nor moves the credit. -/
theorem Linked.of_local (h : l.Linked s controlBit b e f k rb u re d log fin) {tx : Transmitter m}
    {e' f' : Int} {log' : Int → List UInt8} {fin' : Option Int} {accepted : List UInt8}
    {closed : Bool} (htx : tx.Streaming s b e' f' k d log' fin')
    (hc : Transmitter.Continues e f log fin e' f' log' fin')
    (hbit : tx.controlBit = l.wire.tx.controlBit)
    (hsize : tx.peerReceiveBufferSize = l.wire.tx.peerReceiveBufferSize)
    (hmark : ∀ P, l.wire.tx.MarkedOnly b e P → tx.MarkedOnly b e' P)
    (hacc : accepted = span log' s e')
    (hopen : closed = false → tx.endOfStream = false ∧ fin' = none)
    (hend : closed = true → tx.endOfStream = true ∨ fin' ≠ none) :
    { l with wire := { l.wire with tx }, accepted, closed }.Linked s controlBit b e' f' k rb u re d
      log' fin' := by
  apply h.of_tx htx hc hbit hsize h.acked h.himark_le hacc hopen hend (hmark _ h.front)
    (hmark _ h.marks)
  apply h.replies.mono
  rintro x (⟨a, bitmap⟩ | k') ⟨hx, hy⟩
  · exact ⟨hx, hy.1, hy.2.1, hmark _ hy.2.2.1, hy.2.2.2⟩
  · exact ⟨hx, hy⟩

/-- A step of the receiver, perhaps on a packet that has left the queue. -/
theorem Linked.of_rx (h : l.Linked s controlBit b e f k rb u re d log fin) {rx : Receiver n}
    {rb' u' re' : Int} {read : List UInt8} {toRx : List Sent}
    (hrx : rx.Draining s rb' u' re' d log fin read) (hbit : rx.controlBit = l.wire.rx.controlBit)
    (hb : rb ≤ rb') (hu : u ≤ u') (hre : re' ≤ f)
    (hstored : ∀ p, l.wire.rx.Stored rb re p → rx.Stored rb' re' p)
    (hdata : InOrder (fun x q ↦ x = Sent.ofLog log fin controlBit q ∧ re' ≤ q + 1024 ∧ q < f)
      (fun p q ↦ p < q + 1024) toRx) :
    { l with wire := { l.wire with rx, toRx }, read }.Linked s controlBit b e f k rb' u' re' d
      log fin where
  tx := h.tx
  rx := hrx
  txBit := h.txBit
  rxBit := hbit.trans h.rxBit
  size_eq := h.size_eq
  accepted := h.accepted
  opened := h.opened
  ending := h.ending
  received := hre
  acked := h.acked.trans hu
  himark_le := by
    have := h.himark_le
    omega
  front := h.front
  marks := h.marks.mono hstored
  data := hdata
  replies := by
    apply h.replies.mono
    rintro x (⟨a, bitmap⟩ | k') ⟨hx, hy⟩
    · exact ⟨hx, hy.1, hy.2.1.trans hu, hy.2.2.1, hy.2.2.2.1, fun p hp ↦
        hstored p (hy.2.2.2.2 p hp)⟩
    · exact ⟨hx, hy.1, hy.2.1, by have := hy.2.2; omega⟩

/-! ### Calls at the sending end -/

private theorem Linked.tryWrite (h : l.Linked s controlBit b e f k rb u re d log fin)
    (buf : List UInt8) : Yields (l.step (.tryWrite buf)) fun l' ↦
      ∃ e' log', l'.Linked s controlBit b e' f k rb u re d log' fin := by
  obtain ⟨⟨tx, written, ready⟩, hok⟩ := h.tx.checked.tryWrite buf
  have hw : l.wire.step (.tryWrite buf) = .ok { l.wire with tx } := map_eq_ok.mpr ⟨_, hok, rfl⟩
  obtain ⟨e', log', htx, hc, hspan, hmark⟩ := h.tx.tryWrite hok
  have hsame := Transmitter.tryWrite_samePhase hok
  refine ⟨_, map_eq_ok.mpr ⟨_, hw, rfl⟩, e', log', ?_⟩
  simp only [taken, given, hok, List.append_nil, reduceCtorEq, decide_false, Bool.or_false]
  apply h.of_local htx hc hsame.controlBit hsame.peerReceiveBufferSize hmark
  · rw [h.accepted, hspan]
  · rw [hsame.endOfStream]
    exact h.opened
  · rw [hsame.endOfStream]
    exact h.ending

private theorem Linked.flush (h : l.Linked s controlBit b e f k rb u re d log fin) :
    Yields (l.step .flush) fun l' ↦ l'.Linked s controlBit b e f k rb u re d log fin := by
  obtain ⟨htx, hmark⟩ := h.tx.flush
  have hsame := l.wire.tx.flush_sameStream
  refine ⟨_, rfl, ?_⟩
  simp only [taken, given, List.append_nil, reduceCtorEq, decide_false, Bool.or_false]
  apply h.of_local htx (.refl e f log fin) hsame.controlBit hsame.peerReceiveBufferSize hmark
    h.accepted
  · rw [hsame.endOfStream]
    exact h.opened
  · rw [hsame.endOfStream]
    exact h.ending

private theorem Linked.close (h : l.Linked s controlBit b e f k rb u re d log fin) :
    Yields (l.step .close) fun l' ↦
      ∃ e' fin', l'.Linked s controlBit b e' f k rb u re d log fin' := by
  obtain ⟨tx, e', fin', hok, htx, hc, hbit, hsize, hend, hmark⟩ := h.tx.close
  have hw : l.wire.step .close = .ok { l.wire with tx } := map_eq_ok.mpr ⟨tx, hok, rfl⟩
  refine ⟨_, map_eq_ok.mpr ⟨_, hw, rfl⟩, e', fin', ?_⟩
  simp only [taken, given, List.append_nil, decide_true, Bool.or_true]
  apply h.of_local htx hc hbit hsize hmark
  · have hspan := h.tx.sender.source.queue.span_eq
      (h.tx.sender.source.start_le.trans h.tx.spans.le) hc.end_le
    rw [h.accepted, hspan]
  · simp
  · exact fun _ ↦ hend

/-- A packet handed out is behind those under way by less than a window. -/
theorem Linked.getBufferToSend (h : l.Linked s controlBit b e f k rb u re d log fin) {now : Uptime}
    (hnow : now + 2 ^ 32 ≤ d) (draw next : Nat) :
    Yields (l.step (.getBufferToSend now draw next)) fun l' ↦
      ∃ f', l'.Linked s controlBit b e f' k rb u re d log fin ∧ l'.wire.rx = l.wire.rx ∧
        l'.wire.toTx = l.wire.toTx ∧
        l'.wire.tx = (l.wire.tx.getBufferToSend now draw next).1 ∧
        ∀ p, b ≤ p → p < e → (l.wire.tx.getBufferToSend now draw next).2.1 = some (.ofPos p) →
          l'.wire.toRx = l.wire.toRx ++ [Sent.ofLog log fin controlBit p] := by
  obtain ⟨f', htx, hff, hsame, hout, hmark⟩ := h.tx.getBufferToSend hnow draw next
  rw [step, Wire.step]
  revert htx hsame hout hmark
  rcases l.wire.tx.getBufferToSend now draw next with ⟨tx, out, next'⟩
  intro htx hsame hout hmark
  dsimp only at htx hsame hout hmark
  have hl :
      { l with wire := { l.wire with tx } }.Linked s controlBit b e f' k rb u re d log fin := by
    apply h.of_local htx ⟨le_refl e, hff, fun _ _ ↦ rfl, .inl rfl⟩ hsame.controlBit
      hsame.peerReceiveBufferSize hmark h.accepted
    · rw [hsame.endOfStream]
      exact h.opened
    · rw [hsame.endOfStream]
      exact h.ending
  cases out with
  | none =>
    refine ⟨_, rfl, f', ?_, rfl, rfl, rfl, by simp⟩
    simp only [taken, given, List.append_nil, reduceCtorEq, decide_false, Bool.or_false]
    exact hl
  | some pos =>
    obtain ⟨q, rfl, hq, hqf, hdata⟩ := hout pos rfl
    have hcap := capacity_le m
    have hus := h.tx.spans.used
    have hfe := htx.scheduled.ordered.le_end
    have hrec := hl.received
    have hpost : Wire.post l.wire.toRx (.ofPos q) (tx.getOutBuffer (.ofPos q)).data =
        l.wire.toRx ++ [Sent.ofLog log fin controlBit q] := by
      rw [Wire.post, if_neg (by simp [OutBuffer.data, storeBeU16, beBytes]), Sent.ofLog, hdata,
        h.txBit]
    refine ⟨_, rfl, f', ?_, rfl, rfl, rfl, fun p hp hpe heq ↦ ?_⟩
    · simp only [taken, given, List.append_nil, reduceCtorEq, decide_false, Bool.or_false, hpost]
      refine { hl with data := hl.data.push (v := q) ⟨rfl, by omega, hqf⟩ ?_ }
      rintro y - p ⟨-, -, hp⟩
      omega
    · obtain rfl : q = p := (SeqNum.ofPos_eq (by omega) (by omega)).mp (Option.some.inj heq)
      exact hpost

/-! ### Calls at the receiving end -/

/-- A read takes bytes at the receiver's end and leaves the transmitter's alone. -/
theorem Linked.tryRead (h : l.Linked s controlBit b e f k rb u re d log fin) (count : Nat) :
    Yields (l.step (.tryRead count)) fun l' ↦
      ∃ rb', l'.Linked s controlBit b e f k rb' u re d log fin ∧ rb ≤ rb' ∧
        (248 * (u - rb) < count → rb' = u) ∧ l'.wire.tx = l.wire.tx ∧ l'.wire.toRx = l.wire.toRx ∧
        l'.wire.toTx = l.wire.toTx := by
  obtain ⟨rx, bytes, ready, rb', hok, hb, hrx, hstored, hall⟩ := h.rx.tryRead count
  have hw : l.wire.step (.tryRead count) = .ok { l.wire with rx } := map_eq_ok.mpr ⟨_, hok, rfl⟩
  refine ⟨_, map_eq_ok.mpr ⟨_, hw, rfl⟩, rb', ?_, hb, hall, rfl, rfl, rfl⟩
  simp only [taken, given, hok, List.append_nil, reduceCtorEq, decide_false, Bool.or_false]
  exact h.of_rx hrx (Receiver.tryRead_sameLink hok).controlBit hb (le_refl u) h.received hstored
    h.data

private theorem Linked.look (h : l.Linked s controlBit b e f k rb u re d log fin) :
    { l with wire := { l.wire with rx := l.wire.rx.look } }.Linked s controlBit b e f k rb u re d
      log fin := by
  apply h.of_rx h.rx.look l.wire.rx.look_sameLink.controlBit (le_refl rb) (le_refl u) h.received
  · intro p hp
    rw [Receiver.Stored, Receiver.Received, Receiver.bufferAt, Receiver.look_inBuffers]
    exact hp
  · exact h.data

/-- An acknowledgement names no position that is said to be received by a notice under way. -/
theorem Linked.ack (h : l.Linked s controlBit b e f k rb u re d log fin) :
    Yields (l.step .ack) fun l' ↦ l'.Linked s controlBit b e f k rb u re d log fin ∧
      l'.wire.tx = l.wire.tx ∧ l'.wire.toRx = l.wire.toRx ∧
      (l.wire.rx.needsAck = true → ∃ bitmap,
        l'.wire.toTx = l.wire.toTx ++ [(Notice.ack u bitmap).packet !controlBit]) := by
  obtain ⟨needsAck, hfst⟩ : ∃ needsAck, l.wire.rx.ack.1 = { l.wire.rx with
      needsAck := needsAck
      recvHimark := l.wire.rx.recvHimark
      recvHimarkUpdateExpiration := l.wire.rx.recvHimarkUpdateExpiration } := by
    rcases l.wire.rx.ack_fst with he | ⟨-, he⟩
    · exact ⟨_, he⟩
    · exact ⟨_, he⟩
  have hrx : l.wire.rx.ack.1.Draining s rb u re d log fin l.read := by
    rw [hfst]
    exact h.rx.sent needsAck l.wire.rx.recvHimark h.rx.dueBy
  have hl : { l with wire := { l.wire with rx := l.wire.rx.ack.1 } }.Linked s controlBit b e f k rb
      u re d log fin := by
    apply h.of_rx hrx (by rw [hfst]) (le_refl rb) (le_refl u) h.received
    · intro p hp
      rw [hfst]
      exact hp
    · exact h.data
  refine ⟨_, rfl, ?_⟩
  simp only [taken, given, List.append_nil, reduceCtorEq, decide_false, Bool.or_false, true_and]
  unfold Wire.post
  split
  · next hnone =>
    refine ⟨hl, fun hdue ↦ ?_⟩
    rw [Receiver.ack, if_neg (by simp [h.rx.sink.connected, hdue])] at hnone
    simp [storeBeU16, beBytes] at hnone
  next hne =>
  obtain ⟨bitmap, hbytes, hlen, hbits⟩ := h.rx.sink.window.ack hne
  have hpacket : (⟨l.wire.rx.unackSeq, l.wire.rx.ack.2⟩ : Sent) =
      (Notice.ack u bitmap).packet !controlBit := by
    rw [hbytes, h.rx.sink.window.unack_eq, h.rxBit, Notice.packet]
  have hnames (p : Int) (hp : Notice.Names u bitmap p) : l.wire.rx.Stored rb re p := by
    obtain ⟨j, hj, rfl⟩ := hp
    exact .inr ((hbits j).mp hj).2
  have hmissing := h.rx.sink.window.not_stored
  refine ⟨{ hl with replies := ?_ }, fun _ ↦ ⟨bitmap, by rw [hpacket]⟩⟩
  rw [hpacket]
  apply hl.replies.push (v := .ack u bitmap)
  · refine ⟨rfl, h.acked, le_refl u, h.marks.mono ?_, hlen, fun p hp ↦ ?_⟩
    · rintro p hp rfl
      exact hmissing hp
    · have := hnames p hp
      rw [hfst]
      exact this
  · rintro y - (⟨a, bitmap'⟩ | k') ⟨-, hy⟩
    · refine ⟨hy.2.1, fun hnamed ↦ hmissing ?_⟩
      have := hy.2.2.2.2 u hnamed
      rw [hfst] at this
      exact this
    · trivial

/-- A himark lies past everything acknowledged. -/
theorem Linked.updateRecvHimark (h : l.Linked s controlBit b e f k rb u re d log fin)
    {now : Uptime} (hnow : now + 100000 ≤ d) (next : Nat) :
    Yields (l.step (.updateRecvHimark now next)) fun l' ↦
      l'.Linked s controlBit b e f k rb u re d log fin ∧ l'.wire.tx = l.wire.tx ∧
      l'.wire.toRx = l.wire.toRx ∧
      (l.wire.rx.recvHimarkUpdateExpiration ≤ now →
        l'.wire.toTx = l.wire.toTx ++ [(Notice.himark (rb + 2 ^ n.val)).packet !controlBit]) := by
  have hadd := h.rx.sink.window.spans.begin_add_capacity
  rw [step, Wire.step, Receiver.updateRecvHimark, if_neg (by simp [h.rx.sink.connected])]
  by_cases hearly : now < l.wire.rx.recvHimarkUpdateExpiration
  · rw [if_pos hearly]
    refine ⟨_, rfl, ?_⟩
    simp only [taken, given, List.append_nil, reduceCtorEq, decide_false, Bool.or_false, true_and,
      Wire.post, if_true]
    exact ⟨h, fun hdue ↦ absurd hearly (not_lt.mpr hdue)⟩
  rw [if_neg hearly]
  refine ⟨_, rfl, ?_⟩
  simp only [taken, given, List.append_nil, reduceCtorEq, decide_false, Bool.or_false, true_and]
  have hl : { l with wire := { l.wire with rx := { l.wire.rx with
      recvHimark := l.wire.rx.inRing.begin_.add l.wire.rx.inRing.capacity
      recvHimarkUpdateExpiration := now + 100000 } } }.Linked s controlBit b e f k rb u re d
      log fin :=
    h.of_rx (h.rx.sent l.wire.rx.needsAck _ hnow) rfl (le_refl rb) (le_refl u) h.received
      (fun p hp ↦ hp) h.data
  have hqueue : Wire.post l.wire.toTx (l.wire.rx.inRing.begin_.add l.wire.rx.inRing.capacity)
      (storeBeU16 (formatPacketHeader (l.wire.rx.inRing.begin_.add l.wire.rx.inRing.capacity)
        .flowControl l.wire.rx.controlBit)) =
      l.wire.toTx ++ [(Notice.himark (rb + 2 ^ n.val)).packet !controlBit] := by
    rw [Wire.post, if_neg (by simp [storeBeU16, beBytes]), hadd, h.rxBit, Notice.packet]
  rw [hqueue]
  refine ⟨{ hl with replies := ?_ }, fun _ ↦ rfl⟩
  have hbu := h.acked
  have hue := h.rx.sink.window.le_end
  have hus := h.rx.sink.window.spans.used
  apply hl.replies.push (v := .himark (rb + 2 ^ n.val))
  · exact ⟨rfl, by omega, h.himark_le, le_refl _⟩
  · rintro y - (⟨a, bitmap⟩ | k') ⟨-, hy⟩
    · have := hy.2.1
      exact (by omega : a ≤ rb + 2 ^ n.val)
    · exact hy.2.2

/-! ### Arrivals -/

private theorem Linked.near (h : l.Linked s controlBit b e f k rb u re d log fin) {q : Int}
    (hl : re ≤ q + 1024) (hq : q < f) : b - 1024 ≤ q ∧ q < b + 1024 := by
  have hcap := capacity_le m
  have hus := h.tx.spans.used
  have hfe := h.tx.scheduled.ordered.le_end
  have hbu := h.acked
  have hue := h.rx.sink.window.le_end
  constructor
  · omega
  · omega

/-- The first packet under way reaches the receiver. If it is the one at the start of the
transmitter's window, the receiver has it from now on, and says so. -/
theorem Linked.deliverToRx (h : l.Linked s controlBit b e f k rb u re d log fin) {x : Sent}
    {rest : List Sent} (hx : l.wire.toRx = x :: rest) :
    Yields (l.step .deliverToRx) fun l' ↦
      ∃ u' re', l'.Linked s controlBit b e f k rb u' re' d log fin ∧ u ≤ u' ∧
        l'.wire.tx = l.wire.tx ∧ l'.wire.toRx = rest ∧ l'.wire.toTx = l.wire.toTx ∧
        (l.wire.rx.needsAck = true → l'.wire.rx.needsAck = true) ∧
        (x = Sent.ofLog log fin controlBit b → b < rb + 2 ^ n.val →
          ¬ (x.type = some .data ∧ x.bytes.length = 2) →
          b < u' ∧ l'.wire.rx.needsAck = true) := by
  have hdata := h.data
  rw [hx] at hdata
  obtain ⟨q, ⟨hpacket, hre, hqf⟩, hrest⟩ := hdata.pop
  have hcarries : Wire.Carries x q := by
    refine ⟨by rw [hpacket, Sent.ofLog], ?_⟩
    rw [hpacket, Sent.seqId, Sent.ofLog, Transmitter.packetAt, loadBeU16_store, getPacketSeq_format]
  obtain ⟨hrestore, hlo, hhi⟩ := h.wire.restore_data hcarries hre hqf
  have hfe := h.tx.scheduled.ordered.le_end
  have hrec := h.received
  rw [step, Wire.step, hx]
  dsimp only
  unfold Wire.receiveData
  split
  · next hempty =>
    refine ⟨_, rfl, u, re, ?_, le_refl u, rfl, rfl, rfl, id,
      fun _ _ hno ↦ absurd hempty hno⟩
    simp only [taken, given, List.append_nil, reduceCtorEq, decide_false, Bool.or_false]
    exact h.of_rx h.rx rfl (le_refl rb) (le_refl u) h.received (fun p hp ↦ hp)
      (hrest.mono fun y p hy ↦ hy.1)
  have hheader : loadBeU16 x.bytes =
      formatPacketHeader (.ofPos q) (Transmitter.typeAt fin q) controlBit := by
    rw [hpacket, Sent.ofLog, Transmitter.packetAt, loadBeU16_store]
  have hpayload : x.bytes.drop 2 = log q := by
    rw [hpacket, Sent.ofLog, Transmitter.packetAt, drop_storeBeU16]
  rw [Sent.type, hheader, hpayload, getPacketControlBit_format, getPacketType_format]
  have hfinal : decide (some (Transmitter.typeAt fin q) = some .fin) = true ↔ fin = some q := by
    simp [Transmitter.typeAt]
  obtain ⟨⟨rx, ack, new⟩, hok⟩ := l.wire.rx.handleDataPacket_total controlBit x.seqId (log q)
    (decide (some (Transmitter.typeAt fin q) = some .fin)) (h.tx.sender.source.queue.size q)
  obtain ⟨u', re', hrx, hu', hre', hend, hkeep, hnoted, hstored⟩ := h.rx.handleDataPacket hrestore
    hlo hhi (h.tx.sender.source.queue.size q) hfinal
    (fun x hx ↦ by have := (h.tx.sender.source.final x hx).1; omega) (by simp [h.rxBit]) hok
  have hbu := h.acked
  rw [hok]
  refine ⟨_, rfl, u', re', ?_, hu', rfl, rfl, rfl, hkeep, fun hb hroom _ ↦ ?_⟩
  · simp only [taken, given, List.append_nil, reduceCtorEq, decide_false, Bool.or_false]
    apply h.of_rx hrx (Receiver.handleDataPacket_same hok).2.2 (le_refl rb) hu' (by omega) hstored
    apply hrest.mono
    rintro y p ⟨⟨hy, hyre, hyf⟩, hlt⟩
    exact ⟨hy, by omega, hyf⟩
  · obtain ⟨hl, hu⟩ := h.near hre hqf
    obtain rfl : q = b := by
      have hseq := congrArg Sent.seq (hpacket.symm.trans hb)
      exact (SeqNum.ofPos_eq (by omega) (by omega)).mp hseq
    obtain ⟨hneeds, hnext⟩ := hnoted hroom
    refine ⟨?_, hneeds⟩
    by_cases hqu : q = u
    · exact hnext hqu
    · omega

/-- The notices `rest` are under way behind `v`. -/
def Behind (l : Lane m n) (controlBit : Bool) (b e k rb u re : Int) (v : Notice)
    (rest : List Sent) : Prop :=
  InOrder
    (fun x y ↦ (x = y.packet !controlBit ∧ y.Within l.wire.tx l.wire.rx b e k rb u re) ∧
      v.Before y)
    Notice.Before rest

private theorem Linked.receive_ack (h : l.Linked s controlBit b e f k rb u re d log fin) {a : Int}
    {bitmap : List UInt8} {rest : List Sent}
    (hy : (Notice.ack a bitmap).Within l.wire.tx l.wire.rx b e k rb u re)
    (hrest : l.Behind controlBit b e k rb u re (.ack a bitmap) rest) :
    Yields ({ l.wire with toTx := rest }.receiveReply ((Notice.ack a bitmap).packet !controlBit))
      fun wire ↦ ∃ e' fin', { l with wire }.Linked s controlBit a e' f k rb u re d log fin' ∧
        e ≤ e' ∧ wire.tx.finalEnd e' ≤ l.wire.tx.finalEnd e ∧ wire.rx = l.wire.rx ∧
        wire.toRx = l.wire.toRx ∧ wire.toTx = rest ∧
        (wire.tx.state = .connected → l.wire.tx.state = .connected) := by
  obtain ⟨hba, hau, hunmarked, -, hnamed⟩ := hy
  have hcarries : Wire.Carries ((Notice.ack a bitmap).packet !controlBit) a :=
    ⟨rfl, by rw [Sent.seqId, Notice.header_ack, getPacketSeq_format]⟩
  obtain ⟨hrestore, hae, hab⟩ := h.wire.restore_ack hcarries hba hau
  have hue := h.rx.sink.window.le_end
  have hrec := h.received
  have hsent (j : Nat) (hj : (bitmap.flatMap bitsMsb)[j]? = some true) : a + 1 + j < f := by
    rcases hnamed _ ⟨j, hj, rfl⟩ with hlt | ⟨hlt, -⟩
    · have := h.rx.sink.window.begin_le
      omega
    · omega
  have hforeign : (!controlBit) ≠ l.wire.tx.controlBit := by simp [h.txBit]
  obtain ⟨tx, rushed, e', fin', hok, htx, hc, hbit, hsize, hfinal, hconn, hopen, hending,
      hmarked⟩ := h.tx.ack hrestore hba (by omega) hsent hforeign
  have hwire : { l.wire with toTx := rest }.receiveReply
      ((Notice.ack a bitmap).packet !controlBit) = .ok { l.wire with tx, toTx := rest } := by
    rw [Wire.receiveReply, Sent.type, Notice.header_ack, Notice.payload_ack, getPacketType_format,
      getPacketControlBit_format]
    exact map_eq_ok.mpr ⟨_, hok, rfl⟩
  have hspan := h.tx.sender.source.queue.span_eq
    (h.tx.sender.source.start_le.trans h.tx.spans.le) hc.end_le
  refine ⟨_, hwire, e', fin', ?_, hc.end_le, hfinal, rfl, rfl, rfl, hconn⟩
  apply h.of_tx htx hc hbit hsize hau h.himark_le (h.accepted.trans hspan.symm)
  · intro hcl
    obtain ⟨heos, hnone⟩ := h.opened hcl
    exact ⟨(hopen heos).1, (hopen heos).2.trans hnone⟩
  · exact fun hcl ↦ hending (h.ending hcl)
  · exact hmarked _ hunmarked fun j _ ↦ by omega
  · exact hmarked _ h.marks fun j hj ↦ hnamed _ ⟨j, hj, rfl⟩
  · apply hrest.mono
    rintro z (⟨a', bitmap'⟩ | k') ⟨⟨hz, hr⟩, hlater⟩
    · refine ⟨hz, hlater.1, hr.2.1, hmarked _ hr.2.2.1 ?_, hr.2.2.2⟩
      rintro j hj heq
      exact hlater.2 ⟨j, hj, heq.symm⟩
    · exact ⟨hz, hlater, hr.2⟩

private theorem Linked.himark_stays (h : l.Linked s controlBit b e f k rb u re d log fin)
    {k' : Int} {seqId : BitVec 16} (hseq : seqId = (SeqNum.ofPos k').raw &&& 0x0FFF#16)
    (hy : (Notice.himark k').Within l.wire.tx l.wire.rx b e k rb u re) (hnear : k' < b + 2048)
    (hst : l.wire.tx.state = .connected)
    (hignored : (l.wire.tx.updateRecvHimark (!controlBit) seqId).1 = l.wire.tx) : k' = k := by
  obtain ⟨hbk, hkk, hroom⟩ := hy
  have hcn := capacity_le n
  have hend := h.tx.credit.end_le
  have hclose := h.wire.himark_near hroom
  have hforeign : (!controlBit) ≠ l.wire.tx.controlBit := by simp [h.txBit]
  -- a mark in reach is taken, so it is the one that is there already
  have happlied := Transmitter.updateRecvHimark_applied hst hforeign
    ((congrArg (l.wire.tx.outRing.restorePosHighBits · 12) hseq).trans
      (h.tx.spans.restore_exact (by omega) hnear))
    (by rw [h.tx.credit.himark_eq, SeqNum.ofPos_lt (by omega) (by omega)]; omega)
    (by
      rw [h.tx.spans.end_eq, h.size_eq, SeqNum.ofPos_add,
        SeqNum.ofPos_gt (by push_cast; omega) (by push_cast; omega)]
      push_cast
      omega)
  have hmark := congrArg Transmitter.recvHimark (happlied.symm.trans hignored)
  rw [h.tx.credit.himark_eq] at hmark
  exact (SeqNum.ofPos_eq (by omega) (by omega)).mp hmark

private theorem Linked.himark_moves (h : l.Linked s controlBit b e f k rb u re d log fin)
    {k' p : Int} {seqId : BitVec 16} (hseq : seqId = (SeqNum.ofPos k').raw &&& 0x0FFF#16)
    (hy : (Notice.himark k').Within l.wire.tx l.wire.rx b e k rb u re)
    (hp : l.wire.tx.outRing.restorePosHighBits seqId 12 = .ofPos p) {tx : Transmitter m}
    (hm : Transmitter.Moves (l.wire.tx, b, e) (.himark p) (tx, b, e)) : p = k' := by
  obtain ⟨hbk, hkk, hroom⟩ := hy
  have hcn := capacity_le n
  have hcm := capacity_le m
  have hend := h.tx.credit.end_le
  have hclose := h.wire.himark_near hroom
  cases hm with
  | himark _ hl hu hge =>
    rw [h.tx.credit.himark_eq, SeqNum.ofPos_lt (by omega) (by omega)] at hge
    have hlt : k' < b + 2048 := by
      by_contra hno
      obtain rfl : k' = b + 2048 := by omega
      rw [hseq, h.tx.spans.restore_half, SeqNum.ofPos_eq (by omega) (by omega)] at hp
      omega
    rw [hseq, h.tx.spans.restore_exact (by omega) hlt,
      SeqNum.ofPos_eq (by omega) (by omega)] at hp
    exact hp.symm

private theorem Linked.receive_himark (h : l.Linked s controlBit b e f k rb u re d log fin)
    {k' : Int} {rest : List Sent}
    (hy : (Notice.himark k').Within l.wire.tx l.wire.rx b e k rb u re)
    (hrest : l.Behind controlBit b e k rb u re (.himark k') rest) :
    Yields ({ l.wire with toTx := rest }.receiveReply ((Notice.himark k').packet !controlBit))
      fun wire ↦ ∃ j, { l with wire }.Linked s controlBit b e f j rb u re d log fin ∧
        wire.tx.finalEnd e = l.wire.tx.finalEnd e ∧ k ≤ j ∧ wire.rx = l.wire.rx ∧
        wire.toRx = l.wire.toRx ∧ wire.toTx = rest ∧ wire.tx.state = l.wire.tx.state ∧
        (k' < b + 2048 → l.wire.tx.state = .connected → k' = j) := by
  generalize hid : ((Notice.himark k').packet !controlBit).seqId = seqId
  have hseq : seqId = (SeqNum.ofPos k').raw &&& 0x0FFF#16 := by
    rw [← hid, Sent.seqId, Notice.header_himark, getPacketSeq_format]
  have hwire : { l.wire with toTx := rest }.receiveReply ((Notice.himark k').packet !controlBit) =
      .ok { l.wire with
        tx := (l.wire.tx.updateRecvHimark (!controlBit) seqId).1
        toTx := rest } := by
    rw [Wire.receiveReply, Sent.type, Notice.header_himark, getPacketType_format,
      getPacketControlBit_format, hid]
    rfl
  refine ⟨_, hwire, ?_⟩
  rcases h.tx.updateRecvHimark (!controlBit) seqId with hignored | ⟨p, hp, hm, htx⟩
  · have hstays := h.himark_stays hseq hy
    rw [hignored]
    refine ⟨k, ?_, rfl, le_refl k, rfl, rfl, rfl, rfl, fun hnear hst ↦ hstays hnear hst hignored⟩
    exact h.of_tx h.tx (.refl e f log fin) rfl rfl h.acked h.himark_le h.accepted h.opened
      h.ending h.front h.marks (hrest.mono fun z r hz ↦ hz.1)
  · revert htx hm
    generalize (l.wire.tx.updateRecvHimark (!controlBit) seqId).1 = tx
    intro hm htx
    obtain rfl := h.himark_moves hseq hy hp hm
    have hpath := Path.single hm
    have hmark (P : Int → Prop) (hP : l.wire.tx.MarkedOnly b e P) : tx.MarkedOnly b e P :=
      hP.path h.tx.spans hpath (by simp)
    have heos : tx.endOfStream = l.wire.tx.endOfStream := by cases hm; rfl
    have hfinal : tx.finalEnd e = l.wire.tx.finalEnd e := by cases hm; rfl
    have hst : tx.state = l.wire.tx.state := by cases hm; rfl
    refine ⟨p, ?_, hfinal, hy.2.1, rfl, rfl, rfl, hst, fun _ _ ↦ rfl⟩
    apply h.of_tx htx (.refl e f log fin) (Transmitter.path_controlBit hpath)
      (Transmitter.path_peerReceiveBufferSize hpath) h.acked hy.2.2 h.accepted
    · rw [heos]
      exact h.opened
    · rw [heos]
      exact h.ending
    · exact hmark _ h.front
    · exact hmark _ h.marks
    · apply hrest.mono
      rintro z (⟨a', bitmap'⟩ | k'') ⟨⟨hz, hr⟩, hlater⟩
      · exact ⟨hz, hr.1, hr.2.1, hmark _ hr.2.2.1, hr.2.2.2⟩
      · exact ⟨hz, hr.1, hlater, hr.2.2⟩

private theorem Linked.deliver {x : Sent} {rest : List Sent} (hx : l.wire.toTx = x :: rest)
    {P : Wire m n → Prop} (hreply : Yields ({ l.wire with toTx := rest }.receiveReply x) P) :
    Yields (l.step .deliverToTx) fun l' ↦ l' = { l with wire := l'.wire } ∧ P l'.wire := by
  obtain ⟨wire, hok, hP⟩ := hreply
  refine ⟨{ l with wire }, ?_, rfl, hP⟩
  rw [step, Wire.step, hx]
  dsimp only
  rw [hok, map_eq_ok]
  refine ⟨wire, rfl, ?_⟩
  simp only [taken, given, List.append_nil, reduceCtorEq, decide_false, Bool.or_false]

/-- The first notice under way reaches the transmitter. -/
theorem Linked.deliverToTx (h : l.Linked s controlBit b e f k rb u re d log fin) {x : Sent}
    {rest : List Sent} (hx : l.wire.toTx = x :: rest) :
    Yields (l.step .deliverToTx) fun l' ↦
      ∃ b' e' k' fin', l'.Linked s controlBit b' e' f k' rb u re d log fin' ∧ b ≤ b' ∧ e ≤ e' ∧
        l'.wire.tx.finalEnd e' ≤ l.wire.tx.finalEnd e ∧ k ≤ k' ∧ l'.wire.rx = l.wire.rx ∧
        l'.wire.toRx = l.wire.toRx ∧ l'.wire.toTx = rest ∧
        (l'.wire.tx.state = .connected → l.wire.tx.state = .connected) ∧
        (∀ bitmap, x = (Notice.ack u bitmap).packet (!controlBit) → u ≤ b') ∧
        (∀ j, x = (Notice.himark j).packet (!controlBit) → k ≤ j → j ≤ rb + 2 ^ n.val →
          j < b + 2048 → l.wire.tx.state = .connected → j = k') := by
  have hreplies := h.replies
  rw [hx] at hreplies
  obtain ⟨y, ⟨rfl, hy⟩, hrest⟩ := hreplies.pop
  cases y with
  | ack a bitmap =>
    obtain ⟨l', hok, hl', e', fin', hlinked, he, hfinal, hrx, htoRx, htoTx, hst⟩ :=
      Linked.deliver hx (h.receive_ack hy hrest)
    rw [← hl'] at hlinked
    refine ⟨l', hok, a, e', k, fin', hlinked, hy.1, he, hfinal, le_refl k, hrx, htoRx, htoTx, hst,
      fun bitmap' heq ↦ ?_, fun j heq ↦ absurd heq Notice.ack_ne_himark⟩
    have hcm := capacity_le m
    have hus := h.tx.spans.used
    have hfe := h.tx.scheduled.ordered.le_end
    have hue := h.rx.sink.window.le_end
    have hrec := h.received
    have hba := hy.1
    have hau := hy.2.1
    exact ((SeqNum.ofPos_eq (by omega) (by omega)).mp (congrArg Sent.seq heq)).ge
  | himark k' =>
    obtain ⟨l', hok, hl', j', hlinked, hfinal, hk, hrx, htoRx, htoTx, hst, htaken⟩ :=
      Linked.deliver hx (h.receive_himark hy hrest)
    rw [← hl'] at hlinked
    refine ⟨l', hok, b, e, j', fin, hlinked, le_refl b, le_refl e, hfinal.le, hk, hrx, htoRx,
      htoTx, fun hc ↦ hst.symm.trans hc, fun bitmap heq ↦ absurd heq.symm Notice.ack_ne_himark,
      fun j heq hj hj' hnear hconn ↦ ?_⟩
    have hcm := capacity_le m
    have hcn := capacity_le n
    have hend := h.tx.credit.end_le
    have hclose := h.wire.himark_near hy.2.2
    have hclose' := h.wire.himark_near hj'
    have hkk := hy.2.1
    obtain rfl : k' = j := (SeqNum.ofPos_eq (by omega) (by omega)).mp (congrArg Sent.seq heq)
    exact htaken hnear hconn

private theorem Linked.loseToRx (h : l.Linked s controlBit b e f k rb u re d log fin) (i : Nat) :
    Yields (l.step (.loseToRx i)) fun l' ↦ l'.Linked s controlBit b e f k rb u re d log fin := by
  refine ⟨_, rfl, ?_⟩
  simp only [taken, given, List.append_nil, reduceCtorEq, decide_false, Bool.or_false]
  exact { h with data := h.data.lose i }

private theorem Linked.loseToTx (h : l.Linked s controlBit b e f k rb u re d log fin) (i : Nat) :
    Yields (l.step (.loseToTx i)) fun l' ↦ l'.Linked s controlBit b e f k rb u re d log fin := by
  refine ⟨_, rfl, ?_⟩
  simp only [taken, given, List.append_nil, reduceCtorEq, decide_false, Bool.or_false]
  exact { h with replies := h.replies.lose i }

/-- Timers are allowed to run longer. -/
theorem Linked.mono {d' : Uptime} (h : l.Linked s controlBit b e f k rb u re d log fin)
    (hd : d ≤ d') : l.Linked s controlBit b e f k rb u re d' log fin :=
  { h with
    tx := { h.tx with dueBy := fun p hl hu ↦ (h.tx.dueBy p hl hu).trans hd }
    rx := { h.rx with dueBy := h.rx.dueBy.trans hd } }

/-- What was read is what was written, as far as it goes. -/
theorem Linked.read_prefix (h : l.Linked s controlBit b e f k rb u re d log fin) :
    l.read <+: l.accepted := by
  have hstart := h.rx.sink.start_le
  have hle := h.rx.sink.window.spans.le
  have hrec := h.received
  have hfe := h.tx.scheduled.ordered.le_end
  rw [h.rx.sink.read_eq, h.accepted]
  rcases eq_or_lt_of_le (show rb ≤ e by omega) with rfl | hlt
  · obtain rfl : re = rb := by omega
    rw [h.rx.sink.front.offset_eq_zero h.rx.sink.window.spans, List.take_zero, List.append_nil]
  · rw [← span_append log (show s ≤ rb + 1 by omega) hlt, span_succ log hstart, List.append_assoc]
    apply (List.prefix_append_right_inj _).mpr
    exact (List.take_prefix _ _).trans (List.prefix_append _ _)

/-- With nothing left to read, all that was written was read. -/
theorem Linked.read_all (h : l.Linked s controlBit b e f k rb u re d log fin) (hrb : rb = e) :
    l.read = l.accepted := by
  have hle := h.rx.sink.window.spans.le
  have hrec := h.received
  have hfe := h.tx.scheduled.ordered.le_end
  obtain rfl : re = rb := by omega
  rw [h.rx.sink.read_eq, h.accepted, h.rx.sink.front.offset_eq_zero h.rx.sink.window.spans,
    List.take_zero, List.append_nil, hrb]

/-- The end of the stream is seen once everything was read. -/
theorem Linked.ended (h : l.Linked s controlBit b e f k rb u re d log fin)
    (heos : l.wire.rx.endOfStream = true) : l.closed = true ∧ l.read = l.accepted := by
  have hfin := h.rx.sink.ended heos
  have hlast := (h.tx.sender.source.final _ hfin).1
  have hle := h.rx.sink.window.spans.le
  have hrec := h.received
  have hfe := h.tx.scheduled.ordered.le_end
  constructor
  · by_contra hcl
    have hnone := (h.opened (by simpa using hcl)).2
    exact absurd (hfin.symm.trans hnone) (by simp)
  · exact h.read_all (by omega)

end

/-! ### Every run -/

/-- The clock that a call reads. -/
def clock : Wire.Act → Uptime
  | .getBufferToSend now _ _ => now
  | .updateRecvHimark now _ => now
  | _ => 0

/-- The ends are linked by some stream, and no timer runs past `d`. -/
def Sound (l : Lane m n) (s : Int) (controlBit : Bool) (d : Uptime) : Prop :=
  ∃ b e f k rb u re log fin, l.Linked s controlBit b e f k rb u re d log fin

section

variable {l l' l0 : Lane m n} {s : Int} {controlBit : Bool} {d : Uptime}

/-- A later deadline does as well. -/
theorem Sound.mono {d' : Uptime} (h : l.Sound s controlBit d) (hd : d ≤ d') :
    l.Sound s controlBit d' := by
  obtain ⟨b, e, f, k, rb, u, re, log, fin, hl⟩ := h
  exact ⟨b, e, f, k, rb, u, re, log, fin, hl.mono hd⟩

/-- Every step succeeds and keeps the ends linked, while the reader leaves its end open. -/
theorem Sound.step {a : Wire.Act} (hl : l.Sound s controlBit d) (hg : l.InputOpen a)
    (hd : clock a + 2 ^ 32 ≤ d) : Yields (l.step a) (·.Sound s controlBit d) := by
  obtain ⟨b, e, f, k, rb, u, re, log, fin, h⟩ := hl
  have hsame : l.Sound s controlBit d := ⟨b, e, f, k, rb, u, re, log, fin, h⟩
  have hlook : { l with wire := { l.wire with rx := l.wire.rx.look } }.Sound s controlBit d :=
    ⟨b, e, f, k, rb, u, re, log, fin, h.look⟩
  cases a with
  | tryWrite buf =>
    refine (h.tryWrite buf).mono ?_
    rintro l1 ⟨e', log', h1⟩
    exact ⟨b, e', f, k, rb, u, re, log', fin, h1⟩
  | flush => exact h.flush.mono fun l1 h1 ↦ ⟨b, e, f, k, rb, u, re, log, fin, h1⟩
  | close =>
    refine h.close.mono ?_
    rintro l1 ⟨e', fin', h1⟩
    exact ⟨b, e', f, k, rb, u, re, log, fin', h1⟩
  | getBufferToSend now draw next =>
    refine (h.getBufferToSend hd draw next).mono ?_
    rintro l1 ⟨f', h1, _⟩
    exact ⟨b, e, f', k, rb, u, re, log, fin, h1⟩
  | tryRead count =>
    refine (h.tryRead count).mono ?_
    rintro l1 ⟨rb', h1, _⟩
    exact ⟨b, e, f, k, rb', u, re, log, fin, h1⟩
  | peek =>
    refine ⟨_, rfl, ?_⟩
    simp only [taken, given, List.append_nil, reduceCtorEq, decide_false, Bool.or_false,
      Receiver.peek_fst]
    exact hlook
  | availableForRead =>
    refine ⟨_, rfl, ?_⟩
    simp only [taken, given, List.append_nil, reduceCtorEq, decide_false, Bool.or_false,
      Receiver.availableForRead_fst]
    exact hlook
  | markInputClosed => exact absurd rfl hg
  | ack => exact h.ack.mono fun l1 h1 ↦ ⟨b, e, f, k, rb, u, re, log, fin, h1.1⟩
  | updateRecvHimark now next =>
    have hnow : now + 100000 ≤ d := le_trans (Nat.add_le_add_left (by norm_num) now) hd
    exact (h.updateRecvHimark hnow next).mono fun l1 h1 ↦ ⟨b, e, f, k, rb, u, re, log, fin, h1.1⟩
  | deliverToRx =>
    cases hx : l.wire.toRx with
    | nil =>
      rw [Lane.step, Wire.step, hx]
      refine ⟨_, rfl, ?_⟩
      simp only [taken, given, List.append_nil, reduceCtorEq, decide_false, Bool.or_false]
      exact hsame
    | cons x rest =>
      refine (h.deliverToRx hx).mono ?_
      rintro l1 ⟨u', re', h1, _⟩
      exact ⟨b, e, f, k, rb, u', re', log, fin, h1⟩
  | deliverToTx =>
    cases hx : l.wire.toTx with
    | nil =>
      rw [Lane.step, Wire.step, hx]
      refine ⟨_, rfl, ?_⟩
      simp only [taken, given, List.append_nil, reduceCtorEq, decide_false, Bool.or_false]
      exact hsame
    | cons x rest =>
      refine (h.deliverToTx hx).mono ?_
      rintro l1 ⟨b', e', k', fin', h1, _⟩
      exact ⟨b', e', f, k', rb, u, re, log, fin', h1⟩
  | loseToRx i => exact (h.loseToRx i).mono fun l1 h1 ↦ ⟨b, e, f, k, rb, u, re, log, fin, h1⟩
  | loseToTx i => exact (h.loseToTx i).mono fun l1 h1 ↦ ⟨b, e, f, k, rb, u, re, log, fin, h1⟩

/-- A lane starts out with an empty stream. -/
theorem sound_start {txStreamId rxStreamId : UInt32} {seq : SeqNum}
    (h0 : start m n txStreamId rxStreamId seq controlBit = .ok l) (d : Uptime) :
    l.Sound seq.raw.toNat controlBit d := by
  have hcap := capacity_le n
  obtain ⟨w, hw, rfl⟩ := map_eq_ok.mp h0
  obtain ⟨tx, htx, hrest⟩ := bind_eq_ok.mp hw
  obtain ⟨tx', hnone, hrest⟩ := bind_eq_ok.mp hrest
  cases hnone
  obtain ⟨rx, hrx, rfl⟩ := map_eq_ok.mp hrest
  rw [Receiver.reconnect_ok] at hrx
  cases hrx
  have hdrain := Receiver.draining_reconnected (r := Receiver.new n) (s := seq.raw.toNat) rfl
    (fun _ ↦ ⟨Nat.zero_le _, Nat.zero_le _⟩) (Nat.zero_le d) rxStreamId !controlBit
  rw [SeqNum.ofPos_raw] at hdrain
  rw [← SeqNum.ofPos_raw seq] at htx
  have hsize : 2 ^ n.val ≤ 1024 := by exact_mod_cast hcap
  have hstream :=
    Transmitter.streaming_setConnected (Transmitter.checked_new m) htx hsize controlBit d
  rw [Transmitter.init_ok] at htx
  refine ⟨_, _, _, _, _, _, _, _, _, ⟨hstream, hdrain, rfl, rfl, rfl, by simp, fun _ ↦ ⟨?_, rfl⟩,
    by simp, le_refl _, le_refl _, ?_, fun p _ _ ↦ by omega, fun p _ _ ↦ by omega, .nil, .nil⟩⟩
  · cases htx
    rfl
  · push_cast
    exact le_refl _

/-- In every run the ends are linked. -/
theorem sound_of_reachable {txStreamId rxStreamId : UInt32} {seq : SeqNum}
    (h0 : start m n txStreamId rxStreamId seq controlBit = .ok l0)
    (hr : Reachable step InputOpen l0 l) : ∃ d, l.Sound seq.raw.toNat controlBit d := by
  apply hr.invariant (fun l ↦ ∃ d, l.Sound seq.raw.toNat controlBit d)
  · exact ⟨0, sound_start h0 0⟩
  · rintro l a l' ⟨d, hl⟩ hg hs
    obtain ⟨l1, hok, h1⟩ := (hl.mono (le_max_left d (clock a + 2 ^ 32))).step hg (le_max_right d _)
    obtain rfl : l1 = l' := Except.ok.inj (hok.symm.trans hs)
    exact ⟨_, h1⟩

/-- Over a medium that loses packets but keeps their order, what is read is always a prefix of
what was written, the reader meets the end of the stream only after it has read everything and
the writer has closed, and nothing that either side does fails a check. -/
theorem delivers_over_ordered_medium {txStreamId rxStreamId : UInt32} {seq : SeqNum}
    (h0 : start m n txStreamId rxStreamId seq controlBit = .ok l0)
    (hr : Reachable step InputOpen l0 l) :
    l.read <+: l.accepted ∧
      (l.wire.rx.endOfStream = true → l.closed = true ∧ l.read = l.accepted) ∧
      ∀ a, l.InputOpen a → ∃ l', l.step a = .ok l' := by
  obtain ⟨d, hl⟩ := sound_of_reachable h0 hr
  refine ⟨?_, ?_, fun a hg ↦ ?_⟩
  · obtain ⟨b, e, f, k, rb, u, re, log, fin, h⟩ := hl
    exact h.read_prefix
  · obtain ⟨b, e, f, k, rb, u, re, log, fin, h⟩ := hl
    exact h.ended
  · obtain ⟨l', hok, -⟩ := (hl.mono (le_max_left d (clock a + 2 ^ 32))).step hg (le_max_right d _)
    exact ⟨l', hok⟩

end

/-- Two ends connected at sequence number zero. -/
def connectedAtZero (m n : LinkBufferSize) : Lane m n where
  wire :=
    { tx := { Transmitter.new m with
        myStreamId := 1
        state := .connected
        peerReceiveBufferSize := 2 ^ n.val
        recvHimark := (SeqNum.mk 0).add (2 ^ n.val) }
      rx := { Receiver.new n with
        myStreamId := 2
        state := .connected
        controlBit := true }
      toRx := []
      toTx := [] }
  accepted := []
  read := []
  closed := false

/-- A stream whose first packet is lost, and sent again once it is due. -/
theorem delivers_over_ordered_medium_lossy : ∃ l : Lane 1 1,
    start 1 1 1 2 ⟨0⟩ false = .ok (connectedAtZero 1 1) ∧
      Reachable step InputOpen (connectedAtZero 1 1) l ∧ l.wire.rx.endOfStream = true ∧
      l.accepted = [7, 8] ∧ l.read = l.accepted := by
  obtain ⟨l, hl, ht⟩ := Reachable.of_test step InputOpen (connectedAtZero 1 1)
    [.tryWrite [7, 8], .close, .getBufferToSend 0 0 0, .loseToRx 0, .getBufferToSend 0 0 0,
      .deliverToRx, .ack, .deliverToTx, .getBufferToSend 5000000 0 0, .deliverToRx, .tryRead 4]
    (fun l ↦ l.wire.rx.endOfStream = true ∧ l.accepted = [7, 8]) (by decide) (by decide)
  obtain ⟨heos, hacc⟩ := of_decide_eq_true ht
  have hstart : start 1 1 1 2 ⟨0⟩ false = .ok (connectedAtZero 1 1) := rfl
  exact ⟨l, hstart, hl, heos, hacc, ((delivers_over_ordered_medium hstart hl).2.1 heos).2⟩

end Lane

end RooTransport.Link
